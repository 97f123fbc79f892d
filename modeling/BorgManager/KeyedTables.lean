import Mathlib.Data.List.Nodup

namespace BorgManager.KeyedTables

/-- The committed rows of a table with a primary key. -/
structure Table (Row : Type) (key : Row → Nat) where
  rows : List Row
  unique : (rows.map key).Nodup

variable {Row α : Type} {key : Row → Nat}

namespace Table

def empty : Table Row key := ⟨[], List.nodup_nil⟩

def ids (t : Table Row key) : List Nat := t.rows.map key

def find? (t : Table Row key) (id : Nat) : Option Row := t.rows.find? (fun row => key row == id)

theorem eq_of_key (t : Table Row key) {a b : Row} (ha : a ∈ t.rows) (hb : b ∈ t.rows)
    (h : key a = key b) : a = b := List.inj_on_of_nodup_map t.unique ha hb h

theorem mem_of_find? {t : Table Row key} {id : Nat} {row : Row} (h : t.find? id = some row) :
    row ∈ t.rows ∧ key row = id :=
  ⟨List.mem_of_find?_eq_some h, by simpa using List.find?_some h⟩

/-- `INSERT`, which a taken key refuses. -/
def insert (t : Table Row key) (row : Row) : Option (Table Row key) :=
  if h : key row ∈ t.ids then none
  else some ⟨t.rows ++ [row], by
    rw [List.map_append, List.map_singleton, List.nodup_append_comm, List.singleton_append]
    exact List.nodup_cons.mpr ⟨h, t.unique⟩⟩

theorem mem_insert {t u : Table Row key} {row : Row} (h : t.insert row = some u) (r : Row) :
    r ∈ u.rows ↔ r ∈ t.rows ∨ r = row := by
  rw [insert] at h
  split at h
  · nomatch h
  · cases h
    simp

theorem insert_fresh {t u : Table Row key} {row : Row} (h : t.insert row = some u) :
    ∀ r ∈ t.rows, key r ≠ key row := by
  intro r hr heq
  have hmem : key row ∈ t.ids := heq ▸ List.mem_map_of_mem hr
  rw [insert, dif_pos hmem] at h
  nomatch h

theorem filterMap_key_sublist {f : Row → Option Row} (hf : ∀ r r', f r = some r' → key r' = key r)
    (rows : List Row) : ((rows.filterMap f).map key).Sublist (rows.map key) := by
  induction rows with
  | nil => exact .slnil
  | cons row rows ih =>
      rw [List.filterMap_cons]
      rcases hrow : f row with _ | row'
      · exact ih.cons _
      · rw [List.map_cons, List.map_cons, hf row row' hrow]
        exact ih.cons_cons _

/-- The `UPDATE` and `DELETE` statements of one flush, row by row. -/
def rewrite (t : Table Row key) (f : Row → Option Row) (hf : ∀ r r', f r = some r' → key r' = key r) :
    Table Row key :=
  ⟨t.rows.filterMap f, t.unique.sublist (filterMap_key_sublist hf t.rows)⟩

theorem mem_rewrite {t : Table Row key} {f : Row → Option Row} {hf : ∀ r r', f r = some r' → key r' = key r}
    {r' : Row} : r' ∈ (t.rewrite f hf).rows ↔ ∃ r ∈ t.rows, f r = some r' := List.mem_filterMap

def delete (t : Table Row key) (id : Nat) : Table Row key :=
  t.rewrite (fun r => if key r = id then none else some r) (by
    intro r r' h
    exact congrArg key (Option.some.inj (Option.ite_none_left_eq_some.mp h).2).symm)

theorem mem_delete {t : Table Row key} {id : Nat} {r : Row} :
    r ∈ (t.delete id).rows ↔ r ∈ t.rows ∧ key r ≠ id := by
  rw [delete, mem_rewrite]
  constructor
  · rintro ⟨row, hrow, h⟩
    obtain ⟨hne, heq⟩ := Option.ite_none_left_eq_some.mp h
    cases heq
    exact ⟨hrow, hne⟩
  · rintro ⟨hrow, hne⟩
    exact ⟨r, hrow, if_neg hne⟩

/-- The row of a key is replaced by a row with the same key. -/
def replace (t : Table Row key) (row : Row) : Table Row key :=
  t.rewrite (fun r => some (if key r = key row then row else r)) (by
    intro r r' h
    cases h
    split
    · next heq => exact heq.symm
    · rfl)

theorem mem_replace {t : Table Row key} {row r : Row} (h : r ∈ (t.replace row).rows) :
    r = row ∨ (r ∈ t.rows ∧ key r ≠ key row) := by
  rw [replace, mem_rewrite] at h
  obtain ⟨old, hold, heq⟩ := h
  split at heq
  · exact .inl (Option.some.inj heq).symm
  · next hne =>
      cases heq
      exact .inr ⟨hold, hne⟩

theorem map_keys {f : Row → Row} (hf : ∀ r, key (f r) = key r) (rows : List Row) :
    (rows.map f).map key = rows.map key := by
  rw [List.map_map]
  exact List.map_congr_left (fun r _ => hf r)

/-- An `UPDATE` that keeps the keys. -/
def map (t : Table Row key) (f : Row → Row) (hf : ∀ r, key (f r) = key r) : Table Row key :=
  ⟨t.rows.map f, by
    rw [map_keys hf]
    exact t.unique⟩

theorem ids_map {t : Table Row key} {f : Row → Row} {hf : ∀ r, key (f r) = key r} : (t.map f hf).ids = t.ids :=
  map_keys hf t.rows

theorem mem_map {t : Table Row key} {f : Row → Row} {hf : ∀ r, key (f r) = key r} {r' : Row} :
    r' ∈ (t.map f hf).rows ↔ ∃ r ∈ t.rows, f r = r' := List.mem_map

theorem mem_ids {t : Table Row key} {id : Nat} : id ∈ t.ids ↔ ∃ r ∈ t.rows, key r = id := List.mem_map

end Table

/-- What a column holds after the `UPDATE` of a row that was loaded earlier:
the column is written if its new value is not the loaded one. -/
def column [DecidableEq α] (loaded new current : α) : α := if new = loaded then current else new

/-- If the statement leaves the column unwritten, then the column still holds
the loaded value. -/
def Kept (loaded new current : α) : Prop := new = loaded → current = loaded

instance [DecidableEq α] (loaded new current : α) : Decidable (Kept loaded new current) :=
  inferInstanceAs (Decidable (new = loaded → current = loaded))

/-- The statement writes no other value than the column already has. -/
def Unmoved (loaded new current : α) : Prop := new = loaded ∨ new = current

instance [DecidableEq α] (loaded new current : α) : Decidable (Unmoved loaded new current) :=
  inferInstanceAs (Decidable (new = loaded ∨ new = current))

theorem column_eq_current_iff [DecidableEq α] {loaded new current : α} :
    column loaded new current = current ↔ Unmoved loaded new current := by
  rw [column, Unmoved]
  split
  · next heq => exact iff_of_true rfl (.inl heq)
  · next hne => exact ⟨.inr, fun h => h.resolve_left hne⟩

theorem column_eq_new_iff [DecidableEq α] {loaded new current : α} :
    column loaded new current = new ↔ Kept loaded new current := by
  rw [column, Kept]
  split
  · next heq =>
      rw [heq]
      exact ⟨fun h _ => h, fun h => h rfl⟩
  · next hne => exact iff_of_true rfl (fun heq => absurd heq hne)

end BorgManager.KeyedTables
