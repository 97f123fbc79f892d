import Mathlib.Data.List.Nodup

namespace BorgManager.Tables

variable {α κ : Type} [DecidableEq κ] {key : α → κ}

/-- The rows of a table, each with a key of its own. -/
@[ext] structure Table (α : Type) {κ : Type} (key : α → κ) where
  rows : List α
  nodup : (rows.map key).Nodup

namespace Table

omit [DecidableEq κ] in
theorem map_rows {f : α → α} (hf : ∀ row, key (f row) = key row) (rows : List α) :
    (rows.map f).map key = rows.map key := by
  rw [List.map_map]
  exact List.map_congr_left (fun row _ => hf row)

/-- `SELECT COUNT(*)` with a condition. -/
def count (t : Table α key) (p : α → Bool) : Nat := t.rows.countP p

/-- `UPDATE` with a condition, and the number of its rows. -/
def update (t : Table α key) (p : α → Bool) (f : α → α) (hf : ∀ row, key (f row) = key row) : Table α key × Nat :=
  (⟨t.rows.map (fun row => if p row then f row else row), by
    rw [map_rows (fun row => by split <;> simp [hf])]
    exact t.nodup⟩, t.count p)

/-- `DELETE` of the rows with one of the keys. -/
def delete (t : Table α key) (keys : List κ) : Table α key × Nat :=
  (⟨t.rows.filter (fun row => !decide (key row ∈ keys)), t.nodup.sublist (List.filter_sublist.map key)⟩,
    t.count (fun row => decide (key row ∈ keys)))

/-- The keys of the rows with a condition. -/
def select (t : Table α key) (p : α → Bool) : List κ := (t.rows.filter p).map key

/-- `UPDATE` of the row with the key of this one. -/
def put (t : Table α key) (row : α) : Table α key where
  rows := t.rows.map (fun old => if key old = key row then row else old)
  nodup := by
    rw [map_rows (fun old => by split <;> simp_all)]
    exact t.nodup

variable {t : Table α key} {p : α → Bool}

omit [DecidableEq κ] in
theorem key_unique (t : Table α key) {row other : α} (hrow : row ∈ t.rows) (hother : other ∈ t.rows)
    (h : key row = key other) :
    row = other := List.inj_on_of_nodup_map t.nodup hrow hother h

omit [DecidableEq κ] in
theorem mem_select (t : Table α key) (p : α → Bool) {row : α} (hrow : row ∈ t.rows) :
    key row ∈ t.select p ↔ p row = true := by
  rw [select, List.mem_map]
  constructor
  · rintro ⟨other, hother, hkey⟩
    rw [List.mem_filter] at hother
    rw [t.key_unique hrow hother.1 hkey.symm]
    exact hother.2
  · exact fun h => ⟨row, List.mem_filter.mpr ⟨hrow, h⟩, rfl⟩

/-- Exactly the selected rows are deleted. -/
theorem delete_select (t : Table α key) (p : α → Bool) :
    (t.delete (t.select p)).1.rows = t.rows.filter (fun row => !p row) ∧ (t.delete (t.select p)).2 = t.count p := by
  have hsame : ∀ row ∈ t.rows, decide (key row ∈ t.select p) = p row := by
    intro row hrow
    rw [Bool.eq_iff_iff, decide_eq_true_eq, t.mem_select p hrow]
  constructor
  · exact List.filter_congr (fun row hrow => by rw [hsame row hrow])
  · exact List.countP_congr (fun row hrow => by rw [hsame row hrow])

theorem count_delete (t : Table α key) (p : α → Bool) : (t.delete (t.select p)).1.count p = 0 := by
  rw [count, (t.delete_select p).1, List.countP_eq_zero]
  intro row hrow
  simpa using (List.mem_filter.mp hrow).2

theorem delete_none (h : t.count p = 0) : t.delete (t.select p) = (t, 0) := by
  have hnone := List.countP_eq_zero.mp h
  obtain ⟨hrows, hcount⟩ := t.delete_select p
  refine Prod.ext (Table.ext ?_) (hcount.trans h)
  rw [hrows, List.filter_eq_self]
  intro row hrow
  rw [Bool.eq_false_iff.mpr (hnone row hrow), Bool.not_false]

variable {f : α → α} {hf : ∀ row, key (f row) = key row}

omit [DecidableEq κ] in
theorem count_update (h : ∀ row, p row = true → p (f row) = false) : (t.update p f hf).1.count p = 0 := by
  rw [count, List.countP_eq_zero]
  intro row hrow
  obtain ⟨old, -, rfl⟩ := List.mem_map.mp hrow
  by_cases hp : p old = true
  · rw [if_pos hp, h old hp]
    exact Bool.false_ne_true
  · rwa [if_neg hp]

omit [DecidableEq κ] in
theorem update_none (h : t.count p = 0) : t.update p f hf = (t, 0) := by
  have hnone := List.countP_eq_zero.mp h
  refine Prod.ext (Table.ext ?_) h
  refine (List.map_congr_left (fun row hrow => ?_)).trans (List.map_id _)
  rw [if_neg (hnone row hrow), id]

theorem put_rows (t : Table α key) (news : List α) (h : (news.map key).Nodup) :
    (news.foldl put t).rows = t.rows.map
    (fun old => (news.find? (fun row => decide (key row = key old))).getD old) := by
  induction news generalizing t with
  | nil => exact (List.map_id _).symm
  | cons row news ih =>
      rw [List.map_cons, List.nodup_cons] at h
      rw [List.foldl_cons, ih (t.put row) h.2, put, List.map_map]
      refine List.map_congr_left (fun old hold => ?_)
      rw [Function.comp_apply, List.find?_cons]
      by_cases hkey : key old = key row
      · have hlater : news.find? (fun other => decide (key other = key row)) = none := by
          rw [List.find?_eq_none]
          intro other hother heq
          exact h.1 (List.mem_map.mpr ⟨other, hother, of_decide_eq_true heq⟩)
        rw [if_pos hkey, hlater, hkey, decide_eq_true rfl]
        rfl
      · rw [if_neg hkey, decide_eq_false (Ne.symm hkey)]

/-- What is written for some of the rows replaces just these. -/
theorem rewrite_rows (t : Table α key) {g : α → Option α} (hg : ∀ row new, g row = some new → key new = key row) :
    ((t.rows.filterMap g).foldl put t).rows = t.rows.map (fun row => (g row).getD row) := by
  have hkeys {rows : List α} (hrows : (rows.map key).Nodup) :
      ((rows.filterMap g).map key).Nodup ∧ ∀ row ∈ rows,
        (rows.filterMap g).find? (fun new => decide (key new = key row)) = g row := by
    induction rows with
    | nil => exact ⟨List.nodup_nil, by rintro row ⟨⟩⟩
    | cons row rows ih =>
        rw [List.map_cons, List.nodup_cons] at hrows
        obtain ⟨hnodup, hfind⟩ := ih hrows.2
        have hold {new : α} (hnew : new ∈ rows.filterMap g) : key new ≠ key row := by
          obtain ⟨other, hother, hsome⟩ := List.mem_filterMap.mp hnew
          rw [hg other new hsome]
          exact fun heq => hrows.1 (List.mem_map.mpr ⟨other, hother, heq⟩)
        have hother {other : α} (hother : other ∈ rows) : key row ≠ key other :=
          fun heq => hrows.1 (List.mem_map.mpr ⟨other, hother, heq.symm⟩)
        rw [List.filterMap_cons]
        cases hrow : g row with
        | none =>
            refine ⟨hnodup, fun other hmem => ?_⟩
            rcases List.mem_cons.mp hmem with rfl | hmem
            · rw [hrow, List.find?_eq_none]
              exact fun new hnew heq => hold hnew (of_decide_eq_true heq)
            · exact hfind other hmem
        | some new =>
            have hkey := hg row new hrow
            constructor
            · rw [List.map_cons, List.nodup_cons, hkey]
              refine ⟨fun hmem => ?_, hnodup⟩
              obtain ⟨other, hmem, heq⟩ := List.mem_map.mp hmem
              exact hold hmem heq
            · intro other hmem
              rw [List.find?_cons]
              rcases List.mem_cons.mp hmem with rfl | hmem
              · rw [hkey, decide_eq_true rfl, hrow]
              · rw [hkey, decide_eq_false (hother hmem)]
                exact hfind other hmem
  obtain ⟨hnodup, hfind⟩ := hkeys t.nodup
  rw [t.put_rows _ hnodup]
  exact List.map_congr_left (fun row hrow => by rw [hfind row hrow])

end Table

end BorgManager.Tables
