import Mathlib.Data.List.Nodup

namespace BorgManager.Dictionaries

/-- A dictionary that keeps its keys in the order in which they came. -/
@[ext] structure Dict (κ α : Type) where
  items : List (κ × α)
  nodup : (items.map Prod.fst).Nodup

variable {κ α : Type} [DecidableEq κ]

namespace Dict

def empty : Dict κ α := ⟨[], List.nodup_nil⟩

def keys (d : Dict κ α) : List κ := d.items.map Prod.fst

def get? (d : Dict κ α) (k : κ) : Option α := (d.items.find? (fun i => i.1 = k)).map Prod.snd

omit [DecidableEq κ] in
theorem map_replace {f : κ × α → κ × α} (hf : ∀ i, (f i).1 = i.1) (items : List (κ × α)) :
    (items.map f).map Prod.fst = items.map Prod.fst := by
  rw [List.map_map]
  exact List.map_congr_left (fun i _ => hf i)

/-- A key that is there keeps its place; a new one comes last. -/
def set (d : Dict κ α) (k : κ) (a : α) : Dict κ α :=
  if h : k ∈ d.keys then
    ⟨d.items.map (fun i => if i.1 = k then (i.1, a) else i), by
      rw [map_replace (fun i => by split <;> rfl)]
      exact d.nodup⟩
  else
    ⟨d.items ++ [(k, a)], by
      rw [List.map_append, List.map_singleton, List.nodup_append_comm, List.singleton_append]
      exact List.nodup_cons.mpr ⟨h, d.nodup⟩⟩

omit [DecidableEq κ] in
/-- The items whose keys satisfy a condition. -/
def filter (d : Dict κ α) (p : κ → Bool) : Dict κ α :=
  ⟨d.items.filter (fun i => p i.1), d.nodup.sublist (List.filter_sublist.map Prod.fst)⟩

def erase (d : Dict κ α) (k : κ) : Dict κ α := d.filter (fun j => !decide (j = k))

/-- The items of another dictionary are set in their order. -/
def update (d e : Dict κ α) : Dict κ α := e.items.foldl (fun d i => d.set i.1 i.2) d

omit [DecidableEq κ] in
/-- Keys and values under another view. -/
def mapValues {β : Type} (d : Dict κ α) (f : κ → α → β) : Dict κ β :=
  ⟨d.items.map (fun i => (i.1, f i.1 i.2)), by
    rw [List.map_map]
    exact d.nodup⟩

variable {d e : Dict κ α} {k j : κ} {a : α}

theorem get?_eq_some : d.get? k = some a ↔ (k, a) ∈ d.items := by
  rw [get?, Option.map_eq_some_iff]
  constructor
  · rintro ⟨i, hfind, rfl⟩
    have hkey : i.1 = k := by simpa using List.find?_some hfind
    rw [← hkey]
    exact List.mem_of_find?_eq_some hfind
  · intro hmem
    cases hfind : d.items.find? (fun i => i.1 = k) with
    | none =>
        have hnone := List.find?_eq_none.mp hfind _ hmem
        simp at hnone
    | some i =>
        have hkey : i.1 = k := by simpa using List.find?_some hfind
        have heq := List.inj_on_of_nodup_map d.nodup (List.mem_of_find?_eq_some hfind) hmem hkey
        exact ⟨i, rfl, by rw [heq]⟩

theorem get?_eq_none : d.get? k = none ↔ k ∉ d.keys := by
  rw [Option.eq_none_iff_forall_not_mem, keys, List.mem_map]
  constructor
  · rintro h ⟨i, hi, rfl⟩
    exact h i.2 (get?_eq_some.mpr hi)
  · exact fun h a ha => h ⟨(k, a), get?_eq_some.mp ha, rfl⟩

@[simp] theorem get?_empty : (empty : Dict κ α).get? k = none := rfl

theorem mem_set {i : κ × α} : i ∈ (d.set k a).items ↔ i = (k, a) ∨ i.1 ≠ k ∧ i ∈ d.items := by
  rw [set]
  split
  · next hmem =>
      simp only [List.mem_map]
      constructor
      · rintro ⟨j, hj, rfl⟩
        by_cases hkey : j.1 = k
        · rw [if_pos hkey]
          exact .inl (by rw [hkey])
        · rw [if_neg hkey]
          exact .inr ⟨hkey, hj⟩
      · rintro (rfl | ⟨hne, hi⟩)
        · obtain ⟨j, hj, hkey⟩ := List.mem_map.mp hmem
          exact ⟨j, hj, by rw [if_pos hkey, hkey]⟩
        · exact ⟨i, hi, if_neg hne⟩
  · next hmem =>
      rw [List.mem_append, List.mem_singleton]
      constructor
      · rintro (hi | rfl)
        · exact .inr ⟨fun heq => hmem (List.mem_map.mpr ⟨i, hi, heq⟩), hi⟩
        · exact .inl rfl
      · rintro (rfl | ⟨-, hi⟩)
        · exact .inr rfl
        · exact .inl hi

@[simp] theorem get?_set : (d.set k a).get? j = if j = k then some a else d.get? j := by
  apply Option.ext
  intro b
  rw [get?_eq_some, mem_set]
  by_cases hkey : j = k
  · simp [hkey, eq_comm]
  · simp [hkey, get?_eq_some]

@[simp] theorem get?_filter (p : κ → Bool) : (d.filter p).get? k = if p k then d.get? k else none := by
  apply Option.ext
  intro b
  rw [get?_eq_some, filter, List.mem_filter]
  cases hp : p k with
  | true => simp [get?_eq_some]
  | false => simp

@[simp] theorem get?_erase : (d.erase k).get? j = if j = k then none else d.get? j := by
  rw [erase, get?_filter]
  by_cases hkey : j = k <;> simp [hkey]

theorem get?_foldl (items : List (κ × α)) (hnodup : (items.map Prod.fst).Nodup) (d : Dict κ α) :
    (items.foldl (fun d i => d.set i.1 i.2) d).get? k = ((items.find? (fun i => i.1 = k)).map Prod.snd).or
    (d.get? k) := by
  induction items generalizing d with
  | nil => rfl
  | cons i items ih =>
      rw [List.map_cons, List.nodup_cons] at hnodup
      rw [List.foldl_cons, ih hnodup.2, get?_set, List.find?_cons]
      by_cases hkey : i.1 = k
      · have hnone : items.find? (fun i => i.1 = k) = none := by
          rw [List.find?_eq_none]
          intro j hj
          simp only [decide_eq_true_eq]
          exact fun heq => hnodup.1 (List.mem_map.mpr ⟨j, hj, heq.trans hkey.symm⟩)
        simp [hkey, hnone]
      · simp [hkey, Ne.symm hkey]

@[simp] theorem get?_update : (d.update e).get? k = (e.get? k).or (d.get? k) := get?_foldl e.items e.nodup d

@[simp] theorem get?_mapValues {β : Type} (f : κ → α → β) : (d.mapValues f).get? k = (d.get? k).map (f k) := by
  apply Option.ext
  intro b
  rw [get?_eq_some, Option.map_eq_some_iff, mapValues, List.mem_map]
  constructor
  · rintro ⟨i, hi, heq⟩
    cases heq
    exact ⟨i.2, get?_eq_some.mpr hi, rfl⟩
  · rintro ⟨a, ha, rfl⟩
    exact ⟨(k, a), get?_eq_some.mp ha, rfl⟩

theorem mem_keys : k ∈ d.keys ↔ ∃ a, d.get? k = some a := by
  rw [← not_iff_not, ← get?_eq_none, Option.eq_none_iff_forall_not_mem, not_exists]
  rfl

theorem mem_keys_set : j ∈ (d.set k a).keys ↔ j = k ∨ j ∈ d.keys := by
  rw [mem_keys, mem_keys, get?_set]
  by_cases hkey : j = k <;> simp [hkey]

theorem mem_keys_update : k ∈ (d.update e).keys ↔ k ∈ e.keys ∨ k ∈ d.keys := by
  rw [mem_keys, mem_keys, mem_keys, get?_update]
  cases e.get? k <;> simp

theorem mem_keys_filter {p : κ → Bool} : k ∈ (d.filter p).keys ↔ p k = true ∧ k ∈ d.keys := by
  rw [mem_keys, mem_keys, get?_filter]
  cases p k <;> simp

theorem filter_set_of_neg {p : κ → Bool} (h : p k = false) : (d.set k a).filter p = d.filter p := by
  ext1
  rw [set]
  split
  · dsimp only [filter]
    rw [List.filter_map]
    have hsame : ∀ i ∈ d.items, ((fun i : κ × α => p i.1) ∘ fun i => if i.1 = k then (i.1, a) else i) i = p i.1 := by
      intro i _
      by_cases hkey : i.1 = k <;> simp [hkey]
    rw [List.filter_congr hsame]
    have hid : ∀ i ∈ d.items.filter (fun i => p i.1), (if i.1 = k then (i.1, a) else i) = id i := by
      intro i hi
      refine if_neg fun hkey => ?_
      rw [List.mem_filter, hkey, h] at hi
      exact Bool.false_ne_true hi.2
    rw [List.map_congr_left hid, List.map_id]
  · dsimp only [filter]
    rw [List.filter_append, List.filter_singleton, h]
    simp

theorem filter_set_of_pos {p : κ → Bool} (h : p k = true) : (d.set k a).filter p = (d.filter p).set k a := by
  have hmem : k ∈ (d.filter p).keys ↔ k ∈ d.keys := by
    rw [mem_keys_filter]
    exact and_iff_right h
  ext1
  rw [set, set]
  by_cases hkey : k ∈ d.keys
  · rw [dif_pos hkey, dif_pos (hmem.mpr hkey)]
    dsimp only [filter]
    rw [List.filter_map]
    have hsame : ∀ i ∈ d.items, ((fun i : κ × α => p i.1) ∘ fun i => if i.1 = k then (i.1, a) else i) i = p i.1 := by
      intro i _
      by_cases hi : i.1 = k <;> simp [hi]
    rw [List.filter_congr hsame]
  · rw [dif_neg hkey, dif_neg (fun hin => hkey (hmem.mp hin))]
    dsimp only [filter]
    rw [List.filter_append, List.filter_singleton, h]
    rfl

theorem filter_update {p : κ → Bool} (h : ∀ k ∈ e.keys, p k = true) :
    (d.update e).filter p = (d.filter p).update e := by
  have hfold : ∀ (items : List (κ × α)) (d : Dict κ α), (∀ i ∈ items, p i.1 = true) →
      (items.foldl (fun d i => d.set i.1 i.2) d).filter p = items.foldl (fun d i => d.set i.1 i.2) (d.filter p) := by
    intro items
    induction items with
    | nil => exact fun _ _ => rfl
    | cons i items ih =>
        intro d hall
        rw [List.foldl_cons, List.foldl_cons, ih _ (fun j hj => hall j (List.mem_cons_of_mem _ hj)),
          filter_set_of_pos (hall i (List.mem_cons_self ..))]
  exact hfold e.items d (fun i hi => h i.1 (List.mem_map.mpr ⟨i, hi, rfl⟩))

theorem length_erase (h : k ∈ d.keys) : (d.erase k).items.length + 1 = d.items.length := by
  have hkeys : (d.erase k).keys = d.keys.erase k := by
    rw [keys, keys, d.nodup.erase_eq_filter, erase, filter, List.filter_map]
    congr 2
  have hlen : (d.erase k).items.length = (d.keys.erase k).length := by rw [← hkeys, keys, List.length_map]
  rw [hlen, List.length_erase_add_one h, keys, List.length_map]

theorem items_set_of_mem {xs ys : List (κ × α)} {b : α} (h : d.items = xs ++ (k, b) :: ys) :
    (d.set k a).items = xs ++ (k, a) :: ys := by
  have hnodup := d.nodup
  rw [h, List.map_append, List.map_cons, List.nodup_append, List.nodup_cons] at hnodup
  have hmem : k ∈ d.keys := by
    rw [keys, h]
    simp
  have hsame : ∀ {zs : List (κ × α)}, k ∉ zs.map Prod.fst → zs.map (fun i => if i.1 = k then (i.1, a) else i) = zs := by
    intro zs hzs
    rw [List.map_congr_left (g := id), List.map_id]
    intro i hi
    exact if_neg fun heq => hzs (List.mem_map.mpr ⟨i, hi, heq⟩)
  rw [set, dif_pos hmem]
  dsimp only
  rw [h, List.map_append, List.map_cons, hsame hnodup.2.1.1,
    hsame (fun hk => hnodup.2.2 k hk k (List.mem_cons_self ..) rfl)]
  simp

theorem length_set_of_mem (h : k ∈ d.keys) : (d.set k a).items.length = d.items.length := by
  rw [set, dif_pos h]
  exact List.length_map ..

theorem items_set_of_not_mem (h : k ∉ d.keys) : (d.set k a).items = d.items ++ [(k, a)] := by
  rw [set, dif_neg h]

end Dict

end BorgManager.Dictionaries
