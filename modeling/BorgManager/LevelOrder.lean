import Mathlib.Data.List.Nodup
import Mathlib.Logic.Function.Iterate

namespace BorgManager.LevelOrder

/-- What a search makes of a child: it does not count, or it counts, may be
something that is looked for, and may be opened in its turn. -/
inductive Verdict (β : Type)
  | ignored
  | visited (found : Option β) (opens : Bool)

structure Tally (β : Type) where
  scanned : Nat
  found : List β

structure Limits where
  scanned : Nat
  found : Nat
  depth : Nat

variable {α β : Type} (children : α → List α) (judge : α → Verdict β)

def foundOf (y : α) : Option β :=
  match judge y with
  | .ignored => none
  | .visited found _ => found

def opens (y : α) : Bool :=
  match judge y with
  | .ignored => false
  | .visited _ o => o

def counts (y : α) : Nat :=
  match judge y with
  | .ignored => 0
  | .visited .. => 1

def Tally.count (t : Tally β) (y : α) : Tally β := ⟨t.scanned + counts judge y, t.found ++ (foundOf judge y).toList⟩

/-- The children of one node, up to the limit; what is to be opened comes back
in its order. -/
def scan (limit : Nat) : List α → Tally β → Tally β × List α
  | [], t => (t, [])
  | y :: ys, t =>
      if limit ≤ t.scanned then (t, [])
      else
        let rest := scan limit ys (t.count judge y)
        (rest.1, if opens judge y then y :: rest.2 else rest.2)

def Tally.open (l : Limits) (t : Tally β) : Bool := decide (t.scanned < l.scanned) && decide (t.found.length < l.found)

/-- A search that takes nodes from the front of a queue. -/
def search (l : Limits) : Nat → List (α × Nat) → Tally β → Tally β
  | 0, _, t => t
  | _ + 1, [], t => t
  | n + 1, (x, depth) :: queue, t =>
      if t.open l then
        let next := scan judge l.scanned (children x) t
        search l n (queue ++ if depth + 1 < l.depth then next.2.map (fun y => (y, depth + 1)) else []) next.1
      else t

def found (nodes : List α) : List β := (nodes.flatMap children).filterMap (foundOf judge)

def nextLevel (nodes : List α) : List α := (nodes.flatMap children).filter (opens judge)

/-- What is found level by level. -/
def levelOrder : Nat → List α → List β
  | 0, _ => []
  | n + 1, nodes => found children judge nodes ++ levelOrder n (nextLevel children judge nodes)

/-- The nodes a search opens, with their depths. -/
inductive Opened (root : α) : Nat → α → Prop
  | root : Opened root 0 root
  | child {n x y} (parent : Opened root n x) (mem : y ∈ children x)
      (opens : opens judge y = true) : Opened root (n + 1) y

section Levels

variable {children judge}

theorem levelOrder_nil (n : Nat) : levelOrder children judge n [] = [] := by
  induction n with
  | zero => rfl
  | succ n ih => exact ih

theorem mem_levelOrder {n : Nat} {nodes : List α} {b : β} : b ∈ levelOrder children judge n nodes ↔
    ∃ k < n, ∃ x ∈ (nextLevel children judge)^[k] nodes, ∃ y ∈ children x, foundOf judge y = some b := by
  induction n generalizing nodes with
  | zero => simp [levelOrder]
  | succ n ih =>
      rw [levelOrder, List.mem_append, ih, found, List.mem_filterMap]
      constructor
      · rintro (⟨y, hy, hfound⟩ | ⟨k, hk, x, hx, hrest⟩)
        · obtain ⟨x, hx, hy⟩ := List.mem_flatMap.mp hy
          exact ⟨0, Nat.succ_pos n, x, hx, y, hy, hfound⟩
        · exact ⟨k + 1, Nat.succ_lt_succ hk, x, hx, hrest⟩
      · rintro ⟨k, hk, x, hx, y, hy, hfound⟩
        cases k with
        | zero => exact .inl ⟨y, List.mem_flatMap.mpr ⟨x, hx, hy⟩, hfound⟩
        | succ k => exact .inr ⟨k, Nat.lt_of_succ_lt_succ hk, x, hx, y, hy, hfound⟩

theorem mem_iterate {root x : α} {k : Nat} :
    x ∈ (nextLevel children judge)^[k] [root] ↔ Opened children judge root k x := by
  induction k generalizing x with
  | zero =>
      rw [Function.iterate_zero, id, List.mem_singleton]
      constructor
      · rintro rfl
        exact .root
      · rintro ⟨⟩
        rfl
  | succ k ih =>
      rw [Function.iterate_succ_apply', nextLevel, List.mem_filter, List.mem_flatMap]
      constructor
      · rintro ⟨⟨parent, hparent, hmem⟩, hopens⟩
        exact .child (ih.mp hparent) hmem hopens
      · rintro (_ | ⟨parent, hmem, hopens⟩)
        exact ⟨⟨_, ih.mpr parent, hmem⟩, hopens⟩

end Levels

section Keys

variable {children judge} {κ : Type} {path : α → List κ} {key : β → List κ} {good : α → Prop}

/-- Where every child adds to the path of its parent, no level holds a path
twice, if the level before did not. -/
theorem nodup_children {nodes : List α} (hgood : ∀ x ∈ nodes, good x)
    (hpath : ∀ x y, y ∈ children x → ∃ k, path y = path x ++ [k])
    (hchildren : ∀ x, good x → ((children x).map path).Nodup) (hnodes : (nodes.map path).Nodup) :
    ((nodes.flatMap children).map path).Nodup := by
  induction nodes with
  | nil => exact List.nodup_nil
  | cons x nodes ih =>
      rw [List.map_cons, List.nodup_cons] at hnodes
      rw [List.flatMap_cons, List.map_append]
      refine List.Nodup.append (hchildren x (hgood x (List.mem_cons_self ..)))
        (ih (fun y hy => hgood y (List.mem_cons_of_mem _ hy)) hnodes.2) ?_
      intro p hp hp'
      obtain ⟨y, hy, rfl⟩ := List.mem_map.mp hp
      obtain ⟨y', hy', heq⟩ := List.mem_map.mp hp'
      obtain ⟨x', hx', hmem⟩ := List.mem_flatMap.mp hy'
      obtain ⟨k, hk⟩ := hpath x y hy
      obtain ⟨k', hk'⟩ := hpath x' y' hmem
      rw [hk, hk'] at heq
      exact hnodes.1 (List.mem_map.mpr ⟨x', hx', (List.append_inj_left' heq rfl)⟩)

variable (path key good) in
/-- What lies deeper is found later, and nothing twice. -/
theorem levelOrder_pairwise {n r : Nat} {nodes : List α} (hgood : ∀ x ∈ nodes, good x)
    (hkeeps : ∀ x y, good x → y ∈ children x → good y) (hpath : ∀ x y, y ∈ children x → ∃ k, path y = path x ++ [k])
    (hchildren : ∀ x, good x → ((children x).map path).Nodup)
    (hkey : ∀ x y b, good x → y ∈ children x → foundOf judge y = some b → key b = path y)
    (hnodes : (nodes.map path).Nodup) (hr : ∀ x ∈ nodes, (path x).length = r) :
    (levelOrder children judge n nodes).Pairwise (fun a b => (key a).length ≤ (key b).length ∧ key a ≠ key b) ∧
      ∀ b ∈ levelOrder children judge n nodes, r < (key b).length := by
  induction n generalizing nodes r with
  | zero => exact ⟨List.Pairwise.nil, fun b hb => (List.not_mem_nil hb).elim⟩
  | succ n ih =>
      have hall := nodup_children hgood hpath hchildren hnodes
      have hlength : ∀ y ∈ nodes.flatMap children, (path y).length = r + 1 := by
        intro y hy
        obtain ⟨x, hx, hmem⟩ := List.mem_flatMap.mp hy
        obtain ⟨k, hk⟩ := hpath x y hmem
        rw [hk, List.length_append, hr x hx, List.length_singleton]
      have hsub : (nextLevel children judge nodes).Sublist (nodes.flatMap children) := List.filter_sublist
      have hgood' : ∀ y ∈ nextLevel children judge nodes, good y := by
        intro y hy
        obtain ⟨x, hx, hmem⟩ := List.mem_flatMap.mp (hsub.subset hy)
        exact hkeeps x y (hgood x hx) hmem
      obtain ⟨hrest, hdeeper⟩ := ih hgood' (hall.sublist (hsub.map path)) (fun y hy => hlength y (hsub.subset hy))
      have hkeys : ∀ y ∈ nodes.flatMap children, ∀ b, foundOf judge y = some b → key b = path y := by
        intro y hy b hb
        obtain ⟨x, hx, hmem⟩ := List.mem_flatMap.mp hy
        exact hkey x y b (hgood x hx) hmem hb
      have hfound : ∀ b ∈ found children judge nodes, (key b).length = r + 1 := by
        intro b hb
        obtain ⟨y, hy, hsome⟩ := List.mem_filterMap.mp hb
        rw [hkeys y hy b hsome, hlength y hy]
      rw [levelOrder]
      refine ⟨List.pairwise_append.mpr ⟨?_, hrest, ?_⟩, ?_⟩
      · rw [found, List.pairwise_filterMap]
        refine (List.pairwise_map.mp hall).imp_of_mem ?_
        intro y y' hy hy' hne b hb b' hb'
        rw [hkeys y hy b hb, hkeys y' hy' b' hb', hlength y hy, hlength y' hy']
        exact ⟨Nat.le_refl _, hne⟩
      · intro a ha b hb
        have hlt := hdeeper b hb
        rw [← hfound a ha] at hlt
        exact ⟨Nat.le_of_lt hlt, fun heq => Nat.lt_irrefl _ (heq ▸ hlt)⟩
      · intro b hb
        rcases List.mem_append.mp hb with hb | hb
        · rw [hfound b hb]
          exact Nat.lt_succ_self r
        · exact Nat.lt_of_succ_lt (hdeeper b hb)

end Keys

section Search

variable {children judge} {l : Limits} {t : Tally β}

theorem scan_complete {limit : Nat} {ys : List α} (h : (scan judge limit ys t).1.scanned < limit) :
    (scan judge limit ys t).1.found = t.found ++ ys.filterMap (foundOf judge) ∧
    (scan judge limit ys t).2 = ys.filter (opens judge) := by
  induction ys generalizing t with
  | nil => simp [scan]
  | cons y ys ih =>
      by_cases hlimit : limit ≤ t.scanned
      · rw [scan, if_pos hlimit] at h
        exact absurd hlimit (Nat.not_le.mpr h)
      · rw [scan, if_neg hlimit] at h ⊢
        obtain ⟨hfound, hopens⟩ := ih h
        refine ⟨?_, ?_⟩
        · dsimp only
          rw [hfound, Tally.count, List.filterMap_cons, List.append_assoc]
          cases foundOf judge y <;> rfl
        · dsimp only
          rw [hopens, List.filter_cons]

theorem scan_found {limit : Nat} (ys : List α) :
    t.found <+: (scan judge limit ys t).1.found ∧ (scan judge limit ys t).1.found <+: t.found ++ ys.filterMap
      (foundOf judge) := by
  induction ys generalizing t with
  | nil => simp [scan]
  | cons y ys ih =>
      by_cases hlimit : limit ≤ t.scanned
      · rw [scan, if_pos hlimit]
        exact ⟨List.prefix_refl _, List.prefix_append ..⟩
      · rw [scan, if_neg hlimit]
        obtain ⟨hbefore, hafter⟩ := ih (t := t.count judge y)
        have hcons : (y :: ys).filterMap (foundOf judge) = (foundOf judge y).toList ++ ys.filterMap
            (foundOf judge) := by
          rw [List.filterMap_cons]
          cases foundOf judge y <;> rfl
        refine ⟨(List.prefix_append ..).trans hbefore, ?_⟩
        rw [hcons, ← List.append_assoc]
        exact hafter

variable (judge) in
/-- Whatever is to be opened was counted. -/
theorem scan_scanned {limit : Nat} (ys : List α) (h : t.scanned ≤ limit) :
    t.scanned + (scan judge limit ys t).2.length ≤ (scan judge limit ys t).1.scanned ∧
    (scan judge limit ys t).1.scanned ≤ limit := by
  induction ys generalizing t with
  | nil => exact ⟨Nat.le_refl _, h⟩
  | cons y ys ih =>
      by_cases hlimit : limit ≤ t.scanned
      · rw [scan, if_pos hlimit]
        exact ⟨Nat.le_refl _, h⟩
      · rw [scan, if_neg hlimit]
        have hone : counts judge y ≤ 1 ∧ (opens judge y = true → counts judge y = 1) := by
          rw [counts, opens]
          cases judge y <;> simp
        have hnext : (t.count judge y).scanned = t.scanned + counts judge y := rfl
        obtain ⟨hle, hbound⟩ := ih (t := t.count judge y) (by omega)
        refine ⟨?_, hbound⟩
        dsimp only
        split
        · next hopens =>
            have hcounts := hone.2 hopens
            rw [List.length_cons]
            omega
        · omega

theorem search_closed {n : Nat} {queue : List (α × Nat)} (h : t.open l = false) :
    search children judge l n queue t = t := by
  cases n with
  | zero => rfl
  | succ n =>
      cases queue with
      | nil => rfl
      | cons entry queue => rw [search, h, if_neg Bool.false_ne_true]

/-- A search that has a round for each node it may open needs no more. -/
theorem search_rounds {n k : Nat} {queue : List (α × Nat)} (hscanned : t.scanned ≤ l.scanned)
    (hn : queue.length + (l.scanned - t.scanned) ≤ n) :
    search children judge l (n + k) queue t = search children judge l n queue t := by
  induction n generalizing queue t with
  | zero =>
      have hnil : queue = [] := List.length_eq_zero_iff.mp (by omega)
      subst hnil
      rw [Nat.zero_add, search]
      cases k <;> rfl
  | succ n ih =>
      rw [Nat.succ_add]
      cases queue with
      | nil => rfl
      | cons entry queue =>
          rw [search, search]
          split
          · obtain ⟨hcount, hbound⟩ := scan_scanned judge (children entry.1) hscanned
            refine ih hbound ?_
            have hpushed : (if entry.2 + 1 < l.depth then (scan judge l.scanned (children entry.1) t).2.map
              (fun y => (y, entry.2 + 1)) else []).length ≤
                (scan judge l.scanned (children entry.1) t).2.length := by split <;> simp
            rw [List.length_cons] at hn
            rw [List.length_append]
            omega
          · rfl

/-- What is still to be found when the nodes of one level are left, and some
of the next are already in the queue. -/
def remaining (children : α → List α) (judge : α → Verdict β) (l : Limits) (depth : Nat) (level next : List α) :
    List β :=
  found children judge level ++ levelOrder children judge (l.depth - (depth + 1))
    (next ++ nextLevel children judge level)

def queueOf (depth : Nat) (level next : List α) : List (α × Nat) :=
  level.map (fun x => (x, depth)) ++ next.map (fun y => (y, depth + 1))

/-- A search finds a first part of what the levels hold, and all of it if it
stays below its limits. -/
def Follows (children : α → List α) (judge : α → Verdict β) (l : Limits) (n : Nat) : Prop :=
  ∀ (depth : Nat) (level next : List α) (t : Tally β), t.scanned ≤ l.scanned → (next = [] ∨ depth + 1 < l.depth) →
    (search children judge l n (queueOf depth level next) t).found <+: t.found ++
      remaining children judge l depth level next ∧
      (level.length + next.length + (l.scanned - t.scanned) ≤ n →
        (search children judge l n (queueOf depth level next) t).open l = true →
          (search children judge l n (queueOf depth level next) t).found = t.found ++
            remaining children judge l depth level next)

theorem follows_cons {n : Nat} (ih : Follows children judge l n) (depth : Nat) (x : α) (level next : List α)
    (t : Tally β) (hscanned : t.scanned ≤ l.scanned) (hnext : next = [] ∨ depth + 1 < l.depth) :
    (search children judge l (n + 1) (queueOf depth (x :: level) next) t).found <+:
        t.found ++ remaining children judge l depth (x :: level) next ∧
      ((x :: level).length + next.length + (l.scanned - t.scanned) ≤ n + 1 →
        (search children judge l (n + 1) (queueOf depth (x :: level) next) t).open l = true →
          (search children judge l (n + 1) (queueOf depth (x :: level) next) t).found =
            t.found ++ remaining children judge l depth (x :: level) next) := by
  cases hopen : t.open l with
  | false =>
      rw [search_closed hopen]
      refine ⟨List.prefix_append .., fun _ h => ?_⟩
      rw [hopen] at h
      cases h
  | true =>
      obtain ⟨hcount, hbound⟩ := scan_scanned judge (children x) hscanned
      have hqueue : ∀ (pushed : List α),
        (queueOf depth level next ++ if depth + 1 < l.depth then pushed.map (fun y => (y, depth + 1)) else []) =
          queueOf depth level (next ++ if depth + 1 < l.depth then pushed else []) := by
        intro pushed
        rw [queueOf, queueOf, List.append_assoc, List.map_append]
        split <;> rfl
      have hstep : search children judge l (n + 1) (queueOf depth (x :: level) next) t =
          search children judge l n
            (queueOf depth level (next ++ if depth + 1 < l.depth then (scan judge l.scanned (children x) t).2 else []))
            (scan judge l.scanned (children x) t).1 := by
        rw [queueOf, List.map_cons, List.cons_append, search, if_pos hopen, ← hqueue]
        rfl
      have hnext' : (next ++ if depth + 1 < l.depth then (scan judge l.scanned (children x) t).2 else []) = [] ∨
          depth + 1 < l.depth := by
        rcases hnext with rfl | hlt
        · by_cases hlt : depth + 1 < l.depth
          · exact .inr hlt
          · rw [if_neg hlt]
            exact .inl rfl
        · exact .inr hlt
      obtain ⟨hinitial, hall⟩ := ih depth level _ (scan judge l.scanned (children x) t).1 hbound hnext'
      rw [hstep]
      by_cases hbroken : (scan judge l.scanned (children x) t).1.scanned < l.scanned
      · obtain ⟨hfound, hpushed⟩ := scan_complete hbroken
        have hremaining : (scan judge l.scanned (children x) t).1.found ++ remaining children judge l depth level
              (next ++ if depth + 1 < l.depth then (scan judge l.scanned (children x) t).2 else []) =
            t.found ++ remaining children judge l depth (x :: level) next := by
          have hsingle : found children judge (x :: level) = (children x).filterMap (foundOf judge) ++
              found children judge level := by
            rw [found, List.flatMap_cons, List.filterMap_append]
            rfl
          have hsingle' : nextLevel children judge (x :: level) = (children x).filter (opens judge) ++
              nextLevel children judge level := by
            rw [nextLevel, List.flatMap_cons, List.filter_append]
            rfl
          rw [remaining, remaining, hfound, hpushed, hsingle, hsingle', List.append_assoc, List.append_assoc]
          by_cases hlt : depth + 1 < l.depth
          · rw [if_pos hlt, List.append_assoc]
          · rw [Nat.sub_eq_zero_of_le (Nat.le_of_not_lt hlt), levelOrder, levelOrder, List.append_nil, List.append_nil]
        rw [hremaining] at hinitial hall
        refine ⟨hinitial, fun hfuel => hall ?_⟩
        rw [List.length_append]
        rw [List.length_cons] at hfuel
        have hlen : (if depth + 1 < l.depth then (scan judge l.scanned (children x) t).2 else []).length ≤
            (scan judge l.scanned (children x) t).2.length := by split <;> simp
        omega
      · have hclosed : (scan judge l.scanned (children x) t).1.open l = false := by
          rw [Tally.open, decide_eq_false hbroken, Bool.false_and]
        rw [search_closed hclosed]
        refine ⟨?_, fun _ h => ?_⟩
        · refine (scan_found (children x)).2.trans ?_
          rw [remaining, found, List.flatMap_cons, List.filterMap_append, List.append_assoc,
            ← List.append_assoc t.found]
          exact List.prefix_append ..
        · rw [hclosed] at h
          cases h

variable (children judge l) in
theorem follows (n : Nat) : Follows children judge l n := by
  induction n with
  | zero =>
      intro depth level next t hscanned hnext
      refine ⟨List.prefix_append .., fun hfuel hopen => ?_⟩
      have hopen' : t.scanned < l.scanned := by
        have h := (Bool.and_eq_true_iff.mp hopen).1
        exact of_decide_eq_true h
      omega
  | succ n ih =>
      intro depth level next t hscanned hnext
      cases level with
      | cons x level => exact follows_cons ih depth x level next t hscanned hnext
      | nil =>
          cases next with
          | nil =>
              have hnone : remaining children judge l depth [] [] = [] := by
                rw [remaining, found, nextLevel]
                exact levelOrder_nil _
              rw [hnone, List.append_nil]
              exact ⟨List.prefix_refl _, fun _ _ => rfl⟩
          | cons y next =>
              -- The next level begins.
              have hlt := hnext.resolve_left (List.cons_ne_nil _ _)
              have hqueue : queueOf depth [] (y :: next) = queueOf (depth + 1) (y :: next) [] := by
                rw [queueOf, queueOf, List.map_nil, List.map_nil, List.nil_append, List.append_nil]
              have hremaining : remaining children judge l depth [] (y :: next) = remaining children judge l
                  (depth + 1) (y :: next) [] := by
                have hdepth : l.depth - (depth + 1) = l.depth - (depth + 1 + 1) + 1 := by omega
                rw [remaining, remaining, hdepth, levelOrder, List.nil_append]
                simp [found, nextLevel]
              have hcons := follows_cons ih (depth + 1) y next [] t hscanned (.inl rfl)
              rw [hqueue, hremaining]
              refine ⟨hcons.1, fun hfuel => hcons.2 ?_⟩
              simpa using hfuel

/-- A search from a root. -/
theorem search_root {root : α} {n : Nat} (hdepth : 0 < l.depth) (hn : l.scanned + 1 ≤ n) :
    (search children judge l n [(root, 0)] ⟨0, []⟩).found <+: levelOrder children judge l.depth [root] ∧
      ((search children judge l n [(root, 0)] ⟨0, []⟩).open l = true →
        (search children judge l n [(root, 0)] ⟨0, []⟩).found = levelOrder children judge l.depth [root]) := by
  have hlevels : remaining children judge l 0 [root] [] = levelOrder children judge l.depth [root] := by
    have hsucc : l.depth = l.depth - (0 + 1) + 1 := by omega
    rw [remaining, hsucc, levelOrder, List.nil_append, ← hsucc]
  have h := follows children judge l n 0 [root] [] ⟨0, []⟩ (Nat.zero_le _) (.inl rfl)
  rw [hlevels, List.nil_append] at h
  refine ⟨h.1, h.2 ?_⟩
  simp only [List.length_singleton, List.length_nil]
  omega

end Search

end BorgManager.LevelOrder
