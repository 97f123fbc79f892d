import Mathlib.Data.List.DropRight
import Mathlib.Data.List.Basic

namespace BorgManager.ByteLines

variable {α β : Type} {p : α → Bool}

/-- The lines of a text with their ends. A line ends at each element that `p`
accepts, and the last line may have no end. -/
def lines (p : α → Bool) : List α → List (List α)
  | [] => []
  | x :: xs =>
      if p x then [x] :: lines p xs
      else
        match lines p xs with
        | [] => [[x]]
        | line :: rest => (x :: line) :: rest

/-- A text that ends with the end of a line, if it is not empty. -/
def Whole (p : α → Bool) (text : List α) : Prop := ∀ x ∈ text.getLast?, p x = true

/-- A text without the end of a line. -/
def Open (p : α → Bool) (text : List α) : Prop := ∀ x ∈ text, p x = false

/-- What is up to the last end of a line, and what is after it. -/
def complete (p : α → Bool) (text : List α) : List α := text.rdropWhile (fun x => !p x)

def trailing (p : α → Bool) (text : List α) : List α := text.rtakeWhile (fun x => !p x)

theorem flatten_lines (text : List α) : (lines p text).flatten = text := by
  induction text with
  | nil => rfl
  | cons x xs ih =>
      rw [lines]
      split
      · rw [List.flatten_cons, ih, List.singleton_append]
      · split
        · next h => rw [h] at ih; rw [← ih]; rfl
        · next line rest h =>
            rw [h, List.flatten_cons] at ih
            rw [List.flatten_cons, List.cons_append, ih]

theorem lines_map {q : β → Bool} {r : α → Bool} {f : α → β} (h : ∀ x, q (f x) = r x) (text : List α) :
    lines q (text.map f) = (lines r text).map (List.map f) := by
  induction text with
  | nil => rfl
  | cons x xs ih =>
      rw [List.map_cons, lines, lines, h, ih]
      split
      · rfl
      · cases lines r xs <;> rfl

theorem lines_eq_nil {text : List α} (h : lines p text = []) : text = [] := by
  have hflatten := flatten_lines (p := p) text
  rw [h] at hflatten
  exact hflatten.symm

theorem open_nil : Open p [] := by rintro x ⟨⟩

theorem Open.cons {x : α} {text : List α} (hx : p x = false) (h : Open p text) : Open p (x :: text) := by
  intro y hy
  rcases List.mem_cons.mp hy with rfl | hy
  · exact hx
  · exact h y hy

theorem whole_nil : Whole p [] := by rintro x ⟨⟩

theorem Whole.tail {x y : α} {xs : List α} (h : Whole p (x :: y :: xs)) : Whole p (y :: xs) := h

theorem Whole.append {a b : List α} (ha : Whole p a) (hb : Whole p b) : Whole p (a ++ b) := by
  intro x hx
  rw [List.getLast?_append] at hx
  cases hlast : b.getLast? with
  | none => rw [hlast] at hx; exact ha x hx
  | some y => rw [hlast] at hx; exact hb x (hlast.trans hx)

/-- Whole lines are cut off before what follows them is looked at. -/
theorem lines_append {a : List α} (ha : Whole p a) (b : List α) : lines p (a ++ b) = lines p a ++ lines p b := by
  induction a with
  | nil => rfl
  | cons x xs ih =>
      rw [List.cons_append, lines, lines]
      cases xs with
      | nil =>
          have hx : p x = true := ha x rfl
          rw [if_pos hx, if_pos hx]
          rfl
      | cons y ys =>
          rw [ih ha.tail]
          split
          · rfl
          · cases hlines : lines p (y :: ys) with
            | nil => exact absurd (lines_eq_nil hlines) (List.cons_ne_nil _ _)
            | cons line rest => rfl

theorem lines_open {text : List α} (h : Open p text) (hne : text ≠ []) : lines p text = [text] := by
  induction text with
  | nil => exact absurd rfl hne
  | cons x xs ih =>
      rw [lines, if_neg (by rw [h x (List.mem_cons_self ..)]; exact Bool.false_ne_true)]
      cases xs with
      | nil => rfl
      | cons y ys => rw [ih (fun z hz => h z (List.mem_cons_of_mem _ hz)) (List.cons_ne_nil _ _)]

theorem lines_line {body : List α} {x : α} (hbody : Open p body) (hx : p x = true) :
    lines p (body ++ [x]) = [body ++ [x]] := by
  induction body with
  | nil => rw [List.nil_append, lines, if_pos hx]; rfl
  | cons y ys ih =>
      rw [List.cons_append, lines, if_neg (by rw [hbody y (List.mem_cons_self ..)]; exact Bool.false_ne_true),
        ih (fun z hz => hbody z (List.mem_cons_of_mem _ hz))]

/-- The lines of a whole text are bodies with one end each. -/
theorem line_of_whole {text line : List α} (h : Whole p text) (hline : line ∈ lines p text) :
    ∃ body x, line = body ++ [x] ∧ Open p body ∧ p x = true := by
  induction text generalizing line with
  | nil => cases hline
  | cons x xs ih =>
      rw [lines] at hline
      have hrest {line : List α} (hline : line ∈ lines p xs) : ∃ body x, line = body ++ [x] ∧ Open p body ∧
          p x = true := by
        cases xs with
        | nil => cases hline
        | cons y ys => exact ih h.tail hline
      split at hline
      · next hx =>
          rcases List.mem_cons.mp hline with rfl | hline
          · exact ⟨[], x, rfl, by rintro y ⟨⟩, hx⟩
          · exact hrest hline
      · next hx =>
          split at hline
          · next hnil =>
              rw [List.mem_singleton.mp hline]
              have hxs := lines_eq_nil hnil
              subst hxs
              exact absurd (h x rfl) hx
          · next first rest hlines =>
              rcases List.mem_cons.mp hline with rfl | hline
              · obtain ⟨body, y, rfl, hopen, hy⟩ := hrest (hlines ▸ List.mem_cons_self ..)
                refine ⟨x :: body, y, rfl, fun z hz => ?_, hy⟩
                rcases List.mem_cons.mp hz with rfl | hz
                · exact Bool.eq_false_iff.mpr hx
                · exact hopen z hz
              · exact hrest (hlines ▸ List.mem_cons_of_mem _ hline)

theorem complete_append_trailing (text : List α) : complete p text ++ trailing p text = text :=
  List.rdropWhile_append_rtakeWhile

theorem whole_complete (text : List α) : Whole p (complete p text) := by
  intro x hx
  have hne : complete p text ≠ [] := by
    intro hnil
    rw [hnil] at hx
    cases hx
  have hlast := List.rdropWhile_last_not (p := fun x => !p x) (l := text) hne
  rw [List.getLast?_eq_some_getLast hne, Option.mem_some] at hx
  rw [← hx]
  simpa [complete] using hlast

theorem open_trailing (text : List α) : Open p (trailing p text) := by
  intro x hx
  simpa using List.mem_rtakeWhile_imp hx

theorem Open.append {a b : List α} (ha : Open p a) (hb : Open p b) : Open p (a ++ b) := by
  intro x hx
  rcases List.mem_append.mp hx with hx | hx
  · exact ha x hx
  · exact hb x hx

theorem Open.trailing {q : α → Bool} {text : List α} (h : Open q text) : Open q (trailing p text) :=
  fun x hx => h x ((List.rtakeWhile_suffix _ _).subset hx)

theorem Open.eq_nil_of_whole {text : List α} (hopen : Open p text) (hwhole : Whole p text) : text = [] := by
  cases hlast : text.getLast? with
  | none => exact List.getLast?_eq_none_iff.mp hlast
  | some x =>
      have hx := hwhole x hlast
      rw [hopen x (List.mem_of_getLast? hlast)] at hx
      cases hx

/-- A text is cut in only one way into whole lines and an open rest. -/
theorem cut_unique {a b c d : List α} (ha : Whole p a) (hb : Open p b) (hc : Whole p c) (hd : Open p d)
    (h : a ++ b = c ++ d) : a = c ∧ b = d := by
  have hsub {x y z w : List α} {m : List α} (hy : Open p y) (hz : Whole p z) (hzm : z = x ++ m)
      (hym : y = m ++ w) : m = [] := by
    apply Open.eq_nil_of_whole (p := p)
    · exact fun e he => hy e (hym ▸ List.mem_append_left _ he)
    · intro e he
      apply hz e
      rw [hzm, List.getLast?_append, he]
      rfl
  rcases List.append_eq_append_iff.mp h with ⟨m, hca, hbd⟩ | ⟨m, hac, hdb⟩
  · have hm := hsub hb hc hca hbd
    subst hm
    exact ⟨by rw [hca, List.append_nil], by rw [hbd, List.nil_append]⟩
  · have hm := hsub hd ha hac hdb
    subst hm
    exact ⟨by rw [hac, List.append_nil], by rw [hdb, List.nil_append]⟩

theorem cut_open {text : List α} (h : Open p text) : complete p text = [] ∧ trailing p text = text :=
  cut_unique (whole_complete text) (open_trailing text) whole_nil h (complete_append_trailing text)

/-- Induction along the lines of a text. -/
theorem line_induction {motive : List α → Prop} (nil : motive []) (last : ∀ body, Open p body → body ≠ [] → motive body)
    (line : ∀ body x rest, Open p body → p x = true → motive rest → motive (body ++ x :: rest)) (text : List α) :
    motive text := by
  induction hn : text.length using Nat.strong_induction_on generalizing text with
  | _ n ih =>
      have hopen : Open p (text.takeWhile (fun x => !p x)) := by
        intro x hx
        simpa using List.mem_takeWhile_imp hx
      have htext := List.takeWhile_append_dropWhile (p := fun x => !p x) (l := text)
      cases hdrop : text.dropWhile (fun x => !p x) with
      | nil =>
          rw [hdrop, List.append_nil] at htext
          rw [htext] at hopen
          by_cases hne : text = []
          · rw [hne]; exact nil
          · exact last text hopen hne
      | cons x rest =>
          have hx : p x = true := by
            have hhead := List.head?_dropWhile_not (fun x => !p x) text
            rw [hdrop] at hhead
            simpa using hhead
          rw [hdrop] at htext
          have hlength := congrArg List.length htext
          rw [List.length_append, List.length_cons] at hlength
          rw [← htext]
          exact line _ x rest hopen hx (ih rest.length (by omega) rest rfl)

theorem first_line {text : List α} (h : Whole p text) (hne : text ≠ []) :
    ∃ body x rest, text = body ++ x :: rest ∧ Open p body ∧ p x = true := by
  induction text using line_induction (p := p) with
  | nil => exact absurd rfl hne
  | last body hbody hne => exact absurd (hbody.eq_nil_of_whole h) hne
  | line body x rest hbody hx _ => exact ⟨body, x, rest, rfl, hbody, hx⟩

/-- A reader that holds an open rest back: the blocks of whole lines that it
completes, one for each chunk, and what it holds after the last one. -/
def blocks (p : α → Bool) : List α → List (List α) → List (List α) × List α
  | carry, [] => ([], carry)
  | carry, chunk :: chunks =>
      (complete p (carry ++ chunk) :: (blocks p (trailing p (carry ++ chunk)) chunks).1,
        (blocks p (trailing p (carry ++ chunk)) chunks).2)

theorem whole_of_mem_blocks {carry : List α} {chunks : List (List α)} :
    ∀ block ∈ (blocks p carry chunks).1, Whole p block := by
  induction chunks generalizing carry with
  | nil => rintro block ⟨⟩
  | cons chunk chunks ih =>
      intro block hblock
      rcases List.mem_cons.mp hblock with rfl | hblock
      · exact whole_complete _
      · exact ih block hblock

theorem open_blocks {carry : List α} {chunks : List (List α)} (h : Open p carry) :
    Open p (blocks p carry chunks).2 := by
  induction chunks generalizing carry with
  | nil => exact h
  | cons chunk chunks ih => exact ih (open_trailing _)

theorem blocks_append {carry : List α} {chunks : List (List α)} :
    (blocks p carry chunks).1.flatten ++ (blocks p carry chunks).2 = carry ++ chunks.flatten := by
  induction chunks generalizing carry with
  | nil => simp [blocks]
  | cons chunk chunks ih =>
      rw [blocks, List.flatten_cons, List.append_assoc, ih, ← List.append_assoc, complete_append_trailing,
        List.flatten_cons,
        List.append_assoc]

theorem whole_flatten {texts : List (List α)} (h : ∀ text ∈ texts, Whole p text) : Whole p texts.flatten := by
  induction texts with
  | nil => exact whole_nil
  | cons text texts ih =>
      rw [List.flatten_cons]
      exact (h text (List.mem_cons_self ..)).append (ih (fun t ht => h t (List.mem_cons_of_mem _ ht)))

theorem lines_flatten {texts : List (List α)} (h : ∀ text ∈ texts, Whole p text) :
    lines p texts.flatten = texts.flatMap (lines p) := by
  induction texts with
  | nil => rfl
  | cons text texts ih =>
      rw [List.flatten_cons, lines_append (h text (List.mem_cons_self ..)),
        ih (fun t ht => h t (List.mem_cons_of_mem _ ht)),
        List.flatMap_cons]

/-- However a text is cut into chunks, the reader completes the same lines and
holds the same rest. -/
theorem blocks_eq (chunks : List (List α)) :
    (blocks p [] chunks).1.flatten = complete p chunks.flatten ∧
    (blocks p [] chunks).2 = trailing p chunks.flatten := by
  have happend := @blocks_append _ p [] chunks
  rw [List.nil_append, ← complete_append_trailing (p := p) chunks.flatten] at happend
  exact cut_unique (whole_flatten whole_of_mem_blocks) (open_blocks (by rintro x ⟨⟩)) (whole_complete _)
    (open_trailing _)
    happend

theorem lines_blocks (chunks : List (List α)) :
    (blocks p [] chunks).1.flatMap (lines p) ++ lines p (blocks p [] chunks).2 = lines p chunks.flatten := by
  rw [← lines_flatten whole_of_mem_blocks, ← lines_append (whole_flatten whole_of_mem_blocks), blocks_append,
    List.nil_append]

/-- What is done with each line is done with the lines of the text as a whole. -/
theorem flatMap_blocks {f g : List α → List β} (chunks : List (List α))
    (h : ∀ block ∈ (blocks p [] chunks).1, f block = (lines p block).flatMap g) :
    (blocks p [] chunks).1.flatMap f = (lines p (complete p chunks.flatten)).flatMap g := by
  rw [← (blocks_eq chunks).1, lines_flatten whole_of_mem_blocks, List.flatMap_assoc]
  exact List.flatMap_congr h

theorem mem_lines_blocks {chunks : List (List α)} {block line : List α} (hblock : block ∈ (blocks p [] chunks).1)
    (hline : line ∈ lines p block) : line ∈ lines p (complete p chunks.flatten) := by
  rw [← (blocks_eq chunks).1, lines_flatten whole_of_mem_blocks]
  exact List.mem_flatMap.mpr ⟨block, hblock, hline⟩

theorem cut_whole {text : List α} (h : Whole p text) : complete p text = text ∧ trailing p text = [] :=
  cut_unique (whole_complete text) (open_trailing text) h open_nil
    ((complete_append_trailing text).trans (List.append_nil text).symm)

/-- Chunks that are whole lines are completed one by one. -/
theorem blocks_whole {texts : List (List α)} (h : ∀ text ∈ texts, Whole p text) (more : List (List α)) :
    blocks p [] (texts ++ more) = (texts ++ (blocks p [] more).1, (blocks p [] more).2) := by
  induction texts with
  | nil => rfl
  | cons text texts ih =>
      obtain ⟨hcomplete, htrailing⟩ := cut_whole (h text (List.mem_cons_self ..))
      rw [List.cons_append, blocks, List.nil_append, hcomplete, htrailing,
        ih (fun t ht => h t (List.mem_cons_of_mem _ ht))]
      rfl

theorem lines_cut (text : List α) : lines p (complete p text) ++ lines p (trailing p text) = lines p text := by
  rw [← lines_append (whole_complete text), complete_append_trailing]

/-- `splitlines` with the ends kept: a line ends at a carriage return, at a
line feed, or at both of them in this order. -/
def pieces (cr lf : α → Bool) : List α → List (List α)
  | [] => []
  | [x] => [[x]]
  | x :: y :: rest =>
      if cr x && lf y then [x, y] :: pieces cr lf rest
      else if cr x || lf x then [x] :: pieces cr lf (y :: rest)
      else
        match pieces cr lf (y :: rest) with
        | [] => [[x]]
        | piece :: more => (x :: piece) :: more

variable {cr lf : α → Bool}

theorem flatten_pieces (text : List α) : (pieces cr lf text).flatten = text := by
  fun_induction pieces cr lf text with
  | case1 => rfl
  | case2 x => rfl
  | case3 x y rest h ih => rw [List.flatten_cons, ih]; rfl
  | case4 x y rest h₁ h₂ ih => rw [List.flatten_cons, ih]; rfl
  | case5 x y rest h₁ h₂ hnil ih =>
      rw [hnil] at ih
      cases ih
  | case6 x y rest h₁ h₂ piece more hcons ih =>
      rw [hcons, List.flatten_cons] at ih
      rw [List.flatten_cons, List.cons_append, ih]

/-- Without carriage returns the pieces are the lines. -/
theorem pieces_lines {text : List α} (h : Open cr text) : pieces cr lf text = lines lf text := by
  fun_induction pieces cr lf text with
  | case1 => rfl
  | case2 x => cases hx : lf x <;> simp [lines, hx]
  | case3 x y rest hboth ih =>
      rw [Bool.and_eq_true, h x (List.mem_cons_self ..)] at hboth
      cases hboth.1
  | case4 x y rest h₁ hend ih =>
      rw [h x (List.mem_cons_self ..), Bool.false_or] at hend
      rw [lines, if_pos hend, ih (fun z hz => h z (List.mem_cons_of_mem _ hz))]
  | case5 x y rest h₁ hend hnil ih =>
      have hflatten := @flatten_pieces _ cr lf (y :: rest)
      rw [hnil] at hflatten
      cases hflatten
  | case6 x y rest h₁ hend piece more hcons ih =>
      rw [h x (List.mem_cons_self ..), Bool.false_or] at hend
      rw [lines, if_neg hend, ← ih (fun z hz => h z (List.mem_cons_of_mem _ hz)), hcons]

/-- A line feed ends a piece. -/
theorem pieces_append (hdisjoint : ∀ x, lf x = true → cr x = false) {a : List α} (ha : Whole lf a) (b : List α) :
    pieces cr lf (a ++ b) = pieces cr lf a ++ pieces cr lf b := by
  fun_induction pieces cr lf a with
  | case1 => rfl
  | case2 x =>
      have hx : lf x = true := ha x rfl
      cases b with
      | nil => rfl
      | cons y b => rw [List.singleton_append, pieces, hdisjoint x hx, hx]; rfl
  | case3 x y rest h ih =>
      have hrest : Whole lf rest := by
        cases rest with
        | nil => exact whole_nil
        | cons z rest => exact ha.tail.tail
      rw [List.cons_append, List.cons_append, pieces, if_pos h, ih hrest, List.cons_append]
  | case4 x y rest h₁ h₂ ih =>
      have htail := ih ha.tail
      rw [List.cons_append] at htail
      rw [List.cons_append, List.cons_append, pieces, if_neg h₁, if_pos h₂, htail, List.cons_append]
  | case5 x y rest h₁ h₂ hnil ih =>
      have hflatten := @flatten_pieces _ cr lf (y :: rest)
      rw [hnil] at hflatten
      cases hflatten
  | case6 x y rest h₁ h₂ piece more hcons ih =>
      have htail := ih ha.tail
      rw [List.cons_append, hcons, List.cons_append] at htail
      rw [List.cons_append, List.cons_append, pieces, if_neg h₁, if_neg h₂, htail, List.cons_append]

/-- What `splitlines` gives: bodies with their ends, and at most one body
without an end, which is the last. -/
inductive Pieced (cr lf : α → Bool) : List (List α) → Prop
  | nil : Pieced cr lf []
  | rest {body : List α} (hopen : Open (fun x => cr x || lf x) body) (hne : body ≠ []) : Pieced cr lf [body]
  | piece {body ends : List α} {more : List (List α)} (hopen : Open (fun x => cr x || lf x) body) (hne : ends ≠ [])
      (hends : ∀ x ∈ ends, (cr x || lf x) = true) (hmore : Pieced cr lf more) : Pieced cr lf ((body ++ ends) :: more)

theorem pieced_pieces (text : List α) : Pieced cr lf (pieces cr lf text) := by
  fun_induction pieces cr lf text with
  | case1 => exact .nil
  | case2 x =>
      cases hx : cr x || lf x with
      | true => exact @Pieced.piece _ cr lf [] [x] [] open_nil (List.cons_ne_nil _ _) (by simpa using hx) .nil
      | false => exact .rest (open_nil.cons hx) (List.cons_ne_nil _ _)
  | case3 x y rest h ih =>
      rw [Bool.and_eq_true] at h
      exact @Pieced.piece _ cr lf [] [x, y] _ open_nil (List.cons_ne_nil _ _) (by simp [h.1, h.2]) ih
  | case4 x y rest h₁ h₂ ih =>
      exact @Pieced.piece _ cr lf [] [x] _ open_nil (List.cons_ne_nil _ _) (by simpa using h₂) ih
  | case5 x y rest h₁ h₂ hnil ih => exact .rest (open_nil.cons (Bool.eq_false_iff.mpr h₂)) (List.cons_ne_nil _ _)
  | case6 x y rest h₁ h₂ piece more hcons ih =>
      rw [hcons] at ih
      cases ih with
      | rest hopen hne => exact .rest (hopen.cons (Bool.eq_false_iff.mpr h₂)) (List.cons_ne_nil _ _)
      | piece hopen hne hends hmore => exact .piece (hopen.cons (Bool.eq_false_iff.mpr h₂)) hne hends hmore

theorem pieces_map {f : β → α} (text : List β) :
    pieces cr lf (text.map f) = (pieces (fun x => cr (f x)) (fun x => lf (f x)) text).map (List.map f) := by
  fun_induction pieces (fun x => cr (f x)) (fun x => lf (f x)) text with
  | case1 => rfl
  | case2 x => rfl
  | case3 x y rest h ih => rw [List.map_cons, List.map_cons, pieces, if_pos h, ih]; rfl
  | case4 x y rest h₁ h₂ ih =>
      rw [List.map_cons] at ih
      rw [List.map_cons, List.map_cons, pieces, if_neg h₁, if_pos h₂, ih]
      rfl
  | case5 x y rest h₁ h₂ hnil ih =>
      rw [List.map_cons, hnil] at ih
      rw [List.map_cons, List.map_cons, pieces, if_neg h₁, if_neg h₂, ih]
      rfl
  | case6 x y rest h₁ h₂ piece more hcons ih =>
      rw [List.map_cons, hcons] at ih
      rw [List.map_cons, List.map_cons, pieces, if_neg h₁, if_neg h₂, ih]
      rfl

theorem whole_map {f : β → α} {text : List β} : Whole p (text.map f) ↔ Whole (fun x => p (f x)) text := by
  rw [Whole, Whole, List.getLast?_map]
  cases text.getLast? <;> simp

theorem open_map {f : β → α} {text : List β} : Open p (text.map f) ↔ Open (fun x => p (f x)) text := by
  simp [Open]

theorem cut_map {f : β → α} (text : List β) :
    complete p (text.map f) = (complete (fun x => p (f x)) text).map f ∧
      trailing p (text.map f) = (trailing (fun x => p (f x)) text).map f := by
  apply cut_unique (p := p) (whole_complete _) (open_trailing _) (whole_map.mpr (whole_complete _))
    (open_map.mpr (open_trailing _))
  rw [complete_append_trailing, ← List.map_append, complete_append_trailing]

/-- The pieces of whole lines end somewhere. -/
theorem whole_of_mem_pieces {text piece : List α} (h : Whole lf text) (hpiece : piece ∈ pieces cr lf text) :
    Whole (fun x => cr x || lf x) piece ∧ piece ≠ [] := by
  have hflatten := @flatten_pieces _ cr lf text
  have hpieced := @pieced_pieces _ cr lf text
  revert hflatten hpieced hpiece
  generalize pieces cr lf text = all
  intro hpiece hflatten hpieced
  rw [← hflatten] at h
  clear hflatten
  induction hpieced with
  | nil => cases hpiece
  | rest hopen hne =>
      rw [List.flatten_singleton] at h
      refine absurd (hopen.eq_nil_of_whole (fun x hx => ?_)) hne
      exact Bool.or_eq_true_iff.mpr (Or.inr (h x hx))
  | @piece body ends more hopen hne hends hmore ih =>
      rcases List.mem_cons.mp hpiece with rfl | hpiece
      · refine ⟨fun x hx => ?_, by simp [hne]⟩
        rw [List.getLast?_append_of_ne_nil _ hne] at hx
        exact hends x (List.mem_of_getLast? hx)
      · refine ih (fun x hx => h x ?_) hpiece
        rw [List.flatten_cons, List.getLast?_append, hx]
        rfl

/-- The first piece of a text that starts with an open body. -/
theorem pieces_body {body : List α} {x : α} (rest : List α) (hopen : Open (fun x => cr x || lf x) body)
    (hx : (cr x || lf x) = true) :
    ∃ ends more, pieces cr lf (body ++ x :: rest) = (body ++ ends) :: more ∧ ends ≠ [] ∧ ∀ y ∈ ends,
      (cr y || lf y) = true := by
  induction body with
  | nil =>
      cases rest with
      | nil => exact ⟨[x], [], rfl, List.cons_ne_nil _ _, by simpa using hx⟩
      | cons y rest =>
          by_cases hboth : (cr x && lf y) = true
          · refine ⟨[x, y], pieces cr lf rest, ?_, List.cons_ne_nil _ _, ?_⟩
            · rw [List.nil_append, pieces, if_pos hboth]
              rfl
            · rw [Bool.and_eq_true] at hboth
              simp [hboth.1, hboth.2]
          · refine ⟨[x], pieces cr lf (y :: rest), ?_, List.cons_ne_nil _ _, by simpa using hx⟩
            rw [List.nil_append, pieces, if_neg hboth, if_pos hx]
            rfl
  | cons z body ih =>
      obtain ⟨ends, more, hpieces, hne, hends⟩ := ih (fun y hy => hopen y (List.mem_cons_of_mem _ hy))
      have hz := hopen z (List.mem_cons_self ..)
      rw [Bool.or_eq_false_iff] at hz
      refine ⟨ends, more, ?_, hne, hends⟩
      obtain ⟨y, tail, htail⟩ : ∃ y tail, body ++ x :: rest = y :: tail := by cases body <;> exact ⟨_, _, rfl⟩
      rw [htail] at hpieces
      rw [List.cons_append, htail, pieces, hz.1, hz.2, hpieces]
      rfl

/-- A body with its end is one piece. -/
theorem pieces_line {body ends : List α} (hopen : Open (fun x => cr x || lf x) body)
    (hends : pieces cr lf ends = [ends]) : pieces cr lf (body ++ ends) = [body ++ ends] := by
  induction body with
  | nil => exact hends
  | cons x body ih =>
      have hx := hopen x (List.mem_cons_self ..)
      rw [Bool.or_eq_false_iff] at hx
      have hrest := ih (fun y hy => hopen y (List.mem_cons_of_mem _ hy))
      cases htail : body ++ ends with
      | nil => rw [htail] at hrest; cases hrest
      | cons y tail =>
          rw [htail] at hrest
          rw [List.cons_append, htail, pieces, hx.1, hx.2, hrest]
          rfl

theorem pieces_open {text : List α} (h : Open (fun x => cr x || lf x) text) (hne : text ≠ []) :
    pieces cr lf text = [text] := by
  induction text with
  | nil => exact absurd rfl hne
  | cons x text ih =>
      have hx := h x (List.mem_cons_self ..)
      rw [Bool.or_eq_false_iff] at hx
      cases text with
      | nil => rfl
      | cons y text =>
          rw [pieces, hx.1, hx.2, ih (fun z hz => h z (List.mem_cons_of_mem _ hz)) (List.cons_ne_nil _ _)]
          rfl

theorem rdropWhile_ends {body ends : List α} (hopen : Open p body) (hends : ∀ x ∈ ends, p x = true) :
    (body ++ ends).rdropWhile p = body := by
  induction ends using List.reverseRecOn with
  | nil =>
      rw [List.append_nil]
      cases body using List.reverseRecOn with
      | nil => rfl
      | append_singleton body x =>
          rw [List.rdropWhile_concat_neg]
          rw [hopen x (by simp)]
          exact Bool.false_ne_true
  | append_singleton ends x ih =>
      rw [← List.append_assoc, List.rdropWhile_concat_pos _ _ _ (hends x (by simp))]
      exact ih (fun y hy => hends y (by simp [hy]))

end BorgManager.ByteLines
