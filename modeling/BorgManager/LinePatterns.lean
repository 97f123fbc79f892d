import BorgManager.ByteLines
import BorgManager.Patterns
import Mathlib.Data.List.Forall2

namespace BorgManager.LinePatterns

open Patterns ByteLines

def isNewline (c : Char) : Bool := c == '\n'

/-- A pattern that stays in its line, and does not ask where the line starts. -/
def Within : Pattern → Prop
  | .char accepts => accepts '\n' = false
  | .nothing => True
  | .seq p q => Within p ∧ Within q
  | .alt p q => Within p ∧ Within q
  | .many _ p => Within p
  | .group _ p => Within p
  | .lineStart => False
  | .lineEnd => True

/-- The characters that a match has at least. -/
def minLength : Pattern → Nat
  | .char _ => 1
  | .nothing => 0
  | .seq p q => minLength p + minLength q
  | .alt p q => min (minLength p) (minLength q)
  | .many _ _ => 0
  | .group _ p => minLength p
  | .lineStart => 0
  | .lineEnd => 0

/-- The same place of a line, once in a text that goes on after the line and
where some groups are closed already. -/
structure Same (tail : List Char) (older : List (Nat × List Char)) (c d : Cursor) : Prop where
  rest : c.rest = d.rest ++ tail
  line : Open isNewline d.rest
  groups : c.groups = d.groups ++ older

theorem mem_rounds {step : Cursor → List Cursor} {greedy : Bool} {n : Nat} {c d : Cursor} :
    d ∈ rounds step greedy (n + 1) c ↔ d = c ∨ ∃ e ∈ step c, advances c e ∧ d ∈ rounds step greedy n e := by
  rw [rounds]
  cases greedy <;> simp [List.mem_flatMap, List.mem_filter, or_comm, and_assoc]

theorem length_ends {p : Pattern} {c d : Cursor} (h : d ∈ p.ends c) : d.rest.length + minLength p ≤ c.rest.length := by
  induction p generalizing c d with
  | char accepts =>
      rw [Pattern.ends] at h
      split at h
      · cases h
      · next x xs hrest =>
          split at h
          · rw [List.mem_singleton.mp h, hrest]
            exact Nat.le_refl _
          · cases h
  | nothing => rw [List.mem_singleton.mp h]; exact Nat.le_refl _
  | seq p q ihp ihq =>
      obtain ⟨e, he, hd⟩ := List.mem_flatMap.mp h
      have h₁ := ihp he
      have h₂ := ihq hd
      rw [minLength]
      omega
  | alt p q ihp ihq =>
      rw [minLength]
      rcases List.mem_append.mp h with h | h
      · have := ihp h; omega
      · have := ihq h; omega
  | many greedy p ih =>
      rw [Pattern.ends] at h
      have hrounds {n : Nat} {c : Cursor} (h : d ∈ rounds p.ends greedy n c) : d.rest.length ≤ c.rest.length := by
        induction n generalizing c with
        | zero => rw [List.mem_singleton.mp h]
        | succ n ihn =>
            rcases mem_rounds.mp h with rfl | ⟨e, he, -, hd⟩
            · exact Nat.le_refl _
            · exact Nat.le_trans (ihn hd) (Nat.le_trans (Nat.le_add_right _ _) (ih he))
      exact hrounds h
  | group index p ih =>
      obtain ⟨e, he, rfl⟩ := List.mem_map.mp h
      exact ih (d := e) he
  | lineStart =>
      rw [Pattern.ends] at h
      split at h
      · rw [List.mem_singleton.mp h]; exact Nat.le_refl _
      · cases h
  | lineEnd =>
      rw [Pattern.ends] at h
      split at h
      · rw [List.mem_singleton.mp h]; exact Nat.le_refl _
      · cases h

theorem filter_advances_nil {c : Cursor} (h : c.rest = []) (l : List Cursor) : l.filter (advances c) = [] := by
  rw [List.filter_eq_nil_iff]
  intro e _
  simp [advances, h]

/-- More rounds than characters change nothing. -/
theorem rounds_enough {step : Cursor → List Cursor} {greedy : Bool} {n m : Nat} {c : Cursor} (hn : c.rest.length ≤ n)
    (hm : c.rest.length ≤ m) : rounds step greedy n c = rounds step greedy m c := by
  have hzero {k : Nat} {c : Cursor} (h : c.rest.length ≤ 0) : rounds step greedy k c = [c] := by
    cases k with
    | zero => rfl
    | succ k =>
        rw [rounds, filter_advances_nil (List.length_eq_zero_iff.mp (Nat.le_zero.mp h))]
        cases greedy <;> rfl
  induction n generalizing m c with
  | zero => rw [hzero hn, hzero hn]
  | succ n ih =>
      cases m with
      | zero => rw [hzero hm, hzero hm]
      | succ m =>
          have hmore : ((step c).filter (advances c)).flatMap (rounds step greedy n) =
              ((step c).filter (advances c)).flatMap (rounds step greedy m) := by
            apply List.flatMap_congr
            intro e he
            have hshort : e.rest.length < c.rest.length := by simpa [advances] using (List.mem_filter.mp he).2
            exact ih (by omega) (by omega)
          rw [rounds, rounds, hmore]

theorem Same.advances_eq {tail : List Char} {older : List (Nat × List Char)} {c c' d d' : Cursor}
    (h : Same tail older c d) (h' : Same tail older c' d') :
    advances c c' = advances d d' := by
  rw [advances, advances, h.rest, h'.rest, List.length_append, List.length_append]
  exact decide_eq_decide.mpr Nat.add_lt_add_iff_right

theorem Same.rounds {tail : List Char} {older : List (Nat × List Char)} {step : Cursor → List Cursor} {greedy : Bool}
    (hstep : ∀ {c d : Cursor}, Same tail older c d → List.Forall₂ (Same tail older) (step c) (step d)) {n : Nat}
    {c d : Cursor} (h : Same tail older c d) :
    List.Forall₂ (Same tail older) (rounds step greedy n c) (rounds step greedy n d) := by
  induction n generalizing c d with
  | zero => exact .cons h .nil
  | succ n ih =>
      have hfilter : List.Forall₂ (Same tail older) ((step c).filter (Patterns.advances c))
          ((step d).filter (Patterns.advances d)) :=
        List.rel_filter (fun e f hef => by dsimp only; rw [h.advances_eq hef]) (hstep h)
      have hmore := List.rel_flatMap hfilter (fun e f hef => ih hef)
      rw [Patterns.rounds, Patterns.rounds]
      cases greedy
      · exact .cons h hmore
      · exact List.rel_append hmore (.cons h .nil)

/-- A pattern that stays in its line finds the same matches whether or not the
text goes on behind the line. -/
theorem ends_same {tail : List Char} (htail : ∀ x ∈ tail.head?, x = '\n') {older : List (Nat × List Char)} {p : Pattern}
    (hp : Within p) {c d : Cursor} (h : Same tail older c d) :
    List.Forall₂ (Same tail older) (p.ends c) (p.ends d) := by
  induction p generalizing c d with
  | char accepts =>
      rw [Pattern.ends, Pattern.ends, h.rest]
      cases hrest : d.rest with
      | nil =>
          cases tail with
          | nil => exact .nil
          | cons x xs =>
              have hx : accepts x = false := by rw [htail x rfl]; exact hp
              simp [hx]
      | cons x xs =>
          have hline := h.line
          rw [hrest] at hline
          simp only [List.cons_append]
          cases accepts x with
          | false => exact .nil
          | true => exact .cons ⟨rfl, fun y hy => hline y (List.mem_cons_of_mem _ hy), h.groups⟩ .nil
  | nothing => exact .cons h .nil
  | seq p q ihp ihq => exact List.rel_flatMap (ihp hp.1 h) (fun e f hef => ihq hp.2 hef)
  | alt p q ihp ihq => exact List.rel_append (ihp hp.1 h) (ihq hp.2 h)
  | many greedy p ih =>
      rw [Pattern.ends, Pattern.ends,
        rounds_enough (c := d) (Nat.le_refl _) (m := c.rest.length) (by rw [h.rest, List.length_append]; omega)]
      exact h.rounds (fun h => ih hp h)
  | group index p ih =>
      refine List.rel_map (R := fun e f => e.rest.length ≤ c.rest.length ∧ Same tail older e f) ?_ ?_
      · rintro e f ⟨hshort, hef⟩
        refine ⟨hef.rest, hef.line, ?_⟩
        have htake : c.rest.take (c.rest.length - e.rest.length) = d.rest.take (d.rest.length - f.rest.length) := by
          rw [h.rest, hef.rest, List.length_append, List.length_append, Nat.add_sub_add_right]
          exact List.take_append_of_le_length (Nat.sub_le _ _)
        dsimp only
        rw [htake, hef.groups, List.cons_append]
      · rw [List.forall₂_and_left]
        exact ⟨fun e he => Nat.le_trans (Nat.le_add_right _ _) (length_ends he), ih hp h⟩
  | lineStart => exact hp.elim
  | lineEnd =>
      rw [Pattern.ends, Pattern.ends, h.rest]
      cases hrest : d.rest with
      | nil =>
          have hend : tail = [] ∨ tail.head? = some '\n' := by
            cases tail with
            | nil => exact Or.inl rfl
            | cons x xs => exact Or.inr (congrArg some (htail x rfl))
          simp only [List.nil_append, if_pos hend, true_or, if_true]
          exact .cons h .nil
      | cons x xs =>
          have hx := h.line x (hrest ▸ List.mem_cons_self ..)
          have hne : x ≠ '\n' := by rintro rfl; cases hx
          simp [hne]

/-- After a match in a line the last character is not a newline. -/
theorem before_ends {p : Pattern} (hp : Within p) {c d : Cursor} (h : d ∈ p.ends c) :
    (d.rest = c.rest ∧ d.before = c.before) ∨ ∃ x, d.before = some x ∧ x ≠ '\n' := by
  induction p generalizing c d with
  | char accepts =>
      rw [Pattern.ends] at h
      split at h
      · cases h
      · next x xs hrest =>
          split at h
          · next hx =>
              rw [List.mem_singleton.mp h]
              refine Or.inr ⟨x, rfl, ?_⟩
              rintro rfl
              rw [show accepts '\n' = false from hp] at hx
              cases hx
          · cases h
  | nothing => rw [List.mem_singleton.mp h]; exact Or.inl ⟨rfl, rfl⟩
  | seq p q ihp ihq =>
      obtain ⟨e, he, hd⟩ := List.mem_flatMap.mp h
      rcases ihq hp.2 hd with ⟨hrest, hbefore⟩ | hd
      · rw [hrest, hbefore]
        exact ihp hp.1 he
      · exact Or.inr hd
  | alt p q ihp ihq =>
      rcases List.mem_append.mp h with h | h
      · exact ihp hp.1 h
      · exact ihq hp.2 h
  | many greedy p ih =>
      have hrounds {n : Nat} {c : Cursor} (h : d ∈ rounds p.ends greedy n c) :
          (d.rest = c.rest ∧ d.before = c.before) ∨ ∃ x, d.before = some x ∧ x ≠ '\n' := by
        induction n generalizing c with
        | zero => rw [List.mem_singleton.mp h]; exact Or.inl ⟨rfl, rfl⟩
        | succ n ihn =>
            rcases mem_rounds.mp h with rfl | ⟨e, he, -, hd⟩
            · exact Or.inl ⟨rfl, rfl⟩
            · rcases ihn hd with ⟨hrest, hbefore⟩ | hd
              · rw [hrest, hbefore]
                exact ih hp he
              · exact Or.inr hd
      exact hrounds h
  | group index p ih =>
      obtain ⟨e, he, rfl⟩ := List.mem_map.mp h
      exact ih hp (d := e) he
  | lineStart => exact hp.elim
  | lineEnd =>
      rw [Pattern.ends] at h
      split at h
      · rw [List.mem_singleton.mp h]; exact Or.inl ⟨rfl, rfl⟩
      · cases h

/-- `^` in multiline mode. -/
def StartsLine (before : Option Char) : Prop := before = none ∨ before = some '\n'

theorem ends_start {q : Pattern} {before : Option Char} (h : StartsLine before) (rest : List Char)
    (groups : List (Nat × List Char)) :
    (Pattern.seq .lineStart q).ends ⟨before, rest, groups⟩ = q.ends ⟨before, rest, groups⟩ := by
  have hstart : before = none ∨ before = some '\n' := h
  simp [Pattern.ends, hstart]

theorem ends_middle {q : Pattern} {c : Cursor} (h : ∃ x, c.before = some x ∧ x ≠ '\n') :
    (Pattern.seq .lineStart q).ends c = [] := by
  obtain ⟨x, hx, hne⟩ := h
  simp [Pattern.ends, hx, hne]

theorem scan_enough {p : Pattern} {n m : Nat} {c : Cursor} (hn : c.rest.length ≤ n) (hm : c.rest.length ≤ m) :
    p.scan n c = p.scan m c := by
  have hzero {k : Nat} {c : Cursor} (h : c.rest.length ≤ 0) : p.scan k c = (p.ends c).head?.toList := by
    cases k with
    | zero => rfl
    | succ k =>
        rw [Pattern.scan, List.length_eq_zero_iff.mp (Nat.le_zero.mp h)]
        cases (p.ends c).head? <;> rfl
  induction n generalizing m c with
  | zero => rw [hzero hn, hzero hn]
  | succ n ih =>
      cases m with
      | zero => rw [hzero hm, hzero hm]
      | succ m =>
          rw [Pattern.scan, Pattern.scan]
          split
          · next d x xs hhead hrest =>
              rw [hrest, List.length_cons] at hn hm
              split
              · next hadvances =>
                  have hshort : d.rest.length < c.rest.length := by simpa [advances] using hadvances
                  rw [hrest, List.length_cons] at hshort
                  rw [ih (m := m) (by dsimp only; omega) (by dsimp only; omega)]
              · rw [ih (m := m) (by dsimp only; omega) (by dsimp only; omega)]
          · rfl
          · next x xs hhead hrest =>
              rw [hrest, List.length_cons] at hn hm
              exact ih (by dsimp only; omega) (by dsimp only; omega)
          · rfl

/-- What is found after the rest of a line. -/
def scanNext (p : Pattern) : List Char → List Cursor
  | [] => []
  | _ :: rest => p.scan rest.length ⟨some '\n', rest, []⟩

section Anchored

variable {q : Pattern}

/-- Within a line nothing starts. -/
theorem scan_middle {tail : List Char} (htail : ∀ x ∈ tail.head?, x = '\n') {before : Option Char} {body : List Char}
    (hbefore : ∃ x, before = some x ∧ x ≠ '\n') (hbody : Open isNewline body) {n : Nat} (hn : (body ++ tail).length ≤ n)
    (groups : List (Nat × List Char)) :
    (Pattern.seq .lineStart q).scan n ⟨before, body ++ tail, groups⟩ = scanNext (.seq .lineStart q) tail := by
  rw [scan_enough (m := n + 1) hn (Nat.le_succ_of_le hn)]
  induction body generalizing before groups n with
  | nil =>
      rw [Pattern.scan, ends_middle hbefore]
      cases tail with
      | nil => rfl
      | cons x rest =>
          rw [htail x rfl]
          exact scan_enough (Nat.le_of_succ_le hn) (Nat.le_refl _)
  | cons y body ih =>
      have hy : y ≠ '\n' := by
        rintro rfl
        exact absurd (hbody _ (List.mem_cons_self ..)) (by decide)
      rw [Pattern.scan, ends_middle hbefore]
      rw [List.cons_append, List.length_cons] at hn
      obtain ⟨n, rfl⟩ : ∃ k, n = k + 1 := ⟨n - 1, by omega⟩
      exact ih ⟨y, rfl, hy⟩ (fun z hz => hbody z (List.mem_cons_of_mem _ hz)) (by omega) []

theorem ends_nil (hlen : 0 < minLength q) (before : Option Char) (groups : List (Nat × List Char)) :
    q.ends ⟨before, [], groups⟩ = [] := by
  apply List.eq_nil_iff_forall_not_mem.mpr
  intro d hd
  have hlength := length_ends hd
  rw [List.length_nil] at hlength
  omega

theorem same_start (tail : List Char) {body : List Char} (hbody : Open isNewline body) (before before' : Option Char)
    (older : List (Nat × List Char)) : Same tail older ⟨before, body ++ tail, older⟩ ⟨before', body, []⟩ :=
  ⟨rfl, hbody, rfl⟩

theorem head_nil : ∀ x ∈ ([] : List Char).head?, x = '\n' := by rintro x ⟨⟩

/-- The first match of a line is that of the line alone. -/
theorem head_groups (hq : Within q) {tail body : List Char} (htail : ∀ x ∈ tail.head?, x = '\n')
    (hbody : Open isNewline body) (before before' : Option Char) :
    (q.ends ⟨before, body ++ tail, []⟩).head?.map (·.groups) = (q.ends ⟨before', body, []⟩).head?.map (·.groups) := by
  have hsame := ends_same htail hq (same_start tail hbody before before' [])
  revert hsame
  generalize q.ends ⟨before, body ++ tail, []⟩ = ends
  generalize q.ends ⟨before', body, []⟩ = ends'
  intro hsame
  cases hsame with
  | nil => rfl
  | cons h _ => exact congrArg some (h.groups.trans (List.append_nil _))

theorem scan_line (hq : Within q) (hlen : 0 < minLength q) {tail body : List Char} (htail : ∀ x ∈ tail.head?, x = '\n')
    (hbody : Open isNewline body) {before : Option Char} (hbefore : StartsLine before) {n : Nat}
    (hn : (body ++ tail).length ≤ n) :
    ((Pattern.seq .lineStart q).scan n ⟨before, body ++ tail, []⟩).map (·.groups) =
      ((q.ends ⟨none, body, []⟩).head?.map (·.groups)).toList ++ (scanNext (.seq .lineStart q) tail).map
      (·.groups) := by
  rw [scan_enough (m := n + 1) hn (Nat.le_succ_of_le hn), ← head_groups hq htail hbody before none, Pattern.scan,
    ends_start hbefore]
  have hsame := ends_same htail hq (same_start tail hbody before none [])
  cases hhead : (q.ends ⟨before, body ++ tail, []⟩).head? with
  | none =>
      cases body with
      | nil =>
          cases tail with
          | nil => rfl
          | cons x rest =>
              rw [htail x rfl]
              exact congrArg _ (scan_enough (Nat.le_of_succ_le hn) (Nat.le_refl _))
      | cons y body =>
          have hy : y ≠ '\n' := by
            rintro rfl
            exact absurd (hbody _ (List.mem_cons_self ..)) (by decide)
          exact congrArg _ (scan_middle htail ⟨y, rfl, hy⟩ (fun z hz => hbody z (List.mem_cons_of_mem _ hz))
            (Nat.le_of_succ_le hn) [])
  | some d =>
      have hd : d ∈ q.ends ⟨before, body ++ tail, []⟩ := List.mem_of_head? hhead
      obtain ⟨e, hde⟩ : ∃ e, Same tail [] d e := by
        revert hsame
        generalize q.ends ⟨none, body, []⟩ = ends
        intro hsame
        obtain ⟨rest, hends⟩ := List.head?_eq_some_iff.mp hhead
        rw [hends] at hsame
        cases hsame with
        | cons h _ => exact ⟨_, h⟩
      have hlength := length_ends hd
      have hadvances : advances ⟨before, body ++ tail, []⟩ d = true := by
        simp only [advances, decide_eq_true_eq]
        dsimp only at hlength ⊢
        omega
      have hbefore' : ∃ x, d.before = some x ∧ x ≠ '\n' := by
        rcases before_ends hq hd with ⟨hrest, -⟩ | h
        · rw [hrest] at hlength
          omega
        · exact h
      obtain ⟨x, xs, hcons⟩ : ∃ x xs, body ++ tail = x :: xs := by
        cases htext : body ++ tail with
        | nil => rw [htext] at hlength; exact absurd hlength (by simp; omega)
        | cons x xs => exact ⟨x, xs, rfl⟩
      have hmiddle : (Pattern.seq .lineStart q).scan n { d with groups := [] } = scanNext (.seq .lineStart q) tail := by
        have h := scan_middle (q := q) htail hbefore' hde.line (n := n)
          (by rw [← hde.rest]; dsimp only at hlength; omega) []
        rw [← hde.rest] at h
        exact h
      simp only [hcons, hmiddle, Option.map_some, Option.toList_some, List.singleton_append] at *
      rw [hadvances]
      simp

/-- `finditer` goes line by line. -/
theorem finditer_groups (hq : Within q) (hlen : 0 < minLength q) (text : List Char) :
    ((Pattern.seq .lineStart q).finditer text).map (·.groups) =
      (lines isNewline text).filterMap (fun line =>
        ((Pattern.seq .lineStart q).ends ⟨none, line, []⟩).head?.map (·.groups)) := by
  have hstart : StartsLine none := Or.inl rfl
  simp only [ends_start hstart]
  have hscan {before : Option Char} (hbefore : StartsLine before) :
      ((Pattern.seq .lineStart q).scan text.length ⟨before, text, []⟩).map (·.groups) =
        (lines isNewline text).filterMap (fun line => (q.ends ⟨none, line, []⟩).head?.map (·.groups)) := by
    induction text using line_induction (p := isNewline) generalizing before with
    | nil =>
        rw [List.length_nil, Pattern.scan, ends_start hbefore, ends_nil hlen]
        rfl
    | last body hbody hne =>
        have h := scan_line hq hlen head_nil hbody hbefore (n := body.length) (by rw [List.append_nil])
        rw [List.append_nil] at h
        rw [h, lines_open hbody hne]
        cases hhead : (q.ends ⟨none, body, []⟩).head? <;> simp [hhead, scanNext]
    | line body x rest hbody hx ih =>
        have hnewline : x = '\n' := by simpa [isNewline] using hx
        subst hnewline
        have hwhole : Whole isNewline (body ++ ['\n']) := by simp [Whole, isNewline]
        have htail : ∀ x ∈ ('\n' :: rest).head?, x = '\n' := by simp
        have hline : (q.ends ⟨none, body ++ ['\n'], []⟩).head?.map (·.groups) =
            (q.ends ⟨none, body, []⟩).head?.map (·.groups) :=
          head_groups hq (by simp) hbody none none
        rw [scan_line hq hlen htail hbody hbefore (Nat.le_refl _), scanNext, ih (Or.inr rfl), List.append_cons,
          lines_append hwhole, lines_line hbody hx, List.filterMap_append, ← hline]
        cases hhead : (q.ends ⟨none, body ++ ['\n'], []⟩).head? <;> simp [hhead]
  exact hscan hstart

end Anchored

/-- `re.sub` with nothing, for a pattern without empty matches. -/
def erase (p : Pattern) : Nat → Cursor → List Char
  | 0, c => c.rest
  | n + 1, c =>
      match (p.ends c).head?, c.rest with
      | some d, x :: xs => if advances c d then erase p n { d with groups := [] } else x :: erase p n ⟨some x, xs, []⟩
      | none, x :: xs => x :: erase p n ⟨some x, xs, []⟩
      | _, [] => []

def removeAll (p : Pattern) (text : List Char) : List Char := erase p text.length ⟨none, text, []⟩

/-- `(?:\r?\n|$)` -/
def newlineOrEnd : Pattern := .alt (.seq (optional (.char (· == '\r'))) (.char (· == '\n'))) .lineEnd

theorem erase_enough {p : Pattern} {n m : Nat} {c : Cursor} (hn : c.rest.length ≤ n) (hm : c.rest.length ≤ m) :
    erase p n c = erase p m c := by
  have hzero {k : Nat} {c : Cursor} (h : c.rest.length ≤ 0) : erase p k c = [] := by
    have hrest := List.length_eq_zero_iff.mp (Nat.le_zero.mp h)
    cases k with
    | zero => exact hrest
    | succ k =>
        rw [erase, hrest]
        cases (p.ends c).head? <;> rfl
  induction n generalizing m c with
  | zero => rw [hzero hn, hzero hn]
  | succ n ih =>
      cases m with
      | zero => rw [hzero hm, hzero hm]
      | succ m =>
          rw [erase, erase]
          split
          · next d x xs hhead hrest =>
              rw [hrest, List.length_cons] at hn hm
              split
              · next hadvances =>
                  have hshort : d.rest.length < c.rest.length := by simpa [advances] using hadvances
                  rw [hrest, List.length_cons] at hshort
                  exact ih (by dsimp only; omega) (by dsimp only; omega)
              · rw [ih (m := m) (by dsimp only; omega) (by dsimp only; omega)]
          · next x xs hhead hrest =>
              rw [hrest, List.length_cons] at hn hm
              rw [ih (m := m) (by dsimp only; omega) (by dsimp only; omega)]
          · rfl

section Removal

variable {q : Pattern}

/-- The line has a match that reaches its end. -/
def LineMatch (q : Pattern) (body : List Char) : Prop := ∃ d ∈ q.ends ⟨none, body, []⟩, d.rest = [] ∨ d.rest = ['\r']

theorem newlineOrEnd_ends {d : Cursor} {word rest : List Char} (hword : Open isNewline word)
    (hrest : d.rest = word ++ '\n' :: rest) :
    (word = [] ∧ newlineOrEnd.ends d = [⟨some '\n', rest, d.groups⟩, d]) ∨
      (word = ['\r'] ∧ newlineOrEnd.ends d = [⟨some '\n', rest, d.groups⟩]) ∨
      (word ≠ [] ∧ word ≠ ['\r'] ∧ newlineOrEnd.ends d = []) := by
  have hnewline {x : Char} {xs : List Char} (h : Open isNewline (x :: xs)) : (x == '\n') = false :=
    h x (List.mem_cons_self ..)
  cases word with
  | nil => simp [newlineOrEnd, Patterns.optional, Pattern.ends, hrest]
  | cons x xs =>
      have hx := hnewline hword
      have hne : x ≠ '\n' := by simpa using hx
      by_cases hcr : x = '\r'
      · subst hcr
        cases xs with
        | nil => simp [newlineOrEnd, Patterns.optional, Pattern.ends, hrest]
        | cons y ys =>
            have hy : y ≠ '\n' := by simpa using hnewline (fun z hz => hword z (List.mem_cons_of_mem _ hz))
            simp [newlineOrEnd, Patterns.optional, Pattern.ends, hrest, hy]
      · simp [newlineOrEnd, Patterns.optional, Pattern.ends, hrest, hcr, hne]

/-- The first match in a whole line takes its newline with it. -/
theorem head_removal (hq : Within q) {body : List Char} (hbody : Open isNewline body) {before : Option Char}
    (hbefore : StartsLine before) (rest : List Char) :
    ((∃ groups, ((Pattern.seq .lineStart (.seq q newlineOrEnd)).ends ⟨before, body ++ '\n' :: rest, []⟩).head? =
        some ⟨some '\n', rest, groups⟩) ∧ LineMatch q body) ∨
      ((Pattern.seq .lineStart (.seq q newlineOrEnd)).ends ⟨before, body ++ '\n' :: rest, []⟩).head? = none ∧
        ¬ LineMatch q body := by
  have hsame := ends_same (by simp) hq (same_start ('\n' :: rest) hbody before none [])
  rw [ends_start hbefore, Pattern.ends, List.head?_flatMap, LineMatch]
  revert hsame
  generalize q.ends ⟨before, body ++ '\n' :: rest, []⟩ = ends
  generalize q.ends ⟨none, body, []⟩ = ends'
  intro hsame
  induction hsame with
  | nil => exact Or.inr ⟨rfl, by rintro ⟨d, ⟨⟩, -⟩⟩
  | @cons e d ends ends' hed hrest ih =>
      rw [List.findSome?_cons]
      rcases newlineOrEnd_ends hed.line hed.rest with ⟨hword, hends⟩ | ⟨hword, hends⟩ | ⟨hne, hcr, hends⟩
      · exact Or.inl ⟨⟨e.groups, by rw [hends]; rfl⟩, d, List.mem_cons_self .., Or.inl hword⟩
      · exact Or.inl ⟨⟨e.groups, by rw [hends]; rfl⟩, d, List.mem_cons_self .., Or.inr hword⟩
      · rw [hends]
        rcases ih with ⟨hsome, f, hf, hword⟩ | ⟨hnone, hnot⟩
        · exact Or.inl ⟨hsome, f, List.mem_cons_of_mem _ hf, hword⟩
        · refine Or.inr ⟨hnone, ?_⟩
          rintro ⟨f, hf, hword⟩
          rcases List.mem_cons.mp hf with rfl | hf
          · exact hword.elim hne hcr
          · exact hnot ⟨f, hf, hword⟩

theorem fullmatch_line (hq : Within q) {body : List Char} (hbody : Open isNewline body) :
    ((Pattern.seq .lineStart (.seq q newlineOrEnd)).fullmatch (body ++ ['\n'])).isSome = true ↔ LineMatch q body := by
  have hsame := ends_same (by simp) hq (same_start ['\n'] hbody none none [])
  rw [Pattern.fullmatch, List.find?_isSome, ends_start (Or.inl rfl), Pattern.ends, LineMatch]
  revert hsame
  generalize q.ends ⟨none, body ++ ['\n'], []⟩ = ends
  generalize q.ends ⟨none, body, []⟩ = ends'
  intro hsame
  induction hsame with
  | nil => simp
  | @cons e d ends ends' hed hrest ih =>
      simp only [List.flatMap_cons, List.mem_append, or_and_right, exists_or, ih, List.exists_mem_cons_iff]
      refine or_congr_left ?_
      rcases newlineOrEnd_ends hed.line hed.rest with ⟨hword, hends⟩ | ⟨hword, hends⟩ | ⟨hne, hcr, hends⟩
      · simp [hends, hword]
      · simp [hends, hword]
      · simp [hends, hne, hcr]

/-- Within a line nothing is taken away. -/
theorem erase_middle {body : List Char} (rest : List Char) {before : Option Char}
    (hbefore : ∃ x, before = some x ∧ x ≠ '\n') (hbody : Open isNewline body) {n : Nat}
    (hn : (body ++ '\n' :: rest).length ≤ n) (groups : List (Nat × List Char)) :
    erase (.seq .lineStart q) n ⟨before, body ++ '\n' :: rest, groups⟩ =
      body ++ '\n' :: erase (.seq .lineStart q) rest.length ⟨some '\n', rest, []⟩ := by
  rw [erase_enough (m := n + 1) hn (Nat.le_succ_of_le hn)]
  induction body generalizing before groups n with
  | nil =>
      rw [erase, ends_middle hbefore]
      exact congrArg (List.cons '\n') (erase_enough (Nat.le_of_succ_le hn) (Nat.le_refl _))
  | cons y body ih =>
      have hy : y ≠ '\n' := by
        rintro rfl
        exact absurd (hbody _ (List.mem_cons_self ..)) (by decide)
      rw [erase, ends_middle hbefore]
      rw [List.cons_append, List.length_cons] at hn
      obtain ⟨n, rfl⟩ : ∃ k, n = k + 1 := ⟨n - 1, by omega⟩
      exact congrArg (List.cons y) (ih ⟨y, rfl, hy⟩ (fun z hz => hbody z (List.mem_cons_of_mem _ hz)) (by omega) [])

theorem erase_line (hq : Within q) {body rest : List Char} {before : Option Char} (hbefore : StartsLine before)
    (hbody : Open isNewline body) :
    erase (.seq .lineStart (.seq q newlineOrEnd)) (body ++ '\n' :: rest).length ⟨before, body ++ '\n' :: rest, []⟩ =
      (if ((Pattern.seq .lineStart (.seq q newlineOrEnd)).fullmatch (body ++ ['\n'])).isNone then
        body ++ ['\n'] else []) ++
        erase (.seq .lineStart (.seq q newlineOrEnd)) rest.length ⟨some '\n', rest, []⟩ := by
  obtain ⟨x, xs, hcons⟩ : ∃ x xs, body ++ '\n' :: rest = x :: xs := by cases body <;> exact ⟨_, _, rfl⟩
  rw [erase_enough (c := ⟨before, body ++ '\n' :: rest, []⟩) (m := (body ++ '\n' :: rest).length + 1) (Nat.le_refl _)
    (Nat.le_succ _), erase]
  rcases head_removal hq hbody hbefore rest with ⟨⟨groups, hhead⟩, hmatch⟩ | ⟨hhead, hnot⟩
  · have hfull := (fullmatch_line hq hbody).mpr hmatch
    rw [hhead, hcons, if_neg (by simp [Option.isSome_iff_ne_none.mp hfull])]
    have hadvances : advances ⟨before, x :: xs, []⟩ ⟨some '\n', rest, groups⟩ = true := by
      have hlength := congrArg List.length hcons
      rw [List.length_append, List.length_cons, List.length_cons] at hlength
      simp only [advances, List.length_cons, decide_eq_true_eq]
      omega
    simp only [hadvances, if_true, List.nil_append]
    exact erase_enough (by rw [← hcons, List.length_append, List.length_cons]; dsimp only; omega) (Nat.le_refl _)
  · have hfull : ((Pattern.seq .lineStart (.seq q newlineOrEnd)).fullmatch (body ++ ['\n'])).isNone = true := by
      rw [← Option.not_isSome, Bool.not_eq_true', Bool.eq_false_iff]
      exact fun h => hnot ((fullmatch_line hq hbody).mp h)
    rw [hhead, if_pos hfull]
    cases body with
    | nil => exact congrArg (List.cons '\n') (erase_enough (Nat.le_succ _) (Nat.le_refl _))
    | cons y body =>
        have hy : y ≠ '\n' := by
          rintro rfl
          exact absurd (hbody _ (List.mem_cons_self ..)) (by decide)
        have hmiddle := erase_middle (q := .seq q newlineOrEnd) rest ⟨y, rfl, hy⟩
          (fun z hz => hbody z (List.mem_cons_of_mem _ hz)) (Nat.le_succ _) []
        exact (congrArg (List.cons y) hmiddle).trans (by simp)

/-- Removing a pattern from whole lines removes the lines that it matches. -/
theorem removeAll_lines (hq : Within q) {text : List Char} (hwhole : Whole isNewline text) :
    removeAll (.seq .lineStart (.seq q newlineOrEnd)) text =
      ((lines isNewline text).filter (fun line =>
        ((Pattern.seq .lineStart (.seq q newlineOrEnd)).fullmatch line).isNone)).flatten := by
  have herase {before : Option Char} (hbefore : StartsLine before) :
      erase (.seq .lineStart (.seq q newlineOrEnd)) text.length ⟨before, text, []⟩ =
        ((lines isNewline text).filter (fun line =>
          ((Pattern.seq .lineStart (.seq q newlineOrEnd)).fullmatch line).isNone)).flatten := by
    induction text using line_induction (p := isNewline) generalizing before with
    | nil => rfl
    | last body hbody hne => exact absurd (hbody.eq_nil_of_whole hwhole) hne
    | line body x rest hbody hx ih =>
        have hnewline : x = '\n' := by simpa [isNewline] using hx
        subst hnewline
        have hline : Whole isNewline (body ++ ['\n']) := by simp [Whole, isNewline]
        have hrest : Whole isNewline rest := by
          intro y hy
          apply hwhole y
          rw [List.append_cons, List.getLast?_append, hy]
          rfl
        rw [erase_line hq hbefore hbody, ih hrest (Or.inr rfl), List.append_cons body '\n' rest,
          lines_append hline, lines_line hbody hx,
          List.filter_append, List.flatten_append, List.filter_singleton]
        cases ((Pattern.seq .lineStart (.seq q newlineOrEnd)).fullmatch (body ++ ['\n'])).isNone <;> simp
  exact herase (Or.inl rfl)

end Removal

/-- A pattern for the end of a line: it takes the newline if what is left of the
line is of some form, and it does not match before. -/
structure LineEnding (e : Pattern) (form : List Char → Bool) : Prop where
  takes : ∀ {d : Cursor} {word rest : List Char}, Open isNewline word → d.rest = word ++ '\n' :: rest →
    e.ends d = if form word then [⟨some '\n', rest, d.groups⟩] else []
  needs : ∀ {d : Cursor}, Open isNewline d.rest → e.ends d = []

section Blocks

variable {q e : Pattern} {form : List Char → Bool}

/-- A line that the pattern takes with its newline. -/
def FormMatch (q : Pattern) (form : List Char → Bool) (body : List Char) : Prop :=
  ∃ d ∈ q.ends ⟨none, body, []⟩, form d.rest = true

/-- A line in a text: the pattern goes to its end, if it matches the line. -/
theorem mem_line (hq : Within q) (he : LineEnding e form) {body : List Char} (hbody : Open isNewline body)
    (before : Option Char) (rest : List Char) (groups : List (Nat × List Char)) :
    (∀ f ∈ (Pattern.seq q e).ends ⟨before, body ++ '\n' :: rest, groups⟩, f.rest = rest) ∧
      ((∃ f, f ∈ (Pattern.seq q e).ends ⟨before, body ++ '\n' :: rest, groups⟩) ↔ FormMatch q form body) := by
  have hsame := ends_same (by simp) hq (same_start ('\n' :: rest) hbody before none groups)
  rw [Pattern.ends, FormMatch]
  revert hsame
  generalize q.ends ⟨before, body ++ '\n' :: rest, groups⟩ = ends
  generalize q.ends ⟨none, body, []⟩ = ends'
  intro hsame
  induction hsame with
  | nil => exact ⟨by rintro f ⟨⟩, by simp⟩
  | @cons c d ends ends' hcd hrest ih =>
      rw [List.flatMap_cons, he.takes hcd.line hcd.rest]
      obtain ⟨hall, hsome⟩ := ih
      constructor
      · intro f hf
        rcases List.mem_append.mp hf with hf | hf
        · split at hf
          · rw [List.mem_singleton.mp hf]
          · cases hf
        · exact hall f hf
      · rw [List.exists_mem_cons_iff, ← hsome]
        simp only [List.mem_append, exists_or]
        refine or_congr_left ?_
        cases form d.rest <;> simp

theorem line_fullmatch (hq : Within q) (he : LineEnding e form) {body : List Char} (hbody : Open isNewline body) :
    ((Pattern.seq q e).fullmatch (body ++ ['\n'])).isSome = true ↔ FormMatch q form body := by
  obtain ⟨hall, hsome⟩ := mem_line hq he hbody none [] []
  rw [Pattern.fullmatch, List.find?_isSome, ← hsome]
  constructor
  · rintro ⟨f, hf, -⟩
    exact ⟨f, hf⟩
  · rintro ⟨f, hf⟩
    exact ⟨f, hf, by rw [hall f hf]; rfl⟩

/-- Rounds of a line pattern end at the end of the text exactly if each line is
matched. -/
theorem rounds_lines (hq : Within q) (he : LineEnding e form) {text : List Char} (hwhole : Whole isNewline text)
    (before : Option Char) (groups : List (Nat × List Char)) {n : Nat} (hn : text.length ≤ n) :
    (∃ d ∈ rounds (Pattern.seq q e).ends true n ⟨before, text, groups⟩, d.rest = []) ↔
      ∀ line ∈ lines isNewline text, ((Pattern.seq q e).fullmatch line).isSome = true := by
  induction text using line_induction (p := isNewline) generalizing before groups n with
  | nil =>
      refine iff_of_true ⟨⟨before, [], groups⟩, ?_, rfl⟩ (by rintro line ⟨⟩)
      cases n with
      | zero => exact List.mem_singleton_self _
      | succ n => exact mem_rounds.mpr (Or.inl rfl)
  | last body hbody hne => exact absurd (hbody.eq_nil_of_whole hwhole) hne
  | line body x rest hbody hx ih =>
      have hnewline : x = '\n' := by simpa [isNewline] using hx
      subst hnewline
      have hline : Whole isNewline (body ++ ['\n']) := by simp [Whole, isNewline]
      have hrest : Whole isNewline rest := by
        intro y hy
        apply hwhole y
        rw [List.append_cons, List.getLast?_append, hy]
        rfl
      rw [List.length_append, List.length_cons] at hn
      obtain ⟨n, rfl⟩ : ∃ k, n = k + 1 := ⟨n - 1, by omega⟩
      obtain ⟨hall, hsome⟩ := mem_line hq he hbody before rest groups
      rw [List.append_cons body '\n' rest, lines_append hline, lines_line hbody hx, ← List.append_cons]
      simp only [List.mem_append, List.mem_singleton, forall_eq_or_imp, line_fullmatch hq he hbody]
      rw [← hsome]
      constructor
      · rintro ⟨d, hd, hend⟩
        rcases mem_rounds.mp hd with rfl | ⟨f, hf, -, hfd⟩
        · simp at hend
        · have hfrest := hall f hf
          obtain ⟨fbefore, frest, fgroups⟩ := f
          dsimp only at hfrest
          subst hfrest
          exact ⟨⟨_, hf⟩, (ih hrest fbefore fgroups (n := n) (by omega)).mp ⟨d, hfd, hend⟩⟩
      · rintro ⟨⟨f, hf⟩, hlines⟩
        have hfrest := hall f hf
        obtain ⟨fbefore, frest, fgroups⟩ := f
        dsimp only at hfrest
        subst hfrest
        obtain ⟨d, hd, hend⟩ := (ih hrest fbefore fgroups (n := n) (by omega)).mpr hlines
        refine ⟨d, mem_rounds.mpr (Or.inr ⟨⟨fbefore, frest, fgroups⟩, hf, ?_, hd⟩), hend⟩
        simp only [advances, List.length_append, List.length_cons, decide_eq_true_eq]
        omega

/-- A repeated line pattern matches whole lines exactly if it matches each of
them. -/
theorem block_lines (hq : Within q) (he : LineEnding e form) {text : List Char} (hwhole : Whole isNewline text)
    (hne : text ≠ []) :
    ((plus true (.seq q e)).fullmatch text).isSome = true ↔
      ∀ line ∈ lines isNewline text, ((Pattern.seq q e).fullmatch line).isSome = true := by
  rw [← rounds_lines hq he hwhole none [] (Nat.le_succ _), Pattern.fullmatch, List.find?_isSome]
  constructor
  · rintro ⟨d, hd, hend⟩
    obtain ⟨f, hf, hd⟩ := List.mem_flatMap.mp hd
    have hshort := length_ends hf
    have hadvances : advances ⟨none, text, []⟩ f = true := by
      obtain ⟨body, x, rest, rfl, hbody, hx⟩ := first_line hwhole hne
      have hnewline : x = '\n' := by simpa [isNewline] using hx
      subst hnewline
      simp only [advances, (mem_line hq he hbody none rest []).1 f hf, List.length_append, List.length_cons,
        decide_eq_true_eq]
      omega
    refine ⟨d, mem_rounds.mpr (Or.inr ⟨f, hf, hadvances, ?_⟩), eq_of_beq hend⟩
    rw [rounds_enough (m := f.rest.length) ?_ (Nat.le_refl _)]
    · exact hd
    · dsimp only at hshort
      omega
  · rintro ⟨d, hd, hend⟩
    rcases mem_rounds.mp hd with rfl | ⟨f, hf, hadvances, hd⟩
    · exact absurd hend hne
    · refine ⟨d, List.mem_flatMap.mpr ⟨f, hf, ?_⟩, beq_iff_eq.mpr hend⟩
      have hshort := length_ends hf
      rw [Pattern.ends, rounds_enough (m := text.length) (Nat.le_refl _) ?_]
      · exact hd
      · dsimp only at hshort
        omega

/-- `\n` -/
def bareNewline : Pattern := .char (· == '\n')

/-- `\r?\n` -/
def newline : Pattern := .seq (optional (.char (· == '\r'))) (.char (· == '\n'))

theorem lineEnding_bareNewline : LineEnding bareNewline (fun word => word.isEmpty) where
  takes := by
    intro d word rest hword hrest
    cases word with
    | nil => simp [bareNewline, Pattern.ends, hrest]
    | cons x xs =>
        have hx : (x == '\n') = false := hword x (List.mem_cons_self ..)
        simp [bareNewline, Pattern.ends, hrest, hx]
  needs := by
    intro d hd
    cases hrest : d.rest with
    | nil => simp [bareNewline, Pattern.ends, hrest]
    | cons x xs =>
        have hx : (x == '\n') = false := hd x (hrest ▸ List.mem_cons_self ..)
        simp [bareNewline, Pattern.ends, hrest, hx]

theorem lineEnding_newline : LineEnding newline (fun word => word.isEmpty || word == ['\r']) where
  takes := by
    intro d word rest hword hrest
    rcases newlineOrEnd_ends hword hrest with ⟨hnil, -⟩ | ⟨hcr, -⟩ | ⟨hne, hcr, hends⟩
    · simp [newline, Patterns.optional, Pattern.ends, hrest, hnil]
    · simp [newline, Patterns.optional, Pattern.ends, hrest, hcr]
    · have hnewline : newline.ends d = [] := (List.append_eq_nil_iff.mp hends).1
      rw [hnewline]
      simp [hne, hcr]
  needs := by
    intro d hd
    have hnewline {x : Char} (hx : x ∈ d.rest) : x ≠ '\n' := by simpa [isNewline] using hd x hx
    cases hrest : d.rest with
    | nil => simp [newline, Patterns.optional, Pattern.ends, hrest]
    | cons x xs =>
        have hx := hnewline (hrest ▸ List.mem_cons_self ..)
        cases xs with
        | nil => by_cases hcr : x = '\r' <;> simp [newline, Patterns.optional, Pattern.ends, hrest, hx, hcr]
        | cons y ys =>
            have hy : y ≠ '\n' := hnewline (by rw [hrest]; simp)
            by_cases hcr : x = '\r' <;> simp [newline, Patterns.optional, Pattern.ends, hrest, hx, hy, hcr]

/-- The words that a match may take. -/
def Takes : Pattern → List Char → Prop
  | .char accepts, word => ∃ x, word = [x] ∧ accepts x = true
  | .nothing, word => word = []
  | .seq p q, word => ∃ u v, word = u ++ v ∧ Takes p u ∧ Takes q v
  | .alt p q, word => Takes p word ∨ Takes q word
  | .many _ p, word => ∃ words, word = List.flatten words ∧ ∀ u ∈ words, Takes p u
  | .group _ p, word => Takes p word
  | .lineStart, word => word = []
  | .lineEnd, word => word = []

theorem ends_takes {p : Pattern} {c d : Cursor} (h : d ∈ p.ends c) :
    ∃ word, c.rest = word ++ d.rest ∧ Takes p word := by
  induction p generalizing c d with
  | char accepts =>
      rw [Pattern.ends] at h
      split at h
      · cases h
      · next x xs hrest =>
          split at h
          · next hx =>
              rw [List.mem_singleton.mp h]
              exact ⟨[x], hrest, x, rfl, hx⟩
          · cases h
  | nothing => rw [List.mem_singleton.mp h]; exact ⟨[], rfl, rfl⟩
  | seq p q ihp ihq =>
      obtain ⟨e, he, hd⟩ := List.mem_flatMap.mp h
      obtain ⟨u, hu, hpu⟩ := ihp he
      obtain ⟨v, hv, hqv⟩ := ihq hd
      exact ⟨u ++ v, by rw [hu, hv, List.append_assoc], u, v, rfl, hpu, hqv⟩
  | alt p q ihp ihq =>
      rcases List.mem_append.mp h with h | h
      · obtain ⟨word, hword, hp⟩ := ihp h
        exact ⟨word, hword, Or.inl hp⟩
      · obtain ⟨word, hword, hq⟩ := ihq h
        exact ⟨word, hword, Or.inr hq⟩
  | many greedy p ih =>
      have hrounds {n : Nat} {c : Cursor} (h : d ∈ rounds p.ends greedy n c) :
          ∃ words, c.rest = List.flatten words ++ d.rest ∧ ∀ u ∈ words, Takes p u := by
        induction n generalizing c with
        | zero => rw [List.mem_singleton.mp h]; exact ⟨[], rfl, by rintro u ⟨⟩⟩
        | succ n ihn =>
            rcases mem_rounds.mp h with rfl | ⟨e, he, -, hd⟩
            · exact ⟨[], rfl, by rintro u ⟨⟩⟩
            · obtain ⟨u, hu, hpu⟩ := ih he
              obtain ⟨words, hwords, hp⟩ := ihn hd
              exact ⟨u :: words,
                by rw [hu, hwords, List.flatten_cons, List.append_assoc], List.forall_mem_cons.mpr ⟨hpu, hp⟩⟩
      obtain ⟨words, hwords, hp⟩ := hrounds h
      exact ⟨words.flatten, hwords, words, rfl, hp⟩
  | group index p ih =>
      obtain ⟨e, he, rfl⟩ := List.mem_map.mp h
      exact ih (d := e) he
  | lineStart | lineEnd =>
      rw [Pattern.ends] at h
      split at h
      · rw [List.mem_singleton.mp h]; exact ⟨[], rfl, rfl⟩
      · cases h

theorem takes_many_char {accepts : Char → Bool} {greedy : Bool} {word : List Char}
    (h : Takes (.many greedy (.char accepts)) word) :
    ∀ c ∈ word, accepts c = true := by
  obtain ⟨words, rfl, hwords⟩ := h
  intro c hc
  obtain ⟨u, hu, hcu⟩ := List.mem_flatten.mp hc
  obtain ⟨x, rfl, hx⟩ := hwords u hu
  rw [List.mem_singleton.mp hcu]
  exact hx

/-- A pattern without a certain character. -/
def Avoids (bad : Char) : Pattern → Prop
  | .char accepts => accepts bad = false
  | .nothing => True
  | .seq p q => Avoids bad p ∧ Avoids bad q
  | .alt p q => Avoids bad p ∧ Avoids bad q
  | .many _ p => Avoids bad p
  | .group _ p => Avoids bad p
  | .lineStart => True
  | .lineEnd => True

theorem takes_avoids {bad : Char} {p : Pattern} (hp : Avoids bad p) {word : List Char} (h : Takes p word) :
    bad ∉ word := by
  induction p generalizing word with
  | char accepts =>
      obtain ⟨x, rfl, hx⟩ := h
      intro hbad
      rw [List.mem_singleton.mp hbad] at hp
      exact Bool.false_ne_true (hp.symm.trans hx)
  | nothing | lineStart | lineEnd =>
      rw [show word = [] from h]
      exact List.not_mem_nil
  | seq p q ihp ihq =>
      obtain ⟨u, v, rfl, hu, hv⟩ := h
      intro hbad
      exact (List.mem_append.mp hbad).elim (ihp hp.1 hu) (ihq hp.2 hv)
  | alt p q ihp ihq => exact h.elim (ihp hp.1) (ihq hp.2)
  | many greedy p ih =>
      obtain ⟨words, rfl, hwords⟩ := h
      intro hbad
      obtain ⟨u, hu, hbad⟩ := List.mem_flatten.mp hbad
      exact ih hp (hwords u hu) hbad
  | group index p ih => exact ih hp h

theorem ends_consumed {bad : Char} {p : Pattern} (hp : Avoids bad p) {c d : Cursor} (h : d ∈ p.ends c) :
    ∃ word, c.rest = word ++ d.rest ∧ bad ∉ word := by
  obtain ⟨word, hword, htakes⟩ := ends_takes h
  exact ⟨word, hword, takes_avoids hp htakes⟩

end Blocks

end BorgManager.LinePatterns
