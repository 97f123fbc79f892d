import BorgManager.ByteLines
import Mathlib.Data.List.Infix

namespace BorgManager.MarkedFrames

open ByteLines

variable {α ρ : Type} [DecidableEq α]

/-- The first place of a marker: what is before it, and the text from it on. -/
def find (marker : List α) : List α → Option (List α × List α)
  | [] => if marker = [] then some ([], []) else none
  | x :: text =>
      if marker.isPrefixOf (x :: text) then some ([], x :: text)
      else (find marker text).map (fun found => (x :: found.1, found.2))

/-- The text up to its first end, the end, and the text after it. -/
def cut (stop : α → Bool) : List α → Option (List α × α × List α)
  | [] => none
  | x :: text => if stop x then some ([], x, text) else (cut stop text).map (fun found => (x :: found.1, found.2))

/-- A text without its last part, if that part may be the start of a marker:
the part starts at the last `m`, and it is held back. -/
def hold (m : α) (ms : List α) (text : List α) : List α × List α :=
  let part := m :: trailing (fun x => x == m) text
  if text.any (fun x => x == m) && part.isPrefixOf (m :: ms) then (text.take (text.length - part.length), part)
  else (text, [])

/-- What comes out of a text, the records that are taken out of it, and what is
left for later. -/
structure Drained (α ρ : Type) where
  output : List α
  records : List ρ
  rest : List α

/-- A text with frames in it. Each starts with the marker and ends with the next
end; those that are records are taken out. -/
def drain (m : α) (ms : List α) (stop : α → Bool) (reads : List α → Option ρ) : Nat → List α → Drained α ρ
  | 0, text => ⟨[], [], text⟩
  | n + 1, text =>
      match find (m :: ms) text with
      | none => ⟨(hold m ms text).1, [], (hold m ms text).2⟩
      | some (before, found) =>
          match cut stop found with
          | none => ⟨before, [], found⟩
          | some (record, x, rest) =>
              let more := drain m ms stop reads n rest
              match reads record with
              | some r => ⟨before ++ more.output, r :: more.records, more.rest⟩
              | none => ⟨before ++ (record ++ x :: more.output), more.records, more.rest⟩

def Drained.after (a b : Drained α ρ) : Drained α ρ := ⟨a.output ++ b.output, a.records ++ b.records, b.rest⟩

section Find

variable {marker : List α}

theorem find_eq_none (hne : marker ≠ []) {text : List α} : find marker text = none ↔ ¬ marker <:+: text := by
  induction text with
  | nil => simp [find, hne]
  | cons x text ih =>
      rw [find, List.infix_cons_iff]
      split
      · next h => simp [List.isPrefixOf_iff_prefix.mp h]
      · next h =>
          have hnot : ¬ marker <+: x :: text := fun hp => h (List.isPrefixOf_iff_prefix.mpr hp)
          rw [Option.map_eq_none_iff, ih]
          simp [hnot]

theorem find_eq_some (hne : marker ≠ []) {text before found : List α} (h : find marker text = some (before, found)) :
    text = before ++ found ∧ marker <+: found := by
  induction text generalizing before found with
  | nil => simp [find, hne] at h
  | cons x text ih =>
      rw [find] at h
      split at h
      · next hp =>
          cases h
          exact ⟨rfl, List.isPrefixOf_iff_prefix.mp hp⟩
      · obtain ⟨⟨before', found'⟩, hfound, heq⟩ := Option.map_eq_some_iff.mp h
        cases heq
        obtain ⟨rfl, hp⟩ := ih hfound
        exact ⟨rfl, hp⟩

theorem find_prefix {text : List α} (hne : marker ≠ []) (h : marker <+: text) : find marker text = some ([], text) := by
  cases text with
  | nil => exact absurd (List.prefix_nil.mp h) hne
  | cons x text => rw [find, if_pos (List.isPrefixOf_iff_prefix.mpr h)]

/-- The first place stays the first one in a longer text. -/
theorem find_append (hne : marker ≠ []) {text before found : List α}
    (h : find marker text = some (before, found)) (more : List α) :
    find marker (text ++ more) = some (before, found ++ more) := by
  induction text generalizing before found with
  | nil => simp [find, hne] at h
  | cons x text ih =>
      rw [find] at h
      split at h
      · next hp =>
          cases h
          exact find_prefix hne ((List.isPrefixOf_iff_prefix.mp hp).trans (List.prefix_append _ _))
      · next hp =>
          obtain ⟨⟨before', found'⟩, hfound, heq⟩ := Option.map_eq_some_iff.mp h
          cases heq
          obtain ⟨htext, hleads⟩ := find_eq_some hne hfound
          have hshort : ¬ marker.isPrefixOf (x :: (text ++ more)) = true := by
            intro hlong
            apply hp
            rw [List.isPrefixOf_iff_prefix] at hlong ⊢
            refine List.prefix_of_prefix_length_le hlong (List.prefix_append (x :: text) more) ?_
            have hlength := hleads.length_le
            rw [htext, List.length_cons, List.length_append]
            omega
          rw [List.cons_append, find, if_neg hshort, ih hfound]
          rfl

/-- Before a place where no marker starts the search goes on. -/
theorem find_skip {text more : List α} (h : ∀ part, part ≠ [] → part <:+ text → ¬ marker <+: part ++ more) :
    find marker (text ++ more) = (find marker more).map (fun found => (text ++ found.1, found.2)) := by
  induction text with
  | nil =>
      rw [List.nil_append]
      cases find marker more <;> rfl
  | cons x text ih =>
      have hstart : ¬ marker.isPrefixOf (x :: (text ++ more)) = true := by
        rw [List.isPrefixOf_iff_prefix]
        exact h (x :: text) (List.cons_ne_nil _ _) List.suffix_rfl
      rw [List.cons_append, find, if_neg hstart,
        ih (fun part hne hpart => h part hne (hpart.trans (List.suffix_cons _ _))),
        Option.map_map]
      rfl

end Find

section Cut

variable {stop : α → Bool}

omit [DecidableEq α]

theorem cut_eq_some {text record rest : List α} {x : α} (h : cut stop text = some (record, x, rest)) :
    text = record ++ x :: rest ∧ stop x = true ∧ ∀ y ∈ record, stop y = false := by
  induction text generalizing record with
  | nil => cases h
  | cons y text ih =>
      rw [cut] at h
      split at h
      · next hy =>
          cases h
          exact ⟨rfl, hy, by rintro z ⟨⟩⟩
      · next hy =>
          obtain ⟨⟨record', x', rest'⟩, hfound, heq⟩ := Option.map_eq_some_iff.mp h
          cases heq
          obtain ⟨rfl, hx, hopen⟩ := ih hfound
          refine ⟨rfl, hx, fun z hz => ?_⟩
          rcases List.mem_cons.mp hz with rfl | hz
          · exact Bool.eq_false_iff.mpr hy
          · exact hopen z hz

theorem cut_append {text record rest : List α} {x : α} (h : cut stop text = some (record, x, rest)) (more : List α) :
    cut stop (text ++ more) = some (record, x, rest ++ more) := by
  induction text generalizing record with
  | nil => cases h
  | cons y text ih =>
      rw [cut] at h
      rw [List.cons_append, cut]
      split at h
      · next hy =>
          cases h
          rw [if_pos hy]
      · next hy =>
          obtain ⟨⟨record', x', rest'⟩, hfound, heq⟩ := Option.map_eq_some_iff.mp h
          cases heq
          rw [if_neg hy, ih hfound]
          rfl

end Cut

section Hold

variable {m : α} {ms : List α}

/-- What is held back is the only part at the end that starts a marker. -/
theorem hold_spec (hm : m ∉ ms) (text : List α) :
    (hold m ms text).1 ++ (hold m ms text).2 = text ∧ (hold m ms text).2 <+: m :: ms ∧
      ∀ part, part ≠ [] → part <:+ text → part <+: m :: ms → part = (hold m ms text).2 := by
  have hpart {part : List α} (hne : part ≠ []) (hsuffix : part <:+ text) (hleads : part <+: m :: ms) :
      part = m :: trailing (fun x => x == m) text ∧ text.any (fun x => x == m) = true := by
    obtain ⟨x, t, rfl⟩ := List.exists_cons_of_ne_nil hne
    obtain ⟨rfl, ht⟩ := List.cons_prefix_cons.mp hleads
    obtain ⟨before, rfl⟩ := hsuffix
    have hopen : Open (fun y => y == x) t := by
      intro y hy
      have hyms := ht.subset hy
      have hne : y ≠ x := by rintro rfl; exact hm hyms
      simpa using hne
    have hwhole : Whole (fun y => y == x) (before ++ [x]) := by simp [Whole]
    obtain ⟨-, htrailing⟩ := cut_unique (whole_complete _) (open_trailing _) hwhole hopen
      ((complete_append_trailing (p := fun y => y == x) (before ++ x :: t)).trans (List.append_cons before x t))
    exact ⟨by rw [htrailing], by simp⟩
  rw [hold]
  split
  · next h =>
      rw [Bool.and_eq_true] at h
      obtain ⟨hany, hleads⟩ := h
      have hcomplete : ∃ before, complete (fun x => x == m) text = before ++ [m] := by
        have hne : complete (fun x => x == m) text ≠ [] := by
          intro hnil
          have htext := complete_append_trailing (p := fun x => x == m) text
          rw [hnil, List.nil_append] at htext
          obtain ⟨y, hy, hym⟩ := List.any_eq_true.mp hany
          have hopen := open_trailing (p := fun x => x == m) text y (by rw [htext]; exact hy)
          exact Bool.false_ne_true (hopen.symm.trans hym)
        obtain ⟨before, x, hbefore⟩ := List.eq_nil_or_concat' _ |>.resolve_left hne
        have hx := whole_complete (p := fun x => x == m) text x (by rw [hbefore, List.getLast?_concat]; rfl)
        rw [eq_of_beq hx] at hbefore
        exact ⟨before, hbefore⟩
      obtain ⟨before, hbefore⟩ := hcomplete
      have htext : before ++ (m :: trailing (fun x => x == m) text) = text := by
        rw [List.append_cons, ← hbefore, complete_append_trailing]
      have hlength : text.length = before.length + (m :: trailing (fun x => x == m) text).length := by
        rw [← List.length_append, htext]
      have htake : text.take (text.length - (m :: trailing (fun x => x == m) text).length) = before := by
        calc text.take (text.length - (m :: trailing (fun x => x == m) text).length)
            = text.take before.length := by rw [hlength, Nat.add_sub_cancel_right]
          _ = (before ++ (m :: trailing (fun x => x == m) text)).take before.length := by rw [htext]
          _ = before := List.take_left
      refine ⟨by rw [htake]; exact htext, List.isPrefixOf_iff_prefix.mp hleads, ?_⟩
      intro part hne hsuffix hpre
      exact (hpart hne hsuffix hpre).1
  · next h =>
      refine ⟨List.append_nil _, List.nil_prefix, ?_⟩
      intro part hne hsuffix hleads
      obtain ⟨heq, hany⟩ := hpart hne hsuffix hleads
      rw [heq] at hleads
      rw [hany, List.isPrefixOf_iff_prefix.mpr hleads] at h
      exact absurd rfl h

/-- Before a place where no marker starts, nothing is held back. -/
theorem hold_skip (hm : m ∉ ms) {text more : List α}
    (h : ∀ part, part ≠ [] → part <:+ text → ¬ part ++ more <+: m :: ms) :
    hold m ms (text ++ more) = (text ++ (hold m ms more).1, (hold m ms more).2) := by
  obtain ⟨hmore, hleads, hlast⟩ := hold_spec hm more
  obtain ⟨hlong, hlongPrefix, hlongLast⟩ := hold_spec hm (text ++ more)
  have hsame : (hold m ms (text ++ more)).2 = (hold m ms more).2 := by
    by_cases hne : (hold m ms more).2 = []
    · by_contra hother
      rw [hne] at hother
      rcases List.append_eq_append_iff.mp hlong with ⟨part, htext, heq⟩ | ⟨part, -, heq⟩
      · by_cases hnil : part = []
        · rw [hnil, List.nil_append] at heq
          have hinside := hlast _ hother (by rw [heq]) hlongPrefix
          rw [hne] at hinside
          exact hother hinside
        · exact h part hnil ⟨_, htext.symm⟩ (heq ▸ hlongPrefix)
      · have hinside := hlast _ hother ⟨part, heq.symm⟩ hlongPrefix
        rw [hne] at hinside
        exact hother hinside
    · have hsuffix : (hold m ms more).2 <:+ text ++ more :=
        ⟨text ++ (hold m ms more).1, by rw [List.append_assoc, hmore]⟩
      exact (hlongLast _ hne hsuffix hleads).symm
  refine Prod.ext ?_ hsame
  have hsplit : (hold m ms (text ++ more)).1 ++ (hold m ms more).2 = text ++ (hold m ms more).1 ++
      (hold m ms more).2 := by
    rw [← hsame, hlong, hsame, List.append_assoc, hmore]
  exact List.append_cancel_right hsplit

end Hold

section Drain

variable {m : α} {ms : List α} {stop : α → Bool} {reads : List α → Option ρ}

omit [DecidableEq α] in
theorem cut_length {text record rest : List α} {x : α} (h : cut stop text = some (record, x, rest)) :
    rest.length < text.length := by
  rw [(cut_eq_some h).1, List.length_append, List.length_cons]
  omega

theorem find_length {marker text before found : List α} (hne : marker ≠ [])
    (h : find marker text = some (before, found)) :
    found.length ≤ text.length := by
  rw [(find_eq_some hne h).1, List.length_append]
  omega

theorem drain_enough {n k : Nat} {text : List α} (hn : text.length < n) (hk : text.length < k) :
    drain m ms stop reads n text = drain m ms stop reads k text := by
  induction n generalizing k text with
  | zero => exact absurd hn (Nat.not_lt_zero _)
  | succ n ih =>
      cases k with
      | zero => exact absurd hk (Nat.not_lt_zero _)
      | succ k =>
          rw [drain, drain]
          split
          · rfl
          · next before found hfind =>
              split
              · rfl
              · next record x rest hcut =>
                  have hfound := find_length (List.cons_ne_nil _ _) hfind
                  have hrest := cut_length hcut
                  rw [ih (k := k) (show rest.length < n by omega) (show rest.length < k by omega)]

variable (m ms stop reads)

/-- The frames of a text, up to what is left for later. -/
def drained (text : List α) : Drained α ρ := drain m ms stop reads (text.length + 1) text

variable {m ms stop reads}

theorem drained_plain {text : List α} (h : find (m :: ms) text = none) :
    drained m ms stop reads text = ⟨(hold m ms text).1, [], (hold m ms text).2⟩ := by
  rw [drained, drain, h]

theorem drained_open {text before found : List α} (h : find (m :: ms) text = some (before, found))
    (hcut : cut stop found = none) :
    drained m ms stop reads text = ⟨before, [], found⟩ := by
  rw [drained, drain, h]
  simp only [hcut]

/-- A frame comes out of the text, or it is a record and does not. -/
theorem drained_frame {text before found record rest : List α} {x : α} (h : find (m :: ms) text = some (before, found))
    (hcut : cut stop found = some (record, x, rest)) :
    drained m ms stop reads text =
      Drained.after ⟨before ++ (if (reads record).isSome then [] else record ++ [x]), (reads record).toList, []⟩
        (drained m ms stop reads rest) := by
  have hfound := find_length (List.cons_ne_nil _ _) h
  have hrest := cut_length hcut
  rw [drained, drain, h]
  simp only [hcut]
  rw [drained, drain_enough (k := rest.length + 1) (by omega) (by omega)]
  cases reads record <;> simp [Drained.after]

omit [DecidableEq α] in
theorem after_assoc (a b c : Drained α ρ) : (a.after b).after c = a.after (b.after c) := by
  simp [Drained.after]

/-- A text that comes in two parts: what is left of the first one is read again
with the second one. -/
theorem drained_append (hm : m ∉ ms) (text more : List α) :
    drained m ms stop reads (text ++ more) =
      (drained m ms stop reads text).after (drained m ms stop reads ((drained m ms stop reads text).rest ++ more)) := by
  induction hn : text.length using Nat.strong_induction_on generalizing text with
  | _ n ih =>
      have hne : m :: ms ≠ [] := List.cons_ne_nil _ _
      cases hfind : find (m :: ms) text with
      | some found =>
          obtain ⟨before, found⟩ := found
          have hlong := find_append hne hfind more
          cases hcut : cut stop found with
          | some cutFound =>
              obtain ⟨record, x, rest⟩ := cutFound
              have hfound := find_length hne hfind
              have hrest := cut_length hcut
              rw [drained_frame hfind hcut, drained_frame hlong (cut_append hcut more),
                ih rest.length (by omega) rest rfl, after_assoc]
              rfl
          | none =>
              obtain ⟨-, hleads⟩ := find_eq_some hne hfind
              have hagain := find_prefix hne (hleads.trans (List.prefix_append found more))
              rw [drained_open hfind hcut]
              dsimp only
              cases hcutLong : cut stop (found ++ more) with
              | none => rw [drained_open hlong hcutLong, drained_open hagain hcutLong]; simp [Drained.after]
              | some cutFound =>
                  obtain ⟨record, x, rest⟩ := cutFound
                  rw [drained_frame hlong hcutLong, drained_frame hagain hcutLong]
                  simp [Drained.after]
      | none =>
          obtain ⟨htext, hleads, hlast⟩ := hold_spec hm text
          have hpart {part : List α} (hpne : part ≠ []) (hsuffix : part <:+ (hold m ms text).1)
              (hshort : part ++ (hold m ms text).2 <+: m :: ms) : False := by
            obtain ⟨before, hbefore⟩ := hsuffix
            have heq := hlast (part ++ (hold m ms text).2) (by simp [hpne])
              ⟨before, by rw [← List.append_assoc, hbefore, htext]⟩ hshort
            exact hpne (List.append_left_eq_self.mp heq)
          have hmarker {part : List α} (hpne : part ≠ []) (hsuffix : part <:+ (hold m ms text).1) :
              ¬ m :: ms <+: part ++ ((hold m ms text).2 ++ more) := by
            intro hstart
            rw [← List.append_assoc] at hstart
            rcases List.prefix_or_prefix_of_prefix hstart
              (List.prefix_append (part ++ (hold m ms text).2) more) with hin | hshort
            · obtain ⟨before, hbefore⟩ := hsuffix
              refine (find_eq_none hne).mp hfind (hin.isInfix.trans ?_)
              exact List.IsSuffix.isInfix ⟨before, by rw [← List.append_assoc, hbefore, htext]⟩
            · exact hpart hpne hsuffix hshort
          have hlong : text ++ more = (hold m ms text).1 ++ ((hold m ms text).2 ++ more) := by
            rw [← List.append_assoc, htext]
          have hskip := find_skip (fun part => @hmarker part)
          rw [drained_plain hfind]
          dsimp only
          rw [hlong]
          cases hnext : find (m :: ms) ((hold m ms text).2 ++ more) with
          | none =>
              rw [hnext] at hskip
              rw [drained_plain hskip, drained_plain hnext, hold_skip hm]
              · rfl
              · intro part hpne hsuffix hshort
                refine hpart hpne hsuffix ?_
                rw [← List.append_assoc] at hshort
                exact (List.prefix_append _ _).trans hshort
          | some found =>
              obtain ⟨before, found⟩ := found
              rw [hnext] at hskip
              cases hcut : cut stop found with
              | none => rw [drained_open hskip hcut, drained_open hnext hcut]; rfl
              | some cutFound =>
                  obtain ⟨record, x, rest⟩ := cutFound
                  rw [drained_frame hskip hcut, drained_frame hnext hcut]
                  simp [Drained.after]

end Drain

end BorgManager.MarkedFrames
