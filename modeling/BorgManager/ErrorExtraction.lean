import BorgManager.LogLines
import BorgManager.RunExecution
import Mathlib.Data.List.Destutter

namespace BorgManager.ErrorExtraction

open PythonText Patterns LinePatterns RemoteOutput LogFilter RunExecution

/-- The error that a run without technical output is stored with. -/
def storedError (rt : Runtime) (error : String) : String :=
  takeEnd 32768 (stripBorgItemLines rt (extractErrorOutput rt error))

def deniedText : String := "[Errno 13] Permission denied"

/-- The text names a refused permission, in any case. -/
def MentionsDenied (rt : Runtime) (text : String) : Prop :=
  ∃ word, word <:+: text.toList ∧ List.Forall₂ (fun a b => rt.sameLetter a b = true) deniedText.toList word

def isSuccess (lower : String) : Bool :=
  contains "terminating with success status" lower || lower == "success" || lower == "rc 0"

/-- A line with an error marker or an item line with status `C` or `E`. -/
def isDiagnostic (rt : Runtime) (line : String) : Bool :=
  !isFileActivity rt line && !isSuccess (rt.lower (strip line)) &&
    ((statusLetter rt line).any marksProblem || errorMarkers.any
      (fun marker => contains marker (rt.lower (strip line))))

section Denied

theorem takes_literal {same : Char → Char → Bool} {text word : List Char} (h : Takes (literal same text) word) :
    List.Forall₂ (fun a b => same a b = true) text word := by
  induction text generalizing word with
  | nil => rw [show word = [] from h]; exact .nil
  | cons c text ih =>
      obtain ⟨u, v, rfl, ⟨x, rfl, hx⟩, hv⟩ := h
      exact .cons hx (ih hv)

theorem exists_of_forall₂ {same : Char → Char → Prop} {text word : List Char}
    (h : List.Forall₂ same text word) {x : Char} (hx : x ∈ word) : ∃ c ∈ text, same c x := by
  induction h with
  | nil => cases hx
  | cons hsame _ ih =>
      rcases List.mem_cons.mp hx with rfl | hx
      · exact ⟨_, List.mem_cons_self .., hsame⟩
      · obtain ⟨c, hc, hcx⟩ := ih hx
        exact ⟨c, List.mem_cons_of_mem _ hc, hcx⟩

/-- What is found anywhere is found at the start of some rest. -/
theorem ends_of_finditer {p : Pattern} {text : List Char} (h : p.finditer text ≠ []) :
    ∃ rest before groups d, rest <:+ text ∧ d ∈ p.ends ⟨before, rest, groups⟩ := by
  have hscan {n : Nat} {c : Cursor} (h : p.scan n c ≠ []) :
      ∃ rest before groups d, rest <:+ c.rest ∧ d ∈ p.ends ⟨before, rest, groups⟩ := by
    induction n generalizing c with
    | zero =>
        cases hhead : (p.ends c).head? with
        | none => exact absurd (by rw [Pattern.scan, hhead]; rfl) h
        | some d => exact ⟨c.rest, c.before, c.groups, d, List.suffix_refl _, List.mem_of_head? hhead⟩
    | succ n ih =>
        cases hhead : (p.ends c).head? with
        | some d => exact ⟨c.rest, c.before, c.groups, d, List.suffix_refl _, List.mem_of_head? hhead⟩
        | none =>
            cases hrest : c.rest with
            | nil => exact absurd (by rw [Pattern.scan, hhead, hrest]) h
            | cons x xs =>
                rw [Pattern.scan, hhead, hrest] at h
                obtain ⟨rest, before, groups, d, hsuffix, hd⟩ := ih h
                exact ⟨rest, before, groups, d, hsuffix.trans (List.suffix_cons x xs), hd⟩
  exact hscan h

variable {rt : Runtime} (hnewline : ∀ c, rt.sameLetter c '\n' = true → c = '\n')
include hnewline

theorem denied_of_match {text : List Char} (h : (permissionError rt).finditer text ≠ []) :
    ∃ word, word <:+: text ∧ '\n' ∉ word ∧ List.Forall₂
      (fun a b => rt.sameLetter a b = true) deniedText.toList word := by
  obtain ⟨rest, before, groups, d, hsuffix, hd⟩ := ends_of_finditer h
  obtain ⟨word, hword, u, v, rfl, -, a, b, rfl, hliteral, -⟩ := ends_takes hd
  have hsame := List.forall₂_take deniedText.toList.length (takes_literal hliteral)
  rw [show "[Errno 13] Permission denied:".toList.take deniedText.toList.length = deniedText.toList by decide] at hsame
  refine ⟨a.take deniedText.toList.length, ?_, ?_, hsame⟩
  · have hstart : a.take deniedText.toList.length <:+: rest := by
      refine (List.take_prefix _ a).isInfix.trans ⟨u, b ++ d.rest, ?_⟩
      rw [show rest = u ++ (a ++ b) ++ d.rest from hword]
      simp
    exact hstart.trans hsuffix.isInfix
  · intro hmem
    obtain ⟨c, hc, hsamec⟩ := exists_of_forall₂ hsame hmem
    rw [hnewline c hsamec] at hc
    exact absurd hc (by decide)

/-- Without a refused permission the lines are selected one by one. -/
theorem no_match {text : String} (h : ¬ MentionsDenied rt text) :
    (permissionError rt).finditer (normalizeNewlines text.toList) = [] := by
  by_contra hfound
  obtain ⟨word, hinfix, hsolid, hsame⟩ := denied_of_match hnewline hfound
  exact h ⟨word, infix_of_normalized hsolid hinfix, hsame⟩

end Denied

section Repeats

variable {α : Type} [DecidableEq α]

theorem head?_destutter (l : List α) : (l.destutter (· ≠ ·)).head? = l.head? := by
  have hfrom (a : α) (l : List α) : (List.destutter' (· ≠ ·) a l).head? = some a := by
    induction l generalizing a with
    | nil => rfl
    | cons b l ih =>
        rw [List.destutter'_cons]
        split
        · rfl
        · exact ih a
  cases l with
  | nil => rfl
  | cons a l => exact hfrom a l

theorem getLast?_destutter (l : List α) : (l.destutter (· ≠ ·)).getLast? = l.getLast? := by
  have hfrom (a : α) (l : List α) : (List.destutter' (· ≠ ·) a l).getLast? = (a :: l).getLast? := by
    induction l generalizing a with
    | nil => rfl
    | cons b l ih =>
        rw [List.destutter'_cons, List.getLast?_cons_cons]
        split
        · rw [List.getLast?_cons, ih, List.getLast?_cons]
          rfl
        · next heq => rw [ih, not_not.mp heq]
  cases l with
  | nil => rfl
  | cons a l => exact hfrom a l

theorem destutter_concat (l : List α) (x : α) :
    (l ++ [x]).destutter (· ≠ ·) = if l.getLast? = some x then l.destutter (· ≠ ·) else l.destutter (· ≠ ·) ++ [x] := by
  have hfrom (a : α) (l : List α) : List.destutter' (· ≠ ·) a (l ++ [x]) =
      if (a :: l).getLast? = some x then List.destutter' (· ≠ ·) a l else List.destutter' (· ≠ ·) a l ++ [x] := by
    induction l generalizing a with
    | nil => by_cases h : a = x <;> simp [List.destutter', h]
    | cons b l ih =>
        rw [List.cons_append, List.destutter'_cons, List.destutter'_cons, ih, ih, List.getLast?_cons_cons]
        by_cases h : a = b
        · subst h
          simp
        · rw [if_pos h, if_pos h]
          split <;> rfl
  cases l with
  | nil => rfl
  | cons a l => exact hfrom a l

end Repeats

section Selection

variable (rt : Runtime)

/-- What is done with a line that is not blank: it is passed over, or it is
selected and the traceback goes on or not. -/
def verdict (first traceback : Bool) (line : String) : Option Bool :=
  let lower := rt.lower (strip line)
  if isFileActivity rt line then none
  else if isSuccess lower then none
  else if startsWith lower "traceback (most recent call last):" then some true
  else if traceback then some ((line.toList.take 1).any isSpace || !contains ":" line || isTraceContext lower)
  else if (statusLetter rt line).any marksProblem || errorMarkers.any (fun marker => contains marker lower) ||
      (isTraceContext lower && !first) then some false
  else none

variable {rt}

theorem strip_empty : strip "" = "" := rfl

theorem selectLine_blank {s : Selection} {line : String} (h : strip line = "") :
    selectLine rt s line = { s with selected := addBlank s.selected } := by
  rw [selectLine]
  exact if_pos h

theorem selectLine_solid {s : Selection} {line : String} (h : strip line ≠ "") : selectLine rt s line =
    match verdict rt s.selected.isEmpty s.traceback line with
    | none => s
    | some goesOn => ⟨s.selected ++ [line], goesOn⟩ := by
  rw [selectLine, verdict]
  dsimp only
  rw [if_neg h]
  by_cases hactivity : isFileActivity rt line = true
  · rw [if_pos hactivity, if_pos hactivity]
  rw [if_neg hactivity, if_neg hactivity, show (contains "terminating with success status" (rt.lower (strip line)) ||
    rt.lower (strip line) == "success" || rt.lower (strip line) == "rc 0") = isSuccess (rt.lower (strip line)) from rfl]
  by_cases hsuccess : isSuccess (rt.lower (strip line)) = true
  · rw [if_pos hsuccess, if_pos hsuccess]
  rw [if_neg hsuccess, if_neg hsuccess]
  by_cases hheader : startsWith (rt.lower (strip line)) "traceback (most recent call last):" = true
  · rw [if_pos hheader, if_pos hheader]
  rw [if_neg hheader, if_neg hheader]
  by_cases htraceback : s.traceback = true
  · rw [if_pos htraceback, if_pos htraceback]
  rw [if_neg htraceback, if_neg htraceback]
  split
  · rw [Bool.not_eq_true] at htraceback
    rw [htraceback]
  · rfl

/-- Selected once more, a line leaves the traceback as it is. -/
theorem verdict_again {first traceback goesOn later : Bool} {line : String}
    (h : verdict rt first traceback line = some goesOn) (hagain : verdict rt false goesOn line = some later) :
    later = goesOn := by
  rw [verdict] at h hagain
  split at h
  · cases h
  next hactivity =>
  rw [if_neg hactivity] at hagain
  split at h
  · cases h
  next hsuccess =>
  rw [if_neg hsuccess] at hagain
  split at h
  · next hheader =>
      rw [if_pos hheader] at hagain
      exact Option.some.inj (hagain.symm.trans h)
  next hheader =>
  rw [if_neg hheader] at hagain
  cases goesOn with
  | false =>
      rw [if_neg Bool.false_ne_true] at hagain
      split at hagain
      · exact (Option.some.inj hagain).symm
      · cases hagain
  | true =>
      rw [if_pos rfl] at hagain
      split at h
      · exact Option.some.inj (hagain.symm.trans h)
      · split at h <;> cases h

def select (rt : Runtime) (lines : List String) : Selection := lines.foldl (selectLine rt) ⟨[], false⟩

theorem select_concat (lines : List String) (line : String) :
    select rt (lines ++ [line]) = selectLine rt (select rt lines) line := by
  rw [select, List.foldl_append]
  rfl

/-- A selection, that selects itself when its repeated lines are dropped. -/
structure Settled (rt : Runtime) (s : Selection) : Prop where
  head : s.selected.head? ≠ some ""
  again : ∀ line later, s.selected.getLast? = some line → line ≠ "" → verdict rt false s.traceback line = some later →
    later = s.traceback
  selects : select rt (s.selected.destutter (· ≠ ·)) = ⟨s.selected.destutter (· ≠ ·), s.traceback⟩

/-- A line that is not blank has something left without its white space. -/
theorem strip_ne {line : String} (hstripped : rstrip line = line) (hne : line ≠ "") : strip line ≠ "" := by
  intro hempty
  apply hne
  have hnil : stripWhile isSpace line.toList = [] := by
    rw [← String.toList_ofList (l := stripWhile isSpace line.toList)]
    exact String.toList_eq_nil_iff.mpr hempty
  rw [stripWhile, rstripWhile, List.reverse_eq_nil_iff, List.dropWhile_eq_nil_iff] at hnil
  have hspaces : line.toList.dropWhile isSpace = [] := by
    cases hdrop : line.toList.dropWhile isSpace with
    | nil => rfl
    | cons c cs =>
        have hc : isSpace c = true := hnil c (by rw [hdrop]; simp)
        have hnot := @List.head_dropWhile_not _ isSpace line.toList (by rw [hdrop]; exact List.cons_ne_nil _ _)
        simp [hdrop, hc] at hnot
  rw [List.dropWhile_eq_nil_iff] at hspaces
  rw [← hstripped, rstrip, rstripWhile, List.dropWhile_eq_nil_iff.mpr (fun c hc => hspaces c (List.mem_reverse.mp hc))]
  rfl

theorem destutter_isEmpty (l : List String) : (l.destutter (· ≠ ·)).isEmpty = l.isEmpty := by
  rw [Bool.eq_iff_iff, List.isEmpty_iff, List.isEmpty_iff, List.destutter_eq_nil]

theorem head_concat {l : List String} (h : l.head? ≠ some "") {line : String} (hline : l = [] → line ≠ "") :
    (l ++ [line]).head? ≠ some "" := by
  cases l with
  | nil => simpa using hline rfl
  | cons a l => exact h

theorem Settled.step {s : Selection} (h : Settled rt s) {line : String} (hstripped : rstrip line = line) :
    Settled rt (selectLine rt s line) := by
  by_cases hblank : line = ""
  · subst hblank
    rw [selectLine_blank strip_empty]
    by_cases hlast : s.selected.getLast?.any (· != "") = true
    · rw [addBlank, if_pos hlast]
      cases hsome : s.selected.getLast? with
      | none => rw [hsome] at hlast; cases hlast
      | some last =>
          have hne : last ≠ "" := by simpa [hsome] using hlast
          have hnot : s.selected.getLast? ≠ some "" := by
            rw [hsome]
            exact fun heq => hne (Option.some.inj heq)
          have hempty : s.selected ≠ [] := by
            rintro hnil
            rw [hnil] at hsome
            cases hsome
          refine ⟨head_concat h.head (fun hnil => absurd hnil hempty), ?_, ?_⟩
          · intro line later hline hblank
            rw [List.getLast?_concat] at hline
            exact absurd (Option.some.inj hline).symm hblank
          · dsimp only
            rw [destutter_concat, if_neg hnot, select_concat, h.selects, selectLine_blank strip_empty, addBlank,
              getLast?_destutter,
              if_pos hlast]
    · rw [addBlank, if_neg hlast]
      exact h
  · have hsolid := strip_ne hstripped hblank
    rw [selectLine_solid hsolid]
    split
    · exact h
    · next goesOn hverdict =>
        refine ⟨head_concat h.head (fun _ => hblank), ?_, ?_⟩
        · intro last later hlast _ hagain
          rw [List.getLast?_concat, Option.some.injEq] at hlast
          rw [← hlast] at hagain
          exact verdict_again hverdict hagain
        · dsimp only
          rw [destutter_concat]
          by_cases hrepeated : s.selected.getLast? = some line
          · have hnonempty : s.selected.isEmpty = false := by
              rw [← Bool.not_eq_true, List.isEmpty_iff]
              rintro hnil
              rw [hnil] at hrepeated
              cases hrepeated
            rw [hnonempty] at hverdict
            rw [if_pos hrepeated, h.selects, h.again line goesOn hrepeated hblank hverdict]
          · rw [if_neg hrepeated, select_concat, h.selects, selectLine_solid hsolid, destutter_isEmpty, hverdict]

theorem settled_select {lines : List String} (h : ∀ line ∈ lines, rstrip line = line) :
    Settled rt (select rt lines) := by
  induction lines using List.reverseRecOn with
  | nil => exact ⟨by rintro ⟨⟩, by rintro line later ⟨⟩, rfl⟩
  | append_singleton lines line ih =>
      rw [select_concat]
      exact (ih (fun l hl => h l (List.mem_append_left _ hl))).step (h line (by simp))

/-- Cleaning drops repeated lines only. -/
theorem clean_eq {l : List String} (h : l.head? ≠ some "") : l.foldl cleanLine [] = l.destutter (· ≠ ·) := by
  induction l using List.reverseRecOn with
  | nil => rfl
  | append_singleton l line ih =>
      have hhead : l.head? ≠ some "" := by
        cases l with
        | nil => rintro ⟨⟩
        | cons a l => exact h
      rw [List.foldl_append, List.foldl_cons, List.foldl_nil, ih hhead, destutter_concat, cleanLine, addBlank,
        getLast?_destutter]
      by_cases hblank : line = ""
      · subst hblank
        rw [if_pos rfl]
        cases hlast : l.getLast? with
        | none =>
            rw [List.getLast?_eq_none_iff] at hlast
            subst hlast
            exact absurd rfl h
        | some last => by_cases hempty : last = "" <;> simp [hempty]
      · rw [if_neg hblank]

/-- Lines that are kept: they are not repeated and not blank at the ends. -/
structure Kept (lines : List String) : Prop where
  chain : lines.IsChain (· ≠ ·)
  head : lines.head? ≠ some ""
  last : lines.getLast? ≠ some ""

theorem dropWhile_blank {l : List String} (h : l.head? ≠ some "") : l.dropWhile (· == "") = l := by
  cases l with
  | nil => rfl
  | cons a l => exact List.dropWhile_cons_of_neg (by simpa using h)

theorem Kept.trimBlank {lines : List String} (h : Kept lines) : LogFilter.trimBlank lines = lines := by
  rw [LogFilter.trimBlank, dropWhile_blank h.head, dropWhile_blank (by rw [List.head?_reverse]; exact h.last),
    List.reverse_reverse]

/-- Only one blank line can be trimmed off the end. -/
theorem kept_trimBlank {lines : List String} (hchain : lines.IsChain (· ≠ ·)) (hhead : lines.head? ≠ some "") :
    Kept (trimBlank lines) ∧ (lines = trimBlank lines ∨ lines = trimBlank lines ++ [""]) := by
  by_cases hlast : lines.getLast? = some ""
  · obtain ⟨front, rfl⟩ := List.getLast?_eq_some_iff.mp hlast
    have hfront : front.head? ≠ some "" := by
      cases front with
      | nil => rintro ⟨⟩
      | cons a front => exact hhead
    have hne : front.getLast? ≠ some "" := by
      intro hfront
      rw [List.isChain_append] at hchain
      exact hchain.2.2 "" hfront "" rfl rfl
    have hkept : Kept front := ⟨(List.isChain_append.mp hchain).1, hfront, hne⟩
    have htrim : trimBlank (front ++ [""]) = front := by
      rw [trimBlank, dropWhile_blank hhead, List.reverse_append, List.reverse_singleton, List.singleton_append,
        List.dropWhile_cons_of_pos (by rfl), dropWhile_blank (by rw [List.head?_reverse]; exact hne),
          List.reverse_reverse]
    rw [htrim]
    exact ⟨hkept, Or.inr rfl⟩
  · have hkept : Kept lines := ⟨hchain, hhead, hlast⟩
    rw [hkept.trimBlank]
    exact ⟨hkept, Or.inl rfl⟩

theorem addBlank_eq (l : List String) : addBlank l = l ∨ addBlank l = l ++ [""] := by
  rw [addBlank]
  split
  · exact Or.inr rfl
  · exact Or.inl rfl

/-- What a line adds to the selection. -/
theorem selectLine_adds (s : Selection) (line : String) :
    (selectLine rt s line).selected = s.selected ∨ (selectLine rt s line).selected = s.selected ++ [""] ∧
    strip line = "" ∨
      (selectLine rt s line).selected = s.selected ++ [line] ∧ strip line ≠ "" := by
  by_cases hblank : strip line = ""
  · rw [selectLine_blank hblank]
    exact (addBlank_eq s.selected).imp_right (fun h => Or.inl ⟨h, hblank⟩)
  · rw [selectLine_solid hblank]
    cases verdict rt s.selected.isEmpty s.traceback line with
    | none => exact Or.inl rfl
    | some goesOn => exact Or.inr (Or.inr ⟨rfl, hblank⟩)

theorem length_select (lines : List String) : (select rt lines).selected.length ≤ lines.length := by
  induction lines using List.reverseRecOn with
  | nil => exact Nat.le_refl _
  | append_singleton lines line ih =>
      rw [select_concat, List.length_append, List.length_singleton]
      rcases selectLine_adds (select rt lines) line with h | ⟨h, -⟩ | ⟨h, -⟩
      · rw [h]
        exact Nat.le_succ_of_le ih
      · rw [h, List.length_append, List.length_singleton]
        exact Nat.succ_le_succ ih
      · rw [h, List.length_append, List.length_singleton]
        exact Nat.succ_le_succ ih

theorem Settled.trimmed {s : Selection} (h : Settled rt s) : Kept (trimBlank (s.selected.destutter (· ≠ ·))) ∧
    (s.selected.destutter (· ≠ ·) = trimBlank (s.selected.destutter (· ≠ ·)) ∨
      s.selected.destutter (· ≠ ·) = trimBlank (s.selected.destutter (· ≠ ·)) ++ [""]) :=
  kept_trimBlank (List.isChain_destutter _ _) (by rw [head?_destutter]; exact h.head)

/-- Kept lines select themselves. -/
theorem Settled.kept {s : Selection} (h : Settled rt s) :
    (select rt (trimBlank (s.selected.destutter (· ≠ ·)))).selected = trimBlank (s.selected.destutter (· ≠ ·)) := by
  have hselects := h.selects
  rcases h.trimmed.2 with heq | heq
  · rw [← heq, hselects]
  · rw [heq, select_concat, selectLine_blank strip_empty, Selection.mk.injEq] at hselects
    have hlength := @length_select rt (trimBlank (s.selected.destutter (· ≠ ·)))
    rcases addBlank_eq (select rt (trimBlank (s.selected.destutter (· ≠ ·)))).selected with hsame | hadded
    · rw [← hsame, hselects.1, List.length_append, List.length_singleton] at hlength
      exact absurd hlength (Nat.not_succ_le_self _)
    · rw [hadded] at hselects
      exact List.append_cancel_right hselects.1

/-- The lines of the result. -/
def keptLines (rt : Runtime) (lines : List String) : List String :=
  trimBlank ((select rt lines).selected.destutter (· ≠ ·))

theorem keptLines_kept {lines : List String} (h : ∀ line ∈ lines, rstrip line = line) : Kept (keptLines rt lines) :=
  (settled_select h).trimmed.1

theorem keptLines_again {lines : List String} (h : ∀ line ∈ lines, rstrip line = line) :
    keptLines rt (keptLines rt lines) = keptLines rt lines := by
  have hkept : Kept (keptLines rt lines) := keptLines_kept h
  have hselected : (select rt (keptLines rt lines)).selected = keptLines rt lines := (settled_select h).kept
  rw [keptLines, hselected, List.destutter_of_isChain _ _ hkept.chain, hkept.trimBlank]

theorem selected_sublist (lines : List String) : ((select rt lines).selected.filter (· ≠ "")).Sublist lines := by
  induction lines using List.reverseRecOn with
  | nil => exact List.Sublist.slnil
  | append_singleton lines line ih =>
      have hmore := ih.trans (List.sublist_append_left lines [line])
      rw [select_concat]
      rcases selectLine_adds (select rt lines) line with h | ⟨h, -⟩ | ⟨h, -⟩
      · rw [h]
        exact hmore
      · rw [h, List.filter_append]
        simpa using hmore
      · rw [h, List.filter_append]
        exact ih.append List.filter_sublist

theorem keptLines_sublist (lines : List String) : (keptLines rt lines).Sublist (select rt lines).selected := by
  have htrim : (keptLines rt lines).Sublist ((select rt lines).selected.destutter (· ≠ ·)) := by
    rw [keptLines, trimBlank]
    exact (List.reverse_sublist.mpr ((List.dropWhile_sublist _).trans
      (List.reverse_sublist.mpr (List.dropWhile_sublist _)))).trans (by rw [List.reverse_reverse])
  exact htrim.trans (List.destutter_sublist _ _)

theorem mem_keptLines {lines : List String} {line : String} (h : line ∈ keptLines rt lines) :
    line = "" ∨ line ∈ lines := by
  by_cases hblank : line = ""
  · exact Or.inl hblank
  · exact Or.inr ((selected_sublist lines).subset
      (List.mem_filter.mpr ⟨(keptLines_sublist lines).subset h, by simpa using hblank⟩))

theorem not_diagnostic_empty (hlower : rt.lower "" = "") : isDiagnostic rt "" = false := by
  have hstatus : statusLetter rt "" = none := rfl
  have hmarkers : errorMarkers.any (fun marker => contains marker "") = false := by decide
  rw [isDiagnostic, strip_empty, hlower, hstatus, hmarkers]
  exact Bool.and_false _

theorem diagnostic_selected (hlower : rt.lower "" = "") {line : String} (hstripped : rstrip line = line)
    (h : isDiagnostic rt line = true) (s : Selection) : (selectLine rt s line).selected = s.selected ++ [line] := by
  have hblank : line ≠ "" := by
    rintro rfl
    rw [not_diagnostic_empty hlower] at h
    cases h
  simp only [isDiagnostic, Bool.and_eq_true, Bool.not_eq_true'] at h
  obtain ⟨⟨hactivity, hsuccess⟩, hmarked⟩ := h
  rw [selectLine_solid (strip_ne hstripped hblank), verdict, hactivity, hsuccess, hmarked, Bool.true_or]
  cases startsWith (rt.lower (strip line)) "traceback (most recent call last):" with
  | true => rfl
  | false => cases s.traceback <;> rfl

theorem diagnostics_selected (hlower : rt.lower "" = "") {lines : List String}
    (h : ∀ line ∈ lines, rstrip line = line) :
    (lines.filter (isDiagnostic rt)).Sublist (select rt lines).selected := by
  induction lines using List.reverseRecOn with
  | nil => exact List.Sublist.slnil
  | append_singleton lines line ih =>
      have hlines := ih (fun l hl => h l (List.mem_append_left _ hl))
      rw [select_concat, List.filter_append]
      cases hdiagnostic : isDiagnostic rt line with
      | true =>
          rw [diagnostic_selected hlower (h line (by simp)) hdiagnostic]
          exact hlines.append List.filter_sublist
      | false =>
          rw [List.filter_singleton, hdiagnostic]
          rcases selectLine_adds (select rt lines) line with h | ⟨h, -⟩ | ⟨h, -⟩
          · rw [h]
            simpa using hlines
          · rw [h]
            simpa using hlines.trans (List.sublist_append_left _ _)
          · rw [h]
            simpa using hlines.trans (List.sublist_append_left _ _)

end Selection

section Results

variable {rt : Runtime} (hnewline : ∀ c, rt.sameLetter c '\n' = true → c = '\n')
include hnewline

theorem extract_eq {text : String} (h : ¬ MentionsDenied rt text) :
    extractErrorOutput rt text = String.intercalate "\n" (keptLines rt (strippedLines text)) := by
  have hsettled : Settled rt (select rt (strippedLines text)) :=
    settled_select (fun line hline => (mem_strippedLines hline).2.1)
  rw [extractErrorOutput, no_match hnewline h]
  dsimp only [List.getLast?_nil]
  rw [show (strippedLines text).foldl (selectLine rt) ⟨[], false⟩ = select rt (strippedLines text) from rfl,
    clean_eq hsettled.head]
  rfl

/-- The lines of the result are the kept ones. -/
theorem strippedLines_extract {text : String} (h : ¬ MentionsDenied rt text) :
    strippedLines (extractErrorOutput rt text) = keptLines rt (strippedLines text) := by
  rw [extract_eq hnewline h]
  apply strippedLines_joined
  · intro line hline c hc
    rcases mem_keptLines hline with rfl | hline
    · cases hc
    · exact (mem_strippedLines hline).1 c hc
  · intro line hline
    rcases mem_keptLines hline with rfl | hline
    · rfl
    · exact (mem_strippedLines hline).2.1
  · exact (keptLines_kept (fun line hline => (mem_strippedLines hline).2.1)).last

/-- The result does not name a refused permission either. -/
theorem extract_unmentioned {text : String} (h : ¬ MentionsDenied rt text) :
    ¬ MentionsDenied rt (extractErrorOutput rt text) := by
  rintro ⟨word, hinfix, hsame⟩
  have hsolid : '\n' ∉ word := by
    intro hmem
    obtain ⟨c, hc, hsamec⟩ := exists_of_forall₂ hsame hmem
    rw [hnewline c hsamec] at hc
    exact absurd hc (by decide)
  have hne : word ≠ [] := by
    rintro rfl
    cases hsame
  rw [extract_eq hnewline h, String.toList_intercalate] at hinfix
  obtain ⟨l, hl, hword⟩ := infix_of_joined hsolid hne hinfix
  obtain ⟨line, hline, rfl⟩ := List.mem_map.mp hl
  rcases mem_keptLines hline with rfl | hline
  · exact hne (List.infix_nil.mp hword)
  · exact h ⟨word, infix_of_normalized hsolid (hword.trans (mem_strippedLines hline).2.2), hsame⟩

theorem extract_again {text : String} (h : ¬ MentionsDenied rt text) :
    extractErrorOutput rt (extractErrorOutput rt text) = extractErrorOutput rt text := by
  rw [extract_eq hnewline (extract_unmentioned hnewline h), strippedLines_extract hnewline h,
    keptLines_again (fun line hline => (mem_strippedLines hline).2.1), ← extract_eq hnewline h]

end Results

section Stored

variable {rt : Runtime}

/-- Kept lines without item lines stay when item lines are stripped. -/
theorem keep_kept {lines : List String} (hchain : lines.IsChain (· ≠ ·)) (hhead : lines.head? ≠ some "")
    (hstatus : ∀ line ∈ lines, statusLetter rt line = none) : lines.foldl (keepLine rt) [] = lines := by
  induction lines using List.reverseRecOn with
  | nil => rfl
  | append_singleton lines line ih =>
      have hfront : lines.head? ≠ some "" := by
        cases lines with
        | nil => rintro ⟨⟩
        | cons a lines => exact hhead
      obtain ⟨hlines, -, hnext⟩ := List.isChain_append.mp hchain
      rw [List.foldl_append, List.foldl_cons, List.foldl_nil,
        ih hlines hfront (fun l hl => hstatus l (List.mem_append_left _ hl)),
        keepLine, hstatus line (by simp)]
      by_cases hblank : line = ""
      · subst hblank
        cases hlast : lines.getLast? with
        | none =>
            rw [List.getLast?_eq_none_iff.mp hlast] at hhead
            exact absurd rfl hhead
        | some last =>
            have hne : last ≠ "" := hnext last hlast "" rfl
            simp [addBlank, hlast, hne]
      · simp [hblank]

theorem takeEnd_short {n : Nat} {text : String} (h : text.length ≤ n) : takeEnd n text = text := by
  rw [takeEnd, Nat.sub_eq_zero_of_le h, List.drop_zero, String.ofList_toList]

/-- A run without technical output stores the extracted error without its item lines. -/
theorem filteredError_plain {w : RunWorld} {c : Conclusion} (h : technicalError w c = none) :
    filteredError w c = storedError w.runtime c.error := by
  unfold filteredError
  generalize technicalError w c = errorId at h
  subst h
  dsimp only
  unfold storedError
  rfl

theorem storedError_eq (hnewline : ∀ c, rt.sameLetter c '\n' = true → c = '\n') {text : String}
    (h : ¬ MentionsDenied rt text)
    (hstatus : ∀ line ∈ strippedLines (extractErrorOutput rt text), statusLetter rt line = none)
    (hlength : (extractErrorOutput rt text).length ≤ 32768) : storedError rt text = extractErrorOutput rt text := by
  have hkept : Kept (keptLines rt (strippedLines text)) :=
    keptLines_kept (fun line hline => (mem_strippedLines hline).2.1)
  rw [strippedLines_extract hnewline h] at hstatus
  rw [storedError, stripBorgItemLines, strippedLines_extract hnewline h,
    keep_kept hkept.chain hkept.head hstatus, hkept.trimBlank,
    ← extract_eq hnewline h, takeEnd_short hlength]

end Stored

/-- A diagnostic that frames a file error, as in `a failed`, `C /x`, `a failed`:
without the item line the two equal lines are neighbours. -/
def framedItem : String := "a failed\nC /x\na failed"

theorem framedItem_plain : ¬ MentionsDenied asciiRuntime framedItem := by
  rintro ⟨word, hinfix, hsame⟩
  have hlength := hinfix.length_le
  rw [← hsame.length_eq] at hlength
  exact absurd hlength (by decide)

/-- Of a text without a refused permission the extracted errors are their own
errors, they are lines of the text, each diagnostic line is among them but for
repetitions, and they are shown as they are stored if no item line is among
them and they are short enough. -/
theorem error_extraction (rt : Runtime) (hnewline : ∀ c, rt.sameLetter c '\n' = true → c = '\n')
    (hlower : rt.lower "" = "") (text : String) (h : ¬ MentionsDenied rt text) :
    extractErrorOutput rt (extractErrorOutput rt text) = extractErrorOutput rt text ∧
    ((strippedLines (extractErrorOutput rt text)).filter (· ≠ "")).Sublist (strippedLines text) ∧
    (∃ selected, ((strippedLines text).filter (isDiagnostic rt)).Sublist selected ∧
      strippedLines (extractErrorOutput rt text) = trimBlank (selected.destutter (· ≠ ·))) ∧
    ((∀ line ∈ strippedLines (extractErrorOutput rt text), statusLetter rt line = none) →
      (extractErrorOutput rt text).length ≤ 32768 →
      storedError rt text = extractErrorOutput rt text ∧ extractErrorOutput rt
        (storedError rt text) = storedError rt text) := by
  have hlines : ∀ line ∈ strippedLines text, rstrip line = line := fun line hline => (mem_strippedLines hline).2.1
  rw [strippedLines_extract hnewline h]
  refine ⟨extract_again hnewline h, ?_, ⟨_, diagnostics_selected hlower hlines, rfl⟩, ?_⟩
  · exact ((keptLines_sublist _).filter _).trans (selected_sublist _)
  · intro hstatus hlength
    have hstored := storedError_eq hnewline h (by rw [strippedLines_extract hnewline h]; exact hstatus) hlength
    rw [hstored]
    exact ⟨rfl, extract_again hnewline h⟩

theorem error_extraction_framedItem :
    ¬ MentionsDenied asciiRuntime framedItem ∧
    extractErrorOutput asciiRuntime (extractErrorOutput asciiRuntime framedItem) =
      extractErrorOutput asciiRuntime framedItem := by
  refine ⟨framedItem_plain, (error_extraction asciiRuntime ?_ (by decide +kernel) framedItem framedItem_plain).1⟩
  intro c hc
  have hlower : c.toLower = '\n' := by simpa [asciiRuntime] using hc
  delta Char.toLower at hlower
  split at hlower
  next hupper =>
    rw [Char.ext_iff] at hlower
    have hcode : c.val + 32 = 10 := hlower
    have hlow : 65 ≤ c.val ∧ c.val ≤ 90 := hupper
    rw [← UInt32.toNat_inj, UInt32.toNat_add] at hcode
    rw [UInt32.le_iff_toNat_le, UInt32.le_iff_toNat_le] at hlow
    simp only [UInt32.reduceToNat] at hcode hlow
    omega
  next => exact hlower

theorem framedItem_shortened :
    ¬ MentionsDenied asciiRuntime framedItem ∧ storedError asciiRuntime framedItem = "a failed\na failed" ∧
    extractErrorOutput asciiRuntime (storedError asciiRuntime framedItem) = "a failed" :=
  ⟨framedItem_plain, by decide +kernel, by decide +kernel⟩

end BorgManager.ErrorExtraction
