import BorgManager.LinePatterns
import BorgManager.LogFilter

namespace BorgManager.LogFilter

open PythonText Patterns LinePatterns RemoteOutput

theorem splitLines_line {line : List Char} (h : ∀ c ∈ line, isLineBreak c = false) (rest : List Char) :
    splitLines (line ++ '\n' :: rest) = line :: splitLines rest := by
  induction line with
  | nil => rfl
  | cons c line ih =>
      rw [List.cons_append, splitLines, h c (List.mem_cons_self ..), ih (fun d hd => h d (List.mem_cons_of_mem _ hd))]
      rfl

theorem splitLines_last {line : List Char} (h : ∀ c ∈ line, isLineBreak c = false) (hne : line ≠ []) :
    splitLines line = [line] := by
  induction line with
  | nil => exact absurd rfl hne
  | cons c line ih =>
      rw [splitLines, h c (List.mem_cons_self ..)]
      cases line with
      | nil => rfl
      | cons d line => rw [ih (fun e he => h e (List.mem_cons_of_mem _ he)) (List.cons_ne_nil _ _)]; rfl

theorem mem_splitLines {text line : List Char} (h : line ∈ splitLines text) :
    (∀ c ∈ line, isLineBreak c = false) ∧ line <:+: text := by
  have hhead {text line : List Char} {lines : List (List Char)} (h : splitLines text = line :: lines) :
      line <+: text := by
    induction text generalizing line lines with
    | nil => cases h
    | cons c text ih =>
        rw [splitLines] at h
        split at h
        · cases h
          exact List.nil_prefix
        · split at h
          · cases h
            exact List.prefix_append [c] text
          · next l ls hsplit =>
              cases h
              exact List.cons_prefix_cons.mpr ⟨rfl, ih hsplit⟩
  induction text generalizing line with
  | nil => cases h
  | cons c text ih =>
      have htail {l : List Char} (hl : l ∈ splitLines text) : (∀ d ∈ l, isLineBreak d = false) ∧ l <:+: c :: text :=
        ⟨(ih hl).1, (ih hl).2.trans (List.suffix_cons c text).isInfix⟩
      rw [splitLines] at h
      split at h
      · rcases List.mem_cons.mp h with rfl | h
        · exact ⟨by rintro d ⟨⟩, List.nil_infix⟩
        · exact htail h
      · next hbreak =>
          have hc : isLineBreak c = false := Bool.eq_false_iff.mpr hbreak
          split at h
          · rw [List.mem_singleton.mp h]
            exact ⟨by simpa using hc, (List.prefix_append [c] text).isInfix⟩
          · next l ls hsplit =>
              rcases List.mem_cons.mp h with rfl | h
              · refine ⟨fun d hd => ?_, (List.cons_prefix_cons.mpr ⟨rfl, hhead hsplit⟩).isInfix⟩
                rcases List.mem_cons.mp hd with rfl | hd
                · exact hc
                · exact (ih (hsplit ▸ List.mem_cons_self ..)).1 d hd
              · exact htail (hsplit ▸ List.mem_cons_of_mem _ h)

theorem normalizeNewlines_solid {text : List Char} (h : '\r' ∉ text) : normalizeNewlines text = text := by
  fun_induction normalizeNewlines text with
  | case1 => rfl
  | case2 cs ih => exact absurd (List.mem_cons_self ..) h
  | case3 c cs hnot ih =>
      rw [ih (fun hcs => h (List.mem_cons_of_mem _ hcs)), if_neg]
      rintro rfl
      exact h (List.mem_cons_self ..)

/-- A word without newlines stands in the text as it stood before its newlines
were made equal. -/
theorem infix_of_normalized {word text : List Char} (hword : '\n' ∉ word)
    (h : word <:+: normalizeNewlines text) : word <:+: text := by
  have hstart {word text : List Char} (hword : '\n' ∉ word) (h : word <+: normalizeNewlines text) : word <+: text := by
    fun_induction normalizeNewlines text generalizing word with
    | case1 => exact h
    | case2 cs ih =>
        cases word with
        | nil => exact List.nil_prefix
        | cons c word =>
            rw [List.cons_prefix_cons] at h
            exact absurd (h.1 ▸ List.mem_cons_self ..) hword
    | case3 c cs hnot ih =>
        cases word with
        | nil => exact List.nil_prefix
        | cons d word =>
            rw [List.cons_prefix_cons] at h
            have hd : d ≠ '\n' := fun heq => hword (heq ▸ List.mem_cons_self ..)
            have hc : ¬ c = '\r' := by
              intro hc
              rw [if_pos hc] at h
              exact hd h.1
            rw [if_neg hc] at h
            exact List.cons_prefix_cons.mpr ⟨h.1, ih (fun hmem => hword (List.mem_cons_of_mem _ hmem)) h.2⟩
  fun_induction normalizeNewlines text with
  | case1 => exact h
  | case2 cs ih =>
      rcases List.infix_cons_iff.mp h with h | h
      · cases word with
        | nil => exact List.nil_infix
        | cons c word =>
            rw [List.cons_prefix_cons] at h
            exact absurd (h.1 ▸ List.mem_cons_self ..) hword
      · exact (ih h).trans (List.suffix_append ['\r', '\n'] cs).isInfix
  | case3 c cs hnot ih =>
      rcases List.infix_cons_iff.mp h with hhead | h
      · have hcons : word <+: normalizeNewlines (c :: cs) := by
          rw [normalizeNewlines]
          · exact hhead
          · exact hnot
        exact (hstart hword hcons).isInfix
      · exact (ih h).trans (List.suffix_cons c cs).isInfix

theorem infix_append {word before rest : List Char} (hword : '\n' ∉ word) (h : word <:+: before ++ '\n' :: rest) :
    word <:+: before ∨ word <:+: rest := by
  obtain ⟨left, right, h⟩ := h
  rcases List.append_eq_append_iff.mp h with ⟨more, hbefore, -⟩ | ⟨more, hleft, hright⟩
  · exact Or.inl ⟨left, more, hbefore.symm⟩
  · cases more with
    | nil => exact Or.inl ⟨left, [], by simpa using hleft⟩
    | cons c more =>
        rw [List.cons_append, List.cons.injEq] at hright
        obtain ⟨rfl, rfl⟩ := hright
        rcases List.append_eq_append_iff.mp hleft with ⟨part, -, hpart⟩ | ⟨part, -, hpart⟩
        · exact absurd (hpart ▸ List.mem_append_right _ (List.mem_cons_self ..)) hword
        · cases part with
          | nil =>
              rw [List.nil_append] at hpart
              exact absurd (hpart ▸ List.mem_cons_self ..) hword
          | cons d part =>
              rw [List.cons_append, List.cons.injEq] at hpart
              exact Or.inr ⟨part, right, by rw [hpart.2]⟩

/-- A word without newlines stands in one of the lines that are joined. -/
theorem infix_of_joined {word : List Char} (hword : '\n' ∉ word) (hne : word ≠ []) {lines : List (List Char)}
    (h : word <:+: List.intercalate ['\n'] lines) : ∃ line ∈ lines, word <:+: line := by
  induction lines with
  | nil => exact absurd (List.infix_nil.mp h) hne
  | cons line lines ih =>
      cases lines with
      | nil => exact ⟨line, List.mem_cons_self .., by simpa using h⟩
      | cons next lines =>
          rw [List.intercalate_cons_cons, List.append_assoc, List.singleton_append] at h
          rcases infix_append hword h with h | h
          · exact ⟨line, List.mem_cons_self .., h⟩
          · obtain ⟨l, hl, hinfix⟩ := ih h
            exact ⟨l, List.mem_cons_of_mem _ hl, hinfix⟩

theorem splitLines_joined {lines : List (List Char)} (hsolid : ∀ line ∈ lines, ∀ c ∈ line, isLineBreak c = false)
    (hlast : lines.getLast? ≠ some []) : splitLines (List.intercalate ['\n'] lines) = lines := by
  induction lines with
  | nil => rfl
  | cons line lines ih =>
      have hline := hsolid line (List.mem_cons_self ..)
      cases lines with
      | nil =>
          rw [List.intercalate_singleton]
          exact splitLines_last hline (fun hnil => hlast (by rw [hnil]; rfl))
      | cons next lines =>
          rw [List.getLast?_cons_cons] at hlast
          rw [List.intercalate_cons_cons, List.append_assoc, List.singleton_append, splitLines_line hline,
            ih (fun l hl => hsolid l (List.mem_cons_of_mem _ hl)) hlast]

theorem rstrip_rstrip (s : String) : rstrip (rstrip s) = rstrip s := by
  rw [rstrip, rstrip, String.toList_ofList, rstripWhile, rstripWhile, List.reverse_reverse, List.dropWhile_idempotent]

/-- Joined lines are split into themselves again. -/
theorem strippedLines_joined {lines : List String} (hsolid : ∀ line ∈ lines, ∀ c ∈ line.toList, isLineBreak c = false)
    (hstripped : ∀ line ∈ lines, rstrip line = line) (hlast : lines.getLast? ≠ some "") :
    strippedLines (String.intercalate "\n" lines) = lines := by
  have hreturn : '\r' ∉ List.intercalate ['\n'] (lines.map String.toList) := by
    intro hmem
    obtain ⟨before, rest, hsplit⟩ := List.append_of_mem hmem
    have hword : ['\r'] <:+: List.intercalate ['\n'] (lines.map String.toList) := ⟨before, rest, by rw [hsplit]; simp⟩
    obtain ⟨line, hline, hinfix⟩ := infix_of_joined (by decide) (List.cons_ne_nil _ _) hword
    obtain ⟨l, hl, rfl⟩ := List.mem_map.mp hline
    exact absurd (hsolid l hl '\r' (List.IsInfix.subset hinfix (List.mem_singleton_self _))) (by decide)
  rw [strippedLines, String.toList_intercalate, show "\n".toList = ['\n'] from rfl, normalizeNewlines_solid hreturn,
    splitLines_joined, List.map_map]
  · refine (List.map_congr_left fun line hline => ?_).trans (List.map_id _)
    rw [Function.comp_apply, String.ofList_toList, hstripped line hline]
    rfl
  · intro line hline
    obtain ⟨l, hl, rfl⟩ := List.mem_map.mp hline
    exact hsolid l hl
  · intro hnil
    rw [List.getLast?_map] at hnil
    obtain ⟨l, hl, hempty⟩ := Option.map_eq_some_iff.mp hnil
    rw [String.toList_eq_nil_iff] at hempty
    exact hlast (hempty ▸ hl)

theorem mem_strippedLines {text line : String} (h : line ∈ strippedLines text) :
    (∀ c ∈ line.toList, isLineBreak c = false) ∧ rstrip line = line ∧
    line.toList <:+: normalizeNewlines text.toList := by
  obtain ⟨raw, hraw, rfl⟩ := List.mem_map.mp h
  obtain ⟨hsolid, hinfix⟩ := mem_splitLines hraw
  have hstart : (rstrip (String.ofList raw)).toList <+: raw := by
    rw [rstrip, String.toList_ofList, String.toList_ofList, rstripWhile, ← List.reverse_suffix, List.reverse_reverse]
    exact List.dropWhile_suffix _
  exact ⟨fun c hc => hsolid c (hstart.subset hc), rstrip_rstrip _, hstart.isInfix.trans hinfix⟩

end BorgManager.LogFilter
