import BorgManager.Exceptions
import BorgManager.PythonText
import BorgManager.Patterns

namespace BorgManager.ArtifactPaths

open Exceptions PythonText Patterns

/-- `Path.parts`: the empty parts and the dots are gone. -/
def pathParts (value : List Char) : List (List Char) :=
  (value.splitOn '/').filter (fun part => part != [] && part != ['.'])

def unsafePath (value : List Char) : String := "Unsicherer Backup-Pfad: " ++ String.ofList value

/-- `_safe_relative_path`, with the parts of the path as its result. -/
def safeRelativePath (value : List Char) : Except String (List (List Char)) :=
  if value = [] ∨ '\x00' ∈ value ∨ '\\' ∈ value ∨ value.head? = some '/' then .error (unsafePath value)
  else if ['.', '.'] ∈ pathParts value then .error (unsafePath value)
  else .ok (pathParts value)

/-- `Path.as_posix`. -/
def asPosix (parts : List (List Char)) : List Char := if parts = [] then ['.'] else ['/'].intercalate parts

/-- A part that stands for itself in a path. -/
structure PlainPart (part : List Char) : Prop where
  nonempty : part ≠ []
  notDot : part ≠ ['.']
  notUp : part ≠ ['.', '.']
  noSlash : '/' ∉ part
  noNul : '\x00' ∉ part

instance (part : List Char) : Decidable (PlainPart part) :=
  decidable_of_iff (part ≠ [] ∧ part ≠ ['.'] ∧ part ≠ ['.', '.'] ∧ '/' ∉ part ∧ '\x00' ∉ part)
    ⟨fun h => ⟨h.1, h.2.1, h.2.2.1, h.2.2.2.1, h.2.2.2.2⟩, fun h => ⟨h.nonempty, h.notDot, h.notUp, h.noSlash, h.noNul⟩⟩

/-- Plain parts come back out of the path that joins them. -/
theorem pathParts_intercalate {parts : List (List Char)} (hne : parts ≠ []) (h : ∀ part ∈ parts, PlainPart part) :
    pathParts (['/'].intercalate parts) = parts := by
  rw [pathParts, List.splitOn_intercalate '/' (fun part hpart => (h part hpart).noSlash) hne, List.filter_eq_self]
  intro part hpart
  simp [(h part hpart).nonempty, (h part hpart).notDot]

theorem mem_intercalate {c : Char} (hc : c ≠ '/') (parts : List (List Char)) :
    c ∈ ['/'].intercalate parts ↔ ∃ part ∈ parts, c ∈ part := by
  induction parts with
  | nil => simp
  | cons part parts ih =>
      cases parts with
      | nil => simp
      | cons next parts => rw [List.intercalate_cons_cons, List.mem_append, ih]; simp [hc]

theorem head_intercalate {part : List Char} (hne : part ≠ []) (parts : List (List Char)) :
    (['/'].intercalate (part :: parts)).head? = part.head? := by
  obtain ⟨c, cs, rfl⟩ := List.exists_cons_of_ne_nil hne
  cases parts <;> simp [List.intercalate_cons_cons]

/-- A path of plain parts is safe exactly when it holds no backslash. -/
theorem safeRelativePath_intercalate {parts : List (List Char)} (hne : parts ≠ [])
    (h : ∀ part ∈ parts, PlainPart part) :
    safeRelativePath (['/'].intercalate parts) =
      if '\\' ∈ ['/'].intercalate parts then .error (unsafePath (['/'].intercalate parts)) else .ok parts := by
  obtain ⟨first, rest, rfl⟩ := List.exists_cons_of_ne_nil hne
  have hfirst := h first (List.mem_cons_self ..)
  have hhead : (['/'].intercalate (first :: rest)).head? ≠ some '/' := by
    rw [head_intercalate hfirst.nonempty]
    exact fun hc => hfirst.noSlash (List.mem_of_mem_head? hc)
  have hnil : ['/'].intercalate (first :: rest) ≠ [] := by
    intro heq
    have hpart := head_intercalate hfirst.nonempty rest
    rw [heq] at hpart
    exact hfirst.nonempty (List.head?_eq_none_iff.mp hpart.symm)
  have hnul : '\x00' ∉ ['/'].intercalate (first :: rest) := by
    rw [mem_intercalate (by decide)]
    rintro ⟨part, hpart, hc⟩
    exact (h part hpart).noNul hc
  rw [safeRelativePath, pathParts_intercalate hne h]
  by_cases hb : '\\' ∈ ['/'].intercalate (first :: rest)
  · rw [if_pos (.inr (.inr (.inl hb))), if_pos hb]
  · rw [if_neg, if_neg, if_neg hb]
    · exact fun hup => (h _ hup).notUp rfl
    · rintro (hc | hc | hc | hc)
      exacts [hnil hc, hnul hc, hb hc, hhead hc]

theorem not_mem_of_mem_splitOn {c : Char} {value part : List Char} (h : part ∈ value.splitOn c) : c ∉ part := by
  induction value generalizing part with
  | nil =>
      rw [List.splitOn_nil, List.mem_singleton] at h
      rw [h]
      exact List.not_mem_nil
  | cons d value ih =>
      rw [List.splitOn_cons_eq_if_modifyHead] at h
      split at h
      · rcases List.mem_cons.mp h with rfl | h
        · exact List.not_mem_nil
        · exact ih h
      · next hd =>
          obtain ⟨first, rest, hsplit⟩ := List.exists_cons_of_ne_nil (List.splitOn_ne_nil c value)
          rw [hsplit, List.modifyHead_cons, List.mem_cons] at h
          rcases h with rfl | h
          · have hfirst := ih (hsplit ▸ List.mem_cons_self ..)
            exact fun hc => (List.mem_cons.mp hc).elim (fun heq => hd (beq_iff_eq.mpr heq.symm)) hfirst
          · exact ih (hsplit ▸ List.mem_cons_of_mem _ h)

theorem mem_of_mem_splitOn {d : Char} {value part : List Char} (hd : d ≠ '/') (h : part ∈ value.splitOn '/')
    (hmem : d ∈ part) :
    d ∈ value := by
  have hjoin : ['/'].intercalate (value.splitOn '/') = value := List.intercalate_splitOn '/'
  rw [← hjoin, mem_intercalate hd]
  exact ⟨part, h, hmem⟩

/-- A path that is safe is relative, and its parts stand for themselves. -/
theorem safeRelativePath_ok {value : List Char} {parts : List (List Char)} (h : safeRelativePath value = .ok parts) :
    parts = pathParts value ∧ (value ≠ [] ∧ value.head? ≠ some '/') ∧ '\\' ∉ value ∧ ∀ part ∈ parts,
      PlainPart part := by
  rw [safeRelativePath] at h
  split at h
  · nomatch h
  next hrejected =>
  split at h
  · nomatch h
  next hup =>
  cases h
  simp only [not_or] at hrejected
  refine ⟨rfl, ⟨hrejected.1, hrejected.2.2.2⟩, hrejected.2.2.1, fun part hpart => ?_⟩
  obtain ⟨hsplit, hplain⟩ := List.mem_filter.mp hpart
  rw [Bool.and_eq_true, bne_iff_ne, bne_iff_ne] at hplain
  refine ⟨hplain.1, hplain.2, fun heq => hup (heq ▸ hpart), not_mem_of_mem_splitOn hsplit, fun hnul => ?_⟩
  exact hrejected.2.1 (mem_of_mem_splitOn (by decide) hsplit hnul)

end BorgManager.ArtifactPaths
