import Mathlib.Data.List.Basic

namespace BorgManager.PythonText

/-- The characters that `str.isspace` accepts, which `str.strip` removes and
`str.split` separates at. -/
def isSpace (c : Char) : Bool :=
  let n := c.toNat
  (9 ≤ n && n ≤ 13) || (28 ≤ n && n ≤ 32) || n == 0x85 || n == 0xA0 || n == 0x1680 ||
    (0x2000 ≤ n && n ≤ 0x200A) || n == 0x2028 || n == 0x2029 || n == 0x202F || n == 0x205F ||
    n == 0x3000

def rstripWhile (p : Char → Bool) (cs : List Char) : List Char :=
  (cs.reverse.dropWhile p).reverse

def stripWhile (p : Char → Bool) (cs : List Char) : List Char :=
  rstripWhile p (cs.dropWhile p)

/-- Nothing that is stripped is left at the front. -/
theorem head_stripWhile {p : Char → Bool} {cs : List Char} {c : Char} (h : (stripWhile p cs).head? = some c) :
    p c = false := by
  have hprefix : stripWhile p cs <+: cs.dropWhile p := by
    rw [stripWhile, rstripWhile, ← List.reverse_suffix, List.reverse_reverse]
    exact List.dropWhile_suffix p
  have hhead := List.head?_dropWhile_not p cs
  obtain ⟨rest, hrest⟩ := hprefix
  rw [← hrest, List.head?_append_of_ne_nil _ (by rintro hnil; rw [hnil] at h; cases h), h] at hhead
  exact hhead

def strip (s : String) : String := String.ofList (stripWhile isSpace s.toList)

def rstripChar (c : Char) (s : String) : String := String.ofList (rstripWhile (· == c) s.toList)

/-- `str.split()`: the parts between runs of white space. -/
def splitWords (cs : List Char) : List (List Char) := (cs.splitOnP isSpace).filter (fun word => word != [])

theorem splitWords_cons {word : List Char} (hne : word ≠ []) (h : ∀ c ∈ word, isSpace c = false) {sep : Char}
    (hsep : isSpace sep = true) (rest : List Char) :
    splitWords (word ++ sep :: rest) = word :: splitWords rest := by
  rw [splitWords, List.splitOnP_append_cons_of_forall_mem h sep hsep,
    List.filter_cons_of_pos (by simpa using hne), splitWords]

/-- A nullable text column in a boolean position: `None` and `""` are false. -/
def truthy : Option String → Option String
  | some "" => none
  | s => s

theorem truthy_eq_some {s : Option String} {t : String} :
    truthy s = some t ↔ s = some t ∧ t ≠ "" := by
  simp only [truthy]
  split
  · simp
  · next hs =>
      constructor
      · rintro rfl
        exact ⟨rfl, fun h => hs (h ▸ rfl)⟩
      · exact fun h => h.1

end BorgManager.PythonText
