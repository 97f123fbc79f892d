import BorgManager.PythonText
import Mathlib.Tactic.MkIffOfInductiveProp

namespace BorgManager.CompressionSpec

open PythonText

inductive PyError
  | valueError | recursionError
  deriving DecidableEq

/-- The characters that `str.isdigit` accepts, and the values of those that
`int` reads. -/
structure DigitTable where
  isDigit : Char → Bool
  decimal : Char → Option Nat

/-- `int` refuses longer texts. -/
def maxStrDigits : Nat := 4300

variable (t : DigitTable)

def isDigits (token : String) : Bool := token != "" && token.toList.all t.isDigit

/-- The value of a numeral, however long it is. -/
def numeral (token : String) : Option Nat :=
  if token.toList.all (fun c => (t.decimal c).isSome) then
    some (token.toList.foldl (fun value c => 10 * value + (t.decimal c).getD 0) 0)
  else none

/-- `int` of a token that `isdigit` accepts. -/
def int (token : String) : Except PyError Nat :=
  if token.toList.length ≤ maxStrDigits then (numeral t token).elim (.error .valueError) .ok else .error .valueError

/-- The inner function of `validate_compression_spec`, over the tokens from an
index on, with the calls that the interpreter still allows. -/
def parse (tokens : List String) : Nat → Nat → Except PyError Nat
  | 0, _ => .error .recursionError
  | frames + 1, index =>
      match tokens.drop index with
      | [] => .error .valueError
      | algorithm :: following =>
          if algorithm = "none" ∨ algorithm = "lz4" then .ok (index + 1)
          else if algorithm = "zstd" ∨ algorithm = "zlib" ∨ algorithm = "lzma" then
            match following with
            | [] => .ok (index + 1)
            | next :: _ =>
                if isDigits t next then
                  match int t next with
                  | .error e => .error e
                  | .ok level =>
                      let bounds := if algorithm = "zstd" then (1, 22) else (0, 9)
                      if bounds.1 ≤ level ∧ level ≤ bounds.2 then .ok (index + 2) else .error .valueError
                else .ok (index + 1)
          else if algorithm = "auto" then parse tokens frames (index + 1)
          else if algorithm = "obfuscate" then
            match following with
            | [] => .error .valueError
            | next :: _ =>
                if isDigits t next then
                  match int t next with
                  | .error e => .error e
                  | .ok mode =>
                      if (1 ≤ mode ∧ mode < 7) ∨ (110 ≤ mode ∧ mode < 124) then parse tokens frames (index + 2)
                      else .error .valueError
                else .error .valueError
          else .error .valueError

/-- `value.split(",")` -/
def tokensOf (value : String) : List String := (value.toList.splitOn ',').map String.ofList

/-- `token != token.strip() or not token` -/
def blemished (token : String) : Bool := token != strip token || token == ""

def validateCompressionSpec (frames : Nat) (value : String) : Except PyError String :=
  if value = "" ∨ (tokensOf value).any blemished then .error .valueError
  else
    match parse t (tokensOf value) frames 0 with
    | .error e => .error e
    | .ok index => if index = (tokensOf value).length then .ok value else .error .valueError

theorem strip_solid {s : String} (h : ∀ c ∈ s.toList, isSpace c = false) : strip s = s := by
  have hdrop {cs : List Char} (h : ∀ c ∈ cs, isSpace c = false) : cs.dropWhile isSpace = cs := by
    cases cs with
    | nil => rfl
    | cons c cs => exact List.dropWhile_cons_of_neg (by simp [h c (List.mem_cons_self ..)])
  rw [strip, stripWhile, rstripWhile, hdrop h, hdrop (fun c hc => h c (List.mem_reverse.mp hc)), List.reverse_reverse,
    String.ofList_toList]

section Grammar

variable (Number : String → Nat → Prop)

/-- A number within bounds. -/
def Level (low high : Nat) (token : String) : Prop := ∃ n, Number token n ∧ low ≤ n ∧ n ≤ high

def Mode (token : String) : Prop := Level Number 1 6 token ∨ Level Number 110 123 token

/-- The sentences `S` of the grammar, with the number of their wrappers. -/
@[mk_iff]
inductive Sentence : Nat → List String → Prop
  | none : Sentence 0 ["none"]
  | lz4 : Sentence 0 ["lz4"]
  | zstd : Sentence 0 ["zstd"]
  | zlib : Sentence 0 ["zlib"]
  | lzma : Sentence 0 ["lzma"]
  | zstdLevel {level : String} (h : Level Number 1 22 level) : Sentence 0 ["zstd", level]
  | zlibLevel {level : String} (h : Level Number 0 9 level) : Sentence 0 ["zlib", level]
  | lzmaLevel {level : String} (h : Level Number 0 9 level) : Sentence 0 ["lzma", level]
  | auto {depth : Nat} {inner : List String} (h : Sentence depth inner) : Sentence (depth + 1) ("auto" :: inner)
  | obfuscate {mode : String} {depth : Nat} {inner : List String} (hmode : Mode Number mode)
      (h : Sentence depth inner) :
      Sentence (depth + 1) ("obfuscate" :: mode :: inner)

/-- Tokens that begin with so many wrappers. -/
@[mk_iff]
inductive Wraps : Nat → List String → Prop
  | nil {tokens : List String} : Wraps 0 tokens
  | auto {depth : Nat} {inner : List String} (h : Wraps depth inner) : Wraps (depth + 1) ("auto" :: inner)
  | obfuscate {mode : String} {depth : Nat} {inner : List String} (hmode : Mode Number mode) (h : Wraps depth inner) :
      Wraps (depth + 1) ("obfuscate" :: mode :: inner)

end Grammar

/-- A digit token and its value. -/
def DigitToken (token : String) (n : Nat) : Prop := isDigits t token = true ∧ numeral t token = some n

/-- One that is short enough for `int`. -/
def ReadableToken (token : String) (n : Nat) : Prop := DigitToken t token n ∧ token.toList.length ≤ maxStrDigits

/-- No token is blank or has white space around it. -/
def Clean (tokens : List String) : Prop := ∀ token ∈ tokens, token ≠ "" ∧ strip token = token

variable {t}

theorem int_eq_ok {token : String} {n : Nat} :
    int t token = .ok n ↔ numeral t token = some n ∧ token.toList.length ≤ maxStrDigits := by
  rw [int]
  split
  · next hshort => cases numeral t token <;> simp [hshort]
  · next hlong => simp [hlong]

theorem int_error {token : String} {e : PyError} (h : int t token = .error e) : e = .valueError := by
  rw [int] at h
  split at h
  · cases hnumeral : numeral t token with
    | none => rw [hnumeral] at h; cases h; rfl
    | some n => rw [hnumeral] at h; cases h
  · cases h
    rfl

/-- What is made of a token where a number may stand. -/
theorem readable_cases (token : String) :
    (∃ n, isDigits t token = true ∧ int t token = .ok n ∧ ∀ m, ReadableToken t token m ↔ m = n) ∨
      (isDigits t token = true ∧ int t token = .error .valueError ∧ ∀ m, ¬ ReadableToken t token m) ∨
      (isDigits t token = false ∧ ∀ m, ¬ ReadableToken t token m) := by
  cases hdigits : isDigits t token with
  | false =>
      refine Or.inr (Or.inr ⟨rfl, fun m hm => ?_⟩)
      rw [hm.1.1] at hdigits
      cases hdigits
  | true =>
      cases hint : int t token with
      | ok n =>
          obtain ⟨hn, hlength⟩ := int_eq_ok.mp hint
          refine Or.inl ⟨n, rfl, rfl, fun m => ⟨fun hm => ?_, ?_⟩⟩
          · exact Option.some.inj (hm.1.2.symm.trans hn)
          · rintro rfl
            exact ⟨⟨hdigits, hn⟩, hlength⟩
      | error e =>
          obtain rfl := int_error hint
          refine Or.inr (Or.inl ⟨rfl, rfl, fun m hm => ?_⟩)
          rw [int_eq_ok.mpr ⟨hm.1.2, hm.2⟩] at hint
          cases hint

theorem level_of_value {low high n : Nat} {token : String} (h : ∀ m, ReadableToken t token m ↔ m = n) :
    Level (ReadableToken t) low high token ↔ low ≤ n ∧ n ≤ high := by
  simp [Level, h]

theorem not_level {low high : Nat} {token : String} (h : ∀ m, ¬ ReadableToken t token m) :
    ¬ Level (ReadableToken t) low high token := by
  rintro ⟨m, hm, -⟩
  exact h m hm

section Heads

variable {Number : String → Nat → Prop} {depth : Nat} {following : List String}

theorem sentence_nil : ¬ Sentence Number depth [] := by rintro ⟨⟩

theorem wraps_nil : ¬ Wraps Number (depth + 1) [] := by rintro ⟨⟩

theorem sentence_plain {algorithm : String} (h : algorithm = "none" ∨ algorithm = "lz4") :
    Sentence Number depth (algorithm :: following) ↔ depth = 0 ∧ following = [] := by
  rw [sentence_iff]
  rcases h with rfl | rfl <;> simp

theorem sentence_leveled {algorithm : String} (h : algorithm = "zstd" ∨ algorithm = "zlib" ∨ algorithm = "lzma") :
    Sentence Number depth (algorithm :: following) ↔ depth = 0 ∧ (following = [] ∨ ∃ level, following = [level] ∧
      Level Number (if algorithm = "zstd" then 1 else 0) (if algorithm = "zstd" then 22 else 9) level) := by
  rw [sentence_iff]
  rcases h with rfl | rfl | rfl <;> simp <;> grind

theorem sentence_auto :
    Sentence Number depth ("auto" :: following) ↔ ∃ k, depth = k + 1 ∧ Sentence Number k following := by
  rw [sentence_iff]
  simp [and_comm]

theorem sentence_obfuscate : Sentence Number depth ("obfuscate" :: following) ↔
    ∃ mode k inner, depth = k + 1 ∧ following = mode :: inner ∧ Mode Number mode ∧ Sentence Number k inner := by
  rw [sentence_iff]
  simp [and_comm, and_assoc, and_left_comm]

theorem sentence_other {algorithm : String}
    (h : algorithm ∉ ["none", "lz4", "zstd", "zlib", "lzma", "auto", "obfuscate"]) :
    ¬ Sentence Number depth (algorithm :: following) := by
  rw [sentence_iff]
  simp_all

theorem wraps_auto : Wraps Number (depth + 1) ("auto" :: following) ↔ Wraps Number depth following := by
  rw [wraps_iff]
  simp

theorem wraps_obfuscate : Wraps Number (depth + 1) ("obfuscate" :: following) ↔
    ∃ mode inner, following = mode :: inner ∧ Mode Number mode ∧ Wraps Number depth inner := by
  rw [wraps_iff]
  simp [and_comm, and_assoc, and_left_comm]

theorem wraps_other {algorithm : String} (h : algorithm ≠ "auto" ∧ algorithm ≠ "obfuscate") :
    ¬ Wraps Number (depth + 1) (algorithm :: following) := by
  rw [wraps_iff]
  simp [h.1, h.2]

end Heads

/-- From an index on the parser reaches the end exactly at sentences, and the
limit of the interpreter exactly at enough wrappers. -/
theorem parse_spec (tokens : List String) {frames index : Nat} (hindex : index ≤ tokens.length) :
    (parse t tokens frames index = .ok tokens.length ↔ ∃ d < frames, Sentence (ReadableToken t) d (tokens.drop index)) ∧
      (parse t tokens frames index = .error .recursionError ↔ Wraps (ReadableToken t) frames (tokens.drop index)) := by
  induction frames generalizing index with
  | zero => simp [parse, Wraps.nil]
  | succ frames ih =>
      rw [parse]
      cases hdrop : tokens.drop index with
      | nil => simp [sentence_nil, wraps_nil]
      | cons algorithm following =>
          have hnext : tokens.drop (index + 1) = following := by rw [← List.tail_drop, hdrop, List.tail_cons]
          have hlength : tokens.length = index + 1 + following.length := by
            have h := congrArg List.length hdrop
            rw [List.length_drop, List.length_cons] at h
            omega
          dsimp only
          by_cases hplain : algorithm = "none" ∨ algorithm = "lz4"
          · rw [if_pos hplain]
            have hother : algorithm ≠ "auto" ∧ algorithm ≠ "obfuscate" := by rcases hplain with rfl | rfl <;> decide
            simp [sentence_plain hplain, wraps_other hother, hlength]
          rw [if_neg hplain]
          by_cases hlevel : algorithm = "zstd" ∨ algorithm = "zlib" ∨ algorithm = "lzma"
          · rw [if_pos hlevel]
            have hother : algorithm ≠ "auto" ∧ algorithm ≠ "obfuscate" := by
              rcases hlevel with rfl | rfl | rfl <;> decide
            simp only [sentence_leveled hlevel, wraps_other hother, iff_false]
            cases following with
            | nil => simp [hlength]
            | cons next rest =>
                rcases @readable_cases t next with ⟨n, hdigits, hint, hn⟩ | ⟨hdigits, hint, hnot⟩ | ⟨hdigits, hnot⟩
                · have hend : index + 2 = tokens.length ↔ rest = [] := by
                    rw [hlength, List.length_cons, ← List.length_eq_zero_iff]
                    omega
                  by_cases hzstd : algorithm = "zstd"
                  · by_cases hbounds : 1 ≤ n ∧ n ≤ 22 <;> simp [hend, hdigits, hint, hzstd, hbounds, level_of_value hn]
                  · by_cases hbounds : n ≤ 9 <;> simp [hend, hdigits, hint, hzstd, hbounds, level_of_value hn]
                · simp [hdigits, hint, not_level hnot]
                · simp [hlength, hdigits, not_level hnot]
          rw [if_neg hlevel]
          by_cases hauto : algorithm = "auto"
          · subst hauto
            obtain ⟨hok, hrecursion⟩ := @ih (index + 1) (by omega)
            rw [if_pos rfl, hok, hrecursion, hnext, wraps_auto]
            refine ⟨?_, Iff.rfl⟩
            constructor
            · rintro ⟨d, hd, h⟩
              exact ⟨d + 1, Nat.succ_lt_succ hd, sentence_auto.mpr ⟨d, rfl, h⟩⟩
            · rintro ⟨d, hd, h⟩
              obtain ⟨k, rfl, hk⟩ := sentence_auto.mp h
              exact ⟨k, Nat.lt_of_succ_lt_succ hd, hk⟩
          rw [if_neg hauto]
          by_cases hobfuscate : algorithm = "obfuscate"
          · subst hobfuscate
            rw [if_pos rfl, wraps_obfuscate]
            cases following with
            | nil => simp [sentence_obfuscate]
            | cons next rest =>
                have hinner : tokens.drop (index + 2) = rest := by rw [← List.tail_drop, hnext, List.tail_cons]
                obtain ⟨hok, hrecursion⟩ := @ih (index + 2) (by rw [List.length_cons] at hlength; omega)
                rcases @readable_cases t next with ⟨n, hdigits, hint, hn⟩ | ⟨hdigits, hint, hnot⟩ | ⟨hdigits, hnot⟩
                · have hmode : Mode (ReadableToken t) next ↔ (1 ≤ n ∧ n < 7) ∨ (110 ≤ n ∧ n < 124) := by
                    rw [Mode, level_of_value hn, level_of_value hn, Nat.lt_succ_iff, Nat.lt_succ_iff]
                  dsimp only
                  rw [if_pos hdigits, hint]
                  dsimp only
                  by_cases hn : (1 ≤ n ∧ n < 7) ∨ (110 ≤ n ∧ n < 124)
                  · rw [if_pos hn, hok, hrecursion, hinner]
                    constructor
                    · constructor
                      · rintro ⟨d, hd, h⟩
                        exact ⟨d + 1, Nat.succ_lt_succ hd, sentence_obfuscate.mpr ⟨_, d, _, rfl, rfl, hmode.mpr hn, h⟩⟩
                      · rintro ⟨d, hd, h⟩
                        obtain ⟨mode, k, inner, rfl, heq, -, h⟩ := sentence_obfuscate.mp h
                        cases heq
                        exact ⟨k, Nat.lt_of_succ_lt_succ hd, h⟩
                    · constructor
                      · intro h
                        exact ⟨_, _, rfl, hmode.mpr hn, h⟩
                      · rintro ⟨mode, inner, heq, -, h⟩
                        cases heq
                        exact h
                  · rw [if_neg hn]
                    simp [sentence_obfuscate, hmode, hn]
                · simp [sentence_obfuscate, Mode, hdigits, hint, not_level hnot]
                · simp [sentence_obfuscate, Mode, hdigits, not_level hnot]
          rw [if_neg hobfuscate]
          have hknown : algorithm ∉ ["none", "lz4", "zstd", "zlib", "lzma", "auto", "obfuscate"] := by
            simp_all
          simp [sentence_other hknown, wraps_other ⟨hauto, hobfuscate⟩]

theorem clean_iff {tokens : List String} : tokens.any blemished = false ↔ Clean tokens := by
  simp only [List.any_eq_false, Clean, blemished, Bool.or_eq_true, bne_iff_ne, beq_iff_eq, not_or, not_not]
  exact forall₂_congr fun token _ => ⟨fun h => ⟨h.2, h.1.symm⟩, fun h => ⟨h.2.symm, h.1⟩⟩

/-- Without spoiled tokens only the inner function decides. -/
theorem validate_clean {frames : Nat} {value : String} (h : Clean (tokensOf value)) :
    validateCompressionSpec t frames value =
    match parse t (tokensOf value) frames 0 with
    | .error e => .error e
    | .ok index => if index = (tokensOf value).length then .ok value else .error .valueError := by
  have hne : value ≠ "" := by
    rintro rfl
    exact (h "" (by decide)).1 rfl
  rw [validateCompressionSpec, if_neg]
  rw [clean_iff.mpr h]
  simp [hne]

theorem validate_spoiled {frames : Nat} {value : String} (h : ¬ Clean (tokensOf value)) :
    validateCompressionSpec t frames value = .error .valueError := by
  rw [validateCompressionSpec, if_pos]
  rw [← clean_iff, Bool.not_eq_false] at h
  exact Or.inr h

/-- For the calls that the interpreter allows: the specifications that are
accepted, and how the others are refused. -/
theorem accepts_grammar (t : DigitTable) (frames : Nat) (value : String) :
    (∀ result, validateCompressionSpec t frames value = .ok result ↔
      result = value ∧ Clean (tokensOf value) ∧ ∃ depth < frames, Sentence (ReadableToken t) depth (tokensOf value)) ∧
    (validateCompressionSpec t frames value = .error .recursionError ↔
      Clean (tokensOf value) ∧ Wraps (ReadableToken t) frames (tokensOf value)) ∧
    (validateCompressionSpec t frames value = .error .valueError ↔
      ¬ (Clean (tokensOf value) ∧
        ((∃ depth < frames, Sentence (ReadableToken t) depth (tokensOf value)) ∨
          Wraps (ReadableToken t) frames (tokensOf value)))) := by
  by_cases hclean : Clean (tokensOf value)
  · have hspec := @parse_spec t (tokensOf value) frames _ (Nat.zero_le _)
    rw [List.drop_zero] at hspec
    rw [validate_clean hclean, ← hspec.1, ← hspec.2]
    cases hparse : parse t (tokensOf value) frames 0 with
    | error e => cases e <;> simp [hclean]
    | ok index => by_cases hindex : index = (tokensOf value).length <;> simp [hclean, hindex, eq_comm]
  · simp [validate_spoiled hclean, hclean]

def asciiDigits : DigitTable := ⟨Char.isDigit, fun c => if c.isDigit then some (c.toNat - '0'.toNat) else none⟩

/-- The number one with zeros before it. -/
def paddedOne (zeros : Nat) : String := String.ofList (List.replicate zeros '0' ++ ['1'])

def paddedLevel (zeros : Nat) : String := String.ofList ("zstd".toList ++ ',' :: (paddedOne zeros).toList)

theorem digit_paddedOne {zeros : Nat} {c : Char} (h : c ∈ (paddedOne zeros).toList) : c = '0' ∨ c = '1' := by
  rw [paddedOne, String.toList_ofList] at h
  rcases List.mem_append.mp h with h | h
  · exact Or.inl (List.eq_of_mem_replicate h)
  · exact Or.inr (List.mem_singleton.mp h)

theorem tokensOf_paddedLevel (zeros : Nat) : tokensOf (paddedLevel zeros) = ["zstd", paddedOne zeros] := by
  have hdigits : ∀ c ∈ (paddedOne zeros).toList, (c == ',') = false := by
    intro c hc
    rcases digit_paddedOne hc with rfl | rfl <;> decide
  rw [tokensOf, paddedLevel, String.toList_ofList, List.splitOn,
    List.splitOnP_append_cons_of_forall_mem (by simp) ',' (by decide), List.splitOnP_eq_singleton hdigits]
  simp

theorem digitToken_paddedOne (zeros : Nat) : DigitToken asciiDigits (paddedOne zeros) 1 := by
  have hdecimal : ∀ c ∈ (paddedOne zeros).toList, (asciiDigits.decimal c).isSome = true := by
    intro c hc
    rcases digit_paddedOne hc with rfl | rfl <;> decide
  have hzeros (n : Nat) : (List.replicate n '0').foldl
      (fun value c => 10 * value + (asciiDigits.decimal c).getD 0) 0 = 0 := by
    induction n with
    | zero => rfl
    | succ n ih => exact ih
  constructor
  · rw [isDigits, Bool.and_eq_true, List.all_eq_true]
    refine ⟨by simp [paddedOne], fun c hc => ?_⟩
    rcases digit_paddedOne hc with rfl | rfl <;> decide
  · rw [numeral, if_pos (List.all_eq_true.mpr hdecimal), paddedOne, String.toList_ofList, List.foldl_append, hzeros]
    rfl

theorem clean_paddedLevel (zeros : Nat) : Clean ["zstd", paddedOne zeros] := by
  have hsolid : strip (paddedOne zeros) = paddedOne zeros := by
    apply strip_solid
    intro c hc
    rcases digit_paddedOne hc with rfl | rfl <;> decide
  intro token htoken
  rcases List.mem_cons.mp htoken with rfl | htoken
  · decide
  · rw [List.mem_singleton.mp htoken]
    exact ⟨by simp [paddedOne], hsolid⟩

/-- A level that is too long for `int`. -/
theorem long_level_refused : ¬ ∀ (t : DigitTable) (value : String),
    (∃ frames, validateCompressionSpec t frames value = .ok value) ↔
      Clean (tokensOf value) ∧ ∃ depth, Sentence (DigitToken t) depth (tokensOf value) := by
  intro h
  obtain ⟨zeros, hzeros⟩ : ∃ zeros, maxStrDigits ≤ zeros := ⟨_, Nat.le_refl _⟩
  have hlong : ¬ (paddedOne zeros).toList.length ≤ maxStrDigits := by
    rw [paddedOne, String.toList_ofList, List.length_append, List.length_replicate, List.length_singleton]
    omega
  have hclean := clean_paddedLevel zeros
  have hone := digitToken_paddedOne zeros
  rw [← tokensOf_paddedLevel] at hclean
  obtain ⟨frames, hframes⟩ := (h asciiDigits (paddedLevel zeros)).mpr
    ⟨hclean, 0, by rw [tokensOf_paddedLevel]; exact .zstdLevel ⟨1, hone, by decide⟩⟩
  rw [validate_clean hclean, tokensOf_paddedLevel] at hframes
  cases frames with
  | zero => simp [parse] at hframes
  | succ frames => simp [parse, hone.1, int, hlong] at hframes

end BorgManager.CompressionSpec
