import Mathlib.Algebra.Order.Ring.Nat
import Mathlib.Data.List.Sort
import BorgManager.PythonText

namespace BorgManager.JsonText

open PythonText

inductive Scalar
  | null
  | flag (b : Bool)
  | number (n : Int)
  | text (s : String)
  deriving DecidableEq

/-- What the fields of a document hold. -/
inductive Value
  | null
  | flag (b : Bool)
  | number (n : Int)
  | text (s : String)
  | texts (items : List String)
  | numbers (fields : List (String × Int))
  | records (items : List (List (String × Scalar)))
  deriving DecidableEq

abbrev Document : Type := List (String × Value)

def get (document : Document) (key : String) : Value := (document.lookup key).getD .null

/-- A value in a boolean position. -/
def Value.truthy : Value → Bool
  | .null => false
  | .flag b => b
  | .number n => n != 0
  | .text s => s != ""
  | .texts items => !items.isEmpty
  | .numbers fields => !fields.isEmpty
  | .records items => !items.isEmpty

/-- The text of a field, and nothing for a field without one. -/
def Value.textOr : Value → String
  | .text s => s
  | _ => ""

def Value.numberOr : Value → Int
  | .number n => n
  | _ => 0

/-- `int(text)` for ASCII digits, a sign, single underscores between digits and
white space around them. -/
def intOfText (text : List Char) : Option Int :=
  let magnitude (digits : List Char) : Option Int :=
    if (digits.splitOn '_').all (fun run => run != [] && run.all Char.isDigit) then
      some ((digits.filter (fun c => c != '_')).foldl (fun n c => 10 * n + (c.toNat - '0'.toNat : Nat)) 0)
    else none
  match stripWhile isSpace text with
  | '-' :: digits => (magnitude digits).map (fun n => -n)
  | '+' :: digits => magnitude digits
  | digits => magnitude digits

/-- `int(value or 0)`. -/
def Value.toInt? : Value → Option Int
  | .null => some 0
  | .flag b => some (if b then 1 else 0)
  | .number n => some n
  | .text s => if s = "" then some 0 else intOfText s.toList
  | .texts items => if items.isEmpty then some 0 else none
  | .numbers fields => if fields.isEmpty then some 0 else none
  | .records items => if items.isEmpty then some 0 else none

def hexDigit (n : Nat) : Char := Nat.digitChar (n % 16)

def unicodeEscape (n : Nat) : List Char :=
  ['\\', 'u', hexDigit (n / 4096), hexDigit (n / 256), hexDigit (n / 16), hexDigit n]

/-- A character of a string. Without `asciiOnly` only quotes, backslashes and
control characters are escaped. -/
def escapeChar (asciiOnly : Bool) (c : Char) : List Char :=
  if c = '"' then ['\\', '"']
  else if c = '\\' then ['\\', '\\']
  else if c = '\n' then ['\\', 'n']
  else if c = '\r' then ['\\', 'r']
  else if c = '\t' then ['\\', 't']
  else if c = '\x08' then ['\\', 'b']
  else if c = '\x0c' then ['\\', 'f']
  else if c.toNat < 32 then unicodeEscape c.toNat
  else if asciiOnly = false ∨ c.toNat < 127 then [c]
  else if c.toNat < 0x10000 then unicodeEscape c.toNat
  else
    -- two surrogates stand for a character beyond the first plane
    unicodeEscape (0xD800 + (c.toNat - 0x10000) / 1024) ++ unicodeEscape (0xDC00 + (c.toNat - 0x10000) % 1024)

def quoted (asciiOnly : Bool) (s : String) : List Char := '"' :: (s.toList.flatMap (escapeChar asciiOnly) ++ ['"'])

/-- How a document is written: with an indent of two or on one line. -/
structure Style where
  asciiOnly : Bool
  indented : Bool

def Style.lineBreak (style : Style) (depth : Nat) : List Char :=
  if style.indented then '\n' :: List.replicate (2 * depth) ' ' else []

def Style.colon (style : Style) : List Char := if style.indented then [':', ' '] else [':']

/-- Items between brackets, at a depth of nesting. -/
def Style.bracketed (style : Style) (depth : Nat) (left right : Char) (items : List (List Char)) : List Char :=
  if items = [] then [left, right]
  else
    left :: (style.lineBreak (depth + 1) ++ (',' :: style.lineBreak (depth + 1)).intercalate items ++
      style.lineBreak depth ++ [right])

def Style.field (style : Style) (key : String) (value : List Char) : List Char :=
  quoted style.asciiOnly key ++ style.colon ++ value

def numberText (n : Int) : List Char := (toString n).toList

def Scalar.dumps (style : Style) : Scalar → List Char
  | .null => ['n', 'u', 'l', 'l']
  | .flag true => ['t', 'r', 'u', 'e']
  | .flag false => ['f', 'a', 'l', 's', 'e']
  | .number n => numberText n
  | .text s => quoted style.asciiOnly s

def Value.dumps (style : Style) : Value → List Char
  | .null => Scalar.dumps style .null
  | .flag b => Scalar.dumps style (.flag b)
  | .number n => Scalar.dumps style (.number n)
  | .text s => Scalar.dumps style (.text s)
  | .texts items => style.bracketed 1 '[' ']' (items.map (quoted style.asciiOnly))
  | .numbers fields => style.bracketed 1 '{' '}' (fields.map (fun f => style.field f.1 (numberText f.2)))
  | .records items => style.bracketed 1 '[' ']' (items.map (fun fields =>
      style.bracketed 2 '{' '}' (fields.map (fun f => style.field f.1 (f.2.dumps style)))))

/-- The text of a document. -/
def dumps (style : Style) (document : Document) : List Char :=
  style.bracketed 0 '{' '}' (document.map (fun f => style.field f.1 (f.2.dumps style)))

/-- The fields in the order of their keys. -/
def sortKeys (document : Document) : Document := document.insertionSort (fun a b => a.1 ≤ b.1)

/-- The length of a text in UTF-8. -/
def byteSize (text : List Char) : Nat := (text.map Char.utf8Size).sum

theorem length_le_byteSize (text : List Char) : text.length ≤ byteSize text := by
  induction text with
  | nil => exact le_rfl
  | cons c text ih =>
      have hc := c.utf8Size_pos
      rw [byteSize, List.map_cons, List.sum_cons, List.length_cons, ← byteSize]
      omega

theorem three_le_field (style : Style) (key : String) (value : List Char) : 3 ≤ (style.field key value).length := by
  rw [Style.field, quoted, Style.colon]
  split <;> simp <;> omega

theorem sum_le_intercalate (sep : List Char) (items : List (List Char)) :
    (items.map List.length).sum ≤ (sep.intercalate items).length := by
  induction items with
  | nil => exact le_rfl
  | cons item items ih =>
      cases items with
      | nil => simp
      | cons next items =>
          rw [List.map_cons, List.sum_cons, List.intercalate_cons_cons, List.length_append, List.length_append]
          omega

/-- Every field takes three characters at least, and the brackets two. -/
theorem length_dumps (style : Style) (document : Document) :
    3 * document.length + 2 ≤ (dumps style document).length := by
  have hfields : 3 * document.length ≤
      ((document.map (fun f => style.field f.1 (f.2.dumps style))).map List.length).sum := by
    induction document with
    | nil => exact le_rfl
    | cons f document ih =>
        have hf := three_le_field style f.1 (f.2.dumps style)
        simp only [List.map_cons, List.sum_cons, List.length_cons]
        omega
  rw [dumps, Style.bracketed]
  split
  next hnil => simp [List.map_eq_nil_iff.mp hnil]
  next =>
    have hitems := sum_le_intercalate (',' :: style.lineBreak (0 + 1))
      (document.map (fun f => style.field f.1 (f.2.dumps style)))
    simp only [List.length_cons, List.length_append, List.length_nil]
    omega

theorem byteSize_le_length (text : List Char) : byteSize text ≤ 4 * text.length := by
  induction text with
  | nil => exact Nat.zero_le _
  | cons c text ih =>
      have hc := c.utf8Size_le_four
      rw [byteSize, List.map_cons, List.sum_cons, List.length_cons, ← byteSize]
      omega

/-- The longest escapes are two surrogates. -/
theorem length_escapeChar (asciiOnly : Bool) (c : Char) : (escapeChar asciiOnly c).length ≤ 12 := by
  rw [escapeChar]
  repeat' split
  all_goals simp [unicodeEscape]

theorem length_quoted (asciiOnly : Bool) (s : String) : (quoted asciiOnly s).length ≤ 12 * s.toList.length + 2 := by
  have hescaped : (s.toList.flatMap (escapeChar asciiOnly)).length ≤ 12 * s.toList.length := by
    induction s.toList with
    | nil => exact Nat.zero_le _
    | cons c cs ih =>
        have hc := length_escapeChar asciiOnly c
        rw [List.flatMap_cons, List.length_append, List.length_cons]
        omega
  rw [quoted, List.length_cons, List.length_append, List.length_singleton]
  omega

theorem length_intercalate_le (sep : List Char) (items : List (List Char)) :
    (sep.intercalate items).length ≤ (items.map (fun item => sep.length + item.length)).sum := by
  induction items with
  | nil => exact Nat.zero_le _
  | cons item items ih =>
      cases items with
      | nil => simp
      | cons next items =>
          rw [List.map_cons, List.sum_cons, List.intercalate_cons_cons, List.length_append, List.length_append]
          omega

/-- On one line, a document is not longer than its keys and its values make it. -/
theorem length_dumps_le (asciiOnly : Bool) (document : Document) :
    (dumps ⟨asciiOnly, false⟩ document).length ≤
      (document.map (fun f => 12 * f.1.toList.length + 4)).sum +
        (document.map (fun f => (f.2.dumps ⟨asciiOnly, false⟩).length)).sum + 2 := by
  have hfields : ((document.map (fun f => Style.field ⟨asciiOnly, false⟩ f.1 (f.2.dumps ⟨asciiOnly, false⟩))).map
      (fun item => 1 + item.length)).sum ≤
        (document.map (fun f => 12 * f.1.toList.length + 4)).sum +
          (document.map (fun f => (f.2.dumps ⟨asciiOnly, false⟩).length)).sum := by
    induction document with
    | nil => exact Nat.zero_le _
    | cons f document ih =>
        have hkey := length_quoted asciiOnly f.1
        simp only [List.map_cons, List.sum_cons, Style.field, Style.colon, List.length_append, Bool.false_eq_true,
          if_false, List.length_singleton] at ih ⊢
        omega
  rw [dumps, Style.bracketed]
  split
  · simp
  · have hitems := length_intercalate_le [',']
      (document.map (fun f => Style.field ⟨asciiOnly, false⟩ f.1 (f.2.dumps ⟨asciiOnly, false⟩)))
    simp only [List.length_singleton] at hitems
    simp only [Style.lineBreak, Bool.false_eq_true, if_false, List.length_cons, List.length_append, List.length_nil]
    omega

end BorgManager.JsonText
