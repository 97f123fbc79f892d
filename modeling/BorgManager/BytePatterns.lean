import BorgManager.LinePatterns
import Mathlib.Data.List.Infix

namespace BorgManager.BytePatterns

open Patterns ByteLines LinePatterns

/-- A byte stands for the character of its number, as patterns over bytes read
them. -/
def latin (bytes : List UInt8) : List Char := bytes.map (fun b => Char.ofNat b.toNat)

def bytesOf (text : List Char) : List UInt8 := text.map (fun c => UInt8.ofNat c.toNat)

/-- `\s` in a pattern over bytes. -/
def isBlank (c : Char) : Bool := c == ' ' || (9 ≤ c.toNat && c.toNat ≤ 13)

def blank : Pattern := .char isBlank

def digit : Pattern := .char (fun c => '0' ≤ c && c ≤ '9')

def among (members : String) : Pattern := .char (fun c => members.toList.contains c)

def exactly (text : String) : Pattern := literal (fun a b => a == b) text.toList

/-- `[ \t]` -/
def gap : Pattern := .char (fun c => c == ' ' || c == '\t')

/-- `[^\r\n]` -/
def inLine : Pattern := .char (fun c => c != '\r' && c != '\n')

/-- `[Rr][Ee][Mm][Oo][Tt][Ee]:[ \t]*` -/
def remoteLabel : Pattern :=
  sequence [among "Rr", among "Ee", among "Mm", among "Oo", among "Tt", among "Ee", exactly ":", .many true gap]

/-- The text of a group. -/
def field (m : Cursor) (index : Nat) : List Char := (m.groups.lookup index).getD []

/-- `int` of decimal digits, of which it takes 4300 at most. -/
def wholeNumber (digits : List Char) : Option Nat :=
  if digits.length ≤ 4300 then some (digits.foldl (fun n c => 10 * n + (c.toNat - '0'.toNat)) 0) else none

/-- `re.match` with a pattern between `^` and `$`, which also ends before a
newline at the end of the text. -/
def matchWhole (p : Pattern) (text : List Char) : Option Cursor :=
  (p.ends ⟨none, text, []⟩).find? (fun d => d.rest == [] || d.rest == ['\n'])

/-- `part in text` -/
def contains {α : Type} [BEq α] (part text : List α) : Bool := text.tails.any (fun rest => part.isPrefixOf rest)

theorem contains_iff {α : Type} [BEq α] [LawfulBEq α] {part text : List α} :
    contains part text = true ↔ part <:+: text := by
  rw [contains, List.any_eq_true]
  constructor
  · rintro ⟨rest, hrest, hpart⟩
    exact (List.isPrefixOf_iff_prefix.mp hpart).isInfix.trans (List.mem_tails _ _ |>.mp hrest).isInfix
  · rintro ⟨before, after, h⟩
    exact ⟨part ++ after, (List.mem_tails _ _).mpr ⟨before, by rw [← h, List.append_assoc]⟩,
      List.isPrefixOf_iff_prefix.mpr (List.prefix_append _ _)⟩

def lineFeed (b : UInt8) : Bool := b == 10

def carriageReturn (b : UInt8) : Bool := b == 13

theorem forall_byte {motive : UInt8 → Prop} (h : ∀ n < 256, motive (UInt8.ofNat n)) (b : UInt8) : motive b := by
  have hb := h b.toNat b.toNat_lt
  rwa [UInt8.ofNat_toNat] at hb

theorem bytesOf_latin (bytes : List UInt8) : bytesOf (latin bytes) = bytes := by
  have hbyte (b : UInt8) : UInt8.ofNat (Char.ofNat b.toNat).toNat = b := by
    revert b
    exact forall_byte (by decide +kernel)
  induction bytes with
  | nil => rfl
  | cons b bytes ih =>
      rw [latin, bytesOf] at ih
      rw [latin, bytesOf, List.map_cons, List.map_cons, hbyte, ih]

theorem latin_flatten (parts : List (List UInt8)) : latin parts.flatten = (parts.map latin).flatten := by
  rw [latin, List.map_flatten]
  rfl

theorem isNewline_latin (b : UInt8) : isNewline (Char.ofNat b.toNat) = lineFeed b := by
  revert b
  exact forall_byte (by decide +kernel)

theorem lines_latin (bytes : List UInt8) : lines isNewline (latin bytes) = (lines lineFeed bytes).map latin := by
  rw [latin, lines_map isNewline_latin]
  rfl

theorem whole_latin {bytes : List UInt8} (h : Whole lineFeed bytes) : Whole isNewline (latin bytes) := by
  intro c hc
  rw [latin, List.getLast?_map] at hc
  obtain ⟨b, hb, rfl⟩ := Option.map_eq_some_iff.mp hc
  rw [isNewline_latin]
  exact h b hb

end BorgManager.BytePatterns
