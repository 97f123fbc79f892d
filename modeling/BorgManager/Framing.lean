import Mathlib.Data.List.Basic
import Mathlib.Data.UInt

namespace BorgManager.Framing

abbrev Bytes := List UInt8

/-- A number below `2 ^ 32` in four octets, the highest first. -/
def bigEndian (n : Nat) : Bytes :=
  [UInt8.ofNat (n / 16777216), UInt8.ofNat (n / 65536 % 256), UInt8.ofNat (n / 256 % 256), UInt8.ofNat (n % 256)]

def ofBigEndian (octets : Bytes) : Nat := octets.foldl (fun n octet => 256 * n + octet.toNat) 0

theorem ofBigEndian_bigEndian {n : Nat} (h : n < 2 ^ 32) : ofBigEndian (bigEndian n) = n := by
  simp only [ofBigEndian, bigEndian, List.foldl_cons, List.foldl_nil, UInt8.toNat_ofNat']
  omega

theorem length_bigEndian (n : Nat) : (bigEndian n).length = 4 := rfl

/-- A part of a file: a number of octets from an offset on. -/
def part (file : Bytes) (offset length : Nat) : Bytes := (file.drop offset).take length

theorem part_append {before middle after : Bytes} :
    part (before ++ (middle ++ after)) before.length middle.length = middle := by
  rw [part, List.drop_left, List.take_left]

theorem part_part (file : Bytes) (offset first second : Nat) :
    part file offset first ++ part file (offset + first) second = part file offset (first + second) := by
  rw [part, part, part, List.take_add, List.drop_drop]

theorem part_all {file : Bytes} {length : Nat} (h : file.length ≤ length) : part file 0 length = file := by
  rw [part, List.drop_zero, List.take_of_length_le h]

end BorgManager.Framing
