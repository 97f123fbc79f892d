import Mathlib.Data.List.Basic
import Mathlib.Data.UInt

namespace BorgManager.Base64

def alphabet : List Char := "ABCDEFGHIJKLMNOPQRSTUVWXYZabcdefghijklmnopqrstuvwxyz0123456789+/".toList

def symbol (n : Nat) : Char := alphabet.getD n '='

def value (c : Char) : Option Nat := alphabet.idxOf? c

/-- Three octets are four symbols of six bits each; a shorter end is padded. -/
def encode : List UInt8 → List Char
  | [] => []
  | [a] => [symbol (a.toNat / 4), symbol (a.toNat % 4 * 16), '=', '=']
  | [a, b] =>
      [symbol (a.toNat / 4), symbol (a.toNat % 4 * 16 + b.toNat / 16), symbol (b.toNat % 16 * 4), '=']
  | a :: b :: c :: rest =>
      symbol (a.toNat / 4) :: symbol (a.toNat % 4 * 16 + b.toNat / 16) ::
        symbol (b.toNat % 16 * 4 + c.toNat / 64) :: symbol (c.toNat % 64) :: encode rest

def first (w x : Nat) : UInt8 := UInt8.ofNat (w * 4 + x / 16)

def second (x y : Nat) : UInt8 := UInt8.ofNat (x % 16 * 16 + y / 4)

def third (y z : Nat) : UInt8 := UInt8.ofNat (y % 4 * 64 + z)

/-- Every character counts, and padding stands at the end only. Bits that
padding leaves over are ignored. -/
def decode : List Char → Option (List UInt8)
  | [] => some []
  | [w, x, '=', '='] => do
      let w ← value w
      let x ← value x
      pure [first w x]
  | [w, x, y, '='] => do
      let w ← value w
      let x ← value x
      let y ← value y
      pure [first w x, second x y]
  | w :: x :: y :: z :: rest => do
      let w ← value w
      let x ← value x
      let y ← value y
      let z ← value z
      let octets ← decode rest
      pure (first w x :: second x y :: third y z :: octets)
  | _ => none

theorem value_symbol {n : Nat} (h : n < 64) : value (symbol n) = some n := by
  have hall : (List.range 64).all (fun n => value (symbol n) == some n) = true := by decide +kernel
  exact beq_iff_eq.mp (List.all_eq_true.mp hall n (List.mem_range.mpr h))

theorem symbol_ne_padding {n : Nat} (h : n < 64) : symbol n ≠ '=' := by
  have hall : (List.range 64).all (fun n => symbol n != '=') = true := by decide +kernel
  exact bne_iff_ne.mp (List.all_eq_true.mp hall n (List.mem_range.mpr h))

theorem octet_eq {a : UInt8} {n : Nat} (h : n = a.toNat) : UInt8.ofNat n = a := by
  rw [h, UInt8.ofNat_toNat]

theorem first_eq {a : UInt8} {x : Nat} (h : x / 16 = a.toNat % 4) : first (a.toNat / 4) x = a :=
  octet_eq (by omega)

theorem second_eq {b : UInt8} {x y : Nat} (hx : x % 16 = b.toNat / 16) (hy : y / 4 = b.toNat % 16) : second x y = b :=
  octet_eq (by omega)

theorem third_eq {c : UInt8} {y : Nat} (h : y % 4 = c.toNat / 64) : third y (c.toNat % 64) = c :=
  octet_eq (by omega)

theorem decode_cons {w x y z : Char} (hz : z ≠ '=') (rest : List Char) :
    decode (w :: x :: y :: z :: rest) = (do
      let w ← value w
      let x ← value x
      let y ← value y
      let z ← value z
      let octets ← decode rest
      pure (first w x :: second x y :: third y z :: octets)) := by
  rw [decode]
  · exact fun _ heq _ => hz heq
  · exact fun heq _ => hz heq

theorem decode_encode (octets : List UInt8) : decode (encode octets) = some octets := by
  induction octets using encode.induct with
  | case1 => rfl
  | case2 a =>
      have ha := a.toNat_lt
      rw [encode, decode, value_symbol (by omega), value_symbol (by omega)]
      change some [first _ _] = _
      rw [first_eq (by omega)]
  | case3 a b =>
      have ha := a.toNat_lt
      have hb := b.toNat_lt
      have hpadding : symbol (b.toNat % 16 * 4) ≠ '=' := symbol_ne_padding (by omega)
      rw [encode, decode, value_symbol (by omega), value_symbol (by omega), value_symbol (by omega)]
      · change some [first _ _, second _ _] = _
        rw [first_eq (by omega), @second_eq b _ _ (by omega) (by omega)]
      · exact fun heq => hpadding heq
  | case4 a b c rest ih =>
      have ha := a.toNat_lt
      have hb := b.toNat_lt
      have hc := c.toNat_lt
      rw [encode, decode_cons (symbol_ne_padding (by omega)), value_symbol (by omega), value_symbol (by omega),
        value_symbol (by omega), value_symbol (by omega), ih]
      change some (first _ _ :: second _ _ :: third _ _ :: rest) = _
      rw [first_eq (by omega), @second_eq b _ _ (by omega) (by omega), @third_eq c _ (by omega)]

theorem symbol_mem (n : Nat) : symbol n = '=' ∨ symbol n ∈ alphabet := by
  rw [symbol, List.getD_eq_getElem?_getD]
  cases h : alphabet[n]? with
  | none => exact .inl rfl
  | some c => exact .inr (List.mem_of_getElem? h)

theorem mem_encode (octets : List UInt8) : ∀ c ∈ encode octets, c ∈ '=' :: alphabet := by
  induction octets using encode.induct with
  | case1 => simp [encode]
  | case2 a => simp [encode, symbol_mem]
  | case3 a b => simp [encode, symbol_mem]
  | case4 a b c rest ih => simpa [encode, symbol_mem] using ih

theorem ascii_encode (octets : List UInt8) : ∀ c ∈ encode octets, c.toNat < 128 := by
  have hall : ('=' :: alphabet).all (fun c => decide (c.toNat < 128)) = true := by decide +kernel
  exact fun c hc => of_decide_eq_true (List.all_eq_true.mp hall c (mem_encode octets c hc))

theorem encode_ne {c : Char} (h : c ∉ '=' :: alphabet) (octets : List UInt8) : c ∉ encode octets :=
  fun hc => h (mem_encode octets c hc)

end BorgManager.Base64
