import Mathlib.Data.List.Flatten
import Mathlib.Data.Option.Basic
import Mathlib.Tactic.Common

/-!
# Bytes as hexadecimal digits

A byte is written as two digits, in ASCII and in lower case, the high half first.  Digits are read
in either case, and what was written is read back (`decode_encode`).  The strings of digits are
ordered as the bytes are (`encode_lt_encode_iff`).
-/

namespace SpectrumOffchain.Hex

/-- The digit of a number below 16. -/
def digit (n : ℕ) : UInt8 := if n < 10 then .ofNat (48 + n) else .ofNat (87 + n)

/-- The number of a digit. -/
def ofDigit (c : UInt8) : Option ℕ :=
  if 48 ≤ c ∧ c ≤ 57 then some (c.toNat - 48)
  else if 97 ≤ c ∧ c ≤ 102 then some (c.toNat - 87)
  else if 65 ≤ c ∧ c ≤ 70 then some (c.toNat - 55)
  else none

def encode (bytes : List UInt8) : List UInt8 :=
  bytes.flatMap fun b => [digit (b.toNat / 16), digit (b.toNat % 16)]

def decode : List UInt8 → Option (List UInt8)
  | [] => some []
  | [_] => none
  | high :: low :: rest => do
      let high ← ofDigit high
      let low ← ofDigit low
      let bytes ← decode rest
      some (.ofNat (16 * high + low) :: bytes)

theorem ofDigit_digit {n : ℕ} (h : n < 16) : ofDigit (digit n) = some n := by
  have hdigits : ∀ m : Fin 16, ofDigit (digit m) = some m.val := by decide
  exact hdigits ⟨n, h⟩

theorem encode_cons (b : UInt8) (bytes : List UInt8) :
    encode (b :: bytes) = digit (b.toNat / 16) :: digit (b.toNat % 16) :: encode bytes := rfl

@[simp] theorem length_encode (bytes : List UInt8) : (encode bytes).length = 2 * bytes.length := by
  induction bytes with
  | nil => rfl
  | cons b bytes ih =>
      rw [encode_cons, List.length_cons, List.length_cons, List.length_cons, ih]
      omega

theorem decode_encode (bytes : List UInt8) : decode (encode bytes) = some bytes := by
  induction bytes with
  | nil => rfl
  | cons b bytes ih =>
      have hhigh : b.toNat / 16 < 16 := Nat.div_lt_of_lt_mul b.toNat_lt
      have hlow : b.toNat % 16 < 16 := Nat.mod_lt _ (by decide)
      have hbyte : 16 * (b.toNat / 16) + b.toNat % 16 = b.toNat := Nat.div_add_mod _ _
      rw [encode_cons, decode, ofDigit_digit hhigh, ofDigit_digit hlow, ih]
      show some (UInt8.ofNat (16 * (b.toNat / 16) + b.toNat % 16) :: bytes) = _
      rw [hbyte, UInt8.ofNat_toNat]

/-! ## Order -/

theorem digit_lt_digit_iff {m n : ℕ} (hm : m < 16) (hn : n < 16) :
    digit m < digit n ↔ m < n := by
  have hdigits : ∀ m n : Fin 16, digit m < digit n ↔ m < n := by decide
  exact hdigits ⟨m, hm⟩ ⟨n, hn⟩

theorem digit_injective {m n : ℕ} (hm : m < 16) (hn : n < 16) (h : digit m = digit n) : m = n := by
  have hread := congrArg ofDigit h
  rw [ofDigit_digit hm, ofDigit_digit hn] at hread
  exact Option.some.inj hread

theorem encode_lt_encode_iff {xs ys : List UInt8} : encode xs < encode ys ↔ xs < ys := by
  induction xs generalizing ys with
  | nil => cases ys <;> simp [encode]
  | cons x xs ih =>
      cases ys with
      | nil => simp [encode]
      | cons y ys =>
          have hx : x.toNat / 16 < 16 := Nat.div_lt_of_lt_mul x.toNat_lt
          have hy : y.toNat / 16 < 16 := Nat.div_lt_of_lt_mul y.toNat_lt
          have hx' : x.toNat % 16 < 16 := Nat.mod_lt _ (by decide)
          have hy' : y.toNat % 16 < 16 := Nat.mod_lt _ (by decide)
          have hhigh : digit (x.toNat / 16) = digit (y.toNat / 16) ↔
              x.toNat / 16 = y.toNat / 16 := ⟨digit_injective hx hy, congrArg digit⟩
          have hlow : digit (x.toNat % 16) = digit (y.toNat % 16) ↔
              x.toNat % 16 = y.toNat % 16 := ⟨digit_injective hx' hy', congrArg digit⟩
          rw [encode_cons, encode_cons, List.cons_lt_cons_iff, List.cons_lt_cons_iff,
            List.cons_lt_cons_iff, ih, digit_lt_digit_iff hx hy, digit_lt_digit_iff hx' hy', hhigh,
            hlow, UInt8.lt_iff_toNat_lt, ← UInt8.toNat_inj]
          -- a byte is compared by its high half first
          have hsplit : (x.toNat < y.toNat ↔ x.toNat / 16 < y.toNat / 16 ∨
              x.toNat / 16 = y.toNat / 16 ∧ x.toNat % 16 < y.toNat % 16) := by omega
          have heq : (x.toNat = y.toNat ↔ x.toNat / 16 = y.toNat / 16 ∧
              x.toNat % 16 = y.toNat % 16) := by omega
          rw [hsplit, heq]
          tauto

end SpectrumOffchain.Hex
