import Mathlib.Algebra.Group.Nat.Defs
import Mathlib.Algebra.GroupWithZero.Nat
import Mathlib.Data.List.Lex
import Mathlib.Tactic.Common

/-!
# Integers and strings as bytes

`bincode` writes an unsigned integer as a fixed number of bytes, the lowest first, and a string as
its length, an integer of eight bytes, and its text.

Where such bytes are the keys of a database, it compares them lexicographically.  Of two keys whose
first parts have one length the first parts decide, unless they are equal (`append_lt_append_iff`),
and integers are compared by value only with the highest byte first (`reverse_uint_lt_iff`).  A
string that is written is found at the beginning of a key exactly if the key begins with this string
and no other (`str_prefix_iff`), because the length comes before the text.
-/

namespace SpectrumOffchain.Bincode

/-! ## Lexicographic order -/

/-- The first parts are compared first. -/
theorem append_lt_append_iff {α : Type} [LT α] {a b c d : List α} (h : a.length = b.length) :
    a ++ c < b ++ d ↔ a < b ∨ a = b ∧ c < d := by
  induction a generalizing b with
  | nil =>
      obtain rfl := List.length_eq_zero_iff.mp h.symm
      simp
  | cons x a ih =>
      cases b with
      | nil => cases h
      | cons y b =>
          rw [List.cons_append, List.cons_append, List.cons_lt_cons_iff, List.cons_lt_cons_iff,
            ih (Nat.succ.inj h), List.cons.injEq]
          tauto

/-! ## Integers -/

/-- An unsigned integer of `width` bytes, the lowest first. -/
def uint : ℕ → ℕ → List UInt8
  | 0, _ => []
  | width + 1, n => .ofNat n :: uint width (n / 256)

def readUint : List UInt8 → ℕ
  | [] => 0
  | b :: rest => b.toNat + 256 * readUint rest

variable {width n m : ℕ}

@[simp] theorem length_uint (width n : ℕ) : (uint width n).length = width := by
  induction width generalizing n with
  | zero => rfl
  | succ width ih => rw [uint, List.length_cons, ih]

theorem readUint_uint (width n : ℕ) : readUint (uint width n) = n % 256 ^ width := by
  induction width generalizing n with
  | zero =>
      rw [pow_zero, Nat.mod_one]
      rfl
  | succ width ih =>
      have hbyte : (UInt8.ofNat n).toNat = n % 256 := UInt8.toNat_ofNat'
      rw [uint, readUint, ih, hbyte, pow_succ', Nat.mod_mul]

theorem uint_injective (hn : n < 256 ^ width) (hm : m < 256 ^ width)
    (h : uint width n = uint width m) : n = m := by
  have hread := congrArg readUint h
  rwa [readUint_uint, readUint_uint, Nat.mod_eq_of_lt hn, Nat.mod_eq_of_lt hm] at hread

/-- With the highest byte first, integers are compared by value. -/
theorem reverse_uint_lt_iff (hn : n < 256 ^ width) (hm : m < 256 ^ width) :
    (uint width n).reverse < (uint width m).reverse ↔ n < m := by
  induction width generalizing n m with
  | zero =>
      rw [pow_zero] at hn hm
      simp [uint]
      omega
  | succ width ih =>
      rw [pow_succ] at hn hm
      have hlength : (uint width (n / 256)).reverse.length =
          (uint width (m / 256)).reverse.length := by simp
      have hquot : n / 256 < 256 ^ width ∧ m / 256 < 256 ^ width :=
        ⟨Nat.div_lt_of_lt_mul (by omega), Nat.div_lt_of_lt_mul (by omega)⟩
      have heq : (uint width (n / 256)).reverse = (uint width (m / 256)).reverse ↔
          n / 256 = m / 256 := by
        constructor
        · exact fun h => uint_injective hquot.1 hquot.2 (List.reverse_injective h)
        · exact fun h => by rw [h]
      have hbyte : ([.ofNat n] : List UInt8) < [.ofNat m] ↔ n % 256 < m % 256 := by
        rw [List.cons_lt_cons_iff, UInt8.lt_iff_toNat_lt, UInt8.toNat_ofNat', UInt8.toNat_ofNat']
        simp
      rw [uint, uint, List.reverse_cons, List.reverse_cons, append_lt_append_iff hlength,
        ih hquot.1 hquot.2, heq, hbyte]
      omega

/-- Read an integer off the front. -/
def takeUint (width : ℕ) (bytes : List UInt8) : Option (ℕ × List UInt8) :=
  if width ≤ bytes.length then some (readUint (bytes.take width), bytes.drop width) else none

theorem takeUint_append (h : n < 256 ^ width) (rest : List UInt8) :
    takeUint width (uint width n ++ rest) = some (n, rest) := by
  have hlength : (uint width n).length = width := length_uint width n
  have hle : width ≤ (uint width n ++ rest).length := by
    rw [List.length_append, hlength]
    exact Nat.le_add_right _ _
  rw [takeUint, if_pos hle, List.take_left' hlength, List.drop_left' hlength, readUint_uint,
    Nat.mod_eq_of_lt h]

/-! ## Strings -/

/-- The UTF-8 bytes of a string. -/
def text (s : String) : List UInt8 := s.toUTF8.data.toList

def str (s : String) : List UInt8 := uint 8 (text s).length ++ text s

theorem text_injective {s t : String} (h : text s = text t) : s = t := by
  have hdata : s.toUTF8.data = t.toUTF8.data := Array.toList_inj.mp h
  exact String.toByteArray_inj.mp (ByteArray.ext hdata)

/-- A key begins with one string only. -/
theorem str_prefix_iff {s t : String} (hs : (text s).length < 2 ^ 64)
    (ht : (text t).length < 2 ^ 64) {rest : List UInt8} :
    str s <+: str t ++ rest ↔ s = t := by
  constructor
  · rintro ⟨rest', h⟩
    rw [str, str, List.append_assoc, List.append_assoc] at h
    obtain ⟨hlength, htext⟩ := List.append_inj h (by simp)
    have hsize : (text s).length = (text t).length := uint_injective hs ht hlength
    exact text_injective (List.append_inj_left htext hsize)
  · rintro rfl
    exact List.prefix_append _ _

/-! ## Sequences -/

/-- Bytes behind their number. -/
def blob (bytes : List UInt8) : List UInt8 := uint 8 bytes.length ++ bytes

/-- Read bytes behind their number off the front. -/
def takeBlob (bytes : List UInt8) : Option (List UInt8 × List UInt8) := do
  let (size, rest) ← takeUint 8 bytes
  if size ≤ rest.length then some (rest.take size, rest.drop size) else none

theorem takeBlob_append {bytes : List UInt8} (h : bytes.length < 2 ^ 64) (rest : List UInt8) :
    takeBlob (blob bytes ++ rest) = some (bytes, rest) := by
  have hsize : takeUint 8 (blob bytes ++ rest) = some (bytes.length, bytes ++ rest) := by
    rw [blob, List.append_assoc, takeUint_append h]
  simp [takeBlob, hsize]

section Sequences

variable {α : Type} {write : α → List UInt8} {take : List UInt8 → Option (α × List UInt8)}

/-- A vector: its items behind their number. -/
def vec (write : α → List UInt8) (items : List α) : List UInt8 :=
  uint 8 items.length ++ items.flatMap write

/-- Read so many items off the front. -/
def takeItems (take : List UInt8 → Option (α × List UInt8)) :
    ℕ → List UInt8 → Option (List α × List UInt8)
  | 0, bytes => some ([], bytes)
  | n + 1, bytes => do
      let (item, bytes) ← take bytes
      let (items, bytes) ← takeItems take n bytes
      some (item :: items, bytes)

def takeVec (take : List UInt8 → Option (α × List UInt8)) (bytes : List UInt8) :
    Option (List α × List UInt8) := do
  let (size, bytes) ← takeUint 8 bytes
  takeItems take size bytes

theorem takeItems_append (htake : ∀ a rest, take (write a ++ rest) = some (a, rest))
    (items : List α) (rest : List UInt8) :
    takeItems take items.length (items.flatMap write ++ rest) = some (items, rest) := by
  induction items with
  | nil => rfl
  | cons a items ih =>
      rw [List.flatMap_cons, List.append_assoc, List.length_cons, takeItems, htake]
      simp [ih]

theorem takeVec_append (htake : ∀ a rest, take (write a ++ rest) = some (a, rest))
    {items : List α} (h : items.length < 2 ^ 64) (rest : List UInt8) :
    takeVec take (vec write items ++ rest) = some (items, rest) := by
  rw [takeVec, vec, List.append_assoc, takeUint_append h]
  exact takeItems_append htake items rest

end Sequences

end SpectrumOffchain.Bincode
