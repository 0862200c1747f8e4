import Mathlib.Algebra.Order.Floor.Div
import Mathlib.Tactic.Ring
import Mathlib.Tactic.Linarith

/-!
# Paying a sum in instalments, up to a tolerance

A sum is paid out in `N` equal instalments of `a`.  Nothing records which
instalment is being paid: what is left of the sum, `b`, has to tell.  Because of
rounding an instalment counts as paid as soon as what is left exceeds a multiple
of `a` by at most a tolerance `m`, so

  `due a m b = ⌈(b - m) / a⌉`

instalments are outstanding (`due_le_iff`).  Code tends to write this as a case
distinction on the remainder, quotient if it is within the tolerance and quotient
plus one otherwise; `due_eq` says the two agree when the tolerance is below the
instalment.
-/

namespace SpectrumOffchain.Instalments

variable {a m b k : ℕ}

/-- The number of instalments of `a` outstanding when `b` is left, up to a tolerance of `m`. -/
def due (a m b : ℕ) : ℕ := (b - m) ⌈/⌉ a

theorem due_le_iff (ha : 0 < a) : due a m b ≤ k ↔ b ≤ a * k + m := by
  rw [due, ceilDiv_le_iff_le_mul ha]
  omega

theorem lt_due_iff (ha : 0 < a) : k < due a m b ↔ a * k + m < b := by
  rw [← not_le, due_le_iff ha, not_le]

/-- The more is paid, the fewer instalments are outstanding. -/
theorem due_mono (ha : 0 < a) {b' : ℕ} (h : b ≤ b') : due a m b ≤ due a m b' :=
  (due_le_iff ha).mpr (h.trans ((due_le_iff ha).mp le_rfl))

theorem due_eq (hm : m < a) :
    due a m b = if b % a ≤ m then b / a else b / a + 1 := by
  have ha : 0 < a := by omega
  have hdiv : a * (b / a) + b % a = b := Nat.div_add_mod b a
  have hmod : b % a < a := Nat.mod_lt b ha
  split_ifs with h
  · refine le_antisymm ((due_le_iff ha).mpr (by omega)) ?_
    rcases Nat.eq_zero_or_pos (b / a) with h0 | hpos
    · omega
    · have hlt : b / a - 1 < due a m b := by
        rw [lt_due_iff ha, Nat.mul_sub_one]
        have : a ≤ a * (b / a) := Nat.le_mul_of_pos_right a hpos
        omega
      omega
  · refine le_antisymm ((due_le_iff ha).mpr (by rw [Nat.mul_add_one]; omega)) ?_
    exact (lt_due_iff ha).mpr (by omega)

/-- An instalment is being paid: what is left is strictly between two marks. -/
theorem unfinished_iff (hm : m < a) :
    ¬ b % a ≤ m ∧ due a m b = k + 1 ↔ a * k + m < b ∧ b < a * (k + 1) := by
  have ha : 0 < a := by omega
  have hdiv : a * (b / a) + b % a = b := Nat.div_add_mod b a
  have hmod : b % a < a := Nat.mod_lt b ha
  constructor
  · rintro ⟨hrem, hdue⟩
    rw [due_eq hm, if_neg hrem, Nat.add_right_cancel_iff] at hdue
    subst hdue
    rw [Nat.mul_add_one]
    omega
  · rintro ⟨hlow, hhigh⟩
    have hquot : b / a = k := Nat.div_eq_of_lt_le (by rw [mul_comm]; omega) (by rwa [mul_comm])
    rw [hquot] at hdiv
    have hrem : ¬ b % a ≤ m := by omega
    exact ⟨hrem, by rw [due_eq hm, if_neg hrem, hquot]⟩

/-- The instalments above the `k`-th are paid, and what is left is within the tolerance of it. -/
theorem finished_iff (hm : m < a) :
    b % a ≤ m ∧ due a m b = k ↔ a * k ≤ b ∧ b ≤ a * k + m := by
  have ha : 0 < a := by omega
  have hdiv : a * (b / a) + b % a = b := Nat.div_add_mod b a
  constructor
  · rintro ⟨hrem, hdue⟩
    rw [due_eq hm, if_pos hrem] at hdue
    subst hdue
    omega
  · rintro ⟨hlow, hhigh⟩
    have hquot : b / a = k :=
      Nat.div_eq_of_lt_le (by rw [mul_comm]; exact hlow)
        (by rw [Nat.add_one_mul, mul_comm]; omega)
    rw [hquot] at hdiv
    have hrem : b % a ≤ m := by omega
    exact ⟨hrem, by rw [due_eq hm, if_pos hrem, hquot]⟩

/-! ## The part of the sum set aside for the later instalments -/

variable {B N : ℕ}

/-- What is set aside for `k` of `N` instalments of `B` is at least `k` whole instalments. -/
theorem mul_le_reserve (hN : 0 < N) : B / N * k ≤ B * k / N := by
  rw [Nat.le_div_iff_mul_le hN]
  calc B / N * k * N = B / N * N * k := by ring
    _ ≤ B * k := Nat.mul_le_mul_right k (Nat.div_mul_le_self B N)

/-- It exceeds them by less than one unit for each instalment. -/
theorem reserve_lt (hN : 0 < N) (hk : k ≤ N) : B * k / N < B / N * k + N := by
  rw [Nat.div_lt_iff_lt_mul hN]
  have hdiv : B / N * N + B % N = B := by rw [mul_comm]; exact Nat.div_add_mod B N
  have hrem : B % N * k ≤ (N - 1) * N :=
    Nat.mul_le_mul (Nat.le_sub_one_of_lt (Nat.mod_lt B hN)) hk
  have hlast : (N - 1) * N < N * N := Nat.mul_lt_mul_of_pos_right (by omega) hN
  calc B * k = B / N * k * N + B % N * k := by
        nth_rewrite 1 [← hdiv]
        ring
    _ < (B / N * k + N) * N := by
        rw [Nat.add_mul]
        omega

/-- While the instalment after the `k`-th is outstanding, more is left than what is set
aside for the `k` later ones. -/
theorem reserve_lt_of_lt_due (hN : 0 < N) (hk : k ≤ N) (hNm : N ≤ m) (ha : 0 < B / N)
    (hdue : k < due (B / N) m b) : B * k / N < b := by
  have hreserve := reserve_lt (B := B) hN hk
  have hleft := (lt_due_iff ha).mp hdue
  omega

/-- Only `N` instalments are ever outstanding. -/
theorem due_le_of_le (hN : 0 < N) (hNm : N ≤ m) (ha : 0 < B / N) (hb : b ≤ B) :
    due (B / N) m b ≤ N := by
  rw [due_le_iff ha]
  have hdiv : B / N * N + B % N = B := by rw [mul_comm]; exact Nat.div_add_mod B N
  have := Nat.mod_lt B hN
  omega

end SpectrumOffchain.Instalments
