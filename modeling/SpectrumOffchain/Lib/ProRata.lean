import Mathlib.Algebra.Order.BigOperators.Group.List
import Mathlib.Data.List.Forall2
import Mathlib.Tactic.Ring
import Mathlib.Tactic.Linarith

/-!
# Dividing a pot in proportion to weights, in rounds

A pot of `A` units is divided among claims.  A claim has a weight, what it is paid
for, and a charge, what it takes out of the total `T` of all open claims when it is
settled; a weight never exceeds the charge.  Claims are settled in rounds: within a
round every claim gets `A * weight / T`, rounded down, of the pot and the total at
the start of the round, and the next round starts from what is left of both.

Rounding down leaves units in the pot, and a charge above the weight removes more
from the total than was paid for, so from one round to the next the rate `A / T`
does not drop (`rate_le_rate_after`).  Hence no claim is worse off for coming late
(`share_le_payout`), and the pot is never overdrawn (`sum_payouts_le`).  When charges
equal weights, settling the last open claims leaves less than one unit for each of
them (`lt_sum_share_add_length`), however many rounds came before.
-/

namespace SpectrumOffchain.ProRata

/-- The share of a claim of weight `w` in a pot of `A` for claims of `T` in total. -/
def share (A T w : ℕ) : ℕ := A * w / T

theorem share_mul_le (A T w : ℕ) : share A T w * T ≤ A * w := Nat.div_mul_le_self _ _

theorem sum_share_mul_le (A T : ℕ) (ws : List ℕ) :
    (ws.map (share A T)).sum * T ≤ A * ws.sum := by
  induction ws with
  | nil => simp
  | cons w rest ih =>
      simp only [List.map_cons, List.sum_cons, Nat.add_mul, Nat.mul_add]
      exact Nat.add_le_add (share_mul_le A T w) ih

/-- Claims within the total are covered by the pot. -/
theorem sum_share_le {A T : ℕ} {ws : List ℕ} (h : ws.sum ≤ T) :
    (ws.map (share A T)).sum ≤ A := by
  rcases Nat.eq_zero_or_pos T with rfl | hT
  · have hzero : share A 0 = fun _ => 0 := funext fun w => Nat.div_zero _
    simp [hzero]
  · refine Nat.le_of_mul_le_mul_right ?_ hT
    exact (sum_share_mul_le A T ws).trans (Nat.mul_le_mul_left A h)

/-- A higher rate never gives a smaller share. -/
theorem share_le_share {A T A' T' : ℕ} (hT' : 0 < T') (hrate : A * T' ≤ A' * T) (w : ℕ) :
    share A T w ≤ share A' T' w := by
  rcases Nat.eq_zero_or_pos T with rfl | hT
  · simp [share]
  · rw [share, share, Nat.le_div_iff_mul_le hT']
    refine Nat.le_of_mul_le_mul_right ?_ hT
    calc A * w / T * T' * T = A * w / T * T * T' := by ring
      _ ≤ A * w * T' := Nat.mul_le_mul_right T' (Nat.div_mul_le_self _ _)
      _ = A * T' * w := by ring
      _ ≤ A' * T * w := Nat.mul_le_mul_right w hrate
      _ = A' * w * T := by ring

/-- Every claim of a list loses less than one unit to rounding. -/
theorem mul_sum_lt {A T : ℕ} (hT : 0 < T) {ws : List ℕ} (hne : ws ≠ []) :
    A * ws.sum < ((ws.map (share A T)).sum + ws.length) * T := by
  induction ws with
  | nil => exact absurd rfl hne
  | cons w rest ih =>
      have hw : A * w < (share A T w + 1) * T := by
        rw [mul_comm (share A T w + 1)]
        exact Nat.lt_mul_div_succ _ hT
      rcases eq_or_ne rest [] with rfl | hrest
      · simpa using hw
      · have := ih hrest
        simp only [List.map_cons, List.sum_cons, List.length_cons]
        nlinarith

/-- Settling the last open claims leaves less than one unit a claim. -/
theorem lt_sum_share_add_length {A : ℕ} {ws : List ℕ} (hpos : 0 < ws.sum) :
    A < (ws.map (share A ws.sum)).sum + ws.length := by
  have hne : ws ≠ [] := by
    rintro rfl
    simp at hpos
  exact Nat.lt_of_mul_lt_mul_right (mul_sum_lt hpos hne)

/-! ## Rounds -/

/-- An open claim. -/
structure Claim where
  weight : ℕ
  charge : ℕ
  weight_le : weight ≤ charge

/-- The weights of a round. -/
def weights (round : List Claim) : List ℕ := round.map Claim.weight

/-- What a round takes out of the total. -/
def charges (round : List Claim) : ℕ := (round.map Claim.charge).sum

/-- What the claims of a round are paid, in order. -/
def paid (A T : ℕ) (round : List Claim) : List ℕ := (weights round).map (share A T)

/-- What the claims are paid over all rounds, in order. -/
def payouts (A T : ℕ) : List (List Claim) → List ℕ
  | [] => []
  | round :: rest =>
      paid A T round ++ payouts (A - (paid A T round).sum) (T - charges round) rest

theorem sum_weights_le (round : List Claim) : (weights round).sum ≤ charges round := by
  induction round with
  | nil => simp [weights, charges]
  | cons claim rest ih =>
      simp only [weights, charges, List.map_cons, List.sum_cons] at ih ⊢
      exact Nat.add_le_add claim.weight_le ih

theorem sum_paid_le {A T : ℕ} {round : List Claim} (h : charges round ≤ T) :
    (paid A T round).sum ≤ A :=
  sum_share_le ((sum_weights_le round).trans h)

/-- What is left of the pot is worth at least as much of the total that is left. -/
theorem rate_le_rate_after (A T : ℕ) (round : List Claim) :
    A * (T - charges round) ≤ (A - (paid A T round).sum) * T := by
  rw [Nat.mul_sub, Nat.sub_mul]
  have hpaid := sum_share_mul_le A T (weights round)
  have hcharge := Nat.mul_le_mul_left A (sum_weights_le round)
  unfold paid
  omega

theorem payouts_append (A T : ℕ) (rounds rounds' : List (List Claim)) :
    payouts A T (rounds ++ rounds') = payouts A T rounds ++
      payouts (A - (payouts A T rounds).sum) (T - (rounds.map charges).sum) rounds' := by
  induction rounds generalizing A T with
  | nil => simp [payouts]
  | cons round rest ih =>
      simp only [List.cons_append, payouts, ih, List.append_assoc, List.sum_append, List.map_cons,
        List.sum_cons, Nat.sub_sub]

/-- The rate does not drop over any number of rounds. -/
theorem rate_le_rate_after_rounds (A T : ℕ) (rounds : List (List Claim)) :
    A * (T - (rounds.map charges).sum) ≤ (A - (payouts A T rounds).sum) * T := by
  induction rounds generalizing A T with
  | nil => simp [payouts]
  | cons round rest ih =>
      rcases Nat.eq_zero_or_pos (T - charges round) with hzero | hpos
      · have : T - ((round :: rest).map charges).sum = 0 := by
          simp only [List.map_cons, List.sum_cons]
          omega
        rw [this, Nat.mul_zero]
        exact Nat.zero_le _
      · refine Nat.le_of_mul_le_mul_right ?_ hpos
        have hround := rate_le_rate_after A T round
        have hrest := ih (A - (paid A T round).sum) (T - charges round)
        simp only [payouts, List.sum_append, List.map_cons, List.sum_cons, ← Nat.sub_sub]
        calc A * (T - charges round - (rest.map charges).sum) * (T - charges round)
            = A * (T - charges round) * (T - charges round - (rest.map charges).sum) := by ring
          _ ≤ (A - (paid A T round).sum) * T * (T - charges round - (rest.map charges).sum) :=
              Nat.mul_le_mul_right _ hround
          _ = (A - (paid A T round).sum) * (T - charges round - (rest.map charges).sum) * T := by
              ring
          _ ≤ (A - (paid A T round).sum - (payouts (A - (paid A T round).sum)
                (T - charges round) rest).sum) * (T - charges round) * T :=
              Nat.mul_le_mul_right _ hrest
          _ = _ := by ring

/-- The pot is never overdrawn. -/
theorem sum_payouts_le {A T : ℕ} {rounds : List (List Claim)}
    (h : (rounds.map charges).sum ≤ T) : (payouts A T rounds).sum ≤ A := by
  induction rounds generalizing A T with
  | nil => simp [payouts]
  | cons round rest ih =>
      simp only [List.map_cons, List.sum_cons] at h
      have hround : (paid A T round).sum ≤ A := sum_paid_le (by omega)
      have hrest := ih (A := A - (paid A T round).sum) (T := T - charges round) (by omega)
      simp only [payouts, List.sum_append]
      omega

/-- A claim settled in any round gets at least its share of the pot and total at the start. -/
theorem share_le_payout {A₀ T₀ A T : ℕ} {rounds : List (List Claim)}
    (hpos : ∀ round ∈ rounds, ∀ claim ∈ round, 0 < claim.charge)
    (h : (rounds.map charges).sum ≤ T) (hrate : A₀ * T ≤ A * T₀) :
    List.Forall₂ (fun (claim : Claim) payout => share A₀ T₀ claim.weight ≤ payout)
      rounds.flatten (payouts A T rounds) := by
  induction rounds generalizing A T with
  | nil => exact List.Forall₂.nil
  | cons round rest ih =>
      simp only [List.map_cons, List.sum_cons] at h
      refine List.rel_append ?_ (ih (fun r hr => hpos r (List.mem_cons_of_mem _ hr)) (by omega) ?_)
      · simp only [paid, weights, List.map_map]
        rw [List.forall₂_map_right_iff, List.forall₂_same]
        intro claim hclaim
        have hcharge : claim.charge ≤ charges round :=
          List.single_le_sum (fun _ _ => Nat.zero_le _) _ (List.mem_map_of_mem hclaim)
        have := hpos round (List.mem_cons_self ..) claim hclaim
        exact share_le_share (by omega) hrate _
      · rcases Nat.eq_zero_or_pos T with rfl | hT
        · simp
        · refine Nat.le_of_mul_le_mul_right ?_ hT
          calc A₀ * (T - charges round) * T = A₀ * T * (T - charges round) := by ring
            _ ≤ A * T₀ * (T - charges round) := Nat.mul_le_mul_right _ hrate
            _ = A * (T - charges round) * T₀ := by ring
            _ ≤ (A - (paid A T round).sum) * T * T₀ :=
                Nat.mul_le_mul_right _ (rate_le_rate_after A T round)
            _ = (A - (paid A T round).sum) * T₀ * T := by ring

/-- When charges equal weights and everything is settled, less than one unit for each claim of the
last round is left of the pot. -/
theorem lt_sum_payouts_add_length (A : ℕ) (rounds : List (List Claim)) {last : List Claim}
    (hweight : ∀ claim ∈ last, claim.weight = claim.charge) (hpos : 0 < charges last) :
    A < (payouts A ((rounds ++ [last]).map charges).sum (rounds ++ [last])).sum + last.length := by
  have hsum : (weights last).sum = charges last := by
    rw [weights, charges, List.map_congr_left hweight]
  have hleft : ((rounds ++ [last]).map charges).sum - (rounds.map charges).sum =
      (weights last).sum := by
    simp [hsum]
  rw [payouts_append, List.sum_append, hleft]
  have hlength : (weights last).length = last.length := List.length_map ..
  have hlast := lt_sum_share_add_length
    (A := A - (payouts A ((rounds ++ [last]).map charges).sum rounds).sum) (hsum ▸ hpos)
  rw [hlength] at hlast
  simp only [payouts, paid, List.append_nil] at hlast ⊢
  omega

end SpectrumOffchain.ProRata
