import Mathlib.Data.Int.Log
import Mathlib.Data.Rat.Floor
import Mathlib.Algebra.Order.Floor.Div
import Mathlib.Tactic.Linarith
import Mathlib.Tactic.Ring
import Mathlib.Tactic.FieldSimp

/-!
# Non-negative binary64 arithmetic

The part of IEEE-754 double arithmetic that integer code falls into when it
converts unsigned integers to floating point, divides or takes remainders, and
converts back.  A finite value is the rational number it denotes; rounding is to
nearest, ties to even, on a 53 bit significand.  The quotients of two 64 bit
integers are far from both ends of the exponent range, so neither overflow to
infinity nor subnormal numbers occur in a rounding, and the exponent is unbounded
here.

The two facts that integer code relies on are that natural numbers below `2 ^ 53`
survive the conversion (`ofNat_eq`), and that the ceiling of a rounded quotient
of two such numbers is the ceiling of the exact quotient (`ceil_round_div`): a quotient
above an integer stays above it after rounding.
-/

namespace SpectrumOffchain.Binary64

/-- The nearest integer, the even one of two equally near ones. -/
def roundHalfEven (q : ℚ) : ℤ :=
  if q - ⌊q⌋ < 1 / 2 then ⌊q⌋
  else if 1 / 2 < q - ⌊q⌋ then ⌊q⌋ + 1
  else if ⌊q⌋ % 2 = 0 then ⌊q⌋ else ⌊q⌋ + 1

/-- The weight of the last of the 53 significant bits of `q`. -/
def ulp (q : ℚ) : ℚ := 2 ^ (Int.log 2 q - 52)

/-- The binary64 number nearest to `q`. -/
def round (q : ℚ) : ℚ := roundHalfEven (q / ulp q) * ulp q

/-- A non-negative binary64 datum. -/
inductive F64 where
  | nan
  | inf
  | fin (value : ℚ)
  deriving DecidableEq

namespace F64

/-- `n as f64`. -/
def ofNat (n : ℕ) : F64 := fin (round n)

/-- `x % y`: exact, and not a number at `y = 0`. -/
def rem : F64 → F64 → F64
  | fin a, fin b => if b = 0 then nan else fin (a - b * ⌊a / b⌋)
  | fin a, inf => fin a
  | _, _ => nan

/-- `x / y`, correctly rounded. -/
def div : F64 → F64 → F64
  | fin a, fin b => if b = 0 then (if a = 0 then nan else inf) else fin (round (a / b))
  | fin _, inf => fin 0
  | inf, fin _ => inf
  | _, _ => nan

/-- `x.ceil()`. -/
def ceil : F64 → F64
  | fin a => fin ⌈a⌉
  | x => x

/-- `x <= y`, false as soon as one side is not a number. -/
def le : F64 → F64 → Bool
  | fin a, fin b => decide (a ≤ b)
  | fin _, inf => true
  | inf, inf => true
  | _, _ => false

/-- `x as u32`: truncates, saturates, and sends what is not a number to zero. -/
def toU32 : F64 → ℕ
  | nan => 0
  | inf => 2 ^ 32 - 1
  | fin a => min ⌊a⌋₊ (2 ^ 32 - 1)

end F64

/-! ## Rounding to an integer -/

theorem roundHalfEven_intCast (n : ℤ) : roundHalfEven n = n := by
  simp [roundHalfEven]

theorem roundHalfEven_le {q : ℚ} {n : ℤ} (h : q ≤ n) : roundHalfEven q ≤ n := by
  have hfloor : ⌊q⌋ ≤ n := by exact_mod_cast (Int.floor_le q).trans h
  rcases hfloor.lt_or_eq with hlt | heq
  · unfold roundHalfEven
    split_ifs <;> omega
  · have hq : q - ⌊q⌋ < 1 / 2 := by
      rw [heq]
      linarith
    rw [roundHalfEven, if_pos hq, heq]

theorem le_roundHalfEven {q : ℚ} {n : ℤ} (h : (n : ℚ) ≤ q) : n ≤ roundHalfEven q := by
  have hfloor : n ≤ ⌊q⌋ := Int.le_floor.mpr h
  unfold roundHalfEven
  split_ifs <;> omega

/-- What lies more than half a unit above an integer is rounded above it. -/
theorem lt_roundHalfEven {q : ℚ} {n : ℤ} (h : (n : ℚ) + 1 / 2 < q) : n < roundHalfEven q := by
  have hfloor : n ≤ ⌊q⌋ := Int.le_floor.mpr (by linarith)
  rcases hfloor.lt_or_eq with hlt | heq
  · unfold roundHalfEven
    split_ifs <;> omega
  · have hq : 1 / 2 < q - ⌊q⌋ := by
      rw [← heq]
      linarith
    simp only [roundHalfEven, if_neg (not_lt.mpr hq.le), if_pos hq]
    omega

/-- Half a unit above an even integer is rounded down to it. -/
theorem roundHalfEven_le_two_mul_iff {q : ℚ} {m : ℤ} :
    roundHalfEven q ≤ 2 * m ↔ q ≤ 2 * m + 1 / 2 := by
  constructor
  · intro h
    by_contra hlt
    have habove : ((2 * m : ℤ) : ℚ) + 1 / 2 < q := by
      push_cast
      exact not_le.mp hlt
    exact absurd (lt_roundHalfEven habove) (not_lt.mpr h)
  · intro h
    have hfloor : ⌊q⌋ < 2 * m + 1 := by
      rw [Int.floor_lt]
      push_cast
      linarith
    rcases (Int.lt_add_one_iff.mp hfloor).lt_or_eq with hlt | heq
    · unfold roundHalfEven
      split_ifs <;> omega
    · have hhalf : ¬ 1 / 2 < q - ⌊q⌋ := by
        rw [heq]
        push_cast
        linarith
      unfold roundHalfEven
      rw [if_neg hhalf]
      split_ifs <;> omega

/-! ## Rounding to 53 bits -/

theorem ulp_pos (q : ℚ) : 0 < ulp q :=
  zpow_pos two_pos _

/-- The significand of a positive number has its leading bit in place 52. -/
theorem two_pow_le_div_ulp {q : ℚ} (hq : 0 < q) : (2 : ℚ) ^ 52 ≤ q / ulp q := by
  have hlog := Int.zpow_log_le_self (b := 2) Nat.one_lt_two hq
  rw [le_div_iff₀ (ulp_pos q), ulp, ← zpow_natCast, ← zpow_add₀ two_ne_zero]
  simpa using hlog

theorem round_pos {q : ℚ} (hq : 0 < q) : 0 < round q := by
  have hsig : (1 : ℤ) ≤ roundHalfEven (q / ulp q) :=
    le_roundHalfEven (le_trans (by norm_num) (two_pow_le_div_ulp hq))
  exact mul_pos (by exact_mod_cast hsig) (ulp_pos q)

/-- Below `2 ^ 53` the last place of a number weighs one or an inverse power of two, so
every integer is a whole number of them. -/
theorem exists_mul_ulp {q : ℚ} (hq : 0 < q) (hlt : q < 2 ^ 53) (n : ℤ) :
    ∃ m : ℤ, (n : ℚ) / ulp q = m := by
  have hlog : Int.log 2 q < 53 := by
    have h := (Int.lt_zpow_iff_log_lt (b := 2) Nat.one_lt_two hq (x := 53)).mp
      (by exact_mod_cast hlt)
    exact h
  obtain ⟨k, hk⟩ : ∃ k : ℕ, 52 - Int.log 2 q = k := ⟨(52 - Int.log 2 q).toNat, by omega⟩
  refine ⟨n * 2 ^ k, ?_⟩
  rw [ulp, show Int.log 2 q - 52 = -(k : ℤ) by omega, zpow_neg, div_inv_eq_mul, zpow_natCast]
  push_cast
  rfl

theorem round_natCast {n : ℕ} (h : n < 2 ^ 53) : round n = n := by
  rcases Nat.eq_zero_or_pos n with rfl | hpos
  · simp [round, roundHalfEven]
  · have hq : (0 : ℚ) < n := by exact_mod_cast hpos
    obtain ⟨m, hm⟩ := exists_mul_ulp hq (by exact_mod_cast h) n
    have hm' : (n : ℚ) / ulp n = m := by exact_mod_cast hm
    rw [round, hm', roundHalfEven_intCast, ← hm', div_mul_cancel₀ _ (ulp_pos _).ne']

/-- Rounding does not move a number below `2 ^ 53` past an integer. -/
theorem round_le_intCast {q : ℚ} (hq : 0 < q) (hlt : q < 2 ^ 53) {n : ℤ} (h : q ≤ n) :
    round q ≤ n := by
  obtain ⟨m, hm⟩ := exists_mul_ulp hq hlt n
  have hle : q / ulp q ≤ m := by
    rw [← hm]
    exact (div_le_div_iff_of_pos_right (ulp_pos q)).mpr h
  have hround : (roundHalfEven (q / ulp q) : ℚ) ≤ m := by exact_mod_cast roundHalfEven_le hle
  calc round q ≤ m * ulp q := mul_le_mul_of_nonneg_right hround (ulp_pos q).le
    _ = n := by rw [← hm, div_mul_cancel₀ _ (ulp_pos q).ne']

/-- A number further above an integer than half its last place stays above it. -/
theorem intCast_lt_round {q : ℚ} (hq : 0 < q) (hlt : q < 2 ^ 53) {n : ℤ}
    (h : (n : ℚ) + ulp q / 2 < q) : (n : ℚ) < round q := by
  obtain ⟨m, hm⟩ := exists_mul_ulp hq hlt n
  have hpos := ulp_pos q
  have hhalf : (m : ℚ) + 1 / 2 < q / ulp q := by
    rw [← hm, lt_div_iff₀ hpos, add_mul, div_mul_cancel₀ _ hpos.ne']
    linarith
  have hround : (m : ℚ) < roundHalfEven (q / ulp q) := by
    exact_mod_cast lt_roundHalfEven hhalf
  calc (n : ℚ) = m * ulp q := by rw [← hm, div_mul_cancel₀ _ hpos.ne']
    _ < round q := mul_lt_mul_of_pos_right hround hpos

/-- Rounding does not move a number below its leading bit. -/
theorem zpow_log_le_round {q : ℚ} (hq : 0 < q) : (2 : ℚ) ^ Int.log 2 q ≤ round q := by
  have hsig : (2 : ℤ) ^ 52 ≤ roundHalfEven (q / ulp q) :=
    le_roundHalfEven (by exact_mod_cast two_pow_le_div_ulp hq)
  calc (2 : ℚ) ^ Int.log 2 q = 2 ^ 52 * ulp q := by
        rw [ulp, ← zpow_natCast, ← zpow_add₀ two_ne_zero]
        congr 1
        omega
    _ ≤ round q := mul_le_mul_of_nonneg_right (by exact_mod_cast hsig) (ulp_pos q).le

/-- What is rounded to an integer or below: the last place of the integer is even, so that half of
its weight is still rounded down. -/
theorem round_le_natCast_iff {q : ℚ} (hq : 0 < q) {n : ℕ} (hn : 0 < n) (hlt : n < 2 ^ 52) :
    round q ≤ n ↔ q ≤ n + ulp n / 2 := by
  have hn' : (0 : ℚ) < n := by exact_mod_cast hn
  have hlog : Int.log 2 (n : ℚ) < 52 :=
    (Int.lt_zpow_iff_log_lt (b := 2) Nat.one_lt_two hn' (x := 52)).mp (by exact_mod_cast hlt)
  have hlog0 : 0 ≤ Int.log 2 (n : ℚ) := by
    rw [Int.log_natCast]
    exact Int.natCast_nonneg _
  have hulp : ulp (n : ℚ) ≤ 1 := zpow_le_one_of_nonpos₀ one_le_two (by omega)
  have hpos := ulp_pos (n : ℚ)
  -- only within one binade does rounding matter; below it and above it both sides are clear
  rcases lt_trichotomy (Int.log 2 q) (Int.log 2 (n : ℚ)) with hless | hsame | hmore
  · have hbelow : q < n := by
      have h := (Int.lt_zpow_iff_log_lt (b := 2) Nat.one_lt_two hq).mpr hless
      exact h.trans_le (by exact_mod_cast Int.zpow_log_le_self (b := 2) Nat.one_lt_two hn')
    refine iff_of_true ?_ (by linarith)
    have hround : round q ≤ ((n : ℤ) : ℚ) := by
      refine round_le_intCast hq (hbelow.trans ?_) (by exact_mod_cast hbelow.le)
      exact_mod_cast hlt.trans (by norm_num)
    exact_mod_cast hround
  · -- `n` is an even multiple of its unit in the last place, so that ties go down to it
    obtain ⟨m, hm⟩ : ∃ m : ℤ, (n : ℚ) = 2 * m * ulp n := by
      obtain ⟨k, hk⟩ : ∃ k : ℕ, 51 - Int.log 2 (n : ℚ) = k :=
        ⟨_, (Int.toNat_of_nonneg (by omega)).symm⟩
      refine ⟨n * 2 ^ k, ?_⟩
      rw [ulp, show Int.log 2 (n : ℚ) - 52 = -((k + 1 : ℕ) : ℤ) by omega, zpow_neg, zpow_natCast]
      push_cast
      field_simp
      ring
    have hq' : ulp q = ulp n := by rw [ulp, hsame, ulp]
    rw [round, hq']
    generalize ulp (n : ℚ) = u at *
    have hleft : (roundHalfEven (q / u) : ℚ) * u ≤ n ↔ roundHalfEven (q / u) ≤ 2 * m := by
      rw [hm, mul_le_mul_iff_left₀ hpos]
      exact_mod_cast Iff.rfl
    have hright : q ≤ n + u / 2 ↔ q / u ≤ 2 * m + 1 / 2 := by
      rw [div_le_iff₀ hpos, hm, add_mul, one_div_mul_eq_div]
    rw [hleft, hright]
    exact roundHalfEven_le_two_mul_iff
  · obtain ⟨k, hk⟩ : ∃ k : ℕ, Int.log 2 (n : ℚ) = k := ⟨_, (Int.toNat_of_nonneg hlog0).symm⟩
    have hnext : (n : ℚ) + 1 ≤ 2 ^ (k + 1) := by
      have h := Int.lt_zpow_succ_log_self (b := 2) Nat.one_lt_two (n : ℚ)
      rw [hk] at h
      have hnat : n < 2 ^ (k + 1) := by exact_mod_cast h
      exact_mod_cast hnat
    have hpow : (2 : ℚ) ^ (k + 1) ≤ 2 ^ Int.log 2 q := by
      rw [← zpow_natCast]
      exact zpow_le_zpow_right₀ one_le_two (by omega)
    have hround := zpow_log_le_round hq
    have hself : (2 : ℚ) ^ Int.log 2 q ≤ q := by
      exact_mod_cast Int.zpow_log_le_self (b := 2) Nat.one_lt_two hq
    refine iff_of_false ?_ ?_ <;> intro h <;> linarith

/-! ## Integers below `2 ^ 53` -/

namespace F64

theorem ofNat_eq {n : ℕ} (h : n < 2 ^ 53) : ofNat n = fin n := by
  rw [ofNat, round_natCast h]

theorem rem_natCast (a : ℕ) {b : ℕ} (hb : b ≠ 0) : rem (fin a) (fin b) = fin (a % b : ℕ) := by
  have hb' : (b : ℚ) ≠ 0 := by exact_mod_cast hb
  rw [rem, if_neg hb', Rat.floor_natCast_div_natCast]
  congr 1
  have hdiv : (b : ℚ) * ((a / b : ℕ) : ℚ) + ((a % b : ℕ) : ℚ) = a := by
    exact_mod_cast Nat.div_add_mod a b
  rw [← Int.natCast_ediv, Int.cast_natCast]
  linarith

@[simp] theorem le_natCast (a b : ℕ) : le (fin a) (fin b) = decide (a ≤ b) := by
  simp [le]

/-- The ceiling of a rounded quotient is the ceiling of the quotient: it is at least
`1 / b` above the integer below it, and rounding moves it by less. -/
theorem ceil_round_div {a b : ℕ} (ha : a < 2 ^ 53) (hb : 0 < b) :
    ⌈round ((a : ℚ) / b)⌉ = ((a ⌈/⌉ b : ℕ) : ℤ) := by
  rcases Nat.eq_zero_or_pos a with rfl | hpos
  · simp [round, roundHalfEven]
  set c := a ⌈/⌉ b with hc
  set q := (a : ℚ) / b with hqdef
  have hbq : (0 : ℚ) < b := by exact_mod_cast hb
  have hqb : q * b = a := div_mul_cancel₀ _ hbq.ne'
  have hq : 0 < q := div_pos (by exact_mod_cast hpos) hbq
  have hlt : q < 2 ^ 53 :=
    (div_le_self (Nat.cast_nonneg a) (by exact_mod_cast hb)).trans_lt (by exact_mod_cast ha)
  have habove : q ≤ (c : ℤ) := by
    rw [hqdef, div_le_iff₀ hbq, mul_comm]
    exact_mod_cast (ceilDiv_le_iff_le_mul hb).mp hc.ge
  have hbelow : (b : ℚ) * ((c : ℤ) - 1 : ℤ) + 1 ≤ a := by
    have hcpos : 0 < c := by
      by_contra h0
      have : a ≤ b * 0 := (ceilDiv_le_iff_le_mul hb).mp (by omega)
      omega
    have hnot : ¬ a ≤ b * (c - 1) := fun h => by
      have := (ceilDiv_le_iff_le_mul hb).mpr h
      omega
    rw [show ((c : ℤ) - 1 : ℤ) = ((c - 1 : ℕ) : ℤ) by omega]
    exact_mod_cast not_le.mp hnot
  have hulp : ulp q * b < 2 := by
    have h := (le_div_iff₀ (ulp_pos q)).mp (two_pow_le_div_ulp hq)
    have ha' : (a : ℚ) < 2 ^ 53 := by exact_mod_cast ha
    nlinarith [mul_le_mul_of_nonneg_right h hbq.le]
  refine Int.ceil_eq_iff.mpr ⟨?_, round_le_intCast hq hlt habove⟩
  have hgap : (((c : ℤ) - 1 : ℤ) : ℚ) + ulp q / 2 < q := by
    rw [← mul_lt_mul_iff_left₀ hbq]
    nlinarith
  exact_mod_cast intCast_lt_round hq hlt hgap

/-- `(a as f64 / b as f64).ceil() as u32` is the ceiling division of `a` by `b`. -/
theorem toU32_ceil_div {a b : ℕ} (ha : a < 2 ^ 53) (hb : 0 < b) (hb' : b < 2 ^ 53)
    (hfit : a ⌈/⌉ b < 2 ^ 32) :
    (ceil (div (ofNat a) (ofNat b))).toU32 = a ⌈/⌉ b := by
  have hb0 : (b : ℚ) ≠ 0 := by exact_mod_cast hb.ne'
  rw [ofNat_eq ha, ofNat_eq hb', div, if_neg hb0, ceil, ceil_round_div ha hb, toU32]
  simp only [Int.cast_natCast, Nat.floor_natCast]
  omega

/-! ## Quotients of any integers -/

theorem round_zero : round 0 = 0 := by
  simp [round, roundHalfEven]

/-- `(a as f64 / b as f64).ceil() as u32` of two positive integers. -/
theorem toU32_ceil_div_of_pos {a b : ℕ} (ha : 0 < a) (hb : 0 < b) :
    (ceil (div (ofNat a) (ofNat b))).toU32 =
      min ⌈round (round a / round b)⌉₊ (2 ^ 32 - 1) ∧ 0 < round a / round b := by
  have hx : 0 < round a := round_pos (by exact_mod_cast ha)
  have hy : 0 < round b := round_pos (by exact_mod_cast hb)
  have hq : 0 < round a / round b := div_pos hx hy
  refine ⟨?_, hq⟩
  rw [ofNat, ofNat, div, if_neg hy.ne', ceil, toU32]
  congr 1

/-- A quotient by zero is infinite and saturates. -/
theorem toU32_ceil_div_zero {a : ℕ} (ha : 0 < a) :
    (ceil (div (ofNat a) (ofNat 0))).toU32 = 2 ^ 32 - 1 := by
  have hx : round a ≠ 0 := (round_pos (by exact_mod_cast ha)).ne'
  have hinf : div (ofNat a) (ofNat 0) = inf := by
    rw [ofNat, ofNat, Nat.cast_zero, round_zero, div, if_pos rfl, if_neg hx]
  rw [hinf]
  rfl

/-- It vanishes only if the dividend does. -/
theorem toU32_ceil_div_eq_zero_iff {a b : ℕ} :
    (ceil (div (ofNat a) (ofNat b))).toU32 = 0 ↔ a = 0 := by
  rcases Nat.eq_zero_or_pos a with rfl | ha
  · refine iff_of_true ?_ rfl
    rw [ofNat, Nat.cast_zero, round_zero, ofNat, div]
    split_ifs with hb hzero
    · rfl
    · exact absurd rfl hzero
    · simp [ceil, toU32, round_zero]
  · refine iff_of_false ?_ ha.ne'
    rcases Nat.eq_zero_or_pos b with rfl | hb
    · rw [toU32_ceil_div_zero ha]
      decide
    · obtain ⟨heq, hq⟩ := toU32_ceil_div_of_pos ha hb
      have hceil : 0 < ⌈round (round a / round b)⌉₊ := Nat.ceil_pos.mpr (round_pos hq)
      omega

/-- When the rounded quotient is at most an integer. -/
theorem toU32_ceil_div_le_iff {a b n : ℕ} (hn : 0 < n) (hlt : n < 2 ^ 32) :
    (ceil (div (ofNat a) (ofNat b))).toU32 ≤ n ↔
      a = 0 ∨ n = 2 ^ 32 - 1 ∨ b ≠ 0 ∧ round a ≤ (n + ulp n / 2) * round b := by
  rcases Nat.eq_zero_or_pos a with rfl | ha
  · refine iff_of_true ?_ (.inl rfl)
    rw [toU32_ceil_div_eq_zero_iff.mpr rfl]
    exact Nat.zero_le n
  · rw [or_iff_right ha.ne']
    rcases Nat.eq_zero_or_pos b with rfl | hb
    · rw [toU32_ceil_div_zero ha]
      simp only [ne_eq, not_true_eq_false, false_and, or_false]
      omega
    · obtain ⟨heq, hq⟩ := toU32_ceil_div_of_pos ha hb
      have hy : 0 < round b := round_pos (by exact_mod_cast hb)
      rw [heq, and_iff_right hb.ne', ← div_le_iff₀ hy,
        ← round_le_natCast_iff hq hn (hlt.trans (by norm_num)), ← Nat.ceil_le]
      omega

end F64

end SpectrumOffchain.Binary64
