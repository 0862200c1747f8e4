import SpectrumOffchain.Domain
import SpectrumOffchain.Lib.Binary64
import SpectrumOffchain.Lib.Instalments

/-!
# The pool and its epochs

`Pool` of `pool.rs`, and the four ways it tells where the program stands:
`currentEpochIx` from the height of the chain, and `epochCompleted`,
`epochsLeftToProcess` and `compoundingEpochIx` from what is left of the budget.  The
last three see the program as a sum paid in `epoch_num` instalments of `epoch_alloc`
with a tolerance of `max_rounding_error`; `ProgramConfig.epochsDue` is the number
of instalments outstanding in that sense, and as long as the budget is below
`2 ^ 53` all three are read off it.
-/

namespace SpectrumOffchain

open Binary64 Instalments

/-! ## Configuration -/

/-- The parameters of a program, in the range of their machine types. -/
structure ProgramConfig where
  epochLen : ℕ
  epochNum : ℕ
  programStart : ℕ
  redeemBlocksDelta : ℕ
  maxRoundingError : ℕ
  programBudget : TypedAssetAmount .reward
  epochLen_lt : epochLen < 2 ^ 32 := by decide
  epochNum_lt : epochNum < 2 ^ 32 := by decide
  programStart_lt : programStart < 2 ^ 32 := by decide
  redeemBlocksDelta_lt : redeemBlocksDelta < 2 ^ 32 := by decide
  maxRoundingError_lt : maxRoundingError < 2 ^ 64 := by decide
  programBudget_lt : programBudget.amount < 2 ^ 64 := by decide
  deriving DecidableEq, Repr

namespace ProgramConfig

/-- `Vec<i32>::from(conf)`. -/
def toVec (c : ProgramConfig) : List I32 :=
  [.ofNat 32 c.epochLen, .ofNat 32 c.epochNum, .ofNat 32 c.programStart,
    .ofNat 32 c.redeemBlocksDelta]

/-- The bounds on the tolerance that the deploy tool checks, in exact arithmetic. -/
def RoundingErrorBounds (c : ProgramConfig) : Prop :=
  c.epochNum < c.maxRoundingError ∧
    c.maxRoundingError * c.epochNum < c.programBudget.amount / c.epochNum

instance (c : ProgramConfig) : Decidable c.RoundingErrorBounds :=
  inferInstanceAs (Decidable (_ ∧ _))

/-- The instalment of the budget that goes to one epoch. -/
def epochAlloc (c : ProgramConfig) : ℕ := c.programBudget.amount / c.epochNum

/-- The part of the budget set aside for the last `epochsRemain` epochs. -/
def reserved (c : ProgramConfig) (epochsRemain : ℕ) : ℕ :=
  c.programBudget.amount * epochsRemain / c.epochNum

/-- The epochs not yet compounded when `budgetRem` is left. -/
def epochsDue (c : ProgramConfig) (budgetRem : ℕ) : ℕ :=
  due c.epochAlloc c.maxRoundingError budgetRem

end ProgramConfig

/-! ## Errors -/

inductive PermanentError where
  | liqudityMismatch
  | programExhausted
  | orderPoisoned (detail : String)
  | lowValue (expected provided : ℕ)
  deriving DecidableEq, Repr

inductive TemporalError where
  | liquidityMoveBlocked
  deriving DecidableEq, Repr

inductive PoolOperationError where
  | permanent (error : PermanentError)
  | temporal (error : TemporalError)
  deriving DecidableEq, Repr

/-- `Display`. -/
def PermanentError.text : PermanentError → String
  | liqudityMismatch => "LiqudityMismatch"
  | programExhausted => "ProgramExhausted"
  | orderPoisoned detail => "OrderPoisoned: " ++ detail
  | lowValue expected provided =>
      "LowValue(expected: " ++ toString expected ++ ", provided: " ++ toString provided ++ ")"

/-- `Display`. -/
def TemporalError.text : TemporalError → String
  | liquidityMoveBlocked => "LiquidityMoveBlocked"

/-! ## The pool -/

structure Pool where
  poolId : PoolId
  budgetRem : TypedAssetAmount .reward
  reservesLq : TypedAssetAmount .lq
  reservesVlq : TypedAssetAmount .virtLq
  reservesTmp : TypedAssetAmount .tmp
  epochIx : Option ℕ
  conf : ProgramConfig
  ergValue : ℕ
  deriving DecidableEq, Repr

namespace Pool

variable {ε : Type}

def poolNft (self : Pool) : TypedAssetAmount .poolNft := ⟨self.poolId.tokenId, unitValue⟩

def epochAlloc (self : Pool) : Outcome ε ℕ :=
  .checkedDiv self.conf.programBudget.amount self.conf.epochNum

/-- Whether what is left of the budget is a multiple of the instalment, up to the tolerance. -/
def epochCompleted (self : Pool) : Outcome ε Bool := do
  let epochAlloc ← self.epochAlloc
  let rem := F64.rem (F64.ofNat self.budgetRem.amount) (F64.ofNat epochAlloc)
  pure (F64.le rem (F64.ofNat self.conf.maxRoundingError))

def epochsLeftToProcess (self : Pool) : Outcome ε ℕ := do
  let epochAlloc ← self.epochAlloc
  let left := self.budgetRem.amount - self.conf.maxRoundingError
  pure (F64.ceil (F64.div (F64.ofNat left) (F64.ofNat epochAlloc))).toU32

/-- The epoch of the block at `height`, and zero before the program starts. -/
def currentEpochIx (self : Pool) (height : ℕ) : Outcome ε ℕ :=
  let curBlockIx : ℤ := height - self.conf.programStart + 1
  if curBlockIx < 0 then pure 0
  else do
    let curEpochIxRem ← .checkedRem curBlockIx.toNat self.conf.epochLen
    let curEpochIxR ← .checkedDiv curBlockIx.toNat self.conf.epochLen
    if curEpochIxRem = 0 ∧ curEpochIxR = 0 then pure 0
    else if curEpochIxRem > 0 then .checkedAdd 32 (curEpochIxR % 2 ^ 32) 1
    else pure (curEpochIxR % 2 ^ 32)

def numEpochsRemain (self : Pool) (height : ℕ) : Outcome ε ℕ := do
  let currentEpochIx ← self.currentEpochIx height
  pure (self.conf.epochNum - currentEpochIx)

/-- The epoch that `distribute_rewards` is compounding. -/
def compoundingEpochIx (self : Pool) : Outcome ε ℕ := do
  let epochAlloc ← self.epochAlloc
  let completed ← self.epochCompleted
  let last ← .checkedAdd 32 self.conf.epochNum 1
  let quotient ← .checkedDiv self.budgetRem.amount epochAlloc
  let epochIx ← .checkedSub last quotient
  if completed then pure (epochIx % 2 ^ 32)
  else do
    let epochIx ← .checkedSub epochIx 1
    pure (epochIx % 2 ^ 32)

/-- The epochs after `epochIx`. -/
def epochsRemain (self : Pool) (epochIx : ℕ) : ℕ := self.conf.epochNum - epochIx

/-! ## What the epoch functions compute -/

theorem epochAlloc_eq_ok {self : Pool} {epochAlloc : ℕ} :
    (self.epochAlloc : Outcome ε ℕ) = .ok epochAlloc ↔
      self.conf.epochNum ≠ 0 ∧ self.conf.epochAlloc = epochAlloc :=
  Outcome.checkedDiv_eq_ok

theorem epochAlloc_eq {self : Pool} (h : self.conf.epochNum ≠ 0) :
    (self.epochAlloc : Outcome ε ℕ) = .ok self.conf.epochAlloc :=
  epochAlloc_eq_ok.mpr ⟨h, rfl⟩

/-- The flag itself, where it can be computed. -/
def completed (self : Pool) : Bool :=
  F64.le (F64.rem (F64.ofNat self.budgetRem.amount) (F64.ofNat self.conf.epochAlloc))
    (F64.ofNat self.conf.maxRoundingError)

theorem epochCompleted_eq_ok {self : Pool} {b : Bool} :
    (self.epochCompleted : Outcome ε Bool) = .ok b ↔
      self.conf.epochNum ≠ 0 ∧ self.completed = b := by
  by_cases h : self.conf.epochNum = 0
  · simp [epochCompleted, epochAlloc, Outcome.checkedDiv, h]
  · simp [epochCompleted, epochAlloc_eq h, completed, h]

theorem epochCompleted_eq {self : Pool} (h : self.conf.epochNum ≠ 0) :
    (self.epochCompleted : Outcome ε Bool) = .ok self.completed :=
  epochCompleted_eq_ok.mpr ⟨h, rfl⟩

/-- The two cases of the index: the quotient of the budget, or one more while an epoch is
being compounded. -/
theorem compoundingEpochIx_eq_ok {self : Pool} {epochIx : ℕ} :
    (self.compoundingEpochIx : Outcome ε ℕ) = .ok epochIx ↔
      self.conf.epochNum ≠ 0 ∧ self.conf.epochNum + 1 < 2 ^ 32 ∧ self.conf.epochAlloc ≠ 0 ∧
        self.budgetRem.amount / self.conf.epochAlloc + (if self.completed then 0 else 1) + epochIx =
          self.conf.epochNum + 1 := by
  by_cases h : self.conf.epochNum = 0
  · simp [compoundingEpochIx, epochAlloc, Outcome.checkedDiv, h]
  simp only [compoundingEpochIx, epochAlloc_eq h, epochCompleted_eq h, Outcome.ok_bind,
    Outcome.bind_eq_ok, Outcome.checkedAdd_eq_ok, Outcome.checkedDiv_eq_ok,
    Outcome.checkedSub_eq_ok]
  generalize self.budgetRem.amount / self.conf.epochAlloc = quotient
  constructor
  · rintro ⟨_, ⟨hfit, rfl⟩, _, ⟨halloc, rfl⟩, _, ⟨hle, rfl⟩, hbranch⟩
    refine ⟨h, hfit, halloc, ?_⟩
    by_cases hc : self.completed <;>
      simp only [hc, if_true, Bool.false_eq_true, if_false, Outcome.pure_eq, Outcome.ok.injEq,
        Outcome.bind_eq_ok, Outcome.checkedSub_eq_ok] at hbranch ⊢
    · omega
    · obtain ⟨_, ⟨hone, rfl⟩, hmod⟩ := hbranch
      omega
  · rintro ⟨-, hfit, halloc, hsum⟩
    refine ⟨_, ⟨hfit, rfl⟩, _, ⟨halloc, rfl⟩, _, ⟨by omega, rfl⟩, ?_⟩
    by_cases hc : self.completed <;>
      simp only [hc, if_true, Bool.false_eq_true, if_false, Outcome.pure_eq, Outcome.ok.injEq,
        Outcome.bind_eq_ok, Outcome.checkedSub_eq_ok] at hsum ⊢
    · omega
    · exact ⟨_, ⟨by omega, rfl⟩, by omega⟩

/-- Heights only enter through the epoch of their block. -/
theorem numEpochsRemain_eq_ok {self : Pool} {height remain : ℕ} :
    (self.numEpochsRemain height : Outcome ε ℕ) = .ok remain ↔
      ∃ current, (self.currentEpochIx height : Outcome ε ℕ) = .ok current ∧
        self.conf.epochNum - current = remain := by
  simp [numEpochsRemain, Outcome.bind_eq_ok]

theorem currentEpochIx_ne_crash {self : Pool} {height : ℕ} (hheight : height < 2 ^ 32)
    (hlen : self.conf.epochLen ≠ 0) : (self.currentEpochIx height : Outcome ε ℕ) ≠ .crash := by
  simp only [currentEpochIx, Outcome.checkedRem, Outcome.checkedDiv, hlen, if_false,
    Outcome.ok_bind]
  have hblock : ((height : ℤ) - self.conf.programStart + 1).toNat ≤ 2 ^ 32 := by omega
  generalize ((height : ℤ) - self.conf.programStart + 1).toNat = block at hblock ⊢
  split_ifs with hneg hzero hrem
  · simp
  · simp
  · rw [Outcome.checkedAdd_ne_crash]
    -- an epoch of one block leaves no remainder, so there are at most `2 ^ 31` whole epochs
    have hlen2 : 2 ≤ self.conf.epochLen := by
      by_contra hlt
      have hone : self.conf.epochLen = 1 := by omega
      rw [hone, Nat.mod_one] at hrem
      omega
    have hquot : block / self.conf.epochLen ≤ block / 2 := Nat.div_le_div_left hlen2 Nat.two_pos
    generalize block / self.conf.epochLen = quotient at hquot ⊢
    omega
  · simp

theorem numEpochsRemain_ne_crash {self : Pool} {height : ℕ} (hheight : height < 2 ^ 32)
    (hlen : self.conf.epochLen ≠ 0) : (self.numEpochsRemain height : Outcome ε ℕ) ≠ .crash := by
  rw [numEpochsRemain, Outcome.bind_ne_crash]
  exact ⟨currentEpochIx_ne_crash hheight hlen, fun _ _ => by simp⟩

end Pool

/-! ## Exact arithmetic

For a configuration within the bounds of the deploy tool and a budget below `2 ^ 53`
the floating point operations are exact, and the three functions of the budget agree. -/

namespace ProgramConfig.RoundingErrorBounds

variable {c : ProgramConfig} (h : c.RoundingErrorBounds)
include h

theorem epochNum_pos : 0 < c.epochNum := by
  by_contra hzero
  have hlt := h.2
  rw [Nat.eq_zero_of_not_pos hzero, Nat.div_zero] at hlt
  omega

theorem epochNum_ne_zero : c.epochNum ≠ 0 := h.epochNum_pos.ne'

theorem maxRoundingError_lt : c.maxRoundingError < c.epochAlloc :=
  calc c.maxRoundingError ≤ c.maxRoundingError * c.epochNum :=
        Nat.le_mul_of_pos_right _ h.epochNum_pos
    _ < c.epochAlloc := h.2

theorem epochAlloc_pos : 0 < c.epochAlloc := by
  have := h.maxRoundingError_lt
  omega

/-- Each epoch gets more than `epoch_num ^ 2`, so a budget of 64 bits has few epochs. -/
theorem epochNum_lt_two_pow : c.epochNum < 2 ^ 22 := by
  by_contra hge
  have hnum : 2 ^ 22 ≤ c.epochNum := by omega
  have halloc : 2 ^ 22 * 2 ^ 22 ≤ c.epochAlloc :=
    calc 2 ^ 22 * 2 ^ 22 ≤ c.maxRoundingError * c.epochNum :=
          Nat.mul_le_mul (hnum.trans h.1.le) hnum
      _ ≤ c.epochAlloc := h.2.le
  have hbudget : c.epochAlloc * c.epochNum ≤ c.programBudget.amount := Nat.div_mul_le_self _ _
  have : 2 ^ 22 * 2 ^ 22 * 2 ^ 22 ≤ c.epochAlloc * c.epochNum := Nat.mul_le_mul halloc hnum
  have := c.programBudget_lt
  omega

variable {budgetRem : ℕ}

theorem epochsDue_le (hbudget : budgetRem ≤ c.programBudget.amount) :
    c.epochsDue budgetRem ≤ c.epochNum :=
  due_le_of_le h.epochNum_pos h.1.le h.epochAlloc_pos hbudget

theorem epochsDue_mono {budgetRem' : ℕ} (hle : budgetRem ≤ budgetRem') :
    c.epochsDue budgetRem ≤ c.epochsDue budgetRem' :=
  due_mono h.epochAlloc_pos hle

end ProgramConfig.RoundingErrorBounds

namespace Pool

variable {ε : Type} {self : Pool} (hconf : self.conf.RoundingErrorBounds)
  (hbudget : self.budgetRem.amount ≤ self.conf.programBudget.amount)
  (hexact : self.conf.programBudget.amount < 2 ^ 53)
include hconf hbudget hexact

theorem completed_eq : self.completed =
    decide (self.budgetRem.amount % self.conf.epochAlloc ≤ self.conf.maxRoundingError) := by
  have halloc : self.conf.epochAlloc ≤ self.conf.programBudget.amount := Nat.div_le_self _ _
  have hround := hconf.maxRoundingError_lt
  rw [completed, F64.ofNat_eq (by omega), F64.ofNat_eq (by omega), F64.ofNat_eq (by omega),
    F64.rem_natCast _ hconf.epochAlloc_pos.ne', F64.le_natCast]

theorem epochsLeftToProcess_eq :
    (self.epochsLeftToProcess : Outcome ε ℕ) =
      .ok (self.conf.epochsDue self.budgetRem.amount) := by
  have halloc : self.conf.epochAlloc ≤ self.conf.programBudget.amount := Nat.div_le_self _ _
  have hdue := hconf.epochsDue_le hbudget
  have hnum := self.conf.epochNum_lt
  rw [epochsLeftToProcess, epochAlloc_eq hconf.epochNum_ne_zero]
  refine congrArg Outcome.ok (F64.toU32_ceil_div (by omega) hconf.epochAlloc_pos (by omega) ?_)
  exact hdue.trans_lt hnum

theorem compoundingEpochIx_eq :
    (self.compoundingEpochIx : Outcome ε ℕ) =
      .ok (self.conf.epochNum + 1 - self.conf.epochsDue self.budgetRem.amount) := by
  have hdue := hconf.epochsDue_le hbudget
  rw [compoundingEpochIx_eq_ok]
  refine ⟨hconf.epochNum_ne_zero, ?_, hconf.epochAlloc_pos.ne', ?_⟩
  · have := hconf.epochNum_lt_two_pow
    omega
  · rw [completed_eq hconf hbudget hexact]
    rw [ProgramConfig.epochsDue, due_eq hconf.maxRoundingError_lt] at hdue ⊢
    split_ifs at hdue ⊢ <;> simp_all <;> omega

end Pool

end SpectrumOffchain
