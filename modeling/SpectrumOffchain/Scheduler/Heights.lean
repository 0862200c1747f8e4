import SpectrumOffchain.Data.Operations
import SpectrumOffchain.Scheduler.Repo
import SpectrumOffchain.Staking.Run

/-!
# Heights, epochs and ticks

The pool tells the epoch of a block from its height, and the schedule tells the height at
which an epoch is to be compounded.  Epochs are counted from one and end where the next one
begins, so that the epoch of a height is a quotient that is rounded up
(`ProgramConfig.epochOf`), and an epoch is to be compounded from the first block of the next
one on (`lt_epochOf_iff`).

The pool casts the quotient to 32 bits.  It fits, but for the last height of all in a program
that starts at zero and has epochs of one block: there the pool is back in epoch zero.

## Strategy

Both sides are brought to `epochOf`.  The pool divides floating-point numbers, whose ceiling
is exact below `2 ^ 53`, and the schedule multiplies; `lt_epochOf_iff` is the adjunction
between the two.  What is said of a deposit, of the ticks and of the epoch itself are then
comparisons of natural numbers, and only the cast at the end of the computation of the pool
is left (`Wraps`).
-/

namespace SpectrumOffchain

namespace ProgramConfig

/-- The epoch of the block at a height, and zero before the program starts. -/
def epochOf (c : ProgramConfig) (height : ℕ) : ℕ := (height + 1 - c.programStart) ⌈/⌉ c.epochLen

variable {c : ProgramConfig} {height : ℕ}

/-- An epoch has fully elapsed once the next one has begun. -/
theorem lt_epochOf_iff (hlen : 0 < c.epochLen) {epochIx : ℕ} :
    epochIx < c.epochOf height ↔ c.programStart + epochIx * c.epochLen ≤ height := by
  rw [epochOf, ← not_le, ceilDiv_le_iff_le_mul hlen, Nat.mul_comm]
  omega

theorem epochOf_mono (hlen : 0 < c.epochLen) {height' : ℕ} (h : height' ≤ height) :
    c.epochOf height' ≤ c.epochOf height := by
  refine le_of_forall_lt fun epochIx hlt => ?_
  rw [lt_epochOf_iff hlen] at hlt ⊢
  exact hlt.trans h

/-- The only height whose epoch does not fit into 32 bits. -/
def Wraps (c : ProgramConfig) (height : ℕ) : Prop :=
  c.programStart = 0 ∧ c.epochLen = 1 ∧ height = 2 ^ 32 - 1

instance : Decidable (c.Wraps height) := inferInstanceAs (Decidable (_ ∧ _ ∧ _))

/-- The schedule of a program of which some epochs have been compounded. -/
def schedule (c : ProgramConfig) (poolId : PoolId) (lastCompletedEpochIx : ℕ) : PoolSchedule where
  poolId := poolId
  epochLen := c.epochLen
  epochNum := c.epochNum
  programStart := c.programStart
  lastCompletedEpochIx := lastCompletedEpochIx

end ProgramConfig

/-! ## The epoch that the pool computes -/

namespace Pool

variable {ε : Type} {self : Pool} {height : ℕ}

theorem currentEpochIx_eq (hheight : height < 2 ^ 32) (hlen : 0 < self.conf.epochLen)
    (hfit : ¬ self.conf.Wraps height) :
    (self.currentEpochIx height : Outcome ε ℕ) = .ok (self.conf.epochOf height) := by
  have hblock : ((height : ℤ) - self.conf.programStart + 1).toNat =
      height + 1 - self.conf.programStart := by omega
  unfold currentEpochIx ProgramConfig.epochOf
  dsimp only
  rw [hblock]
  have hle : height + 1 - self.conf.programStart ≤ 2 ^ 32 := by omega
  have hnot : ¬ (self.conf.epochLen = 1 ∧ height + 1 - self.conf.programStart = 2 ^ 32) :=
    fun h => hfit ⟨by omega, h.1, by omega⟩
  have hneg : (height : ℤ) - self.conf.programStart + 1 < 0 →
      height + 1 - self.conf.programStart = 0 := by omega
  generalize (height + 1 - self.conf.programStart) = block at *
  generalize self.conf.epochLen = len at *
  rw [Outcome.checkedRem, Outcome.checkedDiv, if_neg hlen.ne', if_neg hlen.ne', Outcome.ok_bind,
    Outcome.ok_bind]
  have hsum := Nat.mod_add_div block len
  -- neither the cast nor the addition leaves the range of `u32`
  have hquot : block / len < 2 ^ 32 ∧ (0 < block % len → block / len + 1 < 2 ^ 32) := by
    rcases Nat.lt_or_ge 1 len with hlen' | hlen'
    · have hhalf : block / len ≤ block / 2 := Nat.div_le_div_left hlen' Nat.two_pos
      omega
    · obtain rfl : len = 1 := by omega
      rw [Nat.div_one, Nat.mod_one]
      omega
  split_ifs with hbefore hzero hrem
  · rw [hneg hbefore, zero_ceilDiv]
    rfl
  · rw [hzero.1, hzero.2] at hsum
    rw [← hsum, Nat.mul_zero, Nat.add_zero, zero_ceilDiv]
    rfl
  · rw [Nat.mod_eq_of_lt hquot.1, Outcome.checkedAdd, Outcome.fit, if_pos (hquot.2 hrem)]
    congr 1
    -- a block within an epoch
    refine le_antisymm (Nat.succ_le_of_lt (not_le.mp fun h => ?_)) ?_
    · have hmul := (ceilDiv_le_iff_le_mul hlen).mp h
      omega
    · rw [ceilDiv_le_iff_le_mul hlen, Nat.mul_succ]
      have := Nat.mod_lt block hlen
      omega
  · rw [Nat.mod_eq_of_lt hquot.1]
    -- the last block of an epoch
    have hrem : block % len = 0 := Nat.eq_zero_of_not_pos hrem
    rw [hrem, Nat.zero_add] at hsum
    have hceil : (len * (block / len)) ⌈/⌉ len = block / len := by
      rw [← smul_eq_mul, smul_ceilDiv hlen]
    rw [hsum] at hceil
    rw [hceil]
    rfl

/-- At the height whose epoch does not fit the pool is back in epoch zero. -/
theorem currentEpochIx_of_wraps (hfit : self.conf.Wraps height) :
    (self.currentEpochIx height : Outcome ε ℕ) = .ok 0 := by
  obtain ⟨hstart, hlen, rfl⟩ := hfit
  unfold currentEpochIx
  rw [hstart, hlen]
  rfl

end Pool

/-! ## The ticks of a schedule -/

section Ticks

variable {c : ProgramConfig} {poolId : PoolId} {height k : ℕ}
  (hrange : c.programStart + c.epochLen * (c.epochNum + 1) < 2 ^ 32)
include hrange

/-- There is a next epoch to be compounded until all have been. -/
theorem nextCompoundingAt_schedule {ε : Type} (hlen : 0 < c.epochLen) (hk : k ≤ c.epochNum) :
    ((c.schedule poolId k).nextCompoundingAt : Outcome ε _) =
      .ok (if k < c.epochNum then some (c.programStart + (k + 1) * c.epochLen) else none) := by
  have hmul : c.epochLen * k ≤ c.epochLen * c.epochNum := Nat.mul_le_mul_left _ hk
  rw [Nat.mul_succ] at hrange
  have hsucc : c.programStart + k * c.epochLen + c.epochLen =
      c.programStart + (k + 1) * c.epochLen := by rw [Nat.succ_mul, Nat.add_assoc]
  have hlast : c.programStart + k * c.epochLen + c.epochLen ≤
      c.programStart + c.epochLen * c.epochNum ↔ k < c.epochNum := by
    rw [hsucc, Nat.add_le_add_iff_left, Nat.mul_comm, Nat.mul_le_mul_left_iff hlen, Nat.succ_le_iff]
  refine PoolSchedule.nextCompoundingAt_eq_ok.mpr ⟨⟨?_, ?_⟩, ?_⟩
  · show c.programStart + k * c.epochLen + c.epochLen < 2 ^ 32
    rw [Nat.mul_comm k]
    omega
  · show c.programStart + c.epochLen * c.epochNum < 2 ^ 32
    omega
  · rw [← hsucc]
    exact (if_congr hlast rfl rfl).symm

theorem tryFrom_schedule (hlen : 0 < c.epochLen) (hk : k < c.epochNum) :
    Tick.tryFrom (c.schedule poolId k) =
      .ok ⟨poolId, k + 1, c.programStart + (k + 1) * c.epochLen⟩ := by
  have hnum := c.epochNum_lt
  have hfits : k + 1 < 2 ^ 32 := by omega
  have hepoch : (.checkedAdd 32 (c.schedule poolId k).lastCompletedEpochIx 1 : Outcome Unit ℕ) =
      .ok (k + 1) := Outcome.checkedAdd_eq_ok.mpr ⟨hfits, rfl⟩
  rw [Tick.tryFrom, nextCompoundingAt_schedule hrange hlen hk.le, if_pos hk, Outcome.ok_bind]
  dsimp only
  rw [hepoch]
  rfl

end Ticks

/-! ## The agreement -/

/-- At a height the schedule, the pool and the index of bundles agree on the epochs. -/
structure HeightsAgree (pool : Pool) (height : ℕ) : Prop where
  /-- There is a next tick until all epochs have been compounded. -/
  next : ∀ k ≤ pool.conf.epochNum, ∃ next,
    ((pool.conf.schedule pool.poolId k).nextCompoundingAt : Outcome Unit _) = .ok next ∧
      (next.isSome ↔ k < pool.conf.epochNum)
  /-- A tick is due once its epoch has fully elapsed. -/
  due : ∀ k < pool.conf.epochNum, ∃ tick current,
    Tick.tryFrom (pool.conf.schedule pool.poolId k) = .ok tick ∧
      (pool.currentEpochIx height : Outcome Unit ℕ) = .ok current ∧
      tick.epochIx = k + 1 ∧ (tick.height ≤ height ↔ tick.epochIx < current)
  mono : ∀ height' ≤ height, ∃ current' current,
    (pool.currentEpochIx height' : Outcome Unit ℕ) = .ok current' ∧
      (pool.currentEpochIx height : Outcome Unit ℕ) = .ok current ∧ current' ≤ current
  /-- A new bundle is indexed at the next epoch, whose tick is still to come. -/
  deposit : ∀ (deposit : Deposit) tokenDetails ctx nextPool bundle userOutput executorOutput
    minerOutput stateId, ctx.height = height → 0 < deposit.lq.amount →
    pool.applyDeposit deposit tokenDetails ctx =
      .ok (nextPool, bundle, userOutput, executorOutput, minerOutput) →
    ∃ current indexed tick, (pool.currentEpochIx height : Outcome Unit ℕ) = .ok current ∧
      (IndexedBundle.new (bundle.finalize stateId) pool.conf : Outcome Unit _) = .ok indexed ∧
      indexed.lowerEpochIx = current + 1 ∧
      Tick.tryFrom (pool.conf.schedule pool.poolId current) = .ok tick ∧
      tick.epochIx = indexed.lowerEpochIx ∧ height < tick.height

section Agreement

variable {pool : Pool} {height : ℕ} (hlen : 1 ≤ pool.conf.epochLen)
include hlen

/-- A deposit pays for the epochs after the current one. -/
theorem Pool.DepositApplied.indexed {deposit : Deposit} {tokenDetails : TokenDetails}
    {ctx : ExecutionContext} {nextPool : Pool} {bundle : StakingBundleProto}
    {userOutput : DepositOutput} {executorOutput : ExecutorOutput} {minerOutput : MinerOutput}
    (h : DepositApplied pool deposit tokenDetails ctx nextPool bundle userOutput executorOutput
      minerOutput) (hheight : height < 2 ^ 32) (hctx : ctx.height = height)
    (hlq : 0 < deposit.lq.amount)
    (hfit : ¬ pool.conf.Wraps height) (stateId : BundleStateId) :
    pool.conf.epochOf height < pool.conf.epochNum ∧
      (IndexedBundle.new (bundle.finalize stateId) pool.conf : Outcome Unit _) =
        .ok ⟨bundle.finalize stateId, pool.conf.epochOf height + 1⟩ := by
  obtain ⟨current, hcurrent, hremain⟩ := Pool.numEpochsRemain_eq_ok.mp h.epochs
  rw [hctx, Pool.currentEpochIx_eq hheight hlen hfit, Outcome.ok.injEq] at hcurrent
  subst hcurrent
  have hpos := h.epochs_pos
  have hnum := pool.conf.epochNum_lt
  refine ⟨by omega, ?_⟩
  have hepochs : bundle.epochs = deposit.expectedNumEpochs := by
    rw [h.bundle_eq]
    exact Nat.mul_div_cancel _ hlq
  have htoProto : (bundle.finalize stateId).toProto = bundle := StakingBundle.toProto_finalize ..
  refine (IndexedBundle.new_eq_ok ?_).mpr ⟨?_, ?_, ?_⟩
  · rw [htoProto, hepochs]
    omega
  · rw [h.bundle_eq]
    exact hlq.ne'
  · rw [htoProto, hepochs]
    omega
  · rw [htoProto, hepochs]
    congr 1
    omega

/-- The epoch falls back from one to zero. -/
theorem not_heightsAgree_of_wraps (hwraps : pool.conf.Wraps height) :
    ¬ HeightsAgree pool height := by
  intro hagree
  obtain ⟨current', current, hcurrent', hcurrent, hle⟩ := hagree.mono 0 (Nat.zero_le height)
  rw [Pool.currentEpochIx_of_wraps hwraps, Outcome.ok.injEq] at hcurrent
  have hfirst : ¬ pool.conf.Wraps 0 := by
    rintro ⟨-, -, hzero⟩
    cases hzero
  rw [Pool.currentEpochIx_eq (by decide) hlen hfirst, Outcome.ok.injEq] at hcurrent'
  have hone : 0 < pool.conf.epochOf 0 := by
    rw [ProgramConfig.lt_epochOf_iff hlen, hwraps.1]
    omega
  omega

/-- The heights agree but for the one whose epoch does not fit into 32 bits. -/
theorem heightsAgree_iff
    (hrange : pool.conf.programStart + pool.conf.epochLen * (pool.conf.epochNum + 1) < 2 ^ 32)
    (hheight : height < 2 ^ 32) : HeightsAgree pool height ↔ ¬ pool.conf.Wraps height := by
  constructor
  · exact fun hagree hwraps => not_heightsAgree_of_wraps hlen hwraps hagree
  · intro hfit
    have hcurrent : (pool.currentEpochIx height : Outcome Unit ℕ) =
        .ok (pool.conf.epochOf height) := Pool.currentEpochIx_eq hheight hlen hfit
    refine ⟨?_, ?_, ?_, ?_⟩
    · intro k hk
      refine ⟨_, nextCompoundingAt_schedule hrange hlen hk, ?_⟩
      by_cases hlt : k < pool.conf.epochNum <;> simp [hlt]
    · intro k hk
      refine ⟨_, _, tryFrom_schedule hrange hlen hk, hcurrent, rfl, ?_⟩
      exact (ProgramConfig.lt_epochOf_iff hlen).symm
    · intro height' hle
      refine ⟨_, _, Pool.currentEpochIx_eq (hle.trans_lt hheight) hlen ?_, hcurrent,
        ProgramConfig.epochOf_mono hlen hle⟩
      rintro ⟨hstart, hone, hlast⟩
      exact hfit ⟨hstart, hone, by omega⟩
    · intro deposit tokenDetails ctx nextPool bundle userOutput executorOutput minerOutput stateId
        hctx hlq hok
      obtain ⟨hlt, hindexed⟩ := (Pool.applyDeposit_ok hok).indexed hlen hheight hctx hlq
        hfit stateId
      refine ⟨_, _, _, hcurrent, hindexed, rfl, tryFrom_schedule hrange hlen hlt, rfl, ?_⟩
      exact not_le.mp fun h => absurd ((ProgramConfig.lt_epochOf_iff hlen).mpr h) (by omega)

end Agreement

theorem heightsAgree_sample :
    HeightsAgree Staking.Sample.pool 250 ↔ ¬ Staking.Sample.pool.conf.Wraps 250 :=
  heightsAgree_iff (by decide) (by decide) (by decide)

open Staking.Sample in
/-- A program of ten epochs of one block that starts with the chain. -/
def Staking.Sample.blockwisePool : Pool :=
  { Staking.Sample.pool with
    conf := { Staking.Sample.conf with
      epochLen := 1, programStart := 0, epochLen_lt := one_lt_u32,
      programStart_lt := zero_lt_u32 } }

/-- At the last height the pool is back in epoch zero. -/
theorem last_height_disagrees : ¬ HeightsAgree Staking.Sample.blockwisePool (2 ^ 32 - 1) :=
  not_heightsAgree_of_wraps (by decide) (by decide)

end SpectrumOffchain
