import SpectrumOffchain.Staking.Run
import SpectrumOffchain.Scheduler.Repo

/-!
# Epochs along a run

Three places number the epoch that is being compounded: the scheduler from the epochs
left to process, the pool from the quotient of its budget, and the index of bundles
from their temporal tokens.  All three are `epoch_num + 1` less the epochs due
(`PoolSchedule.fromPool_eq`, `Pool.compoundingEpochIx_eq`, `epochs_settle`), so they
agree; and as the budget only shrinks, the epoch never goes back, and a bundle that has
been charged for it has no epoch left to burn until the next one begins.

## Strategy

With the bounds on the rounding error the number of the epoch is a function of the budget,
`epochsDue`, and each of the three places is brought to it separately.  The bundles come in
through their temporal tokens: one that has been compounded for the epoch holds the tokens
for those that remain and no more (`epochs_settle`), so its index entry is that of the next
epoch, and in the present one it has nothing left to burn
(`Pool.distributeToBundle_compounded_iff`).

The budget never grows along a run (`Staking.Frame.budget_le`), hence `epochsDue` does not
either, and neither the epoch of the pool nor the verdict on a bundle is ever taken back.
-/

namespace SpectrumOffchain

open Transition Staking

/-! ## The agreement of the three numbers -/

section Agreement

variable {ε : Type} {pool : Pool} (hconf : pool.conf.RoundingErrorBounds)
  (hbudget : pool.budgetRem.amount ≤ pool.conf.programBudget.amount)
  (hexact : pool.conf.programBudget.amount < 2 ^ 53)
include hconf hbudget hexact

theorem PoolSchedule.fromPool_eq :
    (PoolSchedule.fromPool pool : Outcome ε PoolSchedule) = .ok
      { poolId := pool.poolId
        epochLen := pool.conf.epochLen
        epochNum := pool.conf.epochNum
        programStart := pool.conf.programStart
        lastCompletedEpochIx :=
          pool.conf.epochNum - pool.conf.epochsDue pool.budgetRem.amount } := by
  have hdue := hconf.epochsDue_le hbudget
  simp [PoolSchedule.fromPool, Pool.epochsLeftToProcess_eq hconf hbudget hexact,
    Outcome.checkedSub, hdue]

end Agreement

theorem Tick.tryFrom_ok {sc : PoolSchedule} {tick : Tick} (h : Tick.tryFrom sc = .ok tick) :
    tick.epochIx = sc.lastCompletedEpochIx + 1 := by
  simp only [Tick.tryFrom, Outcome.bind_eq_ok] at h
  obtain ⟨height, -, h⟩ := h
  cases height with
  | none => cases h
  | some height =>
      simp only [Outcome.bind_eq_ok, Outcome.checkedAdd_eq_ok] at h
      obtain ⟨_, ⟨-, rfl⟩, h⟩ := h
      cases h
      rfl

/-- A settled bundle pays for exactly the epochs that remain. -/
theorem StakingBundleProto.epochs_settle {epochsRemain : ℕ} {b : StakingBundleProto}
    (hlt : epochsRemain < b.epochs) : (b.settle epochsRemain).epochs = epochsRemain := by
  have hvlq := vlq_pos_of_epochs_pos (by omega : 0 < b.epochs)
  have htmp := lt_tmpAmount hlt
  rw [epochs, tmpAmount_settle (by omega), settle_vlq]
  exact Nat.mul_div_cancel _ hvlq

/-- A bundle has an epoch to burn when it holds the tokens for more than those that remain. -/
theorem Pool.epochsBurned_eq {ε : Type} {epochsRemain : ℕ} {bundle : StakingBundle}
    (hvlq : bundle.vlq.amount ≠ 0) :
    (Pool.epochsBurned epochsRemain bundle : Outcome ε ℕ) =
      .ok (bundle.toProto.epochs - epochsRemain) := by
  cases htmp : bundle.tmp with
  | none =>
      simp [epochsBurned, htmp, StakingBundleProto.epochs, StakingBundleProto.tmpAmount,
        StakingBundle.toProto]
  | some tmp =>
      simp [epochsBurned, htmp, Outcome.checkedDiv, hvlq, StakingBundleProto.epochs,
        StakingBundleProto.tmpAmount, StakingBundle.toProto]

/-- The answer "Already compounded" to a bundle says that it has nothing to burn. -/
theorem Pool.distributeToBundle_compounded_iff {pool : Pool} {epochsRemain : ℕ}
    {st : Distribution} {bundle : StakingBundle} (hvlq : bundle.vlq.amount ≠ 0) :
    pool.distributeToBundle epochsRemain st bundle =
        .err (.permanent (.orderPoisoned "Already compounded")) ↔
      ¬ epochsRemain < bundle.toProto.epochs := by
  rw [distributeToBundle, epochsBurned_eq hvlq, Outcome.ok_bind]
  by_cases hburned : epochsRemain < bundle.toProto.epochs
  · simp only [hburned, not_true_eq_false, iff_false]
    rw [Outcome.failIf_neg (by omega), Outcome.ok_bind]
    intro h
    -- the only error left is the other one
    simp only [Outcome.bind_eq_err] at h
    rcases h with h | ⟨_, -, h | ⟨_, -, h | ⟨_, -, h | ⟨_, -, h⟩⟩⟩⟩
    · exact unfailing_rewardFor _ _ _ _ _ h
    · exact unfailing_payReward _ _ _ h
    · exact unfailing_chargeTmp _ _ _ _ _ _ h
    · simpa using Outcome.failIf_eq_err h
    · cases h
  · simp only [hburned, not_false_eq_true, iff_true]
    rw [Outcome.failIf_pos (by omega), Outcome.err_bind]

/-- A bundle with nothing to burn poisons a batch of its own. -/
theorem Pool.distributeRewards_compounded_iff {pool : Pool} {bundle : StakingBundle}
    {funding : NonEmpty DistributionFunding} {epochIx : ℕ}
    (hepoch : (pool.compoundingEpochIx : Outcome PoolOperationError ℕ) = .ok epochIx)
    (hvlq : bundle.vlq.amount ≠ 0) :
    pool.distributeRewards [bundle] funding =
        .err (.permanent (.orderPoisoned "Already compounded")) ↔
      ¬ pool.epochsRemain epochIx < bundle.toProto.epochs := by
  rw [distributeRewards_eq_err]
  simp only [hepoch, Outcome.ok.injEq, exists_eq_left', List.foldlM_cons, List.foldlM_nil,
    bind_pure]
  exact distributeToBundle_compounded_iff hvlq

/-- The scheduler, the index of bundles and the pool agree on the epoch. -/
structure EpochAgreement (pool : Pool) (schedule : PoolSchedule) (epochIx : ℕ) : Prop where
  schedule_eq : (PoolSchedule.fromPool pool : Outcome Unit _) = .ok schedule
  epochIx_eq : (pool.compoundingEpochIx : Outcome PoolOperationError ℕ) = .ok epochIx
  next_eq : schedule.lastCompletedEpochIx + 1 = epochIx
  tick_eq : ∀ tick, Tick.tryFrom schedule = .ok tick → tick.epochIx = epochIx
  tick_exists : pool.conf.programStart + pool.conf.epochLen * pool.conf.epochNum < 2 ^ 32 →
    ∃ tick, Tick.tryFrom schedule = .ok tick
  /-- A bundle is indexed up to the epoch exactly when it has an epoch to burn. -/
  indexed_iff : ∀ bundle : StakingBundle, bundle.vlq.amount ≠ 0 →
    bundle.toProto.epochs ≤ pool.conf.epochNum →
    ∃ indexed burned, (IndexedBundle.new bundle pool.conf : Outcome Unit _) = .ok indexed ∧
      (Pool.epochsBurned (pool.epochsRemain epochIx) bundle : Outcome Unit ℕ) = .ok burned ∧
      (indexed.lowerEpochIx ≤ epochIx ↔ 1 ≤ burned) ∧
      ∀ funding, (indexed.lowerEpochIx ≤ epochIx ↔ pool.distributeRewards [bundle] funding ≠
        .err (.permanent (.orderPoisoned "Already compounded")))
  /-- A distribution writes the epoch, and its bundles are indexed right after it. -/
  written : ∀ (bundles nextBundles : List StakingBundle) (funding : NonEmpty DistributionFunding)
    (nextPool : Pool) (nextFunding : Option DistributionFundingProto)
    (rewardOutputs : List RewardOutput) (minerOutput : MinerOutput),
    pool.distributeRewards bundles funding =
      .ok (nextPool, nextBundles, nextFunding, rewardOutputs, minerOutput) →
    nextPool.epochIx = some epochIx ∧
      ∀ bundle ∈ nextBundles, (IndexedBundle.new bundle pool.conf : Outcome Unit _) =
        .ok ⟨bundle, epochIx + 1⟩

theorem epochAgreement {pool : Pool} {left : ℕ} (hconf : pool.conf.RoundingErrorBounds)
    (hbudget : pool.budgetRem.amount ≤ pool.conf.programBudget.amount)
    (hexact : pool.conf.programBudget.amount < 2 ^ 53)
    (hleft : (pool.epochsLeftToProcess : Outcome Unit ℕ) = .ok left) (hsome : 1 ≤ left) :
    ∃ schedule epochIx, EpochAgreement pool schedule epochIx := by
  rw [Pool.epochsLeftToProcess_eq hconf hbudget hexact, Outcome.ok.injEq] at hleft
  have hdue := hconf.epochsDue_le hbudget
  have hnum := hconf.epochNum_lt_two_pow
  have hepoch := fun ε => Pool.compoundingEpochIx_eq (ε := ε) hconf hbudget hexact
  set epochIx := pool.conf.epochNum + 1 - pool.conf.epochsDue pool.budgetRem.amount with hix
  have hremain : pool.epochsRemain epochIx = pool.conf.epochNum - epochIx := rfl
  have hlast : pool.conf.epochNum - pool.conf.epochsDue pool.budgetRem.amount + 1 = epochIx := by
    omega
  refine ⟨_, epochIx, PoolSchedule.fromPool_eq hconf hbudget hexact, hepoch _, hlast,
    fun tick htick => (Tick.tryFrom_ok htick).trans hlast, ?_, ?_, ?_⟩
  · intro hend
    refine Tick.exists_tryFrom ?_ ?_ hend <;> dsimp only <;> omega
  · intro bundle hvlq hepochs
    have hindex : (IndexedBundle.new bundle pool.conf : Outcome Unit _) = .ok _ :=
      (IndexedBundle.new_eq_ok hepochs).mpr ⟨hvlq, by omega, rfl⟩
    -- a bundle has an epoch to burn if it pays for more epochs than remain
    have hiff : pool.conf.epochNum - bundle.toProto.epochs + 1 ≤ epochIx ↔
        pool.epochsRemain epochIx < bundle.toProto.epochs := by omega
    refine ⟨_, _, hindex, Pool.epochsBurned_eq hvlq, ?_, fun funding => ?_⟩
    · rw [hiff]
      omega
    · rw [hiff, ne_eq, Pool.distributeRewards_compounded_iff (hepoch _) hvlq, not_not]
  · intro bundles nextBundles funding nextPool nextFunding rewardOutputs minerOutput hok
    obtain ⟨ix, _, hdist⟩ := Pool.distributeRewards_ok hok
    obtain rfl : ix = epochIx := Outcome.ok.inj (hdist.epochIx_eq.symm.trans (hepoch _))
    refine ⟨by rw [hdist.nextPool_eq], fun bundle hmem => ?_⟩
    obtain ⟨before, hlt, rfl⟩ := hdist.exists_settle hmem
    have hsettled := StakingBundleProto.epochs_settle hlt
    have hvlq := StakingBundleProto.vlq_pos_of_epochs_pos (Nat.zero_lt_of_lt hlt)
    refine (IndexedBundle.new_eq_ok ?_).mpr ⟨hvlq.ne', ?_, ?_⟩
    · rw [Pool.toProto_settle, hsettled]
      omega
    · rw [Pool.toProto_settle, hsettled]
      omega
    · rw [Pool.toProto_settle, hsettled]
      congr 1
      omega

theorem epochAgreement_sample :
    ∃ schedule epochIx, EpochAgreement Sample.pool schedule epochIx :=
  have hleft : (Sample.pool.epochsLeftToProcess : Outcome Unit ℕ) = .ok 10 := by decide +kernel
  epochAgreement (by decide) (by decide) (by decide) hleft (by decide)

/-! ## No double reward -/

theorem Staking.Frame.budget_le {pool nextPool : Pool} (hframe : Frame pool nextPool)
    (hbudget : pool.budgetRem.amount ≤ pool.conf.programBudget.amount) :
    nextPool.budgetRem.amount ≤ nextPool.conf.programBudget.amount := by
  rw [hframe.conf]
  exact hframe.budget.trans hbudget

/-- A bundle without an epoch to burn poisons every batch it is in. -/
theorem Pool.distributeRewards_poisoned {pool : Pool} {bundles : List StakingBundle}
    {funding : NonEmpty DistributionFunding} {epochIx : ℕ} {bundle : StakingBundle}
    (hepoch : (pool.compoundingEpochIx : Outcome PoolOperationError ℕ) = .ok epochIx)
    (hmem : bundle ∈ bundles) (hburned : bundle.toProto.epochs ≤ pool.epochsRemain epochIx)
    (hcrash : pool.distributeRewards bundles funding ≠ .crash) :
    ∃ detail, pool.distributeRewards bundles funding =
      .err (.permanent (.orderPoisoned detail)) := by
  cases hresult : pool.distributeRewards bundles funding with
  | ok result =>
      obtain ⟨ix, _, hdist⟩ := distributeRewards_ok hresult
      obtain rfl : ix = epochIx := Outcome.ok.inj (hdist.epochIx_eq.symm.trans hepoch)
      exact absurd (hdist.burned bundle hmem) (not_lt.mpr hburned)
  | err e =>
      obtain ⟨detail, rfl⟩ := distributeRewards_err hresult
      exact ⟨detail, rfl⟩
  | crash => exact absurd hresult hcrash

/-- Whatever happens to a pool later on, no bundle is paid twice for an epoch. -/
structure RewardedOnce (pool : Pool) (epochIx : ℕ) : Prop where
  epochIx_eq : (pool.compoundingEpochIx : Outcome PoolOperationError ℕ) = .ok epochIx
  /-- The budget never grows and the epoch never goes back. -/
  monotone : ∀ later actions, Run PoolStep pool actions later →
    later.budgetRem.amount ≤ pool.budgetRem.amount ∧
      ∃ laterEpochIx, (later.compoundingEpochIx : Outcome PoolOperationError ℕ) =
        .ok laterEpochIx ∧ epochIx ≤ laterEpochIx
  /-- A bundle returned by a distribution holds exactly the tokens for the epochs that remain. -/
  settled : ∀ bundles funding nextPool nextBundles nextFunding rewardOutputs minerOutput,
    pool.distributeRewards bundles funding =
      .ok (nextPool, nextBundles, nextFunding, rewardOutputs, minerOutput) →
    ∀ bundle ∈ nextBundles,
      bundle.toProto.tmpAmount = pool.epochsRemain epochIx * bundle.vlq.amount ∧
        (bundle.tmp = none ↔ pool.epochsRemain epochIx * bundle.vlq.amount = 0)
  /-- As long as the epoch is the same, every batch with such a bundle is poisoned. -/
  poisoned : ∀ bundles funding nextPool nextBundles nextFunding rewardOutputs minerOutput,
    pool.distributeRewards bundles funding =
      .ok (nextPool, nextBundles, nextFunding, rewardOutputs, minerOutput) →
    ∀ later actions, Run PoolStep nextPool actions later →
      (later.compoundingEpochIx : Outcome PoolOperationError ℕ) = .ok epochIx →
      ∀ bundle ∈ nextBundles, ∀ bundles' funding', ∀ again ∈ bundles', again.vlq = bundle.vlq →
        again.tmp = bundle.tmp → later.distributeRewards bundles' funding' ≠ .crash →
        ∃ detail, later.distributeRewards bundles' funding' =
          .err (.permanent (.orderPoisoned detail))

/-- Every pool on a run of operations, on any bundles, pays each bundle once for an epoch. -/
theorem rewardedOnce_of_run {start pool : Pool} {actions : List Action}
    (hconf : start.conf.RoundingErrorBounds)
    (hbudget : start.budgetRem.amount ≤ start.conf.programBudget.amount)
    (hexact : start.conf.programBudget.amount < 2 ^ 53) (hrun : Run PoolStep start actions pool) :
    ∃ epochIx, RewardedOnce pool epochIx := by
  have hframe := frame_of_run hrun
  have hconf' : pool.conf.RoundingErrorBounds := hframe.conf ▸ hconf
  have hbudget' := hframe.budget_le hbudget
  have hexact' : pool.conf.programBudget.amount < 2 ^ 53 := hframe.conf ▸ hexact
  have heq : (pool.compoundingEpochIx : Outcome PoolOperationError ℕ) = .ok _ :=
    Pool.compoundingEpochIx_eq hconf' hbudget' hexact'
  generalize hix : pool.conf.epochNum + 1 - pool.conf.epochsDue pool.budgetRem.amount = epochIx
    at heq
  refine ⟨epochIx, heq, ?_, ?_, ?_⟩
  · intro later actions' hlater
    -- the budget only shrinks, and the epoch is read off the budget
    have hlaterFrame := frame_of_run hlater
    refine ⟨hlaterFrame.budget, _, Pool.compoundingEpochIx_eq (hlaterFrame.conf ▸ hconf')
      (hlaterFrame.budget_le hbudget') (hlaterFrame.conf ▸ hexact'), ?_⟩
    have := hconf'.epochsDue_mono hlaterFrame.budget
    rw [hlaterFrame.conf]
    omega
  · intro bundles funding nextPool nextBundles nextFunding rewardOutputs minerOutput hok bundle hmem
    obtain ⟨ix, _, hdist⟩ := Pool.distributeRewards_ok hok
    obtain rfl : ix = epochIx := Outcome.ok.inj (hdist.epochIx_eq.symm.trans heq)
    obtain ⟨before, hlt, rfl⟩ := hdist.exists_settle hmem
    have hpos := Nat.zero_lt_of_lt (StakingBundleProto.lt_tmpAmount hlt)
    exact ⟨StakingBundleProto.tmpAmount_settle hpos, StakingBundleProto.settle_tmp_eq_none hpos⟩
  · intro bundles funding nextPool nextBundles nextFunding rewardOutputs minerOutput hok
      later actions' hlater hsame bundle hmem bundles' funding' again hagain hvlq htmp hcrash
    obtain ⟨ix, _, hdist⟩ := Pool.distributeRewards_ok hok
    obtain rfl : ix = epochIx := Outcome.ok.inj (hdist.epochIx_eq.symm.trans heq)
    obtain ⟨before, hlt, rfl⟩ := hdist.exists_settle hmem
    have hremain : later.epochsRemain ix = pool.epochsRemain ix := by
      rw [Pool.epochsRemain, Pool.epochsRemain, (frame_of_run hlater).conf, hdist.frame.2.1]
    -- what the bundle holds pays for the epochs that remain, and for no more
    have hepochs : again.toProto.epochs =
        (before.toProto.settle (pool.epochsRemain ix)).epochs := by
      simp only [StakingBundleProto.epochs, StakingBundleProto.tmpAmount,
        StakingBundle.toProto, hvlq, htmp]
      rfl
    refine Pool.distributeRewards_poisoned hsame hagain ?_ hcrash
    rw [hepochs, StakingBundleProto.epochs_settle hlt, hremain]

theorem rewardedOnce_of_run_sample : ∃ epochIx, RewardedOnce Sample.compounded epochIx :=
  have hrun : Run PoolStep Sample.pool [.compound [Sample.bundle] Sample.funding]
      Sample.compounded := .single (.compound Sample.distributeRewards_eq)
  rewardedOnce_of_run (by decide) (by decide) (by decide) hrun

end SpectrumOffchain
