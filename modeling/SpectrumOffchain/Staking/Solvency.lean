import SpectrumOffchain.Staking.Batches

/-!
# Solvency

The rewards of a batch are shares of the pot of the epoch as long as the charges of the
batch are in circulation.  They are when every live bundle holds the tokens for the
epochs that remain.  A bundle that is deposited gets the tokens for the epochs that
remain by the height of the chain, and these are too few when the deposit is made while
compounding lags behind the chain (`lagging_deposit`).  Without such deposits every
state of a run is covered (`Funded`), and the budget set aside for later epochs is
never touched (`solvent_of_run`).

## Strategy

`Funded` is the invariant.  Its heart is that every live bundle holds the tokens for the
epochs ahead, as the budget counts them (`epochsAhead`).  A redeem takes a bundle away and
leaves the number as it is; a distribution leaves each of its bundles exactly the tokens for
the epochs that remain, which are those ahead (`Funded.epochsRemain_eq`); and a deposit gets
tokens by the height of the chain, which `OnTime` compares with the budget
(`Funded.covered_deposit`).

In a funded state the charges of a batch are in circulation (`Accounting.charged_le`), so
the shares that it pays add up to no more than the pot (`Funded.paid_le`).
-/

namespace SpectrumOffchain.Staking

open Transition

/-- The epochs that remain after the one being compounded. -/
def epochsAhead (pool : Pool) : ℕ := pool.conf.epochsDue pool.budgetRem.amount - 1

/-- A deposit is made when at most one epoch more is left to compound than the chain has ahead. -/
def OnTime (s : Staking) : Action → Prop
  | .deposit _ _ ctx => ∀ left remain, (s.pool.epochsLeftToProcess : Outcome Unit ℕ) = .ok left →
      (s.pool.numEpochsRemain ctx.height : Outcome PoolOperationError ℕ) = .ok remain →
      left ≤ remain + 1
  | _ => True

/-- The states from which every batch can be paid. -/
structure Funded (s : Staking) : Prop where
  accounting : Accounting s
  bounds : s.pool.conf.RoundingErrorBounds
  exact : s.pool.conf.programBudget.amount < 2 ^ 53
  budget_pos : 1 ≤ s.pool.budgetRem.amount
  covered : Covered (epochsAhead s.pool) s.live

theorem Accounting.budget_le {s : Staking} (h : Accounting s) :
    s.pool.budgetRem.amount ≤ s.pool.conf.programBudget.amount := by
  have := h.budget
  omega

/-- The epochs that a distribution leaves are those ahead. -/
theorem Funded.epochsRemain_eq {s : Staking} (h : Funded s) {epochIx : ℕ}
    (hepoch : (s.pool.compoundingEpochIx : Outcome PoolOperationError ℕ) = .ok epochIx) :
    s.pool.epochsRemain epochIx = epochsAhead s.pool := by
  rw [Pool.compoundingEpochIx_eq h.bounds h.accounting.budget_le h.exact,
    Outcome.ok.injEq] at hepoch
  have := h.bounds.epochsDue_le h.accounting.budget_le
  rw [Pool.epochsRemain, epochsAhead, ← hepoch]
  omega

/-- More is left of the budget than what is set aside for the epochs ahead. -/
theorem Funded.reserved_lt {s : Staking} (h : Funded s) :
    s.pool.conf.reserved (epochsAhead s.pool) < s.pool.budgetRem.amount := by
  have hle := h.bounds.epochsDue_le h.accounting.budget_le
  rcases Nat.eq_zero_or_pos (s.pool.conf.epochsDue s.pool.budgetRem.amount) with hzero | hpos
  · have : s.pool.conf.reserved (epochsAhead s.pool) = 0 := by
      simp [ProgramConfig.reserved, epochsAhead, hzero]
    have := h.budget_pos
    omega
  · refine Instalments.reserve_lt_of_lt_due h.bounds.epochNum_pos ?_ h.bounds.1.le
      h.bounds.epochAlloc_pos ?_
    · rw [epochsAhead]
      omega
    · show epochsAhead s.pool < s.pool.conf.epochsDue s.pool.budgetRem.amount
      rw [epochsAhead]
      omega

theorem Covered.mono {epochsRemain epochsRemain' : ℕ} {bundles : Multiset StakingBundleProto}
    (h : Covered epochsRemain bundles) (hle : epochsRemain' ≤ epochsRemain) :
    Covered epochsRemain' bundles :=
  fun b hb => (Nat.mul_le_mul_right _ hle).trans (h b hb)

theorem epochsAhead_mono {pool nextPool : Pool} (hbounds : pool.conf.RoundingErrorBounds)
    (hframe : Frame pool nextPool) : epochsAhead nextPool ≤ epochsAhead pool := by
  have := hbounds.epochsDue_mono hframe.budget
  rw [epochsAhead, epochsAhead, hframe.conf]
  omega

/-- A new bundle is covered, or the deposit was late. -/
theorem Funded.covered_deposit {s : Staking} (h : Funded s) {deposit : Deposit}
    {tokenDetails : TokenDetails} {ctx : ExecutionContext} {pool : Pool}
    {bundle : StakingBundleProto} {userOutput : DepositOutput} {executorOutput : ExecutorOutput}
    {minerOutput : MinerOutput} (hontime : OnTime s (.deposit deposit tokenDetails ctx))
    (hok : s.pool.applyDeposit deposit tokenDetails ctx =
      .ok (pool, bundle, userOutput, executorOutput, minerOutput)) :
    epochsAhead s.pool * bundle.vlq.amount ≤ bundle.tmpAmount := by
  have happlied := Pool.applyDeposit_ok hok
  obtain ⟨hvlq, htmp⟩ := happlied.bundle_amounts
  have hleft := hontime _ _
    (Pool.epochsLeftToProcess_eq h.bounds h.accounting.budget_le h.exact) happlied.epochs
  rw [hvlq, htmp]
  refine Nat.mul_le_mul_right _ ?_
  rw [epochsAhead]
  omega

theorem Covered.settle {epochsRemain : ℕ} {bundles : List StakingBundle}
    (hburned : ∀ bundle ∈ bundles, epochsRemain < bundle.toProto.epochs) :
    Covered epochsRemain (protos (bundles.map (Pool.settle epochsRemain))) := by
  intro b hb
  rw [protos, Multiset.mem_coe, List.map_map] at hb
  obtain ⟨bundle, hmem, rfl⟩ := List.mem_map.mp hb
  have hpos := Nat.zero_lt_of_lt (StakingBundleProto.lt_tmpAmount (hburned bundle hmem))
  exact (StakingBundleProto.tmpAmount_settle hpos).ge

theorem Funded.step {s t : Staking} {action : Action} (h : Funded s)
    (hstep : restrict Step OnTime s action t) : Funded t := by
  obtain ⟨hstep, hontime⟩ := hstep
  have hframe := hstep.pool.frame
  have hahead := epochsAhead_mono h.bounds hframe
  have hkept : Covered (epochsAhead t.pool) s.live := h.covered.mono hahead
  refine ⟨h.accounting.step hstep, hframe.conf ▸ h.bounds, hframe.conf ▸ h.exact, ?_, ?_⟩
  · cases hstep with
    | deposit hok => exact (Pool.applyDeposit_ok hok).frame.2.2.2 ▸ h.budget_pos
    | redeem _ hok => exact (Pool.applyRedeem_ok hok).frame.2.2.2 ▸ h.budget_pos
    | @compound bundles _ _ _ _ _ _ _ _ hok =>
        obtain ⟨_, _, hdist⟩ := Pool.distributeRewards_ok hok
        have hbudget := hdist.amounts.1
        have := h.budget_pos
        rcases eq_or_ne bundles [] with rfl | hne
        · simp only [Pool.paid, List.map_nil, List.sum_nil] at hbudget
          dsimp only
          omega
        · have := hdist.paid_lt hne
          dsimp only
          omega
  · cases hstep with
    | deposit hok =>
        intro b hb
        rcases Multiset.mem_cons.mp hb with rfl | hmem
        · exact (Nat.mul_le_mul_right _ hahead).trans (h.covered_deposit hontime hok)
        · exact hkept b hmem
    | redeem hlive hok => exact fun b hb => hkept b (hlive ▸ Multiset.mem_cons_of_mem hb)
    | compound hlive hok =>
        obtain ⟨epochIx, _, hdist⟩ := Pool.distributeRewards_ok hok
        have hremain := h.epochsRemain_eq hdist.epochIx_eq
        intro b hb
        rcases Multiset.mem_add.mp hb with hmem | hmem
        · rw [hdist.nextBundles_eq] at hmem
          exact (Covered.settle hdist.burned).mono (hremain ▸ hahead) b hmem
        · exact hkept b (hlive ▸ Multiset.mem_add.mpr (.inr hmem))

/-- A deployed pool is funded when the first bundle is delegated tokens for all epochs but one. -/
theorem Initial.funded {input : DeployPoolInputs} {s : Staking} (h : Initial input s)
    (hbounds : input.conf.RoundingErrorBounds) (hexact : input.conf.programBudget.amount < 2 ^ 53)
    (hdelegated : input.conf.epochNum ≤ input.numEpochsToDelegate + 1) : Funded s := by
  have haccounting := h.accounting
  obtain ⟨minted, redeemerProp, bundle, hdeploy, hlive, -⟩ := h
  have hdeployed := deployPool_ok hdeploy
  have hconf : s.pool.conf.RoundingErrorBounds := hdeployed.conf_eq ▸ hbounds
  refine ⟨haccounting, hconf, hdeployed.conf_eq ▸ hexact, ?_, ?_⟩
  · rw [hdeployed.budget_eq]
    exact hdeployed.budget_pos
  · intro b hb
    rw [hlive] at hb
    obtain rfl := Multiset.mem_singleton.mp hb
    have hdue := hconf.epochsDue_le haccounting.budget_le
    rw [hdeployed.conf_eq] at hdue
    rw [hdeployed.bundle_vlq, hdeployed.bundle_tmp, mul_comm]
    refine Nat.mul_le_mul_left _ ?_
    rw [epochsAhead, hdeployed.conf_eq]
    omega

theorem funded_of_run {input : DeployPoolInputs} {s t : Staking} {actions : List Action}
    (hinit : Initial input s) (hbounds : input.conf.RoundingErrorBounds)
    (hexact : input.conf.programBudget.amount < 2 ^ 53)
    (hdelegated : input.conf.epochNum ≤ input.numEpochsToDelegate + 1)
    (hrun : Run (restrict Step OnTime) s actions t) : Funded t :=
  hrun.invariant (fun _ _ _ h hstep => h.step hstep) (hinit.funded hbounds hexact hdelegated)

/-- Any batch of live bundles stays within the pot of its epoch. -/
theorem Funded.paid_le {s : Staking} (h : Funded s) {bundles : List StakingBundle}
    (hlive : protos bundles ≤ s.live) :
    s.pool.paid (epochsAhead s.pool) bundles + s.pool.conf.reserved (epochsAhead s.pool) + 1 ≤
      s.pool.budgetRem.amount := by
  have hpaid := Pool.paid_le_allocRem (h.accounting.charged_le h.covered hlive)
  have := h.reserved_lt
  rw [Pool.allocRem] at hpaid
  omega

/-- No distribution over live bundles can leave the budget short. -/
structure Solvent (s : Staking) : Prop where
  budget_pos : 1 ≤ s.pool.budgetRem.amount
  /-- A distribution leaves what is set aside for the later epochs, and one more. -/
  rewards_le : ∀ bundles funding nextPool nextBundles nextFunding rewardOutputs minerOutput epochIx,
    protos bundles ≤ s.live →
    (s.pool.compoundingEpochIx : Outcome PoolOperationError ℕ) = .ok epochIx →
    s.pool.distributeRewards bundles funding =
      .ok (nextPool, nextBundles, nextFunding, rewardOutputs, minerOutput) →
    (rewardOutputs.map RewardOutput.rewardAmount).sum +
        s.pool.conf.programBudget.amount * s.pool.epochsRemain epochIx / s.pool.conf.epochNum + 1 ≤
      s.pool.budgetRem.amount
  /-- Wherever the loop is, the next reward is within the budget it has left. -/
  reward_le : ∀ before bundle after st epochIx burned rewardAmt,
    protos (before ++ bundle :: after) ≤ s.live →
    (s.pool.compoundingEpochIx : Outcome PoolOperationError ℕ) = .ok epochIx →
    before.foldlM (s.pool.distributeToBundle (s.pool.epochsRemain epochIx))
      ⟨s.pool, [], [], 0⟩ = .ok st →
    (Pool.epochsBurned (s.pool.epochsRemain epochIx) bundle : Outcome PoolOperationError ℕ) =
      .ok burned → 1 ≤ burned →
    (s.pool.rewardFor (s.pool.epochsRemain epochIx) bundle.vlq.amount burned :
      Outcome PoolOperationError ℕ) = .ok rewardAmt →
    rewardAmt ≤ st.nextPool.budgetRem.amount

theorem Funded.solvent {s : Staking} (h : Funded s) : Solvent s := by
  refine ⟨h.budget_pos, ?_, ?_⟩
  · intro bundles funding nextPool nextBundles nextFunding rewardOutputs minerOutput epochIx hlive
      hepoch hok
    obtain ⟨ix, _, hdist⟩ := Pool.distributeRewards_ok hok
    obtain rfl : ix = epochIx := Outcome.ok.inj (hdist.epochIx_eq.symm.trans hepoch)
    rw [hdist.sum_rewards, h.epochsRemain_eq hepoch]
    exact h.paid_le hlive
  · intro before bundle after st epochIx burned rewardAmt hlive hepoch hloop hburned hpos hreward
    rw [h.epochsRemain_eq hepoch] at hloop hburned hreward
    obtain ⟨rfl, -⟩ := Pool.epochsBurned_eq_ok hburned (by omega)
    obtain rfl := Pool.rewardFor_eq_ok hreward
    obtain ⟨-, -, rfl⟩ := Pool.foldlM_distributeToBundle_ok hloop rfl
    have hpaid := h.paid_le hlive
    simp only [Pool.paid, List.map_append, List.sum_append, List.map_cons, List.sum_cons] at hpaid
    simp only [Pool.Distribution.after, Pool.paid]
    omega

/-- In every run from a deployed pool whose deposits are on time, every state is solvent. -/
theorem solvent_of_run {input : DeployPoolInputs} {s t : Staking} {actions : List Action}
    (hinit : Initial input s) (hbounds : input.conf.RoundingErrorBounds)
    (hexact : input.conf.programBudget.amount < 2 ^ 53)
    (hdelegated : input.conf.epochNum ≤ input.numEpochsToDelegate + 1)
    (hrun : Run (restrict Step OnTime) s actions t) : Solvent t :=
  (funded_of_run hinit hbounds hexact hdelegated hrun).solvent

namespace Sample

theorem onTime_deposit : OnTime ⟨pool, {bundleProto}, 0⟩
    (.deposit joinDeposit details joinContext) := by
  have hleft : (pool.epochsLeftToProcess : Outcome Unit ℕ) = .ok 10 := by
    decide +kernel
  have hremain : (pool.numEpochsRemain joinContext.height : Outcome PoolOperationError ℕ) = .ok 10 := by
    decide +kernel
  intro left remain hleft' hremain'
  cases hleft.symm.trans hleft'
  cases hremain.symm.trans hremain'
  decide

theorem onTimeRun : Run (restrict Step OnTime) ⟨pool, {bundleProto}, 0⟩ joinAndLeave
    ⟨compounded, {compoundedBundle.toProto}, 999⟩ := by
  obtain ⟨hdeposit, hfirst, hsecond, hredeem⟩ := operations
  refine .cons ⟨.deposit hdeposit, onTime_deposit⟩ ?_
  refine .cons ⟨.compound live_joined hfirst, trivial⟩ ?_
  refine .cons ⟨.compound live_halfway hsecond, trivial⟩ ?_
  exact .single ⟨.redeem rfl hredeem, trivial⟩

end Sample

theorem solvent_of_run_sample :
    Solvent ⟨Sample.compounded, {Sample.compoundedBundle.toProto}, 999⟩ :=
  solvent_of_run Sample.initial (by decide) (by decide) (by decide) Sample.onTimeRun

/-! ## A late deposit

The program is in its fifth epoch, but none has been compounded: the deposit is given tokens for
five epochs, while nine remain after the first. -/

namespace Sample

def lateDeposit : Deposit where
  orderId := ⟨digest 8⟩
  poolId := ⟨digest 0⟩
  redeemerProp := ⟨[]⟩
  bundlePropHash := digest 9
  maxMinerFee := 0
  lq := ⟨digest 2, 10⟩
  ergValue := 3000000
  expectedNumEpochs := 5

def lateContext : ExecutionContext where
  height := 245
  mintableTokenId := digest 10
  executorProp := ⟨[]⟩

/-- The pool after the late deposit. -/
def latePool : Pool :=
  { pool with
    reservesLq := ⟨digest 2, 110⟩
    reservesVlq := ⟨digest 3, maxValue - 110⟩
    reservesTmp := ⟨digest 4, maxValue - 1050⟩ }

def lateBundle : StakingBundleProto :=
  { bundleProto with
    bundleKeyId := ⟨digest 10⟩
    vlq := ⟨digest 3, 10⟩
    tmp := some ⟨digest 4, 50⟩ }

theorem applyDeposit_late : pool.applyDeposit lateDeposit details lateContext =
    .ok (latePool, lateBundle,
      ⟨⟨digest 10, bundleKeyAmountUser⟩, ⟨[]⟩, minSafeFatBoxValue, "", ""⟩, ⟨⟨[]⟩, 956000⟩,
      ⟨defaultMinerFee⟩) := by
  decide +kernel

/-- The first bundle gets more than the pot of the epoch. -/
theorem distributeRewards_late : latePool.distributeRewards [bundle] funding =
    .ok ({ latePool with
            budgetRem := ⟨digest 1, 8335⟩
            reservesTmp := ⟨digest 4, maxValue - 950⟩
            epochIx := some 1 },
      [compoundedBundle], some ⟨⟨[]⟩, 750000⟩,
      [⟨some ⟨digest 1, 1665⟩, ⟨[]⟩, minSafeBoxValue⟩], ⟨defaultMinerFeeForCompoundTx⟩) := by
  decide +kernel

end Sample

/-- A deployed pool with an accepted configuration, a deposit, and a distribution that pays more
than the pot. -/
theorem lagging_deposit :
    ∃ (s t : Staking) (nextPool : Pool) (nextBundles : List StakingBundle)
      (nextFunding : Option DistributionFundingProto) (rewardOutputs : List RewardOutput)
      (minerOutput : MinerOutput) (epochIx : ℕ),
      Initial Sample.input s ∧ validatePool Sample.input 100 = .ok () ∧
      Run Step s [.deposit Sample.lateDeposit Sample.details Sample.lateContext] t ∧
      protos [Sample.bundle] ≤ t.live ∧
      (t.pool.compoundingEpochIx : Outcome PoolOperationError ℕ) = .ok epochIx ∧
      t.pool.distributeRewards [Sample.bundle] Sample.funding =
        .ok (nextPool, nextBundles, nextFunding, rewardOutputs, minerOutput) ∧
      t.pool.budgetRem.amount - t.pool.conf.programBudget.amount * t.pool.epochsRemain epochIx /
          t.pool.conf.epochNum - 1 < (rewardOutputs.map RewardOutput.rewardAmount).sum := by
  have hstep := Step.deposit (s := ⟨Sample.pool, {Sample.bundleProto}, 0⟩)
    Sample.applyDeposit_late
  refine ⟨_, _, _, _, _, _, _, 1, Sample.initial, by decide +kernel, .single hstep, ?_, ?_,
    Sample.distributeRewards_late, by decide +kernel⟩
  · exact Multiset.le_cons_self _ _
  · decide +kernel

end SpectrumOffchain.Staking
