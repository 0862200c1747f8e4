import Mathlib.Algebra.BigOperators.Group.Multiset.Basic
import Mathlib.Algebra.Order.BigOperators.Group.Multiset
import SpectrumOffchain.Data.Operations
import SpectrumOffchain.Deploy
import SpectrumOffchain.Lib.Transition

/-!
# Runs of a pool

A pool together with the staking bundles taken out of it, under any interleaving of
deposits, redeems and distributions of rewards.  The order of the steps is arbitrary,
and a distribution may take any of the live bundles.

`Accounting` is the invariant of these runs: each of the three token reserves and the
budget, with what has been handed out of it, adds up to what the pool was deployed
with.  It is what the later results rest on; in particular the temporal tokens in
circulation are those of the live bundles, so `Pool.actualTmp` is the sum of what all
live bundles are to be charged (`Accounting.actualTmp_eq`).

## Order of the lemmas

`PoolStep` is the step of a pool by one of its three operations, and `Step` the same step
with the multiset of live bundles: a deposit adds the bundle that it returns, a redeem takes
one away, and a distribution replaces those of its batch.  The pool of a run makes a run of
its own (`run_pool`), so that what needs no bundles is proved of the pool alone
(`Frame`, `frame_of_run`).

`Accounting.step` uses of each operation its `amounts` and its `frame`, and for a batch that
the charges of its bundles are what the reserves of temporal tokens gain
(`totalTmp_settle`).  The sample run at the end has all three operations; other modules add
to it what they need.
-/

namespace SpectrumOffchain

open Transition

/-- A pool with the bundles staked in it and the rewards paid out so far. -/
structure Staking where
  pool : Pool
  live : Multiset StakingBundleProto
  paid : ℕ

namespace Staking

inductive Action where
  | deposit (deposit : Deposit) (tokenDetails : TokenDetails) (ctx : ExecutionContext)
  | redeem (redeem : Redeem) (bundle : StakingBundle) (ctx : ExecutionContext)
  | compound (bundles : List StakingBundle) (funding : NonEmpty DistributionFunding)

/-- A successful operation on a pool, on whatever bundles it is given. -/
inductive PoolStep : Pool → Action → Pool → Prop where
  | deposit {pool nextPool : Pool} {deposit : Deposit} {tokenDetails : TokenDetails}
      {ctx : ExecutionContext} {bundle : StakingBundleProto} {userOutput : DepositOutput}
      {executorOutput : ExecutorOutput} {minerOutput : MinerOutput}
      (hok : pool.applyDeposit deposit tokenDetails ctx =
        .ok (nextPool, bundle, userOutput, executorOutput, minerOutput)) :
      PoolStep pool (.deposit deposit tokenDetails ctx) nextPool
  | redeem {pool nextPool : Pool} {redeem : Redeem} {bundle : StakingBundle}
      {ctx : ExecutionContext} {userOutput : RedeemOutput} {executorOutput : ExecutorOutput}
      {minerOutput : MinerOutput}
      (hok : pool.applyRedeem redeem bundle ctx =
        .ok (nextPool, userOutput, executorOutput, minerOutput)) :
      PoolStep pool (.redeem redeem bundle ctx) nextPool
  | compound {pool nextPool : Pool} {bundles nextBundles : List StakingBundle}
      {funding : NonEmpty DistributionFunding} {nextFunding : Option DistributionFundingProto}
      {rewardOutputs : List RewardOutput} {minerOutput : MinerOutput}
      (hok : pool.distributeRewards bundles funding =
        .ok (nextPool, nextBundles, nextFunding, rewardOutputs, minerOutput)) :
      PoolStep pool (.compound bundles funding) nextPool

/-- The bundles of a list without the ids of their boxes. -/
def protos (bundles : List StakingBundle) : Multiset StakingBundleProto :=
  (bundles.map StakingBundle.toProto : List StakingBundleProto)

/-- A successful operation on the pool, and what becomes of the live bundles. -/
inductive Step : Staking → Action → Staking → Prop where
  | deposit {s : Staking} {deposit : Deposit} {tokenDetails : TokenDetails}
      {ctx : ExecutionContext} {pool : Pool} {bundle : StakingBundleProto}
      {userOutput : DepositOutput} {executorOutput : ExecutorOutput} {minerOutput : MinerOutput}
      (hok : s.pool.applyDeposit deposit tokenDetails ctx =
        .ok (pool, bundle, userOutput, executorOutput, minerOutput)) :
      Step s (.deposit deposit tokenDetails ctx) ⟨pool, bundle ::ₘ s.live, s.paid⟩
  | redeem {s : Staking} {redeem : Redeem} {bundle : StakingBundle} {ctx : ExecutionContext}
      {pool : Pool} {userOutput : RedeemOutput} {executorOutput : ExecutorOutput}
      {minerOutput : MinerOutput} {rest : Multiset StakingBundleProto}
      (hlive : s.live = bundle.toProto ::ₘ rest)
      (hok : s.pool.applyRedeem redeem bundle ctx =
        .ok (pool, userOutput, executorOutput, minerOutput)) :
      Step s (.redeem redeem bundle ctx) ⟨pool, rest, s.paid⟩
  | compound {s : Staking} {bundles : List StakingBundle}
      {funding : NonEmpty DistributionFunding} {pool : Pool} {nextBundles : List StakingBundle}
      {nextFunding : Option DistributionFundingProto} {rewardOutputs : List RewardOutput}
      {minerOutput : MinerOutput} {rest : Multiset StakingBundleProto}
      (hlive : s.live = protos bundles + rest)
      (hok : s.pool.distributeRewards bundles funding =
        .ok (pool, nextBundles, nextFunding, rewardOutputs, minerOutput)) :
      Step s (.compound bundles funding)
        ⟨pool, protos nextBundles + rest,
          s.paid + (rewardOutputs.map RewardOutput.rewardAmount).sum⟩

/-- A freshly deployed pool with its first bundle. -/
def Initial (input : DeployPoolInputs) (s : Staking) : Prop :=
  ∃ (minted : MintedTokens) (redeemerProp : SigmaProp) (bundle : StakingBundleProto),
    (deployPool input minted redeemerProp : Outcome Unit _) = .ok (s.pool, bundle) ∧
      s.live = {bundle} ∧ s.paid = 0

/-! ## Accounting -/

def totalVlq (bundles : Multiset StakingBundleProto) : ℕ :=
  (bundles.map fun b => b.vlq.amount).sum

def totalTmp (bundles : Multiset StakingBundleProto) : ℕ :=
  (bundles.map StakingBundleProto.tmpAmount).sum

/-- Nothing is created or lost. -/
structure Accounting (s : Staking) : Prop where
  vlq : s.pool.reservesVlq.amount + totalVlq s.live = maxValue
  lq : s.pool.reservesLq.amount = totalVlq s.live
  tmp : s.pool.reservesTmp.amount + totalTmp s.live = maxValue
  budget : s.pool.budgetRem.amount + s.paid = s.pool.conf.programBudget.amount

@[simp] theorem totalVlq_cons (b : StakingBundleProto) (bundles : Multiset StakingBundleProto) :
    totalVlq (b ::ₘ bundles) = b.vlq.amount + totalVlq bundles := by
  simp [totalVlq]

@[simp] theorem totalTmp_cons (b : StakingBundleProto) (bundles : Multiset StakingBundleProto) :
    totalTmp (b ::ₘ bundles) = b.tmpAmount + totalTmp bundles := by
  simp [totalTmp]

@[simp] theorem totalVlq_add (bundles bundles' : Multiset StakingBundleProto) :
    totalVlq (bundles + bundles') = totalVlq bundles + totalVlq bundles' := by
  simp [totalVlq]

@[simp] theorem totalTmp_add (bundles bundles' : Multiset StakingBundleProto) :
    totalTmp (bundles + bundles') = totalTmp bundles + totalTmp bundles' := by
  simp [totalTmp]

/-- Compounding leaves the liquidity of the bundles alone. -/
theorem totalVlq_settle (epochsRemain : ℕ) (bundles : List StakingBundle) :
    totalVlq (protos (bundles.map (Pool.settle epochsRemain))) = totalVlq (protos bundles) := by
  simp [totalVlq, protos, Function.comp_def]

/-- What a batch is charged is what its bundles no longer hold. -/
theorem totalTmp_settle {epochsRemain : ℕ} {bundles : List StakingBundle}
    (hburned : ∀ bundle ∈ bundles, epochsRemain < bundle.toProto.epochs) :
    totalTmp (protos (bundles.map (Pool.settle epochsRemain))) +
      Pool.charged epochsRemain bundles = totalTmp (protos bundles) := by
  induction bundles with
  | nil => rfl
  | cons bundle rest ih =>
      obtain ⟨hlt, hrest⟩ := List.forall_mem_cons.mp hburned
      have hkept := StakingBundleProto.lt_tmpAmount hlt
      have hsettle : (bundle.toProto.settle epochsRemain).tmpAmount =
          epochsRemain * bundle.toProto.vlq.amount :=
        StakingBundleProto.tmpAmount_settle (Nat.zero_lt_of_lt hkept)
      have := ih hrest
      simp only [totalTmp, protos, Pool.charged, List.map_cons, List.sum_cons,
        Multiset.map_coe, Multiset.sum_coe, Pool.toProto_settle, hsettle,
        StakingBundleProto.charge] at this ⊢
      omega

theorem Initial.accounting {input : DeployPoolInputs} {s : Staking} (h : Initial input s) :
    Accounting s := by
  obtain ⟨minted, redeemerProp, bundle, hdeploy, hlive, hpaid⟩ := h
  have hdeployed := deployPool_ok hdeploy
  refine ⟨?_, ?_, ?_, ?_⟩
  · simpa [hlive, totalVlq, hdeployed.bundle_vlq] using hdeployed.vlq_eq
  · simp [hlive, totalVlq, hdeployed.bundle_vlq, hdeployed.lq_eq]
  · simpa [hlive, totalTmp, hdeployed.bundle_tmp] using hdeployed.tmp_eq
  · rw [hpaid, hdeployed.budget_eq, hdeployed.conf_eq, Nat.add_zero]

/-- Each operation moves amounts between the pool and the live bundles. -/
theorem Accounting.step {s t : Staking} {action : Action} (h : Accounting s)
    (hstep : Step s action t) : Accounting t := by
  obtain ⟨hvlq, hlq, htmp, hbudget⟩ := h
  cases hstep with
  | deposit hok =>
      have happlied := Pool.applyDeposit_ok hok
      obtain ⟨hlq', hvlq', htmp'⟩ := happlied.amounts
      obtain ⟨-, hconf, -, hbudget'⟩ := happlied.frame
      refine ⟨?_, ?_, ?_, by simpa [hconf, hbudget'] using hbudget⟩ <;>
        simp only [totalVlq_cons, totalTmp_cons] <;> omega
  | @redeem _ bundle _ _ _ _ _ _ hlive hok =>
      have happlied := Pool.applyRedeem_ok hok
      obtain ⟨hlq', hvlq', htmp'⟩ := happlied.amounts
      obtain ⟨-, hconf, -, hbudget'⟩ := happlied.frame
      rw [hlive, totalVlq_cons] at hvlq hlq
      rw [hlive, totalTmp_cons] at htmp
      have hproto : bundle.toProto.vlq.amount = bundle.vlq.amount := rfl
      refine ⟨?_, ?_, ?_, by simpa [hconf, hbudget'] using hbudget⟩ <;> dsimp only <;> omega
  | compound hlive hok =>
      obtain ⟨epochIx, total, hdist⟩ := Pool.distributeRewards_ok hok
      obtain ⟨hbudget', htmp'⟩ := hdist.amounts
      obtain ⟨-, hconf, -, hlq', hvlq'⟩ := hdist.frame
      have hcharge := totalTmp_settle hdist.burned
      rw [hlive, totalVlq_add] at hvlq hlq
      rw [hlive, totalTmp_add] at htmp
      obtain rfl := hdist.nextBundles_eq
      refine ⟨?_, ?_, ?_, ?_⟩
      · simp only [totalVlq_add, totalVlq_settle, hvlq', hvlq]
      · simp only [totalVlq_add, totalVlq_settle, hlq', hlq]
      · simp only [totalTmp_add]
        omega
      · simp only [hdist.sum_rewards, hconf]
        omega

theorem Step.pool {s t : Staking} {action : Action} (hstep : Step s action t) :
    PoolStep s.pool action t.pool := by
  cases hstep with
  | deposit hok => exact .deposit hok
  | redeem _ hok => exact .redeem hok
  | compound _ hok => exact .compound hok

theorem run_pool {s t : Staking} {actions : List Action} (hrun : Run Step s actions t) :
    Run PoolStep s.pool actions t.pool := by
  induction hrun with
  | nil s => exact .nil _
  | cons hstep _ ih => exact .cons hstep.pool ih

/-- The identity of a pool, its configuration and its value never change, and its budget
never grows. -/
structure Frame (pool nextPool : Pool) : Prop where
  poolId : nextPool.poolId = pool.poolId
  conf : nextPool.conf = pool.conf
  ergValue : nextPool.ergValue = pool.ergValue
  budget : nextPool.budgetRem.amount ≤ pool.budgetRem.amount

theorem Frame.refl (pool : Pool) : Frame pool pool := ⟨rfl, rfl, rfl, le_rfl⟩

theorem Frame.trans {p q r : Pool} (hfirst : Frame p q) (hsecond : Frame q r) : Frame p r :=
  ⟨hsecond.poolId.trans hfirst.poolId, hsecond.conf.trans hfirst.conf,
    hsecond.ergValue.trans hfirst.ergValue, hsecond.budget.trans hfirst.budget⟩

theorem PoolStep.frame {pool nextPool : Pool} {action : Action}
    (hstep : PoolStep pool action nextPool) : Frame pool nextPool := by
  cases hstep with
  | deposit hok =>
      obtain ⟨hid, hconf, herg, hbudget⟩ := (Pool.applyDeposit_ok hok).frame
      exact ⟨hid, hconf, herg, by rw [hbudget]⟩
  | redeem hok =>
      obtain ⟨hid, hconf, herg, hbudget⟩ := (Pool.applyRedeem_ok hok).frame
      exact ⟨hid, hconf, herg, by rw [hbudget]⟩
  | compound hok =>
      obtain ⟨_, _, hdist⟩ := Pool.distributeRewards_ok hok
      obtain ⟨hid, hconf, herg, -⟩ := hdist.frame
      exact ⟨hid, hconf, herg, by have := hdist.amounts.1; omega⟩

theorem frame_of_run {pool nextPool : Pool} {actions : List Action}
    (hrun : Run PoolStep pool actions nextPool) : Frame pool nextPool :=
  hrun.relates (I := fun _ => True) (fun _ _ _ _ _ => trivial) Frame.refl
    (fun _ _ _ => Frame.trans) (fun _ _ _ _ h => h.frame) trivial

/-- In every state that a freshly deployed pool reaches, the reserves and the live bundles
together hold all the tokens, and the budget and the rewards paid are the program budget. -/
theorem accounting_of_run {input : DeployPoolInputs} {s t : Staking} {actions : List Action}
    (hinit : Initial input s) (hrun : Run Step s actions t) :
    Accounting t ∧ t.pool.poolId = s.pool.poolId ∧ t.pool.conf = input.conf ∧
      t.pool.ergValue = s.pool.ergValue := by
  have hframe := frame_of_run (run_pool hrun)
  have haccounting : Accounting t := hrun.invariant (fun _ _ _ h hstep => h.step hstep)
    hinit.accounting
  obtain ⟨_, _, _, hdeploy, -⟩ := hinit
  exact ⟨haccounting, hframe.poolId, hframe.conf.trans (deployPool_ok hdeploy).conf_eq,
    hframe.ergValue⟩

/-! ## A sample run -/

namespace Sample

def digest (byte : UInt8) : Digest32 := ⟨List.replicate 32 byte, List.length_replicate⟩

theorem zero_lt_u32 : 0 < 2 ^ 32 := by decide

theorem one_lt_u32 : 1 < 2 ^ 32 := by decide

def conf : ProgramConfig where
  epochLen := 10
  epochNum := 10
  programStart := 200
  redeemBlocksDelta := 10
  maxRoundingError := 11
  programBudget := ⟨digest 1, 10000⟩

def input : DeployPoolInputs := ⟨conf, ⟨digest 2, 100⟩, 10⟩

def minted : MintedTokens := ⟨digest 0, digest 3, digest 4, digest 5⟩

/-- The pool just after its deployment. -/
def pool : Pool where
  poolId := ⟨digest 0⟩
  budgetRem := ⟨digest 1, 10000⟩
  reservesLq := ⟨digest 2, 100⟩
  reservesVlq := ⟨digest 3, maxValue - 100⟩
  reservesTmp := ⟨digest 4, maxValue - 1000⟩
  epochIx := none
  conf := conf
  ergValue := minSafeFatBoxValue

def bundleProto : StakingBundleProto where
  bundleKeyId := ⟨digest 5⟩
  poolId := ⟨digest 0⟩
  vlq := ⟨digest 3, 100⟩
  tmp := some ⟨digest 4, 1000⟩
  redeemerProp := ⟨[]⟩
  ergValue := minSafeFatBoxValue
  tokenName := ""
  tokenDesc := ""

def bundle : StakingBundle := bundleProto.finalize ⟨digest 6⟩

def funding : NonEmpty DistributionFunding := ⟨⟨⟨digest 7⟩, ⟨[]⟩, 4000000⟩, []⟩

/-- The pool after the first epoch. -/
def compounded : Pool :=
  { pool with
    budgetRem := ⟨digest 1, 9001⟩
    reservesTmp := ⟨digest 4, maxValue - 900⟩
    epochIx := some 1 }

def compoundedBundle : StakingBundle := { bundle with tmp := some ⟨digest 4, 900⟩ }

theorem distributeRewards_eq : pool.distributeRewards [bundle] funding =
    .ok (compounded, [compoundedBundle], some ⟨⟨[]⟩, 750000⟩,
      [⟨some ⟨digest 1, 999⟩, ⟨[]⟩, minSafeBoxValue⟩], ⟨defaultMinerFeeForCompoundTx⟩) := by
  decide +kernel

theorem initial : Initial input ⟨pool, {bundleProto}, 0⟩ :=
  ⟨minted, ⟨[]⟩, bundleProto, by decide +kernel, rfl, rfl⟩

/-! Another stake joins in time, the first epoch is compounded in two batches, and the stake
leaves again. -/

def details : TokenDetails := ⟨"", ""⟩

theorem joinHeight_lt : 190 < 2 ^ 32 := by decide

def joinContext : ExecutionContext where
  height := 190
  mintableTokenId := digest 10
  executorProp := ⟨[]⟩
  height_lt := joinHeight_lt

def joinDeposit : Deposit where
  orderId := ⟨digest 8⟩
  poolId := ⟨digest 0⟩
  redeemerProp := ⟨[7]⟩
  bundlePropHash := digest 9
  maxMinerFee := 0
  lq := ⟨digest 2, 100⟩
  ergValue := 3000000
  expectedNumEpochs := 10

def joinedProto : StakingBundleProto :=
  { bundleProto with
    bundleKeyId := ⟨digest 10⟩
    redeemerProp := ⟨[7]⟩ }

def joined : StakingBundle := joinedProto.finalize ⟨digest 11⟩

/-- The pool with both stakes. -/
def joinedPool : Pool :=
  { pool with
    reservesLq := ⟨digest 2, 200⟩
    reservesVlq := ⟨digest 3, maxValue - 200⟩
    reservesTmp := ⟨digest 4, maxValue - 2000⟩ }

/-- The pool between the two batches. -/
def halfway : Pool :=
  { joinedPool with
    budgetRem := ⟨digest 1, 9501⟩
    reservesTmp := ⟨digest 4, maxValue - 1900⟩
    epochIx := some 1 }

def bothCompounded : Pool :=
  { joinedPool with
    budgetRem := ⟨digest 1, 9001⟩
    reservesTmp := ⟨digest 4, maxValue - 1800⟩
    epochIx := some 1 }

def joinedCompounded : StakingBundle := { joined with tmp := some ⟨digest 4, 900⟩ }

def leaveRedeem : Redeem where
  orderId := ⟨digest 12⟩
  poolId := ⟨digest 0⟩
  redeemerProp := ⟨[7]⟩
  bundleKey := ⟨digest 10, bundleKeyAmountUser⟩
  expectedLq := ⟨digest 2, 100⟩
  maxMinerFee := 0
  ergValue := 3000000

def rewardOf (amount : ℕ) (redeemerProp : SigmaProp) : RewardOutput :=
  ⟨some ⟨digest 1, amount⟩, redeemerProp, minSafeBoxValue⟩

/-- The four operations; the last of them leaves the pool as if only one stake had ever been in
it. -/
theorem operations :
    pool.applyDeposit joinDeposit details joinContext =
        .ok (joinedPool, joinedProto,
          ⟨⟨digest 10, bundleKeyAmountUser⟩, ⟨[7]⟩, minSafeFatBoxValue, "", ""⟩, ⟨⟨[]⟩, 956000⟩,
          ⟨defaultMinerFee⟩) ∧
      joinedPool.distributeRewards [bundle] funding =
        .ok (halfway, [compoundedBundle], some ⟨⟨[]⟩, 750000⟩, [rewardOf 499 ⟨[]⟩],
          ⟨defaultMinerFeeForCompoundTx⟩) ∧
      halfway.distributeRewards [joined] funding =
        .ok (bothCompounded, [joinedCompounded], some ⟨⟨[]⟩, 750000⟩, [rewardOf 500 ⟨[7]⟩],
          ⟨defaultMinerFeeForCompoundTx⟩) ∧
      bothCompounded.applyRedeem leaveRedeem joinedCompounded joinContext =
        .ok (compounded, ⟨⟨digest 2, 100⟩, ⟨[7]⟩, minSafeBoxValue⟩, ⟨⟨[]⟩, 2272000⟩,
          ⟨defaultMinerFee⟩) := by
  refine ⟨?_, ?_, ?_, ?_⟩ <;> decide +kernel

def joinAndLeave : List Action :=
  [.deposit joinDeposit details joinContext, .compound [bundle] funding, .compound [joined] funding,
    .redeem leaveRedeem joinedCompounded joinContext]

theorem live_joined :
    joinedProto ::ₘ {bundleProto} = protos [bundle] + ({joinedProto} : Multiset _) := by
  rw [add_comm]
  rfl

theorem live_halfway :
    protos [compoundedBundle] + ({joinedProto} : Multiset _) =
      protos [joined] + ({compoundedBundle.toProto} : Multiset _) := by
  rw [add_comm]
  rfl

theorem run : Run Step ⟨pool, {bundleProto}, 0⟩ joinAndLeave
    ⟨compounded, {compoundedBundle.toProto}, 999⟩ := by
  obtain ⟨hdeposit, hfirst, hsecond, hredeem⟩ := operations
  refine .cons (.deposit hdeposit) ?_
  refine .cons (.compound live_joined hfirst) ?_
  refine .cons (.compound live_halfway hsecond) ?_
  exact .single (.redeem rfl hredeem)

end Sample

theorem accounting_of_run_sample :
    Accounting ⟨Sample.compounded, {Sample.compoundedBundle.toProto}, 999⟩ ∧
      Sample.compounded.poolId = Sample.pool.poolId ∧ Sample.compounded.conf = Sample.input.conf ∧
      Sample.compounded.ergValue = Sample.pool.ergValue :=
  accounting_of_run Sample.initial Sample.run

end Staking

end SpectrumOffchain
