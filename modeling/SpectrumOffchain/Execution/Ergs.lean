import SpectrumOffchain.Execution.Prediction

/-!
# The ERG of a transaction

The change of a deposit and of a redeem goes to the executor, so what comes in goes out.
The change of a compound transaction is what is left of the funding after a box for each
bundle and the fee, and the subtraction saturates: when the funding does not cover them,
more goes out than came in.  The funding is collected for an estimate of another form,
which does not cover up to three bundles (`short_funding`).
-/

namespace SpectrumOffchain

namespace TransactionCandidate

def ergsIn (tx : TransactionCandidate) : ℕ :=
  (tx.inputs.toList.map fun input => input.1.value.toNat).sum

def ergsOut (tx : TransactionCandidate) : ℕ :=
  (tx.outputCandidates.toList.map fun c => c.value.toNat).sum

theorem ergsIn_eq {tx : TransactionCandidate} {boxes : List ErgoBox}
    (h : tx.inputs.toList.map Prod.fst = boxes) :
    tx.ergsIn = (boxes.map fun bx => bx.value.toNat).sum := by
  rw [ergsIn, ← h, List.map_map]
  rfl

theorem ergsOut_eq {tx : TransactionCandidate} {contents : List BoxContents}
    (h : tx.outputCandidates.toList.map ErgoBoxCandidate.contents = contents) :
    tx.ergsOut = (contents.map BoxContents.value).sum := by
  rw [ergsOut, ← h, List.map_map]
  rfl

end TransactionCandidate

section ErgoLib

variable [ErgoLib]

/-- A deposit and a redeem conserve ERG, and a compound order does exactly when its funding pays for
a box for each bundle and the fee. -/
structure ConservesErgs (pool : AsBox Pool) : Prop where
  deposit : ∀ (order : AsBox Deposit) tokenDetails ctx tx nextPool bundle,
    order.value.ergValue = order.bx.value.toNat →
    Deposit.tryRun order pool tokenDetails ctx = .ok (tx, nextPool, bundle) →
    tx.ergsIn = tx.ergsOut
  redeem : ∀ (order : AsBox Redeem) (bundle : AsBox StakingBundle) ctx tx nextPool,
    order.value.ergValue = order.bx.value.toNat → bundle.value.ergValue = bundle.bx.value.toNat →
    Redeem.tryRun order pool bundle ctx = .ok (tx, nextPool) → tx.ergsIn = tx.ergsOut
  compound : ∀ (order : Compound) (bundles : List (AsBox StakingBundle))
    (funding : NonEmpty (AsBox DistributionFunding)) ctx tx nextPool nextBundles nextFunding,
    (∀ b ∈ bundles, b.value.ergValue = b.bx.value.toNat) →
    (∀ f ∈ funding.toList, f.value.ergValue = f.bx.value.toNat) →
    order.tryRun pool bundles funding ctx = .ok (tx, nextPool, nextBundles, nextFunding) →
    (tx.ergsIn = tx.ergsOut ↔
      minSafeBoxValue * bundles.length + defaultMinerFeeForCompoundTx ≤
        (funding.toList.map fun f => f.value.ergValue).sum)

theorem DepositRan.ergs {order : AsBox Deposit} {pool : AsBox Pool} {tokenDetails : TokenDetails}
    {ctx : ExecutionContext} {tx : TransactionCandidate} {nextPool : AsBox Pool}
    {bundle : AsBox StakingBundle} {proto : StakingBundleProto} {userOut : DepositOutput}
    {executorOut : ExecutorOutput} {minerOut : MinerOutput}
    (h : DepositRan order pool tokenDetails ctx tx nextPool bundle proto userOut executorOut
      minerOut)
    (hpool : pool.value.ergValue = pool.bx.value.toNat)
    (horder : order.value.ergValue = order.bx.value.toNat) : tx.ergsIn = tx.ergsOut := by
  obtain ⟨-, -, hframe, -⟩ := h.applied.frame
  have hergs := h.applied.ergs
  have hin : tx.ergsIn = pool.bx.value.toNat + order.bx.value.toNat := by
    rw [tx.ergsIn_eq h.inputs_eq]
    simp only [List.map_cons, List.map_nil, List.sum_cons, List.sum_nil, Nat.add_zero]
  have hout : tx.ergsOut = nextPool.value.ergValue + (userOut.ergValue + (proto.ergValue +
      (executorOut.ergValue + minerOut.ergValue))) := by
    rw [tx.ergsOut_eq h.contents_eq]
    simp only [List.map_cons, List.map_nil, List.sum_cons, List.sum_nil, Nat.add_zero]
    rfl
  omega

theorem RedeemRan.ergs {order : AsBox Redeem} {pool : AsBox Pool} {bundle : AsBox StakingBundle}
    {ctx : ExecutionContext} {tx : TransactionCandidate} {nextPool : AsBox Pool}
    {userOut : RedeemOutput} {executorOut : ExecutorOutput} {minerOut : MinerOutput}
    (h : RedeemRan order pool bundle ctx tx nextPool userOut executorOut minerOut)
    (hpool : pool.value.ergValue = pool.bx.value.toNat)
    (horder : order.value.ergValue = order.bx.value.toNat)
    (hbundle : bundle.value.ergValue = bundle.bx.value.toNat) : tx.ergsIn = tx.ergsOut := by
  obtain ⟨-, -, hframe, -⟩ := h.applied.frame
  have hergs := h.applied.ergs
  have hin : tx.ergsIn = pool.bx.value.toNat + (bundle.bx.value.toNat + order.bx.value.toNat) := by
    rw [tx.ergsIn_eq h.inputs_eq]
    simp only [List.map_cons, List.map_nil, List.sum_cons, List.sum_nil, Nat.add_zero]
  have hout : tx.ergsOut = nextPool.value.ergValue + (userOut.ergValue +
      (executorOut.ergValue + minerOut.ergValue)) := by
    rw [tx.ergsOut_eq h.contents_eq]
    simp only [List.map_cons, List.map_nil, List.sum_cons, List.sum_nil, Nat.add_zero]
    rfl
  omega

/-- What goes out of a compound transaction beyond what came in. -/
theorem CompoundRan.ergs {pool : AsBox Pool} {bundles : List (AsBox StakingBundle)}
    {funding : NonEmpty (AsBox DistributionFunding)} {tx : TransactionCandidate}
    {nextPool : AsBox Pool} {nextBundles : List (Predicted (AsBox StakingBundle))}
    {nextFunding : Option (Predicted (AsBox DistributionFunding))}
    {settled : List StakingBundle} {residual : Option DistributionFundingProto}
    {rewards : List RewardOutput} {minerOut : MinerOutput} {epochIx total : ℕ}
    (h : CompoundRan pool bundles funding tx nextPool nextBundles nextFunding settled residual
      rewards minerOut epochIx total)
    (hpool : pool.value.ergValue = pool.bx.value.toNat)
    (hbundles : ∀ b ∈ bundles, b.value.ergValue = b.bx.value.toNat)
    (hfunding : ∀ f ∈ funding.toList, f.value.ergValue = f.bx.value.toNat) :
    tx.ergsOut = tx.ergsIn + (minSafeBoxValue * bundles.length + defaultMinerFeeForCompoundTx -
      (funding.toList.map fun f => f.value.ergValue).sum) := by
  obtain ⟨-, -, hframe, -⟩ := h.applied.frame
  have hergs := h.applied.ergs
  have htotal : total = (funding.toList.map fun f => f.value.ergValue).sum := by
    rw [h.applied.total_eq, NonEmpty.toList_map, List.map_map]
    rfl
  have hcost : Pool.distributionCost (bundles.map AsBox.value) =
      minSafeBoxValue * bundles.length + defaultMinerFeeForCompoundTx := by
    rw [Pool.distributionCost, List.length_map]
  have hsettled : (settled.map StakingBundle.ergValue).sum =
      (bundles.map fun b => b.value.ergValue).sum := by
    rw [h.applied.bundle_ergs, List.map_map]
    rfl
  -- Both sums are read off the layout of the transaction; the pool and the bundles cancel.
  have hin : tx.ergsIn = pool.bx.value.toNat +
      (funding.toList.map fun f => f.value.ergValue).sum +
        (bundles.map fun b => b.value.ergValue).sum := by
    rw [tx.ergsIn_eq h.inputs_eq, List.map_congr_left hbundles, List.map_congr_left hfunding]
    simp only [List.map_append, List.map_cons, List.map_nil, List.map_map, List.sum_append,
      List.sum_cons, List.sum_nil, Nat.add_zero]
    rfl
  have hout : tx.ergsOut = nextPool.value.ergValue +
      (residual.toList.map DistributionFundingProto.ergValue).sum +
        (settled.map StakingBundle.ergValue).sum + (rewards.map RewardOutput.ergValue).sum +
          minerOut.ergValue := by
    rw [tx.ergsOut_eq h.contents_eq]
    simp only [List.map_append, List.map_cons, List.map_nil, List.map_map, List.sum_append,
      List.sum_cons, List.sum_nil, Nat.add_zero]
    rfl
  omega

/-- Of a pool with the value of its box. -/
theorem conservesErgs {pool : AsBox Pool} (hpool : pool.value.ergValue = pool.bx.value.toNat) :
    ConservesErgs pool := by
  refine ⟨?_, ?_, ?_⟩
  · intro order tokenDetails ctx tx nextPool bundle horder hok
    obtain ⟨proto, userOut, executorOut, minerOut, hran⟩ := Deposit.tryRun_ok hok
    exact hran.ergs hpool horder
  · intro order bundle ctx tx nextPool horder hbundle hok
    obtain ⟨userOut, executorOut, minerOut, hran⟩ := Redeem.tryRun_ok hok
    exact hran.ergs hpool horder hbundle
  · intro order bundles funding ctx tx nextPool nextBundles nextFunding hbundles hfunding hok
    obtain ⟨settled, residual, rewards, minerOut, epochIx, total, hran⟩ := Compound.tryRun_ok hok
    have hergs := hran.ergs hpool hbundles hfunding
    constructor
    · intro hconserved
      omega
    · intro hcovered
      omega

end ErgoLib

open Sample in
theorem conservesErgs_sample : ConservesErgs ⟨poolBox, Staking.Sample.pool⟩ :=
  conservesErgs rfl

/-! ## Funding that is too short

For one bundle a million is collected, and three and a quarter are spent. -/

namespace Sample

open Staking.Sample

def shortFundingBox : ErgoBox := box BoxValue.safeUserMin ⟨[2]⟩ none .empty 7

def shortFunding : DistributionFunding := ⟨⟨digest 7⟩, ⟨[2]⟩, 1000000⟩

theorem distributeRewards_short :
    pool.distributeRewards [bundle] ⟨shortFunding, []⟩ =
      .ok (compounded, [compoundedBundle], none,
        [⟨some ⟨digest 1, 999⟩, ⟨[]⟩, minSafeBoxValue⟩], ⟨defaultMinerFeeForCompoundTx⟩) := by
  decide +kernel

theorem tryRun_short : ∃ tx nextPool nextBundles nextFunding,
    compound.tryRun ⟨poolBox, pool⟩ [⟨bundleBox, bundle⟩] ⟨⟨shortFundingBox, shortFunding⟩, []⟩
      context = .ok (tx, nextPool, nextBundles, nextFunding) := by
  have hpool : compounded.contents.Writable := by decide +kernel
  have hbundle : compoundedBundle.toProto.contents.Writable := by decide +kernel
  have hreward : (RewardOutput.mk (some ⟨digest 1, 999⟩) ⟨[]⟩ minSafeBoxValue).contents.Writable := by
    decide +kernel
  have hminer : (MinerOutput.mk defaultMinerFeeForCompoundTx).contents.Writable := by
    decide +kernel
  have hrun : ∃ result, compound.tryRun ⟨poolBox, pool⟩ [⟨bundleBox, bundle⟩]
      ⟨⟨shortFundingBox, shortFunding⟩, []⟩ context = .ok result :=
    Compound.exists_tryRun compound distributeRewards_short hpool nofun
      (List.forall_mem_singleton.mpr hbundle) (List.forall_mem_singleton.mpr hreward) hminer
      (by simp) (by decide) (by decide)
  obtain ⟨⟨tx, nextPool, nextBundles, nextFunding⟩, hok⟩ := hrun
  exact ⟨tx, nextPool, nextBundles, nextFunding, hok⟩

end Sample

open Sample in
/-- A compound order with the funding that is collected for it, which spends more than it has. -/
theorem short_funding : ∃ tx nextPool nextBundles nextFunding,
    compound.tryRun ⟨poolBox, Staking.Sample.pool⟩ [⟨bundleBox, Staking.Sample.bundle⟩]
        ⟨⟨shortFundingBox, shortFunding⟩, []⟩ context =
      .ok (tx, nextPool, nextBundles, nextFunding) ∧
      (compound.estimatedMinValue : Outcome Unit ℕ) = .ok shortFunding.ergValue ∧
      Staking.Sample.pool.ergValue = poolBox.value.toNat ∧
      Staking.Sample.bundle.ergValue = bundleBox.value.toNat ∧
      shortFunding.ergValue = shortFundingBox.value.toNat ∧ tx.ergsIn < tx.ergsOut := by
  obtain ⟨tx, nextPool, nextBundles, nextFunding, hok⟩ := tryRun_short
  obtain ⟨settled, residual, rewards, minerOut, epochIx, total, hran⟩ := Compound.tryRun_ok hok
  have hergs := hran.ergs rfl (List.forall_mem_singleton.mpr rfl) (List.forall_mem_singleton.mpr rfl)
  have hshort : 0 < minSafeBoxValue * 1 + defaultMinerFeeForCompoundTx - shortFunding.ergValue := by
    decide +kernel
  refine ⟨tx, nextPool, nextBundles, nextFunding, hok, rfl, rfl, rfl, rfl, ?_⟩
  rw [hergs]
  exact Nat.lt_add_of_pos_right hshort

end SpectrumOffchain
