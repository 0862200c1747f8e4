import SpectrumOffchain.Execution.Prediction

/-!
# The tokens of a transaction

The arithmetic on amounts keeps the id of the left operand, and neither the parsers nor
the operations compare the ids of an order or a bundle with those of the pool: that is
left to the contracts.  When the ids agree, no token is created but the one that a
deposit mints, and the tokens that disappear are those that a box of the pool, of a
bundle or of the executor holds beyond what is written back.  When they do not, a
deposit turns any token into liquidity of the pool (`foreign_tokens`).

## Strategy

Amounts are compared one token at a time.  `totalOf id` is what a list of assets holds of
one token, and it is linear in all that an operation does: `amountOf_add` splits an amount
where the ids agree, `amountOf_sum` takes it out of a sum over bundles.

For each transaction one equation gives what its outputs hold in terms of the boxes that it
spends (`DepositRan.tokensOut_eq`, `RedeemRan.tokensOut_eq`, `CompoundRan.tokensOut_eq`).
The hypotheses are the agreements of ids that the contracts are trusted with.  A pool and a
bundle that were read off boxes hold at least what is written back of them
(`Pool.totalOf_box`, `StakingBundle.totalOf_box`), the rest is what disappears.
-/

namespace SpectrumOffchain

/-! ## The amount of one token -/

/-- How much of the token `id` an asset is. -/
def amountOf (id : TokenId) (a : TokenId × ℕ) : ℕ := if a.1 = id then a.2 else 0

/-- How much of the token `id` there is in a list of assets. -/
def totalOf (id : TokenId) (assets : List (TokenId × ℕ)) : ℕ := (assets.map (amountOf id)).sum

@[simp] theorem totalOf_nil (id : TokenId) : totalOf id [] = 0 := rfl

@[simp] theorem totalOf_cons (id : TokenId) (a : TokenId × ℕ) (assets : List (TokenId × ℕ)) :
    totalOf id (a :: assets) = amountOf id a + totalOf id assets := by
  rw [totalOf, List.map_cons, List.sum_cons]
  rfl

@[simp] theorem totalOf_append (id : TokenId) (assets assets' : List (TokenId × ℕ)) :
    totalOf id (assets ++ assets') = totalOf id assets + totalOf id assets' := by
  rw [totalOf, List.map_append, List.sum_append]
  rfl

theorem amountOf_of_ne {id : TokenId} {a : TokenId × ℕ} (h : a.1 ≠ id) : amountOf id a = 0 :=
  if_neg h

theorem amountOf_mono (id x : TokenId) {m n : ℕ} (h : m ≤ n) :
    amountOf id (x, m) ≤ amountOf id (x, n) := by
  unfold amountOf
  split
  · exact h
  · exact le_refl 0

/-- Two amounts of one token add up. -/
theorem amountOf_add {a b c : TokenId × ℕ} (hb : b.1 = a.1) (hc : c.1 = a.1)
    (h : b.2 + c.2 = a.2) (id : TokenId) : amountOf id b + amountOf id c = amountOf id a := by
  unfold amountOf
  rw [hb, hc, ← h]
  split
  · rfl
  · rfl

theorem amountOf_sum {α : Type} (id x : TokenId) (f : α → ℕ) (items : List α) :
    (items.map fun item => amountOf id (x, f item)).sum = amountOf id (x, (items.map f).sum) := by
  induction items with
  | nil => exact (ite_self 0).symm
  | cons item rest ih =>
      rw [List.map_cons, List.sum_cons, ih, List.map_cons, List.sum_cons]
      apply amountOf_add
      · rfl
      · rfl
      · rfl

theorem totalOf_eq_zero {id : TokenId} {assets : List (TokenId × ℕ)}
    (h : ∀ a ∈ assets, a.1 ≠ id) : totalOf id assets = 0 := by
  induction assets with
  | nil => rfl
  | cons a rest ih =>
      obtain ⟨ha, hrest⟩ := List.forall_mem_cons.mp h
      rw [totalOf_cons, amountOf_of_ne ha, ih hrest]

/-- An amount that may be missing, of a token that is known. -/
theorem totalOf_toList {T : Asset} {amount : Option (TypedAssetAmount T)} {x : TokenId}
    (h : ∀ a ∈ amount, a.tokenId = x) (id : TokenId) :
    totalOf id (amount.toList.map TypedAssetAmount.asset) =
      amountOf id (x, (amount.map TypedAssetAmount.amount).getD 0) := by
  cases amount with
  | none => exact (ite_self 0).symm
  | some a =>
      obtain rfl := h a rfl
      rfl

namespace TransactionCandidate

def tokensIn (tx : TransactionCandidate) (id : TokenId) : ℕ :=
  (tx.inputs.toList.map fun input => totalOf id input.1.assets).sum

def tokensOut (tx : TransactionCandidate) (id : TokenId) : ℕ :=
  (tx.outputCandidates.toList.map fun c => totalOf id c.assets).sum

theorem tokensIn_eq {tx : TransactionCandidate} {boxes : List ErgoBox}
    (h : tx.inputs.toList.map Prod.fst = boxes) (id : TokenId) :
    tx.tokensIn id = (boxes.map fun bx => totalOf id bx.assets).sum := by
  rw [tokensIn, ← h, List.map_map]
  rfl

theorem tokensOut_eq {tx : TransactionCandidate} {contents : List BoxContents}
    (h : tx.outputCandidates.toList.map ErgoBoxCandidate.contents = contents) (id : TokenId) :
    tx.tokensOut id = (contents.map fun k => totalOf id k.assets).sum := by
  rw [tokensOut, ← h, List.map_map]
  rfl

end TransactionCandidate

/-! ## What the entities hold -/

/-- The assets of a pool, of which only one NFT is written back. -/
theorem Pool.totalOf_contents (pool : Pool) (id : TokenId) :
    totalOf id pool.contents.assets = amountOf id (pool.poolId.tokenId, unitValue) +
      amountOf id pool.budgetRem.asset + amountOf id pool.reservesLq.asset +
      amountOf id pool.reservesVlq.asset + amountOf id pool.reservesTmp.asset := by
  simp only [contents, totalOf_cons, totalOf_nil, Nat.add_zero, ← Nat.add_assoc]
  rfl

/-- A box that a pool was read off holds what the pool is written as, and maybe more NFTs. -/
theorem Pool.totalOf_box {bx : ErgoBox} {pool : Pool} (h : Pool.tryFromBox bx = some pool)
    (id : TokenId) : totalOf id pool.contents.assets ≤ totalOf id bx.assets ∧
      (id ≠ pool.poolId.tokenId → totalOf id pool.contents.assets = totalOf id bx.assets) := by
  obtain ⟨-, n, hn, hassets⟩ := Pool.assets_of_tryFromBox h
  have hnft : amountOf id (pool.poolId.tokenId, unitValue) ≤ amountOf id (pool.poolId.tokenId, n) :=
    amountOf_mono id _ hn
  rw [pool.totalOf_contents, hassets]
  simp only [totalOf_cons, totalOf_nil]
  refine ⟨by omega, fun hne => ?_⟩
  have hzero : ∀ m, amountOf id (pool.poolId.tokenId, m) = 0 := fun m => amountOf_of_ne hne.symm
  rw [hzero, hzero]
  omega

theorem StakingBundleProto.totalOf_contents {bundle : StakingBundleProto} {tmpId : TokenId}
    (h : ∀ tmp ∈ bundle.tmp, tmp.tokenId = tmpId) (id : TokenId) :
    totalOf id bundle.contents.assets = amountOf id bundle.vlq.asset +
      amountOf id (tmpId, bundle.tmpAmount) +
        amountOf id (bundle.bundleKeyId.tokenId, bundleKeyAmount) := by
  simp only [contents, totalOf_append, totalOf_cons, totalOf_nil, totalOf_toList h]
  rfl

/-- A box that a bundle was read off holds what the bundle is written as, and maybe more keys. -/
theorem StakingBundle.totalOf_box {bx : ErgoBox} {bundle : StakingBundle}
    (h : StakingBundle.tryFromBox bx = some bundle) (id : TokenId) :
    totalOf id bundle.toProto.contents.assets ≤ totalOf id bx.assets ∧
      (id ≠ bundle.bundleKeyId.tokenId →
        totalOf id bundle.toProto.contents.assets = totalOf id bx.assets) := by
  obtain ⟨-, n, hn, hassets⟩ := StakingBundle.assets_of_tryFromBox h
  have hkey : amountOf id (bundle.bundleKeyId.tokenId, bundleKeyAmount) ≤
      amountOf id (bundle.bundleKeyId.tokenId, n) := amountOf_mono id _ hn
  rw [hassets]
  simp only [StakingBundleProto.contents, toProto, totalOf_append, totalOf_cons, totalOf_nil]
  refine ⟨by omega, fun hne => ?_⟩
  have hzero : ∀ m, amountOf id (bundle.bundleKeyId.tokenId, m) = 0 :=
    fun m => amountOf_of_ne hne.symm
  rw [hzero, hzero]

/-- What compounding takes from a bundle is missing from the box that is written back. -/
theorem StakingBundleProto.totalOf_settle {bundle : StakingBundleProto} {tmpId : TokenId}
    {epochsRemain : ℕ} (htmp : ∀ tmp ∈ bundle.tmp, tmp.tokenId = tmpId)
    (hlt : epochsRemain < bundle.epochs) (id : TokenId) :
    totalOf id (bundle.settle epochsRemain).contents.assets +
        amountOf id (tmpId, bundle.charge epochsRemain) = totalOf id bundle.contents.assets := by
  have hkept := lt_tmpAmount hlt
  have hpos : 0 < bundle.tmpAmount := Nat.zero_lt_of_lt hkept
  have hsettled : ∀ tmp ∈ (bundle.settle epochsRemain).tmp, tmp.tokenId = tmpId := by
    intro tmp hmem
    obtain ⟨before, hbefore, hmem⟩ := Option.bind_eq_some_iff.mp hmem
    split at hmem
    · cases hmem
    · cases hmem
      exact htmp before hbefore
  have hsum : (bundle.settle epochsRemain).tmpAmount + bundle.charge epochsRemain =
      bundle.tmpAmount := by
    rw [tmpAmount_settle hpos, charge]
    omega
  have hsplit : amountOf id (tmpId, (bundle.settle epochsRemain).tmpAmount) +
      amountOf id (tmpId, bundle.charge epochsRemain) = amountOf id (tmpId, bundle.tmpAmount) := by
    apply amountOf_add
    · rfl
    · rfl
    · exact hsum
  rw [totalOf_contents hsettled, totalOf_contents htmp, ← hsplit]
  simp only [settle]
  omega

/-- What a distribution takes from the pool and the bundles it gives to the pool, the bundles and
their redeemers. -/
theorem Pool.Distributed.totalOf_eq [ErgoLib] {pool : Pool} {bundles : List StakingBundle}
    {funding : NonEmpty DistributionFunding} {nextPool : Pool} {nextBundles : List StakingBundle}
    {nextFunding : Option DistributionFundingProto} {rewardOutputs : List RewardOutput}
    {minerOutput : MinerOutput} {epochIx total : ℕ}
    (h : Distributed pool bundles funding nextPool nextBundles nextFunding rewardOutputs
      minerOutput epochIx total)
    (htmpId : ∀ b ∈ bundles, ∀ tmp ∈ b.tmp, tmp.tokenId = pool.reservesTmp.tokenId)
    (id : TokenId) :
    totalOf id nextPool.contents.assets +
        (nextBundles.map fun b => totalOf id b.toProto.contents.assets).sum +
        (rewardOutputs.map fun r => totalOf id r.contents.assets).sum =
      totalOf id pool.contents.assets +
        (bundles.map fun b => totalOf id b.toProto.contents.assets).sum := by
  have hnext := h.nextPool_eq
  have hcharged : (nextBundles.map fun b => totalOf id b.toProto.contents.assets).sum +
      amountOf id (pool.reservesTmp.tokenId, charged (pool.epochsRemain epochIx) bundles) =
        (bundles.map fun b => totalOf id b.toProto.contents.assets).sum := by
    rw [h.nextBundles_eq, List.map_map, charged, ← amountOf_sum, ← List.sum_map_add]
    refine congrArg List.sum (List.map_congr_left fun b hmem => ?_)
    exact StakingBundleProto.totalOf_settle (htmpId b hmem) (h.burned b hmem) id
  -- every reward is paid out of the budget
  have hpaid : (rewardOutputs.map fun r => totalOf id r.contents.assets).sum =
      amountOf id (pool.budgetRem.tokenId, pool.paid (pool.epochsRemain epochIx) bundles) := by
    rw [h.rewardOutputs_eq, List.map_map, paid, ← amountOf_sum]
    refine congrArg List.sum (List.map_congr_left fun b hmem => ?_)
    rw [← pool.rewardAmount_rewardOutput]
    apply totalOf_toList
    intro reward hreward
    dsimp only [rewardOutput] at hreward
    split at hreward
    · cases hreward
      rfl
    · cases hreward
  have hbudget : amountOf id nextPool.budgetRem.asset + amountOf id (pool.budgetRem.tokenId,
      pool.paid (pool.epochsRemain epochIx) bundles) = amountOf id pool.budgetRem.asset := by
    rw [hnext]
    apply amountOf_add
    · rfl
    · rfl
    · exact Nat.sub_add_cancel h.paid_le
  -- what the bundles are charged goes back to the reserves
  have htmp : amountOf id pool.reservesTmp.asset + amountOf id (pool.reservesTmp.tokenId,
      charged (pool.epochsRemain epochIx) bundles) = amountOf id nextPool.reservesTmp.asset := by
    rw [hnext]
    apply amountOf_add
    · rfl
    · rfl
    · rfl
  obtain ⟨hpoolId, -, -, hlq, hvlq⟩ := h.frame
  rw [hpaid, ← hcharged, totalOf_contents, totalOf_contents, hpoolId, hlq, hvlq]
  omega

/-! ## The three transactions -/

section ErgoLib

variable [ErgoLib]

theorem DepositRan.tokensOut_eq {order : AsBox Deposit} {pool : AsBox Pool}
    {tokenDetails : TokenDetails} {ctx : ExecutionContext} {tx : TransactionCandidate}
    {nextPool : AsBox Pool} {bundle : AsBox StakingBundle} {proto : StakingBundleProto}
    {userOut : DepositOutput} {executorOut : ExecutorOutput} {minerOut : MinerOutput}
    (h : DepositRan order pool tokenDetails ctx tx nextPool bundle proto userOut executorOut
      minerOut)
    (hid : order.value.lq.tokenId = pool.value.reservesLq.tokenId) {id : TokenId}
    (hne : id ≠ ctx.mintableTokenId) :
    tx.tokensOut id =
      totalOf id pool.value.contents.assets + amountOf id order.value.lq.asset := by
  have hnext := h.applied.nextPool_eq
  have hproto := h.applied.bundle_eq
  -- what the deposit mints is not counted
  have huser : amountOf id userOut.bundleKey.asset = 0 := by
    rw [h.applied.userOutput_eq]
    exact amountOf_of_ne hne.symm
  have hkey : amountOf id (proto.bundleKeyId.tokenId, bundleKeyAmount) = 0 := by
    rw [hproto]
    exact amountOf_of_ne hne.symm
  have htmpId : ∀ tmp ∈ proto.tmp, tmp.tokenId = pool.value.reservesTmp.tokenId := by
    rw [hproto]
    intro tmp hmem
    cases hmem
    rfl
  have hout : tx.tokensOut id = totalOf id nextPool.value.contents.assets +
      amountOf id userOut.bundleKey.asset + totalOf id proto.contents.assets := by
    rw [tx.tokensOut_eq h.contents_eq]
    simp only [List.map_cons, List.map_nil, List.sum_cons, List.sum_nil, DepositOutput.contents,
      ExecutorOutput.contents, MinerOutput.contents, totalOf_cons, totalOf_nil, Nat.add_zero]
    omega
  -- each reserve of the pool and its share in the bundle add up to what the pool had
  have hlq : amountOf id pool.value.reservesLq.asset + amountOf id order.value.lq.asset =
      amountOf id nextPool.value.reservesLq.asset := by
    rw [hnext]
    apply amountOf_add
    · rfl
    · exact hid
    · rfl
  have hvlq : amountOf id nextPool.value.reservesVlq.asset + amountOf id proto.vlq.asset =
      amountOf id pool.value.reservesVlq.asset := by
    rw [hnext, hproto]
    apply amountOf_add
    · rfl
    · rfl
    · exact Nat.sub_add_cancel h.applied.vlq_le
  have htmp : amountOf id nextPool.value.reservesTmp.asset +
      amountOf id (pool.value.reservesTmp.tokenId, proto.tmpAmount) =
        amountOf id pool.value.reservesTmp.asset := by
    rw [hnext, hproto]
    apply amountOf_add
    · rfl
    · rfl
    · exact Nat.sub_add_cancel h.applied.tmp_le
  obtain ⟨hpoolId, -, -, hbudget⟩ := h.applied.frame
  rw [hout, huser, StakingBundleProto.totalOf_contents htmpId, hkey, Pool.totalOf_contents,
    Pool.totalOf_contents, hpoolId, hbudget]
  omega

theorem RedeemRan.tokensOut_eq {order : AsBox Redeem} {pool : AsBox Pool}
    {bundle : AsBox StakingBundle} {ctx : ExecutionContext} {tx : TransactionCandidate}
    {nextPool : AsBox Pool} {userOut : RedeemOutput} {executorOut : ExecutorOutput}
    {minerOut : MinerOutput}
    (h : RedeemRan order pool bundle ctx tx nextPool userOut executorOut minerOut)
    (hlqId : order.value.expectedLq.tokenId = pool.value.reservesLq.tokenId)
    (hvlqId : bundle.value.vlq.tokenId = pool.value.reservesVlq.tokenId)
    (htmpId : ∀ tmp ∈ bundle.value.tmp, tmp.tokenId = pool.value.reservesTmp.tokenId)
    (id : TokenId) :
    tx.tokensOut id + amountOf id (bundle.value.bundleKeyId.tokenId, bundleKeyAmount) =
      totalOf id pool.value.contents.assets + totalOf id bundle.value.toProto.contents.assets := by
  have hnext := h.applied.nextPool_eq
  have hout : tx.tokensOut id =
      totalOf id nextPool.value.contents.assets + amountOf id order.value.expectedLq.asset := by
    rw [tx.tokensOut_eq h.contents_eq]
    simp only [List.map_cons, List.map_nil, List.sum_cons, List.sum_nil, RedeemOutput.contents,
      ExecutorOutput.contents, MinerOutput.contents, totalOf_cons, totalOf_nil, Nat.add_zero]
    rw [h.applied.userOutput_eq]
  -- the reserves take back what the bundle held, and pay out its liquidity
  have hlq : amountOf id nextPool.value.reservesLq.asset +
      amountOf id order.value.expectedLq.asset = amountOf id pool.value.reservesLq.asset := by
    rw [hnext]
    apply amountOf_add
    · rfl
    · exact hlqId
    · show _ + order.value.expectedLq.amount = _
      rw [h.applied.amount_eq]
      exact Nat.sub_add_cancel h.applied.lq_le
  have hvlq : amountOf id pool.value.reservesVlq.asset + amountOf id bundle.value.vlq.asset =
      amountOf id nextPool.value.reservesVlq.asset := by
    rw [hnext]
    apply amountOf_add
    · rfl
    · exact hvlqId
    · rfl
  have htmp : amountOf id pool.value.reservesTmp.asset +
      amountOf id (pool.value.reservesTmp.tokenId, bundle.value.toProto.tmpAmount) =
        amountOf id nextPool.value.reservesTmp.asset := by
    rw [hnext]
    apply amountOf_add
    · rfl
    · rfl
    · rfl
  obtain ⟨hpoolId, -, -, hbudget⟩ := h.applied.frame
  have hbundle : totalOf id bundle.value.toProto.contents.assets =
      amountOf id bundle.value.vlq.asset +
        amountOf id (pool.value.reservesTmp.tokenId, bundle.value.toProto.tmpAmount) +
          amountOf id (bundle.value.bundleKeyId.tokenId, bundleKeyAmount) :=
    StakingBundleProto.totalOf_contents htmpId id
  rw [hout, hbundle, Pool.totalOf_contents, Pool.totalOf_contents, hpoolId, hbudget]
  omega

theorem CompoundRan.tokensOut_eq {pool : AsBox Pool} {bundles : List (AsBox StakingBundle)}
    {funding : NonEmpty (AsBox DistributionFunding)} {tx : TransactionCandidate}
    {nextPool : AsBox Pool} {nextBundles : List (Predicted (AsBox StakingBundle))}
    {nextFunding : Option (Predicted (AsBox DistributionFunding))}
    {settled : List StakingBundle} {residual : Option DistributionFundingProto}
    {rewards : List RewardOutput} {minerOut : MinerOutput} {epochIx total : ℕ}
    (h : CompoundRan pool bundles funding tx nextPool nextBundles nextFunding settled residual
      rewards minerOut epochIx total)
    (htmpId : ∀ b ∈ bundles, ∀ tmp ∈ b.value.tmp, tmp.tokenId = pool.value.reservesTmp.tokenId)
    (id : TokenId) :
    tx.tokensOut id = totalOf id pool.value.contents.assets +
      (bundles.map fun b => totalOf id b.value.toProto.contents.assets).sum := by
  have hresidual : (residual.toList.map fun nf => totalOf id nf.contents.assets).sum = 0 := by
    cases residual <;> rfl
  have hout : tx.tokensOut id = totalOf id nextPool.value.contents.assets +
      (settled.map fun b => totalOf id b.toProto.contents.assets).sum +
        (rewards.map fun r => totalOf id r.contents.assets).sum := by
    rw [tx.tokensOut_eq h.contents_eq]
    simp only [List.map_append, List.map_map, List.sum_append, List.map_cons, List.map_nil,
      List.sum_cons, List.sum_nil, Function.comp_def, hresidual, MinerOutput.contents, totalOf_nil,
      Nat.add_zero]
  have htmpId : ∀ b ∈ bundles.map AsBox.value, ∀ tmp ∈ b.tmp,
      tmp.tokenId = pool.value.reservesTmp.tokenId := by
    intro b hmem
    obtain ⟨asBox, hasBox, rfl⟩ := List.mem_map.mp hmem
    exact htmpId asBox hasBox
  have htotal := h.applied.totalOf_eq htmpId id
  rw [List.map_map] at htotal
  exact hout.trans htotal

/-- When the ids of the order and the bundles agree with those of the pool, no token is created but
the one that a deposit mints, whose id is that of the box of the pool, and only NFTs of the pool,
keys of bundles and tokens of the executor disappear. -/
structure ConservesTokens (pool : AsBox Pool) : Prop where
  deposit : ∀ (order : AsBox Deposit) tokenDetails ctx tx nextPool bundle,
    Deposit.tryFromBox order.bx = some order.value → ctx.mintableTokenId = pool.bx.boxId →
    order.value.lq.tokenId = pool.value.reservesLq.tokenId →
    Deposit.tryRun order pool tokenDetails ctx = .ok (tx, nextPool, bundle) →
    ∀ id ≠ pool.bx.boxId, tx.tokensOut id ≤ tx.tokensIn id ∧
      (id ≠ pool.value.poolId.tokenId → tx.tokensOut id = tx.tokensIn id)
  redeem : ∀ (order : AsBox Redeem) (bundle : AsBox StakingBundle) ctx tx nextPool,
    order.value.ReadFrom order.bx → StakingBundle.tryFromBox bundle.bx = some bundle.value →
    order.value.expectedLq.tokenId = pool.value.reservesLq.tokenId →
    bundle.value.vlq.tokenId = pool.value.reservesVlq.tokenId →
    (∀ tmp ∈ bundle.value.tmp, tmp.tokenId = pool.value.reservesTmp.tokenId) →
    Redeem.tryRun order pool bundle ctx = .ok (tx, nextPool) →
    ∀ id, tx.tokensOut id ≤ tx.tokensIn id ∧
      (id ≠ pool.value.poolId.tokenId → id ≠ bundle.value.bundleKeyId.tokenId →
        id ≠ order.value.bundleKey.tokenId → tx.tokensOut id = tx.tokensIn id)
  compound : ∀ (order : Compound) bundles (funding : NonEmpty (AsBox DistributionFunding)) ctx tx
    nextPool nextBundles nextFunding,
    (∀ b ∈ bundles, StakingBundle.tryFromBox b.bx = some b.value) →
    (∀ b ∈ bundles, ∀ tmp ∈ b.value.tmp, tmp.tokenId = pool.value.reservesTmp.tokenId) →
    order.tryRun pool bundles funding ctx = .ok (tx, nextPool, nextBundles, nextFunding) →
    ∀ id, tx.tokensOut id ≤ tx.tokensIn id ∧
      (id ≠ pool.value.poolId.tokenId → (∀ b ∈ bundles, id ≠ b.value.bundleKeyId.tokenId) →
        (∀ f ∈ funding.toList, ∀ a ∈ f.bx.assets, a.1 ≠ id) → tx.tokensOut id = tx.tokensIn id)

/-- Of a pool read off its box. -/
theorem conservesTokens {pool : AsBox Pool} (hpool : Pool.tryFromBox pool.bx = some pool.value) :
    ConservesTokens pool := by
  refine ⟨?_, ?_, ?_⟩
  · -- a deposit: the pool and the order go in
    intro order tokenDetails ctx tx nextPool bundle horder hmint hid hok id hne
    obtain ⟨proto, userOut, executorOut, minerOut, hran⟩ := Deposit.tryRun_ok hok
    have hin : tx.tokensIn id = totalOf id pool.bx.assets + totalOf id order.bx.assets := by
      rw [tx.tokensIn_eq hran.inputs_eq]
      rfl
    have hout := hran.tokensOut_eq hid (hmint.symm ▸ hne)
    obtain ⟨hle, heq⟩ := Pool.totalOf_box hpool id
    obtain ⟨-, hassets⟩ := Deposit.assets_of_tryFromBox horder
    rw [hin, hout, hassets, totalOf_cons, totalOf_nil, Nat.add_zero]
    refine ⟨Nat.add_le_add_right hle _, fun hnft => ?_⟩
    rw [heq hnft]
  · -- a redeem: the pool, the bundle and the order, whose key is burned
    intro order bundle ctx tx nextPool horder hbundle hlqId hvlqId htmpId hok id
    obtain ⟨userOut, executorOut, minerOut, hran⟩ := Redeem.tryRun_ok hok
    have hin : tx.tokensIn id = totalOf id pool.bx.assets +
        (totalOf id bundle.bx.assets + totalOf id order.bx.assets) := by
      rw [tx.tokensIn_eq hran.inputs_eq]
      rfl
    have hout := hran.tokensOut_eq hlqId hvlqId htmpId id
    obtain ⟨hpoolLe, hpoolEq⟩ := Pool.totalOf_box hpool id
    obtain ⟨hbundleLe, hbundleEq⟩ := StakingBundle.totalOf_box hbundle id
    refine ⟨by omega, fun hnft hkey horderKey => ?_⟩
    have hzero : amountOf id (bundle.value.bundleKeyId.tokenId, bundleKeyAmount) = 0 :=
      amountOf_of_ne hkey.symm
    have horderZero : totalOf id order.bx.assets = 0 := by
      rw [horder.assets.2]
      apply totalOf_eq_zero
      intro a hmem
      obtain rfl := List.mem_singleton.mp hmem
      exact horderKey.symm
    have hpoolEq := hpoolEq hnft
    have hbundleEq := hbundleEq hkey
    omega
  · -- a compound order: the sums over the bundles and the funding are compared term by term
    intro order bundles funding ctx tx nextPool nextBundles nextFunding hbundles htmpId hok id
    obtain ⟨settled, residual, rewards, minerOut, epochIx, total, hran⟩ := Compound.tryRun_ok hok
    have hin : tx.tokensIn id = totalOf id pool.bx.assets +
        (funding.toList.map fun f => totalOf id f.bx.assets).sum +
          (bundles.map fun b => totalOf id b.bx.assets).sum := by
      rw [tx.tokensIn_eq hran.inputs_eq]
      simp only [List.map_append, List.map_map, List.sum_append, List.map_cons, List.map_nil,
        List.sum_cons, List.sum_nil, Function.comp_def, Nat.add_zero]
    have hout := hran.tokensOut_eq htmpId id
    obtain ⟨hpoolLe, hpoolEq⟩ := Pool.totalOf_box hpool id
    constructor
    · have hbundlesLe : (bundles.map fun b => totalOf id b.value.toProto.contents.assets).sum ≤
          (bundles.map fun b => totalOf id b.bx.assets).sum := by
        apply List.sum_le_sum
        intro b hmem
        exact (StakingBundle.totalOf_box (hbundles b hmem) id).1
      omega
    · intro hnft hkeys hfunding
      have hbundlesEq : (bundles.map fun b => totalOf id b.value.toProto.contents.assets).sum =
          (bundles.map fun b => totalOf id b.bx.assets).sum := by
        refine congrArg List.sum (List.map_congr_left fun b hmem => ?_)
        exact (StakingBundle.totalOf_box (hbundles b hmem) id).2 (hkeys b hmem)
      have hfundingZero : (funding.toList.map fun f => totalOf id f.bx.assets).sum = 0 := by
        apply List.sum_eq_zero
        intro n hmem
        obtain ⟨f, hf, rfl⟩ := List.mem_map.mp hmem
        exact totalOf_eq_zero (hfunding f hf)
      have hpoolEq := hpoolEq hnft
      omega

end ErgoLib

open Sample in
theorem conservesTokens_sample : ConservesTokens ⟨poolBox, Staking.Sample.pool⟩ :=
  conservesTokens tryFromBox_poolBox

/-! ## Tokens of other kinds

A deposit of ten tokens of any kind is given a bundle for ten units of liquidity, and the pool is
written as if it held them.  The tokens in a funding box are not written back. -/

namespace Sample

open Staking.Sample

def tokenDetails : TokenDetails := ⟨"", ""⟩

def foreignLq : Token := token (digest 20) 10

theorem applyDeposit_foreign :
    pool.applyDeposit (deposit foreignLq) tokenDetails depositContext = .ok
      ({ pool with
          reservesLq := ⟨digest 2, 110⟩
          reservesVlq := ⟨digest 3, maxValue - 110⟩
          reservesTmp := ⟨digest 4, maxValue - 1100⟩ },
        ⟨⟨digest 15⟩, ⟨digest 0⟩, ⟨digest 3, 10⟩, some ⟨digest 4, 100⟩, ⟨[]⟩, minSafeFatBoxValue,
          "", ""⟩,
        ⟨⟨digest 15, bundleKeyAmountUser⟩, ⟨[]⟩, minSafeFatBoxValue, "", ""⟩,
        ⟨⟨[2]⟩, 7956000⟩, ⟨defaultMinerFee⟩) := by
  decide +kernel

/-- A funding box with five tokens of the liquidity of the pool. -/
def richFundingBox : ErgoBox :=
  box ⟨4000000, by decide, by decide⟩ ⟨[]⟩ (some (.one (token (digest 2) 5))) .empty 7

def richFunding : NonEmpty (AsBox DistributionFunding) := ⟨⟨richFundingBox, funding.head⟩, []⟩

end Sample

open Staking.Sample Sample in
/-- A deposit of tokens of another kind makes liquidity out of nothing. -/
theorem exists_foreign_deposit : ∃ tx nextPool bundle,
    Deposit.tryRun ⟨depositBox foreignLq, deposit foreignLq⟩ ⟨poolBox, pool⟩ tokenDetails
        depositContext = .ok (tx, nextPool, bundle) ∧
      tx.tokensIn (digest 2) = 100 ∧ tx.tokensOut (digest 2) = 110 := by
  have hrun : ∃ result, Deposit.tryRun ⟨depositBox foreignLq, deposit foreignLq⟩ ⟨poolBox, pool⟩
      tokenDetails depositContext = .ok result := by
    refine Deposit.exists_tryRun applyDeposit_foreign ?_ ?_ ?_ ?_ ?_
    · decide +kernel
    · decide +kernel
    · decide +kernel
    · decide +kernel
    · decide +kernel
  obtain ⟨⟨tx, nextPool, bundle⟩, hok⟩ := hrun
  obtain ⟨proto, userOut, executorOut, minerOut, hran⟩ := Deposit.tryRun_ok hok
  refine ⟨tx, nextPool, bundle, hok, ?_, ?_⟩
  · rw [tx.tokensIn_eq hran.inputs_eq]
    decide +kernel
  · rw [tx.tokensOut_eq hran.contents_eq, hran.applied.nextPool_eq, hran.applied.userOutput_eq,
      hran.applied.bundle_eq, hran.applied.executorOutput_eq, hran.applied.minerOutput_eq]
    decide +kernel

open Staking.Sample Sample in
theorem exists_rich_funding : ∃ tx nextPool nextBundles nextFunding,
    compound.tryRun ⟨poolBox, pool⟩ [⟨bundleBox, bundle⟩] richFunding context =
        .ok (tx, nextPool, nextBundles, nextFunding) ∧
      tx.tokensIn (digest 2) = 105 ∧ tx.tokensOut (digest 2) = 100 := by
  have hrun : ∃ result, compound.tryRun ⟨poolBox, pool⟩ [⟨bundleBox, bundle⟩] richFunding context =
      .ok result := by
    refine Compound.exists_tryRun compound distributeRewards_eq ?_ ?_ ?_ ?_ ?_ ?_ ?_ ?_
    · decide +kernel
    · decide +kernel
    · decide +kernel
    · decide +kernel
    · decide +kernel
    · simp
    · decide
    · decide
  obtain ⟨⟨tx, nextPool, nextBundles, nextFunding⟩, hok⟩ := hrun
  obtain ⟨settled, residual, rewards, minerOut, epochIx, total, hran⟩ := Compound.tryRun_ok hok
  refine ⟨tx, nextPool, nextBundles, nextFunding, hok, ?_, ?_⟩
  · rw [tx.tokensIn_eq hran.inputs_eq]
    decide +kernel
  · rw [hran.tokensOut_eq]
    · decide +kernel
    · decide +kernel

open Staking.Sample Sample in
/-- A deposit of a token that is not the liquidity of the pool goes through and makes liquidity out
of nothing, and a compound order drops the liquidity that its funding box happens to hold. -/
theorem foreign_tokens :
    Pool.tryFromBox poolBox = some pool ∧
      (∃ (order : AsBox Deposit) (ctx : ExecutionContext) (tx : TransactionCandidate)
        (nextPool : Predicted (AsBox Pool)) (next : Predicted (AsBox StakingBundle)),
        Deposit.tryFromBox order.bx = some order.value ∧ ctx.mintableTokenId = poolBox.boxId ∧
          Deposit.tryRun order ⟨poolBox, pool⟩ tokenDetails ctx = .ok (tx, nextPool, next) ∧
          pool.reservesLq.tokenId ≠ poolBox.boxId ∧
          tx.tokensIn pool.reservesLq.tokenId < tx.tokensOut pool.reservesLq.tokenId) ∧
      ∃ tx nextPool nextBundles nextFunding,
        StakingBundle.tryFromBox bundleBox = some bundle ∧
          DistributionFunding.tryFromBox richFundingBox ⟨⟨[]⟩⟩ = some funding.head ∧
          compound.tryRun ⟨poolBox, pool⟩ [⟨bundleBox, bundle⟩] richFunding context =
            .ok (tx, nextPool, nextBundles, nextFunding) ∧
          tx.tokensOut pool.reservesLq.tokenId < tx.tokensIn pool.reservesLq.tokenId := by
  refine ⟨tryFromBox_poolBox, ?_, ?_⟩
  · obtain ⟨tx, nextPool, next, hok, hin, hout⟩ := exists_foreign_deposit
    refine ⟨⟨depositBox foreignLq, deposit foreignLq⟩, depositContext, tx, nextPool, next,
      tryFromBox_depositBox foreignLq, rfl, hok, by decide, ?_⟩
    show tx.tokensIn (digest 2) < tx.tokensOut (digest 2)
    omega
  · obtain ⟨tx, nextPool, nextBundles, nextFunding, hok, hin, hout⟩ := exists_rich_funding
    refine ⟨tx, nextPool, nextBundles, nextFunding, tryFromBox_bundleBox, rfl, hok, ?_⟩
    show tx.tokensOut (digest 2) < tx.tokensIn (digest 2)
    omega

end SpectrumOffchain
