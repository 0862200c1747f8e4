import SpectrumOffchain.Data.Order
import SpectrumOffchain.Lib.ProRata

/-!
# Operations on the pool

`apply_deposit`, `apply_redeem` and `distribute_rewards` of `pool.rs`.  Each is
followed by what it does when it succeeds: `DepositApplied`, `RedeemApplied` and
`Distributed` list the guards that were passed and the state and outputs returned,
and later proofs use only these.

`distribute_rewards` reads the reserves of the pool it was called on and writes to a
copy, so within a batch the order of the bundles does not matter to what each of
them gets: `Pool.rewardAmt` is its share, in the sense of `ProRata`, of the pot
`allocRem` among the temporal tokens `actualTmp` in circulation above those needed
for later epochs.

## Order of the lemmas

For each operation there is one inversion lemma, `applyDeposit_ok`, `applyRedeem_ok` and
`distributeRewards_ok`, and its parts are read off the structure that it proves: `amounts`
for the five reserves, `frame` for what stays, `ergs` for the value that enters and leaves.

The fold over the bundles of a batch is described in closed form: `Distribution.after` is
the state that it has reached when some bundles have been settled, and
`foldlM_distributeToBundle_ok` shows by induction on the bundles that this is what the
fold computes.  At the end of the module the same is said of a batch that fails: the
arithmetic of `u64` crashes and never returns an error, so the only errors are the ones
that the source constructs.
-/

namespace SpectrumOffchain

namespace Pool

/-! ## Deposit -/

def applyDeposit (self : Pool) (deposit : Deposit) (tokenDetails : TokenDetails)
    (ctx : ExecutionContext) :
    Outcome PoolOperationError
      (Pool × StakingBundleProto × DepositOutput × ExecutorOutput × MinerOutput) := do
  let epochsRemain ← self.numEpochsRemain ctx.height
  .failIf (epochsRemain < 1) (.permanent .programExhausted)
  let completed ← self.epochCompleted
  .failIf (completed = false) (.temporal .liquidityMoveBlocked)
  let epochsRemain ← self.numEpochsRemain ctx.height
  .failIf (epochsRemain ≠ deposit.expectedNumEpochs) (.permanent (.orderPoisoned
    ("Expected epochs [" ++ toString deposit.expectedNumEpochs ++ "], remain epochs [" ++
      toString epochsRemain ++ "]")))
  let releaseVlq : TypedAssetAmount .virtLq := ⟨self.reservesVlq.tokenId, deposit.lq.amount⟩
  let releaseTmpAmt ← .checkedMul 64 epochsRemain releaseVlq.amount
  let releaseTmp : TypedAssetAmount .tmp := ⟨self.reservesTmp.tokenId, releaseTmpAmt⟩
  let reservesLq ← self.reservesLq.add deposit.lq
  let reservesVlq ← self.reservesVlq.sub releaseVlq
  let reservesTmp ← self.reservesTmp.sub releaseTmp
  let nextPool := { self with reservesLq, reservesVlq, reservesTmp }
  let bundleKeyForUser : TypedAssetAmount .bundleKey :=
    ⟨ctx.mintableTokenId, bundleKeyAmountUser⟩
  let bundle : StakingBundleProto :=
    { bundleKeyId := bundleKeyForUser.toAsset
      poolId := nextPool.poolId
      vlq := releaseVlq
      tmp := some releaseTmp
      redeemerProp := deposit.redeemerProp
      ergValue := minSafeFatBoxValue
      tokenName := tokenDetails.name
      tokenDesc := tokenDetails.description }
  let userOutput : DepositOutput :=
    { bundleKey := bundleKeyForUser
      redeemerProp := deposit.redeemerProp
      ergValue := minSafeFatBoxValue
      tokenName := tokenDetails.name
      tokenDesc := tokenDetails.description }
  let minerOutput : MinerOutput := ⟨defaultMinerFee⟩
  let remainderErg := safeSub (safeSub (safeSub deposit.ergValue bundle.ergValue)
    userOutput.ergValue) minerOutput.ergValue
  if minSafeBoxValue ≤ remainderErg then
    let executorOutput : ExecutorOutput := ⟨ctx.executorProp, remainderErg⟩
    pure (nextPool, bundle, userOutput, executorOutput, minerOutput)
  else
    .err (.permanent (.lowValue minSafeBoxValue remainderErg))

/-- What a successful deposit has checked, and what it returns. -/
structure DepositApplied (pool : Pool) (deposit : Deposit) (tokenDetails : TokenDetails)
    (ctx : ExecutionContext) (nextPool : Pool) (bundle : StakingBundleProto)
    (userOutput : DepositOutput) (executorOutput : ExecutorOutput) (minerOutput : MinerOutput) :
    Prop where
  epochs : (pool.numEpochsRemain ctx.height : Outcome PoolOperationError ℕ) =
    .ok deposit.expectedNumEpochs
  epochs_pos : 1 ≤ deposit.expectedNumEpochs
  epochNum_ne : pool.conf.epochNum ≠ 0
  completed : pool.completed = true
  vlq_le : deposit.lq.amount ≤ pool.reservesVlq.amount
  tmp_le : deposit.expectedNumEpochs * deposit.lq.amount ≤ pool.reservesTmp.amount
  erg_le : minSafeFatBoxValue + minSafeFatBoxValue + defaultMinerFee + minSafeBoxValue ≤
    deposit.ergValue
  nextPool_eq : nextPool =
    { pool with
      reservesLq := ⟨pool.reservesLq.tokenId, pool.reservesLq.amount + deposit.lq.amount⟩
      reservesVlq := ⟨pool.reservesVlq.tokenId, pool.reservesVlq.amount - deposit.lq.amount⟩
      reservesTmp := ⟨pool.reservesTmp.tokenId,
        pool.reservesTmp.amount - deposit.expectedNumEpochs * deposit.lq.amount⟩ }
  bundle_eq : bundle =
    { bundleKeyId := ⟨ctx.mintableTokenId⟩
      poolId := pool.poolId
      vlq := ⟨pool.reservesVlq.tokenId, deposit.lq.amount⟩
      tmp := some ⟨pool.reservesTmp.tokenId, deposit.expectedNumEpochs * deposit.lq.amount⟩
      redeemerProp := deposit.redeemerProp
      ergValue := minSafeFatBoxValue
      tokenName := tokenDetails.name
      tokenDesc := tokenDetails.description }
  userOutput_eq : userOutput =
    { bundleKey := ⟨ctx.mintableTokenId, bundleKeyAmountUser⟩
      redeemerProp := deposit.redeemerProp
      ergValue := minSafeFatBoxValue
      tokenName := tokenDetails.name
      tokenDesc := tokenDetails.description }
  executorOutput_eq : executorOutput = ⟨ctx.executorProp,
    deposit.ergValue - minSafeFatBoxValue - minSafeFatBoxValue - defaultMinerFee⟩
  minerOutput_eq : minerOutput = ⟨defaultMinerFee⟩

theorem applyDeposit_ok {pool : Pool} {deposit : Deposit} {tokenDetails : TokenDetails}
    {ctx : ExecutionContext} {nextPool : Pool} {bundle : StakingBundleProto}
    {userOutput : DepositOutput} {executorOutput : ExecutorOutput} {minerOutput : MinerOutput}
    (h : pool.applyDeposit deposit tokenDetails ctx =
      .ok (nextPool, bundle, userOutput, executorOutput, minerOutput)) :
    DepositApplied pool deposit tokenDetails ctx nextPool bundle userOutput executorOutput
      minerOutput := by
  simp only [applyDeposit, Outcome.bind_eq_ok, Outcome.failIf_eq_ok, epochCompleted_eq_ok,
    Outcome.checkedMul_eq_ok, TypedAssetAmount.add_eq_ok, TypedAssetAmount.sub_eq_ok] at h
  obtain ⟨remain, hremain, -, hpos, completed, ⟨hnum, rfl⟩, -, hcompleted, remain', hremain', -,
    hexpected, _, ⟨-, rfl⟩, _, ⟨-, rfl⟩, _, ⟨hvlq, rfl⟩, _, ⟨htmp, rfl⟩, h⟩ := h
  obtain rfl : remain = remain' := Outcome.ok.inj (hremain.symm.trans hremain')
  have heq : remain = deposit.expectedNumEpochs := not_not.mp hexpected
  split at h
  case isFalse => cases h
  case isTrue herg =>
    cases h
    subst heq
    refine
      { epochs := hremain
        epochs_pos := by omega
        epochNum_ne := hnum
        completed := by simpa using hcompleted
        vlq_le := hvlq
        tmp_le := htmp
        erg_le := ?_
        nextPool_eq := rfl
        bundle_eq := rfl
        userOutput_eq := rfl
        executorOutput_eq := rfl
        minerOutput_eq := rfl }
    have : 0 < minSafeBoxValue := by decide
    simp only [safeSub] at herg
    omega

section DepositApplied

variable {pool : Pool} {deposit : Deposit} {tokenDetails : TokenDetails} {ctx : ExecutionContext}
  {nextPool : Pool} {bundle : StakingBundleProto} {userOutput : DepositOutput}
  {executorOutput : ExecutorOutput} {minerOutput : MinerOutput}
  (h : DepositApplied pool deposit tokenDetails ctx nextPool bundle userOutput executorOutput
    minerOutput)
include h

theorem DepositApplied.bundle_amounts : bundle.vlq.amount = deposit.lq.amount ∧
    bundle.tmpAmount = deposit.expectedNumEpochs * deposit.lq.amount := by
  rw [h.bundle_eq]
  exact ⟨rfl, rfl⟩

/-- What the deposit moves between the pool and the bundle. -/
theorem DepositApplied.amounts :
    nextPool.reservesLq.amount = pool.reservesLq.amount + bundle.vlq.amount ∧
      nextPool.reservesVlq.amount + bundle.vlq.amount = pool.reservesVlq.amount ∧
      nextPool.reservesTmp.amount + bundle.tmpAmount = pool.reservesTmp.amount := by
  obtain ⟨hvlq, htmp⟩ := h.bundle_amounts
  rw [hvlq, htmp, h.nextPool_eq]
  exact ⟨rfl, Nat.sub_add_cancel h.vlq_le, Nat.sub_add_cancel h.tmp_le⟩

theorem DepositApplied.frame :
    nextPool.poolId = pool.poolId ∧ nextPool.conf = pool.conf ∧
      nextPool.ergValue = pool.ergValue ∧ nextPool.budgetRem = pool.budgetRem := by
  rw [h.nextPool_eq]
  exact ⟨rfl, rfl, rfl, rfl⟩

/-- The value of the deposit is divided among the outputs. -/
theorem DepositApplied.ergs :
    userOutput.ergValue + bundle.ergValue + executorOutput.ergValue + minerOutput.ergValue =
      deposit.ergValue := by
  have huser : userOutput.ergValue = minSafeFatBoxValue := by rw [h.userOutput_eq]
  have hbundle : bundle.ergValue = minSafeFatBoxValue := by rw [h.bundle_eq]
  have hexecutor : executorOutput.ergValue =
      deposit.ergValue - minSafeFatBoxValue - minSafeFatBoxValue - defaultMinerFee := by
    rw [h.executorOutput_eq]
  have hminer : minerOutput.ergValue = defaultMinerFee := by rw [h.minerOutput_eq]
  have hle := h.erg_le
  omega

end DepositApplied

/-! ## Redeem -/

def stuckPoolIdBytes : Bytes :=
  [0x69, 0xef, 0xf5, 0x7e, 0xa6, 0x2b, 0x13, 0xc5, 0x8e, 0x56, 0x68, 0xe3, 0xfb, 0xc9, 0x92, 0x7f,
    0xdb, 0x2d, 0xff, 0xb1, 0xc6, 0x92, 0x26, 0x1f, 0x98, 0x72, 0x8a, 0x66, 0x5b, 0x2f, 0x8a, 0xbb]

/-- A pool that is forever stuck: its redeems are let through whatever its epoch. -/
def stuckPoolId : PoolId := ⟨⟨stuckPoolIdBytes, by decide⟩⟩

/-- Whether a redeem has to wait for the epoch to be compounded. -/
def redeemBlocked {ε : Type} (self : Pool) (bundle : StakingBundle) : Outcome ε Bool :=
  if bundle.poolId ≠ stuckPoolId then do
    let completed ← self.epochCompleted
    pure !completed
  else pure false

/-- The temporal tokens of a bundle, if it has any, go back to the reserves. -/
def returnTmp {ε : Type} (reservesTmp : TypedAssetAmount .tmp) :
    Option (TypedAssetAmount .tmp) → Outcome ε (TypedAssetAmount .tmp)
  | some tmp => reservesTmp.add tmp
  | none => pure reservesTmp

def applyRedeem (self : Pool) (redeem : Redeem) (bundle : StakingBundle)
    (ctx : ExecutionContext) :
    Outcome PoolOperationError (Pool × RedeemOutput × ExecutorOutput × MinerOutput) := do
  .failIf (redeem.expectedLq.amount ≠ bundle.vlq.amount) (.permanent .liqudityMismatch)
  let blocked ← self.redeemBlocked bundle
  .failIf (blocked = true) (.temporal .liquidityMoveBlocked)
  let releaseLq := redeem.expectedLq
  let reservesLq ← self.reservesLq.sub releaseLq
  let reservesVlq ← self.reservesVlq.add bundle.vlq
  let reservesTmp ← returnTmp self.reservesTmp bundle.tmp
  let nextPool := { self with reservesLq, reservesVlq, reservesTmp }
  let userOutput : RedeemOutput := ⟨releaseLq, redeem.redeemerProp, minSafeBoxValue⟩
  let minerOutput : MinerOutput := ⟨defaultMinerFee⟩
  let ergValue ← .checkedAdd 64 redeem.ergValue bundle.ergValue
  let remainderErg := safeSub (safeSub ergValue userOutput.ergValue) minerOutput.ergValue
  if minSafeBoxValue ≤ remainderErg then
    let executorOutput : ExecutorOutput := ⟨ctx.executorProp, remainderErg⟩
    pure (nextPool, userOutput, executorOutput, minerOutput)
  else
    .err (.permanent (.lowValue minSafeBoxValue remainderErg))

/-- What a successful redeem has checked, and what it returns. -/
structure RedeemApplied (pool : Pool) (redeem : Redeem) (bundle : StakingBundle)
    (ctx : ExecutionContext) (nextPool : Pool) (userOutput : RedeemOutput)
    (executorOutput : ExecutorOutput) (minerOutput : MinerOutput) : Prop where
  amount_eq : redeem.expectedLq.amount = bundle.vlq.amount
  completed : bundle.poolId ≠ stuckPoolId → pool.conf.epochNum ≠ 0 ∧ pool.completed = true
  lq_le : bundle.vlq.amount ≤ pool.reservesLq.amount
  erg_le : minSafeBoxValue + defaultMinerFee + minSafeBoxValue ≤ redeem.ergValue + bundle.ergValue
  nextPool_eq : nextPool =
    { pool with
      reservesLq := ⟨pool.reservesLq.tokenId, pool.reservesLq.amount - bundle.vlq.amount⟩
      reservesVlq := ⟨pool.reservesVlq.tokenId, pool.reservesVlq.amount + bundle.vlq.amount⟩
      reservesTmp := ⟨pool.reservesTmp.tokenId,
        pool.reservesTmp.amount + bundle.toProto.tmpAmount⟩ }
  userOutput_eq : userOutput = ⟨redeem.expectedLq, redeem.redeemerProp, minSafeBoxValue⟩
  executorOutput_eq : executorOutput = ⟨ctx.executorProp,
    redeem.ergValue + bundle.ergValue - minSafeBoxValue - defaultMinerFee⟩
  minerOutput_eq : minerOutput = ⟨defaultMinerFee⟩

theorem redeemBlocked_eq_ok {ε : Type} {self : Pool} {bundle : StakingBundle} {blocked : Bool} :
    (self.redeemBlocked bundle : Outcome ε Bool) = .ok blocked ↔
      if bundle.poolId ≠ stuckPoolId then self.conf.epochNum ≠ 0 ∧ (!self.completed) = blocked
      else blocked = false := by
  unfold redeemBlocked
  split_ifs with hne
  · simp only [Outcome.bind_eq_ok, epochCompleted_eq_ok, Outcome.pure_eq, Outcome.ok.injEq]
    constructor
    · rintro ⟨_, ⟨hnum, rfl⟩, rfl⟩
      exact ⟨hnum, rfl⟩
    · rintro ⟨hnum, rfl⟩
      exact ⟨_, ⟨hnum, rfl⟩, rfl⟩
  · simp [eq_comm]

theorem returnTmp_eq_ok {ε : Type} {reserves next : TypedAssetAmount .tmp}
    {bundle : StakingBundle} :
    (returnTmp reserves bundle.tmp : Outcome ε _) = .ok next ↔
      (bundle.tmp.isSome → reserves.amount + bundle.toProto.tmpAmount < 2 ^ 64) ∧
        next = ⟨reserves.tokenId, reserves.amount + bundle.toProto.tmpAmount⟩ := by
  simp only [StakingBundleProto.tmpAmount, StakingBundle.toProto]
  cases bundle.tmp with
  | none => simp [returnTmp, eq_comm (a := reserves)]
  | some tmp => simp [returnTmp, TypedAssetAmount.add_eq_ok]

theorem returnTmp_ne_crash {ε : Type} {reserves : TypedAssetAmount .tmp} {bundle : StakingBundle} :
    (returnTmp reserves bundle.tmp : Outcome ε _) ≠ .crash ↔
      (bundle.tmp.isSome → reserves.amount + bundle.toProto.tmpAmount < 2 ^ 64) := by
  simp only [StakingBundleProto.tmpAmount, StakingBundle.toProto]
  cases bundle.tmp with
  | none => simp [returnTmp]
  | some tmp => simp [returnTmp, TypedAssetAmount.add_ne_crash]

theorem applyRedeem_ok {pool : Pool} {redeem : Redeem} {bundle : StakingBundle}
    {ctx : ExecutionContext} {nextPool : Pool} {userOutput : RedeemOutput}
    {executorOutput : ExecutorOutput} {minerOutput : MinerOutput}
    (h : pool.applyRedeem redeem bundle ctx =
      .ok (nextPool, userOutput, executorOutput, minerOutput)) :
    RedeemApplied pool redeem bundle ctx nextPool userOutput executorOutput minerOutput := by
  simp only [applyRedeem, Outcome.bind_eq_ok, Outcome.failIf_eq_ok, redeemBlocked_eq_ok,
    returnTmp_eq_ok, Outcome.checkedAdd_eq_ok, TypedAssetAmount.add_eq_ok,
    TypedAssetAmount.sub_eq_ok] at h
  obtain ⟨-, hamount, blocked, hblocked, -, hopen, _, ⟨hlq, rfl⟩, _, ⟨-, rfl⟩, _, ⟨-, rfl⟩, _,
    ⟨-, rfl⟩, h⟩ := h
  have hamount : redeem.expectedLq.amount = bundle.vlq.amount := not_not.mp hamount
  split at h
  case isFalse => cases h
  case isTrue herg =>
    cases h
    refine
      { amount_eq := hamount
        completed := fun hne => ?_
        lq_le := hamount ▸ hlq
        erg_le := ?_
        nextPool_eq := by rw [hamount]
        userOutput_eq := rfl
        executorOutput_eq := rfl
        minerOutput_eq := rfl }
    · rw [if_pos hne] at hblocked
      obtain ⟨hnum, rfl⟩ := hblocked
      exact ⟨hnum, by simpa using hopen⟩
    · have : 0 < minSafeBoxValue := by decide
      simp only [safeSub] at herg
      omega

section RedeemApplied

variable {pool : Pool} {redeem : Redeem} {bundle : StakingBundle} {ctx : ExecutionContext}
  {nextPool : Pool} {userOutput : RedeemOutput} {executorOutput : ExecutorOutput}
  {minerOutput : MinerOutput}
  (h : RedeemApplied pool redeem bundle ctx nextPool userOutput executorOutput minerOutput)
include h

/-- What the redeem moves from the bundle to the pool and back. -/
theorem RedeemApplied.amounts :
    nextPool.reservesLq.amount + bundle.vlq.amount = pool.reservesLq.amount ∧
      nextPool.reservesVlq.amount = pool.reservesVlq.amount + bundle.vlq.amount ∧
      nextPool.reservesTmp.amount = pool.reservesTmp.amount + bundle.toProto.tmpAmount := by
  rw [h.nextPool_eq]
  exact ⟨Nat.sub_add_cancel h.lq_le, rfl, rfl⟩

theorem RedeemApplied.frame :
    nextPool.poolId = pool.poolId ∧ nextPool.conf = pool.conf ∧
      nextPool.ergValue = pool.ergValue ∧ nextPool.budgetRem = pool.budgetRem := by
  rw [h.nextPool_eq]
  exact ⟨rfl, rfl, rfl, rfl⟩

/-- The values of the order and of the bundle are divided among the outputs. -/
theorem RedeemApplied.ergs :
    userOutput.ergValue + executorOutput.ergValue + minerOutput.ergValue =
      redeem.ergValue + bundle.ergValue := by
  have huser : userOutput.ergValue = minSafeBoxValue := by rw [h.userOutput_eq]
  have hexecutor : executorOutput.ergValue =
      redeem.ergValue + bundle.ergValue - minSafeBoxValue - defaultMinerFee := by
    rw [h.executorOutput_eq]
  have hminer : minerOutput.ergValue = defaultMinerFee := by rw [h.minerOutput_eq]
  have hle := h.erg_le
  omega

end RedeemApplied

/-! ## Distribution of rewards -/

/-- The state of the loop over the bundles: those already served, and what they got. -/
structure Distribution where
  nextPool : Pool
  nextBundles : List StakingBundle
  rewardOutputs : List RewardOutput
  accumulatedCost : ℕ

/-- The reward for `epochsBurned` epochs of `vlq`; `self` is the pool before the batch. -/
def rewardFor {ε : Type} (self : Pool) (epochsRemain vlq epochsBurned : ℕ) : Outcome ε ℕ := do
  let laterTmp ← .checkedMul 64 self.reservesLq.amount epochsRemain
  let actualTmp := maxValue - self.reservesTmp.amount - laterTmp
  if actualTmp > 0 then do
    let laterBudget ← .checkedMul 128 self.conf.programBudget.amount epochsRemain
    let reserved ← .checkedDiv laterBudget self.conf.epochNum
    let allocRem := self.budgetRem.amount - reserved - 1
    let forVlq ← .checkedMul 128 allocRem vlq
    let forEpochs ← .checkedMul 128 forVlq epochsBurned
    let rewardAmt ← .checkedDiv forEpochs actualTmp
    pure (rewardAmt % 2 ^ 64)
  else pure 0

def epochsBurned {ε : Type} (epochsRemain : ℕ) (bundle : StakingBundle) : Outcome ε ℕ :=
  match bundle.tmp with
  | some tmp => do
    let epochs ← .checkedDiv tmp.amount bundle.vlq.amount
    pure (epochs - epochsRemain)
  | none => pure 0

/-- Take a reward, if there is one, out of the budget. -/
def payReward {ε : Type} (budgetRem : TypedAssetAmount .reward) :
    Option (TypedAssetAmount .reward) → Outcome ε (TypedAssetAmount .reward)
  | some reward => budgetRem.sub reward
  | none => pure budgetRem

/-- Move the temporal tokens for the epochs burned from a bundle to the reserves, and add
`cost` for it.  Returns the tokens left in the bundle, the reserves and the cost. -/
def chargeTmp {ε : Type} (epochsRemain : ℕ) (bundle : StakingBundle)
    (reservesTmp : TypedAssetAmount .tmp) (accumulatedCost cost : ℕ) :
    Outcome ε (Option (TypedAssetAmount .tmp) × TypedAssetAmount .tmp × ℕ) :=
  match bundle.tmp with
  | some tmp => do
    let kept ← .checkedMul 64 epochsRemain bundle.vlq.amount
    let chargedTmpAmt ← .checkedSub tmp.amount kept
    let chargedTmp : TypedAssetAmount .tmp := ⟨tmp.tokenId, chargedTmpAmt⟩
    let accumulatedCost ← .checkedAdd 64 accumulatedCost cost
    let left ← tmp.sub chargedTmp
    let reservesTmp ← reservesTmp.add chargedTmp
    pure (if left.amount > 0 then some left else none, reservesTmp, accumulatedCost)
  | none => pure (none, reservesTmp, accumulatedCost)

/-- The body of the loop. -/
def distributeToBundle (self : Pool) (epochsRemain : ℕ) (st : Distribution)
    (bundle : StakingBundle) : Outcome PoolOperationError Distribution := do
  let epochsBurned ← epochsBurned epochsRemain bundle
  .failIf (epochsBurned < 1) (.permanent (.orderPoisoned "Already compounded"))
  let rewardAmt ← self.rewardFor epochsRemain bundle.vlq.amount epochsBurned
  let reward : Option (TypedAssetAmount .reward) :=
    if rewardAmt > 0 then some ⟨st.nextPool.budgetRem.tokenId, rewardAmt⟩ else none
  let rewardOutput : RewardOutput := ⟨reward, bundle.redeemerProp, minSafeBoxValue⟩
  let budgetRem ← payReward st.nextPool.budgetRem reward
  let (tmp, reservesTmp, accumulatedCost) ← chargeTmp epochsRemain bundle
    st.nextPool.reservesTmp st.accumulatedCost rewardOutput.ergValue
  .failIf (budgetRem.amount = 0) (.permanent (.orderPoisoned "Budget depleted"))
  pure
    { nextPool := { st.nextPool with budgetRem, reservesTmp }
      nextBundles := st.nextBundles ++ [{ bundle with tmp }]
      rewardOutputs := st.rewardOutputs ++ [rewardOutput]
      accumulatedCost }

/-- The sum of the funding boxes. -/
def fundsTotal {ε : Type} (funding : NonEmpty DistributionFunding) : Outcome ε ℕ :=
  (funding.toList.map DistributionFunding.ergValue).foldlM (.checkedAdd 64) 0

def distributeRewards (self : Pool) (bundles : List StakingBundle)
    (funding : NonEmpty DistributionFunding) :
    Outcome PoolOperationError
      (Pool × List StakingBundle × Option DistributionFundingProto × List RewardOutput ×
        MinerOutput) := do
  let epochIx ← self.compoundingEpochIx
  let epochsRemain := self.epochsRemain epochIx
  let st ← bundles.foldlM (self.distributeToBundle epochsRemain) ⟨self, [], [], 0⟩
  let nextPool := { st.nextPool with epochIx := some epochIx }
  let minerOutput : MinerOutput := ⟨defaultMinerFeeForCompoundTx⟩
  let accumulatedCost ← .checkedAdd 64 st.accumulatedCost minerOutput.ergValue
  let fundsTotal ← fundsTotal funding
  let fundsRemain := safeSub fundsTotal accumulatedCost
  if minSafeBoxValue ≤ fundsRemain then
    let nextFunding : DistributionFundingProto := ⟨funding.head.prop, fundsRemain⟩
    pure (nextPool, st.nextBundles, some nextFunding, st.rewardOutputs, minerOutput)
  else do
    let ergValue ← .checkedAdd 64 minerOutput.ergValue fundsRemain
    pure (nextPool, st.nextBundles, none, st.rewardOutputs, ⟨ergValue⟩)

/-! ### What a batch does -/

/-- The pot for the epoch being compounded. -/
def allocRem (self : Pool) (epochsRemain : ℕ) : ℕ :=
  self.budgetRem.amount - self.conf.reserved epochsRemain - 1

/-- The temporal tokens in circulation above those for the epochs that remain. -/
def actualTmp (self : Pool) (epochsRemain : ℕ) : ℕ :=
  maxValue - self.reservesTmp.amount - self.reservesLq.amount * epochsRemain

/-- The reward of a bundle. -/
def rewardAmt (self : Pool) (epochsRemain : ℕ) (bundle : StakingBundle) : ℕ :=
  ProRata.share (self.allocRem epochsRemain) (self.actualTmp epochsRemain)
    (bundle.toProto.weight epochsRemain) % 2 ^ 64

/-- The output of a bundle. -/
def rewardOutput (self : Pool) (epochsRemain : ℕ) (bundle : StakingBundle) : RewardOutput where
  reward :=
    if self.rewardAmt epochsRemain bundle > 0 then
      some ⟨self.budgetRem.tokenId, self.rewardAmt epochsRemain bundle⟩
    else none
  redeemerProp := bundle.redeemerProp
  ergValue := minSafeBoxValue

@[simp] theorem rewardAmount_rewardOutput (self : Pool) (epochsRemain : ℕ)
    (bundle : StakingBundle) :
    (self.rewardOutput epochsRemain bundle).rewardAmount = self.rewardAmt epochsRemain bundle := by
  by_cases hpos : self.rewardAmt epochsRemain bundle > 0
  · simp [rewardOutput, RewardOutput.rewardAmount, hpos]
  · simp [rewardOutput, RewardOutput.rewardAmount, Nat.eq_zero_of_not_pos hpos]

theorem rewardFor_eq_ok {ε : Type} {self : Pool} {epochsRemain : ℕ} {bundle : StakingBundle}
    {amount : ℕ}
    (h : (self.rewardFor epochsRemain bundle.vlq.amount
      (bundle.toProto.epochs - epochsRemain) : Outcome ε ℕ) = .ok amount) :
    amount = self.rewardAmt epochsRemain bundle := by
  have hshare : self.rewardAmt epochsRemain bundle =
      self.allocRem epochsRemain * bundle.vlq.amount * (bundle.toProto.epochs - epochsRemain) /
        self.actualTmp epochsRemain % 2 ^ 64 := by
    rw [rewardAmt, ProRata.share, StakingBundleProto.weight, Nat.mul_assoc]
    rfl
  rw [hshare]
  simp only [rewardFor, Outcome.bind_eq_ok, Outcome.checkedMul_eq_ok] at h
  obtain ⟨_, ⟨-, rfl⟩, h⟩ := h
  split at h
  · simp only [Outcome.bind_eq_ok, Outcome.checkedMul_eq_ok, Outcome.checkedDiv_eq_ok,
      Outcome.pure_eq, Outcome.ok.injEq] at h
    obtain ⟨_, ⟨-, rfl⟩, _, ⟨-, rfl⟩, _, ⟨-, rfl⟩, _, ⟨-, rfl⟩, _, ⟨-, rfl⟩, rfl⟩ := h
    rfl
  · rename_i hzero
    cases h
    have : self.actualTmp epochsRemain = 0 := Nat.eq_zero_of_not_pos hzero
    rw [this, Nat.div_zero, Nat.zero_mod]

/-- A bundle with the tokens for `epochsRemain` epochs. -/
def settle (epochsRemain : ℕ) (bundle : StakingBundle) : StakingBundle :=
  { bundle with tmp := (bundle.toProto.settle epochsRemain).tmp }

@[simp] theorem toProto_settle (epochsRemain : ℕ) (bundle : StakingBundle) :
    (settle epochsRemain bundle).toProto = bundle.toProto.settle epochsRemain := rfl

theorem epochsBurned_eq_ok {ε : Type} {epochsRemain burned : ℕ} {bundle : StakingBundle}
    (h : (epochsBurned epochsRemain bundle : Outcome ε ℕ) = .ok burned) (hpos : ¬ burned < 1) :
    burned = bundle.toProto.epochs - epochsRemain ∧ epochsRemain < bundle.toProto.epochs := by
  have hburned : burned = bundle.toProto.epochs - epochsRemain := by
    simp only [epochsBurned] at h
    split at h
    · rename_i tmp htmp
      simp only [Outcome.bind_eq_ok, Outcome.checkedDiv_eq_ok, Outcome.pure_eq,
        Outcome.ok.injEq] at h
      obtain ⟨_, ⟨-, rfl⟩, rfl⟩ := h
      simp [StakingBundleProto.epochs, StakingBundleProto.tmpAmount, StakingBundle.toProto, htmp]
    · cases h
      omega
  exact ⟨hburned, by omega⟩

theorem payReward_eq_ok {ε : Type} {budgetRem next : TypedAssetAmount .reward} {id : TokenId}
    {amount : ℕ} :
    (payReward budgetRem (if amount > 0 then some ⟨id, amount⟩ else none) : Outcome ε _) =
        .ok next ↔
      amount ≤ budgetRem.amount ∧ next = ⟨budgetRem.tokenId, budgetRem.amount - amount⟩ := by
  split_ifs with hpos
  · simp [payReward, TypedAssetAmount.sub_eq_ok]
  · obtain rfl := Nat.eq_zero_of_not_pos hpos
    simp [payReward, eq_comm (a := budgetRem)]

theorem chargeTmp_eq_ok {ε : Type} {epochsRemain : ℕ} {bundle : StakingBundle}
    {reservesTmp reservesTmp' : TypedAssetAmount .tmp} {accumulatedCost cost cost' : ℕ}
    {tmp' : Option (TypedAssetAmount .tmp)}
    (h : (chargeTmp epochsRemain bundle reservesTmp accumulatedCost cost : Outcome ε _) =
      .ok (tmp', reservesTmp', cost'))
    (hlt : epochsRemain < bundle.toProto.epochs) :
    tmp' = (settle epochsRemain bundle).tmp ∧
      reservesTmp' = ⟨reservesTmp.tokenId,
        reservesTmp.amount + bundle.toProto.charge epochsRemain⟩ ∧
      cost' = accumulatedCost + cost := by
  have hle := StakingBundleProto.lt_tmpAmount hlt
  obtain ⟨tmp, htmp, hamount⟩ := StakingBundleProto.tmp_isSome_of_pos
    (Nat.zero_lt_of_lt hle)
  change bundle.tmp = some tmp at htmp
  change epochsRemain * bundle.vlq.amount < _ at hle
  simp only [chargeTmp, htmp, Outcome.bind_eq_ok, Outcome.checkedMul_eq_ok,
    Outcome.checkedSub_eq_ok, Outcome.checkedAdd_eq_ok, TypedAssetAmount.add_eq_ok,
    TypedAssetAmount.sub_eq_ok, Outcome.pure_eq, Outcome.ok.injEq, Prod.mk.injEq] at h
  obtain ⟨_, ⟨-, rfl⟩, _, ⟨-, rfl⟩, _, ⟨-, rfl⟩, _, ⟨-, rfl⟩, _, ⟨-, rfl⟩, rfl, rfl, rfl⟩ := h
  refine ⟨?_, ?_, rfl⟩
  · -- what is left after the charge is what is needed for the epochs that remain
    have hleft : tmp.amount - (tmp.amount - epochsRemain * bundle.vlq.amount) =
        epochsRemain * bundle.vlq.amount := by omega
    simp only [hleft, settle, StakingBundleProto.settle, StakingBundle.toProto, htmp,
      Option.bind_some]
    by_cases hzero : epochsRemain * bundle.vlq.amount = 0
    · rw [if_neg (by omega), if_pos hzero]
    · rw [if_pos (Nat.pos_of_ne_zero hzero), if_neg hzero]
  · rw [StakingBundleProto.charge, ← hamount]
    rfl

/-- What the bundles are paid. -/
def paid (self : Pool) (epochsRemain : ℕ) (bundles : List StakingBundle) : ℕ :=
  (bundles.map (self.rewardAmt epochsRemain)).sum

/-- What the bundles are charged. -/
def charged (epochsRemain : ℕ) (bundles : List StakingBundle) : ℕ :=
  (bundles.map fun bundle => bundle.toProto.charge epochsRemain).sum

/-- The state of the loop after it has gone through `bundles`. -/
def Distribution.after (self : Pool) (epochsRemain : ℕ) (st : Distribution)
    (bundles : List StakingBundle) : Distribution where
  nextPool :=
    { st.nextPool with
      budgetRem := ⟨st.nextPool.budgetRem.tokenId,
        st.nextPool.budgetRem.amount - self.paid epochsRemain bundles⟩
      reservesTmp := ⟨st.nextPool.reservesTmp.tokenId,
        st.nextPool.reservesTmp.amount + charged epochsRemain bundles⟩ }
  nextBundles := st.nextBundles ++ bundles.map (settle epochsRemain)
  rewardOutputs := st.rewardOutputs ++ bundles.map (self.rewardOutput epochsRemain)
  accumulatedCost := st.accumulatedCost + minSafeBoxValue * bundles.length

theorem Distribution.after_nil (self : Pool) (epochsRemain : ℕ) (st : Distribution) :
    Distribution.after self epochsRemain st [] = st := by
  simp [Distribution.after, paid, charged]

theorem Distribution.after_append (self : Pool) (epochsRemain : ℕ) (st : Distribution)
    (bundles bundles' : List StakingBundle) :
    Distribution.after self epochsRemain (Distribution.after self epochsRemain st bundles)
      bundles' = Distribution.after self epochsRemain st (bundles ++ bundles') := by
  simp [Distribution.after, paid, charged, Nat.sub_sub, Nat.add_assoc, Nat.mul_add]

/-- One round of the loop. -/
theorem distributeToBundle_ok {self : Pool} {epochsRemain : ℕ} {st st' : Distribution}
    {bundle : StakingBundle} (hid : st.nextPool.budgetRem.tokenId = self.budgetRem.tokenId)
    (h : self.distributeToBundle epochsRemain st bundle = .ok st') :
    epochsRemain < bundle.toProto.epochs ∧
      self.rewardAmt epochsRemain bundle < st.nextPool.budgetRem.amount ∧
      st' = Distribution.after self epochsRemain st [bundle] := by
  simp only [distributeToBundle, Outcome.bind_eq_ok, Outcome.failIf_eq_ok, payReward_eq_ok,
    Outcome.pure_eq, Outcome.ok.injEq] at h
  obtain ⟨burned, hburned, -, hpos, amount, hamount, _, ⟨hle, rfl⟩, ⟨tmp', reservesTmp', cost'⟩,
    hcharge, -, hbudget, rfl⟩ := h
  obtain ⟨rfl, hlt⟩ := epochsBurned_eq_ok hburned hpos
  obtain rfl := rewardFor_eq_ok hamount
  obtain ⟨rfl, rfl, rfl⟩ := chargeTmp_eq_ok hcharge hlt
  refine ⟨hlt, ?_, ?_⟩
  · change st.nextPool.budgetRem.amount - self.rewardAmt epochsRemain bundle ≠ 0 at hbudget
    omega
  · simp [Distribution.after, paid, charged, rewardOutput, settle, hid]

/-- The loop. -/
theorem foldlM_distributeToBundle_ok {self : Pool} {epochsRemain : ℕ}
    {bundles : List StakingBundle} :
    ∀ {st st' : Distribution}, bundles.foldlM (self.distributeToBundle epochsRemain) st = .ok st' →
      st.nextPool.budgetRem.tokenId = self.budgetRem.tokenId →
      (∀ bundle ∈ bundles, epochsRemain < bundle.toProto.epochs) ∧
        (bundles ≠ [] → self.paid epochsRemain bundles < st.nextPool.budgetRem.amount) ∧
        st' = Distribution.after self epochsRemain st bundles := by
  induction bundles with
  | nil =>
      intro st st' h _
      cases h
      exact ⟨by simp, by simp, (Distribution.after_nil _ _ _).symm⟩
  | cons bundle rest ih =>
      intro st st' h hid
      rw [List.foldlM_cons, Outcome.bind_eq_ok] at h
      obtain ⟨st₁, hstep, hrest⟩ := h
      obtain ⟨hlt, hreward, rfl⟩ := distributeToBundle_ok hid hstep
      obtain ⟨hburned, hpaid, rfl⟩ := ih hrest hid
      refine ⟨List.forall_mem_cons.mpr ⟨hlt, hburned⟩, fun _ => ?_, ?_⟩
      · rcases eq_or_ne rest [] with rfl | hne
        · simpa [paid] using hreward
        · have := hpaid hne
          simp only [Distribution.after, paid, List.map_cons, List.sum_cons, List.map_nil,
            List.sum_nil] at this ⊢
          omega
      · rw [Distribution.after_append, List.singleton_append]

theorem fundsTotal_eq_ok {ε : Type} {funding : NonEmpty DistributionFunding} {total : ℕ}
    (h : (fundsTotal funding : Outcome ε ℕ) = .ok total) :
    total = (funding.toList.map DistributionFunding.ergValue).sum := by
  have hfold : ∀ (values : List ℕ) (start : ℕ),
      (values.foldlM (Outcome.checkedAdd 64) start : Outcome ε ℕ) = .ok total →
      total = start + values.sum := by
    intro values
    induction values with
    | nil =>
        intro start h
        cases h
        simp
    | cons value rest ih =>
        intro start h
        simp only [List.foldlM_cons, Outcome.bind_eq_ok, Outcome.checkedAdd_eq_ok] at h
        obtain ⟨_, ⟨-, rfl⟩, hrest⟩ := h
        rw [ih _ hrest, List.sum_cons, Nat.add_assoc]
  simpa using hfold _ _ h

/-- What the transaction costs the executor: a box for each bundle, and the fee. -/
def distributionCost (bundles : List StakingBundle) : ℕ :=
  minSafeBoxValue * bundles.length + defaultMinerFeeForCompoundTx

/-- What a successful distribution has checked, and what it returns.  `epochIx` is the epoch
being compounded and `total` the value of the funding. -/
structure Distributed (pool : Pool) (bundles : List StakingBundle)
    (funding : NonEmpty DistributionFunding) (nextPool : Pool) (nextBundles : List StakingBundle)
    (nextFunding : Option DistributionFundingProto) (rewardOutputs : List RewardOutput)
    (minerOutput : MinerOutput) (epochIx total : ℕ) : Prop where
  epochIx_eq : (pool.compoundingEpochIx : Outcome PoolOperationError ℕ) = .ok epochIx
  burned : ∀ bundle ∈ bundles, pool.epochsRemain epochIx < bundle.toProto.epochs
  paid_lt : bundles ≠ [] → pool.paid (pool.epochsRemain epochIx) bundles < pool.budgetRem.amount
  nextPool_eq : nextPool =
    { pool with
      budgetRem := ⟨pool.budgetRem.tokenId,
        pool.budgetRem.amount - pool.paid (pool.epochsRemain epochIx) bundles⟩
      reservesTmp := ⟨pool.reservesTmp.tokenId,
        pool.reservesTmp.amount + charged (pool.epochsRemain epochIx) bundles⟩
      epochIx := some epochIx }
  nextBundles_eq : nextBundles = bundles.map (settle (pool.epochsRemain epochIx))
  rewardOutputs_eq : rewardOutputs = bundles.map (pool.rewardOutput (pool.epochsRemain epochIx))
  total_eq : total = (funding.toList.map DistributionFunding.ergValue).sum
  funding_eq :
    (minSafeBoxValue ≤ total - distributionCost bundles ∧
      nextFunding = some ⟨funding.head.prop, total - distributionCost bundles⟩ ∧
      minerOutput = ⟨defaultMinerFeeForCompoundTx⟩) ∨
    (total - distributionCost bundles < minSafeBoxValue ∧ nextFunding = none ∧
      minerOutput = ⟨defaultMinerFeeForCompoundTx + (total - distributionCost bundles)⟩)

section Distributed

variable {pool : Pool} {bundles : List StakingBundle} {funding : NonEmpty DistributionFunding}
  {nextPool : Pool} {nextBundles : List StakingBundle}
  {nextFunding : Option DistributionFundingProto} {rewardOutputs : List RewardOutput}
  {minerOutput : MinerOutput} {epochIx total : ℕ}
  (h : Distributed pool bundles funding nextPool nextBundles nextFunding rewardOutputs
    minerOutput epochIx total)
include h

theorem Distributed.paid_le :
    pool.paid (pool.epochsRemain epochIx) bundles ≤ pool.budgetRem.amount := by
  rcases eq_or_ne bundles [] with rfl | hne
  · exact Nat.zero_le _
  · exact (h.paid_lt hne).le

/-- What the distribution moves between the pool, the bundles and their redeemers. -/
theorem Distributed.amounts :
    nextPool.budgetRem.amount + pool.paid (pool.epochsRemain epochIx) bundles =
        pool.budgetRem.amount ∧
      nextPool.reservesTmp.amount =
        pool.reservesTmp.amount + charged (pool.epochsRemain epochIx) bundles := by
  rw [h.nextPool_eq]
  exact ⟨Nat.sub_add_cancel h.paid_le, rfl⟩

theorem Distributed.frame :
    nextPool.poolId = pool.poolId ∧ nextPool.conf = pool.conf ∧
      nextPool.ergValue = pool.ergValue ∧ nextPool.reservesLq = pool.reservesLq ∧
      nextPool.reservesVlq = pool.reservesVlq := by
  rw [h.nextPool_eq]
  exact ⟨rfl, rfl, rfl, rfl, rfl⟩

/-- Every bundle returned is one that had an epoch to burn, with the tokens for the epochs
that remain. -/
theorem Distributed.exists_settle {bundle : StakingBundle} (hmem : bundle ∈ nextBundles) :
    ∃ before, pool.epochsRemain epochIx < before.toProto.epochs ∧
      settle (pool.epochsRemain epochIx) before = bundle := by
  rw [h.nextBundles_eq] at hmem
  obtain ⟨before, hbefore, hsettle⟩ := List.mem_map.mp hmem
  exact ⟨before, h.burned before hbefore, hsettle⟩

/-- What the rewards add up to. -/
theorem Distributed.sum_rewards :
    (rewardOutputs.map RewardOutput.rewardAmount).sum =
      pool.paid (pool.epochsRemain epochIx) bundles := by
  rw [h.rewardOutputs_eq]
  simp [paid, Function.comp_def]

/-- Compounding leaves the values of the bundles alone. -/
theorem Distributed.bundle_ergs :
    nextBundles.map StakingBundle.ergValue = bundles.map StakingBundle.ergValue := by
  rw [h.nextBundles_eq, List.map_map]
  rfl

/-- The outputs cost what there is in funding, or what they cost anyway. -/
theorem Distributed.ergs :
    (nextFunding.toList.map DistributionFundingProto.ergValue).sum +
        (rewardOutputs.map RewardOutput.ergValue).sum + minerOutput.ergValue =
      total + (distributionCost bundles - total) := by
  have hrewards : (rewardOutputs.map RewardOutput.ergValue).sum =
      minSafeBoxValue * bundles.length := by
    rw [h.rewardOutputs_eq, List.map_map]
    have hconst : RewardOutput.ergValue ∘ pool.rewardOutput (pool.epochsRemain epochIx) =
        fun _ => minSafeBoxValue := rfl
    rw [hconst, List.map_const', List.sum_replicate, smul_eq_mul, mul_comm]
  have hcost : distributionCost bundles =
      minSafeBoxValue * bundles.length + defaultMinerFeeForCompoundTx := rfl
  obtain ⟨hle, hnext, hminer⟩ | ⟨hlt, hnext, hminer⟩ := h.funding_eq
  · have hpos : 0 < minSafeBoxValue := by decide
    have hresidual : (nextFunding.toList.map DistributionFundingProto.ergValue).sum =
        total - distributionCost bundles := by
      rw [hnext, Option.toList_some, List.map_singleton, List.sum_singleton]
    have herg : minerOutput.ergValue = defaultMinerFeeForCompoundTx := by rw [hminer]
    omega
  · have hresidual : (nextFunding.toList.map DistributionFundingProto.ergValue).sum = 0 := by
      simp [hnext]
    have herg : minerOutput.ergValue =
        defaultMinerFeeForCompoundTx + (total - distributionCost bundles) := by
      rw [hminer]
    omega

end Distributed

theorem distributeRewards_ok {pool : Pool} {bundles : List StakingBundle}
    {funding : NonEmpty DistributionFunding} {nextPool : Pool} {nextBundles : List StakingBundle}
    {nextFunding : Option DistributionFundingProto} {rewardOutputs : List RewardOutput}
    {minerOutput : MinerOutput}
    (h : pool.distributeRewards bundles funding =
      .ok (nextPool, nextBundles, nextFunding, rewardOutputs, minerOutput)) :
    ∃ epochIx total, Distributed pool bundles funding nextPool nextBundles nextFunding
      rewardOutputs minerOutput epochIx total := by
  simp only [distributeRewards, Outcome.bind_eq_ok, Outcome.checkedAdd_eq_ok] at h
  obtain ⟨epochIx, hepoch, st, hloop, cost, ⟨-, hcost⟩, total, htotal, h⟩ := h
  obtain ⟨hburned, hpaid, rfl⟩ := foldlM_distributeToBundle_ok hloop rfl
  obtain rfl : cost = distributionCost bundles := by
    rw [← hcost]
    simp [Distribution.after, distributionCost]
  refine ⟨epochIx, total, ?_⟩
  by_cases hfunds : minSafeBoxValue ≤ total - distributionCost bundles
  · rw [safeSub, if_pos hfunds] at h
    cases h
    exact ⟨hepoch, hburned, hpaid, rfl, rfl, rfl, fundsTotal_eq_ok htotal,
      .inl ⟨hfunds, rfl, rfl⟩⟩
  · rw [safeSub, if_neg hfunds] at h
    simp only [Outcome.bind_eq_ok, Outcome.checkedAdd_eq_ok] at h
    obtain ⟨erg, ⟨-, rfl⟩, h⟩ := h
    cases h
    exact ⟨hepoch, hburned, hpaid, rfl, rfl, rfl, fundsTotal_eq_ok htotal,
      .inr ⟨by omega, rfl, rfl⟩⟩

/-! ### How a batch fails -/

section Errors

open Outcome

variable {ε : Type}

theorem unfailing_compoundingEpochIx (self : Pool) :
    Unfailing (self.compoundingEpochIx : Outcome ε ℕ) := by
  have halloc : Unfailing (self.epochAlloc : Outcome ε ℕ) := unfailing_checkedDiv _ _
  refine unfailing_bind halloc fun epochAlloc => unfailing_bind
    (unfailing_bind halloc fun _ => unfailing_pure _) fun completed => ?_
  refine unfailing_bind (unfailing_checkedAdd _ _ _) fun _ => unfailing_bind
    (unfailing_checkedDiv _ _) fun _ => unfailing_bind (unfailing_checkedSub _ _) fun _ => ?_
  split_ifs
  · exact unfailing_pure _
  · exact unfailing_bind (unfailing_checkedSub _ _) fun _ => unfailing_pure _

theorem unfailing_epochsBurned (epochsRemain : ℕ) (bundle : StakingBundle) :
    Unfailing (epochsBurned epochsRemain bundle : Outcome ε ℕ) := by
  unfold epochsBurned
  split
  · exact unfailing_bind (unfailing_checkedDiv _ _) fun _ => unfailing_pure _
  · exact unfailing_pure _

theorem unfailing_rewardFor (self : Pool) (epochsRemain vlq burned : ℕ) :
    Unfailing (self.rewardFor epochsRemain vlq burned : Outcome ε ℕ) := by
  refine unfailing_bind (unfailing_checkedMul _ _ _) fun _ => ?_
  dsimp only
  split
  · refine unfailing_bind (unfailing_checkedMul _ _ _) fun _ => unfailing_bind
      (unfailing_checkedDiv _ _) fun _ => unfailing_bind (unfailing_checkedMul _ _ _) fun _ => ?_
    exact unfailing_bind (unfailing_checkedMul _ _ _) fun _ => unfailing_bind
      (unfailing_checkedDiv _ _) fun _ => unfailing_pure _
  · exact unfailing_pure _

theorem unfailing_add {T : Asset} (a b : TypedAssetAmount T) :
    Unfailing (a.add b : Outcome ε _) :=
  unfailing_bind (unfailing_checkedAdd _ _ _) fun _ => unfailing_pure _

theorem unfailing_sub {T : Asset} (a b : TypedAssetAmount T) :
    Unfailing (a.sub b : Outcome ε _) :=
  unfailing_bind (unfailing_checkedSub _ _) fun _ => unfailing_pure _

theorem unfailing_payReward (budgetRem : TypedAssetAmount .reward)
    (reward : Option (TypedAssetAmount .reward)) :
    Unfailing (payReward budgetRem reward : Outcome ε _) := by
  cases reward with
  | none => exact unfailing_pure _
  | some reward => exact unfailing_sub _ _

theorem unfailing_chargeTmp (epochsRemain : ℕ) (bundle : StakingBundle)
    (reservesTmp : TypedAssetAmount .tmp) (accumulatedCost cost : ℕ) :
    Unfailing (chargeTmp epochsRemain bundle reservesTmp accumulatedCost cost : Outcome ε _) := by
  unfold chargeTmp
  split
  · refine unfailing_bind (unfailing_checkedMul _ _ _) fun _ => unfailing_bind
      (unfailing_checkedSub _ _) fun _ => unfailing_bind (unfailing_checkedAdd _ _ _) fun _ => ?_
    exact unfailing_bind (unfailing_sub _ _) fun _ => unfailing_bind (unfailing_add _ _)
      fun _ => unfailing_pure _
  · exact unfailing_pure _

theorem distributeToBundle_err {self : Pool} {epochsRemain : ℕ} {st : Distribution}
    {bundle : StakingBundle} {e : PoolOperationError}
    (h : self.distributeToBundle epochsRemain st bundle = .err e) :
    ∃ detail, e = .permanent (.orderPoisoned detail) := by
  simp only [distributeToBundle, bind_eq_err] at h
  rcases h with h | ⟨_, -, h | ⟨_, -, h | ⟨_, -, h | ⟨_, -, h | ⟨_, -, h | ⟨_, -, h⟩⟩⟩⟩⟩⟩
  · exact absurd h (unfailing_epochsBurned _ _ _)
  · exact ⟨_, failIf_eq_err h⟩
  · exact absurd h (unfailing_rewardFor _ _ _ _ _)
  · exact absurd h (unfailing_payReward _ _ _)
  · exact absurd h (unfailing_chargeTmp _ _ _ _ _ _)
  · exact ⟨_, failIf_eq_err h⟩
  · cases h

/-- A batch fails where its loop does. -/
theorem distributeRewards_eq_err {self : Pool} {bundles : List StakingBundle}
    {funding : NonEmpty DistributionFunding} {e : PoolOperationError} :
    self.distributeRewards bundles funding = .err e ↔
      ∃ epochIx, (self.compoundingEpochIx : Outcome PoolOperationError ℕ) = .ok epochIx ∧
        bundles.foldlM (self.distributeToBundle (self.epochsRemain epochIx))
          ⟨self, [], [], 0⟩ = .err e := by
  simp only [distributeRewards, bind_eq_err]
  constructor
  · rintro (h | ⟨epochIx, hepoch, h | ⟨_, -, h | ⟨_, -, h | ⟨_, -, h⟩⟩⟩⟩)
    · exact absurd h (unfailing_compoundingEpochIx _ _)
    · exact ⟨epochIx, hepoch, h⟩
    · exact absurd h (unfailing_checkedAdd _ _ _ _)
    · exact absurd h (unfailing_foldlM (fun _ _ => unfailing_checkedAdd _ _ _) _ _ _)
    · split at h
      · cases h
      · rcases bind_eq_err.mp h with h | ⟨_, -, h⟩
        · exact absurd h (unfailing_checkedAdd _ _ _ _)
        · cases h
  · rintro ⟨epochIx, hepoch, h⟩
    exact .inr ⟨epochIx, hepoch, .inl h⟩

/-- A batch that is refused is refused for good. -/
theorem distributeRewards_err {self : Pool} {bundles : List StakingBundle}
    {funding : NonEmpty DistributionFunding} {e : PoolOperationError}
    (h : self.distributeRewards bundles funding = .err e) :
    ∃ detail, e = .permanent (.orderPoisoned detail) := by
  obtain ⟨_, -, hloop⟩ := distributeRewards_eq_err.mp h
  exact foldlM_eq_err (P := fun e => ∃ detail, e = .permanent (.orderPoisoned detail))
    (fun _ _ _ => distributeToBundle_err) hloop

end Errors

end Pool

end SpectrumOffchain
