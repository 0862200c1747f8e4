import SpectrumOffchain.Data.Order

/-!
# Deployment of a pool

The deploy tool (`main.rs` of `spectrum-deploy-lm-pool`): the configurations that
`validate_pool` lets through, and the pool and first staking bundle of its last
transaction.
-/

namespace SpectrumOffchain

variable {ε : Type}

/-- The part of the configuration file that the pool is built from. -/
structure DeployPoolInputs where
  conf : ProgramConfig
  initialLqTokenDeposit : TypedAssetAmount .lq
  numEpochsToDelegate : ℕ
  deriving DecidableEq, Repr

inductive PoolValidationError where
  | startTooEarly
  | redeemBlocksDeltaTooLong
  | failedMaxRoundingErrorBounds
  | insufficientLqTokens
  deriving DecidableEq, Repr

def validatePool (input : DeployPoolInputs) (currentHeight : ℕ) :
    Outcome PoolValidationError Unit := do
  let earliest ← .checkedAdd 32 currentHeight 100
  .failIf (input.conf.programStart < earliest) .startTooEarly
  .failIf (input.conf.redeemBlocksDelta < input.conf.epochLen) .redeemBlocksDeltaTooLong
  .failIf (input.initialLqTokenDeposit.amount < 100) .insufficientLqTokens
  let epochNum := input.conf.epochNum
  let maxRoundingError := input.conf.maxRoundingError
  let budgetAmt := input.conf.programBudget.amount
  .failIf (epochNum ≥ maxRoundingError) .failedMaxRoundingErrorBounds
  let total ← .checkedMul 64 maxRoundingError epochNum
  let alloc ← .checkedDiv budgetAmt epochNum
  .failIf (total ≥ alloc) .failedMaxRoundingErrorBounds

/-- The tokens minted for a pool: `pool_nft`, `vlq_tokens` and `tmp_tokens`, and the key of the
first bundle. -/
structure MintedTokens where
  poolNft : TokenId
  vlqTokens : TokenId
  tmpTokens : TokenId
  bundleKeyId : TokenId
  deriving DecidableEq, Repr

/-- The pool and the staking bundle of the last transaction of the chain. -/
def deployPool (input : DeployPoolInputs) (minted : MintedTokens) (redeemerProp : SigmaProp) :
    Outcome ε (Pool × StakingBundleProto) := do
  let rewardTokenBudget ← .unwrap input.conf.programBudget.toToken
  let lqTokenAmount := input.initialLqTokenDeposit.amount
  let vlqTokenAmount ← .checkedSub maxValue lqTokenAmount
  let delegated ← .checkedMul 64 lqTokenAmount input.numEpochsToDelegate
  let tmpTokenAmount ← .checkedSub maxValue delegated
  let pool : Pool :=
    { poolId := ⟨minted.poolNft⟩
      budgetRem := .fromToken rewardTokenBudget
      reservesLq := input.initialLqTokenDeposit
      reservesVlq := ⟨minted.vlqTokens, vlqTokenAmount⟩
      reservesTmp := ⟨minted.tmpTokens, tmpTokenAmount⟩
      epochIx := none
      conf := input.conf
      ergValue := minSafeFatBoxValue }
  let stakingBundle : StakingBundleProto :=
    { bundleKeyId := ⟨minted.bundleKeyId⟩
      poolId := ⟨minted.poolNft⟩
      vlq := ⟨minted.vlqTokens, lqTokenAmount⟩
      tmp := some ⟨minted.tmpTokens, delegated⟩
      redeemerProp
      ergValue := minSafeFatBoxValue
      tokenName := ""
      tokenDesc := "" }
  pure (pool, stakingBundle)

/-- What the deployed pool and bundle hold. -/
structure Deployed (input : DeployPoolInputs) (pool : Pool) (bundle : StakingBundleProto) :
    Prop where
  conf_eq : pool.conf = input.conf
  budget_eq : pool.budgetRem = input.conf.programBudget
  budget_le : input.conf.programBudget.amount ≤ i64Max
  budget_pos : 1 ≤ input.conf.programBudget.amount
  lq_eq : pool.reservesLq = input.initialLqTokenDeposit
  vlq_eq : pool.reservesVlq.amount + input.initialLqTokenDeposit.amount = maxValue
  tmp_eq : pool.reservesTmp.amount +
    input.initialLqTokenDeposit.amount * input.numEpochsToDelegate = maxValue
  bundle_vlq : bundle.vlq.amount = input.initialLqTokenDeposit.amount
  bundle_tmp : bundle.tmpAmount = input.initialLqTokenDeposit.amount * input.numEpochsToDelegate

theorem deployPool_ok {input : DeployPoolInputs} {minted : MintedTokens}
    {redeemerProp : SigmaProp} {pool : Pool} {bundle : StakingBundleProto}
    (h : (deployPool input minted redeemerProp : Outcome ε _) = .ok (pool, bundle)) :
    Deployed input pool bundle := by
  simp only [deployPool, Outcome.bind_eq_ok, Outcome.unwrap_eq_ok,
    TypedAssetAmount.toToken_eq_some, Outcome.checkedSub_eq_ok, Outcome.checkedMul_eq_ok,
    Outcome.pure_eq, Outcome.ok.injEq, Prod.mk.injEq] at h
  obtain ⟨token, htoken, _, ⟨hvlq, rfl⟩, _, ⟨-, rfl⟩, _, ⟨htmp, rfl⟩, rfl, rfl⟩ := h
  have hamount : token.amount.toNat = input.conf.programBudget.amount := by rw [← htoken]; rfl
  exact
    { conf_eq := rfl
      budget_eq := htoken
      budget_le := hamount ▸ token.amount.le_max
      budget_pos := hamount ▸ token.amount.pos
      lq_eq := rfl
      vlq_eq := Nat.sub_add_cancel hvlq
      tmp_eq := Nat.sub_add_cancel htmp
      bundle_vlq := rfl
      bundle_tmp := rfl }

end SpectrumOffchain
