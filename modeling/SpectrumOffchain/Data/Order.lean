import SpectrumOffchain.Data.Bundle

/-!
# Orders and outputs

The orders of `order.rs`, the funding boxes of `funding.rs`, and the outputs that an
operation on the pool leaves behind (`redeemer.rs`, `executor.rs`, `miner.rs`).
-/

namespace SpectrumOffchain

/-- A list with at least one element. -/
structure NonEmpty (α : Type) where
  head : α
  tail : List α
  deriving DecidableEq, Repr

namespace NonEmpty

variable {α β : Type}

def toList (xs : NonEmpty α) : List α := xs.head :: xs.tail

def map (f : α → β) (xs : NonEmpty α) : NonEmpty β := ⟨f xs.head, xs.tail.map f⟩

@[simp] theorem toList_map (f : α → β) (xs : NonEmpty α) : (xs.map f).toList = xs.toList.map f :=
  rfl

end NonEmpty

structure ExecutionContext where
  height : ℕ
  mintableTokenId : TokenId
  executorProp : ErgoTree
  height_lt : height < 2 ^ 32 := by decide
  deriving Repr

structure TokenDetails where
  name : String
  description : String
  deriving DecidableEq, Repr

/-! ## Orders -/

structure Deposit where
  orderId : OrderId
  poolId : PoolId
  redeemerProp : SigmaProp
  bundlePropHash : Digest32
  maxMinerFee : I64
  lq : TypedAssetAmount .lq
  ergValue : ℕ
  expectedNumEpochs : ℕ
  deriving DecidableEq, Repr

structure Redeem where
  orderId : OrderId
  poolId : PoolId
  redeemerProp : ErgoTree
  bundleKey : TypedAssetAmount .bundleKey
  expectedLq : TypedAssetAmount .lq
  maxMinerFee : I64
  ergValue : ℕ
  deriving DecidableEq, Repr

/-- All that a redeem box tells; the pool is known only through the staking bundle. -/
structure RedeemProto where
  orderId : OrderId
  redeemerProp : ErgoTree
  bundleKey : TypedAssetAmount .bundleKey
  expectedLq : TypedAssetAmount .lq
  maxMinerFee : I64
  ergValue : ℕ
  deriving DecidableEq, Repr

def RedeemProto.finalize (self : RedeemProto) (poolId : PoolId) : Redeem where
  orderId := self.orderId
  poolId := poolId
  redeemerProp := self.redeemerProp
  bundleKey := self.bundleKey
  expectedLq := self.expectedLq
  maxMinerFee := self.maxMinerFee
  ergValue := self.ergValue

structure Compound where
  poolId : PoolId
  epochIx : ℕ
  queueIx : ℕ
  stakers : List BundleId
  deriving DecidableEq, Repr

/-- The value of the funding boxes that are collected for the order. -/
def Compound.estimatedMinValue {ε : Type} (self : Compound) : Outcome ε ℕ :=
  .checkedMul 64 self.stakers.length BoxValue.safeUserMin.toNat

/-! ## Funding -/

structure DistributionFundingProto where
  prop : ErgoTree
  ergValue : ℕ
  deriving DecidableEq, Repr

structure DistributionFunding where
  id : FundingId
  prop : ErgoTree
  ergValue : ℕ
  deriving DecidableEq, Repr

def DistributionFundingProto.finalize (self : DistributionFundingProto) (id : FundingId) :
    DistributionFunding :=
  { id, prop := self.prop, ergValue := self.ergValue }

structure ExecutorWallet where
  address : Address
  deriving DecidableEq, Repr

/-! ## Outputs -/

structure RewardOutput where
  reward : Option (TypedAssetAmount .reward)
  redeemerProp : SigmaProp
  ergValue : ℕ
  deriving DecidableEq, Repr

/-- The amount of a reward, none counting as zero. -/
def RewardOutput.rewardAmount (self : RewardOutput) : ℕ :=
  (self.reward.map TypedAssetAmount.amount).getD 0

structure DepositOutput where
  bundleKey : TypedAssetAmount .bundleKey
  redeemerProp : SigmaProp
  ergValue : ℕ
  tokenName : String
  tokenDesc : String
  deriving DecidableEq, Repr

structure RedeemOutput where
  lq : TypedAssetAmount .lq
  redeemerProp : ErgoTree
  ergValue : ℕ
  deriving DecidableEq, Repr

structure ExecutorOutput where
  executorProp : ErgoTree
  ergValue : ℕ
  deriving DecidableEq, Repr

structure MinerOutput where
  ergValue : ℕ
  deriving DecidableEq, Repr

end SpectrumOffchain
