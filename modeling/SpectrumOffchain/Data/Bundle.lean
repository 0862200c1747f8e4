import SpectrumOffchain.Data.Pool

/-!
# Staking bundles

`bundle.rs`.  A bundle holds the virtual liquidity of a staker and the temporal
tokens that pay for the epochs still to come, so many for each unit of liquidity.
A `StakingBundleProto` is a bundle whose box does not exist yet.

Compounding leaves a bundle the tokens for the epochs that remain (`settle`) and takes the
others (`charge`).  What it pays for is the whole epochs among them (`weight`), so a bundle
with a remainder of tokens is charged for more than it is paid for; `weight_eq_charge` is
the case without one.
-/

namespace SpectrumOffchain

structure StakingBundleProto where
  bundleKeyId : TypedAsset .bundleKey
  poolId : PoolId
  vlq : TypedAssetAmount .virtLq
  tmp : Option (TypedAssetAmount .tmp)
  redeemerProp : SigmaProp
  ergValue : ℕ
  tokenName : String
  tokenDesc : String
  deriving DecidableEq, Repr

/-- Guards virtual liquidity and temporal tokens. -/
structure StakingBundle where
  bundleKeyId : TypedAsset .bundleKey
  stateId : BundleStateId
  poolId : PoolId
  vlq : TypedAssetAmount .virtLq
  tmp : Option (TypedAssetAmount .tmp)
  redeemerProp : SigmaProp
  ergValue : ℕ
  tokenName : String
  tokenDesc : String
  deriving DecidableEq, Repr

def bundleKeyAmount : ℕ := 1

def bundleKeyAmountUser : ℕ := maxValue - bundleKeyAmount

def StakingBundleProto.finalize (self : StakingBundleProto) (stateId : BundleStateId) :
    StakingBundle where
  bundleKeyId := self.bundleKeyId
  stateId := stateId
  poolId := self.poolId
  vlq := self.vlq
  tmp := self.tmp
  redeemerProp := self.redeemerProp
  ergValue := self.ergValue
  tokenName := self.tokenName
  tokenDesc := self.tokenDesc

namespace StakingBundle

/-- `StakingBundleProto::from(sb)`. -/
def toProto (sb : StakingBundle) : StakingBundleProto where
  bundleKeyId := sb.bundleKeyId
  poolId := sb.poolId
  vlq := sb.vlq
  tmp := sb.tmp
  redeemerProp := sb.redeemerProp
  ergValue := sb.ergValue
  tokenName := sb.tokenName
  tokenDesc := sb.tokenDesc

@[simp] theorem toProto_finalize (proto : StakingBundleProto) (stateId : BundleStateId) :
    (proto.finalize stateId).toProto = proto := rfl

@[simp] theorem finalize_toProto (bundle : StakingBundle) (stateId : BundleStateId) :
    bundle.toProto.finalize stateId = { bundle with stateId := stateId } := rfl

def bundleId (self : StakingBundle) : BundleId := ⟨self.bundleKeyId.tokenId⟩

end StakingBundle

namespace StakingBundleProto

/-- The temporal tokens of a bundle, none counting as zero. -/
def tmpAmount (b : StakingBundleProto) : ℕ := (b.tmp.map TypedAssetAmount.amount).getD 0

/-- The number of epochs that the temporal tokens of a bundle pay for. -/
def epochs (b : StakingBundleProto) : ℕ := b.tmpAmount / b.vlq.amount

/-- What compounding takes from a bundle that keeps the tokens for `epochsRemain` epochs. -/
def charge (epochsRemain : ℕ) (b : StakingBundleProto) : ℕ :=
  b.tmpAmount - epochsRemain * b.vlq.amount

/-- What compounding pays a bundle for: liquidity times the epochs burned. -/
def weight (epochsRemain : ℕ) (b : StakingBundleProto) : ℕ :=
  b.vlq.amount * (b.epochs - epochsRemain)

/-- A bundle with the tokens for `epochsRemain` epochs. -/
def settle (epochsRemain : ℕ) (b : StakingBundleProto) : StakingBundleProto :=
  { b with tmp := b.tmp.bind fun tmp =>
      if epochsRemain * b.vlq.amount = 0 then none
      else some ⟨tmp.tokenId, epochsRemain * b.vlq.amount⟩ }

@[simp] theorem settle_vlq (epochsRemain : ℕ) (b : StakingBundleProto) :
    (b.settle epochsRemain).vlq = b.vlq := rfl

theorem weight_le_charge (epochsRemain : ℕ) (b : StakingBundleProto) :
    b.weight epochsRemain ≤ b.charge epochsRemain := by
  rw [weight, charge, Nat.mul_sub, mul_comm epochsRemain]
  exact Nat.sub_le_sub_right (Nat.mul_div_le _ _) _

/-- Without a remainder of temporal tokens a bundle is charged for what it is paid for. -/
theorem weight_eq_charge {b : StakingBundleProto} (hdvd : b.vlq.amount ∣ b.tmpAmount)
    (epochsRemain : ℕ) : b.weight epochsRemain = b.charge epochsRemain := by
  rw [weight, charge, Nat.mul_sub, epochs, Nat.mul_div_cancel' hdvd, mul_comm epochsRemain]

theorem tmp_isSome_of_pos {b : StakingBundleProto} (hpos : 0 < b.tmpAmount) :
    ∃ tmp, b.tmp = some tmp ∧ tmp.amount = b.tmpAmount := by
  cases htmp : b.tmp with
  | none => simp [tmpAmount, htmp] at hpos
  | some tmp => exact ⟨tmp, rfl, by simp [tmpAmount, htmp]⟩

theorem tmpAmount_settle {epochsRemain : ℕ} {b : StakingBundleProto} (hpos : 0 < b.tmpAmount) :
    (b.settle epochsRemain).tmpAmount = epochsRemain * b.vlq.amount := by
  obtain ⟨tmp, htmp, -⟩ := tmp_isSome_of_pos hpos
  by_cases hzero : epochsRemain * b.vlq.amount = 0 <;> simp [settle, tmpAmount, htmp, hzero]

theorem settle_tmp_eq_none {epochsRemain : ℕ} {b : StakingBundleProto} (hpos : 0 < b.tmpAmount) :
    (b.settle epochsRemain).tmp = none ↔ epochsRemain * b.vlq.amount = 0 := by
  obtain ⟨tmp, htmp, -⟩ := tmp_isSome_of_pos hpos
  by_cases hzero : epochsRemain * b.vlq.amount = 0 <;> simp [settle, htmp, hzero]

theorem vlq_pos_of_epochs_pos {b : StakingBundleProto} (hpos : 0 < b.epochs) :
    0 < b.vlq.amount := by
  by_contra hzero
  rw [epochs, Nat.eq_zero_of_not_pos hzero, Nat.div_zero] at hpos
  omega

/-- A bundle with an epoch to burn has the tokens for the epochs it keeps, and more. -/
theorem lt_tmpAmount {epochsRemain : ℕ} {b : StakingBundleProto} (hlt : epochsRemain < b.epochs) :
    epochsRemain * b.vlq.amount < b.tmpAmount := by
  have hvlq := vlq_pos_of_epochs_pos (by omega : 0 < b.epochs)
  have hsucc : (epochsRemain + 1) * b.vlq.amount ≤ b.tmpAmount :=
    (Nat.mul_le_mul_right _ hlt).trans (Nat.div_mul_le_self _ _)
  rw [Nat.add_one_mul] at hsucc
  omega

end StakingBundleProto

/-! ## The index of bundles -/

/-- `INIT_EPOCH_IX`. -/
def initEpochIx : ℕ := 1

/-- A bundle with the first epoch it is to be compounded in. -/
structure IndexedBundle (B : Type) where
  bundle : B
  lowerEpochIx : ℕ
  deriving DecidableEq, Repr

namespace IndexedBundle

variable {ε : Type}

/-- `IndexedBundle::new`. -/
def new (bundle : StakingBundle) (conf : ProgramConfig) :
    Outcome ε (IndexedBundle StakingBundle) := do
  let tmpAmount := match bundle.tmp with
    | some t => t.amount
    | none => 0
  let epochs ← .checkedDiv tmpAmount bundle.vlq.amount
  let past ← .checkedSub conf.epochNum (epochs % 2 ^ 32)
  let lowerEpochIx ← .checkedAdd 32 past 1
  pure { bundle, lowerEpochIx }

/-- `IndexedBundle::init`. -/
def init (bundle : StakingBundle) : IndexedBundle StakingBundle :=
  { bundle, lowerEpochIx := initEpochIx }

/-- The number of epochs is cast to 32 bits before it is subtracted. -/
theorem new_eq_ok_iff {bundle : StakingBundle} {conf : ProgramConfig}
    {ib : IndexedBundle StakingBundle} : (new bundle conf : Outcome ε _) = .ok ib ↔
      bundle.vlq.amount ≠ 0 ∧ bundle.toProto.epochs % 2 ^ 32 ≤ conf.epochNum ∧
        conf.epochNum - bundle.toProto.epochs % 2 ^ 32 + 1 < 2 ^ 32 ∧
        ib = ⟨bundle, conf.epochNum - bundle.toProto.epochs % 2 ^ 32 + 1⟩ := by
  have htmp : (match bundle.tmp with | some t => t.amount | none => 0) =
      bundle.toProto.tmpAmount := by
    simp only [StakingBundleProto.tmpAmount, StakingBundle.toProto]
    cases bundle.tmp <;> rfl
  simp only [new, htmp, Outcome.bind_eq_ok, Outcome.checkedDiv_eq_ok, Outcome.checkedSub_eq_ok,
    Outcome.checkedAdd_eq_ok, Outcome.pure_eq, Outcome.ok.injEq]
  constructor
  · rintro ⟨_, ⟨hvlq, rfl⟩, _, ⟨hle, rfl⟩, _, ⟨hfit, rfl⟩, rfl⟩
    exact ⟨hvlq, hle, hfit, rfl⟩
  · rintro ⟨hvlq, hle, hfit, rfl⟩
    exact ⟨bundle.toProto.epochs, ⟨hvlq, rfl⟩, _, ⟨hle, rfl⟩, _, ⟨hfit, rfl⟩, rfl⟩

theorem new_eq_ok {bundle : StakingBundle} {conf : ProgramConfig}
    {ib : IndexedBundle StakingBundle} (hepochs : bundle.toProto.epochs ≤ conf.epochNum) :
    (new bundle conf : Outcome ε _) = .ok ib ↔
      bundle.vlq.amount ≠ 0 ∧ conf.epochNum - bundle.toProto.epochs + 1 < 2 ^ 32 ∧
        ib = ⟨bundle, conf.epochNum - bundle.toProto.epochs + 1⟩ := by
  have hsmall : bundle.toProto.epochs % 2 ^ 32 = bundle.toProto.epochs :=
    Nat.mod_eq_of_lt (hepochs.trans_lt conf.epochNum_lt)
  rw [new_eq_ok_iff, hsmall, and_iff_right hepochs]

end IndexedBundle

end SpectrumOffchain
