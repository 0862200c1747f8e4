import SpectrumOffchain.Data.Codec
import SpectrumOffchain.Execution.Prediction

/-!
# Entities as they are stored

Bundles and orders are kept in databases with their guards as serialised trees.  A bundle and a
deposit remember the proposition of their owner, and `serde` writes the tree of that proposition
and reads it back as a public key; a redeem remembers the tree itself.

The parser of deposits has read its proposition as a public key before, and a tree is read back
as it was.  The parser of bundles takes the proposition out of a register, though, and there it
may be any (`persisted_iff`).

## Strategy

Storing unwraps and loading unwraps, so both can crash, and `load_store` speaks of the two
together: a value that is stored and loaded again comes out as it was.  For a deposit and a
bundle this is a question of the proposition alone (`SigmaSerializable.Lawful.readProveDlog`):
the tree that is written is the tree that is read, and the reader asserts that it is a
public key.
-/

namespace SpectrumOffchain

variable {ε : Type}

/-- The serialisation of trees and propositions by ergo-lib. -/
class SigmaSerializable where
  /-- `ErgoTree::try_from(Expr::from(Constant::from(prop)))`. -/
  propTree : SigmaProp → ErgoTree
  /-- `prop.prop_bytes()`. -/
  propBytes : SigmaProp → Option Bytes
  /-- `tree.sigma_serialize_bytes()`. -/
  sigmaSerializeBytes : ErgoTree → Option Bytes

/-- The proposition is a single `ProveDlog`. -/
def IsProveDlog [ErgoLib] (prop : SigmaProp) : Prop :=
  ∃ tree, ErgoLib.proveDlog tree = some prop

/-- What the stores rely on. -/
structure SigmaSerializable.Lawful [ErgoLib] [SigmaSerializable] : Prop where
  /-- `sigma_parse_bytes` inverts `sigma_serialize_bytes`. -/
  sigmaParseBytes : ∀ tree, ∃ bytes, sigmaSerializeBytes tree = some bytes ∧
    ErgoLib.sigmaParseBytes bytes = some tree
  propBytes : ∀ prop, propBytes prop = sigmaSerializeBytes (propTree prop)
  /-- `ProveDlog::try_from` succeeds on the trees of a single `ProveDlog`. -/
  proveDlog : ∀ prop found, ErgoLib.proveDlog (propTree prop) = some found ↔
    found = prop ∧ IsProveDlog prop

/-! ## The stored forms -/

structure StakingBundleWithErgoTreeBytes where
  bundleKeyId : TypedAsset .bundleKey
  stateId : BundleStateId
  poolId : PoolId
  vlq : TypedAssetAmount .virtLq
  tmp : Option (TypedAssetAmount .tmp)
  redeemerPropBytes : Bytes
  ergValue : ℕ
  tokenName : String
  tokenDesc : String
  deriving DecidableEq, Repr

structure RawDeposit where
  orderId : OrderId
  poolId : PoolId
  redeemerPropRaw : Bytes
  bundlePropHash : Digest32
  maxMinerFee : I64
  lq : TokenId × ℕ
  ergValue : ℕ
  expectedNumEpochs : ℕ
  deriving DecidableEq, Repr

structure RawRedeem where
  orderId : OrderId
  poolId : PoolId
  redeemerPropBytes : Bytes
  bundleKey : TokenId × ℕ
  expectedLq : TokenId × ℕ
  maxMinerFee : I64
  ergValue : ℕ
  deriving DecidableEq, Repr

section Stored

variable [SigmaSerializable]

/-- `StakingBundleWithErgoTreeBytes::from(s)`. -/
def StakingBundle.store (s : StakingBundle) : Outcome ε StakingBundleWithErgoTreeBytes := do
  let redeemerPropBytes ← .unwrap (SigmaSerializable.propBytes s.redeemerProp)
  pure
    { bundleKeyId := s.bundleKeyId
      stateId := s.stateId
      poolId := s.poolId
      vlq := s.vlq
      tmp := s.tmp
      redeemerPropBytes
      ergValue := s.ergValue
      tokenName := s.tokenName
      tokenDesc := s.tokenDesc }

/-- `RawDeposit::from(d)`. -/
def Deposit.store (d : Deposit) : Outcome ε RawDeposit := do
  let redeemerPropRaw ← .unwrap (SigmaSerializable.propBytes d.redeemerProp)
  pure
    { orderId := d.orderId
      poolId := d.poolId
      redeemerPropRaw
      bundlePropHash := d.bundlePropHash
      maxMinerFee := d.maxMinerFee
      lq := (d.lq.tokenId, d.lq.amount)
      ergValue := d.ergValue
      expectedNumEpochs := d.expectedNumEpochs }

/-- `RawRedeem::from(r)`. -/
def Redeem.store (r : Redeem) : Outcome ε RawRedeem := do
  let redeemerPropBytes ← .unwrap (SigmaSerializable.sigmaSerializeBytes r.redeemerProp)
  pure
    { orderId := r.orderId
      poolId := r.poolId
      redeemerPropBytes
      bundleKey := (r.bundleKey.tokenId, r.bundleKey.amount)
      expectedLq := (r.expectedLq.tokenId, r.expectedLq.amount)
      maxMinerFee := r.maxMinerFee
      ergValue := r.ergValue }

end Stored

section ErgoLib

variable [ErgoLib]

/-- `SigmaProp::from(ProveDlog::try_from(ErgoTree::sigma_parse_bytes(&bytes).unwrap()).unwrap())`. -/
def readProveDlog (bytes : Bytes) : Outcome ε SigmaProp := do
  let tree ← .unwrap (ErgoLib.sigmaParseBytes bytes)
  .unwrap (ErgoLib.proveDlog tree)

/-- `StakingBundle::from(s)`. -/
def StakingBundleWithErgoTreeBytes.load (s : StakingBundleWithErgoTreeBytes) :
    Outcome ε StakingBundle := do
  let redeemerProp ← readProveDlog s.redeemerPropBytes
  pure
    { bundleKeyId := s.bundleKeyId
      stateId := s.stateId
      poolId := s.poolId
      vlq := s.vlq
      tmp := s.tmp
      redeemerProp
      ergValue := s.ergValue
      tokenName := s.tokenName
      tokenDesc := s.tokenDesc }

/-- `Deposit::from(rd)`. -/
def RawDeposit.load (rd : RawDeposit) : Outcome ε Deposit := do
  let redeemerProp ← readProveDlog rd.redeemerPropRaw
  pure
    { orderId := rd.orderId
      poolId := rd.poolId
      redeemerProp
      bundlePropHash := rd.bundlePropHash
      maxMinerFee := rd.maxMinerFee
      lq := ⟨rd.lq.1, rd.lq.2⟩
      ergValue := rd.ergValue
      expectedNumEpochs := rd.expectedNumEpochs }

/-- `Redeem::from(rr)`. -/
def RawRedeem.load (rr : RawRedeem) : Outcome ε Redeem := do
  let redeemerProp ← .unwrap (ErgoLib.sigmaParseBytes rr.redeemerPropBytes)
  pure
    { orderId := rr.orderId
      poolId := rr.poolId
      redeemerProp
      bundleKey := ⟨rr.bundleKey.1, rr.bundleKey.2⟩
      expectedLq := ⟨rr.expectedLq.1, rr.expectedLq.2⟩
      maxMinerFee := rr.maxMinerFee
      ergValue := rr.ergValue }

/-! ## Reading back what was stored -/

/-- A public key has been read as one. -/
theorem Deposit.isProveDlog_of_tryFromBox {bx : ErgoBox} {d : Deposit}
    (h : Deposit.tryFromBox bx = some d) : IsProveDlog d.redeemerProp := by
  obtain ⟨-, -, -, hprop⟩ := of_tryFromBox h
  exact hprop

variable [SigmaSerializable] (hlib : SigmaSerializable.Lawful)
include hlib

/-- The stored bytes of a proposition are read back as a public key if it is one. -/
theorem SigmaSerializable.Lawful.readProveDlog (prop : SigmaProp) : ∃ bytes,
    SigmaSerializable.propBytes prop = some bytes ∧
      ∀ found, (readProveDlog bytes : Outcome ε _) = .ok found ↔
        found = prop ∧ IsProveDlog prop := by
  obtain ⟨bytes, hbytes, hparse⟩ := hlib.sigmaParseBytes (SigmaSerializable.propTree prop)
  refine ⟨bytes, (hlib.propBytes prop).trans hbytes, fun found => ?_⟩
  rw [← hlib.proveDlog prop found, SpectrumOffchain.readProveDlog, hparse]
  exact Outcome.unwrap_eq_ok

theorem StakingBundle.load_store_iff (bundle : StakingBundle) :
    (bundle.store >>= StakingBundleWithErgoTreeBytes.load : Outcome ε _) = .ok bundle ↔
      IsProveDlog bundle.redeemerProp := by
  obtain ⟨bytes, hbytes, hread⟩ := hlib.readProveDlog (ε := ε) bundle.redeemerProp
  simp only [store, hbytes, Outcome.unwrap, Outcome.ok_bind, Outcome.pure_eq,
    StakingBundleWithErgoTreeBytes.load, Outcome.bind_eq_ok]
  constructor
  · rintro ⟨found, hfound, heq⟩
    exact ((hread found).mp hfound).2
  · exact fun hdlog => ⟨bundle.redeemerProp, (hread _).mpr ⟨rfl, hdlog⟩, rfl⟩

theorem Deposit.load_store {deposit : Deposit} (hdlog : IsProveDlog deposit.redeemerProp) :
    (deposit.store >>= RawDeposit.load : Outcome ε _) = .ok deposit := by
  obtain ⟨bytes, hbytes, hread⟩ := hlib.readProveDlog (ε := ε) deposit.redeemerProp
  simp only [store, hbytes, Outcome.unwrap, Outcome.ok_bind, Outcome.pure_eq, RawDeposit.load,
    Outcome.bind_eq_ok]
  exact ⟨deposit.redeemerProp, (hread _).mpr ⟨rfl, hdlog⟩, rfl⟩

theorem Redeem.load_store (redeem : Redeem) :
    (redeem.store >>= RawRedeem.load : Outcome ε _) = .ok redeem := by
  obtain ⟨bytes, hbytes, hparse⟩ := hlib.sigmaParseBytes redeem.redeemerProp
  simp only [store, hbytes, Outcome.unwrap, Outcome.ok_bind, Outcome.pure_eq, RawRedeem.load,
    hparse]

omit hlib in
/-- All that is read off the box can be stored, and is read back as it was. -/
structure Persisted (bx : ErgoBox) : Prop where
  bundle : ∀ bundle, StakingBundle.tryFromBox bx = some bundle →
    (bundle.store >>= StakingBundleWithErgoTreeBytes.load : Outcome Unit _) = .ok bundle
  deposit : ∀ deposit, Deposit.tryFromBox bx = some deposit →
    (deposit.store >>= RawDeposit.load : Outcome Unit _) = .ok deposit
  redeem : ∀ redeem : Redeem, redeem.ReadFrom bx →
    (redeem.store >>= RawRedeem.load : Outcome Unit _) = .ok redeem

/-- Only the owner of a bundle may be of a kind that is not read back. -/
theorem persisted_iff (bx : ErgoBox) :
    Persisted bx ↔ ∀ bundle, StakingBundle.tryFromBox bx = some bundle →
      IsProveDlog bundle.redeemerProp := by
  constructor
  · intro h bundle hbundle
    exact (bundle.load_store_iff hlib).mp (h.bundle bundle hbundle)
  · intro h
    refine ⟨?_, ?_, ?_⟩
    · exact fun bundle hbundle => (bundle.load_store_iff hlib).mpr (h bundle hbundle)
    · exact fun deposit hdeposit =>
        Deposit.load_store hlib (Deposit.isProveDlog_of_tryFromBox hdeposit)
    · exact fun redeem _ => redeem.load_store hlib

end ErgoLib

/-! ## A bundle that anyone may redeem -/

namespace Sample

open Staking.Sample

/-- A proposition is a public key if it is written as one. -/
def dlogOf : Bytes → Option SigmaProp
  | 0xcd :: point => if point.length = 33 then some ⟨0xcd :: point⟩ else none
  | _ => none

theorem dlogOf_eq_some {bytes : Bytes} {prop : SigmaProp} (h : dlogOf bytes = some prop) :
    prop.bytes = bytes := by
  unfold dlogOf at h
  split at h
  case h_1 =>
    split at h
    case isTrue =>
      cases h
      rfl
    case isFalse => cases h
  case h_2 => cases h

/-- A library in which the tree of a proposition is a header, a type and the proposition. -/
abbrev storeLib : ErgoLib :=
  { ergoLib with
    proveDlog := fun tree =>
      match tree.bytes with
      | 0x00 :: 0x08 :: prop => dlogOf prop
      | _ => none }

abbrev storeSigma : SigmaSerializable where
  propTree prop := ⟨0x00 :: 0x08 :: prop.bytes⟩
  propBytes prop := some (0x00 :: 0x08 :: prop.bytes)
  sigmaSerializeBytes tree := some tree.bytes

theorem lawful_storeSigma : @SigmaSerializable.Lawful storeLib storeSigma := by
  let := storeLib
  refine @SigmaSerializable.Lawful.mk storeLib storeSigma ?_ ?_ ?_
  · exact fun tree => ⟨tree.bytes, rfl, rfl⟩
  · exact fun _ => rfl
  · intro prop found
    constructor
    · intro h
      have hbytes : found.bytes = prop.bytes := dlogOf_eq_some h
      obtain rfl : found = prop := congrArg SigmaProp.mk hbytes
      exact ⟨rfl, _, h⟩
    · rintro ⟨rfl, tree, htree⟩
      change (match tree.bytes with
        | 0x00 :: 0x08 :: prop => dlogOf prop
        | _ => none) = some found at htree
      split at htree
      case h_1 prop _ =>
        rw [← dlogOf_eq_some htree] at htree
        exact htree
      case h_2 => cases htree

/-- The sample bundle with another owner. -/
def ownedBundle (redeemerProp : SigmaProp) : StakingBundleProto := { bundleProto with redeemerProp }

def ownedBox (redeemerProp : SigmaProp) : ErgoBox :=
  box fatValue bundleValidator bundleBox.tokens (ownedBundle redeemerProp).registers 6

theorem tryFromBox_ownedBox (redeemerProp : SigmaProp) :
    StakingBundle.tryFromBox (ownedBox redeemerProp) =
      some ((ownedBundle redeemerProp).finalize ⟨digest 6⟩) := by
  have hcontents : (ownedBox redeemerProp).contents = (ownedBundle redeemerProp).contents := rfl
  exact StakingBundle.tryFromBox_of_contents hcontents (digest 13) 6

/-- A public key. -/
def key : SigmaProp := ⟨0xcd :: List.replicate 33 2⟩

/-- The proposition that is always true. -/
def trivialProp : SigmaProp := ⟨[0xd3]⟩

end Sample

open Sample in
theorem persisted_iff_sample : @Persisted storeLib storeSigma (ownedBox key) := by
  let := storeLib
  let := storeSigma
  refine (persisted_iff lawful_storeSigma (ownedBox key)).mpr ?_
  intro bundle hbundle
  rw [tryFromBox_ownedBox] at hbundle
  cases hbundle
  exact ⟨SigmaSerializable.propTree key, rfl⟩

open Sample in
/-- The bundle is stored, and whoever reads it crashes. -/
theorem unreadable_bundle : ¬ @Persisted storeLib storeSigma (ownedBox trivialProp) := by
  let := storeLib
  let := storeSigma
  intro h
  have hload := h.bundle _ (tryFromBox_ownedBox trivialProp)
  cases hload

end SpectrumOffchain
