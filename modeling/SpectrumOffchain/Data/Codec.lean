import SpectrumOffchain.Data.Order
import SpectrumOffchain.Ergo.Validators

/-!
# Entities as boxes

`TryFromBox` and `IntoBoxCandidate` of the entities: how a pool, a bundle, an order or
a funding box is read off a box of the ledger, and how the outputs of an operation are
written into the boxes of a transaction.  Writing unwraps: an amount that is not a
token amount, or a value that is not a box value, is a crash.

## Contents

A register or a transaction id does not matter to most proofs about boxes.  `BoxContents`
keeps of a candidate what the entity decides, its value, its script, its assets and its
registers, and there are four groups of lemmas, each with one lemma for each kind of box:

* `intoCandidate_ok`: the candidate that is written has the contents of the entity;
* `exists_intoCandidate`: it is written exactly when the contents are `Writable`, that is
  when all amounts and the value are between 1 and the maximum of a signed 64-bit number;
* `of_tryFromBox` and `assets_of_tryFromBox`: what a box is known to hold once an entity
  has been read off it;
* `tryFromBox_of_contents`: what was written is read back.  For a pool this takes the
  condition `Pool.Readable`, since the parser rejects numbers that the casts to signed
  integers turn negative; a pool that was itself read off a box satisfies it.
-/

namespace SpectrumOffchain

variable {ε : Type}

/-- `u32::try_from(x)`. -/
def u32TryFromI32 (x : I32) : Option ℕ := if x.msb then none else some x.toNat

/-- `s.as_bytes().to_vec()`. -/
def asBytes (s : String) : Bytes := s.toUTF8.data.toList

/-- `String::from_utf8(bytes).ok()`. -/
def fromUtf8 (bytes : Bytes) : Option String := String.fromUTF8? ⟨bytes.toArray⟩

theorem fromUtf8_asBytes (s : String) : fromUtf8 (asBytes s) = some s := by
  obtain ⟨bytes, hvalid⟩ := s
  exact dif_pos hvalid

/-- `BoxTokens::from([token])`. -/
def BoxTokens.one (token : Token) : BoxTokens := ⟨[token], by simp, by simp⟩

/-- `AsBox::try_from_box`. -/
def AsBox.tryFromBox {T : Type} (tryFrom : ErgoBox → Option T) (bx : ErgoBox) :
    Option (AsBox T) :=
  (tryFrom bx).map fun value => ⟨bx, value⟩

/-! ## Pools -/

def Pool.tryFromBox (bx : ErgoBox) : Option Pool :=
  match bx.tokens.map BoundedVec.toList with
  | some [poolNft, budgetRem, lq, vlq, tmp] =>
    if poolValidator = bx.ergoTree then do
      let conf ← (← bx.getRegister .R4).extractCollInt
      let budget ← (← bx.getRegister .R5).extractLong
      let maxRoundingError ← (← bx.getRegister .R6).extractLong
      let epochIx := (bx.getRegister .R7).bind fun reg => reg.extractInt.bind u32TryFromI32
      -- `u64::try_from(..).ok()?`
      if maxRoundingError.msb then none
      else
        match conf with
        | epochLen :: epochNum :: programStart :: redeemBlocksDelta :: _ =>
          some
            { poolId := ⟨poolNft.tokenId⟩
              budgetRem := .fromToken budgetRem
              reservesLq := .fromToken lq
              reservesVlq := .fromToken vlq
              reservesTmp := .fromToken tmp
              epochIx
              conf :=
                { epochLen := epochLen.toNat
                  epochNum := epochNum.toNat
                  programStart := programStart.toNat
                  redeemBlocksDelta := redeemBlocksDelta.toNat
                  maxRoundingError := maxRoundingError.toNat
                  programBudget := ⟨budgetRem.tokenId, budget.toNat⟩
                  epochLen_lt := epochLen.isLt
                  epochNum_lt := epochNum.isLt
                  programStart_lt := programStart.isLt
                  redeemBlocksDelta_lt := redeemBlocksDelta.isLt
                  maxRoundingError_lt := maxRoundingError.isLt
                  programBudget_lt := budget.isLt }
              ergValue := bx.value.toNat }
        | _ => none
    else none
  | _ => none

/-- The registers of a pool box. -/
def Pool.registers (self : Pool) : List Constant :=
  [.collInt self.conf.toVec, .long (.ofNat 64 self.conf.programBudget.amount),
    .long (.ofNat 64 self.conf.maxRoundingError)] ++
  match self.epochIx with
  | some ix => [.int (.ofNat 32 ix)]
  | none => []

def Pool.intoCandidate (self : Pool) (height : ℕ) : Outcome ε ErgoBoxCandidate := do
  let poolNft ← .unwrap self.poolNft.toToken
  let budgetRem ← .unwrap self.budgetRem.toToken
  let reservesLq ← .unwrap self.reservesLq.toToken
  let reservesVlq ← .unwrap self.reservesVlq.toToken
  let reservesTmp ← .unwrap self.reservesTmp.toToken
  let tokens ← .unwrap (BoundedVec.fromVec [poolNft, budgetRem, reservesLq, reservesVlq, reservesTmp])
  let registers ← .unwrap (BoundedVec.fromVec self.registers)
  let value ← .unwrap (BoxValue.new self.ergValue)
  pure
    { value
      ergoTree := poolValidator
      tokens := some tokens
      additionalRegisters := registers
      creationHeight := height }

/-! ## Staking bundles -/

def StakingBundle.tryFromBox (bx : ErgoBox) : Option StakingBundle := do
  let (vlq, tmp, bundleKey) ← match bx.tokens.map BoundedVec.toList with
    | some [vlq, tmp, bundleKey] => some (vlq, some tmp, bundleKey)
    -- after the final compounding all temporal tokens of the bundle are consumed
    | some [vlq, bundleKey] => some (vlq, none, bundleKey)
    | _ => none
  if bx.ergoTree = bundleValidator then
    let redeemerProp ← (← bx.getRegister .R6).extractSigmaProp
    let poolId ← (← bx.getRegister .R7).extractDigest32
    let tokenName ← fromUtf8 (← (← bx.getRegister .R4).extractBytes)
    let tokenDesc ← fromUtf8 (← (← bx.getRegister .R5).extractBytes)
    some
      { bundleKeyId := ⟨bundleKey.tokenId⟩
        stateId := ⟨bx.boxId⟩
        poolId := ⟨poolId⟩
        vlq := .fromToken vlq
        tmp := tmp.map .fromToken
        redeemerProp
        ergValue := bx.value.toNat
        tokenName
        tokenDesc }
  else none

/-- The registers of a bundle box. -/
def StakingBundleProto.registers (self : StakingBundleProto) : NonMandatoryRegisters :=
  ⟨[.collByte (asBytes self.tokenName), .collByte (asBytes self.tokenDesc),
    .sigmaProp self.redeemerProp, .collByte self.poolId.tokenId.bytes], by simp, by simp⟩

def StakingBundleProto.intoCandidate (self : StakingBundleProto) (height : ℕ) :
    Outcome ε ErgoBoxCandidate := do
  let bundleKeyAmount ← .unwrap (TokenAmount.tryFrom bundleKeyAmount)
  let bundleKey : Token := ⟨self.bundleKeyId.tokenId, bundleKeyAmount⟩
  let vlq ← .unwrap self.vlq.toToken
  let tmp ← .unwrap (self.tmp.traverse TypedAssetAmount.toToken)
  let tokens ← .unwrap (BoundedVec.fromVec (match tmp with
    | some tmp => [vlq, tmp, bundleKey]
    | none => [vlq, bundleKey]))
  let value ← .unwrap (BoxValue.new self.ergValue)
  pure
    { value
      ergoTree := bundleValidator
      tokens := some tokens
      additionalRegisters := self.registers
      creationHeight := height }

def StakingBundle.intoCandidate (self : StakingBundle) (height : ℕ) :
    Outcome ε ErgoBoxCandidate :=
  self.toProto.intoCandidate height

/-! ## Outputs -/

/-- A box with a value, a guard and tokens, and nothing else. -/
def plainCandidate (ergValue : ℕ) (ergoTree : ErgoTree) (tokens : Option BoxTokens)
    (height : ℕ) : Outcome ε ErgoBoxCandidate := do
  let value ← .unwrap (BoxValue.new ergValue)
  pure
    { value
      ergoTree
      tokens
      additionalRegisters := .empty
      creationHeight := height }

def DistributionFundingProto.intoCandidate (self : DistributionFundingProto) (height : ℕ) :
    Outcome ε ErgoBoxCandidate :=
  plainCandidate self.ergValue self.prop none height

def ExecutorOutput.intoCandidate (self : ExecutorOutput) (height : ℕ) :
    Outcome ε ErgoBoxCandidate :=
  plainCandidate self.ergValue self.executorProp none height

def RedeemOutput.intoCandidate (self : RedeemOutput) (height : ℕ) :
    Outcome ε ErgoBoxCandidate := do
  let lq ← .unwrap self.lq.toToken
  plainCandidate self.ergValue self.redeemerProp (some (.one lq)) height

section ErgoLib

variable [ErgoLib]

def MinerOutput.intoCandidate (self : MinerOutput) (height : ℕ) : Outcome ε ErgoBoxCandidate :=
  plainCandidate self.ergValue ErgoLib.minersFeeTree none height

def RewardOutput.intoCandidate (self : RewardOutput) (height : ℕ) :
    Outcome ε ErgoBoxCandidate := do
  let reward ← .unwrap (self.reward.traverse TypedAssetAmount.toToken)
  plainCandidate self.ergValue (ErgoLib.p2pkTree self.redeemerProp) (reward.map .one) height

def DepositOutput.intoCandidate (self : DepositOutput) (height : ℕ) :
    Outcome ε ErgoBoxCandidate := do
  let value ← .unwrap (BoxValue.new self.ergValue)
  let bundleKey ← .unwrap self.bundleKey.toToken
  pure
    { value
      ergoTree := ErgoLib.p2pkTree self.redeemerProp
      tokens := some (.one bundleKey)
      additionalRegisters :=
        ⟨[.collByte (asBytes self.tokenName), .collByte (asBytes self.tokenDesc)], by simp, by simp⟩
      creationHeight := height }

/-! ## Funding boxes -/

def ExecutorWallet.ergoTree (self : ExecutorWallet) : ErgoTree := ErgoLib.script self.address

/-- `DistributionFunding::try_from_box`, in the context of a wallet. -/
def DistributionFunding.tryFromBox (bx : ErgoBox) (wallet : ExecutorWallet) :
    Option DistributionFunding :=
  if bx.ergoTree = ErgoLib.script wallet.address then
    some { id := ⟨bx.boxId⟩, prop := bx.ergoTree, ergValue := bx.value.toNat }
  else none

/-! ## Orders -/

/-- A constant of the tree of an order. -/
def treeConstant (tree : ErgoTree) (index : ℕ) : Option Constant :=
  (ErgoLib.getConstant tree index).bind id

def Deposit.tryFromBox (bx : ErgoBox) : Option Deposit := do
  let tokens ← bx.tokens
  if (← ErgoLib.templateBytes bx.ergoTree) = depositTemplate ∧ tokens.toList.length = 1 then
    let poolId ← (← treeConstant bx.ergoTree 1).extractDigest32
    let redeemerTree ← ErgoLib.sigmaParseBytes (← (← treeConstant bx.ergoTree 2).extractBytes)
    let redeemerProp ← ErgoLib.proveDlog redeemerTree
    let bundlePropHash ← (← treeConstant bx.ergoTree 12).extractDigest32
    let maxMinerFee ← (← treeConstant bx.ergoTree 23).extractLong
    let expectedNumEpochs ← (← treeConstant bx.ergoTree 16).extractInt
    let minerPropBytes ← (← treeConstant bx.ergoTree 20).extractBytes
    if minerPropBytes = ErgoLib.minersFeeBytes then
      let lq ← tokens.toList[0]?
      some
        { orderId := ⟨bx.boxId⟩
          poolId := ⟨poolId⟩
          redeemerProp
          bundlePropHash
          maxMinerFee
          lq := .fromToken lq
          ergValue := bx.value.toNat
          expectedNumEpochs := expectedNumEpochs.toNat }
    else none
  else none

/-- The inner result is what the parser returns; it crashes where it asserts the miner fee
proposition. -/
def RedeemProto.tryFromBox (bx : ErgoBox) : Outcome ε (Option RedeemProto) := do
  let some tokens := bx.tokens | pure none
  let some template := ErgoLib.templateBytes bx.ergoTree | pure none
  if template = redeemTemplate ∧ tokens.toList.length = 1 then
    let constants : Option (ErgoTree × Token × Digest32 × I64 × Bytes) := do
      let redeemerProp ← ErgoLib.sigmaParseBytes (← (← treeConstant bx.ergoTree 9).extractBytes)
      let bundleKey ← tokens.toList[0]?
      let expectedLqId ← (← treeConstant bx.ergoTree 10).extractDigest32
      let expectedLqAmt ← (← treeConstant bx.ergoTree 11).extractLong
      let minerPropBytes ← (← treeConstant bx.ergoTree 5).extractBytes
      some (redeemerProp, bundleKey, expectedLqId, expectedLqAmt, minerPropBytes)
    let some (redeemerProp, bundleKey, expectedLqId, expectedLqAmt, minerPropBytes) := constants
      | pure none
    if minerPropBytes ≠ ErgoLib.minersFeeBytes then .crash
    else
      pure do
        let maxMinerFee ← (← treeConstant bx.ergoTree 8).extractLong
        some
          { orderId := ⟨bx.boxId⟩
            redeemerProp
            bundleKey := .fromToken bundleKey
            expectedLq := ⟨expectedLqId, expectedLqAmt.toNat⟩
            maxMinerFee
            ergValue := bx.value.toNat }
  else pure none

end ErgoLib

/-! ## What is written

The height does not occur in the contents: it goes into the creation height of the box, which no
entity is read from. -/

/-- What a box holds, apart from the height it was created at. -/
structure BoxContents where
  value : ℕ
  ergoTree : ErgoTree
  assets : List (TokenId × ℕ)
  registers : List Constant
  deriving DecidableEq, Repr

def ErgoBoxCandidate.contents (c : ErgoBoxCandidate) : BoxContents :=
  ⟨c.value.toNat, c.ergoTree, c.assets, c.additionalRegisters.toList⟩

def Pool.contents (self : Pool) : BoxContents where
  value := self.ergValue
  ergoTree := poolValidator
  assets := [self.poolNft.asset, self.budgetRem.asset, self.reservesLq.asset,
    self.reservesVlq.asset, self.reservesTmp.asset]
  registers := self.registers

def StakingBundleProto.contents (self : StakingBundleProto) : BoxContents where
  value := self.ergValue
  ergoTree := bundleValidator
  assets := [self.vlq.asset] ++ self.tmp.toList.map TypedAssetAmount.asset ++
    [(self.bundleKeyId.tokenId, bundleKeyAmount)]
  registers := self.registers.toList

def DistributionFundingProto.contents (self : DistributionFundingProto) : BoxContents :=
  ⟨self.ergValue, self.prop, [], []⟩

def ExecutorOutput.contents (self : ExecutorOutput) : BoxContents :=
  ⟨self.ergValue, self.executorProp, [], []⟩

def RedeemOutput.contents (self : RedeemOutput) : BoxContents :=
  ⟨self.ergValue, self.redeemerProp, [self.lq.asset], []⟩

def MinerOutput.contents [ErgoLib] (self : MinerOutput) : BoxContents :=
  ⟨self.ergValue, ErgoLib.minersFeeTree, [], []⟩

def RewardOutput.contents [ErgoLib] (self : RewardOutput) : BoxContents :=
  ⟨self.ergValue, ErgoLib.p2pkTree self.redeemerProp,
    self.reward.toList.map TypedAssetAmount.asset, []⟩

def DepositOutput.contents [ErgoLib] (self : DepositOutput) : BoxContents where
  value := self.ergValue
  ergoTree := ErgoLib.p2pkTree self.redeemerProp
  assets := [self.bundleKey.asset]
  registers := [.collByte (asBytes self.tokenName), .collByte (asBytes self.tokenDesc)]

theorem Pool.intoCandidate_ok {self : Pool} {height : ℕ} {c : ErgoBoxCandidate}
    (h : (self.intoCandidate height : Outcome ε _) = .ok c) : c.contents = self.contents := by
  simp only [intoCandidate, Outcome.bind_eq_ok, Outcome.unwrap_eq_ok,
    TypedAssetAmount.toToken_eq_some, BoundedVec.fromVec_eq_some, BoxValue.new_eq_some,
    Outcome.pure_eq, Outcome.ok.injEq] at h
  obtain ⟨poolNft, hnft, budgetRem, hbudget, lq, hlq, vlq, hvlq, tmp, htmp, tokens, htokens,
    registers, hregisters, value, hvalue, rfl⟩ := h
  rw [contents, ← hnft, ← hbudget, ← hlq, ← hvlq, ← htmp]
  simp [ErgoBoxCandidate.contents, ErgoBoxCandidate.assets, ErgoBoxCandidate.tokenList, htokens,
    hvalue, hregisters]

theorem traverse_toToken_eq_some {T : Asset} {amount : Option (TypedAssetAmount T)}
    {token : Option Token} (h : amount.traverse TypedAssetAmount.toToken = some token) :
    token.toList.map (fun token => (token.tokenId, token.amount.toNat)) =
      amount.toList.map TypedAssetAmount.asset := by
  cases amount with
  | none =>
      change some none = some token at h
      cases h
      rfl
  | some amount =>
      change some <$> amount.toToken = some token at h
      rw [Option.map_eq_map, Option.map_eq_some_iff] at h
      obtain ⟨token', htoken, rfl⟩ := h
      rw [TypedAssetAmount.toToken_eq_some] at htoken
      rw [← htoken]
      rfl

theorem StakingBundleProto.intoCandidate_ok {self : StakingBundleProto} {height : ℕ}
    {c : ErgoBoxCandidate} (h : (self.intoCandidate height : Outcome ε _) = .ok c) :
    c.contents = self.contents := by
  simp only [intoCandidate, Outcome.bind_eq_ok, Outcome.unwrap_eq_ok,
    TypedAssetAmount.toToken_eq_some, TokenAmount.tryFrom_eq_some, BoundedVec.fromVec_eq_some,
    BoxValue.new_eq_some, Outcome.pure_eq, Outcome.ok.injEq] at h
  obtain ⟨keyAmount, hkey, vlq, hvlq, tmp, htmp, tokens, htokens, value, hvalue, rfl⟩ := h
  rw [contents, ← hvlq, ← hkey, ← traverse_toToken_eq_some htmp]
  cases tmp <;> simp [ErgoBoxCandidate.contents, ErgoBoxCandidate.assets,
    ErgoBoxCandidate.tokenList, htokens, hvalue]

theorem plainCandidate_ok {ergValue : ℕ} {ergoTree : ErgoTree} {tokens : Option BoxTokens}
    {height : ℕ} {c : ErgoBoxCandidate}
    (h : (plainCandidate ergValue ergoTree tokens height : Outcome ε _) = .ok c) :
    c.contents = ⟨ergValue, ergoTree, ((tokens.map BoundedVec.toList).getD []).map fun token =>
      (token.tokenId, token.amount.toNat), []⟩ := by
  simp only [plainCandidate, Outcome.bind_eq_ok, Outcome.unwrap_eq_ok, BoxValue.new_eq_some,
    Outcome.pure_eq, Outcome.ok.injEq] at h
  obtain ⟨value, rfl, rfl⟩ := h
  rfl

theorem DistributionFundingProto.intoCandidate_ok {self : DistributionFundingProto} {height : ℕ}
    {c : ErgoBoxCandidate} (h : (self.intoCandidate height : Outcome ε _) = .ok c) :
    c.contents = self.contents := plainCandidate_ok h

theorem ExecutorOutput.intoCandidate_ok {self : ExecutorOutput} {height : ℕ}
    {c : ErgoBoxCandidate} (h : (self.intoCandidate height : Outcome ε _) = .ok c) :
    c.contents = self.contents := plainCandidate_ok h

theorem RedeemOutput.intoCandidate_ok {self : RedeemOutput} {height : ℕ} {c : ErgoBoxCandidate}
    (h : (self.intoCandidate height : Outcome ε _) = .ok c) : c.contents = self.contents := by
  simp only [intoCandidate, Outcome.bind_eq_ok, Outcome.unwrap_eq_ok,
    TypedAssetAmount.toToken_eq_some] at h
  obtain ⟨lq, hlq, h⟩ := h
  rw [contents, ← hlq]
  exact plainCandidate_ok h

section ErgoLib

variable [ErgoLib]

theorem MinerOutput.intoCandidate_ok {self : MinerOutput} {height : ℕ} {c : ErgoBoxCandidate}
    (h : (self.intoCandidate height : Outcome ε _) = .ok c) : c.contents = self.contents :=
  plainCandidate_ok h

theorem RewardOutput.intoCandidate_ok {self : RewardOutput} {height : ℕ} {c : ErgoBoxCandidate}
    (h : (self.intoCandidate height : Outcome ε _) = .ok c) : c.contents = self.contents := by
  simp only [intoCandidate, Outcome.bind_eq_ok, Outcome.unwrap_eq_ok] at h
  obtain ⟨reward, hreward, h⟩ := h
  rw [contents, ← traverse_toToken_eq_some hreward, plainCandidate_ok h]
  cases reward <;> rfl

theorem DepositOutput.intoCandidate_ok {self : DepositOutput} {height : ℕ}
    {c : ErgoBoxCandidate} (h : (self.intoCandidate height : Outcome ε _) = .ok c) :
    c.contents = self.contents := by
  simp only [intoCandidate, Outcome.bind_eq_ok, Outcome.unwrap_eq_ok, BoxValue.new_eq_some,
    TypedAssetAmount.toToken_eq_some, Outcome.pure_eq, Outcome.ok.injEq] at h
  obtain ⟨value, hvalue, bundleKey, hkey, rfl⟩ := h
  rw [contents, ← hkey, ← hvalue]
  rfl

end ErgoLib

/-! ## What can be written -/

/-- Every amount is a token amount, and the value is a box value. -/
def BoxContents.Writable (k : BoxContents) : Prop :=
  (∀ a ∈ k.assets, 1 ≤ a.2 ∧ a.2 ≤ i64Max) ∧ 1 ≤ k.value ∧ k.value ≤ i64Max

instance (k : BoxContents) : Decidable k.Writable := inferInstanceAs (Decidable (_ ∧ _))

/-- What is in a box was writable. -/
theorem ErgoBoxCandidate.writable_contents (c : ErgoBoxCandidate) : c.contents.Writable := by
  refine ⟨fun a ha => ?_, c.value.pos, c.value.le_max⟩
  obtain ⟨token, -, rfl⟩ := List.mem_map.mp ha
  exact ⟨token.amount.pos, token.amount.le_max⟩

theorem exists_toToken {T : Asset} {a : TypedAssetAmount T}
    (h : 1 ≤ a.asset.2 ∧ a.asset.2 ≤ i64Max) : ∃ token, a.toToken = some token :=
  Option.isSome_iff_exists.mp (TypedAssetAmount.isSome_toToken.mpr h)

theorem exists_traverse_toToken {T : Asset} {amount : Option (TypedAssetAmount T)}
    (h : ∀ a ∈ amount.toList.map TypedAssetAmount.asset, 1 ≤ a.2 ∧ a.2 ≤ i64Max) :
    ∃ token, amount.traverse TypedAssetAmount.toToken = some token := by
  cases amount with
  | none => exact ⟨none, rfl⟩
  | some amount =>
      obtain ⟨token, htoken⟩ := exists_toToken (h amount.asset (List.mem_singleton_self _))
      refine ⟨some token, ?_⟩
      show some <$> amount.toToken = _
      rw [htoken]
      rfl

theorem exists_boxValue {n : ℕ} (h : 1 ≤ n ∧ n ≤ i64Max) : ∃ v, BoxValue.new n = some v :=
  Option.isSome_iff_exists.mp (BoxValue.isSome_new.mpr h)

theorem exists_boundedVec {α : Type} {lo hi : ℕ} {xs : List α}
    (h : lo ≤ xs.length ∧ xs.length ≤ hi) :
    ∃ v : BoundedVec α lo hi, BoundedVec.fromVec xs = some v :=
  Option.isSome_iff_exists.mp (BoundedVec.isSome_fromVec.mpr h)

theorem Pool.unfailing_intoCandidate (self : Pool) (height : ℕ) :
    Outcome.Unfailing (self.intoCandidate height : Outcome ε _) := by
  unfold intoCandidate
  repeat refine Outcome.unfailing_bind (Outcome.unfailing_unwrap _) fun _ => ?_
  exact Outcome.unfailing_pure _

theorem Pool.exists_intoCandidate {self : Pool} {height : ℕ} :
    (∃ c, (self.intoCandidate height : Outcome ε _) = .ok c) ↔ self.contents.Writable := by
  constructor
  · intro ⟨c, hc⟩
    exact intoCandidate_ok hc ▸ c.writable_contents
  · intro ⟨hassets, hvalue⟩
    simp only [contents, List.forall_mem_cons] at hassets hvalue
    obtain ⟨hnft, hbudget, hlq, hvlq, htmp, -⟩ := hassets
    obtain ⟨nft, hnft⟩ := exists_toToken hnft
    obtain ⟨budget, hbudget⟩ := exists_toToken hbudget
    obtain ⟨lq, hlq⟩ := exists_toToken hlq
    obtain ⟨vlq, hvlq⟩ := exists_toToken hvlq
    obtain ⟨tmp, htmp⟩ := exists_toToken htmp
    obtain ⟨tokens, htokens⟩ : ∃ tokens : BoxTokens,
        BoundedVec.fromVec [nft, budget, lq, vlq, tmp] = some tokens := exists_boundedVec (by simp)
    obtain ⟨registers, hregisters⟩ : ∃ registers : NonMandatoryRegisters,
        BoundedVec.fromVec self.registers = some registers := by
      refine exists_boundedVec ?_
      unfold Pool.registers
      cases self.epochIx <;> simp
    obtain ⟨value, hvalue⟩ := exists_boxValue hvalue
    refine (unfailing_intoCandidate self height).ne_crash_iff.mp ?_
    simp [intoCandidate, hnft, hbudget, hlq, hvlq, htmp, htokens, hregisters, hvalue,
      Outcome.unwrap]

theorem StakingBundleProto.unfailing_intoCandidate (self : StakingBundleProto) (height : ℕ) :
    Outcome.Unfailing (self.intoCandidate height : Outcome ε _) := by
  unfold intoCandidate
  repeat refine Outcome.unfailing_bind (Outcome.unfailing_unwrap _) fun _ => ?_
  exact Outcome.unfailing_pure _

theorem StakingBundleProto.exists_intoCandidate {self : StakingBundleProto} {height : ℕ} :
    (∃ c, (self.intoCandidate height : Outcome ε _) = .ok c) ↔ self.contents.Writable := by
  constructor
  · intro ⟨c, hc⟩
    exact intoCandidate_ok hc ▸ c.writable_contents
  · intro ⟨hassets, hvalue⟩
    simp only [contents, List.forall_mem_append, List.forall_mem_singleton] at hassets hvalue
    obtain ⟨⟨hvlq, htmp⟩, -⟩ := hassets
    obtain ⟨key, hkey⟩ : ∃ key, TokenAmount.tryFrom bundleKeyAmount = some key :=
      Option.isSome_iff_exists.mp (TokenAmount.isSome_tryFrom.mpr (by decide))
    obtain ⟨vlq, hvlq⟩ := exists_toToken hvlq
    obtain ⟨tmp, htmp⟩ := exists_traverse_toToken htmp
    obtain ⟨tokens, htokens⟩ : ∃ tokens : BoxTokens, BoundedVec.fromVec (match tmp with
        | some tmp => [vlq, tmp, ⟨self.bundleKeyId.tokenId, key⟩]
        | none => [vlq, ⟨self.bundleKeyId.tokenId, key⟩]) = some tokens := by
      refine exists_boundedVec ?_
      cases tmp <;> simp
    obtain ⟨value, hvalue⟩ := exists_boxValue hvalue
    refine (unfailing_intoCandidate self height).ne_crash_iff.mp ?_
    simp [intoCandidate, hkey, hvlq, htmp, htokens, hvalue, Outcome.unwrap]

theorem unfailing_plainCandidate (ergValue : ℕ) (ergoTree : ErgoTree) (tokens : Option BoxTokens)
    (height : ℕ) : Outcome.Unfailing (plainCandidate ergValue ergoTree tokens height :
      Outcome ε _) :=
  Outcome.unfailing_bind (Outcome.unfailing_unwrap _) fun _ => Outcome.unfailing_pure _

/-- A box whose tokens are given only needs a value. -/
theorem exists_plainCandidate {ergValue : ℕ} {ergoTree : ErgoTree} {tokens : Option BoxTokens}
    {height : ℕ} : (∃ c, (plainCandidate ergValue ergoTree tokens height : Outcome ε _) = .ok c) ↔
      1 ≤ ergValue ∧ ergValue ≤ i64Max := by
  constructor
  · intro ⟨c, hc⟩
    have hwritable := plainCandidate_ok hc ▸ c.writable_contents
    exact hwritable.2
  · intro hvalue
    obtain ⟨value, hvalue⟩ := exists_boxValue hvalue
    refine (unfailing_plainCandidate _ _ _ _).ne_crash_iff.mp ?_
    simp [plainCandidate, hvalue, Outcome.unwrap]

theorem RedeemOutput.unfailing_intoCandidate (self : RedeemOutput) (height : ℕ) :
    Outcome.Unfailing (self.intoCandidate height : Outcome ε _) :=
  Outcome.unfailing_bind (Outcome.unfailing_unwrap _) fun _ => unfailing_plainCandidate _ _ _ _

theorem RedeemOutput.exists_intoCandidate {self : RedeemOutput} {height : ℕ} :
    (∃ c, (self.intoCandidate height : Outcome ε _) = .ok c) ↔ self.contents.Writable := by
  constructor
  · intro ⟨c, hc⟩
    exact intoCandidate_ok hc ▸ c.writable_contents
  · intro ⟨hassets, hvalue⟩
    obtain ⟨lq, hlq⟩ := exists_toToken (hassets self.lq.asset (List.mem_singleton_self _))
    rw [intoCandidate, hlq]
    exact exists_plainCandidate.mpr hvalue

section ErgoLib

variable [ErgoLib]

theorem RewardOutput.unfailing_intoCandidate (self : RewardOutput) (height : ℕ) :
    Outcome.Unfailing (self.intoCandidate height : Outcome ε _) :=
  Outcome.unfailing_bind (Outcome.unfailing_unwrap _) fun _ => unfailing_plainCandidate _ _ _ _

theorem RewardOutput.exists_intoCandidate {self : RewardOutput} {height : ℕ} :
    (∃ c, (self.intoCandidate height : Outcome ε _) = .ok c) ↔ self.contents.Writable := by
  constructor
  · intro ⟨c, hc⟩
    exact intoCandidate_ok hc ▸ c.writable_contents
  · intro ⟨hassets, hvalue⟩
    obtain ⟨reward, hreward⟩ := exists_traverse_toToken hassets
    rw [intoCandidate, hreward]
    exact exists_plainCandidate.mpr hvalue

theorem DepositOutput.unfailing_intoCandidate (self : DepositOutput) (height : ℕ) :
    Outcome.Unfailing (self.intoCandidate height : Outcome ε _) := by
  unfold intoCandidate
  repeat refine Outcome.unfailing_bind (Outcome.unfailing_unwrap _) fun _ => ?_
  exact Outcome.unfailing_pure _

theorem DepositOutput.exists_intoCandidate {self : DepositOutput} {height : ℕ} :
    (∃ c, (self.intoCandidate height : Outcome ε _) = .ok c) ↔ self.contents.Writable := by
  constructor
  · intro ⟨c, hc⟩
    exact intoCandidate_ok hc ▸ c.writable_contents
  · intro ⟨hassets, hvalue⟩
    obtain ⟨key, hkey⟩ :=
      exists_toToken (hassets self.bundleKey.asset (List.mem_singleton_self _))
    obtain ⟨value, hvalue⟩ : ∃ value, BoxValue.new self.ergValue = some value :=
      exists_boxValue hvalue
    refine (unfailing_intoCandidate self height).ne_crash_iff.mp ?_
    simp [intoCandidate, hkey, hvalue, Outcome.unwrap]

end ErgoLib

/-! ## What is read -/

theorem u32TryFromI32_lt {x : I32} {n : ℕ} (h : u32TryFromI32 x = some n) : n < 2 ^ 31 := by
  unfold u32TryFromI32 at h
  split at h
  · cases h
  · rename_i hmsb
    cases h
    rw [Bool.not_eq_true, BitVec.msb_eq_false_iff_two_mul_lt] at hmsb
    omega

/-- What a pool says of the box that it is read off, and which numbers it has. -/
theorem Pool.of_tryFromBox {bx : ErgoBox} {pool : Pool} (h : Pool.tryFromBox bx = some pool) :
    pool.ergValue = bx.value.toNat ∧
      (∃ n, 1 ≤ n ∧ bx.assets = [(pool.poolId.tokenId, n), pool.budgetRem.asset,
        pool.reservesLq.asset, pool.reservesVlq.asset, pool.reservesTmp.asset]) ∧
      pool.conf.maxRoundingError < 2 ^ 63 ∧
      pool.conf.programBudget.tokenId = pool.budgetRem.tokenId ∧
      ∀ ix, pool.epochIx = some ix → ix < 2 ^ 31 := by
  unfold tryFromBox at h
  split at h
  case h_2 => cases h
  case h_1 poolNft budgetRem lq vlq tmp htokens =>
    obtain ⟨-, h⟩ := Option.ite_none_right_eq_some.mp h
    obtain ⟨r4, -, h⟩ := Option.bind_eq_some_iff.mp h
    obtain ⟨conf, -, h⟩ := Option.bind_eq_some_iff.mp h
    obtain ⟨r5, -, h⟩ := Option.bind_eq_some_iff.mp h
    obtain ⟨budget, -, h⟩ := Option.bind_eq_some_iff.mp h
    obtain ⟨r6, -, h⟩ := Option.bind_eq_some_iff.mp h
    obtain ⟨maxRoundingError, -, h⟩ := Option.bind_eq_some_iff.mp h
    obtain ⟨hmsb, h⟩ := Option.ite_none_left_eq_some.mp h
    split at h
    case h_2 => cases h
    case h_1 =>
      cases h
      refine ⟨rfl, ⟨poolNft.amount.toNat, poolNft.amount.pos, ?_⟩, ?_, rfl, ?_⟩
      · rw [ErgoBoxCandidate.assets, ErgoBoxCandidate.tokenList, htokens]
        rfl
      · rw [Bool.not_eq_true, BitVec.msb_eq_false_iff_two_mul_lt] at hmsb
        dsimp only
        omega
      · intro ix hix
        obtain ⟨r7, -, hix⟩ := Option.bind_eq_some_iff.mp hix
        obtain ⟨x, -, hx⟩ := Option.bind_eq_some_iff.mp hix
        exact u32TryFromI32_lt hx

/-- The box of a pool holds some of the pool NFT and the amounts of the pool. -/
theorem Pool.assets_of_tryFromBox {bx : ErgoBox} {pool : Pool}
    (h : Pool.tryFromBox bx = some pool) :
    pool.ergValue = bx.value.toNat ∧ ∃ n, 1 ≤ n ∧
      bx.assets = [(pool.poolId.tokenId, n), pool.budgetRem.asset, pool.reservesLq.asset,
        pool.reservesVlq.asset, pool.reservesTmp.asset] := by
  obtain ⟨hvalue, hassets, -⟩ := Pool.of_tryFromBox h
  exact ⟨hvalue, hassets⟩

/-- What a bundle says of the box that it is read off. -/
theorem StakingBundle.of_tryFromBox {bx : ErgoBox} {bundle : StakingBundle}
    (h : StakingBundle.tryFromBox bx = some bundle) :
    bundle.stateId = ⟨bx.boxId⟩ ∧ bundle.ergValue = bx.value.toNat ∧ ∃ n, 1 ≤ n ∧
      bx.assets = [bundle.vlq.asset] ++ bundle.tmp.toList.map TypedAssetAmount.asset ++
        [(bundle.bundleKeyId.tokenId, n)] := by
  unfold tryFromBox at h
  dsimp only [Option.bind_eq_bind, Option.bind_some, Option.bind_none] at h
  -- the two shapes of a bundle, with and without temporal tokens
  split at h
  case h_3 => cases h
  all_goals
    rename_i key htokens
    obtain ⟨-, h⟩ := Option.ite_none_right_eq_some.mp h
    obtain ⟨r6, -, h⟩ := Option.bind_eq_some_iff.mp h
    obtain ⟨prop, -, h⟩ := Option.bind_eq_some_iff.mp h
    obtain ⟨r7, -, h⟩ := Option.bind_eq_some_iff.mp h
    obtain ⟨poolId, -, h⟩ := Option.bind_eq_some_iff.mp h
    obtain ⟨r4, -, h⟩ := Option.bind_eq_some_iff.mp h
    obtain ⟨nameBytes, -, h⟩ := Option.bind_eq_some_iff.mp h
    obtain ⟨name, -, h⟩ := Option.bind_eq_some_iff.mp h
    obtain ⟨r5, -, h⟩ := Option.bind_eq_some_iff.mp h
    obtain ⟨descBytes, -, h⟩ := Option.bind_eq_some_iff.mp h
    obtain ⟨desc, -, h⟩ := Option.bind_eq_some_iff.mp h
    cases h
    refine ⟨rfl, rfl, key.amount.toNat, key.amount.pos, ?_⟩
    rw [ErgoBoxCandidate.assets, ErgoBoxCandidate.tokenList, htokens]
    rfl

theorem StakingBundle.assets_of_tryFromBox {bx : ErgoBox} {bundle : StakingBundle}
    (h : StakingBundle.tryFromBox bx = some bundle) :
    bundle.ergValue = bx.value.toNat ∧ ∃ n, 1 ≤ n ∧
      bx.assets = [bundle.vlq.asset] ++ bundle.tmp.toList.map TypedAssetAmount.asset ++
        [(bundle.bundleKeyId.tokenId, n)] := (of_tryFromBox h).2

section ErgoLib

variable [ErgoLib]

/-- What a deposit says of the box that it is read off. -/
theorem Deposit.of_tryFromBox {bx : ErgoBox} {deposit : Deposit}
    (h : Deposit.tryFromBox bx = some deposit) :
    deposit.orderId = ⟨bx.boxId⟩ ∧ deposit.ergValue = bx.value.toNat ∧
      bx.assets = [deposit.lq.asset] ∧
      ∃ tree, ErgoLib.proveDlog tree = some deposit.redeemerProp := by
  unfold tryFromBox at h
  obtain ⟨tokens, htokens, h⟩ := Option.bind_eq_some_iff.mp h
  obtain ⟨template, -, h⟩ := Option.bind_eq_some_iff.mp h
  obtain ⟨⟨-, hlength⟩, h⟩ := Option.ite_none_right_eq_some.mp h
  obtain ⟨constant1, -, h⟩ := Option.bind_eq_some_iff.mp h
  obtain ⟨poolId, -, h⟩ := Option.bind_eq_some_iff.mp h
  obtain ⟨constant2, -, h⟩ := Option.bind_eq_some_iff.mp h
  obtain ⟨treeBytes, -, h⟩ := Option.bind_eq_some_iff.mp h
  obtain ⟨tree, -, h⟩ := Option.bind_eq_some_iff.mp h
  obtain ⟨prop, hprop, h⟩ := Option.bind_eq_some_iff.mp h
  obtain ⟨constant12, -, h⟩ := Option.bind_eq_some_iff.mp h
  obtain ⟨bundlePropHash, -, h⟩ := Option.bind_eq_some_iff.mp h
  obtain ⟨constant23, -, h⟩ := Option.bind_eq_some_iff.mp h
  obtain ⟨maxMinerFee, -, h⟩ := Option.bind_eq_some_iff.mp h
  obtain ⟨constant16, -, h⟩ := Option.bind_eq_some_iff.mp h
  obtain ⟨numEpochs, -, h⟩ := Option.bind_eq_some_iff.mp h
  obtain ⟨constant20, -, h⟩ := Option.bind_eq_some_iff.mp h
  obtain ⟨minerPropBytes, -, h⟩ := Option.bind_eq_some_iff.mp h
  obtain ⟨-, h⟩ := Option.ite_none_right_eq_some.mp h
  obtain ⟨lq, hlq, h⟩ := Option.bind_eq_some_iff.mp h
  cases h
  refine ⟨rfl, rfl, ?_, tree, hprop⟩
  obtain ⟨token, hlist⟩ := List.length_eq_one_iff.mp hlength
  rw [hlist] at hlq
  cases hlq
  rw [ErgoBoxCandidate.assets, ErgoBoxCandidate.tokenList, htokens, Option.map_some,
    Option.getD_some, hlist]
  rfl

theorem Deposit.assets_of_tryFromBox {bx : ErgoBox} {deposit : Deposit}
    (h : Deposit.tryFromBox bx = some deposit) :
    deposit.ergValue = bx.value.toNat ∧ bx.assets = [deposit.lq.asset] := by
  obtain ⟨-, hvalue, hassets, -⟩ := of_tryFromBox h
  exact ⟨hvalue, hassets⟩

theorem RedeemProto.assets_of_tryFromBox {bx : ErgoBox} {proto : RedeemProto}
    (h : (RedeemProto.tryFromBox bx : Outcome ε _) = .ok (some proto)) :
    proto.ergValue = bx.value.toNat ∧ bx.assets = [proto.bundleKey.asset] := by
  unfold tryFromBox at h
  split at h
  case h_2 => cases h
  case h_1 tokens htokens =>
    split at h
    case h_2 => cases h
    case h_1 =>
      split at h
      case isFalse => cases h
      case isTrue hguard =>
        obtain ⟨token, hlist⟩ := List.length_eq_one_iff.mp hguard.2
        dsimp only at h
        split at h
        case h_2 => cases h
        case h_1 redeemerProp key lqId lqAmt miner hconstants =>
          split at h
          case isTrue => cases h
          case isFalse =>
            have hkey : key = token := by
              simp only [Option.bind_eq_bind, Option.bind_eq_some_iff, hlist] at hconstants
              obtain ⟨_, -, _, -, _, -, _, hkey, _, -, _, -, _, -, _, -, _, -, _, -, heq⟩ :=
                hconstants
              cases heq
              exact (Option.some.inj hkey).symm
            simp only [Outcome.pure_eq, Outcome.ok.injEq, Option.bind_eq_bind,
              Option.bind_eq_some_iff] at h
            obtain ⟨_, -, _, -, h⟩ := h
            cases h
            refine ⟨rfl, ?_⟩
            rw [ErgoBoxCandidate.assets, ErgoBoxCandidate.tokenList, htokens, Option.map_some,
              Option.getD_some, hlist, hkey]
            rfl

/-- The redeem was read off the box, and its pool has become known since. -/
def Redeem.ReadFrom (redeem : Redeem) (bx : ErgoBox) : Prop :=
  ∃ proto poolId, (RedeemProto.tryFromBox bx : Outcome Unit _) = .ok (some proto) ∧
    redeem = proto.finalize poolId

theorem Redeem.ReadFrom.assets {redeem : Redeem} {bx : ErgoBox} (h : redeem.ReadFrom bx) :
    redeem.ergValue = bx.value.toNat ∧ bx.assets = [redeem.bundleKey.asset] := by
  obtain ⟨proto, poolId, hproto, rfl⟩ := h
  exact RedeemProto.assets_of_tryFromBox hproto

end ErgoLib

/-! ## Reading back what was written

Casts to a signed integer keep the bits, so a configuration survives the way through the
registers whatever its size. The two numbers that the parser converts back with a check have to
be small. -/

/-- The pools that can be read back: their numbers survive the casts to signed integers. -/
structure Pool.Readable (pool : Pool) : Prop where
  maxRoundingError_lt : pool.conf.maxRoundingError < 2 ^ 63
  programBudget_id : pool.conf.programBudget.tokenId = pool.budgetRem.tokenId
  epochIx_lt : ∀ ix, pool.epochIx = some ix → ix < 2 ^ 31

theorem u32TryFromI32_ofNat {n : ℕ} (h : n < 2 ^ 31) : u32TryFromI32 (.ofNat 32 n) = some n := by
  have htoNat : (BitVec.ofNat 32 n).toNat = n := by
    rw [BitVec.toNat_ofNat]
    exact Nat.mod_eq_of_lt (by omega)
  have hmsb : (BitVec.ofNat 32 n).msb = false := by
    rw [BitVec.msb_eq_false_iff_two_mul_lt, htoNat]
    omega
  rw [u32TryFromI32, hmsb, htoNat]
  rfl

theorem Pool.readable_of_tryFromBox {bx : ErgoBox} {pool : Pool}
    (h : Pool.tryFromBox bx = some pool) : pool.Readable := by
  obtain ⟨-, -, hmaxRoundingError, hbudget, hepochIx⟩ := Pool.of_tryFromBox h
  exact ⟨hmaxRoundingError, hbudget, hepochIx⟩

/-- The registers of a pool box, one by one. -/
theorem Pool.getRegister_of_registers {self : Pool} {c : ErgoBoxCandidate}
    (h : c.additionalRegisters.toList = self.registers) :
    c.getRegister .R4 = some (.collInt self.conf.toVec) ∧
      c.getRegister .R5 = some (.long (.ofNat 64 self.conf.programBudget.amount)) ∧
      c.getRegister .R6 = some (.long (.ofNat 64 self.conf.maxRoundingError)) ∧
      c.getRegister .R7 = self.epochIx.map fun ix => .int (.ofNat 32 ix) := by
  simp only [ErgoBoxCandidate.getRegister, h, registers]
  cases self.epochIx <;> exact ⟨rfl, rfl, rfl, rfl⟩

/-- The configuration survives the way through the registers. -/
theorem ProgramConfig.toNat_ofNat (conf : ProgramConfig) :
    (BitVec.ofNat 32 conf.epochLen).toNat = conf.epochLen ∧
      (BitVec.ofNat 32 conf.epochNum).toNat = conf.epochNum ∧
      (BitVec.ofNat 32 conf.programStart).toNat = conf.programStart ∧
      (BitVec.ofNat 32 conf.redeemBlocksDelta).toNat = conf.redeemBlocksDelta ∧
      (BitVec.ofNat 64 conf.maxRoundingError).toNat = conf.maxRoundingError ∧
      (BitVec.ofNat 64 conf.programBudget.amount).toNat = conf.programBudget.amount := by
  simp only [BitVec.toNat_ofNat]
  exact ⟨Nat.mod_eq_of_lt conf.epochLen_lt, Nat.mod_eq_of_lt conf.epochNum_lt,
    Nat.mod_eq_of_lt conf.programStart_lt, Nat.mod_eq_of_lt conf.redeemBlocksDelta_lt,
    Nat.mod_eq_of_lt conf.maxRoundingError_lt, Nat.mod_eq_of_lt conf.programBudget_lt⟩

section ErgoLib

variable [ErgoLib]

theorem Pool.tryFromBox_of_contents {self : Pool} (hread : self.Readable) {c : ErgoBoxCandidate}
    (h : c.contents = self.contents) (txId : TxId) (index : ℕ) :
    Pool.tryFromBox (c.toBox txId index) = some self := by
  obtain ⟨hvalue, htree, hassets, hregisters⟩ := BoxContents.mk.inj h
  obtain ⟨tokens, htokens, hassets⟩ := ErgoBoxCandidate.tokens_of_assets hassets (by simp)
  simp only [List.map_eq_cons_iff, List.map_eq_nil_iff] at hassets
  obtain ⟨poolNft, _, rfl, hnft, budgetRem, _, rfl, hbudget, lq, _, rfl, hlq, vlq, _, rfl, hvlq,
    tmp, _, rfl, htmp, rfl⟩ := hassets
  obtain ⟨hR4, hR5, hR6, hR7⟩ := getRegister_of_registers hregisters
  obtain ⟨hlen, hnum, hstart, hdelta, hround, hprogram⟩ := self.conf.toNat_ofNat
  have hmsb : (BitVec.ofNat 64 self.conf.maxRoundingError).msb = false := by
    rw [BitVec.msb_eq_false_iff_two_mul_lt, hround]
    have := hread.maxRoundingError_lt
    omega
  have hepoch : ((self.epochIx.map fun ix => Constant.int (.ofNat 32 ix)).bind fun reg =>
      reg.extractInt.bind u32TryFromI32) = self.epochIx := by
    cases hix : self.epochIx with
    | none => rfl
    | some ix => exact u32TryFromI32_ofNat (hread.epochIx_lt ix hix)
  have hid : poolNft.tokenId = self.poolId.tokenId := congrArg Prod.fst hnft
  have hbudgetId : budgetRem.tokenId = self.conf.programBudget.tokenId :=
    (congrArg Prod.fst hbudget).trans hread.programBudget_id.symm
  unfold tryFromBox
  simp only [ErgoBoxCandidate.toBox, htokens, htree, if_true, hR4, hR5, hR6, hR7, hepoch,
    Constant.extractCollInt, Constant.extractLong, Option.bind_eq_bind, Option.bind_some, hmsb,
    Bool.false_eq_true, if_false, ProgramConfig.toVec, hlen, hnum, hstart, hdelta, hround,
    hprogram, hvalue]
  simp only [hid, hbudgetId, TypedAssetAmount.fromToken_eq hbudget,
    TypedAssetAmount.fromToken_eq hlq, TypedAssetAmount.fromToken_eq hvlq,
    TypedAssetAmount.fromToken_eq htmp]

/-- A bundle is read back under the id of its new box. -/
theorem StakingBundle.tryFromBox_of_contents {proto : StakingBundleProto} {c : ErgoBoxCandidate}
    (h : c.contents = proto.contents) (txId : TxId) (index : ℕ) :
    StakingBundle.tryFromBox (c.toBox txId index) =
      some (proto.finalize ⟨(c.toBox txId index).boxId⟩) := by
  obtain ⟨hvalue, htree, hassets, hregisters⟩ := BoxContents.mk.inj h
  obtain ⟨tokens, htokens, hassets⟩ := ErgoBoxCandidate.tokens_of_assets hassets (by simp)
  have hregister : ∀ r, c.getRegister r = proto.registers.toList[r.index]? := by
    intro r
    rw [ErgoBoxCandidate.getRegister, hregisters]
  have hR4 : c.getRegister .R4 = some (.collByte (asBytes proto.tokenName)) := hregister .R4
  have hR5 : c.getRegister .R5 = some (.collByte (asBytes proto.tokenDesc)) := hregister .R5
  have hR6 : c.getRegister .R6 = some (.sigmaProp proto.redeemerProp) := hregister .R6
  have hR7 : c.getRegister .R7 = some (.collByte proto.poolId.tokenId.bytes) := hregister .R7
  have hpoolId : Digest32.tryFrom proto.poolId.tokenId.bytes = some proto.poolId.tokenId :=
    dif_pos proto.poolId.tokenId.length_eq
  unfold tryFromBox
  cases htmp : proto.tmp with
  -- Two tokens: the code takes the second for the bundle key.
  | none =>
      simp only [htmp, Option.toList_none, List.map_nil, List.append_nil, List.singleton_append,
        List.map_eq_cons_iff, List.map_eq_nil_iff] at hassets
      obtain ⟨vlq, _, rfl, hvlq, bundleKey, _, rfl, hkey, rfl⟩ := hassets
      have hid : bundleKey.tokenId = proto.bundleKeyId.tokenId := congrArg Prod.fst hkey
      simp only [ErgoBoxCandidate.toBox, htokens, htree, if_true, hR4, hR5, hR6, hR7,
        Constant.extractBytes, Constant.extractDigest32, Constant.extractSigmaProp,
        Option.bind_eq_bind, Option.bind_some, hpoolId, fromUtf8_asBytes, hvalue,
        TypedAssetAmount.fromToken_eq hvlq, hid]
      rw [StakingBundleProto.finalize, htmp]
      rfl
  -- Three tokens: the second is the temporal token and the key comes last.
  | some tmp =>
      simp only [htmp, Option.toList_some, List.map_cons, List.map_nil, List.cons_append,
        List.nil_append, List.map_eq_cons_iff, List.map_eq_nil_iff] at hassets
      obtain ⟨vlq, _, rfl, hvlq, tmpToken, _, rfl, htmpToken, bundleKey, _, rfl, hkey, rfl⟩ :=
        hassets
      have hid : bundleKey.tokenId = proto.bundleKeyId.tokenId := congrArg Prod.fst hkey
      simp only [ErgoBoxCandidate.toBox, htokens, htree, if_true, hR4, hR5, hR6, hR7,
        Constant.extractBytes, Constant.extractDigest32, Constant.extractSigmaProp,
        Option.bind_eq_bind, Option.bind_some, hpoolId, fromUtf8_asBytes, hvalue,
        TypedAssetAmount.fromToken_eq hvlq, hid]
      rw [StakingBundleProto.finalize, htmp]
      simp only [Option.map_some, TypedAssetAmount.fromToken_eq htmpToken]

theorem DistributionFunding.tryFromBox_of_contents {proto : DistributionFundingProto}
    {c : ErgoBoxCandidate} {wallet : ExecutorWallet} (h : c.contents = proto.contents)
    (hprop : proto.prop = wallet.ergoTree) (txId : TxId) (index : ℕ) :
    DistributionFunding.tryFromBox (c.toBox txId index) wallet =
      some (proto.finalize ⟨(c.toBox txId index).boxId⟩) := by
  obtain ⟨hvalue, htree, -, -⟩ := BoxContents.mk.inj h
  have hscript : (c.toBox txId index).ergoTree = ErgoLib.script wallet.address :=
    htree.trans hprop
  unfold tryFromBox
  rw [if_pos hscript]
  simp only [ErgoBoxCandidate.toBox, htree, hvalue, DistributionFundingProto.finalize]

end ErgoLib

end SpectrumOffchain
