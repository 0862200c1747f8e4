import SpectrumOffchain.EventSink.Orders
import SpectrumOffchain.Execution.Prediction

/-!
# What the order parsers accept

The ledger handler parses every output as an order.  Which boxes are a deposit or a redeem is
said by their constants (`Deposit.Form`, `RedeemProto.Form`), all of which anyone can choose,
since a template leaves the segregated constants of a script open.

A deposit that pays its miner fee to another proposition is no deposit.  A redeem that does is no
redeem either, but the parser asserts the proposition and crashes on it (`tryFromBox_eq_crash_iff`),
unless it has given up on an earlier constant.

## Strategy

A parser reads one constant after the other and gives up at the first that is missing.  That
it succeeds is therefore the conjunction of what is read at each constant, and the lemmas
`isSome_scriptValue_bind`, `isSome_parsedValue_bind` and `isSome_checkedValue_bind` take off
one conjunct each, for a constant that is only read, one that is parsed further, and one
that is compared.

A redeem has an assertion in between.  `RedeemProto.Draft` is what is read before it, so
that the outcome is given by the draft and by the proposition: without a draft nothing is
returned, with one the box is a redeem, or no redeem, or the parser crashes
(`RedeemProto.Draft.tryFromBox`).  The templates of the two kinds of orders differ, so a box is
parsed as one of them at most.
-/

namespace SpectrumOffchain

/-- A value that is only looked at for whether it is there. -/
theorem isSome_bind_of_forall {α β : Type} {o : Option α} {f : α → Option β} {p : Prop}
    (h : ∀ a, (f a).isSome ↔ p) : (o.bind f).isSome ↔ o.isSome ∧ p := by
  cases o with
  | none => simp
  | some a => simp [h]

section Boxes

variable [ErgoLib] {bx : ErgoBox}

/-- The value of a constant of the script of a box. -/
def ErgoBox.scriptValue {α : Type} (bx : ErgoBox) (index : ℕ) (extract : Constant → Option α) :
    Option α :=
  (treeConstant bx.ergoTree index).bind extract

/-- The box has the given template and exactly one token. -/
structure ErgoBox.FromTemplate (bx : ErgoBox) (template : Bytes) : Prop where
  template : ErgoLib.templateBytes bx.ergoTree = some template
  token : bx.tokenList.length = 1

theorem ErgoBox.fromTemplate_iff {template : Bytes} :
    bx.FromTemplate template ↔ ∃ tokens token, bx.tokens = some tokens ∧
      ErgoLib.templateBytes bx.ergoTree = some template ∧ tokens.toList = [token] := by
  constructor
  · rintro ⟨htemplate, htoken⟩
    rw [ErgoBoxCandidate.tokenList] at htoken
    cases htokens : bx.tokens with
    | none => simp [htokens] at htoken
    | some tokens =>
        rw [htokens] at htoken
        obtain ⟨token, htoken⟩ := List.length_eq_one_iff.mp htoken
        exact ⟨tokens, token, rfl, htemplate, htoken⟩
  · rintro ⟨tokens, token, htokens, htemplate, htoken⟩
    refine ⟨htemplate, ?_⟩
    rw [ErgoBoxCandidate.tokenList, htokens, Option.map_some, Option.getD_some, htoken]
    rfl

/-- Without the template and the one token a parser does not look at the constants. -/
theorem ErgoBox.not_fromTemplate {template tree : Bytes} {tokens : BoxTokens}
    (h : ¬ bx.FromTemplate template) (htokens : bx.tokens = some tokens)
    (htree : ErgoLib.templateBytes bx.ergoTree = some tree) :
    ¬ (tree = template ∧ tokens.toList.length = 1) := by
  rintro ⟨rfl, hlength⟩
  obtain ⟨token, htoken⟩ := List.length_eq_one_iff.mp hlength
  exact h (fromTemplate_iff.mpr ⟨tokens, token, htokens, htree, htoken⟩)

theorem ErgoBox.scriptValue_bind {α β : Type} {index : ℕ} {extract : Constant → Option α}
    {f : α → Option β} :
    ((treeConstant bx.ergoTree index).bind fun c => (extract c).bind f) =
      (bx.scriptValue index extract).bind f :=
  (Option.bind_assoc _ _ _).symm

theorem ErgoBox.isSome_scriptValue_bind {α β : Type} {index : ℕ} {extract : Constant → Option α}
    {f : α → Option β} {p : Prop} (h : ∀ a, (f a).isSome ↔ p) :
    ((treeConstant bx.ergoTree index).bind fun c => (extract c).bind f).isSome ↔
      (bx.scriptValue index extract).isSome ∧ p := by
  rw [scriptValue_bind]
  exact isSome_bind_of_forall h

/-- A constant that is read through two further parsers, as the key of a redeemer is. -/
theorem ErgoBox.isSome_parsedValue_bind {α β γ δ : Type} {index : ℕ}
    {extract : Constant → Option α} {parse : α → Option β} {read : β → Option γ}
    {f : γ → Option δ} {p : Prop} (h : ∀ a, (f a).isSome ↔ p) :
    ((treeConstant bx.ergoTree index).bind fun c => (extract c).bind fun a =>
        (parse a).bind fun b => (read b).bind f).isSome ↔
      (((bx.scriptValue index extract).bind parse).bind read).isSome ∧ p := by
  rw [scriptValue_bind, ← Option.bind_assoc, ← Option.bind_assoc]
  exact isSome_bind_of_forall h

/-- A constant that has to have a given value. -/
theorem ErgoBox.isSome_checkedValue_bind {α β : Type} [DecidableEq α] {index : ℕ}
    {extract : Constant → Option α} {expected : α} {f : α → Option β}
    (h : ∀ a, (f a).isSome) :
    ((treeConstant bx.ergoTree index).bind fun c => (extract c).bind fun a =>
        if a = expected then f a else none).isSome ↔
      bx.scriptValue index extract = some expected := by
  rw [scriptValue_bind]
  cases bx.scriptValue index extract with
  | none => simp
  | some a => by_cases heq : a = expected <;> simp [heq, h]

end Boxes

/-- No box is both a deposit and a redeem. -/
theorem templates_ne : depositTemplate ≠ redeemTemplate := by
  have hhead : depositTemplate.head? ≠ redeemTemplate.head? := by decide +kernel
  exact fun h => hhead (congrArg List.head? h)

/-! ## Deposits -/

section Deposits

variable [ErgoLib] {bx : ErgoBox}

/-- The boxes that are deposits. -/
structure Deposit.Form (bx : ErgoBox) : Prop extends bx.FromTemplate depositTemplate where
  poolId : (bx.scriptValue 1 Constant.extractDigest32).isSome
  redeemer : (((bx.scriptValue 2 Constant.extractBytes).bind ErgoLib.sigmaParseBytes).bind
    ErgoLib.proveDlog).isSome
  bundlePropHash : (bx.scriptValue 12 Constant.extractDigest32).isSome
  maxMinerFee : (bx.scriptValue 23 Constant.extractLong).isSome
  expectedNumEpochs : (bx.scriptValue 16 Constant.extractInt).isSome
  minerProp : bx.scriptValue 20 Constant.extractBytes = some ErgoLib.minersFeeBytes

theorem Deposit.isSome_tryFromBox_iff : (Deposit.tryFromBox bx).isSome ↔ Deposit.Form bx := by
  by_cases hbase : bx.FromTemplate depositTemplate
  case neg =>
    refine iff_of_false ?_ fun h => hbase h.toFromTemplate
    unfold tryFromBox
    cases htokens : bx.tokens with
    | none => exact Bool.false_ne_true
    | some tokens =>
        cases htree : ErgoLib.templateBytes bx.ergoTree with
        | none => exact Bool.false_ne_true
        | some tree =>
            have hne := ErgoBox.not_fromTemplate hbase htokens htree
            rw [Option.bind_eq_bind, Option.bind_some, Option.bind_eq_bind, Option.bind_some,
              if_neg hne]
            exact Bool.false_ne_true
  case pos =>
    obtain ⟨tokens, token, htokens, htree, htoken⟩ := ErgoBox.fromTemplate_iff.mp hbase
    -- Past the template every check reads a constant of its own, so the checks are peeled in order.
    have hread : (Deposit.tryFromBox bx).isSome ↔
        (bx.scriptValue 1 Constant.extractDigest32).isSome ∧
        (((bx.scriptValue 2 Constant.extractBytes).bind ErgoLib.sigmaParseBytes).bind
          ErgoLib.proveDlog).isSome ∧
        (bx.scriptValue 12 Constant.extractDigest32).isSome ∧
        (bx.scriptValue 23 Constant.extractLong).isSome ∧
        (bx.scriptValue 16 Constant.extractInt).isSome ∧
        bx.scriptValue 20 Constant.extractBytes = some ErgoLib.minersFeeBytes := by
      unfold tryFromBox
      have hone : tokens.toList.length = 1 := by rw [htoken, List.length_singleton]
      rw [htokens, Option.bind_eq_bind, Option.bind_some, htree, Option.bind_eq_bind,
        Option.bind_some, if_pos ⟨rfl, hone⟩, htoken]
      refine ErgoBox.isSome_scriptValue_bind fun _ => ?_
      refine ErgoBox.isSome_parsedValue_bind fun _ => ?_
      refine ErgoBox.isSome_scriptValue_bind fun _ => ?_
      refine ErgoBox.isSome_scriptValue_bind fun _ => ?_
      refine ErgoBox.isSome_scriptValue_bind fun _ => ?_
      exact ErgoBox.isSome_checkedValue_bind fun _ => rfl
    rw [hread]
    constructor
    · rintro ⟨h1, h2, h12, h23, h16, h20⟩
      exact ⟨hbase, h1, h2, h12, h23, h16, h20⟩
    · rintro ⟨-, h1, h2, h12, h23, h16, h20⟩
      exact ⟨h1, h2, h12, h23, h16, h20⟩

end Deposits

/-! ## Redeems -/

section Redeems

variable [ErgoLib] {bx : ErgoBox} {ε : Type}

/-- What the parser of redeems reads before it gets to the miner fee. -/
structure RedeemProto.Draft (bx : ErgoBox) : Prop extends bx.FromTemplate redeemTemplate where
  redeemer : ((bx.scriptValue 9 Constant.extractBytes).bind ErgoLib.sigmaParseBytes).isSome
  expectedLqId : (bx.scriptValue 10 Constant.extractDigest32).isSome
  expectedLqAmt : (bx.scriptValue 11 Constant.extractLong).isSome

/-- The boxes that are redeems. -/
structure RedeemProto.Form (bx : ErgoBox) : Prop extends RedeemProto.Draft bx where
  minerProp : bx.scriptValue 5 Constant.extractBytes = some ErgoLib.minersFeeBytes
  maxMinerFee : (bx.scriptValue 8 Constant.extractLong).isSome

/-- The boxes that would be redeems if they paid the miner fee to the miners. -/
structure RedeemProto.PaysOther (bx : ErgoBox) : Prop extends RedeemProto.Draft bx where
  minerProp : ∃ bytes, bx.scriptValue 5 Constant.extractBytes = some bytes ∧
    bytes ≠ ErgoLib.minersFeeBytes

theorem RedeemProto.tryFromBox_eq {tokens : BoxTokens} {token : Token}
    (htokens : bx.tokens = some tokens)
    (htree : ErgoLib.templateBytes bx.ergoTree = some redeemTemplate)
    (htoken : tokens.toList = [token]) :
    (RedeemProto.tryFromBox bx : Outcome ε _) =
      match (bx.scriptValue 9 Constant.extractBytes).bind ErgoLib.sigmaParseBytes,
        bx.scriptValue 10 Constant.extractDigest32, bx.scriptValue 11 Constant.extractLong,
        bx.scriptValue 5 Constant.extractBytes with
      | some redeemerProp, some expectedLqId, some expectedLqAmt, some minerPropBytes =>
        if minerPropBytes ≠ ErgoLib.minersFeeBytes then .crash
        else .ok ((bx.scriptValue 8 Constant.extractLong).map fun maxMinerFee =>
          { orderId := ⟨bx.boxId⟩
            redeemerProp
            bundleKey := .fromToken token
            expectedLq := ⟨expectedLqId, expectedLqAmt.toNat⟩
            maxMinerFee
            ergValue := bx.value.toNat })
      | _, _, _, _ => .ok none := by
  unfold tryFromBox
  simp only [htokens, htree, htoken, List.length_singleton, and_self, if_true]
  simp only [Option.bind_eq_bind, ← Option.bind_assoc, ErgoBox.scriptValue]
  cases ((treeConstant bx.ergoTree 9).bind Constant.extractBytes).bind ErgoLib.sigmaParseBytes with
  | none => rfl
  | some redeemerProp =>
      cases (treeConstant bx.ergoTree 10).bind Constant.extractDigest32 with
      | none => rfl
      | some expectedLqId =>
          cases (treeConstant bx.ergoTree 11).bind Constant.extractLong with
          | none => rfl
          | some expectedLqAmt =>
              cases (treeConstant bx.ergoTree 5).bind Constant.extractBytes with
              | none => rfl
              | some minerPropBytes =>
                  cases (treeConstant bx.ergoTree 8).bind Constant.extractLong <;> rfl

theorem RedeemProto.tryFromBox_of_not_draft (h : ¬ RedeemProto.Draft bx) :
    (RedeemProto.tryFromBox bx : Outcome ε _) = .ok none := by
  by_cases hbase : bx.FromTemplate redeemTemplate
  case neg =>
    unfold tryFromBox
    cases htokens : bx.tokens with
    | none => rfl
    | some tokens =>
        cases htree : ErgoLib.templateBytes bx.ergoTree with
        | none => rfl
        | some tree => exact if_neg (ErgoBox.not_fromTemplate hbase htokens htree)
  case pos =>
    obtain ⟨tokens, token, htokens, htree, htoken⟩ := ErgoBox.fromTemplate_iff.mp hbase
    rw [tryFromBox_eq htokens htree htoken]
    split
    case h_2 => rfl
    case h_1 h9 h10 h11 _ =>
      refine absurd ⟨hbase, ?_, ?_, ?_⟩ h
      · rw [h9, Option.isSome_some]
      · rw [h10, Option.isSome_some]
      · rw [h11, Option.isSome_some]

/-- From the miner fee on only two constants are looked at. -/
theorem RedeemProto.Draft.tryFromBox (h : RedeemProto.Draft bx) : ∃ found : Option RedeemProto,
    (found.isSome ↔ (bx.scriptValue 8 Constant.extractLong).isSome) ∧
      (RedeemProto.tryFromBox bx : Outcome ε _) =
        match bx.scriptValue 5 Constant.extractBytes with
        | some bytes => if bytes ≠ ErgoLib.minersFeeBytes then .crash else .ok found
        | none => .ok none := by
  obtain ⟨tokens, token, htokens, htree, htoken⟩ := ErgoBox.fromTemplate_iff.mp h.toFromTemplate
  obtain ⟨redeemerProp, h9⟩ := Option.isSome_iff_exists.mp h.redeemer
  obtain ⟨expectedLqId, h10⟩ := Option.isSome_iff_exists.mp h.expectedLqId
  obtain ⟨expectedLqAmt, h11⟩ := Option.isSome_iff_exists.mp h.expectedLqAmt
  rw [tryFromBox_eq htokens htree htoken, h9, h10, h11]
  refine ⟨(bx.scriptValue 8 Constant.extractLong).map fun maxMinerFee =>
    { orderId := ⟨bx.boxId⟩
      redeemerProp
      bundleKey := .fromToken token
      expectedLq := ⟨expectedLqId, expectedLqAmt.toNat⟩
      maxMinerFee
      ergValue := bx.value.toNat }, by rw [Option.isSome_map], ?_⟩
  cases bx.scriptValue 5 Constant.extractBytes <;> rfl

/-- The parser crashes on the miner fee of a redeem, and nowhere else. -/
theorem RedeemProto.tryFromBox_eq_crash_iff :
    (RedeemProto.tryFromBox bx : Outcome ε _) = .crash ↔ RedeemProto.PaysOther bx := by
  by_cases hdraft : RedeemProto.Draft bx
  case neg =>
    rw [tryFromBox_of_not_draft hdraft]
    exact iff_of_false (by simp) fun h => hdraft h.toDraft
  case pos =>
    obtain ⟨found, -, hfound⟩ := hdraft.tryFromBox (ε := ε)
    rw [hfound]
    constructor
    · intro h
      split at h
      case h_2 => cases h
      case h_1 bytes hbytes =>
        split at h
        case isTrue hne => exact ⟨hdraft, bytes, hbytes, hne⟩
        case isFalse => cases h
    · rintro ⟨-, bytes, hbytes, hne⟩
      rw [hbytes]
      exact if_pos hne

/-- What the parser returns is a redeem exactly for the boxes that are one. -/
theorem RedeemProto.isSome_tryFromBox_iff {found : Option RedeemProto}
    (h : (RedeemProto.tryFromBox bx : Outcome ε _) = .ok found) :
    found.isSome ↔ RedeemProto.Form bx := by
  by_cases hdraft : RedeemProto.Draft bx
  case neg =>
    rw [tryFromBox_of_not_draft hdraft] at h
    cases h
    exact iff_of_false Bool.false_ne_true fun h => hdraft h.toDraft
  case pos =>
    obtain ⟨found', hsome, hfound⟩ := hdraft.tryFromBox (ε := ε)
    rw [hfound] at h
    split at h
    case h_2 hnone =>
      cases h
      refine iff_of_false Bool.false_ne_true fun hform => ?_
      rw [hform.minerProp] at hnone
      cases hnone
    case h_1 bytes hbytes =>
      split at h
      case isTrue => cases h
      case isFalse heq =>
        cases h
        rw [not_not] at heq
        subst heq
        exact hsome.trans ⟨fun hfee => ⟨hdraft, hbytes, hfee⟩, fun hform => hform.maxMinerFee⟩

end Redeems

/-! ## Orders -/

section Orders

variable [ErgoLib] {bx : ErgoBox}

/-- The parser returns, and what it returns is an order exactly if the box is one. -/
def OrderProto.Parsed (bx : ErgoBox) : Prop :=
  ∃ found, OrderProto.tryFromBox bx = .ok found ∧
    (found.isSome ↔ Deposit.Form bx ∨ RedeemProto.Form bx)

/-- A box that is a deposit is not looked at as a redeem. -/
theorem Deposit.Form.not_draft (h : Deposit.Form bx) : ¬ RedeemProto.Draft bx := fun hredeem =>
  templates_ne (Option.some.inj (h.template.symm.trans hredeem.template))

theorem OrderProto.tryFromBox_of_paysOther (h : RedeemProto.PaysOther bx) :
    OrderProto.tryFromBox bx = .crash := by
  unfold tryFromBox
  split
  case h_1 d hd =>
    have hform : Deposit.Form bx := Deposit.isSome_tryFromBox_iff.mp (hd ▸ rfl)
    exact absurd h.toDraft hform.not_draft
  case h_2 =>
    rw [RedeemProto.tryFromBox_eq_crash_iff.mpr h]
    rfl

/-- The parser decides every box but the redeems that do not pay the miners. -/
theorem OrderProto.parsed_iff (bx : ErgoBox) :
    OrderProto.Parsed bx ↔ ¬ RedeemProto.PaysOther bx := by
  constructor
  · rintro ⟨found, hfound, -⟩ hother
    rw [tryFromBox_of_paysOther hother] at hfound
    cases hfound
  · intro hother
    unfold Parsed tryFromBox
    split
    case h_1 d hd =>
      have hform : Deposit.Form bx := Deposit.isSome_tryFromBox_iff.mp (hd ▸ rfl)
      exact ⟨_, rfl, iff_of_true rfl (Or.inl hform)⟩
    case h_2 hnone =>
      have hdeposit : ¬ Deposit.Form bx := by
        rw [← Deposit.isSome_tryFromBox_iff, hnone]
        exact Bool.false_ne_true
      cases hredeem : (RedeemProto.tryFromBox bx : Outcome Unit _) with
      | ok found =>
          refine ⟨_, rfl, ?_⟩
          rw [Option.isSome_map, RedeemProto.isSome_tryFromBox_iff hredeem]
          exact (or_iff_right hdeposit).symm
      | err e => exact absurd hredeem (OrderProto.unfailing_redeem bx e)
      | crash => exact absurd (RedeemProto.tryFromBox_eq_crash_iff.mp hredeem) hother

end Orders

/-! ## A redeem that pays someone else -/

namespace Sample

open Staking.Sample

def redeemTree : ErgoTree := ⟨[3]⟩

/-- The constants in the tree of a redeem with a miner fee for the proposition `1`. -/
def redeemConstants : ℕ → Option Constant
  | 5 => some (.collByte [1])
  | 8 => some (.long 0)
  | 9 => some (.collByte [])
  | 10 => some (.collByte (digest 2).bytes)
  | 11 => some (.long 100)
  | _ => none

/-- A library that knows one redeem. -/
abbrev redeemLib : ErgoLib :=
  { ergoLib with
    templateBytes tree := if tree = redeemTree then some redeemTemplate else none
    getConstant tree index := if tree = redeemTree then some (redeemConstants index) else none }

def redeemBox : ErgoBox := box orderValue redeemTree (some (.one bundleKey)) .empty 22

end Sample

open Sample in
/-- The parser of redeems asserts what that of deposits checks. -/
theorem redeem_to_other_crashes : ¬ @OrderProto.Parsed redeemLib redeemBox := by
  let := redeemLib
  have hother : RedeemProto.PaysOther redeemBox :=
    { template := if_pos rfl
      token := rfl
      redeemer := rfl
      expectedLqId := rfl
      expectedLqAmt := rfl
      minerProp := ⟨[1], rfl, by decide⟩ }
  rintro ⟨found, hfound, -⟩
  rw [OrderProto.tryFromBox_of_paysOther hother] at hfound
  cases hfound

end SpectrumOffchain
