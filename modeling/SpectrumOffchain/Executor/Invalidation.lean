import SpectrumOffchain.Data.Order
import SpectrumOffchain.Lib.Text

/-!
# Rejected transactions

What the executor makes of the error of a submission: `parse_err` reads the text of the
node, and `generate_invalidations` says which inputs of the transaction are to be forgotten
if some of them were missing.  The text is read as characters; `s[..s.len() - 1]` cuts off
a byte and crashes if that is not a character.
-/

namespace SpectrumOffchain

/-! ## The error of the node -/

/-- `s.parse::<i32>()`. -/
def parseI32 (s : List Char) : Option I32 :=
  match s with
  | '-' :: digits => (parseDigits digits).bind fun n =>
      if n ≤ 2 ^ 31 then some (.ofInt 32 (-n)) else none
  | '+' :: digits => (parseDigits digits).bind fun n =>
      if n < 2 ^ 31 then some (.ofNat 32 n) else none
  | digits => (parseDigits digits).bind fun n =>
      if n < 2 ^ 31 then some (.ofNat 32 n) else none

inductive NodeSubmitTxError where
  | missingInputs (missingIndices : List I32)
  | doubleSpend
  | unhandled
  | scriptsOfInputsDontPassVerification
  deriving DecidableEq, Repr

def parseErr {ε : Type} (err : String) : Outcome ε NodeSubmitTxError :=
  let text := err.toList
  let errorDescription := "Missing inputs: ".toList
  if containsText errorDescription text then do
    let s ← .unwrap (splitText errorDescription 0 text).getLast?
    let indices ← dropLastByte s
    let missingIndices ← (splitText [','] 0 indices).mapM fun s => .unwrap (parseI32 (trim s))
    pure (.missingInputs missingIndices)
  else if containsText "Double spending attempt".toList text then
    pure .doubleSpend
  else if containsText "Scripts of all transaction inputs should pass verification".toList text then
    pure .scriptsOfInputsDontPassVerification
  else pure .unhandled

/-! ## Invalidations -/

inductive OrderType where
  | deposit
  /-- With the funding boxes used as inputs for the compounding transaction. -/
  | compound (inputFundingBoxIds : NonEmpty BoxId)
  | redeem
  deriving DecidableEq, Repr

inductive Invalidation where
  | pool
  | stakingBundles (bundlesIx : List ℕ)
  | order
  /-- With the indices of the funding boxes that are missing. -/
  | funding (missingFundingIxs : List ℕ)
  deriving DecidableEq, Repr

/-- `ix as usize`. -/
def asUsize (ix : I32) : ℕ := (ix.signExtend 64).toNat

def generateInvalidations (orderType : OrderType) (missingIndices : List I32) :
    List Invalidation :=
  -- For all orders, inputs[0] is the pool box.
  (if 0 ∈ missingIndices then [.pool] else []) ++
    match orderType with
    | .deposit => if 1 ∈ missingIndices then [.order] else []
    | .compound inputFundingBoxIds =>
        let numFunding := inputFundingBoxIds.toList.length
        let missingFundingIxs := ((List.range numFunding).map (· + 1)).filter
          fun ix => BitVec.ofNat 32 ix ∈ missingIndices
        let bundlesToInvalidate := (missingIndices.map asUsize).filter (numFunding < ·)
        .funding missingFundingIxs ::
          if bundlesToInvalidate.isEmpty then [] else [.stakingBundles bundlesToInvalidate]
    | .redeem =>
        (if 1 ∈ missingIndices then [.stakingBundles [1]] else []) ++
          if 2 ∈ missingIndices then [.order] else []

example : (parseErr "Missing inputs: 3, 4, 6]" : Outcome Empty _) =
    .ok (.missingInputs [3, 4, 6]) := by
  decide

end SpectrumOffchain
