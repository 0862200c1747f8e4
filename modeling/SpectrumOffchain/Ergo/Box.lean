import Mathlib.Data.List.Basic
import SpectrumOffchain.Lib.Outcome

/-!
# Boxes and transactions of ergo-lib

The types of the Ergo library that the bot reads and builds.  Trees, propositions
and addresses are represented by their serialised bytes; what the library computes
from them is a parameter of the model, `ErgoLib`.  Token amounts, box values and
bounded vectors carry their bounds, as they do in the library, so a value of
one of these types is always one that the library would have let through.

## What is a parameter

`ErgoLib` has the functions of the library whose result the bot uses but does not look into:
the ids of transactions and boxes, the template of a script and its constants, the script of
an address or a key, and parsers of propositions.  The laws that a result needs of them are
hypotheses where it is stated.  The arithmetic of amounts and the bounds of vectors are not
parameters, since the bot depends on where they fail.
-/

namespace SpectrumOffchain

abbrev Bytes := List UInt8

/-- `i32`, as the bits it is stored in. -/
abbrev I32 := BitVec 32

/-- `i64`, as the bits it is stored in. -/
abbrev I64 := BitVec 64

/-- `i64::MAX`. -/
def i64Max : ℕ := 2 ^ 63 - 1

/-- A 32 byte hash. -/
structure Digest32 where
  bytes : Bytes
  length_eq : bytes.length = 32
  deriving DecidableEq, Repr

/-- `Digest32::try_from`. -/
def Digest32.tryFrom (bytes : Bytes) : Option Digest32 :=
  if h : bytes.length = 32 then some ⟨bytes, h⟩ else none

abbrev TokenId := Digest32

abbrev BoxId := Digest32

abbrev TxId := Digest32

structure ErgoTree where
  bytes : Bytes
  deriving DecidableEq, Repr

structure SigmaProp where
  bytes : Bytes
  deriving DecidableEq, Repr

structure Address where
  bytes : Bytes
  deriving DecidableEq, Repr

/-! ## Amounts -/

/-- The amount of a token in a box. -/
structure TokenAmount where
  toNat : ℕ
  pos : 1 ≤ toNat
  le_max : toNat ≤ i64Max
  deriving DecidableEq, Repr

/-- `TokenAmount::try_from(u64)`. -/
def TokenAmount.tryFrom (n : ℕ) : Option TokenAmount :=
  if h : 1 ≤ n ∧ n ≤ i64Max then some ⟨n, h.1, h.2⟩ else none

/-- The value of a box in nanoERG. -/
structure BoxValue where
  toNat : ℕ
  pos : 1 ≤ toNat
  le_max : toNat ≤ i64Max
  deriving DecidableEq, Repr

/-- `BoxValue::new`. -/
def BoxValue.new (n : ℕ) : Option BoxValue :=
  if h : 1 ≤ n ∧ n ≤ i64Max then some ⟨n, h.1, h.2⟩ else none

/-- `BoxValue::SAFE_USER_MIN`. -/
def BoxValue.safeUserMin : BoxValue := ⟨1000000, by decide, by decide⟩

theorem TokenAmount.tryFrom_toNat (a : TokenAmount) : TokenAmount.tryFrom a.toNat = some a :=
  dif_pos ⟨a.pos, a.le_max⟩

theorem TokenAmount.tryFrom_eq_some {n : ℕ} {a : TokenAmount} :
    TokenAmount.tryFrom n = some a ↔ a.toNat = n := by
  constructor
  · intro h
    unfold TokenAmount.tryFrom at h
    split at h <;> cases h
    rfl
  · rintro rfl
    exact a.tryFrom_toNat

theorem TokenAmount.isSome_tryFrom {n : ℕ} :
    (TokenAmount.tryFrom n).isSome ↔ 1 ≤ n ∧ n ≤ i64Max := by
  unfold TokenAmount.tryFrom
  split <;> simp_all

theorem BoxValue.new_toNat (v : BoxValue) : BoxValue.new v.toNat = some v :=
  dif_pos ⟨v.pos, v.le_max⟩

theorem BoxValue.new_eq_some {n : ℕ} {v : BoxValue} : BoxValue.new n = some v ↔ v.toNat = n := by
  constructor
  · intro h
    unfold BoxValue.new at h
    split at h <;> cases h
    rfl
  · rintro rfl
    exact v.new_toNat

theorem BoxValue.isSome_new {n : ℕ} : (BoxValue.new n).isSome ↔ 1 ≤ n ∧ n ≤ i64Max := by
  unfold BoxValue.new
  split <;> simp_all

structure Token where
  tokenId : TokenId
  amount : TokenAmount
  deriving DecidableEq, Repr

/-! ## Bounded vectors -/

/-- `BoundedVec<T, L, U>`. -/
structure BoundedVec (α : Type) (lo hi : ℕ) where
  toList : List α
  lo_le : lo ≤ toList.length
  le_hi : toList.length ≤ hi
  deriving DecidableEq, Repr

/-- `BoundedVec::from_vec`. -/
def BoundedVec.fromVec {α : Type} {lo hi : ℕ} (xs : List α) : Option (BoundedVec α lo hi) :=
  if h : lo ≤ xs.length ∧ xs.length ≤ hi then some ⟨xs, h.1, h.2⟩ else none

theorem BoundedVec.fromVec_eq_some {α : Type} {lo hi : ℕ} {xs : List α}
    {v : BoundedVec α lo hi} : BoundedVec.fromVec xs = some v ↔ v.toList = xs := by
  constructor
  · intro h
    unfold BoundedVec.fromVec at h
    split at h <;> cases h
    rfl
  · rintro rfl
    exact dif_pos ⟨v.lo_le, v.le_hi⟩

theorem BoundedVec.isSome_fromVec {α : Type} {lo hi : ℕ} {xs : List α} :
    (BoundedVec.fromVec xs : Option (BoundedVec α lo hi)).isSome ↔
      lo ≤ xs.length ∧ xs.length ≤ hi := by
  unfold BoundedVec.fromVec
  split <;> simp_all

/-- The tokens of a box. -/
abbrev BoxTokens := BoundedVec Token 1 255

/-- The inputs or outputs of a transaction. -/
abbrev TxIoVec (α : Type) := BoundedVec α 1 32767

/-! ## Registers -/

/-- A constant, with the literals the bot builds or extracts and all others. -/
inductive Constant where
  | int (value : I32)
  | long (value : I64)
  | collInt (values : List I32)
  | collByte (bytes : Bytes)
  | sigmaProp (prop : SigmaProp)
  | other (tag : ℕ)
  deriving DecidableEq, Repr

namespace Constant

/-! `try_extract_into`, for each type it is used at. -/

def extractInt : Constant → Option I32
  | int value => some value
  | _ => none

def extractLong : Constant → Option I64
  | long value => some value
  | _ => none

def extractCollInt : Constant → Option (List I32)
  | collInt values => some values
  | _ => none

def extractBytes : Constant → Option Bytes
  | collByte bytes => some bytes
  | _ => none

def extractDigest32 (c : Constant) : Option Digest32 := c.extractBytes.bind Digest32.tryFrom

def extractSigmaProp : Constant → Option SigmaProp
  | sigmaProp prop => some prop
  | _ => none

end Constant

inductive NonMandatoryRegisterId where
  | R4 | R5 | R6 | R7 | R8 | R9
  deriving DecidableEq, Repr

/-- The position of a register among the non-mandatory ones. -/
def NonMandatoryRegisterId.index : NonMandatoryRegisterId → ℕ
  | R4 => 0 | R5 => 1 | R6 => 2 | R7 => 3 | R8 => 4 | R9 => 5

/-- The registers R4 to R9 of a box, filled from R4 on without gaps. -/
abbrev NonMandatoryRegisters := BoundedVec Constant 0 6

/-- `NonMandatoryRegisters::empty`. -/
def NonMandatoryRegisters.empty : NonMandatoryRegisters := ⟨[], by simp, by simp⟩

/-! ## Boxes and transactions -/

/-- A box that a transaction is going to create. -/
structure ErgoBoxCandidate where
  value : BoxValue
  ergoTree : ErgoTree
  tokens : Option BoxTokens
  additionalRegisters : NonMandatoryRegisters
  creationHeight : ℕ
  deriving DecidableEq, Repr

/-- A box of a transaction. -/
structure ErgoBox extends ErgoBoxCandidate where
  transactionId : TxId
  index : ℕ
  boxId : BoxId
  deriving DecidableEq, Repr

/-- `bx.get_register`. -/
def ErgoBoxCandidate.getRegister (bx : ErgoBoxCandidate) (r : NonMandatoryRegisterId) :
    Option Constant :=
  bx.additionalRegisters.toList[r.index]?

/-- The tokens of a box, none counting as an empty list. -/
def ErgoBoxCandidate.tokenList (c : ErgoBoxCandidate) : List Token :=
  (c.tokens.map BoundedVec.toList).getD []

/-- The ids and amounts of the tokens of a box. -/
def ErgoBoxCandidate.assets (c : ErgoBoxCandidate) : List (TokenId × ℕ) :=
  c.tokenList.map fun token => (token.tokenId, token.amount.toNat)

theorem ErgoBoxCandidate.tokens_of_assets {c : ErgoBoxCandidate} {assets : List (TokenId × ℕ)}
    (h : c.assets = assets) (hne : assets ≠ []) :
    ∃ tokens, c.tokens.map BoundedVec.toList = some tokens ∧
      tokens.map (fun token => (token.tokenId, token.amount.toNat)) = assets := by
  rw [ErgoBoxCandidate.assets, tokenList] at h
  cases htokens : c.tokens with
  | none =>
      rw [htokens] at h
      exact absurd h.symm hne
  | some v =>
      rw [htokens] at h
      exact ⟨v.toList, rfl, h⟩

/-- The context variables of an input. -/
structure ContextExtension where
  values : List (ℕ × Constant)
  deriving DecidableEq, Repr

/-- `ContextExtension::empty`. -/
def ContextExtension.empty : ContextExtension := ⟨[]⟩

/-- An unsigned transaction.  The bot never sets `data_inputs`. -/
structure TransactionCandidate where
  inputs : TxIoVec (ErgoBox × ContextExtension)
  outputCandidates : TxIoVec ErgoBoxCandidate
  deriving DecidableEq, Repr

/-- What the model takes from ergo-lib without looking inside. -/
class ErgoLib where
  /-- `ErgoTree::template_bytes`. -/
  templateBytes : ErgoTree → Option Bytes
  /-- `ErgoTree::get_constant`. -/
  getConstant : ErgoTree → ℕ → Option (Option Constant)
  /-- `ErgoTree::sigma_parse_bytes`. -/
  sigmaParseBytes : Bytes → Option ErgoTree
  /-- `SigmaProp::from(ProveDlog::try_from(tree)?)`. -/
  proveDlog : ErgoTree → Option SigmaProp
  /-- `ErgoTree::new(DEFAULT_P2PK_HEADER, &prop.into()).unwrap()`. -/
  p2pkTree : SigmaProp → ErgoTree
  /-- `MINERS_FEE_ADDRESS.script().unwrap()`. -/
  minersFeeTree : ErgoTree
  /-- `base16::decode(MINERS_FEE_BASE16_BYTES).unwrap()`. -/
  minersFeeBytes : Bytes
  /-- `addr.script().unwrap()`. -/
  script : Address → ErgoTree
  /-- The id of a transaction, a hash of it without its proofs. -/
  txId : TransactionCandidate → TxId
  /-- The id of a box, a hash of it. -/
  boxId : ErgoBoxCandidate → TxId → ℕ → BoxId

variable [ErgoLib]

/-- The box that output `index` of a transaction becomes. -/
def ErgoBoxCandidate.toBox (c : ErgoBoxCandidate) (txId : TxId) (index : ℕ) : ErgoBox :=
  { c with transactionId := txId, index := index, boxId := ErgoLib.boxId c txId index }

/-- The outputs of `tx.into_tx_without_proofs()`. -/
def TransactionCandidate.outputs (tx : TransactionCandidate) : List ErgoBox :=
  tx.outputCandidates.toList.mapIdx fun index c => c.toBox (ErgoLib.txId tx) index

theorem TransactionCandidate.getElem?_outputs (tx : TransactionCandidate) (index : ℕ) :
    tx.outputs[index]? =
      tx.outputCandidates.toList[index]?.map fun c => c.toBox (ErgoLib.txId tx) index :=
  List.getElem?_mapIdx

end SpectrumOffchain
