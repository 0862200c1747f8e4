import SpectrumOffchain.Ergo.Box

/-!
# Assets, amounts and identifiers

`domain.rs`, `ergo.rs`, `assets.rs` and the identifiers of `data.rs`.  An amount is
typed by the role its token plays, but the token id is data: adding or subtracting
two amounts of the same role keeps the id of the left operand and compares nothing.
-/

namespace SpectrumOffchain

/-- The role of a token. -/
inductive Asset where
  | lq | virtLq | tmp | bundleKey | poolNft | reward
  deriving DecidableEq, Repr

structure TypedAsset (T : Asset) where
  tokenId : TokenId
  deriving DecidableEq, Repr

structure TypedAssetAmount (T : Asset) where
  tokenId : TokenId
  amount : ℕ
  deriving DecidableEq, Repr

namespace TypedAssetAmount

variable {T : Asset} {ε : Type}

def toAsset (a : TypedAssetAmount T) : TypedAsset T := ⟨a.tokenId⟩

def fromToken (token : Token) : TypedAssetAmount T := ⟨token.tokenId, token.amount.toNat⟩

/-- The id and the amount, without the role. -/
def asset (a : TypedAssetAmount T) : TokenId × ℕ := (a.tokenId, a.amount)

@[simp] theorem asset_fromToken (token : Token) :
    (fromToken token : TypedAssetAmount T).asset = (token.tokenId, token.amount.toNat) := rfl

theorem fromToken_eq {token : Token} {a : TypedAssetAmount T}
    (h : (token.tokenId, token.amount.toNat) = a.asset) : fromToken token = a := by
  obtain ⟨id, n⟩ := a
  obtain ⟨hid, hn⟩ := Prod.mk.inj h
  rw [fromToken, hid, hn]

/-- `self + rhs`. -/
def add (self rhs : TypedAssetAmount T) : Outcome ε (TypedAssetAmount T) := do
  let amount ← Outcome.checkedAdd 64 self.amount rhs.amount
  pure ⟨self.tokenId, amount⟩

/-- `self - rhs`. -/
def sub (self rhs : TypedAssetAmount T) : Outcome ε (TypedAssetAmount T) := do
  let amount ← Outcome.checkedSub self.amount rhs.amount
  pure ⟨self.tokenId, amount⟩

/-- `Token::try_from(a)`. -/
def toToken (a : TypedAssetAmount T) : Option Token :=
  (TokenAmount.tryFrom a.amount).map fun amount => ⟨a.tokenId, amount⟩

theorem add_eq_ok {a b c : TypedAssetAmount T} :
    (add a b : Outcome ε _) = .ok c ↔
      a.amount + b.amount < 2 ^ 64 ∧ c = ⟨a.tokenId, a.amount + b.amount⟩ := by
  simp only [add, Outcome.bind_eq_ok, Outcome.checkedAdd_eq_ok, Outcome.pure_eq,
    Outcome.ok.injEq]
  constructor
  · rintro ⟨_, ⟨hfit, rfl⟩, rfl⟩
    exact ⟨hfit, rfl⟩
  · rintro ⟨hfit, rfl⟩
    exact ⟨_, ⟨hfit, rfl⟩, rfl⟩

theorem sub_eq_ok {a b c : TypedAssetAmount T} :
    (sub a b : Outcome ε _) = .ok c ↔
      b.amount ≤ a.amount ∧ c = ⟨a.tokenId, a.amount - b.amount⟩ := by
  simp only [sub, Outcome.bind_eq_ok, Outcome.checkedSub_eq_ok, Outcome.pure_eq,
    Outcome.ok.injEq]
  constructor
  · rintro ⟨_, ⟨hle, rfl⟩, rfl⟩
    exact ⟨hle, rfl⟩
  · rintro ⟨hle, rfl⟩
    exact ⟨_, ⟨hle, rfl⟩, rfl⟩

theorem add_ne_crash {a b : TypedAssetAmount T} :
    (add a b : Outcome ε _) ≠ .crash ↔ a.amount + b.amount < 2 ^ 64 := by
  simp [add, Outcome.bind_ne_crash, Outcome.checkedAdd_ne_crash]

theorem sub_ne_crash {a b : TypedAssetAmount T} :
    (sub a b : Outcome ε _) ≠ .crash ↔ b.amount ≤ a.amount := by
  simp [sub, Outcome.bind_ne_crash, Outcome.checkedSub_ne_crash]

theorem toToken_eq_some {a : TypedAssetAmount T} {token : Token} :
    a.toToken = some token ↔ fromToken token = a := by
  obtain ⟨id, n⟩ := a
  obtain ⟨id', n'⟩ := token
  simp only [toToken, Option.map_eq_some_iff, TokenAmount.tryFrom_eq_some, fromToken,
    Token.mk.injEq, mk.injEq]
  constructor
  · rintro ⟨amount, hn, rfl, rfl⟩
    exact ⟨rfl, hn⟩
  · rintro ⟨rfl, hn⟩
    exact ⟨n', hn, rfl, rfl⟩

theorem isSome_toToken {a : TypedAssetAmount T} :
    a.toToken.isSome ↔ 1 ≤ a.amount ∧ a.amount ≤ i64Max := by
  simp [toToken, TokenAmount.isSome_tryFrom]

end TypedAssetAmount

/-! ## ERG values -/

/-- `NanoErg::safe_sub`, a subtraction that saturates at zero. -/
def safeSub (self n : ℕ) : ℕ := self - n

/-- Max amount of tokens allowed in Ergo. -/
def maxValue : ℕ := 0x7fffffffffffffff

def unitValue : ℕ := 1

def minSafeBoxValue : ℕ := 250000

def minSafeFatBoxValue : ℕ := 522000

def defaultMinerFee : ℕ := 1000000

/-- This value empirically determined from live tests on-chain. -/
def defaultMinerFeeForCompoundTx : ℕ := 3000000

theorem maxValue_eq : maxValue = i64Max := by decide

/-! ## Identifiers -/

structure PoolId where
  tokenId : TokenId
  deriving DecidableEq, Repr

structure BundleId where
  tokenId : TokenId
  deriving DecidableEq, Repr

structure OrderId where
  digest : Digest32
  deriving DecidableEq, Repr

structure FundingId where
  boxId : BoxId
  deriving DecidableEq, Repr

structure BundleStateId where
  boxId : BoxId
  deriving DecidableEq, Repr

/-- Something that is represented as an `ErgoBox` on-chain. -/
structure AsBox (T : Type) where
  bx : ErgoBox
  value : T
  deriving DecidableEq, Repr

/-- A state that a transaction not yet on the ledger is going to create. -/
structure Predicted (T : Type) where
  value : T
  deriving DecidableEq, Repr

end SpectrumOffchain
