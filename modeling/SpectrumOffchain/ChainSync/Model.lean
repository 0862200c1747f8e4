import Mathlib.Data.Int.Order.Basic
import SpectrumOffchain.Ergo.Box
import SpectrumOffchain.Lib.Stack

/-!
# Following the chain of a node

`ChainSync` asks a node for one block after the other.  A block whose parent is in
the cache is appended to it and rolled forward; when the parent is unknown the node
has left the cached branch, so the best block is taken off the cache and rolled back.
The consumers downstream see only the stream of these upgrades.

The cache is a type class with two instances, `InMemoryCache` and `ChainCacheRocksDB`.
Its operations and those of the synchroniser either return or panic; none of them has
an error to hand back.  Transactions are a type parameter `Tx`: nothing here looks
inside one.
-/

namespace SpectrumOffchain

abbrev BlockId := Digest32

/-! ## Blocks -/

/-- `Header` of `ergo_chain_types`, with the fields that are read. -/
structure Header where
  id : BlockId
  parentId : BlockId
  height : ℕ
  timestamp : ℕ
  deriving DecidableEq, Repr

/-- A block as the node answers it. -/
structure FullBlock (Tx : Type) where
  header : Header
  transactions : List Tx
  deriving DecidableEq, Repr

structure Block (Tx : Type) where
  id : BlockId
  parentId : BlockId
  height : ℕ
  timestamp : ℕ
  transactions : List Tx
  deriving DecidableEq, Repr

@[ext] structure BlockRecord where
  id : BlockId
  height : ℕ
  deriving DecidableEq, Repr

variable {Tx : Type}

/-- `Block::from(FullBlock)`. -/
def FullBlock.toBlock (fb : FullBlock Tx) : Block Tx where
  id := fb.header.id
  parentId := fb.header.parentId
  height := fb.header.height
  timestamp := fb.header.timestamp
  transactions := fb.transactions

def Block.record (b : Block Tx) : BlockRecord := ⟨b.id, b.height⟩

/-- `client::node::Error`. -/
inductive NodeError where
  | json
  | isahc
  | unsuccessfulRequest
  | noBlock
  deriving DecidableEq, Repr

/-! ## The cache -/

/-- `trait ChainCache`. -/
class ChainCache (Cache : Type) (Tx : outParam Type) where
  appendBlock : Cache → Block Tx → Outcome Empty Cache
  blockExists : Cache → BlockId → Bool
  getBestBlock : Cache → Option BlockRecord
  takeBestBlock : Cache → Outcome Empty (Option (Block Tx) × Cache)

/-! ## The synchroniser -/

inductive ChainUpgrade (Tx : Type) where
  | rollForward (block : Block Tx)
  | rollBackward (block : Block Tx)
  deriving DecidableEq, Repr

/-- The upgrade as an operation on the stack of applied blocks. -/
def ChainUpgrade.stackOp : ChainUpgrade Tx → StackOp (Block Tx)
  | rollForward block => .push block
  | rollBackward block => .pop block

/-- `ChainSync` with its `SyncState`. -/
structure ChainSync (Cache : Type) where
  startingHeight : ℕ
  cache : Cache
  nextHeight : ℕ
  deriving Repr

namespace ChainSync

variable {Cache : Type} [ChainCache Cache Tx]

/-- `ChainSync::init`. -/
def init (startingHeight : ℕ) (cache : Cache) : ChainSync Cache :=
  let startAt :=
    match ChainCache.getBestBlock cache with
    | some bestBlock => max bestBlock.height startingHeight
    | none => startingHeight
  { startingHeight, cache, nextHeight := startAt }

/-- `ChainSync::try_upgrade`, given what the node answers for `next_height`. -/
def tryUpgrade (sync : ChainSync Cache) (answer : Except NodeError (FullBlock Tx)) :
    Outcome Empty (Option (ChainUpgrade Tx) × ChainSync Cache) :=
  match answer with
  | .ok apiBlk =>
      let linked := ChainCache.blockExists sync.cache apiBlk.header.parentId
      if linked ∨ apiBlk.header.height = sync.startingHeight then do
        let blk := apiBlk.toBlock
        let cache ← ChainCache.appendBlock sync.cache blk
        let nextHeight ← Outcome.checkedAdd 32 sync.nextHeight 1
        pure (some (.rollForward blk), { sync with cache, nextHeight })
      else do
        -- Local chain does not link anymore
        let (discarded, cache) ← ChainCache.takeBestBlock sync.cache
        match discarded with
        | some blk =>
            let nextHeight ← Outcome.checkedSub sync.nextHeight 1
            pure (some (.rollBackward blk), { sync with cache, nextHeight })
        | none => pure (none, { sync with cache })
  | .error _ => pure (none, sync)

end ChainSync

/-! ## Ledger events -/

/-- `LedgerTxEvent`. -/
inductive LedgerTxEvent (Tx : Type) where
  | appliedTx (tx : Tx) (timestamp : I64)
  | unappliedTx (tx : Tx)
  deriving DecidableEq, Repr

/-- `process_upgrade` of the ledger event source. -/
def processUpgrade : ChainUpgrade Tx → List (LedgerTxEvent Tx)
  | .rollForward blk => blk.transactions.map fun tx =>
      .appliedTx tx (BitVec.ofNat 64 blk.timestamp)
  -- we unapply txs in reverse order.
  | .rollBackward blk => blk.transactions.reverse.map .unappliedTx

/-- The event as an operation on the stack of applied transactions. -/
def LedgerTxEvent.stackOp : LedgerTxEvent Tx → StackOp Tx
  | appliedTx tx _ => .push tx
  | unappliedTx tx => .pop tx

/-! ## What the node serves -/

/-- The block tree of the network: a block id is the hash of a header, which fixes the
parent and the height. -/
structure BlockTree where
  parent : BlockId → BlockId
  height : BlockId → ℤ

namespace BlockTree

/-- The block is the one that the tree has under its id. -/
def HasBlock (tree : BlockTree) (b : Block Tx) : Prop :=
  b.parentId = tree.parent b.id ∧ (b.height : ℤ) = tree.height b.id

/-- The block is in the tree, one above its parent. -/
def HasChild (tree : BlockTree) (b : Block Tx) : Prop :=
  tree.HasBlock b ∧ tree.height b.parentId + 1 = b.height

instance (tree : BlockTree) (b : Block Tx) : Decidable (tree.HasBlock b) :=
  inferInstanceAs (Decidable (_ ∧ _))

instance (tree : BlockTree) (b : Block Tx) : Decidable (tree.HasChild b) :=
  inferInstanceAs (Decidable (_ ∧ _))

end BlockTree

/-- The label of a call of `try_upgrade`: what the node answered and what came out. -/
abbrev UpgradeLabel (Tx : Type) :=
  Except NodeError (FullBlock Tx) × Option (ChainUpgrade Tx)

/-- The upgrade that a call put on the stream, if any. -/
def UpgradeLabel.emitted (label : UpgradeLabel Tx) : List (StackOp (Block Tx)) :=
  (label.2.map ChainUpgrade.stackOp).toList

/-- One call of `try_upgrade` that returns.  An answered block has the height that was
asked for and is one that `serves` admits. -/
def ChainSync.Step {Cache : Type} [ChainCache Cache Tx] (serves : Block Tx → Prop)
    (sync : ChainSync Cache) (label : UpgradeLabel Tx) (sync' : ChainSync Cache) : Prop :=
  (∀ apiBlk, label.1 = .ok apiBlk →
    apiBlk.header.height = sync.nextHeight ∧ serves apiBlk.toBlock) ∧
  sync.tryUpgrade label.1 = .ok (label.2, sync')

theorem ChainSync.Step.of_answer {Cache : Type} [ChainCache Cache Tx] {serves : Block Tx → Prop}
    {sync sync' : ChainSync Cache} {apiBlk : FullBlock Tx} {out : Option (ChainUpgrade Tx)}
    (hheight : apiBlk.header.height = sync.nextHeight) (hserves : serves apiBlk.toBlock)
    (hcall : sync.tryUpgrade (.ok apiBlk) = .ok (out, sync')) :
    ChainSync.Step serves sync (.ok apiBlk, out) sync' := by
  refine ⟨fun apiBlk' hanswer => ?_, hcall⟩
  cases hanswer
  exact ⟨hheight, hserves⟩

theorem ChainSync.Step.of_error {Cache : Type} [ChainCache Cache Tx] {serves : Block Tx → Prop}
    {sync : ChainSync Cache} {e : NodeError} :
    ChainSync.Step serves sync (.error e, none) sync := by
  refine ⟨fun apiBlk hanswer => ?_, rfl⟩
  cases hanswer

/-- What a returning call of `try_upgrade` did. -/
inductive ChainSync.Upgraded {Cache : Type} [ChainCache Cache Tx] (serves : Block Tx → Prop)
    (sync : ChainSync Cache) : UpgradeLabel Tx → ChainSync Cache → Prop where
  /-- The answered block links, or is a starting block. -/
  | forward {apiBlk : FullBlock Tx} {cache : Cache}
      (hheight : apiBlk.header.height = sync.nextHeight) (hserves : serves apiBlk.toBlock)
      (hlinked : ChainCache.blockExists sync.cache apiBlk.header.parentId = true ∨
        apiBlk.header.height = sync.startingHeight)
      (happend : ChainCache.appendBlock sync.cache apiBlk.toBlock = .ok cache) :
      Upgraded serves sync (.ok apiBlk, some (.rollForward apiBlk.toBlock))
        { sync with cache, nextHeight := sync.nextHeight + 1 }
  /-- The answered block does not link, and there is a best block to discard. -/
  | backward {apiBlk : FullBlock Tx} {blk : Block Tx} {cache : Cache}
      (hstart : apiBlk.header.height ≠ sync.startingHeight)
      (hheight : apiBlk.header.height = sync.nextHeight)
      (htake : ChainCache.takeBestBlock sync.cache = .ok (some blk, cache)) :
      Upgraded serves sync (.ok apiBlk, some (.rollBackward blk))
        { sync with cache, nextHeight := sync.nextHeight - 1 }
  /-- The answered block does not link, and the cache has no best block. -/
  | stuck {apiBlk : FullBlock Tx} {cache : Cache}
      (htake : ChainCache.takeBestBlock sync.cache = .ok (none, cache)) :
      Upgraded serves sync (.ok apiBlk, none) { sync with cache }
  /-- The node answered with an error. -/
  | failed {e : NodeError} : Upgraded serves sync (.error e, none) sync

theorem ChainSync.Step.upgraded {Cache : Type} [ChainCache Cache Tx] {serves : Block Tx → Prop}
    {sync sync' : ChainSync Cache} {label : UpgradeLabel Tx}
    (h : ChainSync.Step serves sync label sync') : sync.Upgraded serves label sync' := by
  obtain ⟨answer, out⟩ := label
  obtain ⟨hanswer, hcall⟩ := h
  cases answer with
  | error e =>
      cases hcall
      exact Upgraded.failed
  | ok apiBlk =>
      obtain ⟨hheight, hserves⟩ := hanswer apiBlk rfl
      simp only [tryUpgrade] at hcall
      split at hcall
      case isTrue hlinked =>
        simp only [Outcome.bind_eq_ok, Outcome.checkedAdd_eq_ok] at hcall
        obtain ⟨cache, happend, next, ⟨-, rfl⟩, hcall⟩ := hcall
        cases hcall
        exact Upgraded.forward hheight hserves hlinked happend
      case isFalse hlinked =>
        rw [Outcome.bind_eq_ok] at hcall
        obtain ⟨⟨discarded, cache⟩, htake, hcall⟩ := hcall
        cases discarded with
        | none =>
            cases hcall
            exact Upgraded.stuck htake
        | some blk =>
            simp only [Outcome.bind_eq_ok, Outcome.checkedSub_eq_ok] at hcall
            obtain ⟨next, ⟨-, rfl⟩, hcall⟩ := hcall
            cases hcall
            exact Upgraded.backward (fun h => hlinked (Or.inr h)) hheight htake

/-! ## Sample blocks -/

namespace ChainSync.Sample

theorem length_blockId (byte : UInt8) : (List.replicate 32 byte).length = 32 :=
  List.length_replicate

def blockId (byte : UInt8) : BlockId := ⟨List.replicate 32 byte, length_blockId byte⟩

/-- A block without transactions. -/
def block (id parent : UInt8) (height : ℕ) : FullBlock UInt8 :=
  ⟨⟨blockId id, blockId parent, height, 0⟩, []⟩

/-- Block 1 has the children 2 and 3, and block 3 has the child 4.  Block 6 is a sibling
of block 1 and has the child 5. -/
def tree : BlockTree where
  parent id :=
    if id = blockId 4 then blockId 3
    else if id = blockId 5 then blockId 6
    else if id = blockId 2 ∨ id = blockId 3 then blockId 1
    else blockId 0
  height id :=
    if id = blockId 4 then 3
    else if id = blockId 2 ∨ id = blockId 3 ∨ id = blockId 5 then 2
    else if id = blockId 1 ∨ id = blockId 6 then 1
    else 0

end ChainSync.Sample

end SpectrumOffchain
