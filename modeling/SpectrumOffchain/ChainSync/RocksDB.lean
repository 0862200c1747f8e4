import SpectrumOffchain.ChainSync.Chain
import SpectrumOffchain.Lib.Store

/-!
# The persistent cache

`ChainCacheRocksDB` spreads a block over five kinds of keys.  The kinds never collide
(the keys are of different lengths or end in different postfixes), so that each is a
store of its own here.  A call is one database transaction: when it panics nothing of
it is written.

Transactions are stored under their ids, in ergo-lib's serialisation.  `max_rollback_depth`
bounds the number of blocks that are kept: `append_block` forgets the oldest block once
the new one stands that far above it.

The lemmas say what a call that returns has written (`appendBlock_ok`, `takeBestBlock_ok`)
and, for states that describe a chain, what a call does.

## Order of the lemmas

Each call is described twice.  From a call that returned, `appendBlock_ok` and
`takeBestBlock_ok` give what was read on the way and what was written, which is enough to
keep an invariant.  From a state that stores the blocks of a chain (`Stores`),
`appendBlock_first`, `appendBlock_below`, `appendBlock_at` and `takeBestBlock_eq` give the
result, which is what is needed to know that the call returns at all.
-/

namespace SpectrumOffchain

/-- What the cache takes from ergo-lib's `Transaction`. -/
class SigmaTransaction (Tx : Type) where
  id : Tx → TxId
  sigmaSerializeBytes : Tx → Bytes
  sigmaParseBytes : Bytes → Option Tx
  parse_serialize : ∀ tx, sigmaParseBytes (sigmaSerializeBytes tx) = some tx

/-- The database, one store for each kind of key. -/
structure ChainCacheRocksDB (Tx : Type) where
  maxRollbackDepth : ℕ
  /-- `{HB}:p`, the parent of a block. -/
  parents : Store BlockId BlockId
  /-- `{HB}:c`, the child of a block, if it currently exists. -/
  children : Store BlockId BlockId
  /-- `{HB}:h`, the height of a block. -/
  heights : Store BlockId ℕ
  /-- `{HB}:t`, the ids of the transactions of a block. -/
  txIds : Store BlockId (List TxId)
  /-- `{HT}`, the serialised transactions. -/
  txs : Store TxId Bytes
  /-- `BEST_BLOCK`, the most recently stored block. -/
  bestBlock : Option BlockRecord
  /-- `OLDEST_BLOCK`, the oldest block in the store. -/
  oldestBlock : Option BlockRecord

variable {Tx : Type} [SigmaTransaction Tx]

/-- The ids of the transactions of a block, in order. -/
def Block.txIds (block : Block Tx) : List TxId := block.transactions.map SigmaTransaction.id

/-- What is written for the transactions of a block. -/
def Block.txEntries (block : Block Tx) : List (TxId × Bytes) :=
  block.transactions.map fun tx => (SigmaTransaction.id tx, SigmaTransaction.sigmaSerializeBytes tx)

namespace ChainCacheRocksDB

open Outcome (unwrap checkedSub checkedAdd)

/-- An empty database. -/
def new (maxRollbackDepth : ℕ) : ChainCacheRocksDB Tx :=
  ⟨maxRollbackDepth, .empty, .empty, .empty, .empty, .empty, none, none⟩

/-- What `append_block` writes for the block itself. -/
def putBlock (db : ChainCacheRocksDB Tx) (block : Block Tx) : ChainCacheRocksDB Tx :=
  { db with
    parents := db.parents.put block.id block.parentId
    children := db.children.put block.parentId block.id
    heights := db.heights.put block.id block.height
    txIds := db.txIds.put block.id block.txIds
    txs := db.txs.putAll block.txEntries
    bestBlock := some block.record }

/-- Delete all data relating to the 'old' oldest block. -/
def deleteBlock (db : ChainCacheRocksDB Tx) (oldestId : BlockId) (txIds : List TxId) :
    ChainCacheRocksDB Tx :=
  { db with
    txs := db.txs.deleteAll txIds
    txIds := db.txIds.delete oldestId
    heights := db.heights.delete oldestId
    parents := db.parents.delete oldestId
    children := db.children.delete oldestId }

def appendBlock (db : ChainCacheRocksDB Tx) (block : Block Tx) :
    Outcome Empty (ChainCacheRocksDB Tx) :=
  let put := db.putBlock block
  match db.oldestBlock with
  | some oldest => do
      let rise ← checkedSub block.height oldest.height
      -- Replace OLDEST_BLOCK if the persistent store is at capacity.
      if rise = db.maxRollbackDepth then
        let newOldestId ← unwrap (put.children.get oldest.id)
        let newOldestHeight ← checkedAdd 32 oldest.height 1
        let txIds ← unwrap (put.txIds.get oldest.id)
        pure { put.deleteBlock oldest.id txIds with
               oldestBlock := some ⟨newOldestId, newOldestHeight⟩ }
      else
        pure put
  -- This is the very first block to add to the store
  | none => pure { put with oldestBlock := some block.record }

def blockExists (db : ChainCacheRocksDB Tx) (blockId : BlockId) : Bool :=
  (db.heights.get blockId).isSome

def getBestBlock (db : ChainCacheRocksDB Tx) : Option BlockRecord := db.bestBlock

/-- The loop over the transaction ids of `take_best_block`, which reads each transaction
and deletes it. -/
def takeTransactions (txs : Store TxId Bytes) :
    List TxId → Outcome Empty (List Tx × Store TxId Bytes)
  | [] => pure ([], txs)
  | txId :: rest => do
      let txBytes ← unwrap (txs.get txId)
      let tx ← unwrap (SigmaTransaction.sigmaParseBytes txBytes)
      let (transactions, txs) ← takeTransactions (txs.delete txId) rest
      pure (tx :: transactions, txs)

/-- The new best block: the parent of the old one, if the parent exists in the cache. -/
def newBestBlock (db : ChainCacheRocksDB Tx) (parentId : BlockId) :
    Outcome Empty (Option BlockRecord) :=
  match db.parents.get parentId with
  | some _ => do
      let parentIdHeight ← unwrap (db.heights.get parentId)
      pure (some ⟨parentId, parentIdHeight⟩)
  | none => pure none

def takeBestBlock (db : ChainCacheRocksDB Tx) :
    Outcome Empty (Option (Block Tx) × ChainCacheRocksDB Tx) :=
  match db.bestBlock with
  | some best =>
      match db.txIds.get best.id with
      | some txIds => do
          let (transactions, txs) ← takeTransactions db.txs txIds
          let parentId ← unwrap (db.parents.get best.id)
          let bestBlock ← db.newBestBlock parentId
          let block : Block Tx :=
            { id := best.id, parentId, height := best.height, timestamp := 0, transactions }
          pure (some block, { db with txs, bestBlock })
      | none => pure (none, db)
  | none => pure (none, db)

instance : ChainCache (ChainCacheRocksDB Tx) Tx where
  appendBlock := appendBlock
  blockExists := blockExists
  getBestBlock := getBestBlock
  takeBestBlock := takeBestBlock

variable {db db' : ChainCacheRocksDB Tx} {block : Block Tx}

/-! ## What a call has written -/

/-- `append_block` sets OLDEST_BLOCK for the first block, moves it when the new block is
`max_rollback_depth` above it, and leaves it otherwise. -/
theorem appendBlock_cases (h : db.appendBlock block = .ok db') :
    db.oldestBlock = none ∧ db' = { db.putBlock block with oldestBlock := some block.record } ∨
    (∃ oldest, db.oldestBlock = some oldest ∧ oldest.height ≤ block.height ∧
      block.height - oldest.height ≠ db.maxRollbackDepth ∧ db' = db.putBlock block) ∨
    ∃ oldest newOldestId txIds, db.oldestBlock = some oldest ∧ oldest.height ≤ block.height ∧
      block.height - oldest.height = db.maxRollbackDepth ∧
      db' = { (db.putBlock block).deleteBlock oldest.id txIds with
              oldestBlock := some ⟨newOldestId, oldest.height + 1⟩ } := by
  unfold appendBlock at h
  split at h
  case h_1 oldest holdest =>
    rw [Outcome.bind_eq_ok] at h
    obtain ⟨rise, hrise, h⟩ := h
    obtain ⟨hle, rfl⟩ := Outcome.checkedSub_eq_ok.mp hrise
    split at h
    case isTrue hcapacity =>
      simp only [Outcome.bind_eq_ok, Outcome.unwrap_eq_ok, Outcome.checkedAdd_eq_ok] at h
      obtain ⟨newOldestId, -, _, ⟨-, rfl⟩, txIds, -, h⟩ := h
      cases h
      exact Or.inr (Or.inr ⟨oldest, newOldestId, txIds, holdest, hle, hcapacity, rfl⟩)
    case isFalse hcapacity =>
      cases h
      exact Or.inr (Or.inl ⟨oldest, holdest, hle, hcapacity, rfl⟩)
  case h_2 holdest =>
    cases h
    exact Or.inl ⟨holdest, rfl⟩

/-- The new block is the best one, and a key that is stored for a block after the call
is the one `putBlock` left. -/
theorem appendBlock_ok (h : db.appendBlock block = .ok db') :
    db'.bestBlock = some block.record ∧
    (∀ id height, db'.heights.get id = some height →
      (db.putBlock block).heights.get id = some height) ∧
    ∀ id parent, db'.parents.get id = some parent →
      (db.putBlock block).parents.get id = some parent := by
  rcases appendBlock_cases h with ⟨-, rfl⟩ | ⟨_, -, -, -, rfl⟩ | ⟨_, _, _, -, -, -, rfl⟩
  · exact ⟨rfl, fun _ _ hget => hget, fun _ _ hget => hget⟩
  · exact ⟨rfl, fun _ _ hget => hget, fun _ _ hget => hget⟩
  · refine ⟨rfl, fun id height hget => ?_, fun id parent hget => ?_⟩
    · exact (Store.get_delete_eq_some.mp hget).2
    · exact (Store.get_delete_eq_some.mp hget).2

/-- `take_best_block` either finds nothing to take and writes nothing, or it hands out
the best block as its keys describe it and makes a stored parent the best block. -/
theorem takeBestBlock_ok {out : Option (Block Tx)} (h : db.takeBestBlock = .ok (out, db')) :
    out = none ∧ db' = db ∨
    ∃ best taken, out = some taken ∧ db.bestBlock = some best ∧ taken.id = best.id ∧
      taken.height = best.height ∧ db.parents.get best.id = some taken.parentId ∧
      db'.heights = db.heights ∧ db'.parents = db.parents ∧
      (∀ record, db'.bestBlock = some record → record.id = taken.parentId ∧
        (db.parents.get taken.parentId).isSome ∧
        db.heights.get taken.parentId = some record.height) := by
  unfold takeBestBlock at h
  split at h
  case h_2 =>
    cases h
    exact Or.inl ⟨rfl, rfl⟩
  case h_1 best hbest =>
    split at h
    case h_2 =>
      cases h
      exact Or.inl ⟨rfl, rfl⟩
    case h_1 txIds htxIds =>
      simp only [Outcome.bind_eq_ok, Outcome.unwrap_eq_ok] at h
      obtain ⟨⟨transactions, txs⟩, -, parentId, hparent, bestBlock, hnew, h⟩ := h
      cases h
      refine Or.inr ⟨best, _, rfl, hbest, rfl, rfl, hparent, rfl, rfl, ?_⟩
      rintro record rfl
      unfold newBestBlock at hnew
      split at hnew
      case h_2 => cases hnew
      case h_1 grandparent hgrandparent =>
        simp only [Outcome.bind_eq_ok, Outcome.unwrap_eq_ok] at hnew
        obtain ⟨height, hheight, hnew⟩ := hnew
        cases hnew
        exact ⟨rfl, Option.isSome_of_eq_some hgrandparent, hheight⟩

/-! ## Blocks that are stored -/

/-- The block is in the database with its parent, height and transaction-list entries and
all its transaction bodies. -/
structure Stores (db : ChainCacheRocksDB Tx) (b : Block Tx) : Prop where
  parent : db.parents.get b.id = some b.parentId
  height : db.heights.get b.id = some b.height
  txIds : db.txIds.get b.id = some b.txIds
  txs : ∀ tx ∈ b.transactions,
    db.txs.get (SigmaTransaction.id tx) = some (SigmaTransaction.sigmaSerializeBytes tx)

section Stores

variable {b : Block Tx}

theorem map_fst_txEntries : b.txEntries.map Prod.fst = b.txIds := by
  rw [Block.txEntries, List.map_map]
  rfl

theorem mem_txIds {tx : Tx} (h : tx ∈ b.transactions) : SigmaTransaction.id tx ∈ b.txIds :=
  List.mem_map_of_mem h

/-- Along a chain the transactions of a block are its own. -/
theorem distinct_cons {live : List (Block Tx)} (h : ((b :: live).flatMap Block.txIds).Nodup) :
    b.txIds.Nodup ∧ ∀ b' ∈ live, ∀ id ∈ b'.txIds, id ∉ b.txIds := by
  rw [List.flatMap_cons, List.nodup_append] at h
  obtain ⟨hself, -, hdisjoint⟩ := h
  refine ⟨hself, fun b' hb' id hid hmem => ?_⟩
  exact hdisjoint id hmem id (List.mem_flatMap.mpr ⟨b', hb', hid⟩) rfl

theorem stores_putBlock (hdistinct : block.txIds.Nodup) : (db.putBlock block).Stores block where
  parent := Store.get_put_self
  height := Store.get_put_self
  txIds := Store.get_put_self
  txs tx htx := by
    apply Store.get_putAll_of_mem
    · rw [map_fst_txEntries]
      exact hdistinct
    · exact List.mem_map_of_mem (f := fun tx => (SigmaTransaction.id tx, _)) htx

namespace Stores

/-- Another block stays stored when a block is put. -/
theorem putBlock (h : db.Stores b) (hid : b.id ≠ block.id)
    (htxs : ∀ id ∈ b.txIds, id ∉ block.txIds) : (db.putBlock block).Stores b where
  parent := (Store.get_put_of_ne hid).trans h.parent
  height := (Store.get_put_of_ne hid).trans h.height
  txIds := (Store.get_put_of_ne hid).trans h.txIds
  txs tx htx := by
    have hkept : (db.txs.putAll block.txEntries).get (SigmaTransaction.id tx) =
        db.txs.get (SigmaTransaction.id tx) := by
      apply Store.get_putAll_of_notMem
      rw [map_fst_txEntries]
      exact htxs _ (mem_txIds htx)
    exact hkept.trans (h.txs tx htx)

/-- Another block stays stored when transactions of a block are deleted. -/
theorem deleteTxs (h : db.Stores b) {txIds : List TxId} (htxs : ∀ id ∈ b.txIds, id ∉ txIds)
    (bestBlock : Option BlockRecord) :
    Stores { db with txs := db.txs.deleteAll txIds, bestBlock } b where
  parent := h.parent
  height := h.height
  txIds := h.txIds
  txs tx htx := (Store.get_deleteAll_of_notMem (htxs _ (mem_txIds htx))).trans (h.txs tx htx)

theorem deleteBlock (h : db.Stores b) {id : BlockId} {txIds : List TxId} (hid : b.id ≠ id)
    (htxs : ∀ id ∈ b.txIds, id ∉ txIds) : (db.deleteBlock id txIds).Stores b where
  parent := (Store.get_delete_of_ne hid).trans h.parent
  height := (Store.get_delete_of_ne hid).trans h.height
  txIds := (Store.get_delete_of_ne hid).trans h.txIds
  txs tx htx := (Store.get_deleteAll_of_notMem (htxs _ (mem_txIds htx))).trans (h.txs tx htx)

end Stores

end Stores

/-! ## What a call does -/

theorem appendBlock_first (h : db.oldestBlock = none) :
    db.appendBlock block = .ok { db.putBlock block with oldestBlock := some block.record } := by
  rw [appendBlock, h]
  rfl

/-- Below the threshold a block is only put. -/
theorem appendBlock_below {oldest : BlockRecord} (h : db.oldestBlock = some oldest)
    (hle : oldest.height ≤ block.height)
    (hrise : block.height - oldest.height ≠ db.maxRollbackDepth) :
    db.appendBlock block = .ok (db.putBlock block) := by
  have hsub : (checkedSub block.height oldest.height : Outcome Empty ℕ) =
      .ok (block.height - oldest.height) := if_pos hle
  simp only [appendBlock, h, hsub, Outcome.ok_bind, if_neg hrise]
  rfl

/-- At the threshold the oldest block is deleted and its child takes its place. -/
theorem appendBlock_at {oldest : BlockRecord} {newOldestId : BlockId} {txIds : List TxId}
    (h : db.oldestBlock = some oldest) (hle : oldest.height ≤ block.height)
    (hrise : block.height - oldest.height = db.maxRollbackDepth)
    (hchild : (db.putBlock block).children.get oldest.id = some newOldestId)
    (hheight : oldest.height + 1 < 2 ^ 32)
    (htxIds : (db.putBlock block).txIds.get oldest.id = some txIds) :
    db.appendBlock block =
      .ok { (db.putBlock block).deleteBlock oldest.id txIds with
            oldestBlock := some ⟨newOldestId, oldest.height + 1⟩ } := by
  have hsub : (checkedSub block.height oldest.height : Outcome Empty ℕ) =
      .ok (block.height - oldest.height) := if_pos hle
  have hadd : (checkedAdd 32 oldest.height 1 : Outcome Empty ℕ) = .ok (oldest.height + 1) :=
    if_pos hheight
  simp only [appendBlock, h, hsub, Outcome.ok_bind, if_pos hrise, hchild, unwrap, hadd, htxIds]
  rfl

/-- Stored transactions with distinct ids are read back in order, and deleted. -/
theorem takeTransactions_eq {txs : Store TxId Bytes} {transactions : List Tx}
    (hdistinct : (transactions.map SigmaTransaction.id).Nodup)
    (hstored : ∀ tx ∈ transactions,
      txs.get (SigmaTransaction.id tx) = some (SigmaTransaction.sigmaSerializeBytes tx)) :
    takeTransactions txs (transactions.map SigmaTransaction.id) =
      .ok (transactions, txs.deleteAll (transactions.map SigmaTransaction.id)) := by
  induction transactions generalizing txs with
  | nil => rfl
  | cons tx rest ih =>
      rw [List.map_cons, List.nodup_cons] at hdistinct
      obtain ⟨hfresh, hdistinct⟩ := hdistinct
      have hread : txs.get (SigmaTransaction.id tx) =
          some (SigmaTransaction.sigmaSerializeBytes tx) := hstored tx List.mem_cons_self
      have hrest : ∀ tx' ∈ rest, (txs.delete (SigmaTransaction.id tx)).get
          (SigmaTransaction.id tx') = some (SigmaTransaction.sigmaSerializeBytes tx') := by
        intro tx' htx'
        have hne : SigmaTransaction.id tx' ≠ SigmaTransaction.id tx := by
          intro heq
          exact hfresh (heq ▸ List.mem_map_of_mem htx')
        rw [Store.get_delete_of_ne hne]
        exact hstored tx' (List.mem_cons_of_mem _ htx')
      rw [List.map_cons, takeTransactions, hread]
      simp only [unwrap, Outcome.ok_bind, SigmaTransaction.parse_serialize,
        ih hdistinct hrest]
      rfl

theorem newBestBlock_of_stores {p : Block Tx} (h : db.Stores p) :
    db.newBestBlock p.id = .ok (some p.record) := by
  rw [newBestBlock, h.parent, h.height]
  rfl

omit [SigmaTransaction Tx] in
theorem newBestBlock_of_none {parentId : BlockId} (h : db.parents.get parentId = none) :
    db.newBestBlock parentId = .ok none := by
  rw [newBestBlock, h]
  rfl

theorem takeBestBlock_of_none (h : db.bestBlock = none) : db.takeBestBlock = .ok (none, db) := by
  rw [takeBestBlock, h]
  rfl

/-- A stored best block is handed out complete but for its timestamp. -/
theorem takeBestBlock_eq {b : Block Tx} {bestBlock : Option BlockRecord}
    (hbest : db.bestBlock = some b.record) (hstores : db.Stores b) (hdistinct : b.txIds.Nodup)
    (hnew : db.newBestBlock b.parentId = .ok bestBlock) :
    db.takeBestBlock =
      .ok (some { b with timestamp := 0 },
        { db with txs := db.txs.deleteAll b.txIds, bestBlock }) := by
  have htxIds : db.txIds.get b.record.id = some b.txIds := hstores.txIds
  have hparent : db.parents.get b.record.id = some b.parentId := hstores.parent
  have htake : takeTransactions db.txs b.txIds = .ok (b.transactions, db.txs.deleteAll b.txIds) :=
    takeTransactions_eq hdistinct hstores.txs
  simp only [takeBestBlock, hbest, htxIds, htake, hparent, unwrap, Outcome.ok_bind, hnew]
  rfl

end ChainCacheRocksDB

/-! ## Sample transactions -/

namespace ChainSync.Sample

/-- A transaction is a byte, which is its serialisation, and its id is the byte repeated. -/
scoped instance : SigmaTransaction UInt8 where
  id := blockId
  sigmaSerializeBytes byte := [byte]
  sigmaParseBytes bytes := bytes.head?
  parse_serialize _ := rfl

end ChainSync.Sample

end SpectrumOffchain
