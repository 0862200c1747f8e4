import SpectrumOffchain.Binary
import SpectrumOffchain.ChainSync.RocksDB
import SpectrumOffchain.Lib.Coupled
import SpectrumOffchain.Lib.Database

/-!
# The persistent cache on bytes

`ChainCacheRocksDB` keeps its five kinds of keys and the two named records in one database of
bytes.  An id is the string of its hexadecimal digits; the keys of a block are its id and a
postfix, and a transaction is stored under its id alone.

* Distinct keys are distinct as bytes: an id is always of one length, so that a key of a block, one
  of a transaction and the two names differ in length or in the postfix
  (`CacheKey.bytes_injective`).
* Every call on the bytes ends as the call on the stores does, with the same answer, and in a
  panic if that one panics (`Represents.appendBlock`, `Represents.takeBestBlock`).

So a synchroniser over the bytes emits what one over the stores does, panics and restarts
included (`upgrades_of_answers`).

## Strategy

`lookup` is the table of all that the stores hold, by key and in bytes, and `Encoded` says
that the database is this table under `CacheKey.bytes`.  A write or a delete of the source
changes the table at one key, so the lemmas about `putBlock` and `deleteBlock` are chains
of `Encoded.write` and `Encoded.delete`, one for each call on the database.

Reading back needs that numbers fit their width, which is `Fits`: a height is below `2 ^ 32`
and a block has fewer than `2 ^ 64` transactions.  The synchroniser keeps this as long as the
node answers such blocks.  Two computations that end alike are `Coupled`, panics included, and
binding keeps them so; each call of the cache is shown to be coupled, then `try_upgrade`,
and the list of upgrades by induction on the events.
-/

namespace SpectrumOffchain

/-! ## Values -/

def serializeTxIds (txIds : List TxId) : Bytes := Bincode.vec serializeId txIds

def deserializeTxIds (bytes : Bytes) : Option (List TxId) :=
  (Bincode.takeVec takeId bytes).map Prod.fst

namespace BlockRecord

def serialize (record : BlockRecord) : Bytes :=
  serializeId record.id ++ Bincode.uint 4 record.height

def deserialize (bytes : Bytes) : Option BlockRecord := do
  let (id, rest) ← takeId bytes
  let (height, _) ← Bincode.takeUint 4 rest
  some ⟨id, height⟩

end BlockRecord

theorem deserializeTxIds_serializeTxIds {txIds : List TxId} (h : txIds.length < 2 ^ 64) :
    deserializeTxIds (serializeTxIds txIds) = some txIds := by
  rw [deserializeTxIds, serializeTxIds, ← List.append_nil (Bincode.vec serializeId txIds),
    Bincode.takeVec_append takeId_append h]
  rfl

theorem BlockRecord.deserialize_serialize {record : BlockRecord} (h : record.height < 2 ^ 32) :
    deserialize record.serialize = some record := by
  have hheight : Bincode.takeUint 4 (Bincode.uint 4 record.height) = some (record.height, []) := by
    rw [← List.append_nil (Bincode.uint 4 record.height), takeUint_u32 h]
  simp [deserialize, serialize, takeId_append, hheight]

/-- The height of a block is of 32 bits, and the number of its transactions of 64. -/
structure Block.InRange {Tx : Type} (block : Block Tx) : Prop where
  height : block.height < 2 ^ 32
  transactions : block.transactions.length < 2 ^ 64

/-! ## The cache -/

namespace ChainCacheRocksDB

/-- The struct as the source has it. -/
structure OnBytes (Tx : Type) where
  db : Database UInt8 Bytes
  maxRollbackDepth : ℕ

namespace OnBytes

open Outcome (unwrap checkedSub checkedAdd)

def bestBlockKey : Bytes := Bincode.str "BEST_BLOCK"

def oldestBlockKey : Bytes := Bincode.str "OLDEST_BLOCK"

def parentPostfix : String := ":p"

def childPostfix : String := ":c"

def heightPostfix : String := ":h"

def transactionPostfix : String := ":t"

def postfixedKey (blockId : BlockId) (s : String) : Bytes := serializeId blockId ++ Bincode.str s

def new (Tx : Type) (maxRollbackDepth : ℕ) : OnBytes Tx := ⟨.empty, maxRollbackDepth⟩

/-- `bincode::deserialize(&db.get(key).unwrap()).unwrap()`. -/
def fetch {α : Type} (db : Database UInt8 Bytes) (key : Bytes) (deserialize : Bytes → Option α) :
    Outcome Empty α := do
  let bytes ← unwrap (db.read key)
  unwrap (deserialize bytes)

variable {Tx : Type} [SigmaTransaction Tx]

/-- What `append_block` writes for the block itself. -/
def putBlock (db : Database UInt8 Bytes) (block : Block Tx) : Database UInt8 Bytes :=
  let db := db.write (postfixedKey block.id parentPostfix) (serializeId block.parentId)
  let db := db.write (postfixedKey block.parentId childPostfix) (serializeId block.id)
  let db := db.write (postfixedKey block.id heightPostfix) (Bincode.uint 4 block.height)
  let db := db.write (postfixedKey block.id transactionPostfix) (serializeTxIds block.txIds)
  let db := block.txEntries.foldl (fun db entry => db.write (serializeId entry.1) entry.2) db
  db.write bestBlockKey block.record.serialize

/-- Delete all data relating to the 'old' oldest block. -/
def deleteBlock (db : Database UInt8 Bytes) (oldestId : BlockId) (txIds : List TxId) :
    Database UInt8 Bytes :=
  let db := txIds.foldl (fun db txId => db.delete (serializeId txId)) db
  let db := db.delete (postfixedKey oldestId transactionPostfix)
  let db := db.delete (postfixedKey oldestId heightPostfix)
  let db := db.delete (postfixedKey oldestId parentPostfix)
  db.delete (postfixedKey oldestId childPostfix)

def appendBlock (cache : OnBytes Tx) (block : Block Tx) : Outcome Empty (OnBytes Tx) :=
  let put := putBlock cache.db block
  match put.read oldestBlockKey with
  | some bytes => do
      let oldest ← unwrap (BlockRecord.deserialize bytes)
      let rise ← checkedSub block.height oldest.height
      -- Replace OLDEST_BLOCK if the persistent store is at capacity.
      if rise = cache.maxRollbackDepth then
        let newOldestId ← fetch put (postfixedKey oldest.id childPostfix) deserializeId
        let newOldestHeight ← checkedAdd 32 oldest.height 1
        let newOldestBlock : BlockRecord := ⟨newOldestId, newOldestHeight⟩
        let db := put.write oldestBlockKey newOldestBlock.serialize
        let txIds ← fetch db (postfixedKey oldest.id transactionPostfix) deserializeTxIds
        pure { cache with db := deleteBlock db oldest.id txIds }
      else
        pure { cache with db := put }
  -- This is the very first block to add to the store
  | none => pure { cache with db := put.write oldestBlockKey block.record.serialize }

def blockExists (cache : OnBytes Tx) (blockId : BlockId) : Bool :=
  (cache.db.read (postfixedKey blockId heightPostfix)).isSome

def getBestBlock (cache : OnBytes Tx) : Option BlockRecord :=
  (cache.db.read bestBlockKey).bind BlockRecord.deserialize

/-- The loop over the transaction ids of `take_best_block`. -/
def takeTransactions (db : Database UInt8 Bytes) :
    List TxId → Outcome Empty (List Tx × Database UInt8 Bytes)
  | [] => pure ([], db)
  | txId :: rest => do
      let txBytes ← unwrap (db.read (serializeId txId))
      let tx ← unwrap (SigmaTransaction.sigmaParseBytes txBytes)
      let (transactions, db) ← takeTransactions (db.delete (serializeId txId)) rest
      pure (tx :: transactions, db)

/-- The new best block will now be the parent of the old best block, if the parent exists. -/
def putNewBest (db : Database UInt8 Bytes) (parentId : BlockId) :
    Outcome Empty (Database UInt8 Bytes) :=
  match db.read (postfixedKey parentId parentPostfix) with
  | some _ => do
      let parentIdHeight ← fetch db (postfixedKey parentId heightPostfix) deserializeU32
      pure (db.write bestBlockKey (BlockRecord.mk parentId parentIdHeight).serialize)
  | none => pure db

def takeBestBlock (cache : OnBytes Tx) : Outcome Empty (Option (Block Tx) × OnBytes Tx) :=
  match cache.db.read bestBlockKey with
  | some bytes => do
      let best ← unwrap (BlockRecord.deserialize bytes)
      match cache.db.read (postfixedKey best.id transactionPostfix) with
      | some bytes => do
          let txIds ← unwrap (deserializeTxIds bytes)
          let (transactions, db) ← takeTransactions cache.db txIds
          let parentId ← fetch db (postfixedKey best.id parentPostfix) deserializeId
          let db ← putNewBest (db.delete bestBlockKey) parentId
          let block : Block Tx :=
            { id := best.id, parentId, height := best.height, timestamp := 0, transactions }
          pure (some block, { cache with db })
      | none => pure (none, cache)
  | none => pure (none, cache)

instance : ChainCache (OnBytes Tx) Tx where
  appendBlock := appendBlock
  blockExists := blockExists
  getBestBlock := getBestBlock
  takeBestBlock := takeBestBlock

end OnBytes

/-! ## Keys -/

open OnBytes

/-- The kinds of keys that a block has. -/
inductive BlockKeyKind where
  | parent
  | child
  | height
  | transactions
  deriving DecidableEq, Repr

def BlockKeyKind.ending : BlockKeyKind → String
  | parent => parentPostfix
  | child => childPostfix
  | height => heightPostfix
  | transactions => transactionPostfix

inductive CacheKey where
  | block (kind : BlockKeyKind) (id : BlockId)
  | tx (id : TxId)
  | bestBlock
  | oldestBlock
  deriving DecidableEq, Repr

namespace CacheKey

def bytes : CacheKey → Bytes
  | block kind id => postfixedKey id kind.ending
  | tx id => serializeId id
  | bestBlock => bestBlockKey
  | oldestBlock => oldestBlockKey

def size : CacheKey → ℕ
  | block _ _ => 82
  | tx _ => 72
  | bestBlock => 18
  | oldestBlock => 20

theorem length_bytes (key : CacheKey) : key.bytes.length = key.size := by
  cases key with
  | block kind id =>
      have hending : (Bincode.str kind.ending).length = 10 := by cases kind <;> decide
      rw [bytes, postfixedKey, List.length_append, length_serializeId, hending]
      rfl
  | tx id => exact length_serializeId id
  | bestBlock => decide
  | oldestBlock => decide

/-- Distinct keys are distinct as bytes. -/
theorem bytes_injective : Function.Injective bytes := by
  intro key key' h
  have hsize : key.size = key'.size := by rw [← length_bytes, ← length_bytes, h]
  -- keys of two sorts differ in length
  cases key <;> cases key' <;> simp [size] at hsize
  case block.block kind id kind' id' =>
    obtain ⟨hid, hending⟩ := List.append_inj h (by simp)
    cases serializeId_injective hid
    cases kind <;> cases kind' <;> first | rfl | exact absurd hending (by decide)
  case tx.tx id id' => exact congrArg tx (serializeId_injective h)
  case bestBlock.bestBlock => rfl
  case oldestBlock.oldestBlock => rfl

end CacheKey

/-! ## What the bytes represent -/

variable {Tx : Type}

/-- What the stores have under a key, in bytes. -/
def lookup (cache : ChainCacheRocksDB Tx) : CacheKey → Option Bytes
  | .block .parent id => (cache.parents.get id).map serializeId
  | .block .child id => (cache.children.get id).map serializeId
  | .block .height id => (cache.heights.get id).map (Bincode.uint 4)
  | .block .transactions id => (cache.txIds.get id).map serializeTxIds
  | .tx id => cache.txs.get id
  | .bestBlock => cache.bestBlock.map BlockRecord.serialize
  | .oldestBlock => cache.oldestBlock.map BlockRecord.serialize

/-- The database has under each key what the stores have. -/
abbrev Encoded (cache : ChainCacheRocksDB Tx) (db : Database UInt8 Bytes) : Prop :=
  Database.Encodes CacheKey.bytes (fun _ => True) cache.lookup db

structure Fits (cache : ChainCacheRocksDB Tx) : Prop where
  heights : ∀ id height, cache.heights.get id = some height → height < 2 ^ 32
  txIds : ∀ id txIds, cache.txIds.get id = some txIds → txIds.length < 2 ^ 64
  best : ∀ record, cache.bestBlock = some record → record.height < 2 ^ 32
  oldest : ∀ record, cache.oldestBlock = some record → record.height < 2 ^ 32

section Encoded

variable {cache : ChainCacheRocksDB Tx} {db : Database UInt8 Bytes}

theorem keys_injective (key key' : CacheKey) (_ : True) (_ : True)
    (h : key.bytes = key'.bytes) : key = key' := CacheKey.bytes_injective h

theorem Encoded.write {cache' : ChainCacheRocksDB Tx} (h : Encoded cache db) (key : CacheKey)
    (value : Bytes) (heq : cache'.lookup = Function.update cache.lookup key (some value)) :
    Encoded cache' (db.write key.bytes value) := by
  rw [Encoded, heq]
  exact Database.Encodes.write keys_injective h key trivial value

theorem Encoded.delete {cache' : ChainCacheRocksDB Tx} (h : Encoded cache db) (key : CacheKey)
    (heq : cache'.lookup = Function.update cache.lookup key none) :
    Encoded cache' (db.delete key.bytes) := by
  rw [Encoded, heq]
  exact Database.Encodes.delete keys_injective h key trivial

theorem Encoded.deleteTx (h : Encoded cache db) (txId : TxId) :
    Encoded ({ cache with txs := cache.txs.delete txId } : ChainCacheRocksDB Tx)
      (db.delete (serializeId txId)) := by
  apply h.delete (.tx txId)
  funext key
  rcases key with ⟨_ | _ | _ | _, id⟩ | id | _ | _ <;>
    simp [Function.update_apply, lookup, Store.get_delete]

/-- The loop over the transactions of a block. -/
theorem Encoded.writeTxs (h : Encoded cache db) (entries : List (TxId × Bytes)) :
    Encoded ({ cache with txs := cache.txs.putAll entries } : ChainCacheRocksDB Tx)
      (entries.foldl (fun db entry => db.write (serializeId entry.1) entry.2) db) := by
  induction entries generalizing cache db with
  | nil => exact h
  | cons entry rest ih =>
      have hput : Encoded
          ({ cache with txs := cache.txs.put entry.1 entry.2 } : ChainCacheRocksDB Tx)
          (db.write (serializeId entry.1) entry.2) := by
        apply h.write (.tx entry.1)
        funext key
        rcases key with ⟨_ | _ | _ | _, id⟩ | id | _ | _ <;>
          simp [Function.update_apply, lookup, Store.get_put]
      exact ih hput

theorem Encoded.deleteTxs (h : Encoded cache db) (txIds : List TxId) :
    Encoded ({ cache with txs := cache.txs.deleteAll txIds } : ChainCacheRocksDB Tx)
      (txIds.foldl (fun db txId => db.delete (serializeId txId)) db) := by
  induction txIds generalizing cache db with
  | nil => exact h
  | cons txId rest ih => exact ih (h.deleteTx txId)

theorem lookup_putKeys (id parentId : BlockId) (height : ℕ) (txIds : List TxId) :
    lookup ({ cache with
      parents := cache.parents.put id parentId
      children := cache.children.put parentId id
      heights := cache.heights.put id height
      txIds := cache.txIds.put id txIds } : ChainCacheRocksDB Tx) =
    Function.update (Function.update (Function.update (Function.update cache.lookup
      (.block .parent id) (some (serializeId parentId)))
      (.block .child parentId) (some (serializeId id)))
      (.block .height id) (some (Bincode.uint 4 height)))
      (.block .transactions id) (some (serializeTxIds txIds)) := by
  funext key
  rcases key with ⟨_ | _ | _ | _, id⟩ | id | _ | _ <;>
    simp [Function.update_apply, lookup, Store.map_get_put]

theorem lookup_deleteKeys (id : BlockId) :
    lookup ({ cache with
      txIds := cache.txIds.delete id
      heights := cache.heights.delete id
      parents := cache.parents.delete id
      children := cache.children.delete id } : ChainCacheRocksDB Tx) =
    Function.update (Function.update (Function.update (Function.update cache.lookup
      (.block .transactions id) none)
      (.block .height id) none)
      (.block .parent id) none)
      (.block .child id) none := by
  funext key
  rcases key with ⟨_ | _ | _ | _, id⟩ | id | _ | _ <;>
    simp [Function.update_apply, lookup, Store.map_get_delete]

theorem Encoded.setBest (h : Encoded cache db) (record : BlockRecord) :
    Encoded ({ cache with bestBlock := some record } : ChainCacheRocksDB Tx)
      (db.write bestBlockKey record.serialize) := by
  apply h.write .bestBlock
  funext key
  rcases key with ⟨_ | _ | _ | _, id⟩ | id | _ | _ <;> simp [lookup]

theorem Encoded.setOldest (h : Encoded cache db) (record : BlockRecord) :
    Encoded ({ cache with oldestBlock := some record } : ChainCacheRocksDB Tx)
      (db.write oldestBlockKey record.serialize) := by
  apply h.write .oldestBlock
  funext key
  rcases key with ⟨_ | _ | _ | _, id⟩ | id | _ | _ <;> simp [lookup]

variable [SigmaTransaction Tx]

theorem Encoded.putBlock (h : Encoded cache db) (block : Block Tx) :
    Encoded (cache.putBlock block) (OnBytes.putBlock db block) := by
  have hparent := Database.Encodes.write keys_injective h (.block .parent block.id) trivial
    (serializeId block.parentId)
  have hchild := hparent.write keys_injective (.block .child block.parentId) trivial
    (serializeId block.id)
  have hheight := hchild.write keys_injective (.block .height block.id) trivial
    (Bincode.uint 4 block.height)
  have htxIds := hheight.write keys_injective (.block .transactions block.id) trivial
    (serializeTxIds block.txIds)
  rw [← lookup_putKeys] at htxIds
  have htxs := Encoded.writeTxs htxIds block.txEntries
  exact htxs.setBest block.record

omit [SigmaTransaction Tx] in
theorem Encoded.deleteBlock (h : Encoded cache db) (oldestId : BlockId) (txIds : List TxId) :
    Encoded (cache.deleteBlock oldestId txIds) (OnBytes.deleteBlock db oldestId txIds) := by
  have htxs := h.deleteTxs txIds
  let taken : ChainCacheRocksDB Tx := { cache with txs := cache.txs.deleteAll txIds }
  show Encoded ({ taken with
    txIds := taken.txIds.delete oldestId
    heights := taken.heights.delete oldestId
    parents := taken.parents.delete oldestId
    children := taken.children.delete oldestId } : ChainCacheRocksDB Tx) _
  rw [Encoded, lookup_deleteKeys]
  have htxIds := Database.Encodes.delete keys_injective htxs (.block .transactions oldestId) trivial
  have hheight := htxIds.delete keys_injective (.block .height oldestId) trivial
  have hparent := hheight.delete keys_injective (.block .parent oldestId) trivial
  exact hparent.delete keys_injective (.block .child oldestId) trivial

end Encoded

/-! ## Calls -/

namespace Fits

variable {cache : ChainCacheRocksDB Tx} [SigmaTransaction Tx]

theorem putBlock {block : Block Tx} (h : cache.Fits) (hblock : block.InRange) :
    (cache.putBlock block).Fits where
  heights := Store.forall_get_put hblock.height h.heights
  txIds := Store.forall_get_put (by simpa [Block.txIds] using hblock.transactions) h.txIds
  best := by
    rintro record ⟨⟩
    exact hblock.height
  oldest := h.oldest

omit [SigmaTransaction Tx] in
theorem deleteBlock (h : cache.Fits) (oldestId : BlockId) (txIds : List TxId) :
    (cache.deleteBlock oldestId txIds).Fits where
  heights := Store.forall_get_delete h.heights
  txIds := Store.forall_get_delete h.txIds
  best := h.best
  oldest := h.oldest

omit [SigmaTransaction Tx] in
theorem setOldest (h : cache.Fits) {record : BlockRecord} (hrecord : record.height < 2 ^ 32) :
    Fits ({ cache with oldestBlock := some record } : ChainCacheRocksDB Tx) where
  heights := h.heights
  txIds := h.txIds
  best := h.best
  oldest := by
    rintro _ ⟨⟩
    exact hrecord

end Fits

/-- The bytes hold what the stores hold. -/
structure Represents (cache : ChainCacheRocksDB Tx) (onBytes : OnBytes Tx) : Prop where
  encoded : Encoded cache onBytes.db
  depth : onBytes.maxRollbackDepth = cache.maxRollbackDepth
  fits : cache.Fits

open Outcome (Coupled unwrap)

section Calls

variable {cache : ChainCacheRocksDB Tx} {db : Database UInt8 Bytes} {onBytes : OnBytes Tx}

/-- What was written is read back. -/
theorem fetch_eq {α : Type} {key : Bytes} {serialize : α → Bytes} {deserialize : Bytes → Option α}
    {stored : Option α} (hread : db.read key = stored.map serialize)
    (hstored : ∀ a, stored = some a → deserialize (serialize a) = some a) :
    fetch db key deserialize = unwrap stored := by
  rw [fetch, hread]
  cases stored with
  | none => rfl
  | some a => exact congrArg unwrap (hstored a rfl)

theorem Encoded.fetch_parent (h : Encoded cache db) (id : BlockId) :
    fetch db (postfixedKey id parentPostfix) deserializeId = unwrap (cache.parents.get id) :=
  fetch_eq (h (.block .parent id) trivial) fun parentId _ => deserializeId_serializeId parentId

theorem Encoded.fetch_child (h : Encoded cache db) (id : BlockId) :
    fetch db (postfixedKey id childPostfix) deserializeId = unwrap (cache.children.get id) :=
  fetch_eq (h (.block .child id) trivial) fun childId _ => deserializeId_serializeId childId

theorem Encoded.fetch_height (h : Encoded cache db) (hfits : cache.Fits) (id : BlockId) :
    fetch db (postfixedKey id heightPostfix) deserializeU32 = unwrap (cache.heights.get id) :=
  fetch_eq (h (.block .height id) trivial) fun height hget =>
    deserializeU32_uint (hfits.heights id height hget)

theorem Encoded.fetch_txIds (h : Encoded cache db) (hfits : cache.Fits) (id : BlockId) :
    fetch db (postfixedKey id transactionPostfix) deserializeTxIds =
      unwrap (cache.txIds.get id) :=
  fetch_eq (h (.block .transactions id) trivial) fun txIds hget =>
    deserializeTxIds_serializeTxIds (hfits.txIds id txIds hget)

theorem Represents.blockExists (h : Represents cache onBytes) (blockId : BlockId) :
    onBytes.blockExists blockId = cache.blockExists blockId := by
  have hread : onBytes.db.read (postfixedKey blockId heightPostfix) =
      (cache.heights.get blockId).map (Bincode.uint 4) := h.encoded (.block .height blockId) trivial
  rw [OnBytes.blockExists, hread, Option.isSome_map]
  rfl

theorem Represents.read_best (h : Represents cache onBytes) :
    onBytes.db.read bestBlockKey = cache.bestBlock.map BlockRecord.serialize :=
  h.encoded .bestBlock trivial

theorem Represents.getBestBlock (h : Represents cache onBytes) :
    onBytes.getBestBlock = cache.getBestBlock := by
  rw [OnBytes.getBestBlock, h.read_best, ChainCacheRocksDB.getBestBlock]
  cases hbest : cache.bestBlock with
  | none => rfl
  | some best =>
      rw [Option.map_some, Option.bind_some]
      exact BlockRecord.deserialize_serialize (h.fits.best best hbest)

variable [SigmaTransaction Tx]

theorem Represents.appendBlock (h : Represents cache onBytes) {block : Block Tx}
    (hblock : block.InRange) :
    Coupled Represents (cache.appendBlock block) (onBytes.appendBlock block) := by
  have hput : Encoded (cache.putBlock block) (OnBytes.putBlock onBytes.db block) :=
    h.encoded.putBlock block
  have hfits := h.fits.putBlock hblock
  have hread : (OnBytes.putBlock onBytes.db block).read oldestBlockKey =
      cache.oldestBlock.map BlockRecord.serialize := hput .oldestBlock trivial
  unfold ChainCacheRocksDB.appendBlock OnBytes.appendBlock
  dsimp only
  rw [hread]
  cases holdest : cache.oldestBlock with
  | none => exact Coupled.ok ⟨hput.setOldest block.record, h.depth, hfits.setOldest hblock.height⟩
  | some oldest =>
      have holdestFits : oldest.height < 2 ^ 32 := h.fits.oldest oldest holdest
      rw [Option.map_some]
      dsimp only
      rw [BlockRecord.deserialize_serialize holdestFits, h.depth]
      apply Coupled.same_bind
      intro rise _
      split
      case isFalse => exact Coupled.ok ⟨hput, rfl, hfits⟩
      case isTrue =>
        rw [hput.fetch_child]
        apply Coupled.same_bind
        intro newOldestId _
        apply Coupled.same_bind
        intro newOldestHeight hheight
        obtain ⟨hlt, rfl⟩ := Outcome.checkedAdd_eq_ok.mp hheight
        have hoverwritten := hput.setOldest ⟨newOldestId, oldest.height + 1⟩
        rw [hoverwritten.fetch_txIds (hfits.setOldest hlt)]
        apply Coupled.same_bind
        intro txIds _
        exact Coupled.ok ⟨hoverwritten.deleteBlock oldest.id txIds, rfl,
          (hfits.setOldest hlt).deleteBlock oldest.id txIds⟩

/-- The loop hands out the same transactions, and deletes the same. -/
theorem Encoded.takeTransactions (h : Encoded cache db) (txIds : List TxId) :
    Coupled (fun (taken : List Tx × Store TxId Bytes) (taken' : List Tx × Database UInt8 Bytes) =>
        taken.1 = taken'.1 ∧
          Encoded ({ cache with txs := taken.2 } : ChainCacheRocksDB Tx) taken'.2)
      (ChainCacheRocksDB.takeTransactions cache.txs txIds : Outcome Empty _)
      (OnBytes.takeTransactions db txIds) := by
  induction txIds generalizing cache db with
  | nil => exact Coupled.ok ⟨rfl, h⟩
  | cons txId rest ih =>
      have hread : db.read (serializeId txId) = cache.txs.get txId := h (.tx txId) trivial
      rw [ChainCacheRocksDB.takeTransactions, OnBytes.takeTransactions, hread]
      apply Coupled.same_bind
      intro txBytes _
      apply Coupled.same_bind
      intro tx _
      apply Coupled.bind (ih (h.deleteTx txId))
      rintro ⟨transactions, txs⟩ ⟨_, db'⟩ ⟨rfl, hrest⟩
      exact Coupled.ok ⟨rfl, hrest⟩

omit [SigmaTransaction Tx] in
/-- The parent becomes the best block of both, if it is there. -/
theorem Encoded.putNewBest (h : Encoded cache db) (hfits : cache.Fits) (parentId : BlockId) :
    Coupled (fun bestBlock db' => Encoded ({ cache with bestBlock } : ChainCacheRocksDB Tx) db' ∧
        Fits ({ cache with bestBlock } : ChainCacheRocksDB Tx))
      (cache.newBestBlock parentId) (OnBytes.putNewBest (db.delete bestBlockKey) parentId) := by
  have hdeleted : Encoded ({ cache with bestBlock := none } : ChainCacheRocksDB Tx)
      (db.delete bestBlockKey) := by
    apply h.delete .bestBlock
    funext key
    rcases key with ⟨_ | _ | _ | _, id⟩ | id | _ | _ <;> simp [lookup]
  have hparent : (db.delete bestBlockKey).read (postfixedKey parentId parentPostfix) =
      (cache.parents.get parentId).map serializeId := hdeleted (.block .parent parentId) trivial
  unfold ChainCacheRocksDB.newBestBlock OnBytes.putNewBest
  rw [hparent]
  cases cache.parents.get parentId with
  | none => exact Coupled.ok ⟨hdeleted, hfits.heights, hfits.txIds, nofun, hfits.oldest⟩
  | some _ =>
      rw [Option.map_some]
      dsimp only
      rw [hdeleted.fetch_height ⟨hfits.heights, hfits.txIds, nofun, hfits.oldest⟩]
      apply Coupled.same_bind
      intro height hget
      refine Coupled.ok ⟨?_, hfits.heights, hfits.txIds, ?_, hfits.oldest⟩
      · exact hdeleted.setBest ⟨parentId, height⟩
      · rintro _ ⟨⟩
        exact hfits.heights _ height (Outcome.unwrap_eq_ok.mp hget)

theorem Represents.takeBestBlock (h : Represents cache onBytes) :
    Coupled (fun (taken : Option (Block Tx) × ChainCacheRocksDB Tx) taken' =>
        taken.1 = taken'.1 ∧ Represents taken.2 taken'.2)
      cache.takeBestBlock onBytes.takeBestBlock := by
  unfold ChainCacheRocksDB.takeBestBlock OnBytes.takeBestBlock
  rw [h.read_best]
  cases hbest : cache.bestBlock with
  | none => exact Coupled.ok ⟨rfl, h⟩
  | some best =>
      have hread : onBytes.db.read (postfixedKey best.id transactionPostfix) =
          (cache.txIds.get best.id).map serializeTxIds :=
        h.encoded (.block .transactions best.id) trivial
      rw [Option.map_some]
      dsimp only
      rw [BlockRecord.deserialize_serialize (h.fits.best best hbest)]
      show Coupled _ _ (match onBytes.db.read (postfixedKey best.id transactionPostfix) with
        | some bytes => _
        | none => _)
      rw [hread]
      cases htxIds : cache.txIds.get best.id with
      | none => exact Coupled.ok ⟨rfl, h⟩
      | some txIds =>
          rw [Option.map_some]
          dsimp only
          rw [deserializeTxIds_serializeTxIds (h.fits.txIds _ txIds htxIds)]
          apply Coupled.bind (h.encoded.takeTransactions txIds)
          rintro ⟨transactions, txs⟩ ⟨_, db⟩ ⟨rfl, htaken⟩
          dsimp only
          rw [htaken.fetch_parent]
          apply Coupled.same_bind
          intro parentId _
          have hfits : Fits ({ cache with txs } : ChainCacheRocksDB Tx) :=
            ⟨h.fits.heights, h.fits.txIds, h.fits.best, h.fits.oldest⟩
          apply Coupled.bind (htaken.putNewBest hfits parentId)
          rintro bestBlock db' ⟨hencoded, hfits'⟩
          exact Coupled.ok ⟨rfl, hencoded, h.depth, hfits'⟩

end Calls

end ChainCacheRocksDB

/-! ## The synchroniser -/

namespace ChainSync

open ChainCacheRocksDB (OnBytes Represents)

open Outcome (Coupled)

/-- What happens to a synchroniser: the node answers for `next_height`, or it is started again. -/
inductive SyncEvent (Tx : Type) where
  | answer (answer : Except NodeError (FullBlock Tx))
  | restart

/-- The blocks that the node answers are in range. -/
def SyncEvent.InRange {Tx : Type} : SyncEvent Tx → Prop
  | answer (.ok apiBlk) => apiBlk.toBlock.InRange
  | answer (.error _) => True
  | restart => True

section Upgrades

variable {Tx Cache : Type} [ChainCache Cache Tx]

/-- What the calls of `try_upgrade` end in.  After a panic the synchroniser is started again on the
database as it was. -/
def upgrades : List (SyncEvent Tx) → ChainSync Cache →
    List (Outcome Empty (Option (ChainUpgrade Tx)))
  | [], _ => []
  | .restart :: events, sync => upgrades events (init sync.startingHeight sync.cache)
  | .answer answer :: events, sync =>
      match sync.tryUpgrade answer with
      | .ok (out, sync) => .ok out :: upgrades events sync
      | .err e => [.err e]
      | .crash => .crash :: upgrades events (init sync.startingHeight sync.cache)

end Upgrades

variable {Tx : Type} [SigmaTransaction Tx]

/-- The two synchronisers are at one point, over the stores and over their bytes. -/
structure Mirrors (sync : ChainSync (ChainCacheRocksDB Tx)) (onBytes : ChainSync (OnBytes Tx)) :
    Prop where
  starting : onBytes.startingHeight = sync.startingHeight
  next : onBytes.nextHeight = sync.nextHeight
  cache : Represents sync.cache onBytes.cache

theorem mirrors_init {cache : ChainCacheRocksDB Tx} {onBytes : OnBytes Tx}
    (h : Represents cache onBytes) (startingHeight : ℕ) :
    Mirrors (init startingHeight cache) (init startingHeight onBytes) where
  starting := rfl
  next := by
    have hbest : ChainCache.getBestBlock onBytes = ChainCache.getBestBlock cache := h.getBestBlock
    rw [init, init, hbest]
  cache := h

variable {sync : ChainSync (ChainCacheRocksDB Tx)} {onBytes : ChainSync (OnBytes Tx)}

theorem Mirrors.restart (h : Mirrors sync onBytes) :
    Mirrors (init sync.startingHeight sync.cache)
      (init onBytes.startingHeight onBytes.cache) := by
  rw [h.starting]
  exact mirrors_init h.cache sync.startingHeight

/-- A call ends in the same upgrade over both, or in a panic of both. -/
theorem Mirrors.tryUpgrade (h : Mirrors sync onBytes) {answer : Except NodeError (FullBlock Tx)}
    (hanswer : (SyncEvent.answer answer).InRange) :
    Coupled (fun upgraded upgraded' => upgraded.1 = upgraded'.1 ∧ Mirrors upgraded.2 upgraded'.2)
      (sync.tryUpgrade answer) (onBytes.tryUpgrade answer) := by
  cases answer with
  | error e => exact Coupled.ok ⟨rfl, h⟩
  | ok apiBlk =>
      have hlinked : ChainCache.blockExists onBytes.cache apiBlk.header.parentId =
          ChainCache.blockExists sync.cache apiBlk.header.parentId := h.cache.blockExists _
      unfold ChainSync.tryUpgrade
      dsimp only
      rw [hlinked, h.starting, h.next]
      split
      case isTrue =>
        apply Coupled.bind (h.cache.appendBlock hanswer)
        intro cache cache' hcache
        apply Coupled.same_bind
        intro nextHeight _
        exact Coupled.ok ⟨rfl, rfl, rfl, hcache⟩
      case isFalse =>
        apply Coupled.bind h.cache.takeBestBlock
        rintro ⟨discarded, cache⟩ ⟨_, cache'⟩ ⟨rfl, hcache⟩
        cases discarded with
        | none => exact Coupled.ok ⟨rfl, rfl, rfl, hcache⟩
        | some blk =>
            apply Coupled.same_bind
            intro nextHeight _
            exact Coupled.ok ⟨rfl, rfl, rfl, hcache⟩

theorem Mirrors.upgrades (h : Mirrors sync onBytes) {events : List (SyncEvent Tx)}
    (hevents : ∀ event ∈ events, event.InRange) :
    ChainSync.upgrades events onBytes = ChainSync.upgrades events sync := by
  induction events generalizing sync onBytes with
  | nil => rfl
  | cons event rest ih =>
      obtain ⟨hevent, hrest⟩ := List.forall_mem_cons.mp hevents
      cases event with
      | restart => exact ih h.restart hrest
      | answer answer =>
          have hcall := h.tryUpgrade hevent
          rw [ChainSync.upgrades, ChainSync.upgrades]
          generalize sync.tryUpgrade answer = upgraded at hcall
          generalize onBytes.tryUpgrade answer = upgraded' at hcall
          cases hcall with
          | ok hsame =>
              dsimp only
              rw [hsame.1, ih hsame.2 hrest]
          | err e => rfl
          | crash =>
              dsimp only
              rw [ih h.restart hrest]

open Sample

end ChainSync

end SpectrumOffchain
