import SpectrumOffchain.ChainSync.InMemory
import SpectrumOffchain.ChainSync.RocksDB

/-!
# The persistent cache against the reference cache

Both caches are driven by one sequence of calls.  They answer alike as long as nothing
depends on what the persistent cache keeps of a block that was taken off: its `:h` key,
which `exists` reads, its `:p` key, which `take_best_block` reads for the parent of the
lowest block, and OLDEST_BLOCK, which may name it still.  The reference cache removes
such a block altogether.

Timestamps are not compared: the persistent cache does not keep them.

## Strategy

Both caches are compared with a list, the blocks that were appended and not taken off
(`live`), and with the ids of the blocks that were taken off (`takenOff`).  The reference
cache holds the list.  The persistent one stores every block of the list, and beyond that
its heights and parents are those of the blocks in either of the two (`Alike.heights`,
`Alike.parents`), which is exactly what `Clean` has to keep a call away from.

`Alike.exec` compares the answers of one call, and `Alike.step` keeps the description.
-/

namespace SpectrumOffchain.ChainSync

open Transition

variable {Tx : Type}

/-- A call of a method of `ChainCache`. -/
inductive CacheCall (Tx : Type) where
  | appendBlock (block : Block Tx)
  | takeBestBlock
  | blockExists (blockId : BlockId)
  | getBestBlock

inductive CacheAnswer (Tx : Type) where
  | appended
  | taken (block : Option (Block Tx))
  | found (linked : Bool)
  | best (record : Option BlockRecord)

/-- The answer and the cache after a call. -/
def CacheCall.exec {Cache : Type} [ChainCache Cache Tx] (call : CacheCall Tx) (cache : Cache) :
    Outcome Empty (CacheAnswer Tx × Cache) :=
  match call with
  | appendBlock block => do
      let cache ← ChainCache.appendBlock cache block
      pure (.appended, cache)
  | takeBestBlock => do
      let (block, cache) ← ChainCache.takeBestBlock cache
      pure (.taken block, cache)
  | blockExists blockId => pure (.found (ChainCache.blockExists cache blockId), cache)
  | getBestBlock => pure (.best (ChainCache.getBestBlock cache), cache)

theorem CacheCall.exec_takeBestBlock {Cache : Type} [ChainCache Cache Tx] {cache cache' : Cache}
    {block : Option (Block Tx)} (h : ChainCache.takeBestBlock cache = .ok (block, cache')) :
    CacheCall.takeBestBlock.exec cache = .ok (.taken block, cache') := by
  rw [exec, h]
  rfl

theorem CacheCall.exec_appendBlock {Cache : Type} [ChainCache Cache Tx] {cache cache' : Cache}
    {block : Block Tx} (h : ChainCache.appendBlock cache block = .ok cache') :
    (CacheCall.appendBlock block).exec cache = .ok (.appended, cache') := by
  rw [exec, h]
  rfl

/-- The answer with the timestamp of a block left out. -/
def CacheAnswer.untimed : CacheAnswer Tx → CacheAnswer Tx
  | taken block => taken (block.map fun b => { b with timestamp := 0 })
  | answer => answer

variable [SigmaTransaction Tx]

/-- The two caches, and what the calls so far have made of the chain. -/
structure Caches (Tx : Type) where
  memory : InMemoryCache Tx
  db : ChainCacheRocksDB Tx
  /-- The blocks appended and not taken off, the best one first. -/
  live : List (Block Tx)
  /-- The blocks taken off and not appended again. -/
  takenOff : List BlockId

namespace Caches

/-- Empty caches. -/
def new (maxRollbackDepth : ℕ) : Caches Tx :=
  ⟨InMemoryCache.new, ChainCacheRocksDB.new maxRollbackDepth, [], []⟩

/-- An appended block is a child of the best block, one above it; ids are distinct along
the chain, and the chain stays within `max_rollback_depth`. -/
def Admits (s : Caches Tx) : CacheCall Tx → Prop
  | .appendBlock b =>
      (b :: s.live).IsChain Block.Follows ∧ ((b :: s.live).map Block.id).Nodup ∧
        ((b :: s.live).flatMap Block.txIds).Nodup ∧ (b :: s.live).length ≤ s.db.maxRollbackDepth
  | _ => True

/-- What the call does to the chain. -/
def advance (s : Caches Tx) : CacheCall Tx → List (Block Tx) × List BlockId
  | .appendBlock b => (b :: s.live, s.takenOff.filter (· ≠ b.id))
  | .takeBestBlock =>
      match s.live with
      | [] => ([], s.takenOff)
      | tip :: rest => (rest, tip.id :: s.takenOff)
  | _ => (s.live, s.takenOff)

/-- An admissible call from which both caches return. -/
def Step (s : Caches Tx) (call : CacheCall Tx) (s' : Caches Tx) : Prop :=
  s.Admits call ∧ (∃ answer, call.exec s.memory = .ok (answer, s'.memory)) ∧
    (∃ answer, call.exec s.db = .ok (answer, s'.db)) ∧ (s'.live, s'.takenOff) = s.advance call

/-- The call does not come across what is left of a block that was taken off: it does not
ask for such a block, the lowest block is not taken off over such a parent, and OLDEST_BLOCK
does not make an append prune. -/
def Clean (s : Caches Tx) : CacheCall Tx → Prop
  | .appendBlock b => ∀ oldest, s.db.oldestBlock = some oldest →
      oldest.height ≤ b.height ∧ b.height - oldest.height ≠ s.db.maxRollbackDepth
  | .takeBestBlock => ∀ b, s.live = [b] → b.parentId ≠ b.id ∧ b.parentId ∉ s.takenOff
  | .blockExists blockId => blockId ∉ s.takenOff
  | .getBestBlock => True

/-- Both caches hold the chain, and the persistent one also knows the blocks taken off. -/
structure Alike (s : Caches Tx) : Prop where
  linked : s.live.IsChain Block.Follows
  ids : (s.live.map Block.id).Nodup
  distinct : (s.live.flatMap Block.txIds).Nodup
  holds : s.memory.Holds s.live
  best : s.db.bestBlock = s.live.head?.map Block.record
  stores : ∀ b ∈ s.live, s.db.Stores b
  heights : ∀ id, (s.db.heights.get id).isSome ↔ id ∈ s.live.map Block.id ∨ id ∈ s.takenOff
  parents : ∀ id, (s.db.parents.get id).isSome ↔ id ∈ s.live.map Block.id ∨ id ∈ s.takenOff

/-- The two caches return from the call with the same answer. -/
def Agree (s : Caches Tx) (call : CacheCall Tx) : Prop :=
  ∃ answer answer' memory db, call.exec s.memory = .ok (answer, memory) ∧
    call.exec s.db = .ok (answer', db) ∧ answer.untimed = answer'.untimed

namespace Alike

variable {s : Caches Tx} {tip b : Block Tx} {rest : List (Block Tx)}

theorem new (maxRollbackDepth : ℕ) : (Caches.new maxRollbackDepth : Caches Tx).Alike where
  linked := List.IsChain.nil
  ids := List.nodup_nil
  distinct := List.nodup_nil
  holds := InMemoryCache.Holds.new
  best := rfl
  stores := by simp [Caches.new]
  heights := by simp [Caches.new, ChainCacheRocksDB.new]
  parents := by simp [Caches.new, ChainCacheRocksDB.new]

/-- A clean append only puts the block, and sets OLDEST_BLOCK if it is the first. -/
theorem appendBlock (hclean : s.Clean (.appendBlock b)) :
    ∃ oldestBlock, s.db.appendBlock b = .ok { s.db.putBlock b with oldestBlock } := by
  cases holdest : s.db.oldestBlock with
  | none => exact ⟨_, ChainCacheRocksDB.appendBlock_first holdest⟩
  | some oldest =>
      obtain ⟨hle, hrise⟩ := hclean oldest holdest
      exact ⟨some oldest, by
        rw [ChainCacheRocksDB.appendBlock_below holdest hle hrise, ← holdest]
        rfl⟩

/-- Of the blocks known under a kind of key, a put adds the new one. -/
theorem isSome_put {ν : Type} {store : Store BlockId ν} {live : List BlockId}
    {takenOff : List BlockId} (h : ∀ id, (store.get id).isSome ↔ id ∈ live ∨ id ∈ takenOff)
    (new : BlockId) (v : ν) (id : BlockId) :
    ((store.put new v).get id).isSome ↔
      id ∈ new :: live ∨ id ∈ takenOff.filter (· ≠ new) := by
  rw [Store.get_put, List.mem_cons, List.mem_filter]
  by_cases hid : id = new
  · simp [hid]
  · simp [hid, h]

theorem appended (h : s.Alike) (hadmits : s.Admits (.appendBlock b))
    (oldestBlock : Option BlockRecord) :
    Alike ⟨s.memory.appendBlock b, { s.db.putBlock b with oldestBlock }, b :: s.live,
      s.takenOff.filter (· ≠ b.id)⟩ := by
  obtain ⟨hlinked, hids, hdistinct, -⟩ := hadmits
  have hfresh : ∀ b' ∈ s.live, b'.id ≠ b.id := by
    intro b' hb' hid
    rw [List.map_cons, List.nodup_cons] at hids
    exact hids.1 (hid ▸ List.mem_map_of_mem hb')
  refine ⟨hlinked, hids, hdistinct, h.holds.appendBlock hfresh, rfl, ?_, ?_, ?_⟩
  · intro b' hb'
    obtain ⟨hself, hothers⟩ := ChainCacheRocksDB.distinct_cons hdistinct
    have hstored : (s.db.putBlock b).Stores b' := by
      rcases List.mem_cons.mp hb' with rfl | hb'
      · exact ChainCacheRocksDB.stores_putBlock hself
      · exact (h.stores b' hb').putBlock (hfresh b' hb') (hothers b' hb')
    exact ⟨hstored.parent, hstored.height, hstored.txIds, hstored.txs⟩
  · exact isSome_put h.heights b.id b.height
  · exact isSome_put h.parents b.id b.parentId

/-- Both caches give back the best block of a chain. -/
theorem takeBestBlock (h : s.Alike) (hlive : s.live = tip :: rest)
    (hclean : s.Clean .takeBestBlock) :
    ∃ memory txs, s.memory.takeBestBlock = (some tip, memory) ∧
      s.db.takeBestBlock = .ok (some { tip with timestamp := 0 },
        { s.db with txs, bestBlock := rest.head?.map Block.record }) ∧
      Alike ⟨memory, { s.db with txs, bestBlock := rest.head?.map Block.record }, rest,
        tip.id :: s.takenOff⟩ := by
  obtain ⟨hself, hothers⟩ := ChainCacheRocksDB.distinct_cons (hlive ▸ h.distinct)
  have hlinked : (tip :: rest).IsChain Block.Follows := hlive ▸ h.linked
  have hids : ((tip :: rest).map Block.id).Nodup := hlive ▸ h.ids
  rw [List.map_cons, List.nodup_cons] at hids
  have hfresh : ∀ b ∈ rest, b.id ≠ tip.id := by
    intro b hb hid
    exact hids.1 (hid ▸ List.mem_map_of_mem hb)
  have hstored : s.db.Stores tip := h.stores tip (hlive ▸ List.mem_cons_self)
  have hbest : s.db.bestBlock = some tip.record := by rw [h.best, hlive]; rfl
  have hlowest : rest = [] → tip.parentId ≠ tip.id ∧ tip.parentId ∉ s.takenOff := by
    rintro rfl
    exact hclean tip hlive
  obtain ⟨memory, hmemory, hholds⟩ := (hlive ▸ h.holds).takeBestBlock_cons hlinked hfresh
    fun hrest => (hlowest hrest).1
  have hnew : s.db.newBestBlock tip.parentId = .ok (rest.head?.map Block.record) := by
    cases rest with
    | nil =>
        -- the parent is neither live nor left over
        apply ChainCacheRocksDB.newBestBlock_of_none
        rw [← Option.not_isSome_iff_eq_none, h.parents, hlive]
        simpa using hlowest rfl
    | cons p rest =>
        obtain ⟨hfollows, -⟩ := List.isChain_cons_cons.mp hlinked
        rw [hfollows.1]
        apply ChainCacheRocksDB.newBestBlock_of_stores
        exact h.stores p (by rw [hlive]; exact List.mem_cons_of_mem _ List.mem_cons_self)
  refine ⟨memory, _, hmemory, ChainCacheRocksDB.takeBestBlock_eq hbest hstored hself hnew, ?_⟩
  have hdistinct : ((tip :: rest).flatMap Block.txIds).Nodup := hlive ▸ h.distinct
  rw [List.flatMap_cons, List.nodup_append] at hdistinct
  -- what is left of the block keeps its keys known
  have hknown : ∀ id, id ∈ s.live.map Block.id ∨ id ∈ s.takenOff ↔
      id ∈ rest.map Block.id ∨ id ∈ tip.id :: s.takenOff := by
    intro id
    rw [hlive, List.map_cons, List.mem_cons, List.mem_cons]
    tauto
  refine ⟨hlinked.tail, hids.2, hdistinct.2.1, hholds, rfl, ?_, ?_, ?_⟩
  · intro b hb
    exact (h.stores b (hlive ▸ List.mem_cons_of_mem _ hb)).deleteTxs (hothers b hb) _
  · exact fun id => (h.heights id).trans (hknown id)
  · exact fun id => (h.parents id).trans (hknown id)

theorem takeBestBlock_nil (h : s.Alike) (hlive : s.live = []) :
    s.memory.takeBestBlock = (none, s.memory) ∧ s.db.takeBestBlock = .ok (none, s.db) := by
  refine ⟨(hlive ▸ h.holds).takeBestBlock_nil, ?_⟩
  apply ChainCacheRocksDB.takeBestBlock_of_none
  rw [h.best, hlive]
  rfl

/-- A block that is not left over counts as linked in both caches or in neither. -/
theorem blockExists (h : s.Alike) {blockId : BlockId} (hclean : s.Clean (.blockExists blockId)) :
    s.memory.blockExists blockId = s.db.blockExists blockId := by
  have hleft : blockId ∉ s.takenOff := hclean
  rw [InMemoryCache.blockExists, ChainCacheRocksDB.blockExists, Bool.eq_iff_iff,
    h.holds.isSome_get, h.heights, or_iff_left hleft]

theorem getBestBlock (h : s.Alike) : s.memory.getBestBlock = s.db.getBestBlock := by
  rw [InMemoryCache.getBestBlock, ChainCacheRocksDB.getBestBlock, h.holds.best, h.best,
    Option.map_map]
  rfl

/-- A clean call is answered alike, and the caches go on holding the same chain. -/
theorem exec (h : s.Alike) {call : CacheCall Tx} (hadmits : s.Admits call)
    (hclean : s.Clean call) :
    ∃ answer answer' memory db, call.exec s.memory = .ok (answer, memory) ∧
      call.exec s.db = .ok (answer', db) ∧ answer.untimed = answer'.untimed ∧
      Alike ⟨memory, db, (s.advance call).1, (s.advance call).2⟩ := by
  cases call with
  | appendBlock b =>
      obtain ⟨oldestBlock, happend⟩ := appendBlock hclean
      exact ⟨_, _, _, _, CacheCall.exec_appendBlock rfl, CacheCall.exec_appendBlock happend, rfl,
        h.appended hadmits oldestBlock⟩
  | takeBestBlock =>
      cases hlive : s.live with
      | nil =>
          obtain ⟨hmemory, hdb⟩ := h.takeBestBlock_nil hlive
          have hadvance : s.advance .takeBestBlock = (s.live, s.takenOff) := by
            rw [advance, hlive]
          rw [hadvance]
          exact ⟨_, _, _, _, CacheCall.exec_takeBestBlock (congrArg Outcome.ok hmemory),
            CacheCall.exec_takeBestBlock hdb, rfl, h⟩
      | cons tip rest =>
          obtain ⟨memory, txs, hmemory, hdb, halike⟩ := h.takeBestBlock hlive hclean
          have hadvance : s.advance .takeBestBlock = (rest, tip.id :: s.takenOff) := by
            rw [advance, hlive]
          rw [hadvance]
          exact ⟨_, _, _, _, CacheCall.exec_takeBestBlock (congrArg Outcome.ok hmemory),
            CacheCall.exec_takeBestBlock hdb, rfl, halike⟩
  | blockExists blockId =>
      refine ⟨_, _, s.memory, s.db, rfl, rfl, ?_, h⟩
      exact congrArg CacheAnswer.untimed (congrArg CacheAnswer.found (h.blockExists hclean))
  | getBestBlock =>
      refine ⟨_, _, s.memory, s.db, rfl, rfl, ?_, h⟩
      exact congrArg CacheAnswer.untimed (congrArg CacheAnswer.best h.getBestBlock)

theorem step {s' : Caches Tx} {call : CacheCall Tx} (h : s.Alike)
    (hstep : restrict Step Clean s call s') : s'.Alike := by
  obtain ⟨⟨hadmits, ⟨answer, hmemory⟩, ⟨answer', hdb⟩, hadvance⟩, hclean⟩ := hstep
  obtain ⟨_, _, memory, db, hmemory', hdb', -, halike⟩ := h.exec hadmits hclean
  rw [hmemory] at hmemory'
  rw [hdb] at hdb'
  cases hmemory'
  cases hdb'
  rw [← hadvance] at halike
  exact halike

end Alike

end Caches

/-- In clean runs from empty caches every call is answered alike. -/
theorem agree_of_clean {maxRollbackDepth : ℕ} {calls : List (CacheCall Tx)} {s : Caches Tx}
    (hrun : Run (restrict Caches.Step Caches.Clean) (Caches.new maxRollbackDepth) calls s)
    {call : CacheCall Tx} (hadmits : s.Admits call) (hclean : s.Clean call) : s.Agree call := by
  have h : s.Alike :=
    Run.invariant (fun _ _ _ h hstep => h.step hstep) hrun (Caches.Alike.new maxRollbackDepth)
  obtain ⟨answer, answer', memory, db, hmemory, hdb, hsame, -⟩ := h.exec hadmits hclean
  exact ⟨answer, answer', memory, db, hmemory, hdb, hsame⟩

/-! ## Samples -/

open Sample

/-- Blocks 1 and 2 are appended and block 2 is taken off. -/
theorem agree_of_clean_sample :
    ∃ s : Caches UInt8, s.live = [(block 1 0 1).toBlock] ∧ s.Agree (.blockExists (blockId 1)) := by
  obtain ⟨memory, db, hrun⟩ : ∃ memory db, Run (restrict Caches.Step Caches.Clean)
      (Caches.new 256 : Caches UInt8)
      [.appendBlock (block 1 0 1).toBlock, .appendBlock (block 2 1 2).toBlock, .takeBestBlock]
      ⟨memory, db, [(block 1 0 1).toBlock], [blockId 2]⟩ :=
    ⟨_, _, Run.cons (t := ⟨_, _, _, _⟩)
        ⟨⟨⟨List.isChain_singleton _, by decide, by decide, by decide⟩, ⟨_, rfl⟩, ⟨_, rfl⟩, rfl⟩,
          by rintro oldest ⟨⟩⟩
      (Run.cons (t := ⟨_, _, _, _⟩)
        ⟨⟨⟨by decide, by decide, by decide, by decide⟩, ⟨_, rfl⟩, ⟨_, rfl⟩, rfl⟩,
          by rintro oldest ⟨⟩; decide⟩
      (Run.single ⟨⟨trivial, ⟨_, rfl⟩, ⟨_, rfl⟩, rfl⟩, by rintro b ⟨⟩⟩))⟩
  have hclean : blockId 1 ∉ [blockId 2] := by decide
  exact ⟨_, rfl, agree_of_clean hrun trivial hclean⟩

/-- Block 1 is appended and taken off: the persistent cache goes on counting it as linked. -/
theorem exists_after_takeBestBlock :
    ¬ ∀ (maxRollbackDepth : ℕ) (calls : List (CacheCall UInt8)) (s : Caches UInt8),
      Run Caches.Step (Caches.new maxRollbackDepth) calls s →
        ∀ call, s.Admits call → s.Agree call := by
  intro h
  obtain ⟨memory, db, hrun, hmemory, hdb⟩ : ∃ memory db, Run Caches.Step
      (Caches.new 256 : Caches UInt8)
      [.appendBlock (block 1 0 1).toBlock, .takeBestBlock]
      ⟨memory, db, [], [blockId 1]⟩ ∧ memory.blockExists (blockId 1) = false ∧
      db.blockExists (blockId 1) = true :=
    ⟨_, _, Run.cons (t := ⟨_, _, _, _⟩)
        ⟨⟨List.isChain_singleton _, by decide, by decide, by decide⟩, ⟨_, rfl⟩, ⟨_, rfl⟩, rfl⟩
      (Run.single ⟨trivial, ⟨_, rfl⟩, ⟨_, rfl⟩, rfl⟩), rfl, rfl⟩
  obtain ⟨answer, answer', _, _, hexec, hexec', hsame⟩ :=
    h 256 _ _ hrun (.blockExists (blockId 1)) trivial
  cases hexec
  cases hexec'
  have hfound : memory.blockExists (blockId 1) = db.blockExists (blockId 1) := by
    injection hsame
  rw [hmemory, hdb] at hfound
  cases hfound

end SpectrumOffchain.ChainSync
