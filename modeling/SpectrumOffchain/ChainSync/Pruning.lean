import SpectrumOffchain.ChainSync.RocksDB

/-!
# Pruning in the persistent cache

`append_block` keeps OLDEST_BLOCK at the lowest live block: when a block comes to stand
`max_rollback_depth` above it, the marker moves to the child and the old oldest block
is deleted.  `take_best_block` does not touch the marker.  So once the whole chain has
been rolled back, the marker names a block that is gone, and it goes on doing so when
another starting block is appended; at the pruning threshold the child link is missing
and `append_block` panics.

The invariant holds in runs that append to an empty chain only the block that the marker
names (`sound_of_anchored`).

## Strategy

`Sound` is about a chain with blocks on it.  Between a complete roll-back and the next
append there are none, and the marker and the parent links of blocks that are gone decide
what happens then, so the invariant of the runs is `Intact`: it agrees with `Sound` while
there are blocks, and says of the marker that the block below it is not in the database.
That is why the lowest block is recognised as such whenever it is taken off.

An append is followed in two parts.  `Grown` is the database after `putBlock`, with the new
block on top; then the marker is moved or not, by the distance of the two heights
(`append_first`, `append_below`, `append_at`).  Only `append_at` deletes, and there the
child link of the bottom block is present because the chain is longer than one.
-/

namespace SpectrumOffchain.ChainSync

open Transition

variable {Tx : Type} [SigmaTransaction Tx] {tree : BlockTree} {start low : ℕ}

/-- A call that changes the cache. -/
inductive CacheOp (Tx : Type) where
  | append (block : Block Tx)
  | take

/-- The database and the live chain: the last `max_rollback_depth` of the blocks that
were appended and not taken off, the best one first. -/
structure PrunedChain (Tx : Type) where
  db : ChainCacheRocksDB Tx
  live : List (Block Tx)

namespace PrunedChain

/-- An empty cache. -/
def new (maxRollbackDepth : ℕ) : PrunedChain Tx := ⟨ChainCacheRocksDB.new maxRollbackDepth, []⟩

/-- The block is one that the synchroniser can append: a child of the best block, or a
starting block when the chain is empty. -/
def Appendable (tree : BlockTree) (start : ℕ) (s : PrunedChain Tx) (b : Block Tx) : Prop :=
  tree.HasChild b ∧ b.height < 2 ^ 32 ∧ Fits start s.live b

/-- A call of the synchroniser that returns. -/
inductive Step (tree : BlockTree) (start : ℕ) (s : PrunedChain Tx) :
    CacheOp Tx → PrunedChain Tx → Prop where
  | append {b : Block Tx} {db : ChainCacheRocksDB Tx} (hb : s.Appendable tree start b)
      (hcall : s.db.appendBlock b = .ok db) :
      Step tree start s (.append b) ⟨db, (b :: s.live).take s.db.maxRollbackDepth⟩
  | take {out : Option (Block Tx)} {db : ChainCacheRocksDB Tx}
      (hcall : s.db.takeBestBlock = .ok (out, db)) : Step tree start s .take ⟨db, s.live.tail⟩

/-- A block appended to an empty chain is the one that OLDEST_BLOCK names, if that is
set.  Some block may be kept at all, and the transactions on the chain are distinct. -/
def Anchored (s : PrunedChain Tx) : CacheOp Tx → Prop
  | .append b =>
      s.db.maxRollbackDepth ≠ 0 ∧
      (s.live = [] → s.db.oldestBlock = none ∨ s.db.oldestBlock = some b.record) ∧
      ((b :: s.live).flatMap Block.txIds).Nodup
  | .take => True

/-- The pruning invariant. -/
structure Sound (s : PrunedChain Tx) : Prop where
  /-- OLDEST_BLOCK names the lowest live block, and BEST_BLOCK the highest. -/
  oldest : s.db.oldestBlock = s.live.getLast?.map Block.record
  best : s.db.bestBlock = s.live.head?.map Block.record
  /-- The child links lead from each live block to the one above it. -/
  children : s.live.IsChain fun b p => s.db.children.get p.id = some b.id
  length_le : s.live.length ≤ s.db.maxRollbackDepth
  stores : ∀ b ∈ s.live, s.db.Stores b

end PrunedChain

/-- What holds of the database between the calls, also while the chain is empty. -/
structure Intact (tree : BlockTree) (low : ℕ) (db : ChainCacheRocksDB Tx)
    (live : List (Block Tx)) : Prop where
  chain : LiveChain tree low live
  distinct : (live.flatMap Block.txIds).Nodup
  oldest : ∀ bottom, live.getLast? = some bottom → db.oldestBlock = some bottom.record
  best : db.bestBlock = live.head?.map Block.record
  children : live.IsChain fun b p => db.children.get p.id = some b.id
  length_le : live.length ≤ db.maxRollbackDepth
  stores : ∀ b ∈ live, db.Stores b
  /-- The block below OLDEST_BLOCK is not in the database. -/
  below : ∀ record, db.oldestBlock = some record →
    db.parents.get record.id = some (tree.parent record.id) ∧
      db.parents.get (tree.parent record.id) = none
  unset : db.oldestBlock = none → ∀ id, db.parents.get id = none

namespace Intact

variable {db : ChainCacheRocksDB Tx} {live rest : List (Block Tx)} {tip b : Block Tx}

theorem new (maxRollbackDepth : ℕ) :
    Intact tree low (ChainCacheRocksDB.new maxRollbackDepth : ChainCacheRocksDB Tx) [] := by
  refine ⟨LiveChain.nil, List.nodup_nil, ?_, rfl, List.IsChain.nil, Nat.zero_le _, ?_, ?_, ?_⟩
  · simp
  · simp
  · intro record hrecord
    cases hrecord
  · intro _ id
    rfl

/-! ### Appending -/

/-- What `putBlock` does to the live chain, before any pruning. -/
structure Grown (tree : BlockTree) (low : ℕ) (db : ChainCacheRocksDB Tx)
    (live : List (Block Tx)) : Prop where
  chain : LiveChain tree low live
  distinct : (live.flatMap Block.txIds).Nodup
  children : live.IsChain fun b p => db.children.get p.id = some b.id
  stores : ∀ b ∈ live, db.Stores b

theorem putBlock (h : Intact tree low db live) (hchain : LiveChain tree low (b :: live))
    (hdistinct : ((b :: live).flatMap Block.txIds).Nodup) :
    Grown tree low (db.putBlock b) (b :: live) := by
  obtain ⟨hself, hothers⟩ := ChainCacheRocksDB.distinct_cons hdistinct
  refine ⟨hchain, hdistinct, ?_, ?_⟩
  · cases live with
    | nil => exact List.isChain_singleton b
    | cons tip rest =>
        obtain ⟨hfollows, -⟩ := List.isChain_cons_cons.mp hchain.linked
        have hlink : (db.putBlock b).children.get tip.id = some b.id := by
          rw [← hfollows.1]
          exact Store.get_put_self
        refine List.isChain_cons_cons.mpr ⟨hlink, h.children.imp_of_mem_tail_imp ?_⟩
        -- the only link that changes is the one from the best block
        intro x y _ hy hold
        have hne : y.id ≠ b.parentId := by
          rw [hfollows.1]
          exact hchain.tail.id_ne_of_mem_rest hy
        exact (Store.get_put_of_ne hne).trans hold
  · intro b' hb'
    rcases List.mem_cons.mp hb' with rfl | hb'
    · exact ChainCacheRocksDB.stores_putBlock hself
    · exact (h.stores b' hb').putBlock (hchain.id_ne_of_mem_rest hb') (hothers b' hb')

/-- The very first block. -/
theorem append_first (h : Intact tree low db []) (hchain : LiveChain tree low [b])
    (hdistinct : ([b].flatMap Block.txIds).Nodup) (hdepth : db.maxRollbackDepth ≠ 0)
    (hunset : db.oldestBlock = none) :
    Intact tree low { db.putBlock b with oldestBlock := some b.record } [b] := by
  have hgrown := h.putBlock hchain hdistinct
  have hb : tree.HasChild b := hchain.inTree b List.mem_cons_self
  refine ⟨hchain, hdistinct, ?_, rfl, List.isChain_singleton b, ?_, ?_, ?_, ?_⟩
  · intro bottom hbottom
    cases hbottom
    rfl
  · exact Nat.one_le_iff_ne_zero.mpr hdepth
  · intro b' hb'
    have hstored := hgrown.stores b' hb'
    exact ⟨hstored.parent, hstored.height, hstored.txIds, hstored.txs⟩
  · intro record hrecord
    cases hrecord
    have hparent : b.parentId = tree.parent b.record.id := hb.1.1
    refine ⟨?_, (Store.get_put_of_ne (hchain.parent_ne rfl)).trans (h.unset hunset _)⟩
    rw [← hparent]
    exact Store.get_put_self
  · intro hnone
    cases hnone

/-- A block that stays below the threshold. -/
theorem append_below (h : Intact tree low db live) (hchain : LiveChain tree low (b :: live))
    (hdistinct : ((b :: live).flatMap Block.txIds).Nodup) {bottom : Block Tx}
    (hbottom : (b :: live).getLast? = some bottom) (holdest : db.oldestBlock = some bottom.record)
    (hlength : (b :: live).length ≤ db.maxRollbackDepth) :
    Intact tree low (db.putBlock b) (b :: live) := by
  have hgrown := h.putBlock hchain hdistinct
  refine ⟨hchain, hdistinct, ?_, rfl, hgrown.children, hlength, hgrown.stores, ?_, ?_⟩
  · intro bottom' hbottom'
    rw [hbottom] at hbottom'
    cases hbottom'
    exact holdest
  · intro record hrecord
    have hsome : some bottom.record = some record := holdest.symm.trans hrecord
    cases hsome
    obtain ⟨hparent, hbelow⟩ := h.below _ holdest
    refine ⟨?_, (Store.get_put_of_ne (hchain.parent_ne hbottom)).trans hbelow⟩
    by_cases hid : bottom.record.id = b.id
    · have hb : b.parentId = tree.parent b.id := (hchain.inTree b List.mem_cons_self).1.1
      rw [hid, ← hb]
      exact Store.get_put_self
    · exact (Store.get_put_of_ne hid).trans hparent
  · intro hnone
    have hsome : db.oldestBlock = none := hnone
    rw [holdest] at hsome
    cases hsome

/-- The lowest block is deleted: the block above it leads out of it, and the rest of the chain is as
it was. -/
theorem Grown.deleteBottom {bottom next : Block Tx} (h : Grown tree low db (live ++ [bottom]))
    (hnext : live.getLast? = some next) :
    next.Follows bottom ∧ db.children.get bottom.id = some next.id ∧
      Grown tree (low + 1) (db.deleteBlock bottom.id bottom.txIds) live := by
  obtain ⟨hlinked, -, hjoin⟩ := List.isChain_append.mp h.chain.linked
  obtain ⟨hchildren, -, hjoinChild⟩ := List.isChain_append.mp h.children
  have hfollows : next.Follows bottom := hjoin next hnext bottom rfl
  have hmem : ∀ b ∈ live, b ∈ live ++ [bottom] := fun b hb => List.mem_append_left [bottom] hb
  -- nothing of `bottom` belongs to another live block
  have hids : ∀ b ∈ live, b.id ≠ bottom.id := by
    intro b hb
    have hnodup := h.chain.nodup_ids
    rw [List.map_append, List.nodup_append] at hnodup
    exact hnodup.2.2 _ (List.mem_map_of_mem hb) _ List.mem_cons_self
  have hdistinct := h.distinct
  rw [List.flatMap_append, List.nodup_append] at hdistinct
  obtain ⟨hdistinct, -, hdisjoint⟩ := hdistinct
  have htxs : ∀ b ∈ live, ∀ id ∈ b.txIds, id ∉ bottom.txIds := by
    intro b hb id hid hbottom
    apply hdisjoint id (List.mem_flatMap.mpr ⟨b, hb, hid⟩) id _ rfl
    exact List.mem_flatMap.mpr ⟨bottom, List.mem_cons_self, hbottom⟩
  refine ⟨hfollows, hjoinChild next hnext bottom rfl, ?_⟩
  constructor
  case chain =>
    refine ⟨hlinked, ?_, fun b hb => h.chain.inTree b (hmem b hb)⟩
    intro lowest hlowest
    rw [hnext] at hlowest
    cases hlowest
    have hlast : (live ++ [bottom]).getLast? = some bottom := List.getLast?_concat
    rw [hfollows.2, h.chain.grounded bottom hlast]
  case distinct => exact hdistinct
  case children =>
    apply hchildren.imp_of_mem_imp
    intro x y _ hy hold
    exact (Store.get_delete_of_ne (hids y hy)).trans hold
  case stores =>
    intro b hb
    exact (h.stores b (hmem b hb)).deleteBlock (hids b hb) (htxs b hb)

/-- A block that comes to stand `max_rollback_depth` above the lowest one, which is then
deleted: the child of the lowest block is the lowest one now. -/
theorem append_at {front : List (Block Tx)} {bottom : Block Tx}
    (h : Intact tree low db (front ++ [bottom]))
    (hchain : LiveChain tree low (b :: front ++ [bottom]))
    (hdistinct : ((b :: front ++ [bottom]).flatMap Block.txIds).Nodup)
    (hlength : (b :: front).length ≤ db.maxRollbackDepth) :
    ∃ next : Block Tx, (b :: front).getLast? = some next ∧ next.height = bottom.height + 1 ∧
      (db.putBlock b).children.get bottom.id = some next.id ∧
      (db.putBlock b).txIds.get bottom.id = some bottom.txIds ∧
      Intact tree (low + 1)
        { (db.putBlock b).deleteBlock bottom.id bottom.txIds with
          oldestBlock := some ⟨next.id, bottom.height + 1⟩ } (b :: front) := by
  have hgrown : Grown tree low (db.putBlock b) (b :: front ++ [bottom]) :=
    h.putBlock hchain hdistinct
  obtain ⟨next, hnext⟩ : ∃ next, (b :: front).getLast? = some next :=
    ⟨_, List.getLast?_eq_getLast_of_ne_nil (List.cons_ne_nil _ _)⟩
  have hnextMem : next ∈ b :: front := List.mem_of_getLast? hnext
  obtain ⟨hfollows, hchild, hpruned⟩ := hgrown.deleteBottom hnext
  have hbottom : bottom ∈ b :: front ++ [bottom] := List.mem_append_right _ List.mem_cons_self
  refine ⟨next, hnext, hfollows.2, hchild, (hgrown.stores bottom hbottom).txIds, ?_⟩
  constructor
  case chain => exact hpruned.chain
  case distinct => exact hpruned.distinct
  case best => rfl
  case children => exact hpruned.children
  case length_le => exact hlength
  case oldest =>
    intro lowest hlowest
    rw [hnext] at hlowest
    cases hlowest
    show some _ = some _
    rw [← hfollows.2]
    rfl
  case stores =>
    intro b' hb'
    have hkept := hpruned.stores b' hb'
    exact ⟨hkept.parent, hkept.height, hkept.txIds, hkept.txs⟩
  case below =>
    intro record hrecord
    cases hrecord
    have hparent : next.parentId = tree.parent next.id := (hpruned.chain.inTree next hnextMem).1.1
    constructor
    · rw [← hparent]
      exact (hpruned.stores next hnextMem).parent
    · show ((db.putBlock b).parents.delete bottom.id).get (tree.parent next.id) = none
      rw [← hparent, hfollows.1]
      exact Store.get_delete_self
  case unset =>
    intro hnone
    cases hnone

/-! ### Taking off -/

theorem take (h : Intact tree low db (tip :: rest)) :
    db.takeBestBlock =
      .ok (some { tip with timestamp := 0 },
        { db with txs := db.txs.deleteAll tip.txIds, bestBlock := rest.head?.map Block.record }) ∧
    Intact tree low
      { db with txs := db.txs.deleteAll tip.txIds, bestBlock := rest.head?.map Block.record }
      rest := by
  have hstored : db.Stores tip := h.stores tip List.mem_cons_self
  obtain ⟨hself, hothers⟩ := ChainCacheRocksDB.distinct_cons h.distinct
  refine ⟨ChainCacheRocksDB.takeBestBlock_eq h.best hstored hself ?_, ?_⟩
  · cases rest with
    | nil =>
        -- the parent of the lowest block is not in the database
        apply ChainCacheRocksDB.newBestBlock_of_none
        rw [(h.chain.inTree tip List.mem_cons_self).1.1]
        exact (h.below _ (h.oldest tip rfl)).2
    | cons p rest =>
        obtain ⟨hfollows, -⟩ := List.isChain_cons_cons.mp h.chain.linked
        rw [hfollows.1]
        apply ChainCacheRocksDB.newBestBlock_of_stores
        exact h.stores p (List.mem_cons_of_mem _ List.mem_cons_self)
  · refine ⟨h.chain.tail, ?_, ?_, rfl, h.children.tail, ?_, ?_, h.below, h.unset⟩
    · have hdistinct := h.distinct
      rw [List.flatMap_cons] at hdistinct
      exact (List.nodup_append.mp hdistinct).2.1
    · intro bottom hbottom
      cases rest with
      | nil => cases hbottom
      | cons p rest => exact h.oldest bottom (by simpa using hbottom)
    · exact (Nat.le_succ _).trans h.length_le
    · intro b' hb'
      exact (h.stores b' (List.mem_cons_of_mem _ hb')).deleteTxs (hothers b' hb') _

theorem sound (h : Intact tree low db live) (hne : live ≠ []) : PrunedChain.Sound ⟨db, live⟩ where
  oldest := by
    obtain ⟨bottom, hbottom⟩ : ∃ bottom, live.getLast? = some bottom :=
      ⟨_, List.getLast?_eq_getLast_of_ne_nil hne⟩
    show db.oldestBlock = live.getLast?.map Block.record
    rw [h.oldest bottom hbottom, hbottom]
    rfl
  best := h.best
  children := h.children
  length_le := h.length_le
  stores := h.stores

/-! ### Runs -/

variable {s s' : PrunedChain Tx}

/-- Appending to an empty chain. -/
theorem append_nil (h : Intact tree low db []) (hb : tree.HasChild b)
    (hanchor : db.oldestBlock = none ∨ db.oldestBlock = some b.record)
    (hdistinct : ([b].flatMap Block.txIds).Nodup) (hdepth : db.maxRollbackDepth ≠ 0) :
    ∃ db', db.appendBlock b = .ok db' ∧
      Intact tree b.height db' ([b].take db.maxRollbackDepth) := by
  have hchain : LiveChain tree b.height [b] := LiveChain.nil.push hb rfl (by simp)
  have hlength : [b].length ≤ db.maxRollbackDepth := Nat.one_le_iff_ne_zero.mpr hdepth
  have hnil : Intact tree b.height db [] := { h with chain := LiveChain.nil }
  rw [List.take_of_length_le hlength]
  rcases hanchor with hunset | holdest
  · exact ⟨_, ChainCacheRocksDB.appendBlock_first hunset,
      hnil.append_first hchain hdistinct hdepth hunset⟩
  · refine ⟨_, ChainCacheRocksDB.appendBlock_below holdest le_rfl ?_,
      hnil.append_below hchain hdistinct rfl holdest hlength⟩
    show b.height - b.height ≠ _
    rw [Nat.sub_self]
    exact hdepth.symm

/-- Appending on top of a chain, which is pruned if it has become too long. -/
theorem append_snoc {front : List (Block Tx)} {bottom : Block Tx}
    (h : Intact tree low db (front ++ [bottom]))
    (hchain : LiveChain tree low (b :: front ++ [bottom])) (h32 : b.height < 2 ^ 32)
    (hdistinct : ((b :: front ++ [bottom]).flatMap Block.txIds).Nodup) :
    ∃ db' low', db.appendBlock b = .ok db' ∧
      Intact tree low' db' ((b :: front ++ [bottom]).take db.maxRollbackDepth) := by
  have hlast : (b :: front ++ [bottom]).getLast? = some bottom := List.getLast?_concat
  have holdest : db.oldestBlock = some bottom.record := h.oldest bottom List.getLast?_concat
  have hrise : b.height = bottom.height + (front ++ [bottom]).length :=
    height_eq_of_getLast? hchain.linked hlast
  have hlength : (front ++ [bottom]).length = front.length + 1 := List.length_append
  have hle : bottom.record.height ≤ b.height := by
    show bottom.height ≤ b.height
    omega
  have hsub : b.height - bottom.record.height = (front ++ [bottom]).length := by
    show b.height - bottom.height = _
    omega
  rcases Nat.lt_or_eq_of_le h.length_le with hbelow | hat
  · have hfits : (b :: front ++ [bottom]).length ≤ db.maxRollbackDepth := hbelow
    rw [List.take_of_length_le hfits]
    refine ⟨_, _, ChainCacheRocksDB.appendBlock_below holdest hle ?_,
      h.append_below hchain hdistinct hlast holdest hfits⟩
    omega
  · have hfits : (b :: front).length = db.maxRollbackDepth := by
      rw [List.length_cons]
      omega
    obtain ⟨next, -, -, hchild, htxIds, hintact⟩ := h.append_at hchain hdistinct hfits.le
    rw [List.take_left' hfits]
    refine ⟨_, _, ChainCacheRocksDB.appendBlock_at holdest hle (hsub.trans hat) hchild ?_ htxIds,
      hintact⟩
    show bottom.height + 1 < 2 ^ 32
    omega

variable {s s' : PrunedChain Tx}

/-- An anchored append returns, and keeps as many of the highest blocks as it may. -/
theorem append (h : Intact tree low s.db s.live) (hb : s.Appendable tree start b)
    (hcond : s.Anchored (.append b)) :
    ∃ db low', s.db.appendBlock b = .ok db ∧
      Intact tree low' db ((b :: s.live).take s.db.maxRollbackDepth) := by
  obtain ⟨db, live⟩ := s
  obtain ⟨hchild, h32, hfits⟩ := hb
  obtain ⟨hdepth, hanchor, hdistinct⟩ := hcond
  rcases live.eq_nil_or_concat with rfl | ⟨front, bottom, hlive⟩
  · obtain ⟨db', hcall, hintact⟩ := h.append_nil hchild (hanchor rfl) hdistinct hdepth
    exact ⟨db', _, hcall, hintact⟩
  · have hchain : LiveChain tree low (b :: live) := by
      cases live with
      | nil => simp at hlive
      | cons tip rest => exact h.chain.push_of_fits hchild (h.chain.height_of_fits hchild hfits) hfits
    rw [List.concat_eq_append] at hlive
    subst hlive
    exact h.append_snoc hchain h32 hdistinct

/-- `take_best_block` returns on every intact chain. -/
theorem takeBestBlock (h : Intact tree low s.db s.live) :
    ∃ out db, s.db.takeBestBlock = .ok (out, db) ∧ Intact tree low db s.live.tail := by
  obtain ⟨db, live⟩ := s
  cases live with
  | nil => exact ⟨_, _, ChainCacheRocksDB.takeBestBlock_of_none h.best, h⟩
  | cons tip rest =>
      obtain ⟨hcall, hrest⟩ := h.take
      exact ⟨_, _, hcall, hrest⟩

theorem step {op : CacheOp Tx} (h : ∃ low, Intact tree low s.db s.live)
    (hstep : restrict (PrunedChain.Step tree start) PrunedChain.Anchored s op s') :
    ∃ low, Intact tree low s'.db s'.live := by
  obtain ⟨low, h⟩ := h
  obtain ⟨hstep, hcond⟩ := hstep
  cases hstep with
  | append hb hcall =>
      obtain ⟨db, low', hcall', hintact⟩ := h.append hb hcond
      rw [hcall] at hcall'
      cases hcall'
      exact ⟨low', hintact⟩
  | take hcall =>
      obtain ⟨out, db, hcall', hintact⟩ := h.takeBestBlock
      rw [hcall] at hcall'
      cases hcall'
      exact ⟨low, hintact⟩

end Intact

/-- After every anchored run no call panics: the next anchored append returns and leaves
the pruning invariant, and so does taking off the best block. -/
theorem sound_of_anchored {maxRollbackDepth : ℕ} {ops : List (CacheOp Tx)} {s : PrunedChain Tx}
    (hrun : Run (restrict (PrunedChain.Step tree start) PrunedChain.Anchored)
      (PrunedChain.new maxRollbackDepth) ops s) :
    (∀ b, s.Appendable tree start b → s.Anchored (.append b) →
      ∃ db, s.db.appendBlock b = .ok db ∧
        PrunedChain.Sound ⟨db, (b :: s.live).take s.db.maxRollbackDepth⟩) ∧
    ∃ out db, s.db.takeBestBlock = .ok (out, db) ∧
      (s.live.tail ≠ [] → PrunedChain.Sound ⟨db, s.live.tail⟩) := by
  obtain ⟨low, h⟩ : ∃ low, Intact tree low s.db s.live :=
    Run.invariant (I := fun s => ∃ low, Intact tree low s.db s.live)
      (fun _ _ _ h hstep => Intact.step h hstep) hrun ⟨start, Intact.new maxRollbackDepth⟩
  refine ⟨?_, ?_⟩
  · intro b hb hcond
    obtain ⟨db, low', hcall, hintact⟩ := h.append hb hcond
    refine ⟨db, hcall, hintact.sound ?_⟩
    obtain ⟨depth, hdepth⟩ := Nat.exists_eq_succ_of_ne_zero hcond.1
    rw [hdepth]
    exact List.cons_ne_nil _ _
  · obtain ⟨out, db, hcall, hintact⟩ := h.takeBestBlock
    exact ⟨out, db, hcall, hintact.sound⟩

/-! ## Samples -/

open Sample

/-- With room for two blocks, the third one pushes block 1 out. -/
theorem sound_of_anchored_sample :
    ∃ s : PrunedChain UInt8, s.live = [(block 3 1 2).toBlock, (block 1 0 1).toBlock] ∧
      ∃ db, s.db.appendBlock (block 4 3 3).toBlock = .ok db ∧
        PrunedChain.Sound ⟨db, [(block 4 3 3).toBlock, (block 3 1 2).toBlock]⟩ := by
  obtain ⟨db, hrun, hdepth⟩ : ∃ db : ChainCacheRocksDB UInt8,
      Run (restrict (PrunedChain.Step tree 1) PrunedChain.Anchored) (PrunedChain.new 2)
        [.append (block 1 0 1).toBlock, .append (block 3 1 2).toBlock]
        ⟨db, [(block 3 1 2).toBlock, (block 1 0 1).toBlock]⟩ ∧ db.maxRollbackDepth = 2 := by
    refine ⟨_, Run.cons ⟨.append ⟨by decide, by decide, rfl⟩ rfl, by decide, ?_, by decide⟩
      (Run.cons ⟨.append ⟨by decide, by decide, rfl⟩ rfl, by decide, ?_, by decide⟩
        (Run.nil _)), rfl⟩
    · exact fun _ => Or.inl rfl
    · intro hnil
      cases hnil
  obtain ⟨db', hcall, hsound⟩ := (sound_of_anchored hrun).1 (block 4 3 3).toBlock
    ⟨by decide, by decide, rfl⟩ ⟨by rw [hdepth]; decide, by simp, List.nodup_nil⟩
  rw [hdepth] at hsound
  exact ⟨_, rfl, db', hcall, hsound⟩

/-- Block 1 is appended and taken off, then its sibling 6 is appended: OLDEST_BLOCK still
names block 1. -/
theorem oldest_block_outlives_rollback :
    ¬ ∀ (tree : BlockTree) (start maxRollbackDepth : ℕ) (ops : List (CacheOp UInt8))
      (s : PrunedChain UInt8), maxRollbackDepth ≠ 0 →
      Run (PrunedChain.Step tree start) (PrunedChain.new maxRollbackDepth) ops s →
      ∀ b, s.Appendable tree start b →
        ∃ db, s.db.appendBlock b = .ok db ∧
          PrunedChain.Sound ⟨db, (b :: s.live).take s.db.maxRollbackDepth⟩ := by
  intro h
  obtain ⟨db, hrun, hdepth, holdest⟩ : ∃ db : ChainCacheRocksDB UInt8,
      Run (PrunedChain.Step tree 1) (PrunedChain.new 256)
        [.append (block 1 0 1).toBlock, .take] ⟨db, []⟩ ∧
      db.maxRollbackDepth = 256 ∧ db.oldestBlock = some (block 1 0 1).toBlock.record :=
    ⟨_, Run.cons (.append ⟨by decide, by decide, rfl⟩ rfl) (Run.cons (.take rfl) (Run.nil _)),
      rfl, rfl⟩
  obtain ⟨db', hcall, hsound⟩ := h tree 1 256 _ _ (by decide) hrun (block 6 0 1).toBlock
    ⟨by decide, by decide, rfl⟩
  -- the sibling has the height of block 1, so that the marker is not moved
  have hput : db.appendBlock (block 6 0 1).toBlock = .ok (db.putBlock (block 6 0 1).toBlock) := by
    apply ChainCacheRocksDB.appendBlock_below holdest (by decide)
    rw [hdepth]
    decide
  rw [hput] at hcall
  cases hcall
  have hmarker := hsound.oldest
  rw [hdepth] at hmarker
  have hsame : some (block 1 0 1).toBlock.record = some (block 6 0 1).toBlock.record :=
    holdest.symm.trans hmarker
  exact absurd hsame (by decide)

end SpectrumOffchain.ChainSync
