import SpectrumOffchain.ChainSync.RocksDB

/-!
# Restarts on the persistent cache

A synchroniser that is restarted on a non-empty cache asks for the height of its best
block again, not for the height above it as `try_upgrade` would: the best block is
applied a second time, or a sibling of it is applied without rolling it back.  A second
weakness needs no restart: `take_best_block` leaves the `:h` key of the block it takes,
so a child of a rolled back block still counts as linked.

Neither happens in runs that restart only when everything applied has been rolled back,
and in which no answered block is a child of a rolled back block.  In those the
concatenated streams are well nested over all restarts (`wellNested_of_undisturbed`).

## Strategy

The database is compared with the stack of the blocks that are applied, and with the ids of
those that were rolled back.  It may know less than the stack, since old blocks are pruned,
and more, since keys of rolled back blocks stay: `Tracks.heights` says that a height is
stored only of a block in one of the two, and `Tracks.best` that the best block, if there is
one, is the top of the stack.

A block is applied when its parent is known, and then the parent is on the stack, as the run
is undisturbed; there it can only be the top, by its height (`Tracks.fits`).  A roll-back
takes the top (`Tracks.backward`).
-/

namespace SpectrumOffchain.ChainSync

open Transition

variable {Tx : Type} [SigmaTransaction Tx] {tree : BlockTree} {start : ℕ}

/-- The synchroniser, with what its stream has told the consumers so far. -/
structure Follower (Tx : Type) where
  sync : ChainSync (ChainCacheRocksDB Tx)
  /-- The blocks rolled forward and not rolled back since, the last one first. -/
  applied : List BlockId
  /-- The blocks rolled back and not rolled forward since. -/
  undone : List BlockId

/-- What happens to a synchroniser. -/
inductive Event (Tx : Type) where
  | upgrade (label : UpgradeLabel Tx)
  | restart

/-- What the event puts on the stream. -/
def Event.emitted : Event Tx → List (StackOp (Block Tx))
  | upgrade label => label.emitted
  | restart => []

namespace Follower

/-- The first start, on an empty database. -/
def new (start maxRollbackDepth : ℕ) : Follower Tx :=
  ⟨init start (ChainCacheRocksDB.new maxRollbackDepth), [], []⟩

/-- The state after a call of `try_upgrade`. -/
def upgraded (s : Follower Tx) (sync : ChainSync (ChainCacheRocksDB Tx)) :
    Option (ChainUpgrade Tx) → Follower Tx
  | some (.rollForward block) =>
      ⟨sync, block.id :: s.applied, s.undone.filter (· ≠ block.id)⟩
  | some (.rollBackward block) => ⟨sync, s.applied.erase block.id, block.id :: s.undone⟩
  | none => { s with sync }

/-- A call of `try_upgrade` that returns, or a restart on the cache as it is, with the
same starting height. -/
inductive Step (tree : BlockTree) (start : ℕ) (s : Follower Tx) :
    Event Tx → Follower Tx → Prop where
  | upgrade {label : UpgradeLabel Tx} {sync : ChainSync (ChainCacheRocksDB Tx)}
      (h : ChainSync.Step tree.HasChild s.sync label sync) :
      Step tree start s (.upgrade label) (s.upgraded sync label.2)
  | restart : Step tree start s .restart { s with sync := init start s.sync.cache }

/-- A restart finds everything rolled back, and an answered block is not a child of a
block that has been rolled back. -/
def Undisturbed (s : Follower Tx) : Event Tx → Prop
  | .restart => s.applied = []
  | .upgrade (.ok apiBlk, _) => apiBlk.header.parentId ∉ s.undone
  | .upgrade (.error _, _) => True

instance (s : Follower Tx) (event : Event Tx) : Decidable (s.Undisturbed event) :=
  match event with
  | .restart => inferInstanceAs (Decidable (s.applied = []))
  | .upgrade (.ok _, _) => inferInstanceAs (Decidable (_ ∉ s.undone))
  | .upgrade (.error _, _) => .isTrue trivial

end Follower

/-- The block can be applied next, and is not applied already. -/
def Applies (start : ℕ) (stack : List (Block Tx)) (b : Block Tx) : Prop :=
  Fits start stack b ∧ ∀ b' ∈ stack, b'.id ≠ b.id

/-- The persistent cache does not keep timestamps. -/
def SameBlock (b b' : Block Tx) : Prop :=
  b.id = b'.id ∧ b.parentId = b'.parentId ∧ b.height = b'.height

/-- The concatenated streams are well nested, and the best block of the cache is the last
block that is still applied. -/
def WellNestedOverRestarts (start : ℕ) (events : List (Event Tx)) (s : Follower Tx) : Prop :=
  ∃ stack, Run (StackStep (Applies start) SameBlock) [] (events.flatMap Event.emitted) stack ∧
    ∀ record, ChainCache.getBestBlock s.sync.cache = some record →
      ∃ tip, stack.head? = some tip ∧ record = tip.record

/-- Counter and database describe the chain of the applied blocks.  The database may have
forgotten some of them and may still know some that were rolled back. -/
structure Tracks (tree : BlockTree) (start : ℕ) (s : Follower Tx) (stack : List (Block Tx)) :
    Prop where
  live : LiveChain tree start stack
  applied : s.applied = stack.map Block.id
  starting : s.sync.startingHeight = start
  next : s.sync.nextHeight = start + stack.length
  best : ∀ record, s.sync.cache.bestBlock = some record →
    ∃ tip, stack.head? = some tip ∧ record = tip.record
  heights : ∀ id height, s.sync.cache.heights.get id = some height →
    (id ∈ stack.map Block.id ∨ id ∈ s.undone) ∧ (height : ℤ) = tree.height id
  parents : ∀ id parent, s.sync.cache.parents.get id = some parent →
    parent = tree.parent id ∧ (start : ℤ) ≤ tree.height id

namespace Tracks

variable {s : Follower Tx} {stack rest : List (Block Tx)} {tip b : Block Tx}

theorem new (maxRollbackDepth : ℕ) :
    Tracks tree start (Follower.new start maxRollbackDepth : Follower Tx) [] := by
  refine ⟨LiveChain.nil, rfl, rfl, rfl, ?_, ?_, ?_⟩
  · intro record hrecord
    cases hrecord
  · intro id height hget
    cases hget
  · intro id parent hget
    cases hget

/-- A served block that counts as linked is a child of the best block, unless it is a
child of a block that was rolled back. -/
theorem fits (h : Tracks tree start s stack) (hb : tree.HasChild b)
    (hheight : b.height = s.sync.nextHeight) (hundone : b.parentId ∉ s.undone)
    (hlinked : ChainCache.blockExists s.sync.cache b.parentId = true ∨
      b.height = s.sync.startingHeight) : Fits start stack b := by
  rw [h.next] at hheight
  rcases hlinked with hexists | hstart
  · obtain ⟨height, hget⟩ := Option.isSome_iff_exists.mp hexists
    rcases (h.heights _ _ hget).1 with hmem | hmem
    · obtain ⟨parent, hparent, hid⟩ := List.mem_map.mp hmem
      exact h.live.fits_of_mem hb hheight hparent hid
    · exact absurd hmem hundone
  · rw [h.starting] at hstart
    exact fits_of_start hheight hstart

theorem forward (h : Tracks tree start s stack) (hb : tree.HasChild b)
    (hheight : b.height = s.sync.nextHeight) (hfits : Fits start stack b)
    {cache : ChainCacheRocksDB Tx} (happend : s.sync.cache.appendBlock b = .ok cache) :
    Tracks tree start
      (s.upgraded { s.sync with cache, nextHeight := s.sync.nextHeight + 1 }
        (some (.rollForward b))) (b :: stack) := by
  have hnext : b.height = start + stack.length := hheight.trans h.next
  obtain ⟨hbest, hheights, hparents⟩ := ChainCacheRocksDB.appendBlock_ok happend
  refine ⟨h.live.push_of_fits hb hnext hfits, ?_, h.starting, ?_, ?_, ?_, ?_⟩
  · show b.id :: s.applied = _
    rw [h.applied, List.map_cons]
  · show s.sync.nextHeight + 1 = _
    rw [h.next, List.length_cons, Nat.add_assoc]
  · intro record hrecord
    have hnew : cache.bestBlock = some record := hrecord
    rw [hbest] at hnew
    cases hnew
    exact ⟨b, rfl, rfl⟩
  · intro id height hget
    rcases Store.get_put_eq_some.mp (hheights id height hget) with ⟨rfl, rfl⟩ | ⟨hne, hold⟩
    · exact ⟨Or.inl List.mem_cons_self, hb.1.2⟩
    · obtain ⟨hmem, htree⟩ := h.heights id height hold
      refine ⟨?_, htree⟩
      rcases hmem with hmem | hmem
      · exact Or.inl (List.mem_cons_of_mem _ hmem)
      · -- a rolled back block other than `b` stays rolled back
        exact Or.inr (List.mem_filter.mpr ⟨hmem, by simpa using hne⟩)
  · intro id parent hget
    rcases Store.get_put_eq_some.mp (hparents id parent hget) with ⟨rfl, rfl⟩ | ⟨-, hold⟩
    · refine ⟨hb.1.1, ?_⟩
      rw [← hb.1.2]
      omega
    · exact h.parents id parent hold

/-- The block that is taken is the best one, and the block below it, if the database still
has it, becomes the best. -/
theorem backward (h : Tracks tree start s stack) {taken : Block Tx}
    {cache : ChainCacheRocksDB Tx}
    (htake : s.sync.cache.takeBestBlock = .ok (some taken, cache)) :
    ∃ tip rest, stack = tip :: rest ∧ SameBlock taken tip ∧
      Tracks tree start
        (s.upgraded { s.sync with cache, nextHeight := s.sync.nextHeight - 1 }
          (some (.rollBackward taken))) rest := by
  obtain ⟨hnone, -⟩ | ⟨best, _, hout, hbest, hid, hheight, hparent, hheights, hparents, hnew⟩ :=
    ChainCacheRocksDB.takeBestBlock_ok htake
  · cases hnone
  cases hout
  obtain ⟨tip, hhead, rfl⟩ := h.best best hbest
  obtain ⟨rest, rfl⟩ := List.head?_eq_some_iff.mp hhead
  have htipid : taken.id = tip.id := hid
  have htip : tree.HasChild tip := h.live.inTree tip List.mem_cons_self
  have hparentId : taken.parentId = tip.parentId := by
    rw [(h.parents _ _ hparent).1]
    exact htip.1.1.symm
  refine ⟨tip, rest, rfl, ⟨htipid, hparentId, hheight⟩, h.live.tail, ?_, h.starting, ?_, ?_, ?_, ?_⟩
  · show s.applied.erase taken.id = _
    rw [h.applied, htipid, List.map_cons, List.erase_cons_head]
  · show s.sync.nextHeight - 1 = _
    rw [h.next, List.length_cons]
    omega
  · intro record hrecord
    obtain ⟨hrecordId, hstored, hget⟩ := hnew record hrecord
    obtain ⟨grandparent, hgrandparent⟩ := Option.isSome_iff_exists.mp hstored
    -- a block that is still stored is at the starting height or above it
    have hstart : (start : ℤ) ≤ tree.height taken.parentId := (h.parents _ _ hgrandparent).2
    have hrecordHeight : (record.height : ℤ) = tree.height taken.parentId := (h.heights _ _ hget).2
    rw [hparentId] at hstart hrecordHeight
    have hbelow : tree.height tip.parentId + 1 = tip.height := htip.2
    have htipHeight : tip.height = start + rest.length := h.live.height_head
    cases rest with
    | nil =>
        rw [List.length_nil] at htipHeight
        omega
    | cons p rest =>
        obtain ⟨hfollows, -⟩ := List.isChain_cons_cons.mp h.live.linked
        refine ⟨p, rfl, ?_⟩
        have hheightp : tip.height = p.height + 1 := hfollows.2
        apply BlockRecord.ext
        · exact hrecordId.trans (hparentId.trans hfollows.1)
        · show record.height = p.height
          omega
  · intro id height hget
    have hold : s.sync.cache.heights.get id = some height := by rw [← hheights]; exact hget
    obtain ⟨hmem, htree⟩ := h.heights id height hold
    refine ⟨?_, htree⟩
    rw [List.map_cons, List.mem_cons] at hmem
    -- the height of the block that is taken off stays stored
    rcases hmem with (rfl | hmem) | hmem
    · exact Or.inr (by rw [← htipid]; exact List.mem_cons_self)
    · exact Or.inl hmem
    · exact Or.inr (List.mem_cons_of_mem _ hmem)
  · intro id parent hget
    have hold : s.sync.cache.parents.get id = some parent := by rw [← hparents]; exact hget
    exact h.parents id parent hold

/-- A call that shows nothing on the stream changes neither counter nor database. -/
theorem takeBestBlock_none (h : Tracks tree start s stack) {cache : ChainCacheRocksDB Tx}
    (htake : s.sync.cache.takeBestBlock = .ok (none, cache)) :
    Tracks tree start (s.upgraded { s.sync with cache } none) stack := by
  obtain ⟨-, rfl⟩ | ⟨best, taken, hout, -⟩ := ChainCacheRocksDB.takeBestBlock_ok htake
  · exact h
  · cases hout

/-- A restart of a synchroniser that has everything rolled back begins anew. -/
theorem restart (h : Tracks tree start s stack) (hundone : s.applied = []) :
    Tracks tree start { s with sync := init start s.sync.cache } stack := by
  have hempty : stack = [] := by
    have hmap : stack.map Block.id = [] := by rw [← h.applied, hundone]
    exact List.map_eq_nil_iff.mp hmap
  subst hempty
  have hbest : s.sync.cache.bestBlock = none := by
    rw [Option.eq_none_iff_forall_ne_some]
    intro record hrecord
    obtain ⟨tip, hhead, -⟩ := h.best record hrecord
    cases hhead
  refine ⟨h.live, h.applied, rfl, ?_, h.best, h.heights, h.parents⟩
  show (init start s.sync.cache).nextHeight = start
  have hget : ChainCache.getBestBlock s.sync.cache = none := hbest
  rw [init, hget]

end Tracks

/-- One undisturbed event is at most one operation on the stack. -/
theorem tracks_step {s s' : Follower Tx} {event : Event Tx} {stack : List (Block Tx)}
    (h : Tracks tree start s stack)
    (hstep : restrict (Follower.Step tree start) Follower.Undisturbed s event s') :
    ∃ stack', Run (StackStep (Applies start) SameBlock) stack event.emitted stack' ∧
      Tracks tree start s' stack' := by
  obtain ⟨hstep, hcond⟩ := hstep
  cases hstep with
  | restart => exact ⟨stack, Run.nil stack, h.restart hcond⟩
  | upgrade hcall =>
      cases hcall.upgraded with
      | forward hheight hserves hlinked happend =>
          have hfits : Fits start stack _ := h.fits hserves hheight hcond hlinked
          have hnext := h.forward hserves hheight hfits happend
          have hfresh : ∀ b' ∈ stack, b'.id ≠ _ := fun b' hb' => hnext.live.id_ne_of_mem_rest hb'
          exact ⟨_, Run.single (StackStep.push ⟨hfits, hfresh⟩), hnext⟩
      | backward hstart hheight htake =>
          obtain ⟨tip, rest, rfl, hsame, hrest⟩ := h.backward htake
          exact ⟨rest, Run.single (StackStep.pop hsame), hrest⟩
      | stuck htake => exact ⟨stack, Run.nil stack, h.takeBestBlock_none htake⟩
      | failed => exact ⟨stack, Run.nil stack, h⟩

/-- In undisturbed runs the streams before and after each restart make up one well-nested
stream. -/
theorem wellNested_of_undisturbed {maxRollbackDepth : ℕ} {events : List (Event Tx)}
    {s : Follower Tx}
    (hrun : Run (restrict (Follower.Step tree start) Follower.Undisturbed)
      (Follower.new start maxRollbackDepth) events s) :
    WellNestedOverRestarts start events s := by
  obtain ⟨stack, hstack, htracks⟩ :=
    Run.simulates (fun _ _ _ _ h hstep => tracks_step h hstep) hrun (Tracks.new maxRollbackDepth)
  exact ⟨stack, hstack, htracks.best⟩

/-! ## Samples -/

open Sample

/-- Block 1 is rolled back because the node has switched to the branch of block 5; after
a restart the synchroniser follows that branch. -/
theorem wellNested_of_undisturbed_sample :
    ∃ s : Follower UInt8, WellNestedOverRestarts 1
      [.upgrade (.ok (block 1 0 1), some (.rollForward (block 1 0 1).toBlock)),
        .upgrade (.ok (block 5 6 2), some (.rollBackward (block 1 0 1).toBlock)),
        .restart,
        .upgrade (.ok (block 6 0 1), some (.rollForward (block 6 0 1).toBlock)),
        .upgrade (.ok (block 5 6 2), some (.rollForward (block 5 6 2).toBlock))] s :=
  ⟨_, @wellNested_of_undisturbed UInt8 _ tree 1 256 _ _
    (Run.cons ⟨.upgrade (Step.of_answer rfl (by decide) rfl), by decide⟩
      (Run.cons ⟨.upgrade (Step.of_answer rfl (by decide) rfl), by decide⟩
        (Run.cons ⟨.restart, rfl⟩
          (Run.cons ⟨.upgrade (Step.of_answer rfl (by decide) rfl), by decide⟩
            (Run.cons ⟨.upgrade (Step.of_answer rfl (by decide) rfl), by decide⟩
              (Run.nil _))))))⟩

/-- Blocks 1 and 2 are applied; after a restart the node answers block 2 again, and it is
applied a second time. -/
theorem restart_reapplies_best_block :
    ¬ ∀ (tree : BlockTree) (start maxRollbackDepth : ℕ) (events : List (Event UInt8))
      (s : Follower UInt8),
      Run (Follower.Step tree start) (Follower.new start maxRollbackDepth) events s →
        WellNestedOverRestarts start events s := by
  intro h
  have hsteps : ∃ s : Follower UInt8,
      Run (Follower.Step tree 1) (Follower.new 1 256)
        [.upgrade (.ok (block 1 0 1), some (.rollForward (block 1 0 1).toBlock)),
          .upgrade (.ok (block 2 1 2), some (.rollForward (block 2 1 2).toBlock)),
          .restart,
          .upgrade (.ok (block 2 1 2), some (.rollForward (block 2 1 2).toBlock))] s :=
    ⟨_, Run.cons (.upgrade (Step.of_answer rfl (by decide) rfl))
      (Run.cons (.upgrade (Step.of_answer rfl (by decide) rfl))
        (Run.cons .restart
          (Run.cons (.upgrade (Step.of_answer rfl (by decide) rfl)) (Run.nil _))))⟩
  obtain ⟨s, hrun⟩ := hsteps
  obtain ⟨stack, hstack, -⟩ := h tree 1 256 _ s hrun
  rcases hstack with _ | ⟨⟨-⟩, _ | ⟨⟨-⟩, _ | ⟨⟨⟨hfits, -⟩⟩, -⟩⟩⟩
  have hparent : blockId 1 = blockId 2 := hfits
  exact absurd hparent (by decide)

end SpectrumOffchain.ChainSync
