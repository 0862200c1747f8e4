import SpectrumOffchain.ChainSync.Chain
import SpectrumOffchain.ChainSync.InMemory

/-!
# The stream of upgrades is well nested

`try_upgrade` accepts a block as soon as its parent is *somewhere* in the cache.  That
the parent is then the best block is a matter of heights: the cache holds one block of
each height from the starting height on, the answered block has the height above them,
and in the block tree a block stands one above its parent.  So the stream of upgrades
applies a block only on top of the chain it has built, and undoes only the top of it.

Along a run the counter `next_height`, the copy of the best block and the map of blocks
all describe one stack of applied blocks (`InStep`).
-/

namespace SpectrumOffchain.ChainSync

open Transition

variable {Tx : Type} {tree : BlockTree} {start : ℕ}

/-- The three parts of the state describe the chain `stack`. -/
structure InStep (tree : BlockTree) (start : ℕ) (sync : ChainSync (InMemoryCache Tx))
    (stack : List (Block Tx)) : Prop where
  live : LiveChain tree start stack
  starting : sync.startingHeight = start
  next : sync.nextHeight = start + stack.length
  holds : sync.cache.Holds stack

/-- What the consumers of the stream rely on: it is well nested, with rolled back blocks
equal to the applied ones, and counter and cache agree with the stack it leaves. -/
def WellNested (start : ℕ) (labels : List (UpgradeLabel Tx))
    (sync : ChainSync (InMemoryCache Tx)) : Prop :=
  ∃ stack, Run (StackStep (Fits start) Eq) [] (labels.flatMap UpgradeLabel.emitted) stack ∧
    sync.nextHeight = heightAbove start stack ∧
    ∀ id b, sync.cache.blocks.get id = some b ↔ b ∈ stack ∧ b.id = id

theorem inStep_init : InStep tree start (init start (InMemoryCache.new : InMemoryCache Tx)) [] where
  live := LiveChain.nil
  starting := rfl
  next := rfl
  holds := InMemoryCache.Holds.new

namespace InStep

variable {sync : ChainSync (InMemoryCache Tx)} {stack rest : List (Block Tx)} {tip b : Block Tx}

/-- A served block whose parent is cached is a child of the best block, and one at the
starting height meets an empty chain. -/
theorem fits (h : InStep tree start sync stack) (hb : tree.HasChild b)
    (hheight : b.height = sync.nextHeight)
    (hlinked : ChainCache.blockExists sync.cache b.parentId = true ∨
      b.height = sync.startingHeight) : Fits start stack b := by
  rw [h.next] at hheight
  rcases hlinked with hexists | hstart
  · obtain ⟨parent, hparent⟩ := Option.isSome_iff_exists.mp hexists
    obtain ⟨hmem, hid⟩ := (h.holds.blocks _ _).mp hparent
    exact h.live.fits_of_mem hb hheight hmem hid
  · rw [h.starting] at hstart
    exact fits_of_start hheight hstart

theorem forward (h : InStep tree start sync stack) (hb : tree.HasChild b)
    (hheight : b.height = sync.nextHeight) (hfits : Fits start stack b) :
    InStep tree start
      { sync with cache := sync.cache.appendBlock b, nextHeight := sync.nextHeight + 1 }
      (b :: stack) := by
  have hnext : b.height = start + stack.length := hheight.trans h.next
  have hlive : LiveChain tree start (b :: stack) := h.live.push_of_fits hb hnext hfits
  refine ⟨hlive, h.starting, ?_, h.holds.appendBlock fun b' hb' => hlive.id_ne_of_mem_rest hb'⟩
  show sync.nextHeight + 1 = _
  rw [h.next, List.length_cons, Nat.add_assoc]

/-- The cache gives back the best block, and the rest of the chain stays. -/
theorem backward (h : InStep tree start sync (tip :: rest)) :
    ∃ cache, sync.cache.takeBestBlock = (some tip, cache) ∧
      InStep tree start { sync with cache, nextHeight := sync.nextHeight - 1 } rest := by
  have hself : rest = [] → tip.parentId ≠ tip.id := by
    rintro rfl
    exact (h.live.id_ne_parentId List.mem_cons_self rfl).symm
  obtain ⟨cache, htake, hholds⟩ := h.holds.takeBestBlock_cons h.live.linked
    (fun b hb => h.live.id_ne_of_mem_rest hb) hself
  refine ⟨cache, htake, h.live.tail, h.starting, ?_, hholds⟩
  show sync.nextHeight - 1 = _
  rw [h.next, List.length_cons]
  omega

end InStep

/-- One call of `try_upgrade` is at most one operation on the stack. -/
theorem inStep_step {sync sync' : ChainSync (InMemoryCache Tx)} {label : UpgradeLabel Tx}
    {stack : List (Block Tx)} (h : InStep tree start sync stack)
    (hstep : ChainSync.Step tree.HasChild sync label sync') :
    ∃ stack', Run (StackStep (Fits start) Eq) stack label.emitted stack' ∧
      InStep tree start sync' stack' := by
  cases hstep.upgraded with
  | forward hheight hserves hlinked happend =>
      cases happend
      have hfits := h.fits hserves hheight hlinked
      exact ⟨_, Run.single (StackStep.push hfits), h.forward hserves hheight hfits⟩
  | backward hstart hheight htake =>
      cases stack with
      | nil =>
          -- the answered block would be at the starting height
          rw [hheight, h.next, h.starting] at hstart
          exact absurd rfl hstart
      | cons tip rest =>
          obtain ⟨cache, htip, hrest⟩ := h.backward
          have htaken : sync.cache.takeBestBlock = _ := Outcome.ok.inj htake
          rw [htip] at htaken
          cases htaken
          exact ⟨rest, Run.single (StackStep.pop rfl), hrest⟩
  | stuck htake =>
      have htaken : sync.cache.takeBestBlock = _ := Outcome.ok.inj htake
      cases stack with
      | nil =>
          rw [h.holds.takeBestBlock_nil] at htaken
          cases htaken
          exact ⟨[], Run.nil [], h⟩
      | cons tip rest =>
          obtain ⟨cache, htip, -⟩ := h.backward
          rw [htip] at htaken
          cases htaken
  | failed => exact ⟨stack, Run.nil stack, h⟩

/-- From an empty cache on, whatever the node answers, the stream of upgrades is well
nested and describes the cache. -/
theorem wellNested_of_run {labels : List (UpgradeLabel Tx)} {sync : ChainSync (InMemoryCache Tx)}
    (hrun : Run (ChainSync.Step tree.HasChild) (init start InMemoryCache.new) labels sync) :
    WellNested start labels sync := by
  obtain ⟨stack, hstack, hin⟩ :=
    Run.simulates (fun _ _ _ _ h hstep => inStep_step h hstep) hrun inStep_init
  refine ⟨stack, hstack, ?_, hin.holds.blocks⟩
  rw [hin.next, hin.live.heightAbove_eq]

/-! ## Samples -/

open Sample

/-- Blocks 1 and 2 are applied, then the node switches to the branch of block 4. -/
theorem wellNested_of_run_sample :
    ∃ sync : ChainSync (InMemoryCache UInt8), WellNested 1
      [(.ok (block 1 0 1), some (.rollForward (block 1 0 1).toBlock)),
        (.ok (block 2 1 2), some (.rollForward (block 2 1 2).toBlock)),
        (.ok (block 4 3 3), some (.rollBackward (block 2 1 2).toBlock)),
        (.error .noBlock, none),
        (.ok (block 3 1 2), some (.rollForward (block 3 1 2).toBlock))] sync :=
  ⟨_, @wellNested_of_run UInt8 tree 1 _ _
    (Run.cons (Step.of_answer rfl (by decide) rfl)
      (Run.cons (Step.of_answer rfl (by decide) rfl)
        (Run.cons (Step.of_answer rfl (by decide) rfl)
          (Run.cons Step.of_error
            (Run.cons (Step.of_answer rfl (by decide) rfl) (Run.nil _))))))⟩

/-- If a block could stand more than one height above its parent, a block could be
applied that is not a child of the best one. -/
theorem not_wellNested_of_skipped_height :
    ¬ ∀ (tree : BlockTree) (start : ℕ) (labels : List (UpgradeLabel UInt8))
      (sync : ChainSync (InMemoryCache UInt8)),
      Run (ChainSync.Step tree.HasBlock) (init start InMemoryCache.new) labels sync →
        WellNested start labels sync := by
  intro h
  -- block 3 is a child of block 1, two heights above it
  let skipping : BlockTree :=
    ⟨fun id => if id = blockId 1 then blockId 0 else blockId 1,
      fun id => if id = blockId 1 then 1 else if id = blockId 2 then 2 else 3⟩
  have hsteps : ∃ sync : ChainSync (InMemoryCache UInt8),
      Run (ChainSync.Step skipping.HasBlock) (init 1 InMemoryCache.new)
        [(.ok (block 1 0 1), some (.rollForward (block 1 0 1).toBlock)),
          (.ok (block 2 1 2), some (.rollForward (block 2 1 2).toBlock)),
          (.ok (block 3 1 3), some (.rollForward (block 3 1 3).toBlock))] sync := by
    exact ⟨_, Run.cons (Step.of_answer rfl (by decide) rfl)
      (Run.cons (Step.of_answer rfl (by decide) rfl)
        (Run.cons (Step.of_answer rfl (by decide) rfl) (Run.nil _)))⟩
  obtain ⟨sync, hrun⟩ := hsteps
  obtain ⟨stack, hstack, -⟩ := h skipping 1 _ sync hrun
  rcases hstack with _ | ⟨⟨-⟩, _ | ⟨⟨-⟩, _ | ⟨⟨hfits⟩, -⟩⟩⟩
  have hparent : blockId 1 = blockId 2 := hfits
  exact absurd hparent (by decide)

end SpectrumOffchain.ChainSync
