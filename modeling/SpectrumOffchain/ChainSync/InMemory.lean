import SpectrumOffchain.ChainSync.Chain
import SpectrumOffchain.Lib.Store

/-!
# The in-memory cache

The reference implementation of `ChainCache`: a map from block ids to blocks and a
copy of the best block's id, parent and height.  It holds a chain (`Holds`) when the map
has exactly the blocks of the chain and the copy is the one of its best block; appending
and taking off are then `cons` and `tail`.
-/

namespace SpectrumOffchain

variable {Tx : Type}

structure InMemoryCache (Tx : Type) where
  blocks : Store BlockId (Block Tx)
  /-- The id, the parent and the height of the best block. -/
  bestBlock : Option (BlockId × BlockId × ℕ)

namespace InMemoryCache

/-- `InMemoryCache::new`. -/
def new : InMemoryCache Tx := ⟨.empty, none⟩

def appendBlock (cache : InMemoryCache Tx) (block : Block Tx) : InMemoryCache Tx where
  blocks := cache.blocks.put block.id block
  bestBlock := some (block.id, block.parentId, block.height)

def blockExists (cache : InMemoryCache Tx) (blockId : BlockId) : Bool :=
  (cache.blocks.get blockId).isSome

def getBestBlock (cache : InMemoryCache Tx) : Option BlockRecord :=
  cache.bestBlock.map fun best => ⟨best.1, best.2.2⟩

def takeBestBlock (cache : InMemoryCache Tx) : Option (Block Tx) × InMemoryCache Tx :=
  match cache.bestBlock with
  | some (id, parentId, _) =>
      let parent := (cache.blocks.get parentId).map fun blk => (blk.id, blk.parentId, blk.height)
      (cache.blocks.get id, { blocks := cache.blocks.delete id, bestBlock := parent })
  | none => (none, cache)

instance : ChainCache (InMemoryCache Tx) Tx where
  appendBlock cache block := .ok (cache.appendBlock block)
  blockExists := blockExists
  getBestBlock := getBestBlock
  takeBestBlock cache := .ok cache.takeBestBlock

/-- The cached blocks are exactly those of the chain. -/
structure Holds (cache : InMemoryCache Tx) (chain : List (Block Tx)) : Prop where
  best : cache.bestBlock = chain.head?.map fun b => (b.id, b.parentId, b.height)
  blocks : ∀ id b, cache.blocks.get id = some b ↔ b ∈ chain ∧ b.id = id

namespace Holds

variable {cache : InMemoryCache Tx} {chain rest : List (Block Tx)} {tip b : Block Tx}

theorem new : (InMemoryCache.new : InMemoryCache Tx).Holds [] where
  best := rfl
  blocks := by simp [InMemoryCache.new]

theorem isSome_get (h : cache.Holds chain) (id : BlockId) :
    (cache.blocks.get id).isSome ↔ id ∈ chain.map Block.id := by
  rw [Option.isSome_iff_exists, List.mem_map]
  exact exists_congr fun b => h.blocks id b

theorem appendBlock (h : cache.Holds chain) (hfresh : ∀ b' ∈ chain, b'.id ≠ b.id) :
    (cache.appendBlock b).Holds (b :: chain) where
  best := rfl
  blocks id b' := by
    show (cache.blocks.put b.id b).get id = some b' ↔ _
    rw [Store.get_put_eq_some, h.blocks, List.mem_cons]
    constructor
    · rintro (⟨rfl, rfl⟩ | ⟨-, hmem, hid⟩)
      · exact ⟨Or.inl rfl, rfl⟩
      · exact ⟨Or.inr hmem, hid⟩
    · rintro ⟨rfl | hmem, rfl⟩
      · exact Or.inl ⟨rfl, rfl⟩
      · exact Or.inr ⟨hfresh b' hmem, hmem, rfl⟩

theorem takeBestBlock_nil (h : cache.Holds []) : cache.takeBestBlock = (none, cache) := by
  rw [InMemoryCache.takeBestBlock, h.best]
  rfl

/-- The best block is given back as it was appended, and the one below it becomes the
best.  The lowest block must not be its own parent. -/
theorem takeBestBlock_cons (h : cache.Holds (tip :: rest))
    (hlinked : (tip :: rest).IsChain Block.Follows) (hfresh : ∀ b ∈ rest, b.id ≠ tip.id)
    (hself : rest = [] → tip.parentId ≠ tip.id) :
    ∃ cache', cache.takeBestBlock = (some tip, cache') ∧ cache'.Holds rest := by
  have htip : cache.blocks.get tip.id = some tip := (h.blocks _ _).mpr ⟨List.mem_cons_self, rfl⟩
  have hparent : cache.blocks.get tip.parentId = rest.head? := by
    cases rest with
    | nil =>
        rw [List.head?_nil, Option.eq_none_iff_forall_ne_some]
        intro p hp
        obtain ⟨hmem, hid⟩ := (h.blocks _ _).mp hp
        rw [List.mem_singleton.mp hmem] at hid
        exact hself rfl hid.symm
    | cons p rest =>
        obtain ⟨hfollows, -⟩ := List.isChain_cons_cons.mp hlinked
        rw [hfollows.1]
        exact (h.blocks _ _).mpr ⟨List.mem_cons_of_mem _ List.mem_cons_self, rfl⟩
  refine ⟨⟨cache.blocks.delete tip.id, rest.head?.map fun b => (b.id, b.parentId, b.height)⟩,
    ?_, rfl, ?_⟩
  · simp only [InMemoryCache.takeBestBlock, h.best, List.head?_cons, Option.map_some, htip, hparent]
  · intro id b
    show (cache.blocks.delete tip.id).get id = some b ↔ _
    rw [Store.get_delete_eq_some, h.blocks, List.mem_cons]
    constructor
    · rintro ⟨hne, rfl | hmem, rfl⟩
      · exact absurd rfl hne
      · exact ⟨hmem, rfl⟩
    · rintro ⟨hmem, rfl⟩
      exact ⟨hfresh b hmem, Or.inr hmem, rfl⟩

end Holds

end InMemoryCache

end SpectrumOffchain
