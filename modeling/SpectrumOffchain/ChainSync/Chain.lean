import Mathlib.Data.List.Chain
import SpectrumOffchain.ChainSync.Model

/-!
# Chains of blocks

The applied blocks form a stack, the best block on top: each block is the child of the
one below it and stands one height above it (`Block.Follows`).  Heights therefore
decrease down the stack, so that no id occurs in it twice, and a chain that starts at
`start` has its best block at `start + length - 1`.

## Two descriptions

`LiveChain tree start stack` describes such a stack inside the tree of all blocks that nodes
can serve, where an id has one parent and one height.  So two blocks of a chain with one id
are at one height (`LiveChain.height_eq_of_id_eq`), and the best block can be told by its
height alone.  `Fits start stack b` is what a synchroniser can see of the next block: its
parent is the best block, or the stack is empty and the block is at the starting height.
For blocks of the tree at the next height the two agree (`LiveChain.fits_of_mem`,
`LiveChain.push_of_fits`).
-/

namespace SpectrumOffchain

variable {Tx : Type}

/-- `b` is the block on top of `p`. -/
def Block.Follows (b p : Block Tx) : Prop := b.parentId = p.id ∧ b.height = p.height + 1

instance (b p : Block Tx) : Decidable (b.Follows p) := inferInstanceAs (Decidable (_ ∧ _))

section Heights

variable {tip b : Block Tx} {rest stack : List (Block Tx)}

theorem height_lt_of_isChain (h : (tip :: rest).IsChain Block.Follows) (hb : b ∈ rest) :
    b.height < tip.height := by
  induction rest generalizing tip with
  | nil => cases hb
  | cons p rest ih =>
      obtain ⟨hfollows, hrest⟩ := List.isChain_cons_cons.mp h
      have hp : tip.height = p.height + 1 := hfollows.2
      rcases List.mem_cons.mp hb with rfl | hb
      · omega
      · have hlt : b.height < p.height := ih hrest hb
        omega

/-- The height of the best block, counted from the lowest one. -/
theorem height_eq_of_getLast? (h : (tip :: rest).IsChain Block.Follows)
    (hb : (tip :: rest).getLast? = some b) : tip.height = b.height + rest.length := by
  induction rest generalizing tip with
  | nil =>
      cases hb
      rfl
  | cons p rest ih =>
      obtain ⟨hfollows, hrest⟩ := List.isChain_cons_cons.mp h
      have hp : p.height = b.height + rest.length := ih hrest (by simpa using hb)
      have htip : tip.height = p.height + 1 := hfollows.2
      rw [htip, hp, List.length_cons]
      omega

theorem getLast?_height_le (h : stack.IsChain Block.Follows) {bottom : Block Tx}
    (hbottom : stack.getLast? = some bottom) (hb : b ∈ stack) : bottom.height ≤ b.height := by
  induction stack with
  | nil => cases hb
  | cons tip rest ih =>
      rcases List.mem_cons.mp hb with rfl | hmem
      · rw [height_eq_of_getLast? h hbottom]
        exact Nat.le_add_right _ _
      · cases rest with
        | nil => cases hmem
        | cons p rest => exact ih h.tail (by simpa using hbottom) hmem

end Heights

/-! ## Chains in the block tree -/

/-- The blocks of the tree from `start` up to a best block, which comes first. -/
structure LiveChain (tree : BlockTree) (start : ℕ) (stack : List (Block Tx)) : Prop where
  linked : stack.IsChain Block.Follows
  grounded : ∀ b, stack.getLast? = some b → b.height = start
  inTree : ∀ b ∈ stack, tree.HasChild b

namespace LiveChain

variable {tree : BlockTree} {start : ℕ} {tip b : Block Tx} {rest stack : List (Block Tx)}

theorem nil : LiveChain tree start ([] : List (Block Tx)) where
  linked := List.IsChain.nil
  grounded := by simp
  inTree := by simp

theorem tail (h : LiveChain tree start (tip :: rest)) : LiveChain tree start rest where
  linked := h.linked.tail
  grounded b hb := by
    cases rest with
    | nil => cases hb
    | cons p rest => exact h.grounded b (by simpa using hb)
  inTree b hb := h.inTree b (List.mem_cons_of_mem _ hb)

theorem height_head (h : LiveChain tree start (tip :: rest)) :
    tip.height = start + rest.length := by
  obtain ⟨bottom, hbottom⟩ : ∃ bottom, (tip :: rest).getLast? = some bottom :=
    ⟨_, List.getLast?_eq_getLast_of_ne_nil (List.cons_ne_nil _ _)⟩
  rw [height_eq_of_getLast? h.linked hbottom, h.grounded bottom hbottom]

/-- Every block of the chain is below the next height. -/
theorem height_lt (h : LiveChain tree start stack) (hb : b ∈ stack) :
    b.height < start + stack.length := by
  cases stack with
  | nil => cases hb
  | cons tip rest =>
      have htip : tip.height = start + rest.length := h.height_head
      rw [List.length_cons]
      rcases List.mem_cons.mp hb with rfl | hb
      · omega
      · have hlt : b.height < tip.height := height_lt_of_isChain h.linked hb
        omega

/-- The block of the chain just below the next height is the best one. -/
theorem eq_head (h : LiveChain tree start (tip :: rest)) (hb : b ∈ tip :: rest)
    (hheight : b.height + 1 = start + (tip :: rest).length) : b = tip := by
  rcases List.mem_cons.mp hb with rfl | hb
  · rfl
  · have hlt : b.height < start + rest.length := h.tail.height_lt hb
    rw [List.length_cons] at hheight
    omega

/-- An id fixes the height, so that equal ids are ids of one height. -/
theorem height_eq_of_id_eq {b b' : Block Tx} (hb : tree.HasChild b) (hb' : tree.HasChild b')
    (hid : b.id = b'.id) : b.height = b'.height := by
  have hcast : (b.height : ℤ) = b'.height := by rw [hb.1.2, hb'.1.2, hid]
  exact Int.ofNat_inj.mp hcast

theorem id_ne_of_mem_rest (h : LiveChain tree start (tip :: rest)) (hb : b ∈ rest) :
    b.id ≠ tip.id := by
  intro hid
  have heq : b.height = tip.height :=
    height_eq_of_id_eq (h.inTree b (List.mem_cons_of_mem _ hb)) (h.inTree tip List.mem_cons_self)
      hid
  have hlt : b.height < tip.height := height_lt_of_isChain h.linked hb
  omega

theorem nodup_ids (h : LiveChain tree start stack) : (stack.map Block.id).Nodup := by
  induction stack with
  | nil => exact List.nodup_nil
  | cons tip rest ih =>
      rw [List.map_cons, List.nodup_cons]
      refine ⟨?_, ih h.tail⟩
      intro hmem
      obtain ⟨b, hb, hid⟩ := List.mem_map.mp hmem
      exact h.id_ne_of_mem_rest hb hid

/-- A block is not its own parent, nor is one of the blocks above it. -/
theorem id_ne_parentId (h : LiveChain tree start stack) (hb : b ∈ stack) {bottom : Block Tx}
    (hbottom : stack.getLast? = some bottom) : b.id ≠ bottom.parentId := by
  intro hid
  have hparent : tree.height bottom.parentId + 1 = bottom.height :=
    (h.inTree bottom (List.mem_of_getLast? hbottom)).2
  have hheight : (b.height : ℤ) = tree.height b.id := (h.inTree b hb).1.2
  have hle : bottom.height ≤ b.height := getLast?_height_le h.linked hbottom hb
  rw [hid] at hheight
  omega

/-- The best block is not the one below the lowest. -/
theorem parent_ne (h : LiveChain tree start (tip :: rest)) {bottom : Block Tx}
    (hbottom : (tip :: rest).getLast? = some bottom) : tree.parent bottom.id ≠ tip.id := by
  have hparent : bottom.parentId = tree.parent bottom.id :=
    (h.inTree bottom (List.mem_of_getLast? hbottom)).1.1
  rw [← hparent]
  exact (h.id_ne_parentId List.mem_cons_self hbottom).symm

/-- When the next block to apply is put on top, the chain goes on. -/
theorem push (h : LiveChain tree start stack) (hb : tree.HasChild b)
    (hheight : b.height = start + stack.length)
    (hparent : ∀ tip, stack.head? = some tip → b.parentId = tip.id) :
    LiveChain tree start (b :: stack) := by
  refine ⟨?_, ?_, ?_⟩
  · cases stack with
    | nil => exact List.isChain_singleton b
    | cons tip rest =>
        have htip : tip.height = start + rest.length := h.height_head
        refine List.isChain_cons_cons.mpr ⟨⟨hparent tip rfl, ?_⟩, h.linked⟩
        rw [hheight, htip, List.length_cons]
        omega
  · intro bottom hbottom
    cases stack with
    | nil =>
        cases hbottom
        simpa using hheight
    | cons tip rest => exact h.grounded bottom (by simpa using hbottom)
  · intro b' hb'
    rcases List.mem_cons.mp hb' with rfl | hb'
    · exact hb
    · exact h.inTree b' hb'

end LiveChain

/-! ## Well-nested streams -/

/-- A block may be applied to a chain: it is a child of the best block, or it is the
starting block of an empty chain. -/
def Fits (start : ℕ) : List (Block Tx) → Block Tx → Prop
  | [], b => b.height = start
  | tip :: _, b => b.parentId = tip.id

/-- A served block whose parent is one of the chain is a child of the best block: the
parent stands just below the next height, where only the best block is. -/
theorem LiveChain.fits_of_mem {tree : BlockTree} {start : ℕ} {stack : List (Block Tx)}
    {b parent : Block Tx} (h : LiveChain tree start stack) (hb : tree.HasChild b)
    (hheight : b.height = start + stack.length) (hmem : parent ∈ stack)
    (hid : parent.id = b.parentId) : Fits start stack b := by
  cases stack with
  | nil => cases hmem
  | cons tip rest =>
      have hbelow : (parent.height : ℤ) + 1 = b.height := by
        rw [(h.inTree parent hmem).1.2, hid]
        exact hb.2
      have htip : parent = tip := h.eq_head hmem (by omega)
      rw [htip] at hid
      exact hid.symm

/-- A served child of the best block is the next block. -/
theorem LiveChain.height_of_fits {tree : BlockTree} {start : ℕ} {tip b : Block Tx}
    {rest : List (Block Tx)} (h : LiveChain tree start (tip :: rest)) (hb : tree.HasChild b)
    (hparent : b.parentId = tip.id) : b.height = start + (tip :: rest).length := by
  have hbelow : tree.height b.parentId + 1 = b.height := hb.2
  have htip : (tip.height : ℤ) = tree.height tip.id := (h.inTree tip List.mem_cons_self).1.2
  have hheight : tip.height = start + rest.length := h.height_head
  rw [hparent] at hbelow
  rw [List.length_cons]
  omega

/-- The next block is at the starting height only when the chain is empty. -/
theorem fits_of_start {start : ℕ} {stack : List (Block Tx)} {b : Block Tx}
    (hheight : b.height = start + stack.length) (hstart : b.height = start) :
    Fits start stack b := by
  cases stack with
  | nil => exact hstart
  | cons tip rest =>
      rw [List.length_cons] at hheight
      omega

theorem LiveChain.push_of_fits {tree : BlockTree} {start : ℕ} {stack : List (Block Tx)}
    {b : Block Tx} (h : LiveChain tree start stack) (hb : tree.HasChild b)
    (hheight : b.height = start + stack.length) (hfits : Fits start stack b) :
    LiveChain tree start (b :: stack) := by
  apply h.push hb hheight
  intro tip htip
  obtain ⟨rest, rfl⟩ := List.head?_eq_some_iff.mp htip
  exact hfits

/-- The height of the block that the chain needs next. -/
def heightAbove (start : ℕ) : List (Block Tx) → ℕ
  | [] => start
  | tip :: _ => tip.height + 1

theorem LiveChain.heightAbove_eq {tree : BlockTree} {start : ℕ} {stack : List (Block Tx)}
    (h : LiveChain tree start stack) : heightAbove start stack = start + stack.length := by
  cases stack with
  | nil => rfl
  | cons tip rest =>
      show tip.height + 1 = _
      rw [h.height_head, List.length_cons, Nat.add_assoc]

end SpectrumOffchain
