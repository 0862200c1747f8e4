import SpectrumOffchain.EventSink.Events

/-!
# The ledger

The ledger starts out with some unspent boxes, the base, and a chain of transactions is
applied to it, the latest of which comes first in the list.  A transaction spends boxes
that are unspent and creates boxes whose ids are new, so that an id stands for one box
(`Valid.eq_of_boxId`).
-/

namespace SpectrumOffchain.Ledger

/-- The boxes that are unspent after a chain. -/
def unspent (base : List ErgoBox) : List LedgerTx → List ErgoBox
  | [] => base
  | tx :: chain => (unspent base chain).filter (fun bx => bx.boxId ∉ tx.inputs) ++ tx.outputs

/-- All boxes there have been. -/
def created (base : List ErgoBox) : List LedgerTx → List ErgoBox
  | [] => base
  | tx :: chain => tx.outputs ++ created base chain

/-- A transaction that can be applied after a chain. -/
structure Accepts (base : List ErgoBox) (chain : List LedgerTx) (tx : LedgerTx) : Prop where
  inputs_unspent : ∀ i ∈ tx.inputs, ∃ bx ∈ unspent base chain, bx.boxId = i
  outputs_fresh : ∀ bx ∈ tx.outputs, ∀ bx' ∈ created base chain, bx.boxId ≠ bx'.boxId

/-- Every transaction of the chain was accepted. -/
def Valid (base : List ErgoBox) : List LedgerTx → Prop
  | [] => (base.map ErgoBox.boxId).Nodup
  | tx :: chain => Accepts base chain tx ∧ Valid base chain

variable {base : List ErgoBox} {chain : List LedgerTx} {tx : LedgerTx} {bx bx' : ErgoBox}

theorem mem_unspent_cons : bx ∈ unspent base (tx :: chain) ↔
    (bx ∈ unspent base chain ∧ bx.boxId ∉ tx.inputs) ∨ bx ∈ tx.outputs := by
  rw [unspent, List.mem_append, List.mem_filter, decide_eq_true_eq]

theorem mem_created_cons : bx ∈ created base (tx :: chain) ↔
    bx ∈ tx.outputs ∨ bx ∈ created base chain := List.mem_append

theorem created_of_unspent (h : bx ∈ unspent base chain) : bx ∈ created base chain := by
  induction chain with
  | nil => exact h
  | cons tx chain ih =>
      rcases mem_unspent_cons.mp h with ⟨h, -⟩ | h
      · exact mem_created_cons.mpr (.inr (ih h))
      · exact mem_created_cons.mpr (.inl h)

theorem Valid.nodup_created (h : Valid base chain) :
    ((created base chain).map ErgoBox.boxId).Nodup := by
  induction chain with
  | nil => exact h
  | cons tx chain ih =>
      rw [created, List.map_append, List.nodup_append]
      refine ⟨tx.distinct, ih h.2, ?_⟩
      intro i hi i' hi' heq
      obtain ⟨bx, hbx, rfl⟩ := List.mem_map.mp hi
      obtain ⟨bx', hbx', rfl⟩ := List.mem_map.mp hi'
      exact h.1.outputs_fresh bx hbx bx' hbx' heq

/-- A box is known by its id. -/
theorem Valid.eq_of_boxId (h : Valid base chain) (hbx : bx ∈ created base chain)
    (hbx' : bx' ∈ created base chain) (heq : bx.boxId = bx'.boxId) : bx = bx' :=
  List.inj_on_of_nodup_map h.nodup_created hbx hbx' heq

/-- An input of a transaction is unspent until then. -/
theorem Accepts.unspent_of_input (h : Accepts base chain tx) (hvalid : Valid base chain)
    (hbx : bx ∈ created base chain) (hinput : bx.boxId ∈ tx.inputs) :
    bx ∈ unspent base chain := by
  obtain ⟨bx', hbx', heq⟩ := h.inputs_unspent _ hinput
  rw [← hvalid.eq_of_boxId (created_of_unspent hbx') hbx heq]
  exact hbx'

theorem created_of_output (htx : tx ∈ chain) (hbx : bx ∈ tx.outputs) : bx ∈ created base chain := by
  induction chain with
  | nil => cases htx
  | cons latest chain ih =>
      rcases List.mem_cons.mp htx with rfl | htx
      · exact mem_created_cons.mpr (.inl hbx)
      · exact mem_created_cons.mpr (.inr (ih htx))

/-- What was spent had been created. -/
theorem Valid.created_of_input (h : Valid base chain) (htx : tx ∈ chain) {i : BoxId}
    (hi : i ∈ tx.inputs) : ∃ bx ∈ created base chain, bx.boxId = i := by
  induction chain with
  | nil => cases htx
  | cons latest chain ih =>
      obtain ⟨bx, hbx, rfl⟩ : ∃ bx ∈ created base chain, bx.boxId = i := by
        rcases List.mem_cons.mp htx with rfl | htx
        · obtain ⟨bx, hbx, heq⟩ := h.1.inputs_unspent i hi
          exact ⟨bx, created_of_unspent hbx, heq⟩
        · exact ih h.2 htx
      exact ⟨bx, mem_created_cons.mpr (.inr hbx), rfl⟩

/-- A new box is not an input of the transaction that creates it, nor of an earlier one. -/
theorem Valid.notMem_inputs_of_output (h : Valid base (tx :: chain)) (hbx : bx ∈ tx.outputs)
    {older : LedgerTx} (holder : older ∈ tx :: chain) : bx.boxId ∉ older.inputs := by
  intro hi
  obtain ⟨bx', hbx', heq⟩ : ∃ bx' ∈ created base chain, bx'.boxId = bx.boxId := by
    rcases List.mem_cons.mp holder with rfl | holder
    · obtain ⟨bx', hbx', heq⟩ := h.1.inputs_unspent _ hi
      exact ⟨bx', created_of_unspent hbx', heq⟩
    · exact h.2.created_of_input holder hi
  exact h.1.outputs_fresh bx hbx bx' hbx' heq.symm

theorem mem_created_iff : bx ∈ created base chain ↔ bx ∈ base ∨ ∃ tx ∈ chain, bx ∈ tx.outputs := by
  induction chain with
  | nil => simp [created]
  | cons tx chain ih =>
      rw [mem_created_cons, ih, List.exists_mem_cons_iff]
      exact or_left_comm

/-- What is unspent is left of the base or has been created since. -/
theorem mem_unspent_iff : bx ∈ unspent base chain ↔
    (bx ∈ base ∧ ∀ tx ∈ chain, bx.boxId ∉ tx.inputs) ∨ bx ∈ unspent [] chain := by
  induction chain with
  | nil => simp [unspent]
  | cons tx chain ih =>
      rw [mem_unspent_cons, mem_unspent_cons, ih, List.forall_mem_cons]
      tauto

/-- The transactions that are on the ledger at some time, or that are predicted to be, and the
unspent boxes that there were before.  The id of a box is a hash of its contents and of the
transaction that creates it. -/
structure Origins where
  base : List ErgoBox
  distinct : (base.map ErgoBox.boxId).Nodup
  Known : LedgerTx → Prop
  creator : ∀ tx tx', Known tx → Known tx' → ∀ bx ∈ tx.outputs, ∀ bx' ∈ tx'.outputs,
    bx.boxId = bx'.boxId → tx = tx'
  older : ∀ tx, Known tx → ∀ bx ∈ tx.outputs, ∀ bx' ∈ base, bx.boxId ≠ bx'.boxId

theorem Origins.eq_of_boxId (origins : Origins) {tx' : LedgerTx} (htx : origins.Known tx)
    (htx' : origins.Known tx') (hbx : bx ∈ tx.outputs) (hbx' : bx' ∈ tx'.outputs)
    (heq : bx.boxId = bx'.boxId) : tx = tx' ∧ bx = bx' := by
  obtain rfl := origins.creator tx tx' htx htx' bx hbx bx' hbx' heq
  exact ⟨rfl, List.inj_on_of_nodup_map tx.distinct hbx hbx' heq⟩

/-! ## Entities on the ledger -/

section Entities

variable {T TEntityId : Type} (tryFromBox : ErgoBox → Option T) (entityId : T → TEntityId)

/-- No two of the boxes are of one entity. -/
def UniqueEntities (boxes : List ErgoBox) : Prop :=
  ∀ bx ∈ boxes, ∀ bx' ∈ boxes, ∀ e e', tryFromBox bx = some e → tryFromBox bx' = some e' →
    entityId e = entityId e' → bx = bx'

/-- After every part of the chain an entity has at most one unspent box. -/
def UniqueChain (base : List ErgoBox) : List LedgerTx → Prop
  | [] => UniqueEntities tryFromBox entityId base
  | tx :: chain => UniqueEntities tryFromBox entityId (unspent base (tx :: chain)) ∧
      UniqueChain base chain

variable {tryFromBox entityId}

theorem UniqueChain.unique (h : UniqueChain tryFromBox entityId base chain) :
    UniqueEntities tryFromBox entityId (unspent base chain) := by
  cases chain with
  | nil => exact h
  | cons tx chain => exact h.1

end Entities

end SpectrumOffchain.Ledger
