import SpectrumOffchain.ChainSync.Restart

/-!
# The transactions that are rolled back

A block that is rolled back is put together from the keys of the database.  Whatever has been
pruned, left over or stored twice, a body that is found under an id is that of a transaction with
this id, and the list that is found for a block of the chain is its own (`Bodies`).  A call that
returns has found all of it, so that the block it hands out has the transactions of the block that
was applied, as far as ids tell them apart (`Bodies.takeBestBlock`).
-/

namespace SpectrumOffchain

open Transition

variable {Tx : Type} [SigmaTransaction Tx]

/-- The transactions of the applied blocks, the last one first. -/
def ChainSync.appliedTxs {Tx : Type} (stack : List (Block Tx)) : List Tx :=
  stack.flatMap fun b => b.transactions.reverse

theorem ChainSync.appliedTxs_cons {Tx : Type} (b : Block Tx) (stack : List (Block Tx)) :
    appliedTxs (b :: stack) = b.transactions.reverse ++ appliedTxs stack := List.flatMap_cons

namespace ChainCacheRocksDB

/-- What is found for the blocks of a chain and under the ids of transactions. -/
structure Bodies (db : ChainCacheRocksDB Tx) (stack : List (Block Tx)) : Prop where
  txIds : ∀ b ∈ stack, ∀ ids, db.txIds.get b.id = some ids → ids = b.txIds
  txs : ∀ id bytes, db.txs.get id = some bytes →
    ∃ tx : Tx, SigmaTransaction.id tx = id ∧ SigmaTransaction.sigmaSerializeBytes tx = bytes

variable {db db' : ChainCacheRocksDB Tx} {stack rest : List (Block Tx)} {tip b taken : Block Tx}

theorem bodies_new (maxRollbackDepth : ℕ) :
    Bodies (new maxRollbackDepth : ChainCacheRocksDB Tx) [] where
  txIds := nofun
  txs := nofun

/-- The bodies of a block that is put are those of its transactions. -/
theorem Bodies.putBlock (h : Bodies db stack) (hfresh : ∀ b' ∈ stack, b'.id ≠ b.id) :
    Bodies (db.putBlock b) (b :: stack) where
  txIds b' hb' ids hget := by
    have hget : (db.txIds.put b.id b.txIds).get b'.id = some ids := hget
    rcases List.mem_cons.mp hb' with rfl | hb'
    · rw [Store.get_put_self] at hget
      exact (Option.some.inj hget).symm
    · rw [Store.get_put_of_ne (hfresh b' hb')] at hget
      exact h.txIds b' hb' ids hget
  txs id bytes hget := by
    have hentry : db.txs.get id = some bytes ∨ (id, bytes) ∈ b.txEntries :=
      Store.get_putAll_eq_some hget
    rcases hentry with hold | hnew
    · exact h.txs id bytes hold
    · obtain ⟨tx, -, heq⟩ := List.mem_map.mp hnew
      cases heq
      exact ⟨tx, rfl, rfl⟩

/-- Nothing is found that was not there before. -/
theorem Bodies.mono (h : Bodies db stack)
    (htxIds : ∀ id ids, db'.txIds.get id = some ids → db.txIds.get id = some ids)
    (htxs : ∀ id bytes, db'.txs.get id = some bytes → db.txs.get id = some bytes) :
    Bodies db' stack where
  txIds b hb ids hget := h.txIds b hb ids (htxIds _ _ hget)
  txs id bytes hget := h.txs id bytes (htxs id bytes hget)

theorem Bodies.tail (h : Bodies db (tip :: rest)) : Bodies db rest where
  txIds b hb := h.txIds b (List.mem_cons_of_mem tip hb)
  txs := h.txs

theorem Bodies.appendBlock (h : Bodies db stack) (hfresh : ∀ b' ∈ stack, b'.id ≠ b.id)
    (happend : db.appendBlock b = .ok db') : Bodies db' (b :: stack) := by
  have hput := h.putBlock hfresh
  rcases appendBlock_cases happend with ⟨-, rfl⟩ | ⟨_, -, -, -, rfl⟩ | ⟨oldest, _, ids, -, -, -, rfl⟩
  · exact hput.mono (fun _ _ hget => hget) fun _ _ hget => hget
  · exact hput
  · refine hput.mono (fun _ _ hget => (Store.get_delete_eq_some.mp hget).2) fun id bytes hget => ?_
    exact Store.get_of_get_deleteAll hget

/-- Reading bodies gives transactions with the ids that were asked for, and deletes bodies. -/
theorem takeTransactions_ok {txs txs' : Store TxId Bytes}
    (hsound : ∀ id bytes, txs.get id = some bytes →
      ∃ tx : Tx, SigmaTransaction.id tx = id ∧ SigmaTransaction.sigmaSerializeBytes tx = bytes)
    {ids : List TxId} {transactions : List Tx}
    (h : takeTransactions txs ids = .ok (transactions, txs')) :
    transactions.map SigmaTransaction.id = ids ∧
      ∀ id bytes, txs'.get id = some bytes → txs.get id = some bytes := by
  induction ids generalizing txs transactions with
  | nil =>
      cases h
      exact ⟨rfl, fun _ _ hget => hget⟩
  | cons id ids ih =>
      simp only [takeTransactions, Outcome.bind_eq_ok, Outcome.unwrap_eq_ok] at h
      obtain ⟨bytes, hread, tx, hparse, ⟨others, left⟩, hrest, h⟩ := h
      cases h
      obtain ⟨tx', rfl, rfl⟩ := hsound id bytes hread
      rw [SigmaTransaction.parse_serialize] at hparse
      cases hparse
      have hdelete : ∀ id' bytes', (txs.delete (SigmaTransaction.id tx)).get id' = some bytes' →
          txs.get id' = some bytes' := fun _ _ hget => (Store.get_delete_eq_some.mp hget).2
      obtain ⟨hids, hleft⟩ := ih (fun id' bytes' hget => hsound id' bytes' (hdelete id' bytes' hget))
        hrest
      exact ⟨by rw [List.map_cons, hids], fun id' bytes' hget => hdelete _ _ (hleft _ _ hget)⟩

/-- The block that is handed out has the transactions of the best block, by their ids. -/
theorem Bodies.takeBestBlock (h : Bodies db (tip :: rest)) (hid : taken.id = tip.id)
    (htake : db.takeBestBlock = .ok (some taken, db')) :
    taken.txIds = tip.txIds ∧ Bodies db' rest := by
  unfold ChainCacheRocksDB.takeBestBlock at htake
  split at htake
  case h_2 => cases htake
  case h_1 best _ =>
    split at htake
    case h_2 => cases htake
    case h_1 ids hids =>
      simp only [Outcome.bind_eq_ok, Outcome.unwrap_eq_ok] at htake
      obtain ⟨⟨transactions, txs⟩, hread, parentId, -, bestBlock, -, hout⟩ := htake
      cases hout
      obtain ⟨hread, hleft⟩ := takeTransactions_ok h.txs hread
      have hbest : best.id = tip.id := hid
      rw [hbest] at hids
      refine ⟨?_, h.tail.mono (fun _ _ hget => hget) hleft⟩
      rw [Block.txIds, hread]
      exact h.txIds tip List.mem_cons_self ids hids

end ChainCacheRocksDB

end SpectrumOffchain
