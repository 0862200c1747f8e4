import SpectrumOffchain.ChainSync.Model
import SpectrumOffchain.Lib.ChangeLog
import SpectrumOffchain.Lib.Table
import SpectrumOffchain.Lib.Transition

/-!
# Following the mempool of a node

`sync` fetches the whole mempool page by page and brings the projection of it up to date.
What leaves the projection is confirmed if one of the latest blocks has it and withdrawn
otherwise, what enters it is accepted.  The updates queue up and are handed out one at a
time between the rounds, while the ledger stream pushes and pops the latest blocks.

Each update is a change of a set of transaction ids.  A round logs a legal sequence of
changes (`Logs`), so that what has been handed out and what is still pending together are
a legal log whose replay is the key set of the projection (`consistent_of_run`).

## Strategy

A log is legal if each change fits the set that the changes before it have made: what is
accepted is not there yet, and what leaves is there.  Logs compose (`Logs.trans`), and so the
round is proved one update at a time: `withdraw` and `accept` log one change each or none
(`logs_withdraw`, `logs_accept`), and the two loops follow by `Logs.foldl`.  That the pool as
fetched may name a transaction twice does no harm, since an update is only made where it
changes the projection.
-/

namespace SpectrumOffchain.Mempool

open Transition

/-- `Transaction`, by its id. -/
class HasTxId (Tx : Type) (TxId : outParam Type) where
  id : Tx → TxId

variable {Tx TxId : Type} [HasTxId Tx TxId]

inductive MempoolUpdate (Tx : Type) where
  /-- Tx was accepted to mempool. -/
  | txAccepted (tx : Tx)
  /-- Tx was discarded. -/
  | txWithdrawn (tx : Tx)
  /-- Tx was confirmed. -/
  | txConfirmed (tx : Tx)
  deriving DecidableEq, Repr

/-- What the update does to a set of transaction ids. -/
def MempoolUpdate.change : MempoolUpdate Tx → Change TxId
  | txAccepted tx => .add (HasTxId.id tx)
  | txWithdrawn tx => .remove (HasTxId.id tx)
  | txConfirmed tx => .remove (HasTxId.id tx)

structure SyncState (Tx : Type) {TxId : Type} [HasTxId Tx TxId] where
  latestBlocks : List (List TxId)
  mempoolProjection : Table (HasTxId.id : Tx → TxId)
  pendingUpdates : List (MempoolUpdate Tx)

def keepLastBlocks : ℕ := 10

def txsPerRequest : ℕ := 100

/-- The loop of `sync` that fetches the pages from `offset` on.  The answers are those of the
node to the requests in their order, none if the node does not answer them all. -/
def fetchPool (offset : ℕ) : List (ℕ → ℕ → Except NodeError (List Tx)) → Option (List Tx)
  | [] => none
  | fetchMempool :: answers =>
      match fetchMempool offset txsPerRequest with
      | .ok txs =>
          if txs.length < txsPerRequest then some txs
          else (fetchPool (offset + txs.length) answers).map (txs ++ ·)
      | .error _ => fetchPool offset answers

namespace SyncState

def empty : SyncState Tx := ⟨[], .empty, []⟩

def pushBlock (s : SyncState Tx) (blk : Block Tx) : SyncState Tx :=
  let latestBlocks := s.latestBlocks ++ [blk.transactions.map HasTxId.id]
  { s with
    latestBlocks := if latestBlocks.length > keepLastBlocks then latestBlocks.tail
      else latestBlocks }

def popBlock (s : SyncState Tx) : SyncState Tx :=
  { s with latestBlocks := s.latestBlocks.dropLast }

variable [DecidableEq TxId]

/-- A round of the loop over the eliminated transactions. -/
def withdraw (s : SyncState Tx) (txId : TxId) : SyncState Tx :=
  match s.mempoolProjection.get txId with
  | some tx =>
      let update := if s.latestBlocks.any fun blk => blk.contains txId then .txConfirmed tx
        else .txWithdrawn tx
      { s with
        mempoolProjection := s.mempoolProjection.remove txId
        pendingUpdates := s.pendingUpdates ++ [update] }
  | none => s

/-- A round of the loop over the fetched transactions. -/
def accept (s : SyncState Tx) (tx : Tx) : SyncState Tx :=
  if (s.mempoolProjection.get (HasTxId.id tx)).isSome then s
  else
    { s with
      mempoolProjection := s.mempoolProjection.put tx
      pendingUpdates := s.pendingUpdates ++ [.txAccepted tx] }

/-- The ids that are in the projection and were not fetched. -/
def eliminated (s : SyncState Tx) (pool : List Tx) : List TxId :=
  s.mempoolProjection.keys.filter fun txId => txId ∉ pool.map HasTxId.id

/-- `sync` once the pages are fetched; `elimTxs` are the eliminated ids in the order in which
the set of them is iterated. -/
def sync (s : SyncState Tx) (elimTxs : List TxId) (pool : List Tx) : SyncState Tx :=
  pool.foldl accept (elimTxs.foldl withdraw s)

end SyncState

/-! ## Runs -/

/-- A step of one of the two streams. -/
inductive Event (Tx TxId : Type) where
  | sync (answers : List (ℕ → ℕ → Except NodeError (List Tx))) (elimTxs : List TxId)
  | pushBlock (blk : Block Tx)
  | popBlock
  | yieldUpdate

/-- The state, with the updates that have been handed out. -/
structure Observed (Tx : Type) {TxId : Type} [HasTxId Tx TxId] where
  yielded : List (MempoolUpdate Tx)
  state : SyncState Tx

/-- All updates so far. -/
def Observed.updates (s : Observed Tx) : List (MempoolUpdate Tx) :=
  s.yielded ++ s.state.pendingUpdates

variable [DecidableEq TxId]

inductive Step : Observed Tx → Event Tx TxId → Observed Tx → Prop where
  | sync {s : Observed Tx} {answers : List (ℕ → ℕ → Except NodeError (List Tx))} {pool : List Tx}
      {elimTxs : List TxId} (hpool : fetchPool 0 answers = some pool)
      (helim : elimTxs.Perm (s.state.eliminated pool)) :
      Step s (.sync answers elimTxs) ⟨s.yielded, s.state.sync elimTxs pool⟩
  | pushBlock {s : Observed Tx} {blk : Block Tx} :
      Step s (.pushBlock blk) ⟨s.yielded, s.state.pushBlock blk⟩
  | popBlock {s : Observed Tx} : Step s .popBlock ⟨s.yielded, s.state.popBlock⟩
  | yieldUpdate {s : Observed Tx} {upd : MempoolUpdate Tx} {rest : List (MempoolUpdate Tx)}
      (hpending : s.state.pendingUpdates = upd :: rest) :
      Step s .yieldUpdate ⟨s.yielded ++ [upd], { s.state with pendingUpdates := rest }⟩

/-! ## What a round logs -/

namespace SyncState

/-- The ids in the projection. -/
def ids (s : SyncState Tx) : Finset TxId := s.mempoolProjection.keys.toFinset

/-- The updates that lead from one state to another are a legal log of the changes. -/
def Logs (s s' : SyncState Tx) : Prop :=
  ∃ log : List (MempoolUpdate Tx), s'.pendingUpdates = s.pendingUpdates ++ log ∧
    Change.Legal s.ids (log.map MempoolUpdate.change) ∧
    Change.replay s.ids (log.map MempoolUpdate.change) = s'.ids

variable {s s' s'' : SyncState Tx}

theorem Logs.refl (s : SyncState Tx) : s.Logs s := ⟨[], by simp, trivial, rfl⟩

theorem Logs.trans (h : s.Logs s') (h' : s'.Logs s'') : s.Logs s'' := by
  obtain ⟨log, hpending, hlegal, hreplay⟩ := h
  obtain ⟨log', hpending', hlegal', hreplay'⟩ := h'
  refine ⟨log ++ log', ?_, ?_, ?_⟩
  · rw [hpending', hpending, List.append_assoc]
  · rw [List.map_append, Change.legal_append, hreplay]
    exact ⟨hlegal, hlegal'⟩
  · rw [List.map_append, Change.replay_append, hreplay, hreplay']

theorem Logs.foldl {α : Type} {f : SyncState Tx → α → SyncState Tx}
    (hf : ∀ (s : SyncState Tx) (a : α), s.Logs (f s a)) (items : List α) (s : SyncState Tx) :
    s.Logs (items.foldl f s) := by
  induction items generalizing s with
  | nil => exact Logs.refl s
  | cons a rest ih => exact (hf s a).trans (ih (f s a))

/-- One update is a legal log if its change fits. -/
theorem logs_single {upd : MempoolUpdate Tx}
    (hpending : s'.pendingUpdates = s.pendingUpdates ++ [upd]) (hfits : upd.change.Fits s.ids)
    (hids : upd.change.apply s.ids = s'.ids) : s.Logs s' :=
  ⟨[upd], hpending, ⟨hfits, trivial⟩, hids⟩

theorem mem_ids {txId : TxId} : txId ∈ s.ids ↔ txId ∈ s.mempoolProjection.keys := List.mem_toFinset

theorem ids_withdraw (s : SyncState Tx) (txId : TxId) : (s.withdraw txId).ids = s.ids.erase txId := by
  unfold withdraw
  split
  · ext other
    rw [Finset.mem_erase, mem_ids, mem_ids, Table.mem_keys_remove, and_comm]
  · next hget =>
      symm
      rw [Finset.erase_eq_self, mem_ids, ← Table.isSome_get, hget]
      exact Bool.false_ne_true

theorem ids_accept (s : SyncState Tx) (tx : Tx) :
    (s.accept tx).ids = insert (HasTxId.id tx) s.ids := by
  unfold accept
  split
  · next hsome =>
      symm
      rw [Finset.insert_eq_self, mem_ids, ← Table.isSome_get]
      exact hsome
  · ext other
    rw [Finset.mem_insert, mem_ids, mem_ids, Table.mem_keys_put]

theorem logs_withdraw (s : SyncState Tx) (txId : TxId) : s.Logs (s.withdraw txId) := by
  have hids := s.ids_withdraw txId
  unfold withdraw at hids ⊢
  split
  · next tx hget =>
      rw [hget] at hids
      obtain ⟨hmem, rfl⟩ := Table.get_eq_some.mp hget
      have hstored : HasTxId.id tx ∈ s.ids := mem_ids.mpr (List.mem_map_of_mem hmem)
      -- confirmed or withdrawn, the update removes the id
      split
      · exact logs_single rfl hstored hids.symm
      · exact logs_single rfl hstored hids.symm
  · exact Logs.refl s

theorem logs_accept (s : SyncState Tx) (tx : Tx) : s.Logs (s.accept tx) := by
  have hids := s.ids_accept tx
  unfold accept at hids ⊢
  split
  · exact Logs.refl s
  · next hsome =>
      rw [if_neg hsome] at hids
      refine logs_single rfl ?_ hids.symm
      show HasTxId.id tx ∉ s.ids
      rw [mem_ids, ← Table.isSome_get]
      exact hsome

theorem logs_sync (s : SyncState Tx) (elimTxs : List TxId) (pool : List Tx) :
    s.Logs (s.sync elimTxs pool) :=
  (Logs.foldl logs_withdraw elimTxs s).trans (Logs.foldl logs_accept pool _)

theorem ids_foldl_withdraw (elimTxs : List TxId) (s : SyncState Tx) :
    (elimTxs.foldl withdraw s).ids = s.ids \ elimTxs.toFinset := by
  induction elimTxs generalizing s with
  | nil => simp
  | cons txId rest ih =>
      rw [List.foldl_cons, ih, ids_withdraw]
      ext other
      simp only [Finset.mem_sdiff, Finset.mem_erase, List.mem_toFinset, List.mem_cons]
      tauto

theorem ids_foldl_accept (pool : List Tx) (s : SyncState Tx) :
    (pool.foldl accept s).ids = s.ids ∪ (pool.map HasTxId.id).toFinset := by
  induction pool generalizing s with
  | nil => simp
  | cons tx rest ih =>
      rw [List.foldl_cons, ih, ids_accept]
      ext other
      simp only [Finset.mem_union, Finset.mem_insert, List.mem_toFinset, List.map_cons,
        List.mem_cons]
      tauto

/-- After a round the projection has exactly what was fetched. -/
theorem ids_sync {elimTxs : List TxId} {pool : List Tx}
    (helim : elimTxs.Perm (s.eliminated pool)) :
    (s.sync elimTxs pool).ids = (pool.map HasTxId.id).toFinset := by
  rw [sync, ids_foldl_accept, ids_foldl_withdraw]
  ext txId
  rw [Finset.mem_union, Finset.mem_sdiff, List.mem_toFinset, List.mem_toFinset, helim.mem_iff,
    eliminated, List.mem_filter, decide_eq_true_eq, mem_ids]
  tauto

end SyncState

/-! ## The stream -/

/-- All updates so far are a legal log, and its replay gives the ids in the projection. -/
def Observed.Consistent (s : Observed Tx) : Prop :=
  Change.Legal ∅ (s.updates.map MempoolUpdate.change) ∧
    Change.replay ∅ (s.updates.map MempoolUpdate.change) = s.state.ids

theorem Observed.Consistent.step {s t : Observed Tx} {event : Event Tx TxId}
    (h : s.Consistent) (hstep : Step s event t) : t.Consistent := by
  cases hstep with
  | @sync answers pool elimTxs hpool helim =>
      obtain ⟨hlegal, hreplay⟩ := h
      obtain ⟨log, hpending, hlegal', hreplay'⟩ := s.state.logs_sync elimTxs pool
      rw [Observed.Consistent, Observed.updates, hpending, ← List.append_assoc, List.map_append,
        Change.legal_append, Change.replay_append]
      rw [Observed.updates] at hlegal hreplay
      rw [hreplay]
      exact ⟨⟨hlegal, hlegal'⟩, hreplay'⟩
  | pushBlock => exact h
  | popBlock => exact h
  | @yieldUpdate upd rest hpending =>
      have hupdates : s.updates = s.yielded ++ [upd] ++ rest := by
        rw [Observed.updates, hpending, List.append_assoc]
        rfl
      rw [Observed.Consistent, hupdates] at h
      exact h

/-- In every run, the updates that were handed out and those still pending replay to the
projection, the updates of each transaction are acceptances and removals in turn, and a
round leaves in the projection exactly what it fetched. -/
theorem consistent_of_run {events : List (Event Tx TxId)} {s : Observed Tx}
    (hrun : Run Step ⟨[], SyncState.empty⟩ events s) :
    Change.replay ∅ (s.updates.map MempoolUpdate.change) =
        s.state.mempoolProjection.keys.toFinset ∧
      (∀ txId : TxId, Change.Alternates false
        ((s.updates.map MempoolUpdate.change).filter (·.subject = txId))) ∧
      ∀ (answers : List (ℕ → ℕ → Except NodeError (List Tx))) (elimTxs : List TxId)
        (t : Observed Tx), Step s (.sync answers elimTxs) t →
        ∃ pool, fetchPool 0 answers = some pool ∧
          ∀ txId, txId ∈ t.state.mempoolProjection.keys ↔ ∃ tx ∈ pool, HasTxId.id tx = txId := by
  have hconsistent : s.Consistent :=
    hrun.invariant (fun _ _ _ h hstep => h.step hstep) ⟨trivial, rfl⟩
  refine ⟨hconsistent.2, ?_, ?_⟩
  · intro txId
    have halternates := Change.alternates_of_legal txId hconsistent.1
    exact halternates
  · intro answers elimTxs t hstep
    cases hstep with
    | @sync _ pool _ hpool helim =>
        refine ⟨pool, hpool, fun txId => ?_⟩
        rw [← SyncState.mem_ids, SyncState.ids_sync helim, List.mem_toFinset, List.mem_map]

namespace Sample

/-- Transactions that are their own ids. -/
scoped instance : HasTxId ℕ ℕ := ⟨id⟩

/-- A node that answers with one page. -/
def answer (txs : List ℕ) : ℕ → ℕ → Except NodeError (List ℕ) := fun _ _ => .ok txs

def block (txs : List ℕ) : Block ℕ := ⟨ChainSync.Sample.blockId 1, ChainSync.Sample.blockId 0, 1, 0, txs⟩

end Sample

open Sample in
/-- Transactions 1 and 2 enter the mempool, 1 is in the next block, and 2 is withdrawn. -/
theorem consistent_of_run_sample : ∃ s : Observed ℕ,
    s.updates = [.txAccepted 1, .txAccepted 2, .txConfirmed 1, .txWithdrawn 2] ∧
      Change.replay ∅ (s.updates.map MempoolUpdate.change) =
        s.state.mempoolProjection.keys.toFinset := by
  refine ⟨_, ?_, (@consistent_of_run ℕ ℕ _ _ [.sync [answer [1, 1, 2]] [], .yieldUpdate,
    .pushBlock (block [1]), .sync [answer []] [1, 2]] _
    (Run.cons (Step.sync rfl ?_) (Run.cons (Step.yieldUpdate rfl) (Run.cons Step.pushBlock
      (Run.single (Step.sync rfl ?_)))))).1⟩
  · decide
  · decide
  · decide

end SpectrumOffchain.Mempool
