import SpectrumOffchain.Lib.Window
import SpectrumOffchain.Mempool.Sync

/-!
# What leaves the mempool

A transaction leaves the mempool of the node as soon as a block has it.  `sync` reports it as
confirmed if it finds it in `latest_blocks`, and as withdrawn otherwise.  But the blocks reach
`latest_blocks` on a stream of their own, behind the node: a poll that comes between the block
and its upgrade finds the transaction gone and the block not there yet, and reports as discarded
what has been confirmed.  A block also leaves the window when ten others have been pushed after
it, at the tenth and not after it, and does not come back when they are popped.

`Race` has both sides: the best chain of the node, and the streams behind it.  In a reachable
state `latest_blocks` shows the blocks rolled forward on which fewer than ten have ever lain
(`Race.Follows`), so a round reports a departure as confirmed exactly when one of these has
the transaction (`Race.logged_sync`).

## Strategy

What a round appends to the log is computed in closed form (`pendingUpdates_sync`): the
departures of the transactions that are eliminated, and then the accepted ones.  A departure
is looked up in the blocks as they were when the round began, since no update of the round
changes them.  So the report on a transaction is decided by `latest_blocks` alone, and what is
there is decided by the stream: `follow` counts for each block how many have lain on it, and
the window shows those on which fewer than ten have (`Follows`).
-/

namespace SpectrumOffchain.Mempool

open Transition

variable {Tx TxId : Type} [HasTxId Tx TxId]

/-! ## The log of a round -/

namespace SyncState

variable [DecidableEq TxId] (s : SyncState Tx)

/-- One of the latest blocks has the transaction. -/
def Confirmed (txId : TxId) : Prop := ∃ blk ∈ s.latestBlocks, txId ∈ blk

theorem any_latestBlocks {txId : TxId} :
    (s.latestBlocks.any fun blk => blk.contains txId) = true ↔ s.Confirmed txId := by
  rw [List.any_eq_true]
  exact exists_congr fun blk => and_congr_right fun _ => List.contains_iff_mem

/-- The update for a transaction that is in the projection and is gone. -/
def departure (txId : TxId) : Option (MempoolUpdate Tx) :=
  (s.mempoolProjection.get txId).map fun tx =>
    if s.latestBlocks.any fun blk => blk.contains txId then .txConfirmed tx else .txWithdrawn tx

theorem latestBlocks_withdraw (txId : TxId) : (s.withdraw txId).latestBlocks = s.latestBlocks := by
  unfold withdraw
  split <;> rfl

theorem latestBlocks_accept (tx : Tx) : (s.accept tx).latestBlocks = s.latestBlocks := by
  unfold accept
  split <;> rfl

theorem latestBlocks_sync (elimTxs : List TxId) (pool : List Tx) :
    (s.sync elimTxs pool).latestBlocks = s.latestBlocks := by
  have hwithdraw : (elimTxs.foldl withdraw s).latestBlocks = s.latestBlocks := by
    induction elimTxs generalizing s with
    | nil => rfl
    | cons txId rest ih => exact (ih _).trans (s.latestBlocks_withdraw txId)
  have haccept : ∀ s : SyncState Tx, (pool.foldl accept s).latestBlocks = s.latestBlocks := by
    induction pool with
    | nil => exact fun _ => rfl
    | cons tx rest ih => exact fun s => (ih _).trans (s.latestBlocks_accept tx)
  exact (haccept _).trans hwithdraw

theorem pendingUpdates_withdraw (txId : TxId) :
    (s.withdraw txId).pendingUpdates = s.pendingUpdates ++ (s.departure txId).toList := by
  unfold withdraw departure
  split
  · next hget =>
      rw [hget]
      rfl
  · next hget =>
      rw [hget]
      exact (List.append_nil _).symm

theorem get_withdraw {txId other : TxId} (hne : other ≠ txId) :
    (s.withdraw txId).mempoolProjection.get other = s.mempoolProjection.get other := by
  unfold withdraw
  split
  · exact Table.get_remove.trans (if_neg hne)
  · rfl

theorem departure_withdraw {txId other : TxId} (hne : other ≠ txId) :
    (s.withdraw txId).departure other = s.departure other := by
  rw [departure, departure, latestBlocks_withdraw, get_withdraw s hne]

/-- The first loop of a round logs a departure for each eliminated transaction. -/
theorem pendingUpdates_foldl_withdraw {elimTxs : List TxId} (hnodup : elimTxs.Nodup) :
    (elimTxs.foldl withdraw s).pendingUpdates =
      s.pendingUpdates ++ elimTxs.filterMap s.departure := by
  induction elimTxs generalizing s with
  | nil => exact (List.append_nil _).symm
  | cons txId rest ih =>
      obtain ⟨hnotMem, hrest⟩ := List.nodup_cons.mp hnodup
      have hsame : rest.filterMap (s.withdraw txId).departure = rest.filterMap s.departure := by
        apply List.filterMap_congr
        intro other hother
        exact s.departure_withdraw fun heq => hnotMem (heq ▸ hother)
      rw [List.foldl_cons, ih _ hrest, hsame, pendingUpdates_withdraw, List.append_assoc,
        List.filterMap_cons]
      cases s.departure txId <;> rfl

/-- The second loop of a round logs acceptances only. -/
theorem pendingUpdates_foldl_accept (pool : List Tx) : ∃ accepted : List Tx,
    (pool.foldl accept s).pendingUpdates =
      s.pendingUpdates ++ accepted.map MempoolUpdate.txAccepted := by
  induction pool generalizing s with
  | nil => exact ⟨[], (List.append_nil _).symm⟩
  | cons tx rest ih =>
      obtain ⟨accepted, haccepted⟩ := ih (s.accept tx)
      rw [List.foldl_cons, haccepted]
      unfold accept
      split
      · exact ⟨accepted, rfl⟩
      · exact ⟨tx :: accepted, List.append_assoc _ _ _⟩

variable {s}

theorem mem_departures {elimTxs : List TxId} {update : MempoolUpdate Tx} :
    update ∈ elimTxs.filterMap s.departure ↔ ∃ tx ∈ s.mempoolProjection.entries,
      HasTxId.id tx ∈ elimTxs ∧ (s.Confirmed (HasTxId.id tx) ∧ update = .txConfirmed tx ∨
        ¬ s.Confirmed (HasTxId.id tx) ∧ update = .txWithdrawn tx) := by
  rw [List.mem_filterMap]
  constructor
  · rintro ⟨txId, hmem, hdeparture⟩
    obtain ⟨tx, hget, rfl⟩ := Option.map_eq_some_iff.mp hdeparture
    obtain ⟨hentry, rfl⟩ := Table.get_eq_some.mp hget
    refine ⟨tx, hentry, hmem, ?_⟩
    rw [← any_latestBlocks]
    split
    · next hany => exact .inl ⟨hany, rfl⟩
    · next hany => exact .inr ⟨hany, rfl⟩
  · rintro ⟨tx, hentry, hmem, hupdate⟩
    refine ⟨HasTxId.id tx, hmem, ?_⟩
    rw [departure, Table.get_eq_some.mpr ⟨hentry, rfl⟩, Option.map_some]
    rw [← any_latestBlocks] at hupdate
    rcases hupdate with ⟨hany, rfl⟩ | ⟨hany, rfl⟩
    · rw [if_pos hany]
    · rw [if_neg hany]

theorem txConfirmed_mem_departures {elimTxs : List TxId} {tx : Tx} :
    .txConfirmed tx ∈ elimTxs.filterMap s.departure ↔ tx ∈ s.mempoolProjection.entries ∧
      HasTxId.id tx ∈ elimTxs ∧ s.Confirmed (HasTxId.id tx) := by
  rw [mem_departures]
  constructor
  · rintro ⟨other, hentry, hmem, ⟨hconfirmed, heq⟩ | ⟨_, heq⟩⟩
    · cases heq
      exact ⟨hentry, hmem, hconfirmed⟩
    · cases heq
  · rintro ⟨hentry, hmem, hconfirmed⟩
    exact ⟨tx, hentry, hmem, .inl ⟨hconfirmed, rfl⟩⟩

theorem txWithdrawn_mem_departures {elimTxs : List TxId} {tx : Tx} :
    .txWithdrawn tx ∈ elimTxs.filterMap s.departure ↔ tx ∈ s.mempoolProjection.entries ∧
      HasTxId.id tx ∈ elimTxs ∧ ¬ s.Confirmed (HasTxId.id tx) := by
  rw [mem_departures]
  constructor
  · rintro ⟨other, hentry, hmem, ⟨_, heq⟩ | ⟨hconfirmed, heq⟩⟩
    · cases heq
    · cases heq
      exact ⟨hentry, hmem, hconfirmed⟩
  · rintro ⟨hentry, hmem, hconfirmed⟩
    exact ⟨tx, hentry, hmem, .inr ⟨hconfirmed, rfl⟩⟩

/-- What a round adds to the pending updates. -/
theorem pendingUpdates_sync {elimTxs : List TxId} {pool : List Tx}
    (helim : elimTxs.Perm (s.eliminated pool)) : ∃ accepted : List Tx,
    (s.sync elimTxs pool).pendingUpdates = s.pendingUpdates ++
      (elimTxs.filterMap s.departure ++ accepted.map MempoolUpdate.txAccepted) := by
  have hkeys : s.mempoolProjection.keys.Nodup := s.mempoolProjection.distinct
  have hnodup : elimTxs.Nodup := helim.nodup_iff.mpr (hkeys.filter _)
  obtain ⟨accepted, haccepted⟩ := pendingUpdates_foldl_accept (elimTxs.foldl withdraw s) pool
  refine ⟨accepted, ?_⟩
  rw [sync, haccepted, pendingUpdates_foldl_withdraw s hnodup, List.append_assoc]

end SyncState

/-! ## The race -/

/-- The node and the streams that follow it. -/
structure Race (Tx : Type) {TxId : Type} [HasTxId Tx TxId] where
  /-- The best chain of the node, its best block first. -/
  chain : List (Block Tx)
  /-- The transactions of the blocks that were rolled forward and not back, the best block first,
  with the most blocks that have been on top of each. -/
  applied : List (List TxId × ℕ)
  observed : Observed Tx

namespace Race

def start (chain : List (Block Tx)) : Race Tx := ⟨chain, [], [], .empty⟩

inductive Event (Tx TxId : Type) where
  /-- The node finds a block. -/
  | mine (blk : Block Tx)
  /-- The node takes its best block off. -/
  | revert
  | stream (event : Mempool.Event Tx TxId)

/-- How an event of the streams changes the blocks that are rolled forward. -/
def follow (applied : List (List TxId × ℕ)) : Mempool.Event Tx TxId → List (List TxId × ℕ)
  | .pushBlock blk => Window.put applied (blk.transactions.map HasTxId.id)
  | .popBlock => applied.tail
  | .sync _ _ => applied
  | .yieldUpdate => applied

variable [DecidableEq TxId]

inductive Step : Race Tx → Event Tx TxId → Race Tx → Prop where
  | mine {s : Race Tx} {blk : Block Tx} : Step s (.mine blk) { s with chain := blk :: s.chain }
  | revert {s : Race Tx} : Step s .revert { s with chain := s.chain.tail }
  | stream {s : Race Tx} {event : Mempool.Event Tx TxId} {observed : Observed Tx}
      (hstep : Mempool.Step s.observed event observed) :
      Step s (.stream event) ⟨s.chain, follow s.applied event, observed⟩

/-- The transaction is in the projection and in the chain of the node, with no more than
`keepLastBlocks` blocks after its own. -/
def Included (s : Race Tx) (tx : Tx) : Prop :=
  tx ∈ s.observed.state.mempoolProjection.entries ∧
    ∃ blk ∈ s.chain.take (keepLastBlocks + 1), HasTxId.id tx ∈ blk.transactions.map HasTxId.id

/-- The updates of a step. -/
def logged (s t : Race Tx) : List (MempoolUpdate Tx) :=
  t.observed.updates.drop s.observed.updates.length

/-- What leaves the projection in a step and is in the chain is reported as confirmed, and not
as withdrawn. -/
def Confirms (s t : Race Tx) : Prop :=
  ∀ tx, s.Included tx → HasTxId.id tx ∉ t.observed.state.mempoolProjection.keys →
    .txConfirmed tx ∈ s.logged t ∧ .txWithdrawn tx ∉ s.logged t

/-- For each transaction that a round misses and that is in the chain, a block that has it was
rolled forward and not back, and fewer than `keepLastBlocks` blocks have ever been on it. -/
def CaughtUp (s : Race Tx) : Event Tx TxId → Prop
  | .stream (.sync answers _) => ∀ pool, fetchPool 0 answers = some pool →
      ∀ tx, s.Included tx → HasTxId.id tx ∉ pool.map HasTxId.id →
        ∃ blk ∈ s.applied, blk.2 < keepLastBlocks ∧ HasTxId.id tx ∈ blk.1
  | _ => True

variable {s t : Race Tx} {event : Event Tx TxId}

/-! ## The window -/

/-- The latest blocks are those rolled forward on which fewer than `keepLastBlocks` have lain. -/
def Follows (s : Race Tx) : Prop :=
  Window.Shows keepLastBlocks s.observed.state.latestBlocks s.applied

omit [DecidableEq TxId] in
theorem Follows.confirmed_iff (h : s.Follows) {txId : TxId} :
    s.observed.state.Confirmed txId ↔
      ∃ blk ∈ s.applied, blk.2 < keepLastBlocks ∧ txId ∈ blk.1 := by
  constructor
  · rintro ⟨txIds, hmem, htx⟩
    obtain ⟨lain, hlt, happlied⟩ := Window.Shows.mem_iff h |>.mp hmem
    exact ⟨_, happlied, hlt, htx⟩
  · rintro ⟨blk, happlied, hlt, htx⟩
    exact ⟨blk.1, Window.Shows.mem_iff h |>.mpr ⟨blk.2, hlt, happlied⟩, htx⟩

omit [DecidableEq TxId] in
theorem follows_start (chain : List (Block Tx)) : (start chain).Follows := Window.shows_nil

theorem Follows.step (h : s.Follows) (hstep : Step s event t) : t.Follows := by
  cases hstep with
  | mine => exact h
  | revert => exact h
  | stream hstep =>
      cases hstep with
      | sync hpool helim =>
          show Window.Shows _ (SyncState.sync _ _ _).latestBlocks _
          rw [SyncState.latestBlocks_sync]
          exact h
      | pushBlock => exact Window.Shows.push h _
      | popBlock => exact Window.Shows.pop h
      | yieldUpdate hpending => exact h

/-! ## What a step reports -/

/-- A step is a round, or leaves the projection as it is. -/
theorem Step.round_or_frame (hstep : Step s event t) :
    (∃ (answers : List (ℕ → ℕ → Except NodeError (List Tx))) (elimTxs : List TxId)
        (pool : List Tx), event = .stream (.sync answers elimTxs) ∧
      fetchPool 0 answers = some pool ∧ elimTxs.Perm (s.observed.state.eliminated pool) ∧
      t.observed = ⟨s.observed.yielded, s.observed.state.sync elimTxs pool⟩) ∨
    (s.CaughtUp event ∧
      t.observed.state.mempoolProjection = s.observed.state.mempoolProjection) := by
  cases hstep with
  | mine => exact .inr ⟨trivial, rfl⟩
  | revert => exact .inr ⟨trivial, rfl⟩
  | stream hstep =>
      cases hstep with
      | sync hpool helim => exact .inl ⟨_, _, _, rfl, hpool, helim, rfl⟩
      | pushBlock => exact .inr ⟨trivial, rfl⟩
      | popBlock => exact .inr ⟨trivial, rfl⟩
      | yieldUpdate hpending => exact .inr ⟨trivial, rfl⟩

/-- In a round, a transaction that is missed is reported as confirmed exactly if one of the latest
blocks has it, and as withdrawn otherwise. -/
theorem logged_sync {elimTxs : List TxId} {pool : List Tx}
    (helim : elimTxs.Perm (s.observed.state.eliminated pool))
    (ht : t.observed = ⟨s.observed.yielded, s.observed.state.sync elimTxs pool⟩) {tx : Tx}
    (hentry : tx ∈ s.observed.state.mempoolProjection.entries)
    (hmissed : HasTxId.id tx ∉ pool.map HasTxId.id) :
    (.txConfirmed tx ∈ s.logged t ↔ s.observed.state.Confirmed (HasTxId.id tx)) ∧
      (.txWithdrawn tx ∈ s.logged t ↔ ¬ s.observed.state.Confirmed (HasTxId.id tx)) := by
  obtain ⟨accepted, hpending⟩ := SyncState.pendingUpdates_sync helim
  have hlogged : s.logged t = elimTxs.filterMap s.observed.state.departure ++
      accepted.map MempoolUpdate.txAccepted := by
    rw [logged, Observed.updates, Observed.updates, ht, hpending, ← List.append_assoc,
      List.drop_left]
  have helimTx : HasTxId.id tx ∈ elimTxs := by
    rw [helim.mem_iff, SyncState.eliminated, List.mem_filter, decide_eq_true_eq]
    exact ⟨List.mem_map_of_mem hentry, hmissed⟩
  rw [hlogged, List.mem_append, List.mem_append, SyncState.txConfirmed_mem_departures,
    SyncState.txWithdrawn_mem_departures]
  simp [hentry, helimTx]

/-- A step reports what leaves the projection right exactly if its round is caught up. -/
theorem Follows.confirms_iff (h : s.Follows) (hstep : Step s event t) :
    s.Confirms t ↔ s.CaughtUp event := by
  rcases hstep.round_or_frame with ⟨answers, elimTxs, pool, rfl, hpool, helim, ht⟩ | ⟨hcond, heq⟩
  · have hkeys : ∀ txId : TxId, txId ∈ t.observed.state.mempoolProjection.keys ↔
        txId ∈ pool.map HasTxId.id := by
      intro txId
      rw [ht, ← SyncState.mem_ids, SyncState.ids_sync helim, List.mem_toFinset]
    constructor
    · intro hconfirms pool' hpool' tx hincluded hmissed
      cases hpool.symm.trans hpool'
      have hlogged := (hconfirms tx hincluded fun hmem => hmissed ((hkeys _).mp hmem)).1
      exact h.confirmed_iff.mp ((logged_sync helim ht hincluded.1 hmissed).1.mp hlogged)
    · intro hcaught tx hincluded hgone
      have hmissed : HasTxId.id tx ∉ pool.map HasTxId.id := fun hmem => hgone ((hkeys _).mpr hmem)
      have hconfirmed := h.confirmed_iff.mpr (hcaught pool hpool tx hincluded hmissed)
      obtain ⟨hcon, hwith⟩ := logged_sync helim ht hincluded.1 hmissed
      exact ⟨hcon.mpr hconfirmed, fun hmem => hwith.mp hmem hconfirmed⟩
  · refine iff_of_true ?_ hcond
    -- what is in the projection stays there
    intro tx hincluded hgone
    rw [heq] at hgone
    exact absurd (List.mem_map_of_mem hincluded.1) hgone

/-- The steps that report what leaves the projection right. -/
def Reports (s : Race Tx) (event : Event Tx TxId) (t : Race Tx) : Prop :=
  Step s event t ∧ s.Confirms t

end Race

/-- From the start, whatever the chain is by then, a run reports every departure of a transaction
that is in the chain as confirmed exactly if all its rounds are caught up. -/
theorem reports_iff_caughtUp [DecidableEq TxId] {chain : List (Block Tx)}
    {events : List (Race.Event Tx TxId)} {s : Race Tx} :
    Run Race.Reports (.start chain) events s ↔
      Run (restrict Race.Step Race.CaughtUp) (.start chain) events s := by
  refine Run.congr_of_invariant (J := Race.Follows) ?_ ?_ (Race.follows_start chain)
  · intro s event t hfollows hreports
    exact hfollows.step hreports.1
  · intro s event t hfollows
    exact and_congr_right fun hstep => hfollows.confirms_iff hstep

open Sample in
/-- Transaction 1 is in the mempool and then in a block.  The round that misses it comes before
the upgrade with the block, and reports it as withdrawn. -/
theorem confirmed_reported_withdrawn : ∃ s t : Race ℕ,
    Run Race.Step (.start []) [.stream (.sync [answer [1]] []), .mine (block [1])] s ∧
      Race.Step s (.stream (.sync [answer []] [1])) t ∧ s.Included 1 ∧
      t.observed.updates = [.txAccepted 1, .txWithdrawn 1] ∧ ¬ s.Confirms t := by
  refine ⟨_, _, Run.cons (.stream (.sync rfl ?_)) (Run.single .mine), .stream (.sync rfl ?_), ?_,
    ?_, ?_⟩
  · decide
  · decide
  · exact ⟨List.mem_cons_self, block [1], List.mem_cons_self, List.mem_cons_self⟩
  · decide
  · intro hconfirms
    have hincluded := hconfirms 1 ⟨List.mem_cons_self, block [1], List.mem_cons_self,
      List.mem_cons_self⟩
    revert hincluded
    decide

end SpectrumOffchain.Mempool
