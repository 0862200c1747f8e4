import SpectrumOffchain.ChainSync.Bodies
import SpectrumOffchain.EventSink.Entities

/-!
# From the node to the repository

`main` connects the parts.  The synchroniser follows the node on the persistent cache,
`event_source_ledger` turns each upgrade into the events of its transactions, `process_events`
shows them to the handler one after the other, and what the handler finds is written to the
repository.  The next upgrade is asked for when the events of the last one are handled.  Meanwhile
the executor predicts states.

The handler and `entity_tracking_stream` are streams of their own in `main`, with a channel between
them.  Here an event is handled and the channel drained in one step, so that the handler never
looks for a state that is still in the channel.

The repository relies on events that fit together: what is applied can be applied, and what
is undone was applied last (`EntitySystem.Step`).  No part of the bot checks this.  It holds
since the blocks hang together as long as nothing disturbs the persistent cache
(`Follower.Undisturbed`), the transactions of a block that is rolled back are those that were
applied (`Bodies.takeBestBlock`), and every chain of blocks that the node has is a ledger, so that
every such run is a run of that system (`entityRun_of_run`).  Between two upgrades the last
confirmed state of an entity is therefore the one that is unspent on the branch that is applied,
whichever branches there were before (`lastConfirmed_of_run`).
-/

namespace SpectrumOffchain.EventSink

open Resolver Ledger Transition ChainSync ChainCacheRocksDB

variable {T TEntityId TStateId Tx : Type} [OnChainEntity T TEntityId TStateId] [SigmaTransaction Tx]

/-! ## What the node serves -/

/-- A chain of known transactions on top of the base. -/
structure LedgerChain (format : EntityFormat T) (origins : Origins) (chain : List LedgerTx) :
    Prop where
  known : ∀ tx ∈ chain, origins.Known tx
  valid : Valid origins.base chain
  unique : UniqueChain format.tryFromBox OnChainEntity.getSelfRef origins.base chain

/-- The blocks that the node has: they are blocks of one tree, and each chain of them from the
starting height on is a ledger. -/
structure Node (Tx : Type) [SigmaTransaction Tx] (format : EntityFormat T) (origins : Origins) where
  tree : BlockTree
  start : ℕ
  serves : Block Tx → Prop
  /-- What the handlers read of a transaction. -/
  view : Tx → LedgerTx
  inTree : ∀ b, serves b → tree.HasChild b
  /-- The id of a transaction is a hash of its inputs and outputs. -/
  view_eq : ∀ tx tx', SigmaTransaction.id tx = SigmaTransaction.id tx' → view tx = view tx'
  ledger : ∀ stack, LiveChain tree start stack → (∀ b ∈ stack, serves b) →
    LedgerChain format origins ((appliedTxs stack).map view)

section Chain

variable {format : EntityFormat T} {origins : Origins} {tx : LedgerTx} {chain : List LedgerTx}

theorem LedgerChain.tail (h : LedgerChain format origins (tx :: chain)) :
    LedgerChain format origins chain :=
  ⟨(List.forall_mem_cons.mp h.known).2, h.valid.2, h.unique.2⟩

theorem LedgerChain.of_append {later : List LedgerTx}
    (h : LedgerChain format origins (later ++ chain)) : LedgerChain format origins chain := by
  induction later with
  | nil => exact h
  | cons tx later ih => exact ih h.tail

end Chain

/-! ## The steps -/

/-- An event as the handlers read it. -/
def readEvent (view : Tx → LedgerTx) : LedgerTxEvent Tx → LedgerTxEvent LedgerTx
  | .appliedTx tx timestamp => .appliedTx (view tx) timestamp
  | .unappliedTx tx => .unappliedTx (view tx)

/-- The upgrade that came out of what happened to the synchroniser. -/
def upgradeOf : Event Tx → Option (ChainUpgrade Tx)
  | .upgrade label => label.2
  | .restart => none

/-- What the ledger event source makes of it. -/
def eventsOf (view : Tx → LedgerTx) (event : Event Tx) : List (LedgerTxEvent LedgerTx) :=
  ((upgradeOf event).toList.flatMap processUpgrade).map (readEvent view)

/-- The synchroniser, the events of its last upgrade that are not handled yet, and the repository
with the transactions that it has heard of, the latest first. -/
structure Following (Tx T : Type) {TEntityId TStateId : Type}
    [OnChainEntity T TEntityId TStateId] where
  follower : Follower Tx
  events : List (LedgerTxEvent LedgerTx)
  system : EntitySystem T

namespace Following

inductive Label (Tx T : Type) {TEntityId TStateId : Type} [OnChainEntity T TEntityId TStateId] where
  | follow (event : Event Tx)
  | handle (ev : LedgerTxEvent LedgerTx)
  | predict (traced : Traced T)

/-- What the repository notices of a step. -/
def Label.seen : Label Tx T → List (EntitySystem.Label T)
  | follow _ => []
  | handle ev => [.ledger ev]
  | predict traced => [.predict traced]

def initial (start maxRollbackDepth : ℕ) : Following Tx T :=
  ⟨.new start maxRollbackDepth, [], .initial⟩

/-- The transactions after an event. -/
def heard (chain : List LedgerTx) : LedgerTxEvent LedgerTx → List LedgerTx
  | .appliedTx tx _ => tx :: chain
  | .unappliedTx _ => chain.tail

variable [DecidableEq TEntityId] [DecidableEq TStateId]

/-- The synchroniser is asked for an upgrade, or restarted, when the events are handled. -/
inductive Step {format : EntityFormat T} {origins : Origins} (node : Node Tx format origins)
    (blacklisted : List TEntityId) : Following Tx T → Label Tx T → Following Tx T → Prop where
  | follow {s : Following Tx T} {event : Event Tx} {follower : Follower Tx} (hevents : s.events = [])
      (hserves : ∀ apiBlk out, event = .upgrade (.ok apiBlk, out) → node.serves apiBlk.toBlock)
      (hstep : Follower.Step node.tree node.start s.follower event follower) :
      Step node blacklisted s (.follow event)
        { s with follower, events := eventsOf node.view event }
  | handle {s : Following Tx T} {ev : LedgerTxEvent LedgerTx}
      {rest : List (LedgerTxEvent LedgerTx)} {env : EntityHandlerEnv T}
      (hevents : s.events = ev :: rest) :
      Step node blacklisted s (.handle ev)
        { s with
          events := rest
          system := ⟨trackEvent format blacklisted env s.system.repo ev, heard s.system.chain ev⟩ }
  | predict {s : Following Tx T} {traced : Traced T}
      (hfresh : FreshSuccessor format origins s.system.chain traced) :
      Step node blacklisted s (.predict traced)
        { s with system := ⟨s.system.repo.putPredicted traced, s.system.chain⟩ }

omit [SigmaTransaction Tx] [DecidableEq TEntityId] [DecidableEq TStateId] in
/-- The persistent cache is not disturbed: a restart finds everything rolled back, and the node
answers no child of a block that was rolled back. -/
def Undisturbed (s : Following Tx T) : Label Tx T → Prop
  | .follow event => s.follower.Undisturbed event
  | .handle _ => True
  | .predict _ => True

end Following

/-! ## The events fit together -/

/-- An event that takes one ledger to another. -/
inductive LedgerStep (format : EntityFormat T) (origins : Origins) :
    List LedgerTx → LedgerTxEvent LedgerTx → List LedgerTx → Prop where
  | applied {chain : List LedgerTx} {tx : LedgerTx} {timestamp : I64}
      (h : LedgerChain format origins (tx :: chain)) :
      LedgerStep format origins chain (.appliedTx tx timestamp) (tx :: chain)
  | unapplied {chain : List LedgerTx} {tx : LedgerTx}
      (h : LedgerChain format origins (tx :: chain)) :
      LedgerStep format origins (tx :: chain) (.unappliedTx tx) chain

section Events

variable {format : EntityFormat T} {origins : Origins} {chain : List LedgerTx}

theorem ledgerRun_applied {timestamp : I64} {txs : List LedgerTx}
    (h : LedgerChain format origins (txs.reverse ++ chain)) :
    Run (LedgerStep format origins) chain (txs.map fun tx => .appliedTx tx timestamp)
      (txs.reverse ++ chain) := by
  induction txs generalizing chain with
  | nil => exact .nil chain
  | cons tx rest ih =>
      rw [List.reverse_cons, List.append_assoc] at h ⊢
      exact .cons (.applied h.of_append) (ih h)

theorem ledgerRun_unapplied {txs : List LedgerTx} (h : LedgerChain format origins (txs ++ chain)) :
    Run (LedgerStep format origins) (txs ++ chain) (txs.map .unappliedTx) chain := by
  induction txs with
  | nil => exact .nil chain
  | cons tx rest ih => exact .cons (.unapplied h) (ih h.tail)

end Events

/-- Transactions with the same ids are read alike. -/
theorem Node.map_view_eq {format : EntityFormat T} {origins : Origins}
    (node : Node Tx format origins) {txs txs' : List Tx}
    (h : txs.map SigmaTransaction.id = txs'.map SigmaTransaction.id) :
    txs.map node.view = txs'.map node.view := by
  induction txs generalizing txs' with
  | nil =>
      obtain rfl := List.map_eq_nil_iff.mp h.symm
      rfl
  | cons tx txs ih =>
      cases txs' with
      | nil => cases h
      | cons tx' txs' =>
          rw [List.map_cons, List.map_cons, List.cons.injEq] at h
          rw [List.map_cons, List.map_cons, node.view_eq _ _ h.1, ih h.2]

section EventsOf

omit [SigmaTransaction Tx]

variable {view : Tx → LedgerTx} {answer : Except NodeError (FullBlock Tx)} {b : Block Tx}

theorem eventsOf_forward : eventsOf view (.upgrade (answer, some (.rollForward b))) =
    (b.transactions.map view).map fun tx => .appliedTx tx (BitVec.ofNat 64 b.timestamp) := by
  rw [eventsOf, upgradeOf, Option.toList_some, List.flatMap_singleton, processUpgrade, List.map_map,
    List.map_map]
  rfl

theorem eventsOf_backward : eventsOf view (.upgrade (answer, some (.rollBackward b))) =
    (b.transactions.map view).reverse.map .unappliedTx := by
  rw [eventsOf, upgradeOf, Option.toList_some, List.flatMap_singleton, processUpgrade, List.map_map,
    ← List.map_reverse, List.map_map]
  rfl

end EventsOf

namespace Following

variable {format : EntityFormat T} {origins : Origins} {node : Node Tx format origins}
  {blacklisted : List TEntityId} {s t : Following Tx T} {l : Label Tx T} {labels : List (Label Tx T)}
  {stack : List (Block Tx)}

/-- The synchroniser is on a branch of the node, and the events that are left lead to it. -/
structure Fits (node : Node Tx format origins) (s : Following Tx T) (stack : List (Block Tx)) :
    Prop where
  tracks : ChainSync.Tracks node.tree node.start s.follower stack
  served : ∀ b ∈ stack, node.serves b
  bodies : Bodies s.follower.sync.cache stack
  events : Run (LedgerStep format origins) s.system.chain s.events
    ((appliedTxs stack).map node.view)

theorem Fits.ledger (h : Fits node s stack) :
    LedgerChain format origins ((appliedTxs stack).map node.view) :=
  node.ledger stack h.tracks.live h.served

/-- When all events are handled, the chain that was heard of is the one that is applied. -/
theorem Fits.chain_eq (h : Fits node s stack) (hevents : s.events = []) :
    s.system.chain = (appliedTxs stack).map node.view := by
  have hrun := h.events
  rw [hevents] at hrun
  generalize (appliedTxs stack).map node.view = chain at hrun
  cases hrun
  rfl

theorem fits_initial (maxRollbackDepth : ℕ) :
    Fits node (initial node.start maxRollbackDepth : Following Tx T) [] :=
  ⟨ChainSync.Tracks.new maxRollbackDepth, nofun, bodies_new maxRollbackDepth, .nil []⟩

/-- The events of an upgrade lead from the chain that was heard of to the one that is applied. -/
theorem Fits.follow (h : Fits node s stack) (hevents : s.events = []) {event : Event Tx}
    {follower : Follower Tx}
    (hserves : ∀ apiBlk out, event = .upgrade (.ok apiBlk, out) → node.serves apiBlk.toBlock)
    (hstep : Follower.Step node.tree node.start s.follower event follower)
    (hundisturbed : s.follower.Undisturbed event) :
    ∃ stack', Fits node { s with follower, events := eventsOf node.view event } stack' := by
  have hchain := h.chain_eq hevents
  have hledger := h.ledger
  obtain ⟨htracks, hserved, hbodies, -⟩ := h
  cases hstep with
  | restart =>
      refine ⟨stack, htracks.restart hundisturbed, hserved, hbodies, ?_⟩
      exact hchain ▸ .nil _
  | upgrade hcall =>
      cases hcall.upgraded with
      | @forward apiBlk cache hheight hchild hlinked happend =>
          -- the block lies on the best one, so that its transactions can be applied
          have hfits := htracks.fits hchild hheight hundisturbed hlinked
          have hnext := htracks.forward hchild hheight hfits happend
          have hserved' : ∀ b ∈ apiBlk.toBlock :: stack, node.serves b :=
            List.forall_mem_cons.mpr ⟨hserves _ _ rfl, hserved⟩
          have hledger' := node.ledger _ hnext.live hserved'
          refine ⟨apiBlk.toBlock :: stack, hnext, hserved', ?_, ?_⟩
          · exact hbodies.appendBlock (fun _ hb => hnext.live.id_ne_of_mem_rest hb) happend
          · rw [appliedTxs_cons, List.map_append, List.map_reverse] at hledger' ⊢
            dsimp only
            rw [hchain, eventsOf_forward]
            exact ledgerRun_applied hledger'
      | @backward _ taken cache hstart hheight htake =>
          obtain ⟨tip, rest, rfl, hsame, hrest⟩ := htracks.backward htake
          obtain ⟨htxIds, hbodies'⟩ := hbodies.takeBestBlock hsame.1 htake
          have hview : taken.transactions.map node.view = tip.transactions.map node.view :=
            node.map_view_eq htxIds
          refine ⟨rest, hrest, fun b hb => hserved b (List.mem_cons_of_mem tip hb), hbodies', ?_⟩
          rw [appliedTxs_cons, List.map_append, List.map_reverse, ← hview] at hledger hchain
          dsimp only
          rw [hchain, eventsOf_backward]
          exact ledgerRun_unapplied hledger
      | stuck htake =>
          -- nothing is taken, and the database is as it was
          have hsame := ChainCacheRocksDB.takeBestBlock_ok htake
          obtain ⟨-, rfl⟩ | ⟨_, _, hout, -⟩ := hsame
          · refine ⟨stack, htracks.takeBestBlock_none htake, hserved, hbodies, ?_⟩
            exact hchain ▸ .nil _
          · cases hout
      | failed => exact ⟨stack, htracks, hserved, hbodies, hchain ▸ .nil _⟩

variable [DecidableEq TEntityId] [DecidableEq TStateId]

/-- The repository can rely on an event that fits. -/
theorem entityStep_of_ledgerStep {system : EntitySystem T} {env : EntityHandlerEnv T}
    {ev : LedgerTxEvent LedgerTx} {chain : List LedgerTx}
    (h : LedgerStep format origins system.chain ev chain) :
    EntitySystem.Step format blacklisted origins system (.ledger ev)
        ⟨trackEvent format blacklisted env system.repo ev, heard system.chain ev⟩ ∧
      heard system.chain ev = chain := by
  obtain ⟨repo, before⟩ := system
  cases h with
  | applied h =>
      have hknown := h.known _ List.mem_cons_self
      exact ⟨.applied hknown h.valid.1 h.unique.1, rfl⟩
  | unapplied h => exact ⟨.unapplied rfl, rfl⟩

/-- The repository sees a step as one of its own, or not at all. -/
theorem entityRun_of_step (h : Fits node s stack)
    (hstep : restrict (Step node blacklisted) Undisturbed s l t) :
    Run (EntitySystem.Step format blacklisted origins) s.system l.seen t.system ∧
      ∃ stack', Fits node t stack' := by
  obtain ⟨hstep, hundisturbed⟩ := hstep
  cases hstep with
  | follow hevents hserves hstep =>
      exact ⟨.nil _, h.follow hevents hserves hstep hundisturbed⟩
  | @handle ev rest env hevents =>
      obtain ⟨htracks, hserved, hbodies, hrun⟩ := h
      rw [hevents] at hrun
      cases hrun with
      | cons hledger hrest =>
          obtain ⟨hentity, hheard⟩ := entityStep_of_ledgerStep hledger
          exact ⟨.single hentity, stack, htracks, hserved, hbodies, hheard ▸ hrest⟩
  | predict hfresh =>
      exact ⟨.single (.predict hfresh), stack, h.tracks, h.served, h.bodies, h.events⟩

/-- What the repository sees of a run is a run of its own. -/
theorem entityRun_of_run {maxRollbackDepth : ℕ}
    (hrun : Run (restrict (Step node blacklisted) Undisturbed)
      (initial node.start maxRollbackDepth) labels s) :
    Run (EntitySystem.Step format blacklisted origins) .initial (labels.flatMap Label.seen)
        s.system ∧ ∃ stack, Fits node s stack := by
  have hanswer : ∀ (s : Following Tx T) (l : Label Tx T) (t : Following Tx T)
      (system : EntitySystem T), (system = s.system ∧ ∃ stack, Fits node s stack) →
      restrict (Step node blacklisted) Undisturbed s l t →
      ∃ system', Run (EntitySystem.Step format blacklisted origins) system l.seen system' ∧
        system' = t.system ∧ ∃ stack, Fits node t stack := by
    rintro s l t _ ⟨rfl, stack, hfits⟩ hstep
    obtain ⟨hentity, hfits'⟩ := entityRun_of_step hfits hstep
    exact ⟨t.system, hentity, rfl, hfits'⟩
  obtain ⟨_, hentity, rfl, hfits⟩ := Run.simulates hanswer hrun
    ⟨rfl, [], fits_initial maxRollbackDepth⟩
  exact ⟨hentity, hfits⟩

/-- Whatever branches the node switches between, and whatever is predicted in the meantime: when
the events of the last upgrade are handled, the applied blocks are a chain of the node with the best
block of the cache on top, and the last confirmed state of an entity is the one that this chain
leaves unspent, as far as the chain has created it. -/
theorem lastConfirmed_of_run {maxRollbackDepth : ℕ}
    (hrun : Run (restrict (Step node blacklisted) Undisturbed)
      (initial node.start maxRollbackDepth) labels s) (hevents : s.events = []) :
    ∃ stack, LiveChain node.tree node.start stack ∧ s.follower.applied = stack.map Block.id ∧
      (∀ record, s.follower.sync.cache.getBestBlock = some record →
        ∃ tip, stack.head? = some tip ∧ record = tip.record) ∧
      ∀ id e, s.system.repo.getLastConfirmed id = some e ↔
        ∃ bx, Tracked format blacklisted ((appliedTxs stack).map node.view) id bx e := by
  obtain ⟨hentity, stack, hfits⟩ := entityRun_of_run hrun
  have hbase := (node.ledger [] .nil nofun).unique
  have htracks := (EntitySystem.invariant_of_run hbase hentity).tracks
  rw [hfits.chain_eq hevents] at htracks
  refine ⟨stack, hfits.tracks.live, hfits.tracks.applied, hfits.tracks.best, fun id e => ?_⟩
  exact htracks.getLastConfirmed_iff

end Following

/-! ## A pool that appears, and a branch without it -/

namespace Following.Sample

open Following Entities.Sample ChainSync.Sample SpectrumOffchain.Sample

/-- There is one transaction, and everything reads as it. -/
scoped instance : SigmaTransaction Unit where
  id _ := blockId 9
  sigmaSerializeBytes _ := [9]
  sigmaParseBytes _ := some ()
  parse_serialize _ := rfl

/-- The block that creates the pool. -/
def poolBlock : FullBlock Unit := ⟨⟨blockId 1, blockId 0, 1, 0⟩, [()]⟩

/-- A block of another branch. -/
def otherBlock : FullBlock Unit := ⟨⟨blockId 5, blockId 6, 2, 0⟩, []⟩

theorem ledgerChain_nil : LedgerChain poolFormat poolOrigins [] :=
  ⟨nofun, List.nodup_nil, nofun⟩

theorem ledgerChain_pool : LedgerChain poolFormat poolOrigins [poolTx] := by
  refine ⟨?_, ⟨⟨?_, ?_⟩, List.nodup_nil⟩, ?_, nofun⟩
  · intro tx htx
    exact List.mem_singleton.mp htx
  · exact fun i hi => absurd hi List.not_mem_nil
  · exact fun _ _ bx hbx => absurd hbx List.not_mem_nil
  · intro bx hbx bx' hbx' _ _ _ _ _
    exact (List.mem_singleton.mp hbx).trans (List.mem_singleton.mp hbx').symm

/-- The node has one block of each branch. -/
def branches : Node Unit poolFormat poolOrigins where
  tree := tree
  start := 1
  serves b := b = poolBlock.toBlock ∨ b = otherBlock.toBlock
  view _ := poolTx
  inTree b hb := by
    rcases hb with rfl | rfl
    · decide
    · decide
  view_eq _ _ _ := rfl
  ledger stack hlive hserved := by
    match stack with
    | [] => exact ledgerChain_nil
    | [b] =>
        rcases hserved b List.mem_cons_self with rfl | rfl
        · exact ledgerChain_pool
        · exact absurd (hlive.grounded _ rfl) (by decide)
    | b :: parent :: rest =>
        have hparent := (List.isChain_cons_cons.mp hlive.linked).1.1
        have hserved' := hserved parent (List.mem_cons_of_mem b List.mem_cons_self)
        rcases hserved b List.mem_cons_self with rfl | rfl <;> rcases hserved' with rfl | rfl <;>
          exact absurd hparent (by decide)

def appliedDb : ChainCacheRocksDB Unit :=
  { (ChainCacheRocksDB.new 256).putBlock poolBlock.toBlock with
    oldestBlock := some poolBlock.toBlock.record }

def undoneDb : ChainCacheRocksDB Unit :=
  { appliedDb with
    txs := appliedDb.txs.delete (blockId 9)
    bestBlock := none }

/-- The pool is applied. -/
def followed : Following Unit (AsBox Pool) where
  follower := ⟨⟨1, appliedDb, 2⟩, [blockId 1], []⟩
  events := []
  system := ⟨trackEvent poolFormat [] poolEnv .empty (.appliedTx poolTx 0), [poolTx]⟩

/-- The node has switched to the other branch, and the pool is undone. -/
def undone : Following Unit (AsBox Pool) where
  follower := ⟨⟨1, undoneDb, 1⟩, [], [blockId 1]⟩
  events := []
  system := ⟨trackEvent poolFormat [] poolEnv followed.system.repo (.unappliedTx poolTx), []⟩

def forward : Event Unit := .upgrade (.ok poolBlock, some (.rollForward poolBlock.toBlock))

def backward : Event Unit := .upgrade (.ok otherBlock, some (.rollBackward poolBlock.toBlock))

theorem serves_forward (apiBlk : FullBlock Unit) (out : Option (ChainUpgrade Unit))
    (h : forward = .upgrade (.ok apiBlk, out)) : branches.serves apiBlk.toBlock := by
  cases h
  exact .inl rfl

theorem serves_backward (apiBlk : FullBlock Unit) (out : Option (ChainUpgrade Unit))
    (h : backward = .upgrade (.ok apiBlk, out)) : branches.serves apiBlk.toBlock := by
  cases h
  exact .inr rfl

/-- After the pool is undone the bot is restarted. -/
theorem run_undone : Run (restrict (Step branches []) Undisturbed) (initial 1 256)
    [.follow forward, .handle (.appliedTx poolTx 0), .follow backward,
      .handle (.unappliedTx poolTx), .follow .restart] undone := by
  have hforward : Follower.Step tree 1 (.new 1 256) forward followed.follower :=
    .upgrade (.of_answer rfl (by decide) rfl)
  have hbackward : Follower.Step tree 1 followed.follower backward undone.follower :=
    .upgrade (.of_answer rfl (by decide) rfl)
  refine .cons ⟨.follow rfl serves_forward hforward, List.not_mem_nil⟩ ?_
  refine .cons (t := followed) ⟨@Step.handle _ _ _ _ _ _ _ _ _ _ _ _ _ _ _ poolEnv rfl, trivial⟩ ?_
  refine .cons ⟨.follow rfl serves_backward hbackward, List.not_mem_nil⟩ ?_
  refine .cons (t := undone) ⟨@Step.handle _ _ _ _ _ _ _ _ _ _ _ _ _ _ _ poolEnv rfl, trivial⟩ ?_
  have hrestart : Follower.Step tree 1 undone.follower .restart undone.follower :=
    @Follower.Step.restart _ _ _ _ undone.follower
  exact .single ⟨.follow rfl (fun _ _ h => by cases h) hrestart, rfl⟩

end Following.Sample

open Following.Sample in
theorem Following.lastConfirmed_of_run_sample : ∃ stack, LiveChain branches.tree 1 stack ∧
    undone.follower.applied = stack.map Block.id ∧
    (∀ record, undone.follower.sync.cache.getBestBlock = some record →
      ∃ tip, stack.head? = some tip ∧ record = tip.record) ∧
    ∀ id e, undone.system.repo.getLastConfirmed id = some e ↔
      ∃ bx, Tracked poolFormat [] ((appliedTxs stack).map branches.view) id bx e :=
  lastConfirmed_of_run run_undone rfl

end SpectrumOffchain.EventSink
