import SpectrumOffchain.EventSink.Ledger
import SpectrumOffchain.Execution.Prediction
import SpectrumOffchain.Executor.TryExecute
import SpectrumOffchain.Lib.Transition
import SpectrumOffchain.Lib.Updates

/-!
# Tracking entities

`ConfirmedUpdateHandler` compares the states of an entity that a transaction spends, which
it looks up in the repository, with those among the outputs, and feeds the transition into
a channel; `entity_tracking_stream` drains the channel into the repository.  For a
transaction that is undone the transition is computed again and swapped.

The repository starts out empty, while there may be states among the boxes of the base that
it does not know.  After every event the last confirmed state of an entity is the one that
is unspent and not of the base (`getLastConfirmed_iff`).  When the first state that is known
of an entity is undone, there may be a link from it to a state that it was predicted from,
but then this one is of the base and not stored.

## Strategy

A transaction is described by what it makes of each entity separately.

* `Finds` collects what the handler relies on: the transaction is accepted on the chain,
  an entity has one unspent state before and after it, and the states that the chain has
  created are stored.  Then a state is found among the consumed ones exactly when it is
  `Tracked` in a box that the transaction spends, and likewise for the created ones.
* The updates of one event concern different entities.  So the fold over them is followed
  for one entity at a time: it is moved by its own update, and the others pass it by
  (`lastConfirmed_foldl_transition_of_mem` and its companions).
* `Tracks` is the invariant.  Besides the pointers it keeps that every stored state is that
  of a box which a known transaction creates, and that a link from such a state leads to
  one that the same transaction spends.  `Tracks.applied` and `Tracks.unapplied` are the
  step lemmas.
* A prediction writes states and links of its own (`Tracks.putPredicted`).  It must not
  rewrite a link that a later undo will follow, which is why `FreshSuccessor` is asked of
  it: the state that is predicted is a new one.
-/

namespace SpectrumOffchain.EventSink

open Resolver Ledger Transition

variable {T TEntityId TStateId : Type} [OnChainEntity T TEntityId TStateId]

/-- States of an entity that are read off boxes.  The id of a state is that of its box. -/
structure EntityFormat (T : Type) {TEntityId TStateId : Type}
    [OnChainEntity T TEntityId TStateId] where
  tryFromBox : ErgoBox → Option T
  /-- `TStateId::from(box_id)`. -/
  ofBoxId : BoxId → TStateId
  injective : Function.Injective ofBoxId
  getSelfStateRef_of_tryFromBox : ∀ bx e, tryFromBox bx = some e →
    getSelfStateRef e = ofBoxId bx.boxId

/-- The pools that the bot tracks. -/
def poolFormat : EntityFormat (AsBox Pool) where
  tryFromBox := AsBox.tryFromBox Pool.tryFromBox
  ofBoxId := PoolStateId.mk
  injective _ _ h := PoolStateId.mk.inj h
  getSelfStateRef_of_tryFromBox bx e h := by
    obtain ⟨pool, -, rfl⟩ := Option.map_eq_some_iff.mp h
    rfl

/-! ## The handler -/

abbrev EntityFilter (T : Type) {TEntityId TStateId : Type} [OnChainEntity T TEntityId TStateId] :=
  MayExist fun (repo : EntityRepo T) (sid : TStateId) => (repo.state.get sid).isSome

/-- What the handler reads besides the event and the repository. -/
structure EntityHandlerEnv (T : Type) {TEntityId TStateId : Type}
    [OnChainEntity T TEntityId TStateId] where
  filter : EntityFilter T
  order : Shuffle TEntityId

section Handler

variable [DecidableEq TEntityId]

/-- The states of the inputs that are found. -/
def consumedEntities (format : EntityFormat T) (blacklisted : List TEntityId)
    (filter : EntityFilter T) (repo : EntityRepo T) (inputs : List BoxId) : List T :=
  inputs.filterMap fun i =>
    if filter.mayExist repo (format.ofBoxId i) then
      (repo.getState (format.ofBoxId i)).filter fun entity =>
        OnChainEntity.getSelfRef entity ∉ blacklisted
    else none

def createdEntities (format : EntityFormat T) (blacklisted : List TEntityId)
    (outputs : List ErgoBox) : List T :=
  outputs.filterMap fun bx =>
    (format.tryFromBox bx).filter fun entity => OnChainEntity.getSelfRef entity ∉ blacklisted

/-- `extract_transitions`. -/
def entityTransitions (format : EntityFormat T) (blacklisted : List TEntityId)
    (env : EntityHandlerEnv T) (repo : EntityRepo T) (tx : LedgerTx) : List (EitherOrBoth T T) :=
  transitions env.order (consumedEntities format blacklisted env.filter repo tx.inputs)
    (createdEntities format blacklisted tx.outputs)

/-- `ConfirmedUpdateHandler::try_handle`: the updates it feeds into its topic, and what it
returns. -/
def handleEntityEvent (format : EntityFormat T) (blacklisted : List TEntityId)
    (env : EntityHandlerEnv T) (repo : EntityRepo T) (ev : LedgerTxEvent LedgerTx) :
    List (StateUpdate T) × Option (LedgerTxEvent LedgerTx) :=
  match ev with
  | .appliedTx tx _ =>
      let trs := entityTransitions format blacklisted env repo tx
      (trs.map .transition, if trs.length > 0 then none else some ev)
  | .unappliedTx tx =>
      let trs := entityTransitions format blacklisted env repo tx
      (trs.map fun tr => .transitionRollback tr.swap, if trs.length > 0 then none else some ev)

variable [DecidableEq TStateId]

/-- An item of `entity_tracking_stream`. -/
def entityStep (repo : EntityRepo T) : StateUpdate T → EntityRepo T
  | .transition (.right newState) => repo.putConfirmed newState
  | .transition (.both _ newState) => repo.putConfirmed newState
  | .transitionRollback (.right newState) => repo.putConfirmed newState
  | .transitionRollback (.both _ newState) => repo.putConfirmed newState
  | .transition (.left st) => repo.eliminate st
  | .transitionRollback (.left st) =>
      repo.invalidate (getSelfStateRef st) (OnChainEntity.getSelfRef st)

/-- The handler, and then the stream until the channel is empty. -/
def trackEvent (format : EntityFormat T) (blacklisted : List TEntityId) (env : EntityHandlerEnv T)
    (repo : EntityRepo T) (ev : LedgerTxEvent LedgerTx) : EntityRepo T :=
  (handleEntityEvent format blacklisted env repo ev).1.foldl entityStep repo

end Handler

/-! ## What the handler finds -/

section Found

variable [DecidableEq TEntityId] {format : EntityFormat T} {blacklisted : List TEntityId}
  {repo : EntityRepo T} {e : T}

theorem mem_consumedEntities {filter : EntityFilter T} {inputs : List BoxId} :
    e ∈ consumedEntities format blacklisted filter repo inputs ↔
      ∃ i ∈ inputs, repo.state.get (format.ofBoxId i) = some e ∧
        OnChainEntity.getSelfRef e ∉ blacklisted := by
  rw [consumedEntities, List.mem_filterMap]
  refine exists_congr fun i => and_congr_right fun _ => ?_
  split
  case isTrue => rw [Option.filter_eq_some_iff, decide_eq_true_eq, EntityRepo.getState]
  case isFalse hnot =>
    refine iff_of_false (by simp) fun hget => hnot (filter.mayExist_of_stored _ _ ?_)
    rw [hget.1]
    rfl

theorem mem_createdEntities {outputs : List ErgoBox} :
    e ∈ createdEntities format blacklisted outputs ↔
      ∃ bx ∈ outputs, format.tryFromBox bx = some e ∧ OnChainEntity.getSelfRef e ∉ blacklisted := by
  rw [createdEntities, List.mem_filterMap]
  simp only [Option.filter_eq_some_iff, decide_eq_true_eq]

end Found

/-! ## What the updates do to the repository -/

section Updates

variable [DecidableEq TEntityId] [DecidableEq TStateId] {repo : EntityRepo T}
  {upd : StateUpdate T}

theorem state_entityStep : (entityStep repo upd).state =
    match upd.newState with
    | some new => repo.state.put (getSelfStateRef new) new
    | none => repo.state := by
  cases upd with
  | transition tr => cases tr <;> rfl
  | transitionRollback tr => cases tr <;> rfl

theorem predictionLink_of_entityStep {sid prev : TStateId}
    (h : (entityStep repo upd).predictionLink.get sid = some prev) :
    repo.predictionLink.get sid = some prev := by
  cases upd with
  | transition tr =>
      cases tr with
      | left st => exact (Store.get_delete_eq_some.mp h).2
      | right new => exact h
      | both old new => exact h
  | transitionRollback tr =>
      cases tr with
      | left st => exact (Store.get_delete_eq_some.mp h).2
      | right new => exact h
      | both old new => exact h

end Updates

/-! ## The states of entities on the ledger -/

section States

variable (format : EntityFormat T) (blacklisted : List TEntityId) (origins : Origins)

/-- The box is unspent and not of the base, and it is read as a state of the entity. -/
structure Tracked (chain : List LedgerTx) (id : TEntityId) (bx : ErgoBox) (e : T) : Prop where
  unspent : bx ∈ unspent [] chain
  parsed : format.tryFromBox bx = some e
  entity : OnChainEntity.getSelfRef e = id
  listed : id ∉ blacklisted

/-- The transaction creates a state of the entity. -/
def Creates (tx : LedgerTx) (sid : TStateId) (id : TEntityId) : Prop :=
  ∃ bx ∈ tx.outputs, sid = format.ofBoxId bx.boxId ∧
    ∃ e, format.tryFromBox bx = some e ∧ OnChainEntity.getSelfRef e = id

/-- The transaction spends a state of the entity. -/
def Spends (tx : LedgerTx) (sid : TStateId) (id : TEntityId) : Prop :=
  ∃ bx, (bx ∈ origins.base ∨ ∃ tx', origins.Known tx' ∧ bx ∈ tx'.outputs) ∧
    bx.boxId ∈ tx.inputs ∧ sid = format.ofBoxId bx.boxId ∧
      ∃ e, format.tryFromBox bx = some e ∧ OnChainEntity.getSelfRef e = id

/-- The state is that of a box which is not on the ledger yet, and it is linked, if at all, to a
state that its transaction spends. -/
def FreshSuccessor (chain : List LedgerTx) (traced : Traced T) : Prop :=
  (∀ bx ∈ created origins.base chain, getSelfStateRef traced.state ≠ format.ofBoxId bx.boxId) ∧
    ∃ tx, origins.Known tx ∧
      Creates format tx (getSelfStateRef traced.state) (OnChainEntity.getSelfRef traced.state) ∧
      ∀ prev, traced.prevStateId = some prev →
        Spends format origins tx prev (OnChainEntity.getSelfRef traced.state)

variable [DecidableEq TStateId]

/-- The last confirmed state of an entity, unless it is of the base. -/
def pointer (repo : EntityRepo T) (id : TEntityId) : Option TStateId :=
  (repo.lastConfirmed.get id).filter fun sid =>
    sid ∉ origins.base.map fun bx => format.ofBoxId bx.boxId

/-- What the repository holds after a chain. -/
structure Tracks (chain : List LedgerTx) (repo : EntityRepo T) : Prop where
  genuine : ∀ sid e, repo.state.get sid = some e → getSelfStateRef e = sid ∧
    ∃ tx, origins.Known tx ∧ Creates format tx sid (OnChainEntity.getSelfRef e)
  linked : ∀ sid prev, repo.predictionLink.get sid = some prev → ∃ tx, origins.Known tx ∧
    ∃ id, Creates format tx sid id ∧ Spends format origins tx prev id
  stored : ∀ bx ∈ created [] chain, ∀ e, format.tryFromBox bx = some e →
    OnChainEntity.getSelfRef e ∉ blacklisted → repo.state.get (format.ofBoxId bx.boxId) = some e
  current : ∀ id sid, pointer format origins repo id = some sid ↔
    ∃ bx e, Tracked format blacklisted chain id bx e ∧ sid = format.ofBoxId bx.boxId

end States

section Chain

variable {format : EntityFormat T} {blacklisted : List TEntityId} {origins : Origins}
  {chain : List LedgerTx} {tx : LedgerTx} {id : TEntityId} {bx bx' : ErgoBox} {e e' : T}

theorem mem_created_nil : bx ∈ created [] chain ↔ ∃ tx ∈ chain, bx ∈ tx.outputs :=
  mem_created_iff.trans (or_iff_right List.not_mem_nil)

/-- The box of the state that a known transaction creates. -/
theorem Creates.box (h : Creates format tx (format.ofBoxId bx.boxId) id)
    (htx : origins.Known tx) {tx' : LedgerTx} (htx' : origins.Known tx') (hbx : bx ∈ tx'.outputs) :
    tx = tx' ∧ ∃ e, format.tryFromBox bx = some e ∧ OnChainEntity.getSelfRef e = id := by
  obtain ⟨bx', hbx', hid, e, hparse, hentity⟩ := h
  obtain ⟨rfl, rfl⟩ := origins.eq_of_boxId htx htx' hbx' hbx (format.injective hid).symm
  exact ⟨rfl, e, hparse, hentity⟩

/-- An input that a known transaction has created is unspent and not of the base. -/
theorem unspent_of_input (hknown : ∀ tx ∈ chain, origins.Known tx)
    (haccepts : Accepts origins.base chain tx) {tx' : LedgerTx} (htx' : origins.Known tx')
    (hbx : bx ∈ tx'.outputs) (hinput : bx.boxId ∈ tx.inputs) : bx ∈ unspent [] chain := by
  obtain ⟨bx', hbx', heq⟩ := haccepts.inputs_unspent _ hinput
  rcases mem_unspent_iff.mp hbx' with ⟨hbase, -⟩ | hbx'
  · exact absurd heq.symm (origins.older tx' htx' bx hbx bx' hbase)
  · obtain ⟨tx'', hmem, hcreated⟩ := mem_created_nil.mp (created_of_unspent hbx')
    rw [← (origins.eq_of_boxId (hknown tx'' hmem) htx' hcreated hbx heq).2]
    exact hbx'

/-- There is at most one box to track. -/
theorem Tracked.eq_box (h : Tracked format blacklisted chain id bx e)
    (hunique : UniqueEntities format.tryFromBox OnChainEntity.getSelfRef
      (Ledger.unspent origins.base chain))
    (h' : Tracked format blacklisted chain id bx' e') : bx = bx' ∧ e = e' := by
  have hbox : bx = bx' :=
    hunique bx (mem_unspent_iff.mpr (.inr h.unspent)) bx' (mem_unspent_iff.mpr (.inr h'.unspent))
      e e' h.parsed h'.parsed (h.entity.trans h'.entity.symm)
  subst hbox
  exact ⟨rfl, Option.some.inj (h.parsed.symm.trans h'.parsed)⟩

/-- What a transaction leaves of the tracked boxes. -/
theorem tracked_cons : Tracked format blacklisted (tx :: chain) id bx e ↔
    (Tracked format blacklisted chain id bx e ∧ bx.boxId ∉ tx.inputs) ∨
      (bx ∈ tx.outputs ∧ format.tryFromBox bx = some e ∧ OnChainEntity.getSelfRef e = id ∧
        id ∉ blacklisted) := by
  constructor
  · rintro ⟨hunspent, hparsed, hentity, hlisted⟩
    rcases mem_unspent_cons.mp hunspent with ⟨hunspent, hinputs⟩ | houtput
    · exact .inl ⟨⟨hunspent, hparsed, hentity, hlisted⟩, hinputs⟩
    · exact .inr ⟨houtput, hparsed, hentity, hlisted⟩
  · rintro (⟨h, hinputs⟩ | ⟨houtput, hparsed, hentity, hlisted⟩)
    · exact ⟨mem_unspent_cons.mpr (.inl ⟨h.unspent, hinputs⟩), h.parsed, h.entity, h.listed⟩
    · exact ⟨mem_unspent_cons.mpr (.inr houtput), hparsed, hentity, hlisted⟩

end Chain

/-! ## What the handler finds, in terms of the ledger -/

section Event

variable [DecidableEq TEntityId] {format : EntityFormat T} {blacklisted : List TEntityId}
  {origins : Origins} {chain : List LedgerTx} {tx : LedgerTx}
  {repo : EntityRepo T} {env : EntityHandlerEnv T} {id : TEntityId} {e : T}

/-- What the repository has to hold for the handler to find what a transaction consumes. -/
structure Finds (format : EntityFormat T) (blacklisted : List TEntityId) (origins : Origins)
    (chain : List LedgerTx) (tx : LedgerTx) (repo : EntityRepo T) : Prop where
  known : ∀ tx ∈ chain, origins.Known tx
  knownTx : origins.Known tx
  accepts : Accepts origins.base chain tx
  before : UniqueEntities format.tryFromBox OnChainEntity.getSelfRef (unspent origins.base chain)
  after : UniqueEntities format.tryFromBox OnChainEntity.getSelfRef
    (unspent origins.base (tx :: chain))
  genuine : ∀ sid e, repo.state.get sid = some e → getSelfStateRef e = sid ∧
    ∃ tx, origins.Known tx ∧ Creates format tx sid (OnChainEntity.getSelfRef e)
  stored : ∀ bx ∈ created [] chain, ∀ e, format.tryFromBox bx = some e →
    OnChainEntity.getSelfRef e ∉ blacklisted → repo.state.get (format.ofBoxId bx.boxId) = some e

theorem Finds.mem_consumed (h : Finds format blacklisted origins chain tx repo) :
    e ∈ consumedEntities format blacklisted env.filter repo tx.inputs ↔
      ∃ bx, bx.boxId ∈ tx.inputs ∧
        Tracked format blacklisted chain (OnChainEntity.getSelfRef e) bx e := by
  rw [mem_consumedEntities]
  constructor
  · rintro ⟨i, hi, hget, hlisted⟩
    obtain ⟨-, tx', htx', bx, hbx, hsid, e', hparse, hentity⟩ := h.genuine _ e hget
    obtain rfl := format.injective hsid
    have hunspent := unspent_of_input h.known h.accepts htx' hbx hi
    have hsame := h.stored bx (created_of_unspent hunspent) e' hparse (hentity ▸ hlisted)
    obtain rfl := Option.some.inj (hget.symm.trans hsame)
    exact ⟨bx, hi, hunspent, hparse, rfl, hlisted⟩
  · rintro ⟨bx, hi, hunspent, hparse, -, hlisted⟩
    exact ⟨bx.boxId, hi, h.stored bx (created_of_unspent hunspent) e hparse hlisted, hlisted⟩

theorem Finds.get_consumed (h : Finds format blacklisted origins chain tx repo) :
    (byId (consumedEntities format blacklisted env.filter repo tx.inputs)).get id = some e ↔
      ∃ bx, bx.boxId ∈ tx.inputs ∧ Tracked format blacklisted chain id bx e := by
  rw [get_byId_eq_some, h.mem_consumed]
  · constructor
    · rintro ⟨hbx, rfl⟩
      exact hbx
    · rintro ⟨bx, hi, htracked⟩
      obtain rfl := htracked.entity
      exact ⟨⟨bx, hi, htracked⟩, rfl⟩
  · intro e he e' he' heq
    obtain ⟨bx, -, htracked⟩ := h.mem_consumed.mp he
    obtain ⟨bx', -, htracked'⟩ := h.mem_consumed.mp he'
    rw [← heq] at htracked'
    exact (htracked.eq_box h.before htracked').2

theorem Finds.get_created (h : Finds format blacklisted origins chain tx repo) :
    (byId (createdEntities format blacklisted tx.outputs)).get id = some e ↔
      ∃ bx ∈ tx.outputs, Tracked format blacklisted (tx :: chain) id bx e := by
  rw [get_byId_eq_some, mem_createdEntities]
  · constructor
    · rintro ⟨⟨bx, hbx, hparse, hlisted⟩, rfl⟩
      exact ⟨bx, hbx, mem_unspent_cons.mpr (.inr hbx), hparse, rfl, hlisted⟩
    · rintro ⟨bx, hbx, -, hparse, rfl, hlisted⟩
      exact ⟨⟨bx, hbx, hparse, hlisted⟩, rfl⟩
  · intro e he e' he' heq
    obtain ⟨bx, hbx, hparse, -⟩ := mem_createdEntities.mp he
    obtain ⟨bx', hbx', hparse', -⟩ := mem_createdEntities.mp he'
    have hbox := h.after bx (mem_unspent_cons.mpr (.inr hbx)) bx' (mem_unspent_cons.mpr (.inr hbx'))
      e e' hparse hparse' heq
    subst hbox
    exact Option.some.inj (hparse.symm.trans hparse')

end Event

/-! ## What an event does to the repository -/

section Drained

variable [DecidableEq TEntityId] [DecidableEq TStateId] {repo : EntityRepo T}
  {tr : EitherOrBoth T T} {order : Shuffle TEntityId} {consumed created : List T} {id : TEntityId}

omit [DecidableEq TStateId] in
/-- The old state of an entity is the one that was consumed. -/
theorem newState_swap_of_mem_transitions (h : tr ∈ transitions order consumed created) :
    tr.swap.newState = (byId consumed).get tr.entityId := by
  have h := mem_transitions.mp h
  cases hl : (byId consumed).get tr.entityId <;>
    cases hr : (byId created).get tr.entityId <;> rw [hl, hr] at h <;> cases h <;> rfl

theorem lastConfirmed_transition (htr : tr ∈ transitions order consumed created) :
    (entityStep repo (.transition tr)).lastConfirmed.get id =
      if id = tr.entityId then tr.newState.map getSelfStateRef else repo.lastConfirmed.get id :=
  get_of_mem_transitions htr (by cases tr <;> rfl)

theorem lastConfirmed_transition_of_ne (htr : tr ∈ transitions order consumed created)
    (hid : id ≠ tr.entityId) :
    (entityStep repo (.transition tr)).lastConfirmed.get id = repo.lastConfirmed.get id :=
  (lastConfirmed_transition htr).trans (if_neg hid)

theorem lastConfirmed_transition_self (htr : tr ∈ transitions order consumed created) :
    (entityStep repo (.transition tr)).lastConfirmed.get tr.entityId =
      ((byId created).get tr.entityId).map getSelfStateRef := by
  rw [lastConfirmed_transition htr, if_pos rfl, newState_of_mem_transitions htr]

theorem lastConfirmed_rollback_of_ne (hid : id ≠ tr.entityId) :
    (entityStep repo (.transitionRollback tr.swap)).lastConfirmed.get id =
      repo.lastConfirmed.get id := by
  cases tr with
  | left l => exact Store.get_put_of_ne hid
  | right r => exact (EntityRepo.lastConfirmed_invalidate id).trans (if_neg hid)
  | both l r => exact Store.get_put_of_ne hid

/-- Without an old state the entity is rolled back to the state that the new one is linked to. -/
theorem lastConfirmed_rollback_self (htr : tr ∈ transitions order consumed created) :
    (entityStep repo (.transitionRollback tr.swap)).lastConfirmed.get tr.entityId =
      match (byId consumed).get tr.entityId with
      | some old => some (getSelfStateRef old)
      | none => ((byId created).get tr.entityId).bind fun new =>
          repo.predictionLink.get (getSelfStateRef new) := by
  have hold := newState_swap_of_mem_transitions htr
  have hnew := newState_of_mem_transitions htr
  rw [← hold, ← hnew]
  cases tr with
  | left l => exact Store.get_put_self
  | right r => exact (EntityRepo.lastConfirmed_invalidate _).trans (if_pos rfl)
  | both l r => exact Store.get_put_self

theorem lastConfirmed_foldl_transition_of_notMem
    (hid : id ∉ (transitions order consumed created).map EitherOrBoth.entityId) :
    (((transitions order consumed created).map StateUpdate.transition).foldl entityStep
      repo).lastConfirmed.get id = repo.lastConfirmed.get id := by
  rw [List.foldl_map]
  exact Updates.get_foldl_of_notMem (fun repo : EntityRepo T => repo.lastConfirmed.get)
    (fun _ _ htr _ => lastConfirmed_transition_of_ne htr) hid

theorem lastConfirmed_foldl_transition_of_mem
    (hid : id ∈ (transitions order consumed created).map EitherOrBoth.entityId) :
    (((transitions order consumed created).map StateUpdate.transition).foldl entityStep
      repo).lastConfirmed.get id = ((byId created).get id).map getSelfStateRef := by
  obtain ⟨tr, htr, rfl⟩ := List.mem_map.mp hid
  rw [List.foldl_map]
  exact Updates.get_foldl_of_mem (fun repo : EntityRepo T => repo.lastConfirmed.get) (fun _ => True)
    (fun _ _ htr _ => lastConfirmed_transition_of_ne htr) (fun _ _ _ _ => trivial)
    (fun _ _ htr _ => lastConfirmed_transition_self htr) nodup_transitions trivial htr

theorem lastConfirmed_foldl_rollback_of_notMem
    (hid : id ∉ (transitions order consumed created).map EitherOrBoth.entityId) :
    (((transitions order consumed created).map fun tr =>
      StateUpdate.transitionRollback tr.swap).foldl entityStep repo).lastConfirmed.get id =
        repo.lastConfirmed.get id := by
  rw [List.foldl_map]
  exact Updates.get_foldl_of_notMem (fun repo : EntityRepo T => repo.lastConfirmed.get)
    (fun _ _ _ _ => lastConfirmed_rollback_of_ne) hid

/-- The states that appear with the transaction are linked, if at all, to states of the base. -/
def LinkedToBase (format : EntityFormat T) (origins : Origins) (consumed created : List T)
    (repo : EntityRepo T) : Prop :=
  ∀ new prev, (byId created).get (OnChainEntity.getSelfRef new) = some new →
    (byId consumed).get (OnChainEntity.getSelfRef new) = none →
    repo.predictionLink.get (getSelfStateRef new) = some prev →
    prev ∈ origins.base.map fun bx => format.ofBoxId bx.boxId

theorem pointer_foldl_rollback_of_mem {format : EntityFormat T} {origins : Origins}
    (hlinked : LinkedToBase format origins consumed created repo)
    (hid : id ∈ (transitions order consumed created).map EitherOrBoth.entityId) :
    pointer format origins (((transitions order consumed created).map fun tr =>
      StateUpdate.transitionRollback tr.swap).foldl entityStep repo) id =
        (((byId consumed).get id).map getSelfStateRef).filter fun sid =>
          sid ∉ origins.base.map fun bx => format.ofBoxId bx.boxId := by
  obtain ⟨tr, htr, rfl⟩ := List.mem_map.mp hid
  rw [List.foldl_map]
  have hother : ∀ repo, ∀ tr ∈ transitions order consumed created, ∀ id, id ≠ tr.entityId →
      pointer format origins (entityStep repo (.transitionRollback tr.swap)) id =
        pointer format origins repo id := by
    intro repo tr _ id hid
    rw [pointer, lastConfirmed_rollback_of_ne hid, pointer]
  have hlinks : ∀ repo, ∀ tr ∈ transitions order consumed created,
      LinkedToBase format origins consumed created repo →
      LinkedToBase format origins consumed created
        (entityStep repo (.transitionRollback tr.swap)) := by
    intro repo tr _ hlinked new prev hnew hold hprev
    exact hlinked new prev hnew hold (predictionLink_of_entityStep hprev)
  have hself : ∀ repo, ∀ tr ∈ transitions order consumed created,
      LinkedToBase format origins consumed created repo →
      pointer format origins (entityStep repo (.transitionRollback tr.swap)) tr.entityId =
        (((byId consumed).get tr.entityId).map getSelfStateRef).filter fun sid =>
          sid ∉ origins.base.map fun bx => format.ofBoxId bx.boxId := by
    intro repo tr htr hlinked
    rw [pointer, lastConfirmed_rollback_self htr]
    cases hold : (byId consumed).get tr.entityId with
    | some old => rfl
    | none =>
        cases hnew : (byId created).get tr.entityId with
        | none => rfl
        | some new =>
            have hentity := (mem_of_get_byId hnew).2
            cases hprev : repo.predictionLink.get (getSelfStateRef new) with
            | none => simp [hprev]
            | some prev =>
                have hbase := hlinked new prev (hentity.symm ▸ hnew) (hentity.symm ▸ hold) hprev
                simp [hprev, -List.mem_map, hbase]
  exact Updates.get_foldl_of_mem _ _ hother hlinks hself nodup_transitions hlinked htr

/-! ### States and links -/

section Stored

variable {upds : List (StateUpdate T)} {sid : TStateId} {e : T}

/-- A state that is stored stays, if no other one is stored under its id. -/
theorem state_foldl (hsame : ∀ upd ∈ upds, ∀ new, upd.newState = some new →
      getSelfStateRef new = sid → new = e) (h : repo.state.get sid = some e) :
    (upds.foldl entityStep repo).state.get sid = some e := by
  refine Updates.foldl_invariant (fun repo : EntityRepo T => repo.state.get sid = some e) ?_ h
  intro repo upd hupd h
  rw [state_entityStep]
  cases hnew : upd.newState with
  | none => exact h
  | some new =>
      dsimp only
      rw [Store.get_put]
      split
      case isTrue heq => rw [hsame upd hupd new hnew heq.symm]
      case isFalse => exact h

theorem state_foldl_of_mem (hsame : ∀ upd ∈ upds, ∀ new, upd.newState = some new →
      getSelfStateRef new = getSelfStateRef e → new = e) {upd : StateUpdate T} (hupd : upd ∈ upds)
    (hnew : upd.newState = some e) :
    (upds.foldl entityStep repo).state.get (getSelfStateRef e) = some e := by
  refine Updates.foldl_of_mem
    (fun repo : EntityRepo T => repo.state.get (getSelfStateRef e) = some e) ?_ hupd ?_
  · intro repo upd hupd h
    have hkept : ([upd].foldl entityStep repo).state.get (getSelfStateRef e) = some e :=
      state_foldl (by simpa using hsame upd hupd) h
    exact hkept
  · intro repo
    rw [state_entityStep, hnew]
    exact Store.get_put_self

/-- What is stored was stored before or is the new state of an update. -/
theorem stored_of_foldl (h : (upds.foldl entityStep repo).state.get sid = some e) :
    repo.state.get sid = some e ∨
      ∃ upd ∈ upds, upd.newState = some e ∧ getSelfStateRef e = sid := by
  have hall : ∀ sid : TStateId, ∀ e : T,
      (upds.foldl entityStep repo).state.get sid = some e → repo.state.get sid = some e ∨
        ∃ upd ∈ upds, upd.newState = some e ∧ getSelfStateRef e = sid := by
    refine Updates.foldl_invariant (fun r : EntityRepo T => ∀ sid e,
      r.state.get sid = some e → repo.state.get sid = some e ∨
        ∃ upd ∈ upds, upd.newState = some e ∧ getSelfStateRef e = sid) ?_ (fun _ _ h => .inl h)
    intro r upd hupd hr
    rw [state_entityStep]
    cases hnew : upd.newState with
    | none => exact hr
    | some new => exact Store.forall_get_put (.inr ⟨upd, hupd, hnew, rfl⟩) hr
  exact hall sid e h

theorem predictionLink_of_foldl {prev : TStateId}
    (h : (upds.foldl entityStep repo).predictionLink.get sid = some prev) :
    repo.predictionLink.get sid = some prev := by
  induction upds generalizing repo with
  | nil => exact h
  | cons upd upds ih => exact predictionLink_of_entityStep (ih h)

end Stored

end Drained

/-! ## What is tracked after an event -/

section Tracking

variable [DecidableEq TEntityId] [DecidableEq TStateId] {format : EntityFormat T}
  {blacklisted : List TEntityId} {origins : Origins} {chain : List LedgerTx} {tx : LedgerTx}
  {repo : EntityRepo T} {env : EntityHandlerEnv T} {id : TEntityId} {bx : ErgoBox} {e : T}
  {timestamp : I64}

/-- The entities that a transaction touches. -/
def touched (format : EntityFormat T) (blacklisted : List TEntityId) (env : EntityHandlerEnv T)
    (repo : EntityRepo T) (tx : LedgerTx) : List TEntityId :=
  (entityTransitions format blacklisted env repo tx).map EitherOrBoth.entityId

omit [DecidableEq TStateId] in
theorem Finds.mem_touched (h : Finds format blacklisted origins chain tx repo) :
    id ∈ touched format blacklisted env repo tx ↔
      (∃ bx e, bx.boxId ∈ tx.inputs ∧ Tracked format blacklisted chain id bx e) ∨
        ∃ bx e, bx ∈ tx.outputs ∧ Tracked format blacklisted (tx :: chain) id bx e := by
  rw [touched, entityTransitions, mem_entityIds_transitions]
  refine or_congr ?_ ?_
  · constructor
    · rintro ⟨e, he, rfl⟩
      obtain ⟨bx, hi, htracked⟩ := h.mem_consumed.mp he
      exact ⟨bx, e, hi, htracked⟩
    · rintro ⟨bx, e, hi, htracked⟩
      obtain rfl := htracked.entity
      exact ⟨e, h.mem_consumed.mpr ⟨bx, hi, htracked⟩, rfl⟩
  · constructor
    · rintro ⟨e, he, rfl⟩
      obtain ⟨bx, hbx, hparse, hlisted⟩ := mem_createdEntities.mp he
      exact ⟨bx, e, hbx, mem_unspent_cons.mpr (.inr hbx), hparse, rfl, hlisted⟩
    · rintro ⟨bx, e, hbx, -, hparse, rfl, hlisted⟩
      exact ⟨e, mem_createdEntities.mpr ⟨bx, hbx, hparse, hlisted⟩, rfl⟩

omit [DecidableEq TStateId] in
/-- An entity that is not touched has the same box. -/
theorem Finds.tracked_of_notMem (h : Finds format blacklisted origins chain tx repo)
    (hid : id ∉ touched format blacklisted env repo tx) :
    Tracked format blacklisted (tx :: chain) id bx e ↔
      Tracked format blacklisted chain id bx e := by
  rw [h.mem_touched, not_or] at hid
  constructor
  · intro htracked
    rcases tracked_cons.mp htracked with ⟨hbefore, -⟩ | ⟨hbx, -⟩
    · exact hbefore
    · exact absurd ⟨bx, e, hbx, htracked⟩ hid.2
  · intro htracked
    exact tracked_cons.mpr (.inl ⟨htracked, fun hi => hid.1 ⟨bx, e, hi, htracked⟩⟩)

omit [DecidableEq TEntityId] in
/-- The id of the box of a tracked state is not of the base. -/
theorem Tracked.filter_eq (h : Tracked format blacklisted chain id bx e)
    (hknown : ∀ tx ∈ chain, origins.Known tx) :
    (some (getSelfStateRef e)).filter (fun sid =>
        decide (sid ∉ origins.base.map fun bx => format.ofBoxId bx.boxId)) =
      some (format.ofBoxId bx.boxId) := by
  obtain ⟨tx, htx, hbx⟩ := mem_created_nil.mp (created_of_unspent h.unspent)
  have hnot : format.ofBoxId bx.boxId ∉ origins.base.map fun bx => format.ofBoxId bx.boxId := by
    intro hmem
    obtain ⟨bx', hbx', heq⟩ := List.mem_map.mp hmem
    exact origins.older tx (hknown tx htx) bx hbx bx' hbx' (format.injective heq).symm
  rw [format.getSelfStateRef_of_tryFromBox bx e h.parsed, Option.filter_some,
    decide_eq_true hnot]
  rfl

omit [DecidableEq TEntityId] in
/-- The pointer that results where the state is the tracked one. -/
theorem pointer_iff_of_tracked (h : Tracked format blacklisted chain id bx e)
    (hknown : ∀ tx ∈ chain, origins.Known tx)
    (hunique : UniqueEntities format.tryFromBox OnChainEntity.getSelfRef
      (unspent origins.base chain)) {sid : TStateId} :
    (some (getSelfStateRef e)).filter (fun sid =>
        decide (sid ∉ origins.base.map fun bx => format.ofBoxId bx.boxId)) = some sid ↔
      ∃ bx e, Tracked format blacklisted chain id bx e ∧ sid = format.ofBoxId bx.boxId := by
  rw [h.filter_eq hknown]
  constructor
  · intro heq
    exact ⟨bx, e, h, (Option.some.inj heq).symm⟩
  · rintro ⟨bx', e', h', rfl⟩
    rw [(h.eq_box hunique h').1]

theorem Finds.pointer_applied (h : Finds format blacklisted origins chain tx repo)
    (hpointer : ∀ id sid, pointer format origins repo id = some sid ↔
      ∃ bx e, Tracked format blacklisted chain id bx e ∧ sid = format.ofBoxId bx.boxId)
    (id : TEntityId) (sid : TStateId) :
    pointer format origins (trackEvent format blacklisted env repo (.appliedTx tx timestamp)) id =
        some sid ↔
      ∃ bx e, Tracked format blacklisted (tx :: chain) id bx e ∧
        sid = format.ofBoxId bx.boxId := by
  have hknown : ∀ tx' ∈ tx :: chain, origins.Known tx' :=
    List.forall_mem_cons.mpr ⟨h.knownTx, h.known⟩
  rw [pointer, trackEvent, handleEntityEvent]
  by_cases hid : id ∈ touched format blacklisted env repo tx
  · rw [entityTransitions, lastConfirmed_foldl_transition_of_mem hid]
    cases hcreated : (byId (createdEntities format blacklisted tx.outputs)).get id with
    | some e =>
        obtain ⟨bx, hbx, htracked⟩ := h.get_created.mp hcreated
        exact pointer_iff_of_tracked htracked hknown h.after
    | none =>
        refine iff_of_false (by simp) ?_
        rintro ⟨bx, e, htracked, -⟩
        have hnone : ∀ bx e, bx ∈ tx.outputs →
            ¬ Tracked format blacklisted (tx :: chain) id bx e := by
          intro bx e hbx htracked
          rw [h.get_created.mpr ⟨bx, hbx, htracked⟩] at hcreated
          cases hcreated
        rcases h.mem_touched.mp hid with ⟨bx', e', hi, hspent⟩ | ⟨bx', e', hbx', htracked'⟩
        · rcases tracked_cons.mp htracked with ⟨hbefore, hinputs⟩ | ⟨hbx, -⟩
          · rw [(hbefore.eq_box h.before hspent).1] at hinputs
            exact hinputs hi
          · exact hnone bx e hbx htracked
        · exact hnone bx' e' hbx' htracked'
  · rw [entityTransitions, lastConfirmed_foldl_transition_of_notMem hid]
    simp only [h.tracked_of_notMem hid]
    exact hpointer id sid

omit [DecidableEq TStateId] in
theorem Finds.linkedToBase (h : Finds format blacklisted origins chain tx repo)
    (hlinked : ∀ sid prev, repo.predictionLink.get sid = some prev → ∃ tx, origins.Known tx ∧
      ∃ id, Creates format tx sid id ∧ Spends format origins tx prev id) :
    LinkedToBase format origins (consumedEntities format blacklisted env.filter repo tx.inputs)
      (createdEntities format blacklisted tx.outputs) repo := by
  intro new prev hnew hold hprev
  obtain ⟨bx, hbx, htracked⟩ := h.get_created.mp hnew
  rw [format.getSelfStateRef_of_tryFromBox bx new htracked.parsed] at hprev
  obtain ⟨tx', htx', id, hcreates, bx', hbx', hi, rfl, e', hparse', hentity'⟩ :=
    hlinked _ prev hprev
  obtain ⟨rfl, e, hparse, rfl⟩ := hcreates.box htx' h.knownTx hbx
  obtain rfl := Option.some.inj (hparse.symm.trans htracked.parsed)
  rcases hbx' with hbase | ⟨tx'', htx'', houtput⟩
  · exact List.mem_map_of_mem hbase
  · -- the state it was predicted from would have been found
    have hunspent := unspent_of_input h.known h.accepts htx'' houtput hi
    rw [h.get_consumed.mpr ⟨bx', hi, hunspent, hparse', hentity', htracked.listed⟩] at hold
    cases hold

theorem Finds.pointer_unapplied (h : Finds format blacklisted origins chain tx repo)
    (hlinked : ∀ sid prev, repo.predictionLink.get sid = some prev → ∃ tx, origins.Known tx ∧
      ∃ id, Creates format tx sid id ∧ Spends format origins tx prev id)
    (hpointer : ∀ id sid, pointer format origins repo id = some sid ↔
      ∃ bx e, Tracked format blacklisted (tx :: chain) id bx e ∧ sid = format.ofBoxId bx.boxId)
    (id : TEntityId) (sid : TStateId) :
    pointer format origins (trackEvent format blacklisted env repo (.unappliedTx tx)) id =
        some sid ↔
      ∃ bx e, Tracked format blacklisted chain id bx e ∧ sid = format.ofBoxId bx.boxId := by
  rw [trackEvent, handleEntityEvent]
  by_cases hid : id ∈ touched format blacklisted env repo tx
  · rw [entityTransitions, pointer_foldl_rollback_of_mem (h.linkedToBase hlinked) hid]
    cases hconsumed :
        (byId (consumedEntities format blacklisted env.filter repo tx.inputs)).get id with
    | some e =>
        obtain ⟨bx, hi, htracked⟩ := h.get_consumed.mp hconsumed
        exact pointer_iff_of_tracked htracked h.known h.before
    | none =>
        refine iff_of_false (by simp) ?_
        rintro ⟨bx, e, htracked, -⟩
        have hnone : ∀ bx e, bx.boxId ∈ tx.inputs → ¬ Tracked format blacklisted chain id bx e := by
          intro bx e hi htracked
          rw [h.get_consumed.mpr ⟨bx, hi, htracked⟩] at hconsumed
          cases hconsumed
        rcases h.mem_touched.mp hid with ⟨bx', e', hi, htracked'⟩ | ⟨bx', e', hbx', hcreated⟩
        · exact hnone bx' e' hi htracked'
        · -- the box would be unspent together with the one that the transaction creates
          have hafter : Tracked format blacklisted (tx :: chain) id bx e :=
            tracked_cons.mpr (.inl ⟨htracked, fun hi => hnone bx e hi htracked⟩)
          obtain rfl := (hafter.eq_box h.after hcreated).1
          refine h.accepts.outputs_fresh bx hbx' bx ?_ rfl
          exact created_of_unspent (mem_unspent_iff.mpr (.inr htracked.unspent))
  · rw [pointer, entityTransitions, lastConfirmed_foldl_rollback_of_notMem hid]
    simp only [← h.tracked_of_notMem hid]
    exact hpointer id sid

/-! ### The repository -/

omit [DecidableEq TStateId] in
/-- The new states of an event are those that were created, or consumed. -/
theorem newState_of_applied {upd : StateUpdate T}
    (hupd : upd ∈ (handleEntityEvent format blacklisted env repo (.appliedTx tx timestamp)).1)
    (hnew : upd.newState = some e) : e ∈ createdEntities format blacklisted tx.outputs := by
  obtain ⟨tr, htr, rfl⟩ := List.mem_map.mp hupd
  exact (mem_of_get_byId ((newState_of_mem_transitions htr).symm.trans hnew)).1

omit [DecidableEq TStateId] in
theorem newState_of_unapplied {upd : StateUpdate T}
    (hupd : upd ∈ (handleEntityEvent format blacklisted env repo (.unappliedTx tx)).1)
    (hnew : upd.newState = some e) :
    e ∈ consumedEntities format blacklisted env.filter repo tx.inputs := by
  obtain ⟨tr, htr, rfl⟩ := List.mem_map.mp hupd
  exact (mem_of_get_byId ((newState_swap_of_mem_transitions htr).symm.trans hnew)).1

theorem Tracks.applied (h : Tracks format blacklisted origins chain repo)
    (hfinds : Finds format blacklisted origins chain tx repo)
    (hvalid : Valid origins.base (tx :: chain)) :
    Tracks format blacklisted origins (tx :: chain)
      (trackEvent format blacklisted env repo (.appliedTx tx timestamp)) := by
  have hcreated : ∀ e ∈ createdEntities format blacklisted tx.outputs, ∃ bx ∈ tx.outputs,
      getSelfStateRef e = format.ofBoxId bx.boxId ∧ format.tryFromBox bx = some e := by
    intro e he
    obtain ⟨bx, hbx, hparse, -⟩ := mem_createdEntities.mp he
    exact ⟨bx, hbx, format.getSelfStateRef_of_tryFromBox bx e hparse, hparse⟩
  -- under the id of a box only its own state is stored
  have hsame : ∀ bx ∈ Ledger.created [] (tx :: chain), ∀ e, format.tryFromBox bx = some e →
      ∀ upd ∈ (handleEntityEvent format blacklisted env repo (.appliedTx tx timestamp)).1, ∀ new,
      upd.newState = some new → getSelfStateRef new = format.ofBoxId bx.boxId → new = e := by
    intro bx hbx e hparse upd hupd new hnew hsid
    obtain ⟨bx', hbx', hsid', hparse'⟩ := hcreated new (newState_of_applied hupd hnew)
    have hbox : bx' = bx := by
      refine hvalid.eq_of_boxId ?_ ?_ (format.injective (hsid'.symm.trans hsid))
      · exact mem_created_cons.mpr (.inl hbx')
      · exact mem_created_iff.mpr (.inr (mem_created_nil.mp hbx))
    rw [hbox, hparse] at hparse'
    exact (Option.some.inj hparse').symm
  -- only states of boxes that the transaction creates are new
  refine ⟨?_, ?_, ?_, hfinds.pointer_applied h.current⟩
  · intro sid e hget
    rcases stored_of_foldl hget with hget | ⟨upd, hupd, hnew, rfl⟩
    · exact h.genuine sid e hget
    · obtain ⟨bx, hbx, hsid, hparse⟩ := hcreated e (newState_of_applied hupd hnew)
      exact ⟨rfl, tx, hfinds.knownTx, bx, hbx, hsid, e, hparse, rfl⟩
  · intro sid prev hprev
    exact h.linked sid prev (predictionLink_of_foldl hprev)
  · intro bx hbx e hparse hlisted
    have hsid := format.getSelfStateRef_of_tryFromBox bx e hparse
    rcases mem_created_cons.mp hbx with houtput | hearlier
    · -- the state of an output is written by the update of its entity
      have he : e ∈ createdEntities format blacklisted tx.outputs :=
        mem_createdEntities.mpr ⟨bx, houtput, hparse, hlisted⟩
      have hid : OnChainEntity.getSelfRef e ∈ touched format blacklisted env repo tx :=
        mem_entityIds_transitions.mpr (.inr ⟨e, he, rfl⟩)
      obtain ⟨tr, htr, hentity⟩ := List.mem_map.mp hid
      have hnew : tr.newState = some e := by
        rw [newState_of_mem_transitions htr, hentity]
        exact hfinds.get_created.mpr
          ⟨bx, houtput, mem_unspent_cons.mpr (.inr houtput), hparse, rfl, hlisted⟩
      rw [← hsid]
      refine state_foldl_of_mem (e := e) ?_ (List.mem_map_of_mem htr) hnew
      rw [hsid]
      exact hsame bx hbx e hparse
    · exact state_foldl (hsame bx hbx e hparse) (h.stored bx hearlier e hparse hlisted)

theorem Tracks.unapplied (h : Tracks format blacklisted origins (tx :: chain) repo)
    (hfinds : Finds format blacklisted origins chain tx repo) :
    Tracks format blacklisted origins chain
      (trackEvent format blacklisted env repo (.unappliedTx tx)) := by
  have hstored : ∀ e ∈ consumedEntities format blacklisted env.filter repo tx.inputs,
      repo.state.get (getSelfStateRef e) = some e := by
    intro e he
    obtain ⟨i, -, hget, -⟩ := mem_consumedEntities.mp he
    rw [(h.genuine _ e hget).1]
    exact hget
  refine ⟨?_, ?_, ?_, hfinds.pointer_unapplied h.linked h.current⟩
  · intro sid e hget
    rcases stored_of_foldl hget with hget | ⟨upd, hupd, hnew, rfl⟩
    · exact h.genuine sid e hget
    · exact h.genuine _ e (hstored e (newState_of_unapplied hupd hnew))
  · intro sid prev hprev
    exact h.linked sid prev (predictionLink_of_foldl hprev)
  · intro bx hbx e hparse hlisted
    have hget := h.stored bx (mem_created_cons.mpr (.inr hbx)) e hparse hlisted
    refine state_foldl ?_ hget
    intro upd hupd new hnew hsid
    have hnew := hstored new (newState_of_unapplied hupd hnew)
    rw [hsid, hget] at hnew
    exact (Option.some.inj hnew).symm

omit [DecidableEq TEntityId] in
/-- The box of a tracked state has its own state, and one of the base has none. -/
theorem Tracks.bind_pointer (h : Tracks format blacklisted origins chain repo) (id : TEntityId) :
    (repo.lastConfirmed.get id).bind repo.state.get =
      (pointer format origins repo id).bind repo.state.get := by
  rw [pointer]
  cases repo.lastConfirmed.get id with
  | none => rfl
  | some sid =>
      rw [Option.filter_some]
      split
      case isTrue => rfl
      case isFalse hbase =>
        rw [decide_eq_true_eq, not_not] at hbase
        obtain ⟨bx, hbx, rfl⟩ := List.mem_map.mp hbase
        rw [Option.bind_some, Option.bind_none, Option.eq_none_iff_forall_ne_some]
        intro e hget
        obtain ⟨-, tx, htx, bx', hbx', heq, -⟩ := h.genuine _ e hget
        exact origins.older tx htx bx' hbx' bx hbx (format.injective heq).symm

omit [DecidableEq TEntityId] in
/-- The last confirmed state of an entity is the tracked one. -/
theorem Tracks.getLastConfirmed_iff (h : Tracks format blacklisted origins chain repo) :
    repo.getLastConfirmed id = some e ↔ ∃ bx, Tracked format blacklisted chain id bx e := by
  rw [EntityRepo.getLastConfirmed_eq, h.bind_pointer, Option.bind_eq_some_iff]
  constructor
  · rintro ⟨sid, hsid, hget⟩
    obtain ⟨bx, e', htracked, rfl⟩ := (h.current id sid).mp hsid
    have hlisted : OnChainEntity.getSelfRef e' ∉ blacklisted := htracked.entity ▸ htracked.listed
    have hstored := h.stored bx (created_of_unspent htracked.unspent) e' htracked.parsed hlisted
    obtain rfl := Option.some.inj (hstored.symm.trans hget)
    exact ⟨bx, htracked⟩
  · rintro ⟨bx, htracked⟩
    have hlisted : OnChainEntity.getSelfRef e ∉ blacklisted := htracked.entity ▸ htracked.listed
    exact ⟨_, (h.current id _).mpr ⟨bx, e, htracked, rfl⟩,
      h.stored bx (created_of_unspent htracked.unspent) e htracked.parsed hlisted⟩

/-- To predict a state that is not on the ledger yet changes nothing that is tracked. -/
theorem Tracks.putPredicted (h : Tracks format blacklisted origins chain repo) {traced : Traced T}
    (hfresh : FreshSuccessor format origins chain traced) :
    Tracks format blacklisted origins chain (repo.putPredicted traced) := by
  obtain ⟨hnew, tx, htx, hcreates, hprev⟩ := hfresh
  refine ⟨?_, ?_, ?_, h.current⟩
  · exact Store.forall_get_put ⟨rfl, tx, htx, hcreates⟩ h.genuine
  · intro sid prev hlink
    rw [EntityRepo.predictionLink_putPredicted] at hlink
    split at hlink
    case isTrue heq =>
      obtain ⟨rfl, -⟩ := heq
      exact ⟨tx, htx, _, hcreates, hprev prev hlink⟩
    case isFalse => exact h.linked sid prev hlink
  · intro bx hbx e hparse hlisted
    have hne : format.ofBoxId bx.boxId ≠ getSelfStateRef traced.state :=
      (hnew bx (mem_created_iff.mpr (.inr (mem_created_nil.mp hbx)))).symm
    exact (Store.get_put_of_ne hne).trans (h.stored bx hbx e hparse hlisted)

end Tracking

/-! ## Runs -/

/-- The repository, and the chain of transactions that are applied, the latest first. -/
structure EntitySystem (T : Type) {TEntityId TStateId : Type}
    [OnChainEntity T TEntityId TStateId] where
  repo : EntityRepo T
  chain : List LedgerTx

namespace EntitySystem

inductive Label (T : Type) {TEntityId TStateId : Type} [OnChainEntity T TEntityId TStateId] where
  | ledger (ev : LedgerTxEvent LedgerTx)
  | predict (traced : Traced T)

/-- The ledger event of a step. -/
def Label.event : Label T → Option (LedgerTxEvent LedgerTx)
  | ledger ev => some ev
  | predict _ => none

def initial : EntitySystem T := ⟨.empty, []⟩

variable [DecidableEq TEntityId] [DecidableEq TStateId]

/-- The channel is drained after each event. -/
inductive Step (format : EntityFormat T) (blacklisted : List TEntityId) (origins : Origins) :
    EntitySystem T → Label T → EntitySystem T → Prop where
  | applied {s : EntitySystem T} {tx : LedgerTx} {timestamp : I64} {env : EntityHandlerEnv T}
      (hknown : origins.Known tx) (haccepts : Accepts origins.base s.chain tx)
      (hunique : UniqueEntities format.tryFromBox OnChainEntity.getSelfRef
        (unspent origins.base (tx :: s.chain))) :
      Step format blacklisted origins s (.ledger (.appliedTx tx timestamp))
        ⟨trackEvent format blacklisted env s.repo (.appliedTx tx timestamp), tx :: s.chain⟩
  | unapplied {s : EntitySystem T} {tx : LedgerTx} {chain : List LedgerTx}
      {env : EntityHandlerEnv T} (hchain : s.chain = tx :: chain) :
      Step format blacklisted origins s (.ledger (.unappliedTx tx))
        ⟨trackEvent format blacklisted env s.repo (.unappliedTx tx), chain⟩
  | predict {s : EntitySystem T} {traced : Traced T}
      (hfresh : FreshSuccessor format origins s.chain traced) :
      Step format blacklisted origins s (.predict traced) ⟨s.repo.putPredicted traced, s.chain⟩

structure Invariant (format : EntityFormat T) (blacklisted : List TEntityId) (origins : Origins)
    (s : EntitySystem T) : Prop where
  known : ∀ tx ∈ s.chain, origins.Known tx
  valid : Valid origins.base s.chain
  unique : UniqueChain format.tryFromBox OnChainEntity.getSelfRef origins.base s.chain
  tracks : Tracks format blacklisted origins s.chain s.repo

variable {format : EntityFormat T} {blacklisted : List TEntityId} {origins : Origins}
  {s t : EntitySystem T} {labels : List (Label T)}

omit [DecidableEq TEntityId] in
theorem invariant_initial
    (hbase : UniqueEntities format.tryFromBox OnChainEntity.getSelfRef origins.base) :
    Invariant format blacklisted origins (initial : EntitySystem T) := by
  refine ⟨by simp [initial], origins.distinct, hbase, ?_, ?_, ?_, ?_⟩
  · intro sid e h
    cases h
  · intro sid prev h
    cases h
  · intro bx hbx
    cases hbx
  · intro id sid
    refine iff_of_false (by simp [pointer, initial, EntityRepo.empty]) ?_
    rintro ⟨bx, e, htracked, -⟩
    cases htracked.unspent

theorem invariant_step {l : Label T} (h : Invariant format blacklisted origins s)
    (hstep : Step format blacklisted origins s l t) : Invariant format blacklisted origins t := by
  cases hstep with
  | @applied tx timestamp env hknown haccepts hunique =>
      have hvalid : Valid origins.base (tx :: s.chain) := ⟨haccepts, h.valid⟩
      refine ⟨List.forall_mem_cons.mpr ⟨hknown, h.known⟩, hvalid, ⟨hunique, h.unique⟩, ?_⟩
      exact h.tracks.applied ⟨h.known, hknown, haccepts, h.unique.unique, hunique,
        h.tracks.genuine, h.tracks.stored⟩ hvalid
  | @unapplied tx chain env hchain =>
      obtain ⟨hknown, hvalid, hunique, htracks⟩ := h
      rw [hchain] at hknown hvalid hunique htracks
      obtain ⟨htx, hchain⟩ := List.forall_mem_cons.mp hknown
      refine ⟨hchain, hvalid.2, hunique.2, htracks.unapplied ?_⟩
      refine ⟨hchain, htx, hvalid.1, hunique.2.unique, hunique.1, htracks.genuine, ?_⟩
      exact fun bx hbx => htracks.stored bx (mem_created_cons.mpr (.inr hbx))
  | predict hfresh => exact ⟨h.known, h.valid, h.unique, h.tracks.putPredicted hfresh⟩

/-- The events are operations on the stack of applied transactions. -/
theorem chain_of_run (hrun : Run (Step format blacklisted origins) s labels t) :
    Run (StackStep (fun _ _ => True) Eq) s.chain
      ((labels.filterMap Label.event).map LedgerTxEvent.stackOp) t.chain := by
  induction hrun with
  | nil s => exact .nil s.chain
  | cons hstep _ ih =>
      cases hstep with
      | applied _ _ _ => exact .cons (.push trivial) ih
      | unapplied hchain =>
          refine .cons ?_ ih
          rw [hchain]
          exact .pop rfl
      | predict _ => exact ih

theorem invariant_of_run
    (hbase : UniqueEntities format.tryFromBox OnChainEntity.getSelfRef origins.base)
    (hrun : Run (Step format blacklisted origins) initial labels s) :
    Invariant format blacklisted origins s :=
  hrun.invariant (fun _ _ _ => invariant_step) (invariant_initial hbase)

/-- Transactions that are applied and undone again leave the last confirmed states as they were. -/
theorem getLastConfirmed_of_rollback
    (hbase : UniqueEntities format.tryFromBox OnChainEntity.getSelfRef origins.base)
    {earlier : List (Label T)}
    (hearlier : Run (Step format blacklisted origins) initial earlier s)
    (hrun : Run (Step format blacklisted origins) s labels t) {txs : List (LedgerTx × I64)}
    (hevents : labels.filterMap Label.event =
      txs.map (fun tx => .appliedTx tx.1 tx.2) ++ txs.reverse.map fun tx => .unappliedTx tx.1)
    (id : TEntityId) : t.repo.getLastConfirmed id = s.repo.getLastConfirmed id := by
  have hs := invariant_of_run hbase hearlier
  have ht := hrun.invariant (fun _ _ _ => invariant_step) hs
  have hchain : t.chain = s.chain := by
    have hops := chain_of_run hrun
    rw [hevents, List.map_append, List.map_map, List.map_map] at hops
    have hpush : txs.map (LedgerTxEvent.stackOp ∘ fun tx => .appliedTx tx.1 tx.2) =
        (txs.map Prod.fst).map .push := by
      rw [List.map_map]
      rfl
    have hpop : txs.reverse.map (LedgerTxEvent.stackOp ∘ fun tx => .unappliedTx tx.1) =
        (txs.map Prod.fst).reverse.map .pop := by
      rw [← List.map_reverse, List.map_map]
      rfl
    rw [hpush, hpop] at hops
    exact StackStep.eq_of_push_pop (fun _ _ => trivial) (fun _ => rfl) hops
  have htracks := ht.tracks
  rw [hchain] at htracks
  apply Option.ext
  intro e
  rw [htracks.getLastConfirmed_iff, hs.tracks.getLastConfirmed_iff]

end EntitySystem

/-! ## A pool that appears, moves on and ends -/

namespace Entities.Sample

open SpectrumOffchain.Sample

/-- The transaction that creates the pool. -/
def poolTx : LedgerTx := ⟨[], [poolBox], List.nodup_singleton _⟩

def poolOrigins : Origins where
  base := []
  distinct := List.nodup_nil
  Known tx := tx = poolTx
  creator _ _ h h' _ _ _ _ _ := h.trans h'.symm
  older _ _ _ _ _ h := absurd h List.not_mem_nil

def poolEnv : EntityHandlerEnv (AsBox Pool) where
  filter := ⟨fun repo sid => (repo.state.get sid).isSome, fun _ _ h => h⟩
  order := ⟨id, fun items => .refl items⟩

def poolState : AsBox Pool := ⟨poolBox, Staking.Sample.pool⟩

theorem tryFromBox_state {bx : ErgoBox} {pool : Pool} (h : Pool.tryFromBox bx = some pool) :
    poolFormat.tryFromBox bx = some ⟨bx, pool⟩ := by
  show (Pool.tryFromBox bx).map _ = _
  rw [h]
  rfl

/-! Another stake joins the pool, and then its box is spent without a successor. -/

def joinedState : AsBox Pool := ⟨joinedPoolBox, Staking.Sample.joinedPool⟩

def joinTx : LedgerTx := ⟨[poolBox.boxId], [joinedPoolBox], List.nodup_singleton _⟩

def endTx : LedgerTx := ⟨[joinedPoolBox.boxId], [], List.nodup_nil⟩

theorem ne_joinedPoolBox : poolBox.boxId ≠ joinedPoolBox.boxId := by decide

theorem creator_pool (tx tx' : LedgerTx) (h : tx = poolTx ∨ tx = joinTx ∨ tx = endTx)
    (h' : tx' = poolTx ∨ tx' = joinTx ∨ tx' = endTx) : ∀ bx ∈ tx.outputs, ∀ bx' ∈ tx'.outputs,
    bx.boxId = bx'.boxId → tx = tx' := by
  intro bx hbx bx' hbx' heq
  rcases h with rfl | rfl | rfl <;> rcases h' with rfl | rfl | rfl <;>
    simp only [poolTx, joinTx, endTx, List.mem_singleton, List.not_mem_nil] at hbx hbx' <;>
    subst hbx hbx'
  · rfl
  · exact absurd heq ne_joinedPoolBox
  · exact absurd heq.symm ne_joinedPoolBox
  · rfl

def lifeOrigins : Origins where
  base := []
  distinct := List.nodup_nil
  Known tx := tx = poolTx ∨ tx = joinTx ∨ tx = endTx
  creator := creator_pool
  older _ _ _ _ _ h := absurd h List.not_mem_nil

/-- The system after an event. -/
def after (s : EntitySystem (AsBox Pool)) (ev : LedgerTxEvent LedgerTx) (chain : List LedgerTx) :
    EntitySystem (AsBox Pool) :=
  ⟨trackEvent poolFormat [] poolEnv s.repo ev, chain⟩

def appeared : EntitySystem (AsBox Pool) := after .initial (.appliedTx poolTx 0) [poolTx]

/-- The next state is predicted before it is on the ledger. -/
def predictedJoin : EntitySystem (AsBox Pool) :=
  ⟨appeared.repo.putPredicted ⟨joinedState, some ⟨poolBox.boxId⟩⟩, appeared.chain⟩

def moved : EntitySystem (AsBox Pool) :=
  after predictedJoin (.appliedTx joinTx 0) [joinTx, poolTx]

def ended : EntitySystem (AsBox Pool) := after moved (.appliedTx endTx 0) [endTx, joinTx, poolTx]

def endUndone : EntitySystem (AsBox Pool) := after ended (.unappliedTx endTx) [joinTx, poolTx]

def allUndone : EntitySystem (AsBox Pool) := after endUndone (.unappliedTx joinTx) [poolTx]

theorem uniqueEntities_singleton (bx : ErgoBox) :
    UniqueEntities poolFormat.tryFromBox OnChainEntity.getSelfRef [bx] := by
  intro bx hbx bx' hbx' _ _ _ _ _
  rw [List.mem_singleton.mp hbx, List.mem_singleton.mp hbx']

open EntitySystem

theorem run_appeared : Run (Step poolFormat [] lifeOrigins) initial
    [.ledger (.appliedTx poolTx 0)] appeared := by
  refine .single (@Step.applied _ _ _ _ _ _ _ _ _ initial poolTx 0 poolEnv (.inl rfl) ⟨?_, ?_⟩ ?_)
  · exact fun i hi => absurd hi List.not_mem_nil
  · exact fun bx _ bx' hbx' => absurd hbx' List.not_mem_nil
  · exact uniqueEntities_singleton poolBox

theorem getLastConfirmed_appeared :
    appeared.repo.getLastConfirmed Staking.Sample.pool.poolId = some poolState := by
  have hinvariant : Invariant poolFormat [] lifeOrigins appeared :=
    invariant_of_run (fun bx hbx => absurd hbx List.not_mem_nil) run_appeared
  refine hinvariant.tracks.getLastConfirmed_iff.mpr ⟨poolBox, ?_⟩
  exact ⟨List.mem_singleton_self _, tryFromBox_state tryFromBox_poolBox, rfl, List.not_mem_nil⟩

theorem step_predictedJoin : Step poolFormat [] lifeOrigins appeared
    (.predict ⟨joinedState, some ⟨poolBox.boxId⟩⟩) predictedJoin := by
  refine .predict ⟨?_, joinTx, .inr (.inl rfl), ?_, ?_⟩
  · intro bx hbx heq
    rw [List.mem_singleton.mp hbx] at heq
    exact ne_joinedPoolBox (congrArg PoolStateId.boxId heq).symm
  · exact ⟨joinedPoolBox, List.mem_singleton_self _, rfl, joinedState,
      tryFromBox_state tryFromBox_joinedPoolBox, rfl⟩
  · intro prev hprev
    cases hprev
    exact ⟨poolBox, .inr ⟨poolTx, .inl rfl, List.mem_singleton_self _⟩, List.mem_singleton_self _,
      rfl, poolState, tryFromBox_state tryFromBox_poolBox, rfl⟩

theorem step_moved : Step poolFormat [] lifeOrigins predictedJoin
    (.ledger (.appliedTx joinTx 0)) moved := by
  refine @Step.applied _ _ _ _ _ _ _ _ _ predictedJoin joinTx 0 poolEnv (.inr (.inl rfl)) ⟨?_, ?_⟩ ?_
  · intro i hi
    exact ⟨poolBox, List.mem_singleton_self _, (List.mem_singleton.mp hi).symm⟩
  · intro bx hbx bx' hbx'
    rw [List.mem_singleton.mp hbx, List.mem_singleton.mp hbx']
    exact ne_joinedPoolBox.symm
  · exact uniqueEntities_singleton joinedPoolBox

theorem step_ended : Step poolFormat [] lifeOrigins moved (.ledger (.appliedTx endTx 0)) ended := by
  refine @Step.applied _ _ _ _ _ _ _ _ _ moved endTx 0 poolEnv (.inr (.inr rfl)) ⟨?_, ?_⟩ ?_
  · intro i hi
    exact ⟨joinedPoolBox, List.mem_singleton_self _, (List.mem_singleton.mp hi).symm⟩
  · exact fun bx hbx => absurd hbx List.not_mem_nil
  · exact fun bx hbx => absurd hbx List.not_mem_nil

end Entities.Sample

open Entities.Sample SpectrumOffchain.Sample EntitySystem in
/-- A predicted transition and an elimination are undone again. -/
theorem getLastConfirmed_of_rollback_sample :
    allUndone.repo.getLastConfirmed Staking.Sample.pool.poolId =
      appeared.repo.getLastConfirmed Staking.Sample.pool.poolId ∧
      appeared.repo.getLastConfirmed Staking.Sample.pool.poolId = some poolState := by
  have hrun : Run (Step poolFormat [] lifeOrigins) appeared
      [.predict ⟨joinedState, some ⟨poolBox.boxId⟩⟩, .ledger (.appliedTx joinTx 0),
        .ledger (.appliedTx endTx 0), .ledger (.unappliedTx endTx),
        .ledger (.unappliedTx joinTx)] allUndone := by
    refine .cons step_predictedJoin (.cons step_moved (.cons step_ended ?_))
    refine .cons (t := endUndone)
      (@Step.unapplied _ _ _ _ _ _ _ _ _ ended endTx [joinTx, poolTx] poolEnv rfl) ?_
    exact .single (@Step.unapplied _ _ _ _ _ _ _ _ _ endUndone joinTx [poolTx] poolEnv rfl)
  have hevents : [Label.predict ⟨joinedState, some ⟨poolBox.boxId⟩⟩, .ledger (.appliedTx joinTx 0),
      .ledger (.appliedTx endTx 0), .ledger (.unappliedTx endTx),
      .ledger (.unappliedTx joinTx)].filterMap Label.event =
        [(joinTx, (0 : I64)), (endTx, 0)].map (fun tx => .appliedTx tx.1 tx.2) ++
          [(joinTx, (0 : I64)), (endTx, 0)].reverse.map fun tx => .unappliedTx tx.1 := rfl
  exact ⟨getLastConfirmed_of_rollback (fun bx hbx => absurd hbx List.not_mem_nil) run_appeared hrun
    hevents Staking.Sample.pool.poolId, getLastConfirmed_appeared⟩

end SpectrumOffchain.EventSink
