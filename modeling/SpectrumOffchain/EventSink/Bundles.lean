import SpectrumOffchain.Data.Codec
import SpectrumOffchain.EventSink.Ledger
import SpectrumOffchain.Execution.Prediction
import SpectrumOffchain.Lib.Transition
import SpectrumOffchain.Lib.Updates
import SpectrumOffchain.Resolver.BundleRepo
import Mathlib.Data.List.ReduceOption

/-!
# The intake of staking bundles

`ConfirmedBundleUpdateHadler` looks up the inputs of a transaction in the repository of
bundles, under the lock of the repository, and reads the bundles among the outputs.  The
transitions go through a channel to `bundle_update_stream`, which writes them to the
repository later on.

A bundle that a transaction spends without a successor is eliminated only if the handler
finds its state, which may still be in the channel.  If it is always found, then the
repository, once the channel is drained, holds the bundles that are unspent
(`tracked_of_run`); otherwise a bundle that is spent stays (`ghost_bundle`).

## Strategy

* The states that the repository will hold once the channel is drained are
  `drained s`.  Draining one update does not change this value, so only the steps of the
  handler need an argument.
* `Holds` says of a repository that its last confirmed states are the live ones, and
  `Knows` that what it stores was read off boxes of the ledger.  The invariant has the
  first of the drained repository, while the handler looks into the one that is not
  drained, and `Found` is the condition that it still finds every bundle that ends.
* `Holds.handle` is the step.  A bundle is either touched by the transaction, and then its
  own transition decides (`live_of_created`, `not_live_of_consumed`), or it is not, and
  then it is live afterwards exactly if it was before (`live_of_untouched`).
-/

namespace SpectrumOffchain.EventSink

open Resolver Ledger Transition

abbrev BundleFilter :=
  MayExist fun (repo : BundleRepo) (sid : BundleStateId) => (repo.state.get sid).isSome

/-! ## The handler -/

/-- The states of the inputs that are found. -/
def consumedBundles (filter : BundleFilter) (repo : BundleRepo) (inputs : List BoxId) :
    List (AsBox IndexedStakingBundle) :=
  inputs.filterMap fun i => if filter.mayExist repo ⟨i⟩ then repo.getState ⟨i⟩ else none

theorem mem_consumedBundles {filter : BundleFilter} {repo : BundleRepo} {inputs : List BoxId}
    {st : AsBox IndexedStakingBundle} :
    st ∈ consumedBundles filter repo inputs ↔ ∃ i ∈ inputs, repo.state.get ⟨i⟩ = some st := by
  rw [consumedBundles, List.mem_filterMap]
  refine exists_congr fun i => and_congr_right fun _ => ?_
  split
  case isTrue => exact Iff.rfl
  case isFalse hnot =>
    refine iff_of_false (by simp) fun hget => hnot (filter.mayExist_of_stored _ _ ?_)
    rw [hget]
    rfl

/-- A bundle of a program that is not known yet is taken for an initialization bundle. -/
def indexBundle (programs : PoolId → Option ProgramConfig) (bundle : StakingBundle) :
    Outcome Unit IndexedStakingBundle :=
  match programs bundle.poolId with
  | some prog => IndexedBundle.new bundle prog
  | none => pure (IndexedBundle.init bundle)

theorem bundle_of_indexBundle {programs : PoolId → Option ProgramConfig} {bundle : StakingBundle}
    {ib : IndexedStakingBundle} (h : indexBundle programs bundle = .ok ib) : ib.bundle = bundle := by
  unfold indexBundle at h
  split at h
  · simp only [IndexedBundle.new, Outcome.bind_eq_ok, Outcome.pure_eq, Outcome.ok.injEq] at h
    obtain ⟨_, -, _, -, _, -, rfl⟩ := h
    rfl
  · cases h
    rfl

/-- A bundle among the outputs of a transaction. -/
def createdBundle (programs : PoolId → Option ProgramConfig) (bx : ErgoBox) :
    Outcome Unit (Option (AsBox IndexedStakingBundle)) :=
  match StakingBundle.tryFromBox bx with
  | some bundle => do
      let indexedBundle ← indexBundle programs bundle
      pure (some ⟨bx, indexedBundle⟩)
  | none => pure none

def createdBundles (programs : PoolId → Option ProgramConfig) (outputs : List ErgoBox) :
    Outcome Unit (List (AsBox IndexedStakingBundle)) := do
  let found ← outputs.mapM (createdBundle programs)
  pure found.reduceOption

/-- What a handler reads besides the event. -/
structure BundleHandlerEnv where
  filter : BundleFilter
  programs : PoolId → Option ProgramConfig
  order : Shuffle BundleId

/-- `ConfirmedBundleUpdateHadler::try_handle`, up to what it returns: the updates it feeds into its
topic. -/
def handleBundleEvent (env : BundleHandlerEnv) (repo : BundleRepo) :
    LedgerTxEvent LedgerTx → Outcome Unit (List (StateUpdate (AsBox IndexedStakingBundle)))
  | .appliedTx tx _ => do
      let created ← createdBundles env.programs tx.outputs
      let trs := transitions env.order (consumedBundles env.filter repo tx.inputs) created
      pure (trs.map .transition)
  | .unappliedTx tx => do
      let created ← createdBundles env.programs tx.outputs
      let trs := transitions env.order (consumedBundles env.filter repo tx.inputs) created
      pure (trs.map fun tr => .transitionRollback tr.swap)

/-- An item of `bundle_update_stream`. -/
def bundleStep (repo : BundleRepo) : StateUpdate (AsBox IndexedStakingBundle) → BundleRepo
  | .transition (.right newState) => repo.putConfirmed newState
  | .transition (.both _ newState) => repo.putConfirmed newState
  | .transitionRollback (.right newState) => repo.putConfirmed newState
  | .transitionRollback (.both _ newState) => repo.putConfirmed newState
  | .transition (.left st) => repo.eliminate st.value
  | .transitionRollback (.left st) => repo.invalidate (getSelfStateRef st)

/-! ## What the handler finds -/

section Created

variable {programs : PoolId → Option ProgramConfig} {outputs : List ErgoBox}
  {created : List (AsBox IndexedStakingBundle)}

/-- The bundle is read off its box. -/
def ReadOff (st : AsBox IndexedStakingBundle) : Prop :=
  StakingBundle.tryFromBox st.bx = some st.value.bundle

theorem ReadOff.stateRef {st : AsBox IndexedStakingBundle} (h : ReadOff st) :
    (getSelfStateRef st : BundleStateId) = ⟨st.bx.boxId⟩ := (StakingBundle.of_tryFromBox h).1

theorem createdBundle_eq_ok {bx : ErgoBox} {found : Option (AsBox IndexedStakingBundle)}
    (h : createdBundle programs bx = .ok found) :
    (∀ st, found = some st → st.bx = bx ∧ ReadOff st) ∧
      (found = none → StakingBundle.tryFromBox bx = none) := by
  unfold createdBundle at h
  split at h
  case h_1 bundle hparse =>
    obtain ⟨ib, hib, h⟩ := Outcome.bind_eq_ok.mp h
    cases h
    refine ⟨?_, fun h => by cases h⟩
    intro st hst
    cases hst
    refine ⟨rfl, ?_⟩
    rw [ReadOff, bundle_of_indexBundle hib]
    exact hparse
  case h_2 hparse =>
    cases h
    refine ⟨?_, fun _ => hparse⟩
    intro st hst
    cases hst

theorem readOff_of_mem_created (h : createdBundles programs outputs = .ok created)
    {st : AsBox IndexedStakingBundle} (hst : st ∈ created) : st.bx ∈ outputs ∧ ReadOff st := by
  obtain ⟨found, hfound, h⟩ := Outcome.bind_eq_ok.mp h
  cases h
  obtain ⟨bx, hbx, hcreated⟩ :=
    (Outcome.mem_of_mapM_eq_ok hfound).1 (some st) (List.reduceOption_mem_iff.mp hst)
  obtain ⟨heq, hread⟩ := (createdBundle_eq_ok hcreated).1 st rfl
  exact ⟨heq ▸ hbx, hread⟩

/-- Every bundle among the outputs is found. -/
theorem exists_created (h : createdBundles programs outputs = .ok created) {bx : ErgoBox}
    (hbx : bx ∈ outputs) {bundle : StakingBundle}
    (hparse : StakingBundle.tryFromBox bx = some bundle) :
    ∃ st ∈ created, st.bx = bx ∧ st.value.bundle = bundle := by
  obtain ⟨found, hfound, h⟩ := Outcome.bind_eq_ok.mp h
  cases h
  obtain ⟨res, hres, hcreated⟩ := (Outcome.mem_of_mapM_eq_ok hfound).2 bx hbx
  obtain ⟨hsome, hnone⟩ := createdBundle_eq_ok hcreated
  cases res with
  | none =>
      rw [hnone rfl] at hparse
      cases hparse
  | some st =>
      obtain ⟨hbx, hread⟩ := hsome st rfl
      refine ⟨st, List.reduceOption_mem_iff.mpr hres, hbx, ?_⟩
      rw [ReadOff, hbx, hparse] at hread
      exact (Option.some.inj hread).symm

end Created

/-! ## What the transitions of a transaction do to the repository -/

section Drained

variable {repo : BundleRepo}
  {tr : EitherOrBoth (AsBox IndexedStakingBundle) (AsBox IndexedStakingBundle)}
  {order : Shuffle BundleId}
  {consumed created : List (AsBox IndexedStakingBundle)} {id : BundleId}

theorem state_bundleStep : (bundleStep repo (.transition tr)).state =
    match tr.newState with
    | some new => repo.state.put (getSelfStateRef new) new
    | none => repo.state := by
  cases tr <;> rfl

theorem isSome_state_bundleStep {sid : BundleStateId} (h : (repo.state.get sid).isSome) :
    ((bundleStep repo (.transition tr)).state.get sid).isSome := by
  rw [state_bundleStep]
  cases tr.newState with
  | none => exact h
  | some new =>
      dsimp only
      rw [Store.get_put]
      split
      · rfl
      · exact h

theorem isSome_state_foldl {sid : BundleStateId} (h : (repo.state.get sid).isSome) :
    ((((transitions order consumed created).map StateUpdate.transition).foldl bundleStep
      repo).state.get sid).isSome := by
  rw [List.foldl_map]
  exact Updates.foldl_invariant (fun repo : BundleRepo => (repo.state.get sid).isSome = true)
    (fun repo tr _ h => isSome_state_bundleStep h) h

/-- The new states are stored. -/
theorem isSome_state_foldl_of_created {new : AsBox IndexedStakingBundle}
    (h : (byId created).get id = some new) :
    ((((transitions order consumed created).map StateUpdate.transition).foldl bundleStep
      repo).state.get (getSelfStateRef new)).isSome := by
  have hid := mem_of_get_byId h
  obtain ⟨tr, htr, rfl⟩ : ∃ tr ∈ transitions order consumed created, tr.entityId = id :=
    List.mem_map.mp (mem_entityIds_transitions.mpr (.inr ⟨new, hid⟩))
  have hnew := (newState_of_mem_transitions htr).trans h
  rw [List.foldl_map]
  refine Updates.foldl_of_mem
    (fun repo : BundleRepo => (repo.state.get (getSelfStateRef new)).isSome = true)
    (fun repo tr _ h => isSome_state_bundleStep h) htr ?_
  intro repo
  rw [state_bundleStep, hnew]
  exact Option.isSome_iff_exists.mpr ⟨new, Store.get_put_self⟩

theorem lastConfirmed_bundleStep (htr : tr ∈ transitions order consumed created) :
    (bundleStep repo (.transition tr)).lastConfirmed.get id =
      if id = tr.entityId then tr.newState.map getSelfStateRef else repo.lastConfirmed.get id :=
  get_of_mem_transitions htr (by cases tr <;> rfl)

theorem lastConfirmed_bundleStep_of_ne (htr : tr ∈ transitions order consumed created)
    (hid : id ≠ tr.entityId) :
    (bundleStep repo (.transition tr)).lastConfirmed.get id = repo.lastConfirmed.get id :=
  (lastConfirmed_bundleStep htr).trans (if_neg hid)

theorem lastConfirmed_bundleStep_self (htr : tr ∈ transitions order consumed created) :
    (bundleStep repo (.transition tr)).lastConfirmed.get tr.entityId =
      tr.newState.map getSelfStateRef :=
  (lastConfirmed_bundleStep htr).trans (if_pos rfl)

/-- A bundle that the transaction touches has its new state for the last confirmed one. -/
theorem lastConfirmed_foldl_of_touched
    (h : (∃ e ∈ consumed, OnChainEntity.getSelfRef e = id) ∨
      ∃ e ∈ created, OnChainEntity.getSelfRef e = id) :
    (((transitions order consumed created).map StateUpdate.transition).foldl bundleStep
      repo).lastConfirmed.get id = ((byId created).get id).map getSelfStateRef := by
  obtain ⟨tr, htr, rfl⟩ : ∃ tr ∈ transitions order consumed created, tr.entityId = id :=
    List.mem_map.mp (mem_entityIds_transitions.mpr h)
  rw [← newState_of_mem_transitions htr, List.foldl_map]
  exact Updates.get_foldl_of_mem (fun repo : BundleRepo => repo.lastConfirmed.get) (fun _ => True)
    (fun _ _ htr _ => lastConfirmed_bundleStep_of_ne htr) (fun _ _ _ _ => trivial)
    (fun _ _ htr _ => lastConfirmed_bundleStep_self htr) nodup_transitions trivial htr

theorem lastConfirmed_foldl_of_untouched
    (hconsumed : ∀ e ∈ consumed, OnChainEntity.getSelfRef e ≠ id)
    (hcreated : ∀ e ∈ created, OnChainEntity.getSelfRef e ≠ id) :
    (((transitions order consumed created).map StateUpdate.transition).foldl bundleStep
      repo).lastConfirmed.get id = repo.lastConfirmed.get id := by
  have hid : id ∉ (transitions order consumed created).map EitherOrBoth.entityId := by
    rw [mem_entityIds_transitions]
    rintro (⟨e, he, heq⟩ | ⟨e, he, heq⟩)
    · exact hconsumed e he heq
    · exact hcreated e he heq
  rw [List.foldl_map]
  exact Updates.get_foldl_of_notMem (fun repo : BundleRepo => repo.lastConfirmed.get)
    (fun _ _ htr _ => lastConfirmed_bundleStep_of_ne htr) hid

end Drained

/-! ## The repository and the ledger -/

section Ledger

variable {base : List ErgoBox} {chain : List LedgerTx} {tx : LedgerTx} {repo : BundleRepo}

/-- A state that was read off a box of the ledger. -/
def Seen (base : List ErgoBox) (chain : List LedgerTx) (st : AsBox IndexedStakingBundle) : Prop :=
  st.bx ∈ created base chain ∧ ReadOff st

/-- The repository stores such states, under their ids. -/
def Knows (base : List ErgoBox) (chain : List LedgerTx) (repo : BundleRepo) : Prop :=
  ∀ sid st, repo.state.get sid = some st → getSelfStateRef st = sid ∧ Seen base chain st

/-- A state of a bundle that is unspent. -/
def Live (base : List ErgoBox) (chain : List LedgerTx) (id : BundleId) (sid : BundleStateId) :
    Prop :=
  ∃ bx ∈ unspent base chain, ∃ bundle, StakingBundle.tryFromBox bx = some bundle ∧
    bundle.bundleId = id ∧ bundle.stateId = sid

/-- The last confirmed states are those of the unspent bundles, and they are stored. -/
structure Holds (base : List ErgoBox) (chain : List LedgerTx) (repo : BundleRepo) : Prop where
  pointer : ∀ id sid, repo.lastConfirmed.get id = some sid ↔ Live base chain id sid
  stored : ∀ id sid, repo.lastConfirmed.get id = some sid → (repo.state.get sid).isSome

/-- A bundle has at most one unspent box. -/
abbrev UniqueBundles (boxes : List ErgoBox) : Prop :=
  UniqueEntities StakingBundle.tryFromBox StakingBundle.bundleId boxes

theorem Seen.cons {st : AsBox IndexedStakingBundle} (h : Seen base chain st) (tx : LedgerTx) :
    Seen base (tx :: chain) st := ⟨mem_created_cons.mpr (.inr h.1), h.2⟩

theorem Knows.cons (h : Knows base chain repo) (tx : LedgerTx) : Knows base (tx :: chain) repo :=
  fun sid st hst => ⟨(h sid st hst).1, (h sid st hst).2.cons tx⟩

theorem Knows.bundleStep {tr : EitherOrBoth (AsBox IndexedStakingBundle)
      (AsBox IndexedStakingBundle)} (h : Knows base chain repo)
    (hnew : ∀ new, tr.newState = some new → Seen base chain new) :
    Knows base chain (bundleStep repo (.transition tr)) := by
  unfold Knows
  rw [state_bundleStep]
  cases htr : tr.newState with
  | none => exact h
  | some new => exact Store.forall_get_put ⟨rfl, hnew _ htr⟩ h

/-- A stored state is that of the box with its id. -/
theorem Knows.eq_of_stored (h : Knows base chain repo) (hvalid : Valid base chain) {bx : ErgoBox}
    (hbx : bx ∈ created base chain) {st : AsBox IndexedStakingBundle}
    (hst : repo.state.get ⟨bx.boxId⟩ = some st) : st.bx = bx ∧ ReadOff st := by
  obtain ⟨href, hseen, hread⟩ := h _ st hst
  refine ⟨hvalid.eq_of_boxId hseen hbx ?_, hread⟩
  rw [hread.stateRef] at href
  exact congrArg BundleStateId.boxId href

/-- The last confirmed state of a bundle is its unspent box. -/
theorem Holds.getLastConfirmed (h : Holds base chain repo) (hknows : Knows base chain repo)
    (hvalid : Valid base chain) (id : BundleId) (b : AsBox StakingBundle) :
    repo.getLastConfirmed id = some b ↔
      b.bx ∈ unspent base chain ∧ StakingBundle.tryFromBox b.bx = some b.value ∧
        b.value.bundleId = id := by
  unfold BundleRepo.getLastConfirmed
  rw [Option.map_eq_some_iff]
  constructor
  · rintro ⟨st, hst, rfl⟩
    obtain ⟨sid, hpointer, hst⟩ := Option.bind_eq_some_iff.mp hst
    obtain ⟨bx, hbx, bundle, hparse, hid, rfl⟩ := (h.pointer id sid).mp hpointer
    rw [(StakingBundle.of_tryFromBox hparse).1] at hst
    obtain ⟨rfl, hread⟩ := hknows.eq_of_stored hvalid (created_of_unspent hbx) hst
    rw [hread] at hparse
    cases hparse
    exact ⟨hbx, hread, hid⟩
  · rintro ⟨hbx, hparse, hid⟩
    have hpointer : repo.lastConfirmed.get id = some ⟨b.bx.boxId⟩ :=
      (h.pointer id _).mpr ⟨b.bx, hbx, b.value, hparse, hid, (StakingBundle.of_tryFromBox hparse).1⟩
    obtain ⟨st, hst⟩ := Option.isSome_iff_exists.mp (h.stored id _ hpointer)
    obtain ⟨heq, hread⟩ := hknows.eq_of_stored hvalid (created_of_unspent hbx) hst
    refine ⟨st, Option.bind_eq_some_iff.mpr ⟨_, hpointer, hst⟩, ?_⟩
    rw [ReadOff, heq, hparse] at hread
    obtain ⟨bx, value⟩ := b
    rw [AsBox.map, heq, ← Option.some.inj hread]

/-! ## A transaction -/

/-- The repository has the states of the bundles that the transaction spends and does not create
anew. -/
def Found (base : List ErgoBox) (chain : List LedgerTx) (repo : BundleRepo) (tx : LedgerTx) :
    Prop :=
  ∀ bx ∈ unspent base chain, bx.boxId ∈ tx.inputs →
    ∀ bundle, StakingBundle.tryFromBox bx = some bundle →
      (∀ bx' ∈ tx.outputs, ∀ bundle', StakingBundle.tryFromBox bx' = some bundle' →
        bundle'.bundleId ≠ bundle.bundleId) →
      (repo.state.get bundle.stateId).isSome

section Handle

variable {filter : BundleFilter} {programs : PoolId → Option ProgramConfig}
  {order : Shuffle BundleId} {created : List (AsBox IndexedStakingBundle)} {id : BundleId}
  {sid : BundleStateId} {drained : BundleRepo}

theorem spent_of_mem_consumed (hknows : Knows base chain repo) (hvalid : Valid base chain)
    (haccepts : Accepts base chain tx) {st : AsBox IndexedStakingBundle}
    (hst : st ∈ consumedBundles filter repo tx.inputs) :
    st.bx ∈ unspent base chain ∧ st.bx.boxId ∈ tx.inputs ∧ ReadOff st := by
  obtain ⟨i, hi, hst⟩ := mem_consumedBundles.mp hst
  obtain ⟨href, hseen, hread⟩ := hknows _ st hst
  have hboxId : st.bx.boxId = i := by
    rw [hread.stateRef] at href
    exact congrArg BundleStateId.boxId href
  have hinput : st.bx.boxId ∈ tx.inputs := hboxId ▸ hi
  exact ⟨haccepts.unspent_of_input hvalid hseen hinput, hinput, hread⟩

theorem live_of_created (hunique : UniqueBundles (unspent base (tx :: chain)))
    (hcreated : createdBundles programs tx.outputs = .ok created)
    {new : AsBox IndexedStakingBundle} (hnew : (byId created).get id = some new) :
    Live base (tx :: chain) id sid ↔ getSelfStateRef new = sid := by
  obtain ⟨hmem, hid⟩ := mem_of_get_byId hnew
  obtain ⟨hout, hread⟩ := readOff_of_mem_created hcreated hmem
  have hbx : new.bx ∈ unspent base (tx :: chain) := mem_unspent_cons.mpr (.inr hout)
  constructor
  · rintro ⟨bx, hbx', bundle, hparse, hid', rfl⟩
    have heq := hunique _ hbx _ hbx' _ _ hread hparse (hid.trans hid'.symm)
    rw [hread.stateRef, (StakingBundle.of_tryFromBox hparse).1, heq]
  · rintro rfl
    exact ⟨new.bx, hbx, new.value.bundle, hread, hid, rfl⟩

theorem not_live_of_consumed (hunique : UniqueBundles (unspent base chain))
    (hknows : Knows base chain repo) (hvalid : Valid base chain)
    (haccepts : Accepts base chain tx)
    (hcreated : createdBundles programs tx.outputs = .ok created)
    (hnone : ∀ e ∈ created, OnChainEntity.getSelfRef e ≠ id)
    (hconsumed : ∃ e ∈ consumedBundles filter repo tx.inputs, OnChainEntity.getSelfRef e = id) :
    ¬ Live base (tx :: chain) id sid := by
  rintro ⟨bx, hbx, bundle, hparse, hid, rfl⟩
  obtain ⟨st, hst, hid'⟩ := hconsumed
  obtain ⟨hunspent, hinput, hread⟩ := spent_of_mem_consumed hknows hvalid haccepts hst
  rcases mem_unspent_cons.mp hbx with ⟨hbx, hspent⟩ | hbx
  · have heq := hunique _ hunspent _ hbx _ _ hread hparse (hid'.trans hid.symm)
    exact hspent (heq ▸ hinput)
  · obtain ⟨new, hnew, -, hbundle⟩ := exists_created hcreated hbx hparse
    refine hnone new hnew ?_
    rw [← hid, ← hbundle]
    rfl

/-- A bundle that the handler does not see is live after the transaction if it was before. -/
theorem live_of_untouched (hknows : Knows base chain repo) (hvalid : Valid base chain)
    (hfound : Found base chain repo tx)
    (hcreated : createdBundles programs tx.outputs = .ok created)
    (hnone : ∀ e ∈ created, OnChainEntity.getSelfRef e ≠ id)
    (hconsumed : ∀ e ∈ consumedBundles filter repo tx.inputs, OnChainEntity.getSelfRef e ≠ id) :
    Live base (tx :: chain) id sid ↔ Live base chain id sid := by
  have hout : ∀ bx ∈ tx.outputs, ∀ bundle, StakingBundle.tryFromBox bx = some bundle →
      bundle.bundleId ≠ id := by
    intro bx hbx bundle hparse hid
    obtain ⟨new, hnew, -, rfl⟩ := exists_created hcreated hbx hparse
    exact hnone new hnew hid
  constructor
  · rintro ⟨bx, hbx, bundle, hparse, hid, hsid⟩
    rcases mem_unspent_cons.mp hbx with ⟨hbx, -⟩ | hbx
    · exact ⟨bx, hbx, bundle, hparse, hid, hsid⟩
    · exact absurd hid (hout bx hbx bundle hparse)
  · rintro ⟨bx, hbx, bundle, hparse, hid, hsid⟩
    refine ⟨bx, mem_unspent_cons.mpr (.inl ⟨hbx, ?_⟩), bundle, hparse, hid, hsid⟩
    intro hinput
    -- the handler would have seen it
    have hstored := hfound bx hbx hinput bundle hparse (by
      intro bx' hbx' bundle' hparse' hid'
      exact hout bx' hbx' bundle' hparse' (hid'.trans hid))
    obtain ⟨st, hst⟩ := Option.isSome_iff_exists.mp hstored
    rw [(StakingBundle.of_tryFromBox hparse).1] at hst
    obtain ⟨heq, hread⟩ := hknows.eq_of_stored hvalid (created_of_unspent hbx) hst
    refine hconsumed st (mem_consumedBundles.mpr ⟨_, hinput, hst⟩) ?_
    rw [ReadOff, heq, hparse] at hread
    rw [← hid, Option.some.inj hread]
    rfl

/-- Once the transitions of a transaction are drained, the repository follows the ledger. -/
theorem Holds.handle (h : Holds base chain drained) (hknows : Knows base chain repo)
    (hvalid : Valid base chain) (haccepts : Accepts base chain tx)
    (hunique : UniqueBundles (unspent base chain))
    (hunique' : UniqueBundles (unspent base (tx :: chain))) (hfound : Found base chain repo tx)
    (hcreated : createdBundles programs tx.outputs = .ok created) :
    Holds base (tx :: chain) (((transitions order (consumedBundles filter repo tx.inputs)
      created).map StateUpdate.transition).foldl EventSink.bundleStep drained) := by
  suffices hall : ∀ id, (∀ sid, _ ↔ Live base (tx :: chain) id sid) ∧ ∀ sid, _ → _ from
    ⟨fun id => (hall id).1, fun id => (hall id).2⟩
  intro id
  cases hnew : (byId created).get id with
  | some new =>
      rw [lastConfirmed_foldl_of_touched (.inr ⟨new, mem_of_get_byId hnew⟩), hnew, Option.map_some]
      constructor
      · intro sid
        rw [live_of_created hunique' hcreated hnew, Option.some_inj]
      · intro sid hsid
        cases hsid
        exact isSome_state_foldl_of_created hnew
  | none =>
      have hnone := get_byId_eq_none.mp hnew
      by_cases hconsumed :
          ∃ e ∈ consumedBundles filter repo tx.inputs, OnChainEntity.getSelfRef e = id
      · rw [lastConfirmed_foldl_of_touched (.inl hconsumed), hnew, Option.map_none]
        refine ⟨fun sid => iff_of_false (by simp) ?_, by simp⟩
        exact not_live_of_consumed hunique hknows hvalid haccepts hcreated hnone hconsumed
      · have hconsumed : ∀ e ∈ consumedBundles filter repo tx.inputs,
            OnChainEntity.getSelfRef e ≠ id :=
          fun e he heq => hconsumed ⟨e, he, heq⟩
        rw [lastConfirmed_foldl_of_untouched hconsumed hnone]
        constructor
        · intro sid
          rw [h.pointer, live_of_untouched hknows hvalid hfound hcreated hnone hconsumed]
        · intro sid hsid
          exact isSome_state_foldl (h.stored id sid hsid)

end Handle

end Ledger

/-! ## The handler and the stream -/

/-- The transactions so far, the repository, and the updates that wait in the channel. -/
structure BundleSystem where
  chain : List LedgerTx
  repo : BundleRepo
  channel : List (StateUpdate (AsBox IndexedStakingBundle))

inductive BundleLabel where
  | handle (tx : LedgerTx) (timestamp : I64) (env : BundleHandlerEnv)
  | drain

namespace BundleSystem

/-- Every bundle that ends is found. -/
def FoundAt (base : List ErgoBox) (s : BundleSystem) : BundleLabel → Prop
  | .handle tx _ _ => Found base s.chain s.repo tx
  | .drain => True

/-- The handler takes an event, or the stream takes an update.  A transaction leaves a bundle at
most one unspent box. -/
inductive Step (base : List ErgoBox) : BundleSystem → BundleLabel → BundleSystem → Prop where
  | handle {s : BundleSystem} {tx : LedgerTx} {timestamp : I64} {env : BundleHandlerEnv}
      {upds : List (StateUpdate (AsBox IndexedStakingBundle))}
      (haccepts : Accepts base s.chain tx)
      (hunique : UniqueBundles (unspent base (tx :: s.chain)))
      (hupds : handleBundleEvent env s.repo (.appliedTx tx timestamp) = .ok upds) :
      Step base s (.handle tx timestamp env) ⟨tx :: s.chain, s.repo, s.channel ++ upds⟩
  | drain {s : BundleSystem} {upd : StateUpdate (AsBox IndexedStakingBundle)}
      {rest : List (StateUpdate (AsBox IndexedStakingBundle))} (hchannel : s.channel = upd :: rest) :
      Step base s .drain ⟨s.chain, bundleStep s.repo upd, rest⟩

/-- The repository after the channel is drained. -/
def drained (s : BundleSystem) : BundleRepo := s.channel.foldl bundleStep s.repo

/-- Once drained, the repository follows the ledger. -/
structure Tracked (base : List ErgoBox) (s : BundleSystem) : Prop where
  valid : Valid base s.chain
  unique : UniqueBundles (unspent base s.chain)
  knows : Knows base s.chain s.repo
  awaited : ∀ upd ∈ s.channel, ∃ tr, upd = .transition tr ∧
    ∀ new, tr.newState = some new → Seen base s.chain new
  holds : Holds base s.chain s.drained

variable {base : List ErgoBox} {s t : BundleSystem} {labels : List BundleLabel}

theorem Tracked.handle {tx : LedgerTx} {timestamp : I64} {env : BundleHandlerEnv}
    {upds : List (StateUpdate (AsBox IndexedStakingBundle))} (hs : Tracked base s)
    (haccepts : Accepts base s.chain tx)
    (hunique : UniqueBundles (unspent base (tx :: s.chain)))
    (hupds : handleBundleEvent env s.repo (.appliedTx tx timestamp) = .ok upds)
    (hfound : Found base s.chain s.repo tx) :
    Tracked base ⟨tx :: s.chain, s.repo, s.channel ++ upds⟩ := by
  obtain ⟨found, hcreated, hupds⟩ := Outcome.bind_eq_ok.mp hupds
  cases hupds
  refine ⟨⟨haccepts, hs.valid⟩, hunique, hs.knows.cons tx, ?_, ?_⟩
  · intro upd hupd
    rcases List.mem_append.mp hupd with hupd | hupd
    · obtain ⟨tr, htr, hnew⟩ := hs.awaited upd hupd
      exact ⟨tr, htr, fun new h => (hnew new h).cons tx⟩
    · obtain ⟨tr, htr, rfl⟩ := List.mem_map.mp hupd
      refine ⟨tr, rfl, fun new hnew => ?_⟩
      rw [newState_of_mem_transitions htr] at hnew
      obtain ⟨hout, hread⟩ := readOff_of_mem_created hcreated (mem_of_get_byId hnew).1
      exact ⟨mem_created_cons.mpr (.inl hout), hread⟩
  · rw [drained, List.foldl_append]
    exact hs.holds.handle hs.knows hs.valid haccepts hs.unique hunique hfound hcreated

theorem Tracked.drain {upd : StateUpdate (AsBox IndexedStakingBundle)}
    {rest : List (StateUpdate (AsBox IndexedStakingBundle))} (hs : Tracked base s)
    (hchannel : s.channel = upd :: rest) :
    Tracked base ⟨s.chain, bundleStep s.repo upd, rest⟩ := by
  have hawaited := hs.awaited
  have hholds := hs.holds
  rw [hchannel] at hawaited
  rw [drained, hchannel] at hholds
  obtain ⟨tr, rfl, hnew⟩ := hawaited upd List.mem_cons_self
  refine ⟨hs.valid, hs.unique, hs.knows.bundleStep hnew, ?_, hholds⟩
  exact fun upd hupd => hawaited upd (List.mem_cons_of_mem _ hupd)

theorem tracked_of_step {l : BundleLabel} (hs : Tracked base s)
    (hstep : restrict (Step base) (FoundAt base) s l t) : Tracked base t := by
  obtain ⟨hstep, hfound⟩ := hstep
  cases hstep with
  | handle haccepts hunique hupds => exact hs.handle haccepts hunique hupds hfound
  | drain hchannel => exact hs.drain hchannel

/-- If every bundle that ends is found, then once the channel is drained the last confirmed states
are the unspent bundles of the ledger. -/
theorem tracked_of_run (hvalid : Valid base s.chain)
    (hunique : UniqueBundles (unspent base s.chain)) (hknows : Knows base s.chain s.repo)
    (hholds : Holds base s.chain s.repo) (hstart : s.channel = [])
    (hrun : Run (restrict (Step base) (FoundAt base)) s labels t) (hend : t.channel = [])
    (id : BundleId) (b : AsBox StakingBundle) :
    t.repo.getLastConfirmed id = some b ↔
      b.bx ∈ unspent base t.chain ∧ StakingBundle.tryFromBox b.bx = some b.value ∧
        b.value.bundleId = id := by
  have hs : Tracked base s := by
    refine ⟨hvalid, hunique, hknows, ?_, ?_⟩
    · simp [hstart]
    · rw [drained, hstart]
      exact hholds
  have ht := hrun.invariant (I := Tracked base) (fun _ _ _ => tracked_of_step) hs
  have hdrained := ht.holds
  rw [drained, hend] at hdrained
  exact hdrained.getLastConfirmed ht.knows ht.valid id b

end BundleSystem

/-! ## A bundle that is created and spent -/

namespace Sample

open Staking.Sample SpectrumOffchain.Sample

/-- The transaction that creates the bundle. -/
def bundleTx : LedgerTx := ⟨[], [bundleBox], List.nodup_singleton _⟩

/-- The transaction that redeems it. -/
def redeemTx : LedgerTx := ⟨[bundleBox.boxId], [], List.nodup_nil⟩

def bundleFilter : BundleFilter := ⟨fun repo sid => (repo.state.get sid).isSome, fun _ _ h => h⟩

def bundleEnv : BundleHandlerEnv := ⟨bundleFilter, fun _ => none, ⟨id, fun items => .refl items⟩⟩

def bundleState : AsBox IndexedStakingBundle := ⟨bundleBox, .init Staking.Sample.bundle⟩

def initialBundles : BundleSystem := ⟨[], .empty, []⟩

def storedBundles : BundleSystem := ⟨[bundleTx], BundleRepo.putConfirmed .empty bundleState, []⟩

theorem createdBundles_bundleTx :
    createdBundles bundleEnv.programs bundleTx.outputs = .ok [bundleState] := by
  have hcreated : createdBundle bundleEnv.programs bundleBox = .ok (some bundleState) := by
    rw [createdBundle, tryFromBox_bundleBox]
    rfl
  have houtputs : bundleTx.outputs = [bundleBox] := rfl
  rw [createdBundles, houtputs, List.mapM_cons, hcreated]
  rfl

theorem handle_bundleTx (repo : BundleRepo) :
    handleBundleEvent bundleEnv repo (.appliedTx bundleTx 0) =
      .ok [.transition (.right bundleState)] := by
  rw [handleBundleEvent, createdBundles_bundleTx]
  rfl

/-- Whether the bundle is found depends on what is drained. -/
theorem handle_redeemTx_initial :
    handleBundleEvent bundleEnv .empty (.appliedTx redeemTx 0) = .ok [] := rfl

theorem handle_redeemTx_stored :
    handleBundleEvent bundleEnv storedBundles.repo (.appliedTx redeemTx 0) =
      .ok [.transition (.left bundleState)] := rfl

theorem accepts_bundleTx : Accepts [] [] bundleTx :=
  ⟨fun _ h => absurd h List.not_mem_nil, fun _ _ _ h => absurd h List.not_mem_nil⟩

theorem accepts_redeemTx : Accepts [] [bundleTx] redeemTx := by
  refine ⟨?_, fun _ h => absurd h List.not_mem_nil⟩
  intro i hi
  rw [List.mem_singleton.mp hi]
  exact ⟨bundleBox, List.mem_singleton_self _, rfl⟩

theorem unspent_bundleTx : unspent [] [bundleTx] = [bundleBox] := rfl

theorem unspent_redeemTx : unspent [] [redeemTx, bundleTx] = [] := by
  rw [unspent, unspent_bundleTx, redeemTx]
  simp

theorem uniqueBundles_bundleTx : UniqueBundles (unspent [] [bundleTx]) := by
  intro bx hbx bx' hbx' _ _ _ _ _
  rw [List.mem_singleton.mp hbx, List.mem_singleton.mp hbx']

theorem uniqueBundles_redeemTx : UniqueBundles (unspent [] [redeemTx, bundleTx]) := by
  rw [unspent_redeemTx]
  intro bx hbx
  cases hbx

/-- The state after both transactions. -/
def spentBundles : BundleSystem :=
  ⟨[redeemTx, bundleTx], storedBundles.repo.eliminate bundleState.value, []⟩

def ghostBundles : BundleSystem := ⟨[redeemTx, bundleTx], storedBundles.repo, []⟩

end Sample

open EventSink.Sample SpectrumOffchain.Sample BundleSystem in
/-- A bundle that is spent before its creation is drained stays for good. -/
theorem ghost_bundle :
    Run (Step []) initialBundles
        [.handle bundleTx 0 bundleEnv, .handle redeemTx 0 bundleEnv, .drain] ghostBundles ∧
      ghostBundles.channel = [] ∧ unspent [] ghostBundles.chain = [] ∧
      ghostBundles.repo.getLastConfirmed Staking.Sample.bundle.bundleId =
        some ⟨bundleBox, Staking.Sample.bundle⟩ := by
  refine ⟨?_, rfl, unspent_redeemTx, rfl⟩
  refine .cons (.handle accepts_bundleTx uniqueBundles_bundleTx (handle_bundleTx _)) ?_
  refine .cons (.handle accepts_redeemTx uniqueBundles_redeemTx handle_redeemTx_initial) ?_
  exact .single (@Step.drain _ _ (.transition (.right bundleState)) [] rfl)

open EventSink.Sample SpectrumOffchain.Sample BundleSystem in
theorem tracked_of_run_sample :
    spentBundles.repo.getLastConfirmed Staking.Sample.bundle.bundleId = none := by
  have hfirst : Run (restrict (Step []) (FoundAt [])) initialBundles
      [.handle bundleTx 0 bundleEnv, .drain] storedBundles := by
    refine .cons ⟨.handle accepts_bundleTx uniqueBundles_bundleTx (handle_bundleTx _), ?_⟩ ?_
    · exact fun bx hbx => absurd hbx List.not_mem_nil
    · exact .single ⟨@Step.drain _ _ (.transition (.right bundleState)) [] rfl, trivial⟩
  have hfound : Found [] [bundleTx] storedBundles.repo redeemTx := by
    intro bx hbx _ bundle hparse _
    rw [unspent_bundleTx, List.mem_singleton] at hbx
    rw [(StakingBundle.of_tryFromBox hparse).1, hbx]
    rfl
  have hsecond : Run (restrict (Step []) (FoundAt [])) storedBundles
      [.handle redeemTx 0 bundleEnv, .drain] spentBundles := by
    refine .cons ⟨.handle accepts_redeemTx uniqueBundles_redeemTx handle_redeemTx_stored, hfound⟩ ?_
    exact .single ⟨@Step.drain _ _ (.transition (.left bundleState)) [] rfl, trivial⟩
  have hknows : Knows [] [] .empty := by
    intro sid st hst
    cases hst
  have hholds : Holds [] [] .empty := by
    refine ⟨fun id sid => iff_of_false ?_ ?_, fun id sid h => ?_⟩
    · intro h
      cases h
    · rintro ⟨bx, hbx, -⟩
      cases hbx
    · cases h
  have hvalid : Valid [] [] := List.nodup_nil
  rw [Option.eq_none_iff_forall_ne_some]
  intro b hb
  obtain ⟨hbx, -⟩ := (tracked_of_run (s := initialBundles) hvalid
    (fun bx hbx => absurd hbx List.not_mem_nil) hknows hholds rfl (hfirst.append hsecond) rfl
    _ b).mp hb
  rw [spentBundles, unspent_redeemTx] at hbx
  cases hbx

end SpectrumOffchain.EventSink
