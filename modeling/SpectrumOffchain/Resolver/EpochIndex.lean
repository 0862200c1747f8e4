import SpectrumOffchain.Execution.Prediction
import SpectrumOffchain.Lib.Transition
import SpectrumOffchain.Resolver.BundleRepo

/-!
# The epoch index of the bundles

The scheduler asks the repository which bundles of a pool are to be compounded in an
epoch, and takes an empty answer for the end of the epoch.  The answer comes from an index
that the operations maintain by hand: writing a confirmed state deletes the entry of the
epoch before, eliminating a bundle deletes the entry of the state that is eliminated, and
the other two operations delete none.

So entries are left behind when a bundle is compounded for more than one epoch, when it is
rolled back, when its predictions fall out of use, and for the very first epoch the entry
is deleted right after it was written.  Each operation keeps the index in line with the
states exactly if it `Clears` what it makes obsolete (`index_matches_iff_clears`).

## Strategy

* An index entry is right if it is that of the last confirmed or last predicted state of its
  bundle (`Backs`), and every confirmed state has its entry.  This is what `IndexMatches`
  comes to for a repository in which a box belongs to one bundle
  (`WellFormed.indexMatches_iff`).
* A call is about one bundle.  The states and entries of the others stay as they are
  (`confirmedState_step`, `predictedState_step`, `mem_epochIndex_step`), so that only the
  entries of this bundle are in question (`indexMatches_step_iff`).  `invalidate` knows no
  bundle: it deletes a state, so the entries of all bundles are looked at.
* For each of the four calls the entries in question are then compared with the states after
  the call, which is the equivalence with `Clears`.
-/

namespace SpectrumOffchain.Resolver

open Transition

namespace BundleRepo

/-- The bundles of the pool that have an entry for the epoch. -/
def select (repo : BundleRepo) (poolId : PoolId) (epochIx : ℕ) : List BundleId :=
  (repo.epochIndex.keys.filter fun key => key.poolId = poolId ∧ key.initEpochIx = epochIx).map
    EpochIndexKey.bundleId

theorem mem_select {repo : BundleRepo} {poolId : PoolId} {epochIx : ℕ} {id : BundleId} :
    id ∈ repo.select poolId epochIx ↔ ⟨poolId, epochIx, id⟩ ∈ repo.epochIndex.keys := by
  rw [select, List.mem_map]
  constructor
  · rintro ⟨key, hkey, rfl⟩
    obtain ⟨hmem, heq⟩ := List.mem_filter.mp hkey
    obtain ⟨rfl, rfl⟩ := of_decide_eq_true heq
    exact hmem
  · intro h
    exact ⟨_, List.mem_filter.mpr ⟨h, decide_eq_true ⟨rfl, rfl⟩⟩, rfl⟩

/-- What `get_last_confirmed` retrieves. -/
def confirmedState (repo : BundleRepo) (id : BundleId) : Option (AsBox IndexedStakingBundle) :=
  (repo.lastConfirmed.get id).bind repo.state.get

/-- What `get_last_predicted` retrieves. -/
def predictedState (repo : BundleRepo) (id : BundleId) : Option (AsBox IndexedStakingBundle) :=
  (repo.lastPredicted.get id).bind repo.state.get

theorem getLastConfirmed_eq (repo : BundleRepo) (id : BundleId) :
    repo.getLastConfirmed id = (repo.confirmedState id).map (AsBox.map IndexedBundle.bundle) := rfl

/-- A bundle is selected only for the epoch of its last confirmed or predicted state, and it is
selected for that of its last confirmed state. -/
structure IndexMatches (repo : BundleRepo) : Prop where
  selected : ∀ poolId epochIx id, id ∈ repo.select poolId epochIx →
    ∃ st, (repo.confirmedState id = some st ∨ repo.predictedState id = some st) ∧
      st.value.bundle.poolId = poolId ∧ st.value.lowerEpochIx = epochIx
  indexed : ∀ id st, repo.confirmedState id = some st →
    id ∈ repo.select st.value.bundle.poolId st.value.lowerEpochIx

end BundleRepo

/-- The entry of a state in the index. -/
def indexEntry (st : AsBox IndexedStakingBundle) : EpochIndexKey :=
  epochIndexKey st.value st.value.lowerEpochIx

/-! ## Runs -/

inductive BundleCall where
  | putConfirmed (bundleState : AsBox IndexedStakingBundle)
  | putPredicted (traced : Traced (AsBox IndexedStakingBundle))
  | invalidate (stateId : BundleStateId)
  | eliminate (bundleSt : IndexedStakingBundle)

namespace BundleCall

def exec (repo : BundleRepo) : BundleCall → BundleRepo
  | putConfirmed bundleState => repo.putConfirmed bundleState
  | putPredicted traced => repo.putPredicted traced
  | invalidate stateId => repo.invalidate stateId
  | eliminate bundleSt => repo.eliminate bundleSt

/-- The state that the call stores. -/
def stored : BundleCall → Option (AsBox IndexedStakingBundle)
  | putConfirmed bundleState => some bundleState
  | putPredicted traced => some traced.state
  | invalidate _ => none
  | eliminate _ => none

/-- The bundle that the call is about. -/
def subject (boxes : BundleStateId → BundleId) : BundleCall → BundleId
  | putConfirmed bundleState => getSelfRef bundleState
  | putPredicted traced => getSelfRef traced.state
  | invalidate stateId => boxes stateId
  | eliminate bundleSt => getSelfRef bundleSt

/-- What a call asks for: the index entries that the bundle has are those of the states it has
afterwards, or they are deleted. -/
def Clears (repo : BundleRepo) : BundleCall → Prop
  | putConfirmed bundleState =>
      1 ≤ bundleState.value.lowerEpochIx ∧
        ∀ key ∈ repo.epochIndex.keys, key.bundleId = getSelfRef bundleState →
          key = indexEntry bundleState ∨
          key = epochIndexKey bundleState.value (bundleState.value.lowerEpochIx - 1) ∨
          ∃ st, repo.predictedState (getSelfRef bundleState) = some st ∧
            repo.lastPredicted.get (getSelfRef bundleState) ≠ some (getSelfStateRef bundleState) ∧
            indexEntry st = key
  | putPredicted traced =>
      ∀ key ∈ repo.epochIndex.keys, key.bundleId = getSelfRef traced.state →
        key = indexEntry traced.state ∨
        ∃ st, repo.confirmedState (getSelfRef traced.state) = some st ∧
          repo.lastConfirmed.get (getSelfRef traced.state) ≠ some (getSelfStateRef traced.state) ∧
          indexEntry st = key
  | invalidate stateId =>
      ∀ key ∈ repo.epochIndex.keys, ∃ st,
        (repo.confirmedState key.bundleId = some st ∧
            repo.lastConfirmed.get key.bundleId ≠ some stateId ∨
          repo.predictedState key.bundleId = some st ∧
            repo.lastPredicted.get key.bundleId ≠ some stateId) ∧
        indexEntry st = key
  | eliminate bundleSt =>
      ∀ key ∈ repo.epochIndex.keys, key.bundleId = getSelfRef bundleSt →
        key = epochIndexKey bundleSt bundleSt.lowerEpochIx

end BundleCall

namespace BundleRepo

section Boxes

-- the bundle that a box is of
variable (boxes : BundleStateId → BundleId)

/-- Calls with states that are read off boxes. -/
def Step (repo : BundleRepo) (call : BundleCall) (repo' : BundleRepo) : Prop :=
  (∀ st, call.stored = some st → boxes (getSelfStateRef st) = getSelfRef st) ∧
    repo' = call.exec repo

/-- What is stored about a box is about the bundle it is of. -/
structure WellFormed (repo : BundleRepo) : Prop where
  state : ∀ sid st, repo.state.get sid = some st → boxes sid = getSelfRef st
  lastConfirmed : ∀ id sid, repo.lastConfirmed.get id = some sid → boxes sid = id
  lastPredicted : ∀ id sid, repo.lastPredicted.get id = some sid → boxes sid = id

variable {boxes} {repo repo' : BundleRepo} {call : BundleCall} {id : BundleId}

theorem wellFormed_step (h : repo.WellFormed boxes) (hstep : Step boxes repo call repo') :
    repo'.WellFormed boxes := by
  obtain ⟨hboxes, rfl⟩ := hstep
  cases call with
  | putConfirmed st =>
      have hst := hboxes st rfl
      refine ⟨?_, ?_, h.lastPredicted⟩
      · exact Store.forall_get_put hst h.state
      · exact Store.forall_get_put hst h.lastConfirmed
  | putPredicted traced =>
      have hst := hboxes traced.state rfl
      refine ⟨?_, h.lastConfirmed, ?_⟩
      · exact Store.forall_get_put hst h.state
      · exact Store.forall_get_put hst h.lastPredicted
  | invalidate sid =>
      refine ⟨?_, h.lastConfirmed, h.lastPredicted⟩
      exact Store.forall_get_delete h.state
  | eliminate st =>
      refine ⟨h.state, ?_, ?_⟩
      · exact Store.forall_get_delete h.lastConfirmed
      · exact Store.forall_get_delete h.lastPredicted

theorem WellFormed.selfRef_of_confirmed (h : repo.WellFormed boxes)
    {st : AsBox IndexedStakingBundle} (hst : repo.confirmedState id = some st) :
    getSelfRef st = id := by
  obtain ⟨sid, hsid, hget⟩ := Option.bind_eq_some_iff.mp hst
  rw [← h.state sid st hget, h.lastConfirmed id sid hsid]

theorem WellFormed.selfRef_of_predicted (h : repo.WellFormed boxes)
    {st : AsBox IndexedStakingBundle} (hst : repo.predictedState id = some st) :
    getSelfRef st = id := by
  obtain ⟨sid, hsid, hget⟩ := Option.bind_eq_some_iff.mp hst
  rw [← h.state sid st hget, h.lastPredicted id sid hsid]

/-- The entry is that of a state the bundle has. -/
def Backs (repo : BundleRepo) (key : EpochIndexKey) : Prop :=
  ∃ st, (repo.confirmedState key.bundleId = some st ∨
    repo.predictedState key.bundleId = some st) ∧ indexEntry st = key

theorem WellFormed.indexMatches_iff (h : repo.WellFormed boxes) :
    repo.IndexMatches ↔ (∀ key ∈ repo.epochIndex.keys, repo.Backs key) ∧
      ∀ id st, repo.confirmedState id = some st → indexEntry st ∈ repo.epochIndex.keys := by
  have hentry : ∀ id st, repo.confirmedState id = some st →
      (id ∈ repo.select st.value.bundle.poolId st.value.lowerEpochIx ↔
        indexEntry st ∈ repo.epochIndex.keys) := by
    intro id st hst
    rw [mem_select, indexEntry, epochIndexKey]
    have href : getSelfRef st.value = id := h.selfRef_of_confirmed hst
    rw [href]
  constructor
  · rintro ⟨hselected, hindexed⟩
    refine ⟨?_, fun id st hst => (hentry id st hst).mp (hindexed id st hst)⟩
    rintro ⟨poolId, epochIx, id⟩ hkey
    obtain ⟨st, hst, rfl, rfl⟩ := hselected poolId epochIx id (mem_select.mpr hkey)
    have href : getSelfRef st.value = id :=
      hst.elim h.selfRef_of_confirmed h.selfRef_of_predicted
    refine ⟨st, hst, ?_⟩
    rw [indexEntry, epochIndexKey, href]
  · rintro ⟨hbacks, hindexed⟩
    refine ⟨?_, fun id st hst => (hentry id st hst).mpr (hindexed id st hst)⟩
    intro poolId epochIx id hselect
    obtain ⟨st, hst, heq⟩ := hbacks _ (mem_select.mp hselect)
    exact ⟨st, hst, congrArg EpochIndexKey.poolId heq, congrArg EpochIndexKey.initEpochIx heq⟩

/-! ## Other bundles -/

/-- A call leaves the states of other bundles alone. -/
theorem get_state_step (hstep : Step boxes repo call repo') {sid : BundleStateId}
    (hne : boxes sid ≠ call.subject boxes) : repo'.state.get sid = repo.state.get sid := by
  obtain ⟨hboxes, rfl⟩ := hstep
  cases call with
  | putConfirmed st =>
      refine Store.get_put_of_ne ?_
      rintro rfl
      exact hne (hboxes st rfl)
  | putPredicted traced =>
      refine Store.get_put_of_ne ?_
      rintro rfl
      exact hne (hboxes traced.state rfl)
  | invalidate stateId =>
      refine Store.get_delete_of_ne ?_
      rintro rfl
      exact hne rfl
  | eliminate st => rfl

theorem confirmedState_step (h : repo.WellFormed boxes) (hstep : Step boxes repo call repo')
    (hne : id ≠ call.subject boxes) : repo'.confirmedState id = repo.confirmedState id := by
  have hpointer : repo'.lastConfirmed.get id = repo.lastConfirmed.get id := by
    obtain ⟨-, rfl⟩ := hstep
    cases call with
    | putConfirmed st => exact Store.get_put_of_ne hne
    | putPredicted traced => rfl
    | invalidate stateId => rfl
    | eliminate st => exact Store.get_delete_of_ne hne
  rw [confirmedState, confirmedState, hpointer]
  cases hsid : repo.lastConfirmed.get id with
  | none => rfl
  | some sid =>
      refine get_state_step hstep ?_
      rw [h.lastConfirmed id sid hsid]
      exact hne

theorem predictedState_step (h : repo.WellFormed boxes) (hstep : Step boxes repo call repo')
    (hne : id ≠ call.subject boxes) : repo'.predictedState id = repo.predictedState id := by
  have hpointer : repo'.lastPredicted.get id = repo.lastPredicted.get id := by
    obtain ⟨-, rfl⟩ := hstep
    cases call with
    | putConfirmed st => rfl
    | putPredicted traced => exact Store.get_put_of_ne hne
    | invalidate stateId => rfl
    | eliminate st => exact Store.get_delete_of_ne hne
  rw [predictedState, predictedState, hpointer]
  cases hsid : repo.lastPredicted.get id with
  | none => rfl
  | some sid =>
      refine get_state_step hstep ?_
      rw [h.lastPredicted id sid hsid]
      exact hne

theorem mem_epochIndex_step (hstep : Step boxes repo call repo') {key : EpochIndexKey}
    (hne : key.bundleId ≠ call.subject boxes) :
    key ∈ repo'.epochIndex.keys ↔ key ∈ repo.epochIndex.keys := by
  obtain ⟨-, rfl⟩ := hstep
  have hother : ∀ (st : IndexedStakingBundle) (epochIx : ℕ),
      getSelfRef st = call.subject boxes → key ≠ epochIndexKey st epochIx := by
    rintro st epochIx heq rfl
    exact hne heq
  cases call with
  | putConfirmed st =>
      exact Table.mem_keys_remove.trans ((and_iff_left (hother _ _ rfl)).trans
        (Table.mem_keys_put.trans (or_iff_right (hother _ _ rfl))))
  | putPredicted traced => exact Table.mem_keys_put.trans (or_iff_right (hother _ _ rfl))
  | invalidate stateId => rfl
  | eliminate st => exact Table.mem_keys_remove.trans (and_iff_left (hother _ _ rfl))

/-- Whether the index stays in line depends on the bundle that the call is about. -/
theorem indexMatches_step_iff (h : repo.WellFormed boxes) (hmatches : repo.IndexMatches)
    (hstep : Step boxes repo call repo') :
    repo'.IndexMatches ↔
      (∀ key ∈ repo'.epochIndex.keys, key.bundleId = call.subject boxes → repo'.Backs key) ∧
        ∀ st, repo'.confirmedState (call.subject boxes) = some st →
          indexEntry st ∈ repo'.epochIndex.keys := by
  have h' := wellFormed_step h hstep
  obtain ⟨hbacks, hindexed⟩ := h.indexMatches_iff.mp hmatches
  rw [h'.indexMatches_iff]
  constructor
  · exact fun ⟨hbacks', hindexed'⟩ => ⟨fun key hkey _ => hbacks' key hkey, hindexed' _⟩
  · rintro ⟨hbacks', hindexed'⟩
    constructor
    · intro key hkey
      by_cases hid : key.bundleId = call.subject boxes
      · exact hbacks' key hkey hid
      · unfold Backs
        rw [confirmedState_step h hstep hid, predictedState_step h hstep hid]
        exact hbacks key ((mem_epochIndex_step hstep hid).mp hkey)
    · intro id st hst
      by_cases hid : id = call.subject boxes
      · subst hid
        exact hindexed' st hst
      · have hentry : (indexEntry st).bundleId ≠ call.subject boxes := by
          rw [← h'.selfRef_of_confirmed hst] at hid
          exact hid
        rw [mem_epochIndex_step hstep hentry]
        rw [confirmedState_step h hstep hid] at hst
        exact hindexed id st hst

/-! ## What each call has to clear -/

section Calls

variable (h : repo.WellFormed boxes) (hmatches : repo.IndexMatches)

include h hmatches

theorem indexMatches_putConfirmed {st : AsBox IndexedStakingBundle}
    (hst : boxes (getSelfStateRef st) = getSelfRef st) :
    (repo.putConfirmed st).IndexMatches ↔ BundleCall.Clears repo (.putConfirmed st) := by
  have hstep : Step boxes repo (.putConfirmed st) (repo.putConfirmed st) :=
    ⟨fun _ heq => Option.some.inj heq ▸ hst, rfl⟩
  have hkeys : ∀ key, key ∈ (repo.putConfirmed st).epochIndex.keys ↔
      (key = indexEntry st ∨ key ∈ repo.epochIndex.keys) ∧
        key ≠ epochIndexKey st.value (st.value.lowerEpochIx - 1) :=
    fun key => Table.mem_keys_remove.trans (and_congr_left fun _ => Table.mem_keys_put)
  have hconfirmed : (repo.putConfirmed st).confirmedState (getSelfRef st) = some st := by
    refine Option.bind_eq_some_iff.mpr ⟨getSelfStateRef st, ?_, ?_⟩
    · exact Store.get_put_self
    · exact Store.get_put_self
  have hpredicted : ∀ st', (repo.putConfirmed st).predictedState (getSelfRef st) = some st' ↔ _ :=
    fun st' => Store.bind_get_put
  -- the bundle is backed by the confirmed state and, if that is another one, by the last predicted
  have hbacks : ∀ key : EpochIndexKey, key.bundleId = getSelfRef st →
      ((repo.putConfirmed st).Backs key ↔ key = indexEntry st ∨
        ∃ st', repo.predictedState (getSelfRef st) = some st' ∧
          repo.lastPredicted.get (getSelfRef st) ≠ some (getSelfStateRef st) ∧
          indexEntry st' = key) := by
    intro key hid
    unfold Backs
    rw [hid]
    constructor
    · rintro ⟨st', hst' | hst', rfl⟩
      · rw [hconfirmed] at hst'
        exact .inl (congrArg indexEntry (Option.some.inj hst').symm)
      · rcases (hpredicted st').mp hst' with ⟨-, rfl⟩ | ⟨hne, hst'⟩
        · exact .inl rfl
        · exact .inr ⟨st', hst', hne, rfl⟩
    · rintro (rfl | ⟨st', hst', hne, rfl⟩)
      · exact ⟨st, .inl hconfirmed, rfl⟩
      · exact ⟨st', .inr ((hpredicted st').mpr (.inr ⟨hne, hst'⟩)), rfl⟩
  -- only the keys of this bundle can go wrong
  rw [indexMatches_step_iff h hmatches hstep]
  constructor
  · rintro ⟨hback, hindexed⟩
    constructor
    · -- the entry is not the one that is deleted
      have hentry := ((hkeys _).mp (hindexed st hconfirmed)).2
      by_contra hzero
      refine hentry ?_
      rw [indexEntry, Nat.lt_one_iff.mp (Nat.lt_of_not_le hzero)]
    · intro key hkey hid
      by_cases hprev : key = epochIndexKey st.value (st.value.lowerEpochIx - 1)
      · exact .inr (.inl hprev)
      · have hmem := (hkeys key).mpr ⟨.inr hkey, hprev⟩
        rcases (hbacks key hid).mp (hback key hmem hid) with heq | hst'
        · exact .inl heq
        · exact .inr (.inr hst')
  · rintro ⟨hpos, hclears⟩
    constructor
    · intro key hkey hid
      obtain ⟨hkey, hprev⟩ := (hkeys key).mp hkey
      refine (hbacks key hid).mpr ?_
      rcases hkey with heq | hkey
      · exact .inl heq
      · rcases hclears key hkey hid with heq | heq | hst'
        · exact .inl heq
        · exact absurd heq hprev
        · exact .inr hst'
    · intro st' hst'
      cases hconfirmed.symm.trans hst'
      refine (hkeys _).mpr ⟨.inl rfl, fun heq => ?_⟩
      have hepoch : st.value.lowerEpochIx = st.value.lowerEpochIx - 1 :=
        congrArg EpochIndexKey.initEpochIx heq
      omega

theorem indexMatches_putPredicted {traced : Traced (AsBox IndexedStakingBundle)}
    (hst : boxes (getSelfStateRef traced.state) = getSelfRef traced.state) :
    (repo.putPredicted traced).IndexMatches ↔
      BundleCall.Clears repo (.putPredicted traced) := by
  have hstep : Step boxes repo (.putPredicted traced) (repo.putPredicted traced) :=
    ⟨fun _ heq => Option.some.inj heq ▸ hst, rfl⟩
  have hkeys : ∀ key, key ∈ (repo.putPredicted traced).epochIndex.keys ↔
      key = indexEntry traced.state ∨ key ∈ repo.epochIndex.keys := fun key => Table.mem_keys_put
  have hpredicted : (repo.putPredicted traced).predictedState (getSelfRef traced.state) =
      some traced.state := by
    refine Option.bind_eq_some_iff.mpr ⟨getSelfStateRef traced.state, ?_, ?_⟩
    · exact Store.get_put_self
    · exact Store.get_put_self
  have hconfirmed : ∀ st, (repo.putPredicted traced).confirmedState (getSelfRef traced.state) =
      some st ↔ _ := fun st => Store.bind_get_put
  -- the predicted state replaces the one before it; the confirmed one stays if it is another
  have hbacks : ∀ key : EpochIndexKey, key.bundleId = getSelfRef traced.state →
      ((repo.putPredicted traced).Backs key ↔ key = indexEntry traced.state ∨
        ∃ st, repo.confirmedState (getSelfRef traced.state) = some st ∧
          repo.lastConfirmed.get (getSelfRef traced.state) ≠
            some (getSelfStateRef traced.state) ∧
          indexEntry st = key) := by
    intro key hid
    unfold Backs
    rw [hid]
    constructor
    · rintro ⟨st, hst | hst, rfl⟩
      · rcases (hconfirmed st).mp hst with ⟨-, rfl⟩ | ⟨hne, hst⟩
        · exact .inl rfl
        · exact .inr ⟨st, hst, hne, rfl⟩
      · rw [hpredicted] at hst
        exact .inl (congrArg indexEntry (Option.some.inj hst).symm)
    · rintro (rfl | ⟨st, hst, hne, rfl⟩)
      · exact ⟨traced.state, .inr hpredicted, rfl⟩
      · exact ⟨st, .inl ((hconfirmed st).mpr (.inr ⟨hne, hst⟩)), rfl⟩
  rw [indexMatches_step_iff h hmatches hstep]
  constructor
  · rintro ⟨hback, -⟩ key hkey hid
    exact (hbacks key hid).mp (hback key ((hkeys key).mpr (.inr hkey)) hid)
  · intro hclears
    constructor
    · intro key hkey hid
      refine (hbacks key hid).mpr ?_
      rcases (hkeys key).mp hkey with heq | hkey
      · exact .inl heq
      · exact hclears key hkey hid
    · intro st hst
      refine (hkeys _).mpr ?_
      rcases (hconfirmed st).mp hst with ⟨-, rfl⟩ | ⟨-, hst⟩
      · exact .inl rfl
      · exact .inr ((h.indexMatches_iff.mp hmatches).2 _ st hst)

theorem indexMatches_invalidate (sid : BundleStateId) :
    (repo.invalidate sid).IndexMatches ↔ BundleCall.Clears repo (.invalidate sid) := by
  have hstep : Step boxes repo (.invalidate sid) (repo.invalidate sid) :=
    ⟨fun _ heq => (by cases heq), rfl⟩
  have hconfirmed : ∀ id st, (repo.invalidate sid).confirmedState id = some st ↔
      repo.lastConfirmed.get id ≠ some sid ∧ repo.confirmedState id = some st :=
    fun id st => Store.bind_get_delete
  have hpredicted : ∀ id st, (repo.invalidate sid).predictedState id = some st ↔
      repo.lastPredicted.get id ≠ some sid ∧ repo.predictedState id = some st :=
    fun id st => Store.bind_get_delete
  rw [(wellFormed_step h hstep).indexMatches_iff]
  unfold Backs
  simp only [hconfirmed, hpredicted]
  constructor
  · rintro ⟨hback, -⟩ key hkey
    obtain ⟨st, hst, heq⟩ := hback key hkey
    exact ⟨st, hst.imp And.symm And.symm, heq⟩
  · intro hclears
    constructor
    · intro key hkey
      obtain ⟨st, hst, heq⟩ := hclears key hkey
      exact ⟨st, hst.imp And.symm And.symm, heq⟩
    · intro id st hst
      exact (h.indexMatches_iff.mp hmatches).2 id st hst.2

theorem indexMatches_eliminate (st : IndexedStakingBundle) :
    (repo.eliminate st).IndexMatches ↔ BundleCall.Clears repo (.eliminate st) := by
  have hstep : Step boxes repo (.eliminate st) (repo.eliminate st) :=
    ⟨fun _ heq => (by cases heq), rfl⟩
  have hkeys : ∀ key, key ∈ (repo.eliminate st).epochIndex.keys ↔
      key ∈ repo.epochIndex.keys ∧ key ≠ epochIndexKey st st.lowerEpochIx :=
    fun key => Table.mem_keys_remove
  have hconfirmed : (repo.eliminate st).confirmedState (getSelfRef st) = none :=
    Option.bind_eq_none_iff.mpr fun sid hsid => by
      rw [eliminate, Store.get_delete_self] at hsid
      cases hsid
  have hpredicted : (repo.eliminate st).predictedState (getSelfRef st) = none :=
    Option.bind_eq_none_iff.mpr fun sid hsid => by
      rw [eliminate, Store.get_delete_self] at hsid
      cases hsid
  rw [indexMatches_step_iff h hmatches hstep]
  constructor
  · rintro ⟨hback, -⟩ key hkey hid
    by_contra hne
    obtain ⟨st', hst', -⟩ := hback key ((hkeys key).mpr ⟨hkey, hne⟩) hid
    rw [hid, hconfirmed, hpredicted] at hst'
    simp at hst'
  · intro hclears
    constructor
    · intro key hkey hid
      obtain ⟨hkey, hne⟩ := (hkeys key).mp hkey
      exact absurd (hclears key hkey hid) hne
    · intro st' hst'
      cases hconfirmed.symm.trans hst'

theorem indexMatches_step {call : BundleCall} (hstep : Step boxes repo call repo') :
    repo'.IndexMatches ↔ call.Clears repo := by
  obtain ⟨hboxes, rfl⟩ := hstep
  cases call with
  | putConfirmed st => exact indexMatches_putConfirmed h hmatches (hboxes st rfl)
  | putPredicted traced => exact indexMatches_putPredicted h hmatches (hboxes traced.state rfl)
  | invalidate sid => exact indexMatches_invalidate h hmatches sid
  | eliminate st => exact indexMatches_eliminate h hmatches st

end Calls

/-- The index is in line with the states in all of a run exactly if every call clears what it makes
obsolete. -/
theorem index_matches_iff_clears {labels : List BundleCall} (h : repo.WellFormed boxes)
    (hmatches : repo.IndexMatches) :
    Run (into (Step boxes) IndexMatches) repo labels repo' ↔
      Run (restrict (Step boxes) BundleCall.Clears) repo labels repo' :=
  Run.into_iff_restrict_of_invariant (fun _ _ _ => wellFormed_step)
    (fun _ _ _ h hmatches => indexMatches_step h hmatches) h hmatches

end Boxes

end BundleRepo

/-! ## A bundle that is compounded -/

namespace EpochIndex.Sample

open Staking.Sample SpectrumOffchain.Sample

/-- The bundle in the box `ix`, to be compounded from the epoch `lowerEpochIx` on. -/
def staked (ix : UInt8) (lowerEpochIx : ℕ) : AsBox IndexedStakingBundle :=
  ⟨{ bundleBox with boxId := digest ix },
    { bundle := { Staking.Sample.bundle with stateId := ⟨digest ix⟩ }, lowerEpochIx }⟩

def boxes : BundleStateId → BundleId := fun _ => Staking.Sample.bundle.bundleId

def created : BundleRepo := BundleRepo.putConfirmed .empty (staked 40 1)

/-- One epoch was compounded. -/
def compounded : BundleRepo := created.putConfirmed (staked 41 2)

/-- Two epochs were compounded at once. -/
def skipped : BundleRepo := created.putConfirmed (staked 41 3)

theorem keys_created : created.epochIndex.keys = [indexEntry (staked 40 1)] := rfl

theorem wellFormed_empty : BundleRepo.WellFormed boxes .empty := by
  refine ⟨?_, ?_, ?_⟩
  · intro sid st h
    cases h
  · intro id sid h
    cases h
  · intro id sid h
    cases h

theorem indexMatches_empty : BundleRepo.IndexMatches .empty := by
  refine ⟨?_, ?_⟩
  · intro poolId epochIx id h
    cases h
  · intro id st h
    cases h

theorem step_putConfirmed (repo : BundleRepo) (ix : UInt8) (lowerEpochIx : ℕ) :
    BundleRepo.Step boxes repo (.putConfirmed (staked ix lowerEpochIx))
      (repo.putConfirmed (staked ix lowerEpochIx)) := by
  refine ⟨?_, rfl⟩
  intro st h
  cases h
  rfl

theorem clears_created : BundleCall.Clears .empty (.putConfirmed (staked 40 1)) :=
  ⟨le_rfl, fun _ h => absurd h List.not_mem_nil⟩

theorem clears_compounded : BundleCall.Clears created (.putConfirmed (staked 41 2)) := by
  refine ⟨by decide, ?_⟩
  intro key hkey _
  rw [keys_created, List.mem_singleton] at hkey
  subst hkey
  exact .inr (.inl rfl)

end EpochIndex.Sample

open EpochIndex.Sample SpectrumOffchain.Sample BundleRepo in
theorem index_matches_iff_clears_sample :
    Run (into (Step boxes) IndexMatches) .empty
      [.putConfirmed (staked 40 1), .putConfirmed (staked 41 2)] compounded := by
  refine (index_matches_iff_clears wellFormed_empty indexMatches_empty).mpr ?_
  refine .cons ⟨step_putConfirmed _ 40 1, clears_created⟩ ?_
  exact .single ⟨step_putConfirmed _ 41 2, clears_compounded⟩

open EpochIndex.Sample SpectrumOffchain.Sample BundleRepo in
/-- A bundle that is compounded for two epochs at once is still selected for the first of them. -/
theorem epoch_left_behind :
    Run (Step boxes) .empty [.putConfirmed (staked 40 1), .putConfirmed (staked 41 3)] skipped ∧
      ¬ skipped.IndexMatches := by
  refine ⟨.cons (step_putConfirmed _ 40 1) (.single (step_putConfirmed _ 41 3)), ?_⟩
  intro hmatches
  have hselected : Staking.Sample.bundle.bundleId ∈
      skipped.select Staking.Sample.bundle.poolId 1 := by
    have hkeys : skipped.epochIndex.keys =
        [indexEntry (staked 41 3), indexEntry (staked 40 1)] := rfl
    rw [mem_select, hkeys]
    exact List.mem_cons_of_mem _ List.mem_cons_self
  obtain ⟨st, hst, -, hepoch⟩ := hmatches.selected _ _ _ hselected
  have hconfirmed : skipped.confirmedState Staking.Sample.bundle.bundleId = some (staked 41 3) :=
    rfl
  have hpredicted : skipped.predictedState Staking.Sample.bundle.bundleId = none := rfl
  rw [hconfirmed, hpredicted] at hst
  rcases hst with hst | hst
  · cases hst
    cases hepoch
  · cases hst

end SpectrumOffchain.Resolver
