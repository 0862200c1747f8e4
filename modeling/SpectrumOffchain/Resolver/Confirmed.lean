import SpectrumOffchain.Resolver.EntityRepo

/-!
# Which states count as confirmed

`get_last_confirmed` is to return states that `put_confirmed` stored for the entity, and
`invalidate` is to roll the entity back to a confirmed state.  But `invalidate` does not
ask what is confirmed: it makes the predecessor of the invalidated state the last confirmed
one, or deletes the index if there is no link.  The predecessor may be a prediction that
was never confirmed, and a confirmation that arrived in the meantime is forgotten.

`Careful` says when a call keeps the index of confirmed states faithful.

## Strategy

The states that `put_confirmed` stored are recorded next to the repository (`Witnessed`).
For each call that can break the faithfulness of the index there is an equivalence
(`faithful_store_iff`, `faithful_putConfirmed_iff`, `faithful_invalidate_iff`): an id may be
stored again with another state, or under another entity.  An invalidation is also asked to
leave the last confirmed state alone when it is about another one (`KeepsConfirmed`);
`careful_iff` takes the two demands together.
-/

namespace SpectrumOffchain.Resolver

open Transition

variable {TEntity TEntityId TStateId : Type} [OnChainEntity TEntity TEntityId TStateId]

/-- The repository, with the states that `put_confirmed` stored. -/
structure Witnessed (TEntity : Type) {TEntityId TStateId : Type}
    [OnChainEntity TEntity TEntityId TStateId] where
  repo : EntityRepo TEntity
  confirmed : List TEntity

namespace Witnessed

def init : Witnessed TEntity := ⟨.empty, []⟩

/-- The index of confirmed states names stored states that were confirmed for the entity. -/
def IndexFaithful (s : Witnessed TEntity) : Prop :=
  ∀ eid sid, s.repo.lastConfirmed.get eid = some sid →
    ∃ entity ∈ s.confirmed, s.repo.getState sid = some entity ∧ getSelfRef entity = eid

/-- Every state is stored under its own id. -/
def StoredById (s : Witnessed TEntity) : Prop :=
  ∀ sid entity, s.repo.getState sid = some entity → getSelfStateRef entity = sid

/-- Under the id of a last confirmed state only this state is stored. -/
def Keeps (s : Witnessed TEntity) (entity : TEntity) : Prop :=
  ∀ eid, s.repo.lastConfirmed.get eid = some (getSelfStateRef entity) →
    entity ∈ s.confirmed ∧ getSelfRef entity = eid

/-- A state is invalidated only if its predecessor is what is to count as confirmed: a state
that was confirmed for the entity if the invalidated one is the last confirmed, and the last
confirmed state itself otherwise. -/
def RollsBack (s : Witnessed TEntity) (sid : TStateId) (eid : TEntityId) : Prop :=
  (s.repo.lastConfirmed.get eid = some sid →
    ∀ predecessor, s.repo.getPredictionPredecessor sid = some predecessor →
      ∃ entity ∈ s.confirmed, s.repo.getState predecessor = some entity ∧
        getSelfRef entity = eid) ∧
  (s.repo.lastConfirmed.get eid ≠ some sid →
    s.repo.getPredictionPredecessor sid = s.repo.lastConfirmed.get eid)

def Careful (s : Witnessed TEntity) : RepoCall TEntity → Prop
  | .putPredicted traced => s.Keeps traced.state
  | .putConfirmed entity => ∀ eid,
      s.repo.lastConfirmed.get eid = some (getSelfStateRef entity) → eid = getSelfRef entity
  | .putUnconfirmed entity => s.Keeps entity
  | .invalidate sid eid => s.RollsBack sid eid
  | .eliminate _ => True

variable {s : Witnessed TEntity}

/-- The id of the last confirmed state is the one in the index. -/
theorem map_getLastConfirmed (hfaithful : s.IndexFaithful) (hstored : s.StoredById)
    (eid : TEntityId) :
    (s.repo.getLastConfirmed eid).map getSelfStateRef = s.repo.lastConfirmed.get eid := by
  rw [EntityRepo.getLastConfirmed_eq]
  cases hget : s.repo.lastConfirmed.get eid with
  | none => rfl
  | some sid =>
      obtain ⟨entity, -, hstate, -⟩ := hfaithful eid sid hget
      have hstate' : s.repo.state.get sid = some entity := hstate
      rw [Option.bind_some, hstate', Option.map_some, hstored sid entity hstate]

variable [DecidableEq TEntityId] [DecidableEq TStateId]

def after (s : Witnessed TEntity) (call : RepoCall TEntity) : Witnessed TEntity where
  repo := call.exec s.repo
  confirmed := match call with
    | .putConfirmed entity => entity :: s.confirmed
    | _ => s.confirmed

def Step (s : Witnessed TEntity) (call : RepoCall TEntity) (s' : Witnessed TEntity) : Prop :=
  s' = s.after call

/-- An invalidation of another state than the last confirmed one leaves that one in place. -/
def KeepsConfirmed (s : Witnessed TEntity) : RepoCall TEntity → Prop
  | .invalidate sid eid =>
      (s.repo.getLastConfirmed eid).map getSelfStateRef ≠ some sid →
        (s.repo.invalidate sid eid).getLastConfirmed eid = s.repo.getLastConfirmed eid
  | _ => True

theorem storedById_after (hstored : s.StoredById) (call : RepoCall TEntity) :
    (s.after call).StoredById := by
  show ∀ sid entity, (call.exec s.repo).state.get sid = some entity → _
  rw [call.state_exec]
  cases call.stored with
  | none => exact hstored
  | some entity => exact Store.forall_get_put rfl hstored

/-! ## The calls -/

omit [DecidableEq TEntityId] in
/-- What it takes to store a state without confirming it. -/
theorem faithful_store_iff (hfaithful : s.IndexFaithful) (entity : TEntity) :
    (∀ eid sid, s.repo.lastConfirmed.get eid = some sid →
      ∃ e ∈ s.confirmed, (s.repo.state.put (getSelfStateRef entity) entity).get sid = some e ∧
        getSelfRef e = eid) ↔ s.Keeps entity := by
  constructor
  · intro h eid hlast
    obtain ⟨e, hconfirmed, hget, hid⟩ := h eid _ hlast
    rw [Store.get_put_self] at hget
    cases hget
    exact ⟨hconfirmed, hid⟩
  · intro h eid sid hlast
    by_cases hsid : sid = getSelfStateRef entity
    · subst hsid
      obtain ⟨hconfirmed, hid⟩ := h eid hlast
      exact ⟨entity, hconfirmed, Store.get_put_self, hid⟩
    · obtain ⟨e, hconfirmed, hget, hid⟩ := hfaithful eid sid hlast
      exact ⟨e, hconfirmed, (Store.get_put_of_ne hsid).trans hget, hid⟩

theorem faithful_putConfirmed_iff (hfaithful : s.IndexFaithful) (entity : TEntity) :
    (s.after (.putConfirmed entity)).IndexFaithful ↔ s.Careful (.putConfirmed entity) := by
  constructor
  · intro h eid hlast
    by_contra hne
    obtain ⟨e, -, hget, hid⟩ := h eid (getSelfStateRef entity)
      ((Store.get_put_of_ne hne).trans hlast)
    have hput : (s.repo.state.put (getSelfStateRef entity) entity).get (getSelfStateRef entity) =
        some e := hget
    rw [Store.get_put_self] at hput
    cases hput
    exact hne hid.symm
  · intro h eid sid hlast
    rcases Store.get_put_eq_some.mp hlast with ⟨rfl, rfl⟩ | ⟨hne, hlast⟩
    · exact ⟨entity, List.mem_cons_self, Store.get_put_self, rfl⟩
    · have hsid : sid ≠ getSelfStateRef entity := by
        rintro rfl
        exact hne (h eid hlast)
      obtain ⟨e, hconfirmed, hget, hid⟩ := hfaithful eid sid hlast
      exact ⟨e, List.mem_cons_of_mem _ hconfirmed, (Store.get_put_of_ne hsid).trans hget, hid⟩

/-- The index after `invalidate` is faithful exactly if the predecessor was confirmed. -/
theorem faithful_invalidate_iff (hfaithful : s.IndexFaithful) (sid : TStateId) (eid : TEntityId) :
    (s.after (.invalidate sid eid)).IndexFaithful ↔
      ∀ predecessor, s.repo.getPredictionPredecessor sid = some predecessor →
        ∃ entity ∈ s.confirmed, s.repo.getState predecessor = some entity ∧
          getSelfRef entity = eid := by
  constructor
  · intro h predecessor hlink
    refine h eid predecessor ?_
    exact (EntityRepo.lastConfirmed_invalidate eid).trans ((if_pos rfl).trans hlink)
  · intro h eid' sid' hlast
    have hlast : (s.repo.invalidate sid eid).lastConfirmed.get eid' = some sid' := hlast
    rw [EntityRepo.lastConfirmed_invalidate] at hlast
    split at hlast
    · next heid => exact heid ▸ h sid' hlast
    · exact hfaithful eid' sid' hlast

theorem faithful_eliminate (hfaithful : s.IndexFaithful) (entity : TEntity) :
    (s.after (.eliminate entity)).IndexFaithful := by
  intro eid sid hlast
  exact hfaithful eid sid (Store.get_delete_eq_some.mp hlast).2

theorem careful_invalidate_iff (hfaithful : s.IndexFaithful) (hstored : s.StoredById)
    (sid : TStateId) (eid : TEntityId) :
    (s.after (.invalidate sid eid)).IndexFaithful ∧ s.KeepsConfirmed (.invalidate sid eid) ↔
      s.RollsBack sid eid := by
  have hkeeps : s.KeepsConfirmed (.invalidate sid eid) ↔
      (s.repo.lastConfirmed.get eid ≠ some sid →
        (s.repo.invalidate sid eid).getLastConfirmed eid = s.repo.getLastConfirmed eid) := by
    rw [← map_getLastConfirmed hfaithful hstored eid]
    rfl
  have hindex : (s.repo.invalidate sid eid).lastConfirmed.get eid =
      s.repo.getPredictionPredecessor sid :=
    (EntityRepo.lastConfirmed_invalidate eid).trans (if_pos rfl)
  unfold RollsBack
  by_cases hlast : s.repo.lastConfirmed.get eid = some sid
  · rw [faithful_invalidate_iff hfaithful, hkeeps, and_iff_left fun hne => absurd hlast hne,
      and_iff_left fun hne => absurd hlast hne]
    exact ⟨fun h _ => h, fun h => h hlast⟩
  · have hnot : (s.repo.lastConfirmed.get eid ≠ some sid →
        s.repo.getPredictionPredecessor sid = s.repo.lastConfirmed.get eid) ↔
        s.repo.getPredictionPredecessor sid = s.repo.lastConfirmed.get eid :=
      forall_prop_of_true hlast
    rw [hkeeps, and_iff_right fun h => absurd h hlast, hnot]
    constructor
    · rintro ⟨hfaithful', hsame⟩
      -- both states are stored, so that their ids are those in the indexes
      have hafter := map_getLastConfirmed hfaithful' (storedById_after hstored _) eid
      have hsame : (s.after (.invalidate sid eid)).repo.getLastConfirmed eid = _ := hsame hlast
      rw [hsame, map_getLastConfirmed hfaithful hstored eid] at hafter
      exact hindex.symm.trans hafter.symm
    · intro hsame
      refine ⟨(faithful_invalidate_iff hfaithful sid eid).mpr ?_, fun _ => ?_⟩
      · intro predecessor hlink
        exact hfaithful eid predecessor (hsame.symm.trans hlink)
      · rw [EntityRepo.getLastConfirmed_eq, EntityRepo.getLastConfirmed_eq, hindex, hsame]
        rfl

/-- A call keeps the index faithful, and the last confirmed state in place, exactly if it is
careful. -/
theorem careful_iff (hfaithful : s.IndexFaithful) (hstored : s.StoredById)
    (call : RepoCall TEntity) :
    (s.after call).IndexFaithful ∧ s.KeepsConfirmed call ↔ s.Careful call := by
  cases call with
  | putPredicted traced => exact (and_iff_left trivial).trans (faithful_store_iff hfaithful _)
  | putConfirmed entity => exact (and_iff_left trivial).trans (faithful_putConfirmed_iff hfaithful _)
  | putUnconfirmed entity => exact (and_iff_left trivial).trans (faithful_store_iff hfaithful _)
  | invalidate sid eid => exact careful_invalidate_iff hfaithful hstored sid eid
  | eliminate entity => exact iff_of_true ⟨faithful_eliminate hfaithful entity, trivial⟩ trivial

/-! ## Runs -/

theorem confirmed_subset {calls : List (RepoCall TEntity)} {s s' : Witnessed TEntity}
    (hrun : Run Step s calls s') :
    ∀ entity ∈ s'.confirmed, entity ∈ s.confirmed ∨ .putConfirmed entity ∈ calls := by
  induction hrun with
  | nil => exact fun entity hmem => Or.inl hmem
  | @cons s t u call rest hstep _ ih =>
      intro entity hmem
      rcases ih entity hmem with hmem | hmem
      · cases hstep
        cases call with
        | putConfirmed e =>
            rcases List.mem_cons.mp hmem with rfl | hmem
            · exact Or.inr List.mem_cons_self
            · exact Or.inl hmem
        | putPredicted traced => exact Or.inl hmem
        | putUnconfirmed e => exact Or.inl hmem
        | invalidate sid eid => exact Or.inl hmem
        | eliminate e => exact Or.inl hmem
      · exact Or.inr (List.mem_cons_of_mem _ hmem)

end Witnessed

variable [DecidableEq TEntityId] [DecidableEq TStateId]

/-- As long as all calls are careful, `get_last_confirmed` returns states that were
confirmed for the entity, and a call keeps it so, and keeps the last confirmed state unless
it invalidates it, exactly if it is careful. -/
theorem confirmed_of_run {calls : List (RepoCall TEntity)} {s : Witnessed TEntity}
    (hrun : Run (restrict Witnessed.Step Witnessed.Careful) Witnessed.init calls s) :
    (∀ eid entity, s.repo.getLastConfirmed eid = some entity →
      .putConfirmed entity ∈ calls ∧ getSelfRef entity = eid) ∧
    ∀ call, (s.after call).IndexFaithful ∧ s.KeepsConfirmed call ↔ s.Careful call := by
  have hinv : s.IndexFaithful ∧ s.StoredById := by
    refine Run.invariant
      (I := fun s : Witnessed TEntity => s.IndexFaithful ∧ s.StoredById) ?_ hrun ⟨?_, ?_⟩
    · rintro s call s' ⟨hfaithful, hstored⟩ ⟨rfl, hcareful⟩
      exact ⟨((Witnessed.careful_iff hfaithful hstored call).mpr hcareful).1,
        Witnessed.storedById_after hstored call⟩
    · intro eid sid hlast
      cases hlast
    · intro sid entity hget
      cases hget
  obtain ⟨hfaithful, hstored⟩ := hinv
  refine ⟨fun eid entity hlast => ?_, Witnessed.careful_iff hfaithful hstored⟩
  rw [EntityRepo.getLastConfirmed_eq, Option.bind_eq_some_iff] at hlast
  obtain ⟨sid, hindex, hget⟩ := hlast
  obtain ⟨e, hconfirmed, hstate, hid⟩ := hfaithful eid sid hindex
  cases hget.symm.trans hstate
  have hcalls := Witnessed.confirmed_subset (hrun.mono fun _ _ _ h => h.1) entity hconfirmed
  exact ⟨hcalls.resolve_left List.not_mem_nil, hid⟩

/-! ## Samples -/

open Sample

/-- State 1 is predicted from the confirmed state 0 and then invalidated. -/
theorem confirmed_of_run_sample :
    ∃ s : Witnessed (ℕ × ℕ), s.repo.getLastConfirmed 1 = some (1, 0) ∧
      ∀ call, (s.after call).IndexFaithful ∧ s.KeepsConfirmed call ↔ s.Careful call := by
  refine ⟨_, ?_, (@confirmed_of_run (ℕ × ℕ) ℕ ℕ _ _ _
    [.putConfirmed (1, 0), .putPredicted ⟨(1, 1), some 0⟩, .invalidate 1 1] _
    (Run.cons ⟨rfl, fun _ h => absurd h (Option.some_ne_none _).symm⟩
      (Run.cons ⟨rfl, ?_⟩ (Run.single ⟨rfl, ?_⟩)))).2⟩
  · rfl
  · intro eid hlast
    rcases Store.get_put_eq_some.mp hlast with ⟨-, hid⟩ | ⟨-, hlast⟩
    · exact absurd hid (by decide)
    · cases hlast
  · refine ⟨fun hlast => absurd hlast (by decide), fun _ => rfl⟩

/-- States 1 and 2 are predicted from the confirmed state 0, one from the other.  When state 2
is invalidated, state 1 takes the place of state 0 without having been confirmed. -/
theorem invalidate_confirms_prediction :
    ¬ ∀ (calls : List (RepoCall (ℕ × ℕ))) (s : Witnessed (ℕ × ℕ)),
      Run Witnessed.Step Witnessed.init calls s →
      (∀ eid entity, s.repo.getLastConfirmed eid = some entity →
        .putConfirmed entity ∈ calls ∧ getSelfRef entity = eid) ∧
      ∀ call, s.KeepsConfirmed call := by
  intro h
  obtain ⟨hfaithful, -⟩ := h [.putConfirmed (1, 0), .putPredicted ⟨(1, 1), some 0⟩,
    .putPredicted ⟨(1, 2), some 1⟩, .invalidate 2 1] _
    (Run.cons rfl (Run.cons rfl (Run.cons rfl (Run.single rfl))))
  obtain ⟨hcalls, -⟩ := hfaithful 1 (1, 1) rfl
  simp at hcalls

end SpectrumOffchain.Resolver
