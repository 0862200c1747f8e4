import SpectrumOffchain.Resolver.BundleRepo
import SpectrumOffchain.Resolver.Resolve

/-!
# Chained execution

The executor resolves an entity and records a prediction that is linked to the state it
resolved, while the ledger tracker confirms states.  `Lineage` is what this amounts to: a
forest of predictions, and for each entity the newest of them and the state that was
confirmed last.  The newest prediction is valid as long as the confirmed state is on its
`chain`.

`StateResolver` is what pools and bundles have in common here, two repositories and two resolving
functions that were written separately.  `Tracks` says that a repository and a lineage
belong together.  It is kept by every step (`Chained.invariant_of_run`), and a repository that
belongs to a lineage resolves every entity to the state the lineage says
(`resolve_of_tracks`).

## Strategy

* Lineages first, without any repository: `chain` follows the predictions down from the
  newest, and the lemmas say what a prediction and a confirmation do to it.
* `Tracks` relates the tables of a repository to a lineage.  `Core` is the part of a
  repository that it speaks of, which pools and bundles both have, so that
  `Tracks.confirm` and `Tracks.predict` are proved once.
* `LawfulResolver` is what has to be known of a resolving function: what it returns when
  nothing is confirmed, when nothing is predicted, and when there is a prediction, which is
  valid if its links lead to the confirmed state.  Both resolvers are shown to be lawful
  (`lawful_entityResolver`, `lawful_bundleResolver`), and later proofs use only the laws.
* `newest_valid_prediction` puts this together for runs in which predictions are made from
  resolved states and confirmations come at any time.
-/

namespace SpectrumOffchain.Resolver

open Transition Links

/-! ## Lineages -/

/-- Predictions with the states they were made from, and the newest prediction and the last
confirmed state of each entity. -/
structure Lineage (TEntityId TStateId : Type) where
  created : List (Entry TStateId)
  newest : Store TEntityId TStateId
  confirmed : Store TEntityId TStateId

namespace Lineage

section

variable {TEntityId TStateId : Type} [DecidableEq TStateId]

def init : Lineage TEntityId TStateId := ⟨[], .empty, .empty⟩

/-- The newest prediction, or the confirmed state if there is none, with all the states that it
was made from. -/
def chain (s : Lineage TEntityId TStateId) (eid : TEntityId) : List TStateId :=
  match (s.newest.get eid).or (s.confirmed.get eid) with
  | some sid => ancestry s.created sid
  | none => []

/-- The newest prediction if the confirmed state is on its chain, else the confirmed state. -/
def resolved (s : Lineage TEntityId TStateId) (eid : TEntityId) : Option TStateId :=
  (s.confirmed.get eid).map fun confirmed =>
    if confirmed ∈ s.chain eid then (s.newest.get eid).getD confirmed else confirmed

variable [DecidableEq TEntityId]

/-- A prediction is made from a state. -/
def predict (s : Lineage TEntityId TStateId) (eid : TEntityId) (sid prevSid : TStateId) :
    Lineage TEntityId TStateId :=
  { s with created := (sid, some prevSid) :: s.created, newest := s.newest.put eid sid }

def confirm (s : Lineage TEntityId TStateId) (eid : TEntityId) (sid : TStateId) :
    Lineage TEntityId TStateId :=
  { s with confirmed := s.confirmed.put eid sid }

variable {s : Lineage TEntityId TStateId} {eid eid' : TEntityId} {sid prevSid : TStateId}

omit [DecidableEq TEntityId] in
theorem head?_chain (h : s.confirmed.get eid = some sid) :
    (s.chain eid).head? = some ((s.newest.get eid).getD sid) := by
  unfold chain
  rw [h]
  cases s.newest.get eid with
  | none => exact head?_ancestry _ _
  | some newest => exact head?_ancestry _ _

/-- A prediction starts a chain on the state it was made from. -/
theorem chain_predict_self :
    (s.predict eid sid prevSid).chain eid = sid :: ancestry s.created prevSid := by
  unfold predict chain
  rw [Store.get_put_self, Option.some_or]
  exact if_pos rfl

theorem chain_predict_of_ne (heid : eid' ≠ eid)
    (hfresh : (s.newest.get eid').or (s.confirmed.get eid') ≠ some sid) :
    (s.predict eid sid prevSid).chain eid' = s.chain eid' := by
  unfold predict chain
  rw [Store.get_put_of_ne heid]
  cases hhead : (s.newest.get eid').or (s.confirmed.get eid') with
  | none => rfl
  | some head => exact if_neg fun heq => hfresh (hhead.trans (congrArg some heq))

theorem chain_confirm_of_ne (heid : eid' ≠ eid) : (s.confirm eid sid).chain eid' = s.chain eid' := by
  unfold confirm chain
  rw [Store.get_put_of_ne heid]

theorem chain_confirm_of_newest {newest : TStateId} (h : s.newest.get eid' = some newest) :
    (s.confirm eid sid).chain eid' = s.chain eid' := by
  unfold confirm chain
  rw [h, Option.some_or, Option.some_or]

omit [DecidableEq TEntityId] in
/-- What an entity is resolved to while the confirmed state is on its chain. -/
theorem chain_of_resolved (hvalid : ∀ c, s.confirmed.get eid = some c → c ∈ s.chain eid)
    (h : s.resolved eid = some sid) : s.chain eid = ancestry s.created sid := by
  obtain ⟨c, hconfirmed, hsid⟩ := Option.map_eq_some_iff.mp h
  rw [if_pos (hvalid c hconfirmed)] at hsid
  subst hsid
  unfold chain
  rw [hconfirmed]
  cases s.newest.get eid <;> rfl

end

end Lineage

/-! ## Resolvers -/

variable {TEntityId TStateId : Type}

/-- The part of a repository that resolving an entity rests on. -/
structure Core (TEntity : Type) {TEntityId TStateId : Type}
    [OnChainEntity TEntity TEntityId TStateId] where
  state : Store TStateId TEntity
  predictionLink : Store TStateId TStateId
  lastPredicted : Store TEntityId TStateId
  lastConfirmed : Store TEntityId TStateId

/-- A repository of states `TEntity`, with the function that resolves an entity to what is
seen of a state. -/
structure StateResolver (Repo TEntity Out : Type) {TEntityId TStateId : Type}
    [OnChainEntity TEntity TEntityId TStateId] [OnChainEntity Out TEntityId TStateId] where
  empty : Repo
  putConfirmed : Repo → TEntity → Repo
  putPredicted : Repo → Traced TEntity → Repo
  resolve : Repo → TEntityId → ℕ → Option (Option Out)
  view : TEntity → Out
  core : Repo → Core TEntity

/-- The pools of the executor, and other entities of an `EntityRepo`. -/
def entityResolver (TEntity : Type) [OnChainEntity TEntity TEntityId TStateId]
    [DecidableEq TEntityId] [DecidableEq TStateId] :
    StateResolver (EntityRepo TEntity) TEntity TEntity where
  empty := .empty
  putConfirmed := EntityRepo.putConfirmed
  putPredicted := EntityRepo.putPredicted
  resolve := resolveEntityState
  view := id
  core repo := ⟨repo.state, repo.predictionLink, repo.lastPredicted, repo.lastConfirmed⟩

/-- The staking bundles. -/
def bundleResolver :
    StateResolver BundleRepo (AsBox IndexedStakingBundle) (AsBox StakingBundle) where
  empty := .empty
  putConfirmed := BundleRepo.putConfirmed
  putPredicted := BundleRepo.putPredicted
  resolve := resolveBundleState
  view := AsBox.map IndexedBundle.bundle
  core repo := ⟨repo.state, repo.predictionLink, repo.lastPredicted, repo.lastConfirmed⟩

/-! ## Repositories and lineages -/

section Tracks

variable {TEntity : Type} [OnChainEntity TEntity TEntityId TStateId]

/-- Whether a state with the id has been put. -/
def Known (put : List TEntity) (sid : TStateId) : Prop := ∃ entity ∈ put, getSelfStateRef entity = sid

/-- The repository has recorded what the lineage says, by the states in `put`. -/
structure Tracks (core : Core TEntity) (put : List TEntity) (lineage : Lineage TEntityId TStateId) :
    Prop where
  ordered : Ordered lineage.created
  link_iff : ∀ a b, core.predictionLink.get a = some b ↔ (a, some b) ∈ lineage.created
  newest_eq : core.lastPredicted = lineage.newest
  confirmed_eq : core.lastConfirmed = lineage.confirmed
  stored : ∀ sid, Known put sid → ∃ entity ∈ put, core.state.get sid = some entity ∧
    getSelfStateRef entity = sid
  created_known : ∀ entry ∈ lineage.created, Known put entry.1 ∧
    ∀ prev, entry.2 = some prev → Known put prev
  newest_linked : ∀ eid sid, lineage.newest.get eid = some sid →
    ∃ prev, (sid, some prev) ∈ lineage.created
  confirmed_known : ∀ eid sid, lineage.confirmed.get eid = some sid → Known put sid

variable [DecidableEq TEntityId] [DecidableEq TStateId]

def Core.putConfirmed (core : Core TEntity) (entity : TEntity) : Core TEntity :=
  { core with
    state := core.state.put (getSelfStateRef entity) entity
    lastConfirmed := core.lastConfirmed.put (getSelfRef entity) (getSelfStateRef entity) }

def Core.putPredicted (core : Core TEntity) (entity : TEntity) (prevSid : TStateId) :
    Core TEntity :=
  { core with
    state := core.state.put (getSelfStateRef entity) entity
    predictionLink := core.predictionLink.put (getSelfStateRef entity) prevSid
    lastPredicted := core.lastPredicted.put (getSelfRef entity) (getSelfStateRef entity) }

variable {core : Core TEntity} {put : List TEntity} {lineage : Lineage TEntityId TStateId}
  {entity : TEntity}

omit [DecidableEq TEntityId] [DecidableEq TStateId] in
theorem Known.cons {sid : TStateId} (h : Known put sid) : Known (entity :: put) sid := by
  obtain ⟨e, hmem, hid⟩ := h
  exact ⟨e, List.mem_cons_of_mem _ hmem, hid⟩

omit [DecidableEq TEntityId] [DecidableEq TStateId] in
theorem known_self : Known (entity :: put) (getSelfStateRef entity) :=
  ⟨entity, List.mem_cons_self, rfl⟩

omit [DecidableEq TEntityId] in
theorem Tracks.stored_put (h : Tracks core put lineage) (entity : TEntity) :
    ∀ sid, Known (entity :: put) sid → ∃ e ∈ entity :: put,
      (core.state.put (getSelfStateRef entity) entity).get sid = some e ∧
        getSelfStateRef e = sid := by
  rintro sid ⟨e, hmem, hid⟩
  by_cases hself : sid = getSelfStateRef entity
  · exact ⟨entity, List.mem_cons_self, hself ▸ Store.get_put_self, hself.symm⟩
  · rcases List.mem_cons.mp hmem with rfl | hmem
    · exact absurd hid.symm hself
    · obtain ⟨e', hmem', hget, hid'⟩ := h.stored sid ⟨e, hmem, hid⟩
      exact ⟨e', List.mem_cons_of_mem _ hmem', (Store.get_put_of_ne hself).trans hget, hid'⟩

theorem Tracks.confirm (h : Tracks core put lineage) (entity : TEntity) :
    Tracks (core.putConfirmed entity) (entity :: put)
      (lineage.confirm (getSelfRef entity) (getSelfStateRef entity)) where
  ordered := h.ordered
  link_iff := h.link_iff
  newest_eq := h.newest_eq
  confirmed_eq := by rw [Core.putConfirmed, Lineage.confirm, h.confirmed_eq]
  stored := h.stored_put entity
  created_known := by
    intro entry hentry
    obtain ⟨hknown, hprev⟩ := h.created_known entry hentry
    exact ⟨hknown.cons, fun prev heq => (hprev prev heq).cons⟩
  newest_linked := h.newest_linked
  confirmed_known :=
    Store.forall_get_put known_self fun eid sid hget => (h.confirmed_known eid sid hget).cons

/-- A prediction with a fresh id, from a known state. -/
theorem Tracks.predict (h : Tracks core put lineage) {prevSid : TStateId}
    (hfresh : ¬ Known put (getSelfStateRef entity)) (hprev : Known put prevSid) :
    Tracks (core.putPredicted entity prevSid) (entity :: put)
      (lineage.predict (getSelfRef entity) (getSelfStateRef entity) prevSid) where
  ordered := by
    refine ⟨?_, ?_, h.ordered⟩
    · rintro heq
      cases heq
      exact hfresh hprev
    · intro entry hentry
      obtain ⟨hknown, hlink⟩ := h.created_known entry hentry
      exact ⟨fun heq => hfresh (heq ▸ hknown), fun heq => hfresh (hlink _ heq)⟩
  link_iff := by
    intro a b
    have hnot : ∀ b, (getSelfStateRef entity, some b) ∉ lineage.created :=
      fun b hmem => hfresh (h.created_known _ hmem).1
    rw [Core.putPredicted, Lineage.predict, Store.get_put_eq_some, h.link_iff, List.mem_cons,
      Prod.mk.injEq, Option.some.injEq]
    -- a fresh state has no link from before
    by_cases ha : a = getSelfStateRef entity
    · subst ha
      simp [hnot, eq_comm]
    · simp [ha]
  newest_eq := by rw [Core.putPredicted, Lineage.predict, h.newest_eq]
  confirmed_eq := h.confirmed_eq
  stored := h.stored_put entity
  created_known := by
    intro entry hentry
    rcases List.mem_cons.mp hentry with rfl | hentry
    · refine ⟨known_self, ?_⟩
      rintro prev heq
      cases heq
      exact hprev.cons
    · obtain ⟨hknown, hlink⟩ := h.created_known entry hentry
      exact ⟨hknown.cons, fun prev heq => (hlink prev heq).cons⟩
  newest_linked := by
    intro eid sid hget
    rcases Store.get_put_eq_some.mp hget with ⟨-, rfl⟩ | ⟨-, hget⟩
    · exact ⟨prevSid, List.mem_cons_self⟩
    · obtain ⟨prev, hmem⟩ := h.newest_linked eid sid hget
      exact ⟨prev, List.mem_cons_of_mem _ hmem⟩
  confirmed_known := fun eid sid hget => (h.confirmed_known eid sid hget).cons

/-! ## What a resolver does -/

variable {Repo Out : Type} [OnChainEntity Out TEntityId TStateId]

/-- The resolver on repositories with no more in them than a lineage says. -/
structure LawfulResolver (R : StateResolver Repo TEntity Out) (Clean : Repo → Prop) : Prop where
  clean_empty : Clean R.empty
  core_empty : R.core R.empty = ⟨.empty, .empty, .empty, .empty⟩
  clean_putConfirmed : ∀ repo entity, Clean repo → Clean (R.putConfirmed repo entity)
  core_putConfirmed : ∀ repo entity,
    R.core (R.putConfirmed repo entity) = (R.core repo).putConfirmed entity
  clean_putPredicted : ∀ repo traced, Clean repo → Clean (R.putPredicted repo traced)
  core_putPredicted : ∀ repo entity prevSid,
    R.core (R.putPredicted repo ⟨entity, some prevSid⟩) = (R.core repo).putPredicted entity prevSid
  view_sid : ∀ entity, getSelfStateRef (R.view entity) = getSelfStateRef entity
  resolve_mono : ∀ repo eid rounds rounds' res, R.resolve repo eid rounds = some res →
    rounds ≤ rounds' → R.resolve repo eid rounds' = some res
  resolve_none : ∀ repo eid, Clean repo → (R.core repo).lastConfirmed.get eid = none →
    ∀ rounds, R.resolve repo eid rounds = some none
  resolve_confirmed : ∀ repo eid sid conf, Clean repo →
    (R.core repo).lastConfirmed.get eid = some sid → (R.core repo).state.get sid = some conf →
    (R.core repo).lastPredicted.get eid = none →
    ∀ rounds, R.resolve repo eid rounds = some (some (R.view conf))
  resolve_predicted : ∀ repo eid sid conf predSid pred prevSid, Clean repo →
    (R.core repo).lastConfirmed.get eid = some sid → (R.core repo).state.get sid = some conf →
    (R.core repo).lastPredicted.get eid = some predSid →
    (R.core repo).state.get predSid = some pred →
    (R.core repo).predictionLink.get predSid = some prevSid →
    Acc (fun b a => (R.core repo).predictionLink.get a = some b) (getSelfStateRef pred) →
    ∃ rounds valid, (∀ rounds' ≥ rounds, R.resolve repo eid rounds' =
        some (some (R.view (if valid then pred else conf)))) ∧
      (valid = true ↔ getSelfStateRef pred = getSelfStateRef conf ∨
        LeadsTo (R.core repo).predictionLink.get (getSelfStateRef pred) (getSelfStateRef conf))

omit [DecidableEq TEntityId] in
/-- More rounds do not change the answer. -/
theorem resolveEntityState_mono {repo : EntityRepo TEntity} {id : TEntityId} {rounds rounds' : ℕ}
    {res : Option TEntity} (h : resolveEntityState repo id rounds = some res)
    (hle : rounds ≤ rounds') : resolveEntityState repo id rounds' = some res := by
  unfold resolveEntityState at h ⊢
  split at h
  · dsimp only at h ⊢
    split at h
    · next hself => exact (if_pos hself).trans h
    · next hself => exact (if_neg hself).trans (map_follow_mono h hle)
  · exact h
  · exact h
  · exact h

theorem resolveBundleState_mono {repo : BundleRepo} {id : BundleId} {rounds rounds' : ℕ}
    {res : Option (AsBox StakingBundle)} (h : resolveBundleState repo id rounds = some res)
    (hle : rounds ≤ rounds') : resolveBundleState repo id rounds' = some res := by
  unfold resolveBundleState at h ⊢
  split at h
  · dsimp only at h ⊢
    split at h
    · next hself => exact (if_pos hself).trans h
    · next hself => exact (if_neg hself).trans (map_follow_mono h hle)
  · exact h
  · exact h
  · exact h

theorem lawful_entityResolver : LawfulResolver (entityResolver TEntity)
    (fun repo => repo.lastUnconfirmed = .empty) where
  clean_empty := rfl
  core_empty := rfl
  clean_putConfirmed := fun _ _ h => h
  core_putConfirmed := fun _ _ => rfl
  clean_putPredicted := fun _ _ h => h
  core_putPredicted := fun _ _ _ => rfl
  view_sid := fun _ => rfl
  resolve_mono := fun _ _ _ _ _ => resolveEntityState_mono
  resolve_none := by
    intro repo eid hclean hnone rounds
    have hconf : repo.getLastConfirmed eid = none := by
      rw [EntityRepo.getLastConfirmed_eq]
      exact Option.bind_eq_none_iff.mpr fun sid h => by cases hnone.symm.trans h
    have hunconf := EntityRepo.getLastUnconfirmed_eq_none (congrArg (·.get eid) hclean)
    show resolveEntityState repo eid rounds = some none
    rw [resolveEntityState, hconf, hunconf]
  resolve_confirmed := by
    intro repo eid sid conf hclean hlast hstate hnone rounds
    have hconf : repo.getLastConfirmed eid = some conf := by
      rw [EntityRepo.getLastConfirmed_eq]
      exact Option.bind_eq_some_iff.mpr ⟨sid, hlast, hstate⟩
    have hunconf := EntityRepo.getLastUnconfirmed_eq_none (congrArg (·.get eid) hclean)
    have hpred : repo.getLastPredicted eid = none := Option.bind_eq_none_iff.mpr fun sid h => by
      cases hnone.symm.trans h
    show resolveEntityState repo eid rounds = some (some conf)
    rw [resolveEntityState, hconf, hunconf, hpred]
  resolve_predicted := by
    intro repo eid sid conf predSid pred prevSid hclean hlast hstate hpredLast hpredState hlink hacc
    have hconf : repo.getLastConfirmed eid = some conf := by
      rw [EntityRepo.getLastConfirmed_eq]
      exact Option.bind_eq_some_iff.mpr ⟨sid, hlast, hstate⟩
    have hpred : repo.getLastPredicted eid = some pred := by
      -- a predicted state counts only with its link
      refine Option.bind_eq_some_iff.mpr ⟨predSid, hpredLast, ?_⟩
      have hlink : repo.predictionLink.get predSid = some prevSid := hlink
      rw [hlink]
      exact hpredState
    have hunconf := EntityRepo.getLastUnconfirmed_eq_none (congrArg (·.get eid) hclean)
    have hresolve := resolveEntityState_predicted hconf hpred hacc
    rw [hunconf] at hresolve
    exact hresolve

theorem lawful_bundleResolver : LawfulResolver bundleResolver (fun _ => True) where
  clean_empty := trivial
  core_empty := rfl
  clean_putConfirmed := fun _ _ h => h
  core_putConfirmed := fun _ _ => rfl
  clean_putPredicted := fun _ _ h => h
  core_putPredicted := fun _ _ _ => rfl
  view_sid := fun _ => rfl
  resolve_mono := fun _ _ _ _ _ => resolveBundleState_mono
  resolve_none := by
    intro repo eid _ hnone rounds
    have hnone : repo.lastConfirmed.get eid = none := hnone
    show resolveBundleState repo eid rounds = some none
    unfold resolveBundleState BundleRepo.getLastConfirmed
    rw [hnone]
    cases repo.getLastPredicted eid <;> rfl
  resolve_confirmed := by
    intro repo eid sid conf _ hlast hstate hnone rounds
    have hlast : repo.lastConfirmed.get eid = some sid := hlast
    have hstate : repo.state.get sid = some conf := hstate
    have hnone : repo.lastPredicted.get eid = none := hnone
    show resolveBundleState repo eid rounds = _
    unfold resolveBundleState BundleRepo.getLastConfirmed BundleRepo.getLastPredicted
    rw [hlast, hnone, Option.bind_some, hstate]
    rfl
  resolve_predicted := by
    intro repo eid sid conf predSid pred prevSid _ hlast hstate hpredLast hpredState _ hacc
    have hlast : repo.lastConfirmed.get eid = some sid := hlast
    have hstate : repo.state.get sid = some conf := hstate
    have hpredLast : repo.lastPredicted.get eid = some predSid := hpredLast
    have hpredState : repo.state.get predSid = some pred := hpredState
    obtain ⟨rounds, found, hfollow⟩ := exists_follow (getSelfStateRef conf) hacc
    have hlinking : ∀ rounds' ≥ rounds, isLinkingBundle repo (getSelfStateRef pred)
        (getSelfStateRef conf) rounds' = some found := fun _ hle => follow_mono hfollow hle
    show ∃ rounds valid, (∀ rounds' ≥ rounds, resolveBundleState repo eid rounds' = _) ∧ _
    unfold resolveBundleState BundleRepo.getLastConfirmed BundleRepo.getLastPredicted
    rw [hlast, hpredLast, Option.bind_some, Option.bind_some, hstate, hpredState]
    simp only [Option.map_some]
    -- the predicted state may be the confirmed one itself
    by_cases hself : getSelfStateRef pred = getSelfStateRef conf
    · exact ⟨0, true, fun _ _ => if_pos hself, iff_of_true rfl (Or.inl hself)⟩
    · refine ⟨rounds, found, fun rounds' hle => ?_,
        (follow_eq_some hfollow).trans (or_iff_right hself).symm⟩
      refine (if_neg hself).trans ?_
      have hlinking := hlinking rounds' hle
      show (isLinkingBundle repo (getSelfStateRef pred) (getSelfStateRef conf) rounds').map _ = _
      rw [hlinking]
      cases found <;> rfl

/-- A repository that belongs to a lineage resolves an entity to the state the lineage says. -/
theorem resolve_of_tracks {R : StateResolver Repo TEntity Out} {Clean : Repo → Prop}
    (hlaw : LawfulResolver R Clean) {repo : Repo} (hclean : Clean repo)
    (h : Tracks (R.core repo) put lineage) {eid : TEntityId} {sid : TStateId}
    (hconfirmed : lineage.confirmed.get eid = some sid) :
    ∃ state ∈ put, lineage.resolved eid = some (getSelfStateRef state) ∧
      ∃ rounds, ∀ rounds' ≥ rounds, R.resolve repo eid rounds' = some (some (R.view state)) := by
  obtain ⟨conf, hconfMem, hconf, rfl⟩ := h.stored sid (h.confirmed_known eid sid hconfirmed)
  have hlast : (R.core repo).lastConfirmed.get eid = some (getSelfStateRef conf) := by
    rw [h.confirmed_eq, hconfirmed]
  cases hnewest : lineage.newest.get eid with
  | none =>
      have hnone : (R.core repo).lastPredicted.get eid = none := by rw [h.newest_eq, hnewest]
      refine ⟨conf, hconfMem, ?_, 0, fun rounds _ =>
        hlaw.resolve_confirmed repo eid _ conf hclean hlast hconf hnone rounds⟩
      rw [Lineage.resolved, hconfirmed, hnewest, Option.map_some, Option.getD_none, ite_self]
  | some predSid =>
      obtain ⟨prevSid, hcreated⟩ := h.newest_linked eid predSid hnewest
      obtain ⟨pred, hpredMem, hpred, rfl⟩ := h.stored predSid (h.created_known _ hcreated).1
      have hpredLast : (R.core repo).lastPredicted.get eid = some (getSelfStateRef pred) := by
        rw [h.newest_eq, hnewest]
      have hacc := acc_of_ordered h.ordered (fun a b => (h.link_iff a b).mp) (getSelfStateRef pred)
      obtain ⟨rounds, valid, hresolve, hvalid⟩ := hlaw.resolve_predicted repo eid _ conf _ pred
        prevSid hclean hlast hconf hpredLast hpred ((h.link_iff _ _).mpr hcreated) hacc
      have hchain : getSelfStateRef conf ∈ lineage.chain eid ↔ valid = true := by
        rw [hvalid, Lineage.chain, hnewest, Option.some_or, mem_ancestry_iff h.ordered h.link_iff]
        exact or_congr_left eq_comm
      have hresolved : lineage.resolved eid =
          some (getSelfStateRef (if valid then pred else conf)) := by
        rw [Lineage.resolved, hconfirmed, hnewest, Option.map_some, Option.getD_some]
        cases valid with
        | true => rw [if_pos (hchain.mpr rfl), if_pos rfl]
        | false => rw [if_neg fun hmem => Bool.false_ne_true (hchain.mp hmem), if_neg Bool.false_ne_true]
      refine ⟨if valid then pred else conf, ?_, hresolved, rounds, hresolve⟩
      cases valid
      · exact hconfMem
      · exact hpredMem

/-- Any answer of the resolver is the state the lineage says. -/
theorem resolved_of_resolve {R : StateResolver Repo TEntity Out} {Clean : Repo → Prop}
    (hlaw : LawfulResolver R Clean) {repo : Repo} (hclean : Clean repo)
    (h : Tracks (R.core repo) put lineage) {eid : TEntityId} {rounds : ℕ} {out : Out}
    (hresolve : R.resolve repo eid rounds = some (some out)) :
    Known put (getSelfStateRef out) ∧ lineage.resolved eid = some (getSelfStateRef out) := by
  cases hconfirmed : lineage.confirmed.get eid with
  | none =>
      have hnone := hlaw.resolve_none repo eid hclean (by rw [h.confirmed_eq, hconfirmed]) rounds
      cases hresolve.symm.trans hnone
  | some sid =>
      obtain ⟨state, hmem, hresolved, enough, hall⟩ := resolve_of_tracks hlaw hclean h hconfirmed
      have hmore := hlaw.resolve_mono repo eid rounds (max rounds enough) (some out) hresolve
        (le_max_left _ _)
      have hout : some (some out) = some (some (R.view state)) :=
        hmore.symm.trans (hall _ (le_max_right _ _))
      cases hout
      rw [hlaw.view_sid]
      exact ⟨⟨state, hmem, rfl⟩, hresolved⟩

end Tracks

/-! ## Runs -/

/-- A repository, the states put so far, and the lineage they make. -/
structure Chained (Repo TEntity : Type) {TEntityId TStateId : Type}
    [OnChainEntity TEntity TEntityId TStateId] where
  repo : Repo
  put : List TEntity
  lineage : Lineage TEntityId TStateId

/-- What the executor and the tracker do. -/
inductive ChainCall (TEntity : Type) where
  /-- The executor resolves the entity and predicts its next state. -/
  | execute (next : TEntity)
  | confirm (state : TEntity)

namespace Chained

variable {Repo TEntity Out : Type} [OnChainEntity TEntity TEntityId TStateId]
  [OnChainEntity Out TEntityId TStateId] [DecidableEq TEntityId] [DecidableEq TStateId]

/-- An entity is confirmed at a state, and nothing else is known. -/
def start (R : StateResolver Repo TEntity Out) (state : TEntity) : Chained Repo TEntity where
  repo := R.putConfirmed R.empty state
  put := [state]
  lineage := Lineage.init.confirm (getSelfRef state) (getSelfStateRef state)

def predict (R : StateResolver Repo TEntity Out) (s : Chained Repo TEntity) (next : TEntity)
    (prev : Out) : Chained Repo TEntity where
  repo := R.putPredicted s.repo ⟨next, some (getSelfStateRef prev)⟩
  put := next :: s.put
  lineage := s.lineage.predict (getSelfRef next) (getSelfStateRef next) (getSelfStateRef prev)

def confirm (R : StateResolver Repo TEntity Out) (s : Chained Repo TEntity) (state : TEntity) :
    Chained Repo TEntity where
  repo := R.putConfirmed s.repo state
  put := state :: s.put
  lineage := s.lineage.confirm (getSelfRef state) (getSelfStateRef state)

/-- A prediction is made from the state the entity is resolved to, and its id is fresh. -/
def Step (R : StateResolver Repo TEntity Out) (s : Chained Repo TEntity) :
    ChainCall TEntity → Chained Repo TEntity → Prop
  | .execute next, s' => ¬ Known s.put (getSelfStateRef next) ∧ ∃ rounds prev,
      R.resolve s.repo (getSelfRef next) rounds = some (some prev) ∧ s' = s.predict R next prev
  | .confirm state, s' => s' = s.confirm R state

/-- The states that are confirmed for the entity lie on its chain. -/
def OnChain (eid : TEntityId) (s : Chained Repo TEntity) : ChainCall TEntity → Prop
  | .execute _ => True
  | .confirm state => getSelfRef state = eid → getSelfStateRef state ∈ s.lineage.chain eid

/-- The states of the entity that were predicted, the last one first. -/
def executed (eid : TEntityId) : List (ChainCall TEntity) → List TStateId
  | [] => []
  | .execute next :: rest =>
      executed eid rest ++ if getSelfRef next = eid then [getSelfStateRef next] else []
  | .confirm _ :: rest => executed eid rest

/-! ### What the steps keep -/

/-- The repository belongs to the lineage, and the entity has been confirmed. -/
structure Invariant (R : StateResolver Repo TEntity Out) (Clean : Repo → Prop) (eid : TEntityId)
    (s : Chained Repo TEntity) : Prop where
  clean : Clean s.repo
  tracks : Tracks (R.core s.repo) s.put s.lineage
  confirmed : ∃ sid, s.lineage.confirmed.get eid = some sid

variable {R : StateResolver Repo TEntity Out} {Clean : Repo → Prop} {eid : TEntityId}
  {s s' : Chained Repo TEntity}

theorem invariant_start (hlaw : LawfulResolver R Clean) (state : TEntity) :
    (start R state).Invariant R Clean (getSelfRef state) := by
  have hempty : Tracks (R.core R.empty) ([] : List TEntity) Lineage.init := by
    rw [hlaw.core_empty]
    constructor
    · trivial
    · intro a b
      exact iff_of_false (fun h => Option.some_ne_none _ h.symm) List.not_mem_nil
    · rfl
    · rfl
    · rintro sid ⟨e, hmem, -⟩
      cases hmem
    · intro entry hmem
      cases hmem
    · intro eid sid h
      cases h
    · intro eid sid h
      cases h
  refine ⟨hlaw.clean_putConfirmed _ _ hlaw.clean_empty, ?_, _, Store.get_put_self⟩
  have htracks := hempty.confirm state
  rw [← hlaw.core_putConfirmed] at htracks
  exact htracks

theorem invariant_step (hlaw : LawfulResolver R Clean) (h : s.Invariant R Clean eid)
    {call : ChainCall TEntity} (hstep : Step R s call s') : s'.Invariant R Clean eid := by
  obtain ⟨hclean, htracks, sid, hconfirmed⟩ := h
  cases call with
  | execute next =>
      obtain ⟨hfresh, rounds, prev, hresolve, rfl⟩ := hstep
      obtain ⟨hknown, -⟩ := resolved_of_resolve hlaw hclean htracks hresolve
      have hnext := htracks.predict hfresh hknown
      rw [← hlaw.core_putPredicted] at hnext
      exact ⟨hlaw.clean_putPredicted _ _ hclean, hnext, sid, hconfirmed⟩
  | confirm state =>
      cases hstep
      have hnext := htracks.confirm state
      rw [← hlaw.core_putConfirmed] at hnext
      refine ⟨hlaw.clean_putConfirmed _ _ hclean, hnext, ?_⟩
      by_cases heid : eid = getSelfRef state
      · subst heid
        exact ⟨_, Store.get_put_self⟩
      · exact ⟨sid, (Store.get_put_of_ne heid).trans hconfirmed⟩

theorem invariant_of_run (hlaw : LawfulResolver R Clean) {state : TEntity}
    {labels : List (ChainCall TEntity)} (hrun : Run (Step R) (start R state) labels s) :
    s.Invariant R Clean (getSelfRef state) :=
  Run.invariant (fun _ _ _ h hstep => invariant_step hlaw h hstep) hrun
    (invariant_start hlaw state)

/-! ### Confirmations along the chain -/

/-- The confirmed state of the entity is on its chain, which is that state alone as long as there
is no prediction. -/
structure Straight (eid : TEntityId) (lineage : Lineage TEntityId TStateId) : Prop where
  valid : ∀ c, lineage.confirmed.get eid = some c → c ∈ lineage.chain eid
  lone : lineage.newest.get eid = none →
    ∃ c, lineage.confirmed.get eid = some c ∧ lineage.chain eid = [c]

theorem straight_start (R : StateResolver Repo TEntity Out) (state : TEntity) :
    Straight (getSelfRef state) (start R state).lineage ∧
      (start R state).lineage.chain (getSelfRef state) = [getSelfStateRef state] := by
  have hchain : (start R state).lineage.chain (getSelfRef state) = [getSelfStateRef state] := by
    unfold start Lineage.chain Lineage.confirm
    rw [Store.get_put_self]
    rfl
  refine ⟨⟨fun c hc => ?_, fun _ => ⟨_, Store.get_put_self, hchain⟩⟩, hchain⟩
  have hself : some (getSelfStateRef state) = some c := Store.get_put_self.symm.trans hc
  cases hself
  rw [hchain]
  exact List.mem_singleton_self _

/-- The predicted state is put on the chain of its entity, and on no other one. -/
theorem chain_execute (hlaw : LawfulResolver R Clean) (h : s.Invariant R Clean eid)
    (hstraight : Straight eid s.lineage) {next : TEntity} (hstep : Step R s (.execute next) s') :
    s'.lineage.chain eid = executed eid [.execute next] ++ s.lineage.chain eid := by
  obtain ⟨hfresh, rounds, prev, hresolve, rfl⟩ := hstep
  by_cases heid : getSelfRef next = eid
  · subst heid
    obtain ⟨-, hresolved⟩ := resolved_of_resolve hlaw h.clean h.tracks hresolve
    rw [executed, if_pos rfl, Lineage.chain_of_resolved hstraight.valid hresolved]
    exact Lineage.chain_predict_self
  · have hknown : (s.lineage.newest.get eid).or (s.lineage.confirmed.get eid) ≠
        some (getSelfStateRef next) := by
      intro heq
      rcases Option.or_eq_some_iff.mp heq with hnewest | ⟨-, hconfirmed⟩
      · obtain ⟨prev, hmem⟩ := h.tracks.newest_linked eid _ hnewest
        exact hfresh (h.tracks.created_known _ hmem).1
      · exact hfresh (h.tracks.confirmed_known eid _ hconfirmed)
    rw [executed, if_neg heid]
    exact Lineage.chain_predict_of_ne (Ne.symm heid) hknown

/-- A confirmation on the chain leaves it alone. -/
theorem chain_confirm (hstraight : Straight eid s.lineage) {state : TEntity}
    (honchain : getSelfRef state = eid → getSelfStateRef state ∈ s.lineage.chain eid) :
    (s.confirm R state).lineage.chain eid = s.lineage.chain eid := by
  by_cases heid : getSelfRef state = eid
  · subst heid
    cases hnewest : s.lineage.newest.get (getSelfRef state) with
    | some newest => exact Lineage.chain_confirm_of_newest hnewest
    | none =>
        -- the only state on the chain is confirmed again
        obtain ⟨c, hconfirmed, hchain⟩ := hstraight.lone hnewest
        have hself : getSelfStateRef state = c := by
          apply List.mem_singleton.mp
          rw [← hchain]
          exact honchain rfl
        unfold Chained.confirm Lineage.confirm Lineage.chain
        rw [Store.get_put_self, hnewest, hconfirmed, hself]
  · exact Lineage.chain_confirm_of_ne (Ne.symm heid)

/-- The predicted state is added to the chain, and a confirmation on the chain leaves it alone. -/
theorem straight_step (hlaw : LawfulResolver R Clean) (h : s.Invariant R Clean eid)
    (hstraight : Straight eid s.lineage) {call : ChainCall TEntity}
    (hstep : restrict (Step R) (OnChain eid) s call s') :
    Straight eid s'.lineage ∧
      s'.lineage.chain eid = executed eid [call] ++ s.lineage.chain eid := by
  obtain ⟨hstep, honchain⟩ := hstep
  cases call with
  -- A prediction is put on top: the confirmed state stays where it is in the chain.
  | execute next =>
      have hchain := chain_execute hlaw h hstraight hstep
      obtain ⟨-, rounds, prev, -, rfl⟩ := hstep
      refine ⟨⟨fun c hc => ?_, fun hnone => ?_⟩, hchain⟩
      · rw [hchain]
        exact List.mem_append_right _ (hstraight.valid c hc)
      · by_cases heid : getSelfRef next = eid
        · subst heid
          cases Store.get_put_self.symm.trans hnone
        · rw [hchain, executed, if_neg heid]
          exact hstraight.lone ((Store.get_put_of_ne (Ne.symm heid)).symm.trans hnone)
  -- A confirmation adds nothing: the state it confirms is on the chain by `honchain`.
  | confirm state =>
      cases hstep
      have hchain := chain_confirm (R := R) hstraight honchain
      refine ⟨⟨fun c hc => ?_, fun hnone => ?_⟩, hchain⟩
      · rw [hchain]
        by_cases heid : getSelfRef state = eid
        · subst heid
          have hself : some (getSelfStateRef state) = some c := Store.get_put_self.symm.trans hc
          cases hself
          exact honchain rfl
        · exact hstraight.valid c ((Store.get_put_of_ne (Ne.symm heid)).symm.trans hc)
      · obtain ⟨c, hconfirmed, hlone⟩ := hstraight.lone hnone
        refine ⟨c, ?_, hchain.trans hlone⟩
        by_cases heid : getSelfRef state = eid
        · subst heid
          have hself : getSelfStateRef state = c := by
            apply List.mem_singleton.mp
            rw [← hlone]
            exact honchain rfl
          rw [← hself]
          exact Store.get_put_self
        · exact (Store.get_put_of_ne (Ne.symm heid)).trans hconfirmed

theorem chain_of_straight_run (hlaw : LawfulResolver R Clean) {labels : List (ChainCall TEntity)}
    (hrun : Run (restrict (Step R) (OnChain eid)) s labels s') (h : s.Invariant R Clean eid)
    (hstraight : Straight eid s.lineage) :
    s'.lineage.chain eid = executed eid labels ++ s.lineage.chain eid := by
  induction hrun with
  | nil => rfl
  | @cons s t u call rest hstep _ ih =>
      obtain ⟨hstraight', hchain⟩ := straight_step hlaw h hstraight hstep
      rw [ih (invariant_step hlaw h hstep.1) hstraight', hchain, ← List.append_assoc]
      congr 1
      cases call <;> simp [executed]

end Chained

/-- The entity is resolved to the newest prediction of its chain as long as the confirmed state is
on the chain, and otherwise to the confirmed state; the next prediction continues from
there.  While all states are confirmed on the chain, the chain is what was executed since
the start. -/
def FollowsChain {Repo TEntity Out : Type} [OnChainEntity TEntity TEntityId TStateId]
    [OnChainEntity Out TEntityId TStateId] [DecidableEq TEntityId] [DecidableEq TStateId]
    (R : StateResolver Repo TEntity Out) : Prop :=
  ∀ (start : TEntity) (labels : List (ChainCall TEntity)) (s : Chained Repo TEntity),
    Run (Chained.Step R) (Chained.start R start) labels s →
    (∃ state ∈ s.put, ∃ rounds confirmed,
      (∀ rounds' ≥ rounds,
        R.resolve s.repo (getSelfRef start) rounds' = some (some (R.view state))) ∧
      s.lineage.confirmed.get (getSelfRef start) = some confirmed ∧
      (confirmed ∈ s.lineage.chain (getSelfRef start) →
        (s.lineage.chain (getSelfRef start)).head? = some (getSelfStateRef state)) ∧
      (confirmed ∉ s.lineage.chain (getSelfRef start) → getSelfStateRef state = confirmed) ∧
      ∀ next s', Chained.Step R s (.execute next) s' → getSelfRef next = getSelfRef start →
        s'.lineage.chain (getSelfRef start) =
          getSelfStateRef next :: ancestry s.lineage.created (getSelfStateRef state)) ∧
    (Run (restrict (Chained.Step R) (Chained.OnChain (getSelfRef start))) (Chained.start R start)
        labels s →
      s.lineage.chain (getSelfRef start) =
        Chained.executed (getSelfRef start) labels ++ [getSelfStateRef start])

theorem followsChain_of_lawful {Repo TEntity Out : Type} [OnChainEntity TEntity TEntityId TStateId]
    [OnChainEntity Out TEntityId TStateId] [DecidableEq TEntityId] [DecidableEq TStateId]
    {R : StateResolver Repo TEntity Out} {Clean : Repo → Prop} (hlaw : LawfulResolver R Clean) :
    FollowsChain R := by
  intro start labels s hrun
  have hinv := Chained.invariant_of_run hlaw hrun
  obtain ⟨confirmed, hconfirmed⟩ := hinv.confirmed
  obtain ⟨state, hmem, hresolved, rounds, hresolve⟩ :=
    resolve_of_tracks hlaw hinv.clean hinv.tracks hconfirmed
  refine ⟨⟨state, hmem, rounds, confirmed, hresolve, hconfirmed, ?_, ?_, ?_⟩, ?_⟩
  · intro hchain
    rw [Lineage.resolved, hconfirmed, Option.map_some, if_pos hchain] at hresolved
    rw [← hresolved]
    exact Lineage.head?_chain hconfirmed
  · intro hchain
    rw [Lineage.resolved, hconfirmed, Option.map_some, if_neg hchain] at hresolved
    exact (Option.some.inj hresolved).symm
  · rintro next s' ⟨-, rounds', prev, hprev, rfl⟩ heid
    rw [heid] at hprev
    obtain ⟨-, hresolved'⟩ := resolved_of_resolve hlaw hinv.clean hinv.tracks hprev
    rw [← heid, ← Option.some.inj (hresolved'.symm.trans hresolved)]
    exact Lineage.chain_predict_self
  · intro honchain
    obtain ⟨hstraight, hchain⟩ := Chained.straight_start R start
    rw [Chained.chain_of_straight_run hlaw honchain (Chained.invariant_start hlaw start) hstraight,
      hchain]

/-- Pools and bundles are executed on the newest prediction that is valid. -/
theorem newest_valid_prediction (TEntity : Type) [OnChainEntity TEntity TEntityId TStateId]
    [DecidableEq TEntityId] [DecidableEq TStateId] :
    FollowsChain (entityResolver TEntity) ∧ FollowsChain bundleResolver :=
  ⟨followsChain_of_lawful lawful_entityResolver, followsChain_of_lawful lawful_bundleResolver⟩

end SpectrumOffchain.Resolver
