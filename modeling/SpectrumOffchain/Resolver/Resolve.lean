import SpectrumOffchain.Lib.Links
import SpectrumOffchain.Resolver.EntityRepo

/-!
# The state an entity is resolved to

`resolve_entity_state` starts from the anchor, the last unconfirmed state or else the last
confirmed one, and prefers the last predicted state if that is the anchor or leads to it
along the prediction links.  The walk along the links ends because a state that is
predicted for the first time is linked to one that is known already.

`IsResolved` says what the answer is to be.  The code gives it except in one case, which
falls to the last arm of its `match`: an entity with an unconfirmed and a predicted state
but no confirmed one is not resolved at all.

## Strategy

The walk is followed by induction on the accessibility of the state it is at
(`exists_isLinking`), so no bound on its length has to be given.  That links are well-founded
is the invariant of the runs: `Tracked` records the states in the order in which they were
predicted, each with the state it is linked to, and a link leads to an earlier entry.  With
the walk decided, `exists_resolveEntityState` goes through the arms of the `match` and
compares each with `IsResolved`.
-/

namespace SpectrumOffchain.Resolver

open Transition Links

variable {TEntity TEntityId TStateId : Type} [OnChainEntity TEntity TEntityId TStateId]

section Resolve

variable [DecidableEq TStateId]

/-- Whether the predictions from `sid` back lead to `anchoringSid`, if that is found out in so
many rounds of the loop. -/
def isLinking (repo : EntityRepo TEntity) (sid anchoringSid : TStateId) (rounds : ℕ) :
    Option Bool :=
  follow repo.getPredictionPredecessor anchoringSid rounds sid

/-- Get latest state of an on-chain entity. -/
def resolveEntityState (repo : EntityRepo TEntity) (id : TEntityId) (rounds : ℕ) :
    Option (Option TEntity) :=
  match repo.getLastConfirmed id, repo.getLastUnconfirmed id, repo.getLastPredicted id with
  | some conf, unconf, some pred =>
      let anchoringPoint := unconf.getD conf
      let anchoringSid := getSelfStateRef anchoringPoint
      let predictedSid := getSelfStateRef pred
      if predictedSid = anchoringSid then some (some pred)
      else (isLinking repo predictedSid anchoringSid rounds).map fun predictionIsValid =>
        some (if predictionIsValid then pred else anchoringPoint)
  | _, some unconf, none => some (some unconf)
  | some conf, _, _ => some (some conf)
  | _, _, _ => some none

end Resolve

/-! ## The specification -/

/-- The last unconfirmed state if any, else the last confirmed state. -/
def anchor (repo : EntityRepo TEntity) (id : TEntityId) : Option TEntity :=
  (repo.getLastUnconfirmed id).or (repo.getLastConfirmed id)

/-- The state is the anchor or leads to it by prediction links. -/
def LeadsToAnchor (repo : EntityRepo TEntity) (pred anchor : TEntity) : Prop :=
  getSelfStateRef pred = getSelfStateRef anchor ∨
    LeadsTo repo.getPredictionPredecessor (getSelfStateRef pred) (getSelfStateRef anchor)

/-- What the entity is to be resolved to. -/
def IsResolved (repo : EntityRepo TEntity) (id : TEntityId) (res : Option TEntity) : Prop :=
  match anchor repo id, repo.getLastPredicted id with
  | none, _ => res = none
  | some anchor, none => res = some anchor
  | some anchor, some pred =>
      (LeadsToAnchor repo pred anchor → res = some pred) ∧
        (¬ LeadsToAnchor repo pred anchor → res = some anchor)

/-- The case that is missed. -/
def Missed (repo : EntityRepo TEntity) (id : TEntityId) : Prop :=
  repo.getLastConfirmed id = none ∧ (repo.getLastUnconfirmed id).isSome ∧
    (repo.getLastPredicted id).isSome

section Correct

variable [DecidableEq TStateId]

/-- The walk is answered, and the answer is right, if the links come to an end. -/
theorem exists_isLinking {repo : EntityRepo TEntity} {sid : TStateId}
    (hacc : Acc (fun b a => repo.getPredictionPredecessor a = some b) sid) (anchoringSid : TStateId) :
    ∃ rounds found, (∀ rounds' ≥ rounds, isLinking repo sid anchoringSid rounds' = some found) ∧
      (found = true ↔ LeadsTo repo.getPredictionPredecessor sid anchoringSid) := by
  obtain ⟨rounds, found, hfollow⟩ := exists_follow anchoringSid hacc
  exact ⟨rounds, found, fun _ hle => follow_mono hfollow hle, follow_eq_some hfollow⟩

/-- With a confirmed and a predicted state, the prediction is taken if it leads to the anchor. -/
theorem resolveEntityState_predicted {repo : EntityRepo TEntity} {id : TEntityId}
    {conf pred : TEntity} (hconf : repo.getLastConfirmed id = some conf)
    (hpred : repo.getLastPredicted id = some pred)
    (hacc : Acc (fun b a => repo.getPredictionPredecessor a = some b) (getSelfStateRef pred)) :
    ∃ rounds valid, (∀ rounds' ≥ rounds, resolveEntityState repo id rounds' =
        some (some (if valid then pred else (repo.getLastUnconfirmed id).getD conf))) ∧
      (valid = true ↔ LeadsToAnchor repo pred ((repo.getLastUnconfirmed id).getD conf)) := by
  unfold resolveEntityState
  rw [hconf, hpred]
  dsimp only
  generalize (repo.getLastUnconfirmed id).getD conf = anchoringPoint
  by_cases hself : getSelfStateRef pred = getSelfStateRef anchoringPoint
  · exact ⟨0, true, fun _ _ => if_pos hself, iff_of_true rfl (Or.inl hself)⟩
  · obtain ⟨rounds, found, hlinking, hfound⟩ :=
      exists_isLinking hacc (getSelfStateRef anchoringPoint)
    refine ⟨rounds, found, fun rounds' hle => ?_, hfound.trans (or_iff_right hself).symm⟩
    rw [if_neg hself, hlinking rounds' hle]
    rfl

/-- Where the links come to an end, the entity is resolved as it is to be, or the case is the
one that is missed. -/
theorem exists_resolveEntityState {repo : EntityRepo TEntity}
    (hacc : ∀ sid, Acc (fun b a => repo.getPredictionPredecessor a = some b) sid)
    (id : TEntityId) :
    ∃ rounds res, (∀ rounds' ≥ rounds, resolveEntityState repo id rounds' = some res) ∧
      (IsResolved repo id res ↔ ¬ Missed repo id) := by
  cases hpred : repo.getLastPredicted id with
  | none =>
      -- the anchor itself is returned
      refine ⟨0, anchor repo id, fun _ _ => ?_, iff_of_true ?_ ?_⟩
      · unfold resolveEntityState anchor
        rw [hpred]
        cases repo.getLastConfirmed id <;> cases repo.getLastUnconfirmed id <;> rfl
      · unfold IsResolved
        rw [hpred]
        cases anchor repo id <;> rfl
      · rintro ⟨-, -, hsome⟩
        rw [hpred] at hsome
        cases hsome
  | some pred =>
      cases hconf : repo.getLastConfirmed id with
      -- without a confirmed state the result is none, also where an unconfirmed one is known
      | none =>
          refine ⟨0, none, fun _ _ => ?_, ?_⟩
          · unfold resolveEntityState
            rw [hconf, hpred]
            cases repo.getLastUnconfirmed id <;> rfl
          · unfold IsResolved Missed anchor
            rw [hconf, hpred]
            cases hunconf : repo.getLastUnconfirmed id with
            | none => exact iff_of_true rfl fun h => absurd h.2.1 Bool.false_ne_true
            | some unconf =>
                refine iff_of_false ?_ fun h => h ⟨rfl, rfl, rfl⟩
                rintro ⟨hvalid, hinvalid⟩
                by_cases hleads : LeadsToAnchor repo pred unconf
                · cases hvalid hleads
                · cases hinvalid hleads
      -- the prediction is returned if its links lead to the anchor, and otherwise the anchor
      | some conf =>
          obtain ⟨rounds, valid, hres, hvalid⟩ :=
            resolveEntityState_predicted hconf hpred (hacc _)
          refine ⟨rounds, _, hres, iff_of_true ?_ ?_⟩
          · have hanchor : anchor repo id = some ((repo.getLastUnconfirmed id).getD conf) := by
              rw [anchor, hconf]
              cases repo.getLastUnconfirmed id <;> rfl
            unfold IsResolved
            rw [hanchor, hpred]
            refine ⟨fun h => ?_, fun h => ?_⟩
            · rw [if_pos (hvalid.mpr h)]
            · rw [if_neg fun htrue => h (hvalid.mp htrue)]
          · rintro ⟨hnone, -, -⟩
            rw [hconf] at hnone
            cases hnone

end Correct

/-! ## Runs -/

/-- The repository, with the predicted states in the order in which they were first put. -/
structure Tracked (TEntity : Type) {TEntityId TStateId : Type}
    [OnChainEntity TEntity TEntityId TStateId] where
  repo : EntityRepo TEntity
  created : List (Entry TStateId)

namespace Tracked

def init : Tracked TEntity := ⟨.empty, []⟩

/-- A state id is fresh when it is first predicted; afterwards it comes with the same
predecessor. -/
def Admissible (s : Tracked TEntity) : RepoCall TEntity → Prop
  | .putPredicted traced =>
      (Fresh s.created (getSelfStateRef traced.state) ∧
        traced.prevStateId ≠ some (getSelfStateRef traced.state)) ∨
      (getSelfStateRef traced.state, traced.prevStateId) ∈ s.created
  | _ => True

variable [DecidableEq TEntityId] [DecidableEq TStateId]

def after (s : Tracked TEntity) (call : RepoCall TEntity) : Tracked TEntity where
  repo := call.exec s.repo
  created := match call with
    | .putPredicted traced =>
        s.created.insert (getSelfStateRef traced.state, traced.prevStateId)
    | _ => s.created

def Step (s : Tracked TEntity) (call : RepoCall TEntity) (s' : Tracked TEntity) : Prop :=
  s' = s.after call

/-- The links are among those that were recorded when the states were first put. -/
structure Invariant (s : Tracked TEntity) : Prop where
  ordered : Ordered s.created
  recorded : ∀ a b, s.repo.getPredictionPredecessor a = some b → (a, some b) ∈ s.created

omit [DecidableEq TEntityId] [DecidableEq TStateId] in
theorem invariant_init : (init : Tracked TEntity).Invariant := by
  refine ⟨trivial, fun a b h => ?_⟩
  cases h

theorem ordered_insert {created : List (Entry TStateId)} (h : Ordered created)
    {entry : Entry TStateId}
    (hentry : Fresh created entry.1 ∧ entry.2 ≠ some entry.1 ∨ entry ∈ created) :
    Ordered (created.insert entry) := by
  rcases hentry with ⟨hfresh, hself⟩ | hmem
  · have hnew : entry ∉ created := fun hmem => (hfresh entry hmem).1 rfl
    rw [List.insert_of_not_mem hnew]
    exact ⟨hself, hfresh, h⟩
  · rw [List.insert_of_mem hmem]
    exact h

theorem invariant_after {s : Tracked TEntity} (h : s.Invariant) (call : RepoCall TEntity)
    (hcall : s.Admissible call) : (s.after call).Invariant := by
  obtain ⟨hordered, hrecorded⟩ := h
  have hdelete : ∀ sid a b, (s.repo.predictionLink.delete sid).get a = some b →
      (a, some b) ∈ s.created :=
    fun sid a b hget => hrecorded a b (Store.get_delete_eq_some.mp hget).2
  cases call with
  | putPredicted traced =>
      refine ⟨ordered_insert hordered hcall, fun a b hget => ?_⟩
      have hget : (s.repo.putPredicted traced).predictionLink.get a = some b := hget
      rw [EntityRepo.predictionLink_putPredicted] at hget
      split at hget
      · next hself =>
          rw [hself.1, ← hget]
          exact List.mem_insert_self
      · exact List.mem_insert_of_mem (hrecorded a b hget)
  | putConfirmed entity => exact ⟨hordered, hrecorded⟩
  | putUnconfirmed entity => exact ⟨hordered, hrecorded⟩
  | invalidate sid eid => exact ⟨hordered, hdelete sid⟩
  | eliminate entity => exact ⟨hordered, hdelete (getSelfStateRef entity)⟩

end Tracked

variable [DecidableEq TEntityId] [DecidableEq TStateId]

/-- In every reachable state every entity is resolved within some number of rounds, and to
what it is to be unless it has an unconfirmed and a predicted state but no confirmed one. -/
theorem resolved_of_run {calls : List (RepoCall TEntity)} {s : Tracked TEntity}
    (hrun : Run (restrict Tracked.Step Tracked.Admissible) Tracked.init calls s)
    (id : TEntityId) :
    ∃ rounds res, (∀ rounds' ≥ rounds, resolveEntityState s.repo id rounds' = some res) ∧
      (IsResolved s.repo id res ↔ ¬ Missed s.repo id) := by
  have hinv : s.Invariant := by
    refine Run.invariant (I := Tracked.Invariant) ?_ hrun Tracked.invariant_init
    rintro s call s' h ⟨rfl, hcall⟩
    exact Tracked.invariant_after h call hcall
  exact exists_resolveEntityState (acc_of_ordered hinv.ordered hinv.recorded) id

/-! ## Samples -/

open Sample

/-- State 1 is predicted from the confirmed state 0, and the entity is resolved to it. -/
theorem resolved_of_run_sample :
    ∃ s : Tracked (ℕ × ℕ), ∃ rounds,
      (∀ rounds' ≥ rounds, resolveEntityState s.repo 1 rounds' = some (some (1, 1))) ∧
        IsResolved s.repo 1 (some (1, 1)) := by
  have hrun : Run (restrict Tracked.Step Tracked.Admissible) (Tracked.init : Tracked (ℕ × ℕ))
      [.putConfirmed (1, 0), .putPredicted ⟨(1, 1), some 0⟩] _ :=
    .cons ⟨rfl, trivial⟩ (.single ⟨rfl, .inl ⟨by decide, by decide⟩⟩)
  obtain ⟨rounds, res, hres, hresolved⟩ := resolved_of_run hrun 1
  obtain rfl : some (1, 1) = res := Option.some.inj (hres (rounds + 1) (Nat.le_succ rounds))
  exact ⟨_, rounds, hres, hresolved.mpr fun hmissed => by cases hmissed.1⟩

/-- An unconfirmed state and a prediction from it: nothing is found. -/
theorem prediction_hides_unconfirmed :
    ¬ ∀ (calls : List (RepoCall (ℕ × ℕ))) (s : Tracked (ℕ × ℕ)) (id : ℕ),
      Run (restrict Tracked.Step Tracked.Admissible) Tracked.init calls s →
      ∃ rounds res, resolveEntityState s.repo id rounds = some res ∧ IsResolved s.repo id res := by
  intro h
  obtain ⟨rounds, res, hres, hresolved⟩ := h
    [.putUnconfirmed (1, 0), .putPredicted ⟨(1, 1), some 0⟩] _ 1
    (Run.cons ⟨rfl, trivial⟩ (Run.single ⟨rfl, Or.inl ⟨by decide, by decide⟩⟩))
  have hnone : res = none := Option.some.inj hres.symm
  subst hnone
  obtain ⟨hvalid, hinvalid⟩ := hresolved
  by_cases hleads : LeadsToAnchor
      ((Tracked.init.after (.putUnconfirmed (1, 0))).after
        (.putPredicted ⟨(1, 1), some 0⟩)).repo (1, 1) (1, 0)
  · cases hvalid hleads
  · cases hinvalid hleads

end SpectrumOffchain.Resolver
