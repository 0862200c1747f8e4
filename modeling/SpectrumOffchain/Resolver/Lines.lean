import Mathlib.Data.List.TakeWhile
import SpectrumOffchain.Resolver.Chained

/-!
# Taking predictions back

An executor whose transaction is rejected invalidates the state that the transaction was made
from.  The repository then has the predecessor of this state, if there is one, as the last
confirmed state, and the next prediction starts there.

`Line` is what the repository is for in such a history: the states of an entity that can
still be worked on, each predicted from the one behind it.  A prediction is put on top of the
line, an invalidation takes the top away, and a confirmation leaves the line alone as long
as its top is the last prediction.  After an invalidation it is not: a state that is
confirmed further down the line takes the place of the top, although predictions
lead from it to the top.

`Follows` says that a repository and the lines of all entities belong together.  Every entity is
then resolved to the top of its line (`resolve_of_follows`), and so it stays after a prediction
from this state, its invalidation, and a confirmation of a state on the line or of a new one.

## Strategy

`Holds` is what one entity has in the repository: its states are stored, the links lead down
the line, the last confirmed state is on it, and the last prediction is its top or is of no
use.  A prediction is of no use (`Holds.stale`) if it has been invalidated, or if the links
from it do not lead to the line.  It must stay so although links are added later, which is
why `Follows` also records the order in which states were created: a link always leads to a
state that was created before, so that the links of a new state lead to no old one.

An operation is about one entity, and the others keep what they have (`Holds.frame`).  For
the entity itself there is one lemma for each operation: `holds_predict`,
`holds_invalidate`, and for a confirmation one for a state on the line and one for a new
state (`holds_confirm_of_mem`, `holds_confirm_of_fresh`).
-/

namespace SpectrumOffchain.Resolver

open Links

/-! ## Lines -/

/-- The states of an entity that can be worked on, the newest first, and whether the newest is the
last prediction. -/
structure Line (TEntity : Type) where
  states : List TEntity
  predicted : Bool

namespace Line

variable {TEntity TEntityId TStateId : Type} [OnChainEntity TEntity TEntityId TStateId]

def empty : Line TEntity := ⟨[], false⟩

def top (line : Line TEntity) : Option TEntity := line.states.head?

def predict (line : Line TEntity) (next : TEntity) : Line TEntity := ⟨next :: line.states, true⟩

def invalidate (line : Line TEntity) : Line TEntity := ⟨line.states.tail, false⟩

variable [DecidableEq TStateId]

/-- The part of the line from the state on. -/
def downTo (line : Line TEntity) (state : TEntity) : List TEntity :=
  line.states.dropWhile fun x => getSelfStateRef x ≠ getSelfStateRef state

def confirm (line : Line TEntity) (state : TEntity) : Line TEntity :=
  if (line.downTo state).isEmpty then ⟨[state], false⟩
  else if line.predicted then line
  else ⟨line.downTo state, false⟩

end Line

/-! ## Repositories and lines -/

variable {TEntity TEntityId TStateId : Type} [OnChainEntity TEntity TEntityId TStateId]

/-- What the repository has recorded for an entity is its line. -/
structure Holds (repo : EntityRepo TEntity) (eid : TEntityId) (line : Line TEntity) : Prop where
  owner : ∀ x ∈ line.states, getSelfRef x = eid
  stored : ∀ x ∈ line.states, repo.state.get (getSelfStateRef x) = some x
  path : Path repo.predictionLink.get (line.states.map getSelfStateRef)
  nodup : (line.states.map getSelfStateRef).Nodup
  unknown : line.states = [] → repo.lastConfirmed.get eid = none
  anchored : ∀ top, line.top = some top → ∃ c ∈ line.states,
    repo.lastConfirmed.get eid = some (getSelfStateRef c) ∧ (line.predicted = false → c = top)
  newest : line.predicted = true → ∃ top below rest, line.states = top :: below :: rest ∧
    repo.lastPredicted.get eid = some (getSelfStateRef top)
  /-- The last prediction has been invalidated, or does not lead to the line. -/
  stale : line.predicted = false → ∀ p, repo.lastPredicted.get eid = some p →
    repo.predictionLink.get p = none ∨
      ∀ x ∈ line.states, p ≠ getSelfStateRef x ∧
        ¬ LeadsTo repo.predictionLink.get p (getSelfStateRef x)

/-- The repository has recorded the lines of all entities, by the states in `put`. -/
structure Follows (repo : EntityRepo TEntity) (put : List TEntity) (created : List (Entry TStateId))
    (lines : TEntityId → Line TEntity) : Prop where
  ordered : Ordered created
  recorded : ∀ a b, repo.predictionLink.get a = some b → (a, some b) ∈ created
  created_known : ∀ entry ∈ created, Known put entry.1 ∧
    ∀ prev, entry.2 = some prev → Known put prev
  own : ∀ sid x, repo.state.get sid = some x → getSelfStateRef x = sid ∧ Known put sid
  predicted_known : ∀ eid sid, repo.lastPredicted.get eid = some sid → Known put sid
  unconfirmed : ∀ eid, repo.lastUnconfirmed.get eid = none
  line : ∀ eid, Holds repo eid (lines eid)

section Resolve

variable [DecidableEq TStateId] {repo : EntityRepo TEntity} {eid : TEntityId} {put : List TEntity}
  {created : List (Entry TStateId)} {lines : TEntityId → Line TEntity}

omit [DecidableEq TStateId] in
theorem getLastPredicted_of_stale {p : TStateId} (h : Follows repo put created lines)
    (hfalse : (lines eid).predicted = false) (hp : repo.lastPredicted.get eid = some p) :
    repo.getLastPredicted eid = none ∨ ∃ pred, repo.getLastPredicted eid = some pred ∧
      ∀ x ∈ (lines eid).states, ¬ LeadsToAnchor repo pred x := by
  rw [EntityRepo.getLastPredicted, hp, Option.bind_some]
  rcases (h.line eid).stale hfalse p hp with hnone | hstale
  · left
    rw [hnone]
    rfl
  · cases hlink : repo.predictionLink.get p with
    | none => exact Or.inl rfl
    | some prev =>
        cases hstate : repo.state.get p with
        | none => exact Or.inl rfl
        | some pred =>
            refine Or.inr ⟨pred, rfl, fun x hx hleads => ?_⟩
            have hsid : getSelfStateRef pred = p := (h.own p pred hstate).1
            obtain ⟨hne, hnot⟩ := hstale x hx
            rw [LeadsToAnchor, hsid] at hleads
            exact hleads.elim hne hnot

/-- Every entity is resolved to the top of its line. -/
theorem resolve_of_follows (h : Follows repo put created lines) (eid : TEntityId) :
    ∃ rounds, ∀ rounds' ≥ rounds, resolveEntityState repo eid rounds' = some (lines eid).top := by
  have hline := h.line eid
  have hunconf := EntityRepo.getLastUnconfirmed_eq_none (h.unconfirmed eid)
  cases htop : (lines eid).top with
  | none =>
      refine ⟨0, fun rounds _ => ?_⟩
      have hconf : repo.getLastConfirmed eid = none := by
        rw [EntityRepo.getLastConfirmed, hline.unknown (List.head?_eq_none_iff.mp htop)]
        rfl
      rw [resolveEntityState, hconf, hunconf]
  | some top =>
      obtain ⟨c, hc, hlast, hfirst⟩ := hline.anchored top htop
      have hconf : repo.getLastConfirmed eid = some c := by
        rw [EntityRepo.getLastConfirmed_eq, hlast]
        exact hline.stored c hc
      have hacc := acc_of_ordered h.ordered h.recorded
      cases hpredicted : (lines eid).predicted with
      -- the newest state was predicted, and the links lead from it to the confirmed one
      | true =>
          obtain ⟨newest, below, rest, hstates, hnewest⟩ := hline.newest hpredicted
          obtain rfl : newest = top := by
            rw [Line.top, hstates] at htop
            exact Option.some.inj htop
          have hpath := hline.path
          rw [hstates] at hc hpath
          have hpred : repo.getLastPredicted eid = some newest := by
            rw [EntityRepo.getLastPredicted, hnewest, Option.bind_some, hpath.1]
            exact hline.stored newest (hstates ▸ List.mem_cons_self)
          obtain ⟨rounds, valid, hresolve, hvalid⟩ :=
            resolveEntityState_predicted hconf hpred (hacc _)
          have hleads : LeadsToAnchor repo newest c := by
            rcases List.mem_cons.mp hc with rfl | hc
            · exact Or.inl rfl
            · exact Or.inr (hpath.leadsTo (List.mem_map_of_mem hc))
          rw [hunconf, Option.getD_none] at hresolve hvalid
          rw [hvalid.mpr hleads] at hresolve
          exact ⟨rounds, hresolve⟩
      -- no prediction is valid: the last predicted state is unknown, or leads somewhere else
      | false =>
          obtain rfl := hfirst hpredicted
          have hnone : repo.getLastPredicted eid = none → ∃ rounds, ∀ rounds' ≥ rounds,
              resolveEntityState repo eid rounds' = some (some c) := by
            intro hpred
            refine ⟨0, fun rounds _ => ?_⟩
            rw [resolveEntityState, hconf, hunconf, hpred]
          cases hp : repo.lastPredicted.get eid with
          | none =>
              apply hnone
              rw [EntityRepo.getLastPredicted, hp]
              rfl
          | some p =>
              rcases getLastPredicted_of_stale h hpredicted hp with hpred | ⟨pred, hpred, hstale⟩
              · exact hnone hpred
              · obtain ⟨rounds, valid, hresolve, hvalid⟩ :=
                  resolveEntityState_predicted hconf hpred (hacc _)
                rw [hunconf, Option.getD_none] at hresolve hvalid
                have hfalse : valid = false :=
                  Bool.eq_false_of_not_eq_true fun htrue => hstale c hc (hvalid.mp htrue)
                rw [hfalse] at hresolve
                exact ⟨rounds, hresolve⟩

end Resolve

/-! ## What the operations keep -/

section Operations

variable {repo repo' : EntityRepo TEntity} {eid : TEntityId} {line : Line TEntity}
  {put : List TEntity} {created : List (Entry TStateId)} {lines : TEntityId → Line TEntity}
  {next top state : TEntity}

/-- An operation on another entity. -/
theorem Holds.frame (h : Holds repo eid line)
    (hstate : ∀ x ∈ line.states,
      repo'.state.get (getSelfStateRef x) = repo.state.get (getSelfStateRef x))
    (hlink : ∀ x ∈ line.states,
      repo'.predictionLink.get (getSelfStateRef x) = repo.predictionLink.get (getSelfStateRef x))
    (hconf : repo'.lastConfirmed.get eid = repo.lastConfirmed.get eid)
    (hpred : repo'.lastPredicted.get eid = repo.lastPredicted.get eid)
    (hstale : ∀ p, repo.lastPredicted.get eid = some p →
      (repo.predictionLink.get p = none → repo'.predictionLink.get p = none) ∧
        ∀ b, LeadsTo repo'.predictionLink.get p b → LeadsTo repo.predictionLink.get p b) :
    Holds repo' eid line where
  owner := h.owner
  stored := fun x hx => (hstate x hx).trans (h.stored x hx)
  path := by
    apply h.path.congr
    intro sid hsid
    obtain ⟨x, hx, rfl⟩ := List.mem_map.mp hsid
    exact hlink x hx
  nodup := h.nodup
  unknown := fun hempty => hconf.trans (h.unknown hempty)
  anchored := by
    rw [hconf]
    exact h.anchored
  newest := by
    rw [hpred]
    exact h.newest
  stale := by
    rw [hpred]
    intro hfalse p hp
    obtain ⟨hnone, hleads⟩ := hstale p hp
    refine (h.stale hfalse p hp).imp hnone fun hnot x hx => ?_
    exact ⟨(hnot x hx).1, fun hleads' => (hnot x hx).2 (hleads _ hleads')⟩

theorem Follows.known (h : Follows repo put created lines) {x : TEntity}
    (hx : x ∈ (lines eid).states) : Known put (getSelfStateRef x) :=
  (h.own _ x ((h.line eid).stored x hx)).2

/-- Links are between states that were put. -/
theorem Follows.link_known (h : Follows repo put created lines) {a b : TStateId}
    (hlink : repo.predictionLink.get a = some b) : Known put a ∧ Known put b := by
  obtain ⟨ha, hb⟩ := h.created_known _ (h.recorded a b hlink)
  exact ⟨ha, hb b rfl⟩

/-- States of different lines have different ids. -/
theorem Follows.sid_ne (h : Follows repo put created lines) {eid' : TEntityId} (hne : eid ≠ eid')
    {x y : TEntity} (hx : x ∈ (lines eid).states) (hy : y ∈ (lines eid').states) :
    getSelfStateRef x ≠ getSelfStateRef y := by
  intro heq
  have hsame : x = y := by
    have hget := (h.line eid).stored x hx
    rw [heq, (h.line eid').stored y hy] at hget
    exact (Option.some.inj hget).symm
  rw [← (h.line eid).owner x hx, hsame] at hne
  exact hne ((h.line eid').owner y hy)

variable [DecidableEq TEntityId] [DecidableEq TStateId]

section Predict

variable (h : Follows repo put created lines) (htop : (lines (getSelfRef next)).top = some top)
  (hfresh : ¬ Known put (getSelfStateRef next))

include h htop hfresh

theorem holds_predict : Holds (repo.putPredicted ⟨next, some (getSelfStateRef top)⟩)
    (getSelfRef next) ((lines (getSelfRef next)).predict next) := by
  have hline := h.line (getSelfRef next)
  obtain ⟨rest, hstates⟩ : ∃ rest, (lines (getSelfRef next)).states = top :: rest :=
    List.head?_eq_some_iff.mp htop
  have hne : ∀ x ∈ (lines (getSelfRef next)).states, getSelfStateRef x ≠ getSelfStateRef next :=
    fun x hx heq => hfresh (heq ▸ h.known hx)
  constructor
  case owner => exact List.forall_mem_cons.mpr ⟨rfl, hline.owner⟩
  case stored =>
    refine List.forall_mem_cons.mpr ⟨Store.get_put_self, fun x hx => ?_⟩
    exact (Store.get_put_of_ne (hne x hx)).trans (hline.stored x hx)
  case path =>
    constructor
    · rw [hstates]
      exact Store.get_put_self
    · apply hline.path.congr
      intro sid hsid
      obtain ⟨x, hx, rfl⟩ := List.mem_map.mp hsid
      exact Store.get_put_of_ne (hne x hx)
  case nodup =>
    refine List.nodup_cons.mpr ⟨fun hmem => ?_, hline.nodup⟩
    obtain ⟨x, hx, heq⟩ := List.mem_map.mp hmem
    exact hne x hx heq
  case unknown => exact fun hempty => absurd hempty (List.cons_ne_nil _ _)
  case anchored =>
    intro _ _
    obtain ⟨c, hc, hlast, -⟩ := hline.anchored top htop
    exact ⟨c, List.mem_cons_of_mem _ hc, hlast, fun hfalse => Bool.noConfusion hfalse⟩
  case newest =>
    intro _
    refine ⟨next, top, rest, ?_, Store.get_put_self⟩
    rw [Line.predict, hstates]
  case stale => exact fun hfalse => Bool.noConfusion hfalse

theorem Follows.predict : Follows (repo.putPredicted ⟨next, some (getSelfStateRef top)⟩)
    (next :: put) ((getSelfStateRef next, some (getSelfStateRef top)) :: created)
    (Function.update lines (getSelfRef next) ((lines (getSelfRef next)).predict next)) := by
  have htopKnown : Known put (getSelfStateRef top) := h.known (List.mem_of_mem_head? htop)
  constructor
  case ordered =>
    refine ⟨?_, ?_, h.ordered⟩
    · intro heq
      exact hfresh (Option.some.inj heq ▸ htopKnown)
    · intro entry hentry
      obtain ⟨hknown, hprev⟩ := h.created_known entry hentry
      exact ⟨fun heq => hfresh (heq ▸ hknown), fun heq => hfresh (hprev _ heq)⟩
  case recorded =>
    intro a b hlink
    rcases Store.get_put_eq_some.mp hlink with ⟨rfl, rfl⟩ | ⟨-, hlink⟩
    · exact List.mem_cons_self
    · exact List.mem_cons_of_mem _ (h.recorded a b hlink)
  case created_known =>
    refine List.forall_mem_cons.mpr ⟨⟨known_self, ?_⟩, ?_⟩
    · intro prev heq
      cases heq
      exact htopKnown.cons
    · intro entry hentry
      obtain ⟨hknown, hprev⟩ := h.created_known entry hentry
      exact ⟨hknown.cons, fun prev heq => (hprev prev heq).cons⟩
  case own => exact Store.forall_get_put ⟨rfl, known_self⟩ fun sid x hx =>
      (h.own sid x hx).imp_right Known.cons
  case predicted_known => exact Store.forall_get_put known_self fun eid sid hget =>
      (h.predicted_known eid sid hget).cons
  case unconfirmed => exact h.unconfirmed
  case line =>
    intro eid
    -- the lines of other entities are framed, as no key of theirs is written
    by_cases heid : eid = getSelfRef next
    · subst heid
      rw [Function.update_self]
      exact holds_predict h htop hfresh
    · rw [Function.update_of_ne heid]
      apply (h.line eid).frame
      · exact fun x hx => Store.get_put_of_ne fun heq => hfresh (heq ▸ h.known hx)
      · exact fun x hx => Store.get_put_of_ne fun heq => hfresh (heq ▸ h.known hx)
      · rfl
      · exact Store.get_put_of_ne heid
      · intro p hp
        have hne : p ≠ getSelfStateRef next := fun heq => hfresh (heq ▸ h.predicted_known eid p hp)
        refine ⟨(Store.get_put_of_ne hne).trans, fun b hleads => ?_⟩
        exact hleads.of_isolated (fun c hlink => hfresh (h.link_known hlink).2)
          (fun c hc => Store.get_put_of_ne hc) hne

end Predict

section Invalidate

variable (h : Follows repo put created lines) (htop : (lines eid).top = some top)

include h htop

theorem holds_invalidate :
    Holds (repo.invalidate (getSelfStateRef top) eid) eid (lines eid).invalidate := by
  have hline := h.line eid
  obtain ⟨rest, hstates⟩ : ∃ rest, (lines eid).states = top :: rest :=
    List.head?_eq_some_iff.mp htop
  have hinvalidate : (lines eid).invalidate = ⟨rest, false⟩ := by rw [Line.invalidate, hstates]; rfl
  have hsub : ∀ x ∈ rest, x ∈ (lines eid).states :=
    fun x hx => hstates ▸ List.mem_cons_of_mem _ hx
  have hpath := hline.path
  have hnodup := hline.nodup
  rw [hstates] at hpath hnodup
  obtain ⟨hnotMem, hrest⟩ := List.nodup_cons.mp hnodup
  -- the state below the invalidated one is the last confirmed one now
  have hlast : (repo.invalidate (getSelfStateRef top) eid).lastConfirmed.get eid =
      (rest.map getSelfStateRef).head? := by
    rw [EntityRepo.lastConfirmed_invalidate, if_pos rfl]
    exact hpath.1
  rw [hinvalidate]
  constructor
  case owner => exact fun x hx => hline.owner x (hsub x hx)
  case stored => exact fun x hx => hline.stored x (hsub x hx)
  case path =>
    apply hpath.2.congr
    intro sid hsid
    exact Store.get_delete_of_ne fun heq => hnotMem (heq ▸ hsid)
  case nodup => exact hrest
  case unknown =>
    rintro rfl
    exact hlast
  case anchored =>
    intro c hc
    obtain ⟨below, hbelow⟩ := List.head?_eq_some_iff.mp hc
    dsimp only at hbelow
    subst hbelow
    exact ⟨c, List.mem_cons_self, hlast, fun _ => rfl⟩
  case newest => exact fun htrue => Bool.noConfusion htrue
  case stale =>
    intro _ p hp
    cases hpredicted : (lines eid).predicted with
    -- the predicted state is the invalidated one, so that its link is deleted
    | true =>
        left
        obtain ⟨newest, below, rest', hstates', hnewest⟩ := hline.newest hpredicted
        have htops : newest = top := by
          rw [hstates] at hstates'
          exact (List.cons.inj hstates').1.symm
        have hp : repo.lastPredicted.get eid = some p := hp
        cases hnewest.symm.trans hp
        rw [htops]
        exact Store.get_delete_self
    | false =>
        refine (hline.stale hpredicted p hp).imp (fun hnone => ?_) fun hnot x hx => ?_
        · show (repo.predictionLink.delete (getSelfStateRef top)).get p = none
          rw [Store.get_delete, hnone, ite_self]
        · obtain ⟨hne, hleads⟩ := hnot x (hsub x hx)
          exact ⟨hne, fun hleads' => hleads (hleads'.mono fun _ _ hlink =>
            (Store.get_delete_eq_some.mp hlink).2)⟩

theorem Follows.invalidate : Follows (repo.invalidate (getSelfStateRef top) eid) put created
    (Function.update lines eid (lines eid).invalidate) where
  ordered := h.ordered
  recorded := fun a b hlink => h.recorded a b (Store.get_delete_eq_some.mp hlink).2
  created_known := h.created_known
  own := h.own
  predicted_known := h.predicted_known
  unconfirmed := by
    intro eid'
    show (repo.lastUnconfirmed.delete eid).get eid' = none
    rw [Store.get_delete, h.unconfirmed, ite_self]
  line := by
    intro eid'
    by_cases heid : eid' = eid
    · subst heid
      rw [Function.update_self]
      exact holds_invalidate h htop
    · rw [Function.update_of_ne heid]
      apply (h.line eid').frame
      · exact fun _ _ => rfl
      · intro x hx
        exact Store.get_delete_of_ne (h.sid_ne heid hx (List.mem_of_mem_head? htop))
      · rw [EntityRepo.lastConfirmed_invalidate, if_neg heid]
      · rfl
      · intro p _
        constructor
        · intro hnone
          show (repo.predictionLink.delete (getSelfStateRef top)).get p = none
          rw [Store.get_delete, hnone, ite_self]
        · exact fun b hleads => hleads.mono fun _ _ hlink => (Store.get_delete_eq_some.mp hlink).2

end Invalidate

/-! ### Confirmations -/

omit [DecidableEq TEntityId] in
/-- The line down to a state on it starts with this state. -/
theorem downTo_of_mem (hnodup : (line.states.map getSelfStateRef).Nodup)
    (hmem : state ∈ line.states) :
    ∃ rest, line.downTo state = state :: rest ∧ state :: rest <:+ line.states := by
  obtain ⟨states, predicted⟩ := line
  rw [Line.downTo]
  dsimp only at hnodup hmem ⊢
  induction states with
  | nil => cases hmem
  | cons x states ih =>
      by_cases heq : getSelfStateRef x = getSelfStateRef state
      · obtain rfl : x = state := List.inj_on_of_nodup_map hnodup List.mem_cons_self hmem heq
        exact ⟨states, List.dropWhile_cons_of_neg (by simp), List.suffix_refl _⟩
      · have hrest : state ∈ states :=
          (List.mem_cons.mp hmem).resolve_left fun hself => heq (hself ▸ rfl)
        obtain ⟨rest, hdown, hsuffix⟩ := ih (List.nodup_cons.mp hnodup).2 hrest
        rw [List.dropWhile_cons_of_pos (by simpa using heq)]
        exact ⟨rest, hdown, hsuffix.trans (List.suffix_cons _ _)⟩

omit [DecidableEq TEntityId] in
theorem downTo_of_forall_ne (h : ∀ x ∈ line.states, getSelfStateRef x ≠ getSelfStateRef state) :
    line.downTo state = [] := by
  rw [Line.downTo, List.dropWhile_eq_nil_iff]
  exact fun x hx => decide_eq_true (h x hx)

section Confirm

variable (h : Follows repo put created lines)

include h

omit [DecidableEq TEntityId] in
/-- A state that is on its line already is put again, and no other one is overwritten. -/
theorem Follows.get_put (hstate : state ∈ (lines (getSelfRef state)).states ∨
    ¬ Known put (getSelfStateRef state)) {x : TEntity} (hx : x ∈ (lines eid).states) :
    (repo.state.put (getSelfStateRef state) state).get (getSelfStateRef x) =
      repo.state.get (getSelfStateRef x) := by
  by_cases heq : getSelfStateRef x = getSelfStateRef state
  · rcases hstate with hmem | hfresh
    · rw [heq, Store.get_put_self, (h.line _).stored state hmem]
    · exact absurd (heq ▸ h.known hx) hfresh
  · exact Store.get_put_of_ne heq

theorem holds_confirm_of_mem (hmem : state ∈ (lines (getSelfRef state)).states) :
    Holds (repo.putConfirmed state) (getSelfRef state)
      ((lines (getSelfRef state)).confirm state) := by
  have hline := h.line (getSelfRef state)
  obtain ⟨rest, hdown, hsuffix⟩ := downTo_of_mem hline.nodup hmem
  have hstored : ∀ x ∈ (lines (getSelfRef state)).states,
      (repo.putConfirmed state).state.get (getSelfStateRef x) = some x :=
    fun x hx => (h.get_put (.inl hmem) hx).trans (hline.stored x hx)
  rw [Line.confirm, if_neg (by simp [hdown])]
  cases hpredicted : (lines (getSelfRef state)).predicted with
  -- A predicted line keeps its states: the confirmed one becomes the anchor of the predictions.
  | true =>
      rw [if_pos rfl]
      constructor
      case owner => exact hline.owner
      case stored => exact hstored
      case path => exact hline.path
      case nodup => exact hline.nodup
      case unknown => exact fun hempty => absurd hmem (hempty ▸ List.not_mem_nil)
      case anchored =>
        intro _ _
        refine ⟨state, hmem, Store.get_put_self, fun hfalse => ?_⟩
        rw [hpredicted] at hfalse
        cases hfalse
      case newest => exact hline.newest
      case stale => exact hline.stale
  -- A line without predictions is cut down to the confirmed state and what lies below it.
  | false =>
      rw [if_neg Bool.false_ne_true, hdown]
      constructor
      case owner => exact fun x hx => hline.owner x (hsuffix.subset hx)
      case stored => exact fun x hx => hstored x (hsuffix.subset hx)
      case path => exact hline.path.suffix (hsuffix.map _)
      case nodup => exact hline.nodup.sublist (hsuffix.map _).sublist
      case unknown => exact fun hempty => absurd hempty (List.cons_ne_nil _ _)
      case anchored =>
        rintro _ ⟨⟩
        exact ⟨state, List.mem_cons_self, Store.get_put_self, fun _ => rfl⟩
      case newest => exact fun htrue => Bool.noConfusion htrue
      case stale =>
        intro _ p hp
        exact (hline.stale hpredicted p hp).imp_right fun hnot x hx => hnot x (hsuffix.subset hx)

theorem holds_confirm_of_fresh (hfresh : ¬ Known put (getSelfStateRef state)) :
    Holds (repo.putConfirmed state) (getSelfRef state)
      ((lines (getSelfRef state)).confirm state) := by
  have hdown : (lines (getSelfRef state)).downTo state = [] :=
    downTo_of_forall_ne fun x hx heq => hfresh (heq ▸ h.known hx)
  rw [Line.confirm, if_pos (by simp [hdown])]
  constructor
  case owner => exact fun x hx => by rw [List.mem_singleton.mp hx]
  case stored =>
    intro x hx
    rw [List.mem_singleton.mp hx]
    exact Store.get_put_self
  case path =>
    refine ⟨?_, trivial⟩
    by_contra hlink
    obtain ⟨b, hlink⟩ := Option.ne_none_iff_exists'.mp hlink
    exact hfresh (h.link_known hlink).1
  case nodup => exact List.nodup_singleton _
  case unknown => exact fun hempty => absurd hempty (List.cons_ne_nil _ _)
  case anchored =>
    rintro _ ⟨⟩
    exact ⟨state, List.mem_cons_self, Store.get_put_self, fun _ => rfl⟩
  case newest => exact fun htrue => Bool.noConfusion htrue
  case stale =>
    intro _ p hp
    right
    intro x hx
    rw [List.mem_singleton.mp hx]
    constructor
    · exact fun heq => hfresh (heq ▸ h.predicted_known _ p hp)
    · intro hleads
      obtain ⟨c, hlink⟩ := hleads.exists_link
      exact hfresh (h.link_known hlink).2

theorem Follows.confirm (hstate : state ∈ (lines (getSelfRef state)).states ∨
    ¬ Known put (getSelfStateRef state)) :
    Follows (repo.putConfirmed state) (state :: put) created
      (Function.update lines (getSelfRef state) ((lines (getSelfRef state)).confirm state)) where
  ordered := h.ordered
  recorded := h.recorded
  created_known := by
    intro entry hentry
    obtain ⟨hknown, hprev⟩ := h.created_known entry hentry
    exact ⟨hknown.cons, fun prev heq => (hprev prev heq).cons⟩
  own := Store.forall_get_put ⟨rfl, known_self⟩ fun sid x hx =>
    (h.own sid x hx).imp_right Known.cons
  predicted_known := fun eid sid hget => (h.predicted_known eid sid hget).cons
  unconfirmed := h.unconfirmed
  line := by
    intro eid
    by_cases heid : eid = getSelfRef state
    · subst heid
      rw [Function.update_self]
      exact hstate.elim (holds_confirm_of_mem h) (holds_confirm_of_fresh h)
    · rw [Function.update_of_ne heid]
      apply (h.line eid).frame
      · exact fun x hx => h.get_put hstate hx
      · exact fun _ _ => rfl
      · exact Store.get_put_of_ne heid
      · rfl
      · exact fun _ _ => ⟨id, fun _ => id⟩

end Confirm

omit [DecidableEq TEntityId] [DecidableEq TStateId] in
theorem follows_empty :
    Follows (EntityRepo.empty : EntityRepo TEntity) [] [] fun _ => Line.empty where
  ordered := trivial
  recorded := fun _ _ hlink => nomatch hlink
  created_known := fun _ hentry => nomatch hentry
  own := fun _ _ hget => nomatch hget
  predicted_known := fun _ _ hget => nomatch hget
  unconfirmed := fun _ => rfl
  line := fun _ =>
    { owner := fun _ hx => nomatch hx
      stored := fun _ hx => nomatch hx
      path := trivial
      nodup := List.nodup_nil
      unknown := fun _ => rfl
      anchored := fun _ htop => nomatch htop
      newest := fun htrue => nomatch htrue
      stale := fun _ _ hp => nomatch hp }

end Operations

end SpectrumOffchain.Resolver
