import Mathlib.Data.List.Chain
import SpectrumOffchain.Backlog.Queues
import SpectrumOffchain.Execution.RunOrder
import SpectrumOffchain.Resolver.Lines

/-!
# The generic executor

`OrderExecutor` of `spectrum-offchain` executes orders of any kind, each of which is for one
entity.  It takes an order from the backlog and resolves the entity, runs the order, submits
the transaction, and records the next state of the entity; when the transaction is
rejected it invalidates the state that the transaction was made from and gives the order
back.

Other parties use the repository and the backlog at the same time.  They may do so between
`takeOrder`, the part of `try_execute_next` up to the resolution of the entity, and
`complete`, the rest of it.  As long as an entity stands where it was resolved when an order
is completed, every entity is resolved to the top of its line: the state that the last
accepted transaction has created, or the one below it if a transaction was rejected
(`top_of_run`).

An order that is taken leaves its queue.  It is given back, removed or submitted, or nothing
was known of its entity; in the last two cases it stays in the store and in no queue
(`accounted_of_run`).

## Strategy

* What a completed order does is divided by its outcome (`Completion`): the transaction was
  accepted, it was rejected, or the run failed.  `complete_of_accepted`,
  `complete_of_rejected` and `complete_of_failed` say what this leaves of the executor.
* `Serving` is the executor with the records that the results speak of: the lines of the
  entities, the accepted transactions, and the orders that were submitted or dropped.  No
  step looks at a record.
* For the entities `Recorded` is the invariant.  It is the invariant of the repository
  together with the chain of accepted transactions, and each outcome is one of the three
  operations on a line.
* For the orders the invariant is that the backlog is `Covered` by those that are `away`.
-/

namespace SpectrumOffchain.Executor.Generic

open Backlog Resolver Transition

/-- The entity that an order is for, `get_entity_ref`. -/
class EntityOrder (TOrd : Type) (TEntityId : outParam Type) where
  getEntityRef : TOrd → TEntityId

export EntityOrder (getEntityRef)

/-- `trait RunOrder`. -/
class RunOrder (TOrd TEntity TCtx : Type) where
  tryRun : TOrd → TEntity → TCtx → Except (RunOrderError TOrd) (TransactionCandidate × TEntity)

export RunOrder (tryRun)

variable {TOrd TOrderId TEntity TEntityId TStateId TCtx : Type} [OnChainOrder TOrd TOrderId]
  [Weighted TOrd] [DecidableEq TOrderId] [OnChainEntity TEntity TEntityId TStateId]
  [DecidableEq TEntityId] [DecidableEq TStateId] [EntityOrder TOrd TEntityId]
  [RunOrder TOrd TEntity TCtx]

/-! ## Executing an order -/

structure OrderExecutor (TOrd TEntity : Type) {TOrderId TEntityId TStateId : Type}
    [OnChainOrder TOrd TOrderId] [OnChainEntity TEntity TEntityId TStateId] where
  backlog : BacklogService TOrd
  entityRepo : EntityRepo TEntity

namespace OrderExecutor

/-- The first part of `try_execute_next`, which is answered if the entity is resolved in so many
rounds. -/
def takeOrder (s : OrderExecutor TOrd TEntity) (env : BacklogService.PopEnv) (rounds : ℕ) :
    Option (OrderExecutor TOrd TEntity × Option (TOrd × TEntity)) :=
  match s.backlog.tryPop env with
  | (backlog, none) => some ({ s with backlog }, none)
  | (backlog, some ord) =>
      (resolveEntityState s.entityRepo (getEntityRef ord) rounds).map fun
        | some entity => ({ s with backlog }, some (ord, entity))
        | none => ({ s with backlog }, none)

/-- The second part of `try_execute_next`; `submitTx` is the error of the node, if it rejects
the transaction. -/
def complete (s : OrderExecutor TOrd TEntity) (ctx : TCtx)
    (submitTx : TransactionCandidate → Option String) (ord : TOrd) (entity : TEntity) :
    OrderExecutor TOrd TEntity :=
  match tryRun ord entity ctx with
  | .ok (tx, nextEntityState) =>
      match submitTx tx with
      | some _ =>
          { entityRepo := s.entityRepo.invalidate (getSelfStateRef entity)
              (OnChainEntity.getSelfRef entity)
            -- Return order to backlog
            backlog := s.backlog.recharge ord }
      | none =>
          { s with entityRepo :=
              s.entityRepo.putPredicted ⟨nextEntityState, some (getSelfStateRef entity)⟩ }
  | .error (.nonFatal _ ord) => { s with backlog := (s.backlog.suspend ord).1 }
  | .error (.fatal _ ord) => { s with backlog := s.backlog.remove (OnChainOrder.getSelfRef ord) }

/-- `try_execute_next`, when nobody comes between. -/
def tryExecuteNext (s : OrderExecutor TOrd TEntity) (env : BacklogService.PopEnv) (rounds : ℕ)
    (ctx : TCtx) (submitTx : TransactionCandidate → Option String) :
    Option (OrderExecutor TOrd TEntity × Except Unit Unit) :=
  (s.takeOrder env rounds).map fun
    | (s, some (ord, entity)) => (s.complete ctx submitTx ord entity, .ok ())
    | (s, none) => (s, .error ())

end OrderExecutor

/-- What becomes of an order that is completed. -/
inductive Completion (TEntity : Type) where
  | accepted (next : TEntity)
  | rejected
  | failed

/-- The completion of an order, by the answers of `try_run` and of the node. -/
def completion (ctx : TCtx) (submitTx : TransactionCandidate → Option String) (ord : TOrd)
    (entity : TEntity) : Completion TEntity :=
  match tryRun ord entity ctx with
  | .ok (tx, next) =>
      match submitTx tx with
      | some _ => .rejected
      | none => .accepted next
  | .error _ => .failed

namespace OrderExecutor

variable (s : OrderExecutor TOrd TEntity) {ctx : TCtx}
  {submitTx : TransactionCandidate → Option String} {ord : TOrd} {entity next : TEntity}

omit [EntityOrder TOrd TEntityId] in
theorem complete_of_accepted (h : completion ctx submitTx ord entity = .accepted next) :
    s.complete ctx submitTx ord entity =
      { s with entityRepo := s.entityRepo.putPredicted ⟨next, some (getSelfStateRef entity)⟩ } := by
  unfold completion at h
  unfold complete
  split at h
  · next tx made hrun =>
      rw [hrun]
      dsimp only
      split at h
      · cases h
      · cases h
        rfl
  · cases h

omit [EntityOrder TOrd TEntityId] in
theorem complete_of_rejected (h : completion ctx submitTx ord entity = .rejected) :
    s.complete ctx submitTx ord entity =
      { entityRepo := s.entityRepo.invalidate (getSelfStateRef entity)
          (OnChainEntity.getSelfRef entity)
        backlog := s.backlog.recharge ord } := by
  unfold completion at h
  unfold complete
  split at h
  · next tx made hrun =>
      rw [hrun]
      dsimp only
      split at h
      · rfl
      · cases h
  · cases h

omit [EntityOrder TOrd TEntityId] in
theorem complete_of_failed (h : completion ctx submitTx ord entity = .failed) :
    ∃ e, tryRun ord entity ctx = .error e ∧
      (s.complete ctx submitTx ord entity).entityRepo = s.entityRepo ∧
      ((s.complete ctx submitTx ord entity).backlog = (s.backlog.suspend e.order).1 ∨
        (s.complete ctx submitTx ord entity).backlog =
          s.backlog.remove (OnChainOrder.getSelfRef e.order)) := by
  unfold completion at h
  unfold complete
  split at h
  · split at h <;> cases h
  · next e hrun =>
      refine ⟨e, hrun, ?_⟩
      rw [hrun]
      cases e with
      | fatal message ord => exact ⟨rfl, Or.inr rfl⟩
      | nonFatal message ord => exact ⟨rfl, Or.inl rfl⟩

variable {s} {s' : OrderExecutor TOrd TEntity} {inHand : Option (TOrd × TEntity)}
  {env : BacklogService.PopEnv} {rounds : ℕ}

omit [DecidableEq TEntityId] in
theorem takeOrder_eq_some (h : s.takeOrder env rounds = some (s', inHand)) :
    s' = { s with backlog := (s.backlog.tryPop env).1 } ∧
      ∀ ord entity, inHand = some (ord, entity) → (s.backlog.tryPop env).2 = some ord := by
  unfold takeOrder at h
  cases hpop : s.backlog.tryPop env with
  | mk backlog popped =>
      rw [hpop] at h
      cases popped with
      | none =>
          cases h
          exact ⟨rfl, fun _ _ hhand => nomatch hhand⟩
      | some ord =>
          obtain ⟨res, -, heq⟩ := Option.map_eq_some_iff.mp h
          cases res with
          | none =>
              cases heq
              exact ⟨rfl, fun _ _ hhand => nomatch hhand⟩
          | some entity =>
              cases heq
              refine ⟨rfl, fun _ _ hhand => ?_⟩
              cases hhand
              rfl

omit [DecidableEq TEntityId] in
/-- The entity of the order is resolved in time. -/
theorem takeOrder_of_resolved (tops : TEntityId → Option TEntity)
    (h : ∀ ord, (s.backlog.tryPop env).2 = some ord →
      resolveEntityState s.entityRepo (getEntityRef ord) rounds = some (tops (getEntityRef ord))) :
    s.takeOrder env rounds = some ({ s with backlog := (s.backlog.tryPop env).1 },
      (s.backlog.tryPop env).2.bind fun ord =>
        (tops (getEntityRef ord)).map fun entity => (ord, entity)) := by
  unfold takeOrder
  cases hpop : s.backlog.tryPop env with
  | mk backlog popped =>
      rw [hpop] at h
      cases popped with
      | none => rfl
      | some ord =>
          dsimp only
          rw [h ord rfl, Option.map_some, Option.bind_some]
          cases tops (getEntityRef ord) <;> rfl

end OrderExecutor

/-! ## Runs -/

/-- The executor, with the order it works on.  Besides: the states that were put, the lines of the
entities, the steps from state to state that the node has accepted, the orders that were
accepted, and those that were taken while nothing was known of their entity. -/
structure Serving (TOrd TEntity : Type) {TOrderId TEntityId TStateId : Type}
    [OnChainOrder TOrd TOrderId] [OnChainEntity TEntity TEntityId TStateId] where
  executor : OrderExecutor TOrd TEntity
  inHand : Option (TOrd × TEntity)
  put : List TEntity
  lines : TEntityId → Line TEntity
  accepted : List (TEntity × TEntity)
  submitted : List TOrderId
  dropped : List TOrderId

inductive Event (TOrd TOrderId TEntity TCtx : Type) where
  | take (env : BacklogService.PopEnv)
  | complete (ctx : TCtx) (submitTx : TransactionCandidate → Option String)
  /-- The ledger confirms a state. -/
  | confirm (state : TEntity)
  /-- Another party uses the backlog; only the executor takes orders from it. -/
  | backlog (call : BacklogCall TOrd TOrderId)

namespace Serving

def start (backlog : BacklogService TOrd) : Serving TOrd TEntity :=
  ⟨⟨backlog, .empty⟩, none, [], fun _ => .empty, [], [], []⟩

/-- The order in hand is run, with what this does to the records. -/
def completed (s : Serving TOrd TEntity) (ctx : TCtx)
    (submitTx : TransactionCandidate → Option String) (ord : TOrd) (entity : TEntity) :
    Serving TOrd TEntity :=
  let executor := s.executor.complete ctx submitTx ord entity
  let eid := OnChainEntity.getSelfRef entity
  match completion ctx submitTx ord entity with
  | .accepted next =>
      { s with
        executor
        inHand := none
        put := next :: s.put
        lines := Function.update s.lines eid ((s.lines eid).predict next)
        accepted := (entity, next) :: s.accepted
        submitted := OnChainOrder.getSelfRef ord :: s.submitted }
  | .rejected =>
      { s with
        executor
        inHand := none
        lines := Function.update s.lines eid (s.lines eid).invalidate }
  | .failed => { s with executor, inHand := none }

def confirmed (s : Serving TOrd TEntity) (state : TEntity) : Serving TOrd TEntity :=
  let eid := OnChainEntity.getSelfRef state
  { s with
    executor := { s.executor with entityRepo := s.executor.entityRepo.putConfirmed state }
    put := state :: s.put
    lines := Function.update s.lines eid ((s.lines eid).confirm state) }

def Step (s : Serving TOrd TEntity) :
    Event TOrd TOrderId TEntity TCtx → Serving TOrd TEntity → Prop
  | .take env, s' => s.inHand = none ∧ ∃ rounds executor inHand,
      s.executor.takeOrder env rounds = some (executor, inHand) ∧
      s' = { s with
        executor
        inHand
        dropped := if inHand.isSome then s.dropped
          else ((s.executor.backlog.tryPop env).2.map OnChainOrder.getSelfRef).toList ++ s.dropped }
  | .complete ctx submitTx, s' => ∃ ord entity, s.inHand = some (ord, entity) ∧
      s' = s.completed ctx submitTx ord entity
  | .confirm state, s' => s' = s.confirmed state
  | .backlog call, s' => (∀ env, call ≠ .tryPop env) ∧
      s' = { s with executor := { s.executor with backlog := (call.exec s.executor.backlog).1 } }

/-- A transaction creates a new state of the same entity, which stands where it was resolved when
the order is completed.  The ledger confirms states that are on the line of their entity, or
new ones. -/
def Admissible (s : Serving TOrd TEntity) : Event TOrd TOrderId TEntity TCtx → Prop
  | .take _ => True
  | .complete ctx submitTx => ∀ ord entity, s.inHand = some (ord, entity) →
      (s.lines (OnChainEntity.getSelfRef entity)).top = some entity ∧
      ∀ next, completion ctx submitTx ord entity = .accepted next →
        OnChainEntity.getSelfRef next = OnChainEntity.getSelfRef entity ∧
          ¬ Known s.put (getSelfStateRef next)
  | .confirm state => state ∈ (s.lines (OnChainEntity.getSelfRef state)).states ∨
      ¬ Known s.put (getSelfStateRef state)
  | .backlog _ => True

variable {s s' : Serving TOrd TEntity}

omit [EntityOrder TOrd TEntityId] in
theorem completed_executor (ctx : TCtx) (submitTx : TransactionCandidate → Option String)
    (ord : TOrd) (entity : TEntity) :
    (s.completed ctx submitTx ord entity).executor =
        s.executor.complete ctx submitTx ord entity ∧
      (s.completed ctx submitTx ord entity).inHand = none := by
  unfold completed
  cases completion ctx submitTx ord entity <;> exact ⟨rfl, rfl⟩

/-- A call of `try_execute_next` that nobody comes between takes an order, and completes it if the
entity was resolved. -/
theorem run_tryExecuteNext (hidle : s.inHand = none) {env : BacklogService.PopEnv} {rounds : ℕ}
    {ctx : TCtx} {submitTx : TransactionCandidate → Option String}
    {executor : OrderExecutor TOrd TEntity} {res : Except Unit Unit}
    (h : s.executor.tryExecuteNext env rounds ctx submitTx = some (executor, res)) :
    ∃ t : Serving TOrd TEntity, t.executor = executor ∧ t.inHand = none ∧
      (res = .error () ∧ Run Step s [(.take env : Event TOrd TOrderId TEntity TCtx)] t ∨
        res = .ok () ∧ Run Step s [.take env, .complete ctx submitTx] t) := by
  obtain ⟨⟨taken, inHand⟩, htake, hres⟩ := Option.map_eq_some_iff.mp h
  have hstep : Step s (.take env : Event TOrd TOrderId TEntity TCtx) _ :=
    ⟨hidle, rounds, taken, inHand, htake, rfl⟩
  cases inHand with
  | none =>
      cases hres
      exact ⟨_, rfl, rfl, .inl ⟨rfl, .single hstep⟩⟩
  | some held =>
      obtain ⟨ord, entity⟩ := held
      cases hres
      obtain ⟨hexecutor, hnone⟩ := completed_executor ctx submitTx ord entity
      exact ⟨_, hexecutor, hnone, .inr ⟨rfl, .cons hstep (.single ⟨ord, entity, rfl, rfl⟩)⟩⟩

/-! ### The entities -/

/-- The repository has recorded the lines, and the states of a line come one from the other. -/
structure Recorded (s : Serving TOrd TEntity) : Prop where
  follows : ∃ created, Follows s.executor.entityRepo s.put created s.lines
  chain : ∀ eid, (s.lines eid).states.IsChain fun next entity => (entity, next) ∈ s.accepted

theorem isChain_update {lines : TEntityId → Line TEntity} {accepted : List (TEntity × TEntity)}
    (h : ∀ eid, (lines eid).states.IsChain fun next entity => (entity, next) ∈ accepted)
    {eid : TEntityId} {line : Line TEntity}
    (hline : line.states.IsChain fun next entity => (entity, next) ∈ accepted) :
    ∀ eid', (Function.update lines eid line eid').states.IsChain
      fun next entity => (entity, next) ∈ accepted := by
  intro eid'
  by_cases heid : eid' = eid
  · subst heid
    rw [Function.update_self]
    exact hline
  · rw [Function.update_of_ne heid]
    exact h eid'

omit [EntityOrder TOrd TEntityId] in
theorem Recorded.completed (h : s.Recorded) {ctx : TCtx}
    {submitTx : TransactionCandidate → Option String} {ord : TOrd} {entity : TEntity}
    (htop : (s.lines (OnChainEntity.getSelfRef entity)).top = some entity)
    (hnext : ∀ next, completion ctx submitTx ord entity = .accepted next →
      OnChainEntity.getSelfRef next = OnChainEntity.getSelfRef entity ∧
        ¬ Known s.put (getSelfStateRef next)) :
    (s.completed ctx submitTx ord entity).Recorded := by
  obtain ⟨⟨created, hfollows⟩, hchain⟩ := h
  obtain ⟨rest, hstates⟩ : ∃ rest,
      (s.lines (OnChainEntity.getSelfRef entity)).states = entity :: rest :=
    List.head?_eq_some_iff.mp htop
  have hown := hchain (OnChainEntity.getSelfRef entity)
  unfold Serving.completed
  cases hcompletion : completion ctx submitTx ord entity with
  -- The new state is put on its line, and the pair just recorded links it to the one below.
  | accepted next =>
      obtain ⟨heid, hfresh⟩ := hnext next hcompletion
      have hmore : ∀ eid, (s.lines eid).states.IsChain
          fun x y => (y, x) ∈ (entity, next) :: s.accepted :=
        fun eid => (hchain eid).imp fun _ _ hmem => List.mem_cons_of_mem _ hmem
      refine ⟨?_, isChain_update hmore ?_⟩
      · dsimp only
        rw [OrderExecutor.complete_of_accepted _ hcompletion]
        rw [← heid] at htop ⊢
        exact ⟨_, hfollows.predict htop hfresh⟩
      · have hbelow := hmore (OnChainEntity.getSelfRef entity)
        rw [Line.predict, hstates] at *
        exact List.isChain_cons_cons.mpr ⟨List.mem_cons_self, hbelow⟩
  -- The state is taken off its line; the links of the states below are still recorded.
  | rejected =>
      refine ⟨?_, isChain_update hchain ?_⟩
      · dsimp only
        rw [OrderExecutor.complete_of_rejected _ hcompletion]
        exact ⟨_, hfollows.invalidate htop⟩
      · exact hown.tail
  -- Nothing is written to the repository, hence the lines stay.
  | failed =>
      refine ⟨⟨created, ?_⟩, hchain⟩
      obtain ⟨-, -, hrepo, -⟩ := OrderExecutor.complete_of_failed s.executor hcompletion
      dsimp only
      rw [hrepo]
      exact hfollows

theorem Recorded.step (h : s.Recorded) {event : Event TOrd TOrderId TEntity TCtx}
    (hstep : restrict Step Admissible s event s') : s'.Recorded := by
  obtain ⟨hstep, hadmissible⟩ := hstep
  cases event with
  | take env =>
      obtain ⟨-, rounds, executor, inHand, htake, rfl⟩ := hstep
      obtain ⟨⟨created, hfollows⟩, hchain⟩ := h
      refine ⟨⟨created, ?_⟩, hchain⟩
      dsimp only
      rw [(OrderExecutor.takeOrder_eq_some htake).1]
      exact hfollows
  | complete ctx submitTx =>
      obtain ⟨ord, entity, hhand, rfl⟩ := hstep
      obtain ⟨htop, hnext⟩ := hadmissible ord entity hhand
      exact h.completed htop hnext
  | confirm state =>
      obtain rfl := hstep
      obtain ⟨⟨created, hfollows⟩, hchain⟩ := h
      refine ⟨⟨created, hfollows.confirm hadmissible⟩, isChain_update hchain ?_⟩
      have hdown : (s.lines (OnChainEntity.getSelfRef state)).downTo state <:+
          (s.lines (OnChainEntity.getSelfRef state)).states := List.dropWhile_suffix _
      rw [Line.confirm]
      split_ifs
      · exact .singleton _
      · exact hchain _
      · exact (hchain _).suffix hdown
  | backlog call =>
      obtain ⟨-, rfl⟩ := hstep
      exact ⟨h.follows, h.chain⟩

/-- Between any two accesses of the other parties, every entity is resolved to the top of its line,
which is where an order that is taken next is executed; each state of a line but the last is what
an accepted transaction has made of the state below. -/
theorem top_of_run {backlog : BacklogService TOrd}
    {events : List (Event TOrd TOrderId TEntity TCtx)}
    (hrun : Run (restrict Step Admissible) (start backlog) events s) :
    (∀ eid, ∃ rounds, ∀ rounds' ≥ rounds,
      resolveEntityState s.executor.entityRepo eid rounds' = some (s.lines eid).top) ∧
    (∀ eid, (s.lines eid).states.IsChain fun next entity => (entity, next) ∈ s.accepted) ∧
    ∀ env, ∃ rounds, ∀ rounds' ≥ rounds, s.executor.takeOrder env rounds' =
      some ({ s.executor with backlog := (s.executor.backlog.tryPop env).1 },
        (s.executor.backlog.tryPop env).2.bind fun ord =>
          (s.lines (getEntityRef ord)).top.map fun entity => (ord, entity)) := by
  have hrecorded : s.Recorded := by
    refine Run.invariant (fun _ _ _ h hstep => h.step hstep) hrun ⟨⟨[], follows_empty⟩, ?_⟩
    exact fun _ => .nil
  obtain ⟨created, hfollows⟩ := hrecorded.follows
  refine ⟨resolve_of_follows hfollows, hrecorded.chain, fun env => ?_⟩
  obtain ⟨rounds, hresolve⟩ : ∃ rounds, ∀ rounds' ≥ rounds, ∀ ord,
      (s.executor.backlog.tryPop env).2 = some ord →
      resolveEntityState s.executor.entityRepo (getEntityRef ord) rounds' =
        some (s.lines (getEntityRef ord)).top := by
    cases (s.executor.backlog.tryPop env).2 with
    | none => exact ⟨0, fun _ _ _ hord => nomatch hord⟩
    | some ord =>
        obtain ⟨rounds, hresolve⟩ := resolve_of_follows hfollows (getEntityRef ord)
        refine ⟨rounds, fun rounds' hle _ hord => ?_⟩
        cases hord
        exact hresolve rounds' hle
  exact ⟨rounds, fun rounds' hle =>
    OrderExecutor.takeOrder_of_resolved (fun eid => (s.lines eid).top) (hresolve rounds' hle)⟩

/-! ### The orders -/

/-- The orders that have left the queues and were not given back. -/
def away (s : Serving TOrd TEntity) : List TOrderId :=
  (s.inHand.map fun held => OnChainOrder.getSelfRef held.1).toList ++ (s.submitted ++ s.dropped)

omit [Weighted TOrd] [DecidableEq TOrderId] in
theorem covered_mono {backlog : BacklogService TOrd} {inFlight inFlight' : List TOrderId}
    (h : backlog.Covered inFlight) (hsubset : inFlight ⊆ inFlight') : backlog.Covered inFlight' :=
  fun id hstored => (h id hstored).imp_right (hsubset ·)

omit [DecidableEq TEntityId] in
theorem covered_take (h : s.executor.backlog.Covered s.away) (hidle : s.inHand = none)
    {env : BacklogService.PopEnv} {rounds : ℕ} {executor : OrderExecutor TOrd TEntity}
    {inHand : Option (TOrd × TEntity)}
    (htake : s.executor.takeOrder env rounds = some (executor, inHand)) :
    executor.backlog.Covered ((inHand.map fun held => OnChainOrder.getSelfRef held.1).toList ++
      (s.submitted ++ if inHand.isSome then s.dropped
        else ((s.executor.backlog.tryPop env).2.map OnChainOrder.getSelfRef).toList ++
          s.dropped)) := by
  obtain ⟨rfl, hpop⟩ := OrderExecutor.takeOrder_eq_some htake
  have hcovered := BacklogService.covered_tryPop h env
  rw [away, hidle] at hcovered
  cases inHand with
  | none =>
      apply covered_mono hcovered
      simp
  | some held =>
      rw [hpop held.1 held.2 rfl] at hcovered
      exact hcovered

omit [Weighted TOrd] [DecidableEq TEntityId] [DecidableEq TStateId] [EntityOrder TOrd TEntityId] in
/-- The order in hand is given back or has left the store. -/
theorem covered_back {backlog : BacklogService TOrd} {ord : TOrd} {entity : TEntity}
    (hhand : s.inHand = some (ord, entity))
    (h : backlog.Covered (s.away.filter (· ≠ OnChainOrder.getSelfRef ord))) :
    backlog.Covered (s.submitted ++ s.dropped) := by
  apply covered_mono h
  intro id hid
  obtain ⟨hid, hne⟩ := List.mem_filter.mp hid
  rw [away, hhand] at hid
  exact (List.mem_cons.mp hid).resolve_left (of_decide_eq_true hne)

omit [EntityOrder TOrd TEntityId] in
theorem covered_completed (hsame : ∀ (ord : TOrd) (entity : TEntity) (ctx : TCtx) e,
    tryRun ord entity ctx = .error e →
      OnChainOrder.getSelfRef e.order = OnChainOrder.getSelfRef ord)
    (h : s.executor.backlog.Covered s.away) {ctx : TCtx}
    {submitTx : TransactionCandidate → Option String} {ord : TOrd} {entity : TEntity}
    (hhand : s.inHand = some (ord, entity)) :
    (s.completed ctx submitTx ord entity).executor.backlog.Covered
      (s.completed ctx submitTx ord entity).away := by
  unfold completed
  cases hcompletion : completion ctx submitTx ord entity with
  | accepted next =>
      rw [away, hhand] at h
      dsimp only
      rw [OrderExecutor.complete_of_accepted _ hcompletion]
      exact h
  | rejected =>
      have hback := covered_back hhand (BacklogService.covered_recharge h ord)
      dsimp only
      rw [OrderExecutor.complete_of_rejected _ hcompletion]
      exact hback
  | failed =>
      obtain ⟨e, hrun, -, hbacklog⟩ :=
        OrderExecutor.complete_of_failed s.executor hcompletion
      have hback : (s.executor.complete ctx submitTx ord entity).backlog.Covered
          (s.submitted ++ s.dropped) := by
        apply covered_back hhand
        rw [← hsame ord entity ctx e hrun]
        rcases hbacklog with hbacklog | hbacklog
        · rw [hbacklog]
          exact BacklogService.covered_suspend h e.order
        · rw [hbacklog]
          intro id hstored
          obtain ⟨hstored, hne⟩ := Table.mem_keys_remove.mp hstored
          exact (h id hstored).imp_right fun hmem =>
            List.mem_filter.mpr ⟨hmem, decide_eq_true hne⟩
      exact hback

theorem covered_step (hsame : ∀ (ord : TOrd) (entity : TEntity) (ctx : TCtx) e,
    tryRun ord entity ctx = .error e →
      OnChainOrder.getSelfRef e.order = OnChainOrder.getSelfRef ord)
    (h : s.executor.backlog.Covered s.away) {event : Event TOrd TOrderId TEntity TCtx}
    (hstep : Step s event s') : s'.executor.backlog.Covered s'.away := by
  cases event with
  | take env =>
      obtain ⟨hidle, rounds, executor, inHand, htake, rfl⟩ := hstep
      exact covered_take h hidle htake
  | complete ctx submitTx =>
      obtain ⟨ord, entity, hhand, rfl⟩ := hstep
      exact covered_completed hsame h hhand
  | confirm state =>
      obtain rfl := hstep
      exact h
  | backlog call =>
      obtain ⟨htake, rfl⟩ := hstep
      have hnone : (call.exec s.executor.backlog).2 = none := by
        cases call with
        | tryPop env => exact absurd rfl (htake env)
        | _ => rfl
      apply covered_mono (Custody.covered_after (s := ⟨s.executor.backlog, s.away⟩) h call)
      intro id hid
      rw [Custody.after, hnone] at hid
      dsimp only at hid
      split at hid
      · exact List.mem_of_mem_filter hid
      · exact hid

/-- Every stored order is queued or in hand, or it was submitted, or nothing was known of its entity
when it was taken. -/
theorem accounted_of_run (hsame : ∀ (ord : TOrd) (entity : TEntity) (ctx : TCtx) e,
    tryRun ord entity ctx = .error e →
      OnChainOrder.getSelfRef e.order = OnChainOrder.getSelfRef ord)
    {store : BacklogStore TOrd} {conf : BacklogConfig}
    {events : List (Event TOrd TOrderId TEntity TCtx)}
    (hrun : Run Step (start (BacklogService.new store conf)) events s) :
    ∀ id ∈ s.executor.backlog.store.keys, id ∈ ids s.executor.backlog.queued ∨
      (∃ entity ord, s.inHand = some (ord, entity) ∧ OnChainOrder.getSelfRef ord = id) ∨
      id ∈ s.submitted ∨ id ∈ s.dropped := by
  have hstart : (BacklogService.new store conf).Covered [] := fun id hstored =>
    Or.inl (BacklogService.mem_ids_queued.mpr
      (Or.inl (BacklogService.pending_new store conf id hstored)))
  have hcovered := Run.invariant
    (I := fun s : Serving TOrd TEntity => s.executor.backlog.Covered s.away)
    (fun _ _ _ h hstep => covered_step hsame h hstep) hrun hstart
  intro id hstored
  refine (hcovered id hstored).imp_right fun haway => ?_
  rcases List.mem_append.mp haway with hhand | hrest
  · left
    obtain ⟨held, hheld, hid⟩ := Option.map_eq_some_iff.mp (Option.mem_toList.mp hhand)
    exact ⟨held.2, held.1, hheld, hid⟩
  · exact Or.inr (List.mem_append.mp hrest)

end Serving

/-! ## A sample run -/

namespace Sample

open Backlog.Sample Resolver.Sample

def digest : Digest32 := ⟨List.replicate 32 0, List.length_replicate⟩

def bx : ErgoBox where
  value := .safeUserMin
  ergoTree := ⟨[]⟩
  tokens := none
  additionalRegisters := .empty
  creationHeight := 0
  transactionId := digest
  index := 0
  boxId := digest

/-- All orders are for entity 1. -/
scoped instance : EntityOrder ℕ ℕ := ⟨fun _ => 1⟩

/-- The context is the id of the next state. -/
scoped instance : RunOrder ℕ (ℕ × ℕ) ℕ where
  tryRun _ entity sid := .ok (⟨⟨[(bx, .empty)], by decide, by decide⟩,
    ⟨[bx.toErgoBoxCandidate], by decide, by decide⟩⟩, (entity.1, sid))

def store : BacklogStore ℕ := (Table.empty.put ⟨5, 0⟩).put ⟨7, 0⟩

/-- Order 7 is accepted, order 5 is rejected. -/
def events : List (Event ℕ ℕ (ℕ × ℕ) ℕ) :=
  [.confirm (1, 0), .take (env 1), .complete 1 fun _ => none, .take (env 2),
    .complete 2 fun _ => some ""]

end Sample

open Sample Backlog.Sample Resolver.Sample in
theorem Serving.exists_run_events : ∃ s : Serving ℕ (ℕ × ℕ),
    Run (restrict Step Admissible) (start (BacklogService.new store conf)) events s ∧
      s.accepted = [((1, 0), (1, 1))] ∧ (s.lines 1).top = some (1, 0) ∧ s.submitted = [7] := by
  refine ⟨_, Run.cons ⟨rfl, .inr ?_⟩ (Run.cons ⟨⟨rfl, 5, _, _, rfl, rfl⟩, trivial⟩
    (Run.cons ⟨⟨7, (1, 0), rfl, rfl⟩, ?_⟩ (Run.cons ⟨⟨rfl, 5, _, _, rfl, rfl⟩, trivial⟩
    (Run.single ⟨⟨5, (1, 1), rfl, rfl⟩, ?_⟩)))), rfl, rfl, rfl⟩
  · rintro ⟨_, hmem, -⟩
    cases hmem
  · rintro _ _ ⟨⟩
    refine ⟨rfl, ?_⟩
    rintro _ ⟨⟩
    refine ⟨rfl, ?_⟩
    rintro ⟨_, hmem, hid⟩
    cases List.mem_singleton.mp hmem
    cases hid
  · rintro _ _ ⟨⟩
    refine ⟨rfl, ?_⟩
    rintro _ ⟨⟩

open Sample Backlog.Sample Resolver.Sample in
/-- The entity is back where the rejected transaction was not made from. -/
theorem Serving.top_of_run_sample : ∃ s : Serving ℕ (ℕ × ℕ),
    s.accepted = [((1, 0), (1, 1))] ∧ ∃ rounds, ∀ rounds' ≥ rounds,
      resolveEntityState s.executor.entityRepo 1 rounds' = some (some (1, 0)) := by
  obtain ⟨s, hrun, haccepted, htop, -⟩ := exists_run_events
  obtain ⟨rounds, hresolve⟩ := (top_of_run hrun).1 1
  rw [htop] at hresolve
  exact ⟨s, haccepted, rounds, hresolve⟩

open Sample Backlog.Sample Resolver.Sample in
theorem Serving.accounted_of_run_sample : ∃ s : Serving ℕ (ℕ × ℕ), s.submitted = [7] ∧
    ∀ id ∈ s.executor.backlog.store.keys, id ∈ ids s.executor.backlog.queued ∨
      (∃ entity ord, s.inHand = some (ord, entity) ∧ OnChainOrder.getSelfRef ord = id) ∨
      id ∈ s.submitted ∨ id ∈ s.dropped := by
  obtain ⟨s, hrun, -, -, hsubmitted⟩ := exists_run_events
  have hsteps := hrun.mono fun _ _ _ hstep => hstep.1
  exact ⟨s, hsubmitted, accounted_of_run (fun _ _ _ _ herror => by cases herror) hsteps⟩

end SpectrumOffchain.Executor.Generic
