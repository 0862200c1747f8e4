import SpectrumOffchain.Backlog.Service
import SpectrumOffchain.Lib.Transition

/-!
# Where the orders are

A stored order is queued or in flight: an operation that takes an entry from a queue
moves it to another queue, hands its order out or removes the order from the store
(`stored_of_run`).

That an order is queued only once is not kept by the code.  `put` looks for the order in
all three queues, but `suspend`, `check_later` and `recharge` insert without looking.  An
order that is handed out, put again by the order stream and then suspended by the executor
is queued twice.  `queued_once` says exactly when a call keeps the entries unique, and
that between two `put`s an order is handed out at most once more than it is given back.

The two loops of the service are read through `Revisits` and `Pops`, which list what a
round of them can do.

## Strategy

`Revisits` and `Pops` keep of a round which entry was looked at and where it went, and
forget clocks and draws.  Everything about the loops is then an induction over one of them.

* `Covered s inFlight` is the invariant: every stored order is queued or in flight.  For a
  loop it has to be generalised, since in the middle of `revisit_progressing_orders` the
  entries that are still to be looked at are in no queue; `Revisits.covers` therefore speaks
  of the rest of the queue as well, and of any predicate in place of the flight.
* `covered_put`, `covered_suspend`, `covered_checkLater`, `covered_recharge`,
  `covered_remove` and `covered_tryPop` are the steps.  An order leaves the flight when a
  call gives it back, and joins it when `try_pop` hands it out.
* `Custody` is the service with the list of orders in flight, for runs.
-/

namespace SpectrumOffchain.Backlog

open Transition

variable {TOrd TOrderId : Type} [OnChainOrder TOrd TOrderId]

/-- The ids of queue entries. -/
def ids (queue : List (WeightedOrder TOrderId)) : List TOrderId := queue.map (·.orderId)

theorem mem_ids {queue : List (WeightedOrder TOrderId)} {id : TOrderId} :
    id ∈ ids queue ↔ ∃ wo ∈ queue, wo.orderId = id := List.mem_map

namespace BacklogService

/-- The entries of the three queues. -/
def queued (s : BacklogService TOrd) : List (WeightedOrder TOrderId) :=
  s.pendingPq.keys ++ s.suspendedPq.keys ++ s.revisitQueue

theorem mem_ids_queued {s : BacklogService TOrd} {id : TOrderId} : id ∈ ids s.queued ↔
    id ∈ ids s.pendingPq.keys ∨ id ∈ ids s.suspendedPq.keys ∨ id ∈ ids s.revisitQueue := by
  rw [ids, queued, List.map_append, List.map_append, List.mem_append, List.mem_append, or_assoc]
  rfl

/-! ## The drawn queue -/

/-- The queue that the draw of `try_pop` points at. -/
def drawnPq (s : BacklogService TOrd) (rng : Fin 100) : PriorityQueue (WeightedOrder TOrderId) :=
  if rng.val ≥ s.conf.retrySuspendedProb.val then s.pendingPq else s.suspendedPq

/-- The queue that it does not point at. -/
def otherPq (s : BacklogService TOrd) (rng : Fin 100) : PriorityQueue (WeightedOrder TOrderId) :=
  if rng.val ≥ s.conf.retrySuspendedProb.val then s.suspendedPq else s.pendingPq

/-- Put another store and another drawn queue in their places. -/
def withDrawnPq (s : BacklogService TOrd) (rng : Fin 100) (store : BacklogStore TOrd)
    (pq : PriorityQueue (WeightedOrder TOrderId)) : BacklogService TOrd :=
  if rng.val ≥ s.conf.retrySuspendedProb.val then { s with store, pendingPq := pq }
  else { s with store, suspendedPq := pq }

section Drawn

variable {s : BacklogService TOrd} {rng : Fin 100} {store : BacklogStore TOrd}
  {pq : PriorityQueue (WeightedOrder TOrderId)}

@[simp] theorem conf_withDrawnPq : (s.withDrawnPq rng store pq).conf = s.conf := by
  unfold withDrawnPq
  split <;> rfl

@[simp] theorem store_withDrawnPq : (s.withDrawnPq rng store pq).store = store := by
  unfold withDrawnPq
  split <;> rfl

@[simp] theorem revisitQueue_withDrawnPq :
    (s.withDrawnPq rng store pq).revisitQueue = s.revisitQueue := by
  unfold withDrawnPq
  split <;> rfl

@[simp] theorem drawnPq_withDrawnPq : (s.withDrawnPq rng store pq).drawnPq rng = pq := by
  rw [drawnPq, conf_withDrawnPq, withDrawnPq]
  split <;> rfl

@[simp] theorem otherPq_withDrawnPq :
    (s.withDrawnPq rng store pq).otherPq rng = s.otherPq rng := by
  rw [otherPq, otherPq, conf_withDrawnPq, withDrawnPq]
  split <;> rfl

theorem mem_ids_queued_iff {id : TOrderId} (rng : Fin 100) : id ∈ ids s.queued ↔
    id ∈ ids (s.drawnPq rng).keys ∨ id ∈ ids (s.otherPq rng).keys ∨ id ∈ ids s.revisitQueue := by
  rw [mem_ids_queued, drawnPq, otherPq]
  split
  · rfl
  · exact or_left_comm

end Drawn

end BacklogService

section Queues

variable [DecidableEq TOrderId] {id : TOrderId} {wo : WeightedOrder TOrderId}
  {pq : PriorityQueue (WeightedOrder TOrderId)}

theorem mem_ids_push {priority : ℕ} :
    id ∈ ids (pq.push wo priority).keys ↔ wo.orderId = id ∨ id ∈ ids pq.keys := by
  rw [mem_ids, mem_ids, PriorityQueue.push]
  constructor
  · rintro ⟨wo', hmem, rfl⟩
    rcases Table.mem_keys_put.mp hmem with rfl | hmem
    · exact Or.inl rfl
    · exact Or.inr ⟨wo', hmem, rfl⟩
  · rintro (rfl | ⟨wo', hmem, rfl⟩)
    · exact ⟨wo, Table.mem_keys_put.mpr (Or.inl rfl), rfl⟩
    · exact ⟨wo', Table.mem_keys_put.mpr (Or.inr hmem), rfl⟩

/-- Removing an entry loses no other id. -/
theorem mem_ids_remove (wo : WeightedOrder TOrderId) (h : id ∈ ids pq.keys) :
    wo.orderId = id ∨ id ∈ ids (pq.remove wo).keys := by
  obtain ⟨wo', hmem, rfl⟩ := mem_ids.mp h
  by_cases heq : wo' = wo
  · exact Or.inl (heq ▸ rfl)
  · exact Or.inr (mem_ids.mpr ⟨wo', Table.mem_keys_remove.mpr ⟨hmem, heq⟩, rfl⟩)

/-- How many entries have the id. -/
def count (id : TOrderId) (queue : List (WeightedOrder TOrderId)) : ℕ :=
  queue.countP fun wo => wo.orderId = id

theorem count_push_le {priority : ℕ} :
    count id (pq.push wo priority).keys ≤ count id pq.keys + if wo.orderId = id then 1 else 0 := by
  rw [count, count, PriorityQueue.push]
  simpa only [decide_eq_true_eq] using Table.countP_keys_put_le
    (t := pq) (a := (wo, priority)) (p := fun wo => wo.orderId = id)

theorem count_push_of_mem {priority : ℕ} (h : wo ∈ pq.keys) :
    count id (pq.push wo priority).keys = count id pq.keys := Table.countP_keys_put_of_mem h

theorem count_push_of_notMem {priority : ℕ} (h : wo ∉ pq.keys) :
    count id (pq.push wo priority).keys = count id pq.keys + if wo.orderId = id then 1 else 0 := by
  rw [count, count, PriorityQueue.push]
  simpa only [decide_eq_true_eq] using Table.countP_keys_put_of_notMem
    (t := pq) (a := (wo, priority)) (p := fun wo => wo.orderId = id) h

theorem count_remove (h : wo ∈ pq.keys) :
    count id pq.keys = count id (pq.remove wo).keys + if wo.orderId = id then 1 else 0 := by
  rw [count, count]
  simpa only [decide_eq_true_eq] using Table.countP_keys_remove
    (t := pq) (p := fun wo => wo.orderId = id) h

end Queues

variable [Weighted TOrd] [DecidableEq TOrderId]

namespace BacklogService

/-! ## The loops -/

/-- What the loop of `revisit_progressing_orders` does with the queue. -/
inductive Revisits : BacklogService TOrd → List (WeightedOrder TOrderId) →
    BacklogService TOrd → Prop where
  | done {s : BacklogService TOrd} : Revisits s [] { s with revisitQueue := [] }
  /-- The order is due and moves to `pending_pq`. -/
  | moved {s s' : BacklogService TOrd} {ord : WeightedOrder TOrderId}
      {rest : List (WeightedOrder TOrderId)} {bo : BacklogOrder TOrd}
      (hget : s.store.get ord.orderId = some bo)
      (h : Revisits { s with pendingPq := s.pendingPq.push bo.toWeighted (weight bo.order) }
        rest s') :
      Revisits s (ord :: rest) s'
  /-- The order has left the store. -/
  | dropped {s s' : BacklogService TOrd} {ord : WeightedOrder TOrderId}
      {rest : List (WeightedOrder TOrderId)} (hget : s.store.get ord.orderId = none)
      (h : Revisits s rest s') : Revisits s (ord :: rest) s'
  /-- The order has outlived its lifespan. -/
  | expired {s s' : BacklogService TOrd} {ord : WeightedOrder TOrderId}
      {rest : List (WeightedOrder TOrderId)}
      (h : Revisits { s with store := s.store.remove ord.orderId } rest s') :
      Revisits s (ord :: rest) s'
  /-- The order is too recent, and so are those behind it. -/
  | kept {s : BacklogService TOrd} {ord : WeightedOrder TOrderId}
      {rest : List (WeightedOrder TOrderId)} :
      Revisits s (ord :: rest) { s with revisitQueue := ord :: rest }

theorem revisits_revisitFrom (clock : Clock) (s : BacklogService TOrd)
    (queue : List (WeightedOrder TOrderId)) : Revisits s queue (revisitFrom clock s queue).1 := by
  induction queue generalizing s clock with
  | nil => exact Revisits.done
  | cons ord rest ih =>
      unfold revisitFrom
      dsimp only
      split
      · split
        · split
          · next bo hget => exact Revisits.moved hget (ih _ _)
          · next hget => exact Revisits.dropped hget (ih _ _)
        · exact Revisits.expired (ih _ _)
      · exact Revisits.kept

/-- What `try_pop_max_order` does with a queue and the store. -/
inductive Pops : BacklogStore TOrd → PriorityQueue (WeightedOrder TOrderId) → Option TOrd →
    BacklogStore TOrd → PriorityQueue (WeightedOrder TOrderId) → Prop where
  | stop {store : BacklogStore TOrd} {pq : PriorityQueue (WeightedOrder TOrderId)} :
      Pops store pq none store pq
  /-- The order has outlived its lifespan. -/
  | expired {store store' : BacklogStore TOrd} {pq pq' : PriorityQueue (WeightedOrder TOrderId)}
      {res : Option TOrd} {wo : WeightedOrder TOrderId} (hmem : wo ∈ pq.keys)
      (h : Pops (store.remove wo.orderId) (pq.remove wo) res store' pq') :
      Pops store pq res store' pq'
  /-- The order has left the store. -/
  | dropped {store store' : BacklogStore TOrd} {pq pq' : PriorityQueue (WeightedOrder TOrderId)}
      {res : Option TOrd} {wo : WeightedOrder TOrderId} (hmem : wo ∈ pq.keys)
      (hget : store.get wo.orderId = none) (h : Pops store (pq.remove wo) res store' pq') :
      Pops store pq res store' pq'
  | found {store : BacklogStore TOrd} {pq : PriorityQueue (WeightedOrder TOrderId)}
      {wo : WeightedOrder TOrderId} {bo : BacklogOrder TOrd} (hmem : wo ∈ pq.keys)
      (hget : store.get wo.orderId = some bo) :
      Pops store pq (some bo.order) store (pq.remove wo)

omit [Weighted TOrd] in
theorem pops_popMaxFrom (conf : BacklogConfig) (ties : ℕ → ℕ) (clock : Clock)
    (store : BacklogStore TOrd) (pq : PriorityQueue (WeightedOrder TOrderId)) (rounds : ℕ) :
    Pops store pq (popMaxFrom conf ties clock store pq rounds).1
      (popMaxFrom conf ties clock store pq rounds).2.1
      (popMaxFrom conf ties clock store pq rounds).2.2 := by
  induction rounds generalizing clock store pq with
  | zero => exact Pops.stop
  | succ rounds ih =>
      unfold popMaxFrom
      split
      · exact Pops.stop
      · next wo rest hpop =>
          obtain ⟨hmem, rfl⟩ := PriorityQueue.mem_keys_of_pop hpop
          dsimp only
          split
          · exact Pops.expired hmem (ih _ _ _)
          · split
            · next bo hget => exact Pops.found hmem hget
            · next hget => exact Pops.dropped hmem hget (ih _ _ _)

/-! ## No order is lost -/

/-- A stored order that is accounted for elsewhere or queued stays so in the loop of
`revisit_progressing_orders`. -/
theorem Revisits.covers {p : TOrderId → Prop} {s s' : BacklogService TOrd}
    {queue : List (WeightedOrder TOrderId)} (h : Revisits s queue s')
    (hcovered : ∀ id ∈ s.store.keys, p id ∨ id ∈ ids s.pendingPq.keys ∨ id ∈ ids queue) :
    s'.suspendedPq = s.suspendedPq ∧ ∀ id ∈ s'.store.keys,
      p id ∨ id ∈ ids s'.pendingPq.keys ∨ id ∈ ids s'.revisitQueue := by
  induction h with
  | done => exact ⟨rfl, hcovered⟩
  -- The head goes to the pending queue, which covers it from then on.
  | @moved s s' ord rest bo hget _ ih =>
      have hid : bo.toWeighted.orderId = ord.orderId := (Table.get_eq_some.mp hget).2
      apply ih
      intro id hstored
      rcases hcovered id hstored with hp | hpending | hrest
      · exact Or.inl hp
      · exact Or.inr (Or.inl (mem_ids_push.mpr (Or.inr hpending)))
      · rcases List.mem_cons.mp hrest with rfl | hrest
        · exact Or.inr (Or.inl (mem_ids_push.mpr (Or.inl hid)))
        · exact Or.inr (Or.inr hrest)
  -- The head is not stored any more, so it needs no cover.
  | @dropped s s' ord rest hget _ ih =>
      apply ih
      intro id hstored
      rcases hcovered id hstored with hp | hpending | hrest
      · exact Or.inl hp
      · exact Or.inr (Or.inl hpending)
      · rcases List.mem_cons.mp hrest with rfl | hrest
        · have hsome := Table.isSome_get.mpr hstored
          rw [hget] at hsome
          cases hsome
        · exact Or.inr (Or.inr hrest)
  -- The head is deleted with its order.
  | @expired s s' ord rest _ ih =>
      apply ih
      intro id hstored
      obtain ⟨hstored, hne⟩ := Table.mem_keys_remove.mp hstored
      rcases hcovered id hstored with hp | hpending | hrest
      · exact Or.inl hp
      · exact Or.inr (Or.inl hpending)
      · rcases List.mem_cons.mp hrest with rfl | hrest
        · exact absurd rfl hne
        · exact Or.inr (Or.inr hrest)
  | kept => exact ⟨rfl, hcovered⟩

omit [Weighted TOrd] in
/-- A stored order that is accounted for elsewhere or in the queue is so afterwards, or is
the one that was handed out. -/
theorem Pops.covers {p : TOrderId → Prop} {store store' : BacklogStore TOrd}
    {pq pq' : PriorityQueue (WeightedOrder TOrderId)} {res : Option TOrd}
    (h : Pops store pq res store' pq')
    (hcovered : ∀ id ∈ store.keys, p id ∨ id ∈ ids pq.keys) :
    ∀ id ∈ store'.keys, p id ∨ id ∈ ids pq'.keys ∨ ∃ ord, res = some ord ∧ getSelfRef ord = id := by
  induction h with
  | stop =>
      intro id hstored
      exact (hcovered id hstored).imp_right Or.inl
  | @expired store store' pq pq' res wo hmem _ ih =>
      apply ih
      intro id hstored
      obtain ⟨hstored, hne⟩ := Table.mem_keys_remove.mp hstored
      rcases hcovered id hstored with hp | hqueued
      · exact Or.inl hp
      · exact Or.inr ((mem_ids_remove wo hqueued).resolve_left fun heq => hne heq.symm)
  | @dropped store store' pq pq' res wo hmem hget _ ih =>
      apply ih
      intro id hstored
      rcases hcovered id hstored with hp | hqueued
      · exact Or.inl hp
      · rcases mem_ids_remove wo hqueued with rfl | hqueued
        · have hsome := Table.isSome_get.mpr hstored
          rw [hget] at hsome
          cases hsome
        · exact Or.inr hqueued
  | @found store pq wo bo hmem hget =>
      intro id hstored
      have hid : bo.selfRef = wo.orderId := (Table.get_eq_some.mp hget).2
      rcases hcovered id hstored with hp | hqueued
      · exact Or.inl hp
      · rcases mem_ids_remove wo hqueued with rfl | hqueued
        · exact Or.inr (Or.inr ⟨_, rfl, hid⟩)
        · exact Or.inr (Or.inl hqueued)

/-! ### The calls -/

variable {s : BacklogService TOrd} {inFlight : List TOrderId}

/-- Every stored order is queued or in flight. -/
def Covered (s : BacklogService TOrd) (inFlight : List TOrderId) : Prop :=
  ∀ id ∈ s.store.keys, id ∈ ids s.queued ∨ id ∈ inFlight

omit [Weighted TOrd] in
/-- A call that leaves an order queued may end its flight. -/
theorem covered_filter {s' : BacklogService TOrd} {orderId : TOrderId}
    (h : s.Covered inFlight)
    (hothers : ∀ id ∈ s'.store.keys, id ≠ orderId →
      id ∈ s.store.keys ∧ (id ∈ ids s.queued → id ∈ ids s'.queued))
    (hself : orderId ∈ s'.store.keys → orderId ∈ ids s'.queued) :
    s'.Covered (inFlight.filter (· ≠ orderId)) := by
  intro id hstored
  by_cases hid : id = orderId
  · subst hid
    exact Or.inl (hself hstored)
  · obtain ⟨hold, hqueued⟩ := hothers id hstored hid
    rcases h id hold with hmem | hmem
    · exact Or.inl (hqueued hmem)
    · exact Or.inr (List.mem_filter.mpr ⟨hmem, decide_eq_true hid⟩)

theorem covered_put (h : s.Covered inFlight) (ord : PendingOrder TOrd) (pick : ℕ) :
    (s.put ord pick).Covered (inFlight.filter (· ≠ getSelfRef ord.order)) := by
  apply covered_filter h
  · intro id hstored hid
    constructor
    · have hput : id ∈ (s.put ord pick).store.keys := hstored
      unfold put at hput
      dsimp only at hput
      split at hput
      · exact hput
      · exact (Table.mem_keys_put.mp hput).resolve_left hid
    · -- entries of other orders stay where they are
      rw [mem_ids_queued, mem_ids_queued]
      rintro (hpending | hsuspended | hrevisit)
      · left
        unfold put
        dsimp only
        split
        · exact hpending
        · exact mem_ids_push.mpr (Or.inr hpending)
      · right; left
        unfold put removeFound
        dsimp only
        split
        · next element helement =>
            obtain ⟨-, heq⟩ := List.mem_filter.mp (mem_of_choose helement)
            have heq : element.orderId = getSelfRef ord.order := of_decide_eq_true heq
            exact (mem_ids_remove element hsuspended).resolve_left fun h => hid (h ▸ heq)
        · exact hsuspended
      · right; right
        obtain ⟨wo, hmem, rfl⟩ := mem_ids.mp hrevisit
        refine mem_ids.mpr ⟨wo, ?_, rfl⟩
        exact (List.mem_eraseP_of_neg (by simpa using hid)).mpr hmem
  · -- the order itself is pending now
    intro _
    rw [mem_ids_queued]
    left
    unfold put
    dsimp only
    split
    · next hany =>
        obtain ⟨wo, hmem, heq⟩ := List.any_eq_true.mp hany
        exact mem_ids.mpr ⟨wo, hmem, of_decide_eq_true heq⟩
    · exact mem_ids_push.mpr (Or.inl rfl)

omit [Weighted TOrd] in
/-- What `suspend`, `check_later` and `recharge` do for a stored order: they only queue it. -/
theorem covered_give {s' : BacklogService TOrd} {orderId : TOrderId} (h : s.Covered inFlight)
    (hstore : s'.store = s.store) (hkept : ∀ id ∈ ids s.queued, id ∈ ids s'.queued)
    (hself : orderId ∈ s.store.keys → orderId ∈ ids s'.queued) :
    s'.Covered (inFlight.filter (· ≠ orderId)) := by
  apply covered_filter h
  · intro id hstored _
    rw [hstore] at hstored
    exact ⟨hstored, hkept id⟩
  · rw [hstore]
    exact hself

omit [Weighted TOrd] in
theorem notMem_keys_of_get_eq_none {store : BacklogStore TOrd} {orderId : TOrderId}
    (hget : store.get orderId = none) : orderId ∉ store.keys := by
  rw [← Table.isSome_get, hget]
  exact Bool.false_ne_true

theorem covered_suspend (h : s.Covered inFlight) (ord : TOrd) :
    (s.suspend ord).1.Covered (inFlight.filter (· ≠ getSelfRef ord)) := by
  unfold suspend
  split
  · apply covered_give h
    · rfl
    · intro id hqueued
      rw [mem_ids_queued] at hqueued ⊢
      exact hqueued.imp_right (Or.imp_left fun hmem => mem_ids_push.mpr (Or.inr hmem))
    · intro _
      exact mem_ids_queued.mpr (Or.inr (Or.inl (mem_ids_push.mpr (Or.inl rfl))))
  · next hget =>
      exact covered_give h rfl (fun _ hqueued => hqueued)
        fun hstored => absurd hstored (notMem_keys_of_get_eq_none hget)

omit [Weighted TOrd] in
theorem covered_checkLater (h : s.Covered inFlight) (ord : ProgressingOrder TOrd) :
    (s.checkLater ord).1.Covered (inFlight.filter (· ≠ getSelfRef ord.order)) := by
  unfold checkLater
  split
  · apply covered_give h
    · rfl
    · intro id hqueued
      rw [mem_ids_queued] at hqueued ⊢
      refine hqueued.imp_right (Or.imp_right fun hmem => ?_)
      obtain ⟨wo, hmem, hid⟩ := mem_ids.mp hmem
      exact mem_ids.mpr ⟨wo, List.mem_append_left _ hmem, hid⟩
    · intro _
      refine mem_ids_queued.mpr (Or.inr (Or.inr (mem_ids.mpr ⟨ord.toWeighted, ?_, rfl⟩)))
      exact List.mem_append_right _ List.mem_cons_self
  · next hget =>
      exact covered_give h rfl (fun _ hqueued => hqueued)
        fun hstored => absurd hstored (notMem_keys_of_get_eq_none hget)

theorem covered_recharge (h : s.Covered inFlight) (ord : TOrd) :
    (s.recharge ord).Covered (inFlight.filter (· ≠ getSelfRef ord)) := by
  unfold recharge
  split
  · apply covered_give h
    · rfl
    · intro id hqueued
      rw [mem_ids_queued] at hqueued ⊢
      exact hqueued.imp_left fun hmem => mem_ids_push.mpr (Or.inr hmem)
    · intro _
      exact mem_ids_queued.mpr (Or.inl (mem_ids_push.mpr (Or.inl rfl)))
  · next hget =>
      exact covered_give h rfl (fun _ hqueued => hqueued)
        fun hstored => absurd hstored (notMem_keys_of_get_eq_none hget)

omit [Weighted TOrd] in
theorem covered_remove (h : s.Covered inFlight) (orderId : TOrderId) :
    (s.remove orderId).Covered inFlight := by
  intro id hstored
  exact h id (Table.mem_keys_remove.mp hstored).1

theorem covered_revisit (h : s.Covered inFlight) (clock : Clock) :
    (s.revisitProgressingOrders clock).1.Covered inFlight := by
  obtain ⟨hsuspended, hcovered⟩ := (revisits_revisitFrom clock s s.revisitQueue).covers
    (p := fun id => id ∈ ids s.suspendedPq.keys ∨ id ∈ inFlight) (by
      intro id hstored
      have := h id hstored
      rw [mem_ids_queued] at this
      tauto)
  intro id hstored
  have := hcovered id hstored
  rw [mem_ids_queued, revisitProgressingOrders, hsuspended]
  tauto

/-- `try_pop` revisits, and then takes from the drawn queue. -/
theorem tryPop_eq (s : BacklogService TOrd) (env : PopEnv) {s₁ : BacklogService TOrd}
    {clock : Clock} (hrevisit : s.revisitProgressingOrders env.clock = (s₁, clock)) :
    s.tryPop env =
      (s₁.withDrawnPq env.rng
        (tryPopMaxOrder s₁.conf env.ties clock s₁.store (s₁.drawnPq env.rng)).2.1
        (tryPopMaxOrder s₁.conf env.ties clock s₁.store (s₁.drawnPq env.rng)).2.2,
      (tryPopMaxOrder s₁.conf env.ties clock s₁.store (s₁.drawnPq env.rng)).1) := by
  rw [tryPop, hrevisit, withDrawnPq, drawnPq]
  dsimp only
  split <;> rfl

/-- What `try_pop` does after the revisit step. -/
theorem pops_tryPop (s : BacklogService TOrd) (env : PopEnv) {s₁ : BacklogService TOrd}
    (hs₁ : s₁ = (s.revisitProgressingOrders env.clock).1) :
    Pops s₁.store (s₁.drawnPq env.rng) (s.tryPop env).2 (s.tryPop env).1.store
        ((s.tryPop env).1.drawnPq env.rng) ∧
      (s.tryPop env).1.otherPq env.rng = s₁.otherPq env.rng ∧
      (s.tryPop env).1.revisitQueue = s₁.revisitQueue := by
  rw [s.tryPop_eq env (Prod.ext hs₁.symm rfl), store_withDrawnPq, drawnPq_withDrawnPq,
    otherPq_withDrawnPq, revisitQueue_withDrawnPq]
  exact ⟨pops_popMaxFrom _ _ _ _ _ _, rfl, rfl⟩

/-- The order that is handed out is in flight. -/
theorem covered_tryPop (h : s.Covered inFlight) (env : PopEnv) :
    (s.tryPop env).1.Covered (((s.tryPop env).2.map getSelfRef).toList ++ inFlight) := by
  have hrevisited := covered_revisit h env.clock
  obtain ⟨hpops, hother, hrevisit⟩ := s.pops_tryPop env rfl
  generalize (s.revisitProgressingOrders env.clock).1 = s₁ at hrevisited hpops hother hrevisit
  have hcovered := hpops.covers
    (p := fun id => id ∈ ids (s₁.otherPq env.rng).keys ∨ id ∈ ids s₁.revisitQueue ∨
      id ∈ inFlight) (by
      intro id hstored
      have := hrevisited id hstored
      rw [mem_ids_queued_iff env.rng] at this
      tauto)
  intro id hstored
  have := hcovered id hstored
  rw [mem_ids_queued_iff env.rng, hother, hrevisit, List.mem_append]
  rcases this with (hwaiting | hprogressing | hflight) | hdrawn | ⟨ord, hord, rfl⟩
  · exact Or.inl (Or.inr (Or.inl hwaiting))
  · exact Or.inl (Or.inr (Or.inr hprogressing))
  · exact Or.inr (Or.inr hflight)
  · exact Or.inl (Or.inl hdrawn)
  · rw [hord]
    exact Or.inr (Or.inl List.mem_cons_self)

omit [Weighted TOrd] in
theorem Pops.stored {store store' : BacklogStore TOrd}
    {pq pq' : PriorityQueue (WeightedOrder TOrderId)} {res : Option TOrd}
    (h : Pops store pq res store' pq') {ord : TOrd} (hres : res = some ord) :
    getSelfRef ord ∈ store'.keys := by
  induction h with
  | stop => cases hres
  | expired _ _ ih => exact ih hres
  | dropped _ _ _ ih => exact ih hres
  | @found store pq wo bo _ hget =>
      cases hres
      exact List.mem_map.mpr ⟨bo, (Table.get_eq_some.mp hget).1, rfl⟩

/-- An order that is handed out is in the store. -/
theorem stored_of_tryPop {s s' : BacklogService TOrd} {env : PopEnv} {ord : TOrd}
    (h : s.tryPop env = (s', some ord)) : getSelfRef ord ∈ s'.store.keys := by
  obtain ⟨hpops, -, -⟩ := s.pops_tryPop env rfl
  rw [h] at hpops
  exact hpops.stored rfl

theorem mem_ids_foldl_push {id : TOrderId} (orders : List (BacklogOrder TOrd))
    (pq : PriorityQueue (WeightedOrder TOrderId))
    (h : id ∈ ids pq.keys ∨ id ∈ orders.map BacklogOrder.selfRef) :
    id ∈ ids (orders.foldl (fun pq ord => pq.push ord.toWeighted (weight ord.order)) pq).keys := by
  induction orders generalizing pq with
  | nil => exact h.resolve_right (by simp)
  | cons ord rest ih =>
      apply ih
      rcases h with hmem | hmem
      · exact Or.inl (mem_ids_push.mpr (Or.inr hmem))
      · rcases List.mem_cons.mp hmem with rfl | hmem
        · exact Or.inl (mem_ids_push.mpr (Or.inl rfl))
        · exact Or.inr hmem

/-- A restart puts every stored order into the pending queue. -/
theorem pending_new (store : BacklogStore TOrd) (conf : BacklogConfig) :
    ∀ id ∈ store.keys, id ∈ ids (new store conf).pendingPq.keys :=
  fun _ hstored => mem_ids_foldl_push store.entries .empty (Or.inr hstored)

end BacklogService

/-- The order that the call puts or gives back. -/
def BacklogCall.givenId : BacklogCall TOrd TOrderId → Option TOrderId
  | put ord _ => some (getSelfRef ord.order)
  | suspend ord => some (getSelfRef ord)
  | checkLater ord => some (getSelfRef ord.order)
  | recharge ord => some (getSelfRef ord)
  | remove _ => none
  | tryPop _ => none

/-- The service, with the orders that were handed out and neither put nor given back since. -/
structure Custody (TOrd : Type) {TOrderId : Type} [OnChainOrder TOrd TOrderId] where
  service : BacklogService TOrd
  inFlight : List TOrderId

namespace Custody

/-- The state after a call. -/
def after (s : Custody TOrd) (call : BacklogCall TOrd TOrderId) : Custody TOrd where
  service := (call.exec s.service).1
  inFlight :=
    ((call.exec s.service).2.map getSelfRef).toList ++
      match call.givenId with
      | some id => s.inFlight.filter (· ≠ id)
      | none => s.inFlight

def Step (s : Custody TOrd) (call : BacklogCall TOrd TOrderId) (s' : Custody TOrd) : Prop :=
  s' = s.after call

theorem covered_after {s : Custody TOrd} (h : s.service.Covered s.inFlight)
    (call : BacklogCall TOrd TOrderId) :
    (s.after call).service.Covered (s.after call).inFlight := by
  cases call with
  | put ord pick => exact BacklogService.covered_put h ord pick
  | suspend ord => exact BacklogService.covered_suspend h ord
  | checkLater ord => exact BacklogService.covered_checkLater h ord
  | recharge ord => exact BacklogService.covered_recharge h ord
  | remove orderId => exact BacklogService.covered_remove h orderId
  | tryPop env => exact BacklogService.covered_tryPop h env

end Custody

/-- In every reachable state a stored order is in one of the queues or in flight, and a
restart on the same store would find all of them pending. -/
theorem stored_of_run {store : BacklogStore TOrd} {conf : BacklogConfig}
    {calls : List (BacklogCall TOrd TOrderId)} {s : Custody TOrd}
    (hrun : Run Custody.Step ⟨BacklogService.new store conf, []⟩ calls s) :
    (∀ id ∈ s.service.store.keys, id ∈ ids s.service.pendingPq.keys ∨
      id ∈ ids s.service.suspendedPq.keys ∨ id ∈ ids s.service.revisitQueue ∨ id ∈ s.inFlight) ∧
    ∀ conf', ∀ id ∈ s.service.store.keys,
      id ∈ ids (BacklogService.new s.service.store conf').pendingPq.keys := by
  have hstart : (BacklogService.new store conf).Covered [] := fun id hstored =>
    Or.inl (BacklogService.mem_ids_queued.mpr
      (Or.inl (BacklogService.pending_new store conf id hstored)))
  have hcovered : s.service.Covered s.inFlight := by
    refine Run.invariant (I := fun s : Custody TOrd => s.service.Covered s.inFlight) ?_ hrun hstart
    rintro s call s' h rfl
    exact Custody.covered_after h call
  refine ⟨fun id hstored => ?_, fun conf' => BacklogService.pending_new s.service.store conf'⟩
  rcases hcovered id hstored with hqueued | hflight
  · rcases BacklogService.mem_ids_queued.mp hqueued with hpending | hsuspended | hrevisit
    · exact Or.inl hpending
    · exact Or.inr (Or.inl hsuspended)
    · exact Or.inr (Or.inr (Or.inl hrevisit))
  · exact Or.inr (Or.inr (Or.inr hflight))

/-! ## Samples -/

namespace Sample

/-- Orders that are their own ids and weights. -/
scoped instance : OnChainOrder ℕ ℕ := ⟨id⟩

scoped instance : Weighted ℕ := ⟨id⟩

/-- Lifespan 100, execution time 10, no retries of suspended orders. -/
def conf : BacklogConfig := ⟨100, 10, 0⟩

/-- The clock stands at `now`. -/
def env (now : ℤ) : BacklogService.PopEnv := ⟨fun _ => now, 50, fun _ => 0⟩

end Sample

open Sample

/-- Orders 1 and 2 are put, order 2 is handed out and submitted, order 1 is handed out. -/
theorem stored_of_run_sample :
    ∃ s : Custody ℕ, s.inFlight = [1] ∧
      ∀ id ∈ s.service.store.keys, id ∈ ids s.service.pendingPq.keys ∨
        id ∈ ids s.service.suspendedPq.keys ∨ id ∈ ids s.service.revisitQueue ∨
        id ∈ s.inFlight := by
  refine ⟨_, ?_, (@stored_of_run ℕ ℕ _ _ _ Table.empty conf
    [.put ⟨1, 0⟩ 0, .put ⟨2, 0⟩ 0, .tryPop (env 1), .checkLater ⟨2, 1⟩, .tryPop (env 2)] _
    (Run.cons rfl (Run.cons rfl (Run.cons rfl (Run.cons rfl (Run.single rfl)))))).1⟩
  decide

end SpectrumOffchain.Backlog
