import SpectrumOffchain.Backlog.Popping

/-!
# When a submitted order is retried

The loop of `revisit_progressing_orders` stops at the first entry that is too recent, so that
whether it finds every entry that is due depends on how `revisit_queue` is ordered.  It is ordered
by timestamp as long as `check_later` is told the time of a clock that does not run backwards:
`check_later` appends a latest entry, `put` takes one out of the middle and the loop takes some
from the front (`ordered_step`).

In an ordered queue the entries that are due stand in front, and among these the expired ones
come first.  So no deletion by the loop comes too late for an order behind, and what a revisit does
can be said without following it (`revisited_revisitFrom`).
-/

namespace SpectrumOffchain.Backlog

open Transition BacklogService

variable {TOrd TOrderId : Type} [OnChainOrder TOrd TOrderId]

/-- The entry waits for longer than an execution may take. -/
def BacklogConfig.Due (conf : BacklogConfig) (now : ℤ) (wo : WeightedOrder TOrderId) : Prop :=
  conf.orderExecTime < now - wo.timestamp

instance (conf : BacklogConfig) (now : ℤ) (wo : WeightedOrder TOrderId) :
    Decidable (conf.Due now wo) := inferInstanceAs (Decidable (_ < _))

/-- The queue is ordered by timestamp. -/
def Sorted (queue : List (WeightedOrder TOrderId)) : Prop :=
  queue.Pairwise fun wo wo' => wo.timestamp ≤ wo'.timestamp

variable [DecidableEq TOrderId] [Weighted TOrd]

/-- Exactly the entries of `queue` that are due have left it, each of them to `pending_pq` if its
order is stored and not expired, and with its order from the store if that is expired. -/
structure Revisited (now : ℤ) (s : BacklogService TOrd) (queue : List (WeightedOrder TOrderId))
    (s' : BacklogService TOrd) : Prop where
  conf : s'.conf = s.conf
  suspendedPq : s'.suspendedPq = s.suspendedPq
  revisitQueue : s'.revisitQueue = queue.filter fun wo => ¬ s.conf.Due now wo
  store : ∀ id, s'.store.get id =
    if ∃ wo ∈ queue, s.conf.Due now wo ∧ s.conf.Expired now wo ∧ wo.orderId = id then none
    else s.store.get id
  pendingPq : s'.pendingPq =
    ((queue.filter fun wo => s.conf.Due now wo ∧ ¬ s.conf.Expired now wo).filterMap fun wo =>
      s'.store.get wo.orderId).foldl
      (fun pq bo => pq.push bo.toWeighted (weight bo.order)) s.pendingPq

/-! ## The loop -/

section Loop

variable {now : ℤ} {s s' : BacklogService TOrd} {ord : WeightedOrder TOrderId}
  {rest : List (WeightedOrder TOrderId)}

/-- Nothing is due. -/
theorem revisited_of_not_due {queue : List (WeightedOrder TOrderId)}
    (h : ∀ wo ∈ queue, ¬ s.conf.Due now wo) :
    Revisited now s queue { s with revisitQueue := queue } := by
  have hdue : (queue.filter fun wo => s.conf.Due now wo ∧ ¬ s.conf.Expired now wo) = [] := by
    rw [List.filter_eq_nil_iff]
    intro wo hwo
    simp [h wo hwo]
  constructor
  · rfl
  · rfl
  · refine (List.filter_eq_self.mpr fun wo hwo => ?_).symm
    simp [h wo hwo]
  · intro id
    rw [if_neg]
    exact fun ⟨wo, hwo, hdue, _⟩ => h wo hwo hdue
  · rw [hdue]
    rfl

/-- An expired entry comes first. -/
theorem Revisited.expired (hdue : s.conf.Due now ord) (hold : s.conf.Expired now ord)
    (h : Revisited now { s with store := s.store.remove ord.orderId } rest s') :
    Revisited now s (ord :: rest) s' := by
  constructor
  · exact h.conf
  · exact h.suspendedPq
  · rw [h.revisitQueue, List.filter_cons_of_neg (by simpa using hdue)]
  · intro id
    rw [h.store, Table.get_remove]
    have hself : (s.conf.Due now ord ∧ s.conf.Expired now ord ∧ ord.orderId = id) ↔
        id = ord.orderId := by
      simp only [hdue, hold, true_and, eq_comm]
    rw [← if_congr hself rfl rfl]
    exact ite_exists_cons none (s.store.get id)
  · rw [h.pendingPq, List.filter_cons_of_neg (by simp [hold])]

/-- An entry that is not expired comes first, and then none of the others is. -/
theorem Revisited.due (hdue : s.conf.Due now ord)
    (hyoung : ∀ wo ∈ ord :: rest, ¬ s.conf.Expired now wo)
    {pq : PriorityQueue (WeightedOrder TOrderId)}
    (hpq : pq = (s.store.get ord.orderId).elim s.pendingPq fun bo =>
      s.pendingPq.push bo.toWeighted (weight bo.order))
    (h : Revisited now { s with pendingPq := pq } rest s') : Revisited now s (ord :: rest) s' := by
  have hget : s'.store.get ord.orderId = s.store.get ord.orderId := by
    rw [h.store, if_neg]
    exact fun ⟨wo, hwo, _, hold, _⟩ => hyoung wo (List.mem_cons_of_mem _ hwo) hold
  constructor
  · exact h.conf
  · exact h.suspendedPq
  · rw [h.revisitQueue, List.filter_cons_of_neg (by simpa using hdue)]
  · intro id
    rw [h.store, if_neg, if_neg]
    · exact fun ⟨wo, hwo, _, hold, _⟩ => hyoung wo hwo hold
    · exact fun ⟨wo, hwo, _, hold, _⟩ => hyoung wo (List.mem_cons_of_mem _ hwo) hold
  · rw [h.pendingPq, List.filter_cons_of_pos (by simp [hdue, hyoung ord List.mem_cons_self]), hpq]
    rw [List.filterMap_cons, hget]
    cases s.store.get ord.orderId with
    | none => rfl
    | some bo => rfl

theorem revisited_revisitFrom (now : ℤ) (s : BacklogService TOrd)
    (queue : List (WeightedOrder TOrderId)) (hsorted : Sorted queue) :
    Revisited now s queue (revisitFrom (fun _ => now) s queue).1 := by
  induction queue generalizing s with
  | nil => exact revisited_of_not_due fun wo hwo => absurd hwo List.not_mem_nil
  | cons ord rest ih =>
      obtain ⟨hfirst, hrest⟩ := List.pairwise_cons.mp hsorted
      unfold revisitFrom
      dsimp only
      split
      · next hdue =>
          split
          · next hle =>
              have hyoung : ∀ wo ∈ ord :: rest, ¬ s.conf.Expired now wo := by
                intro wo hwo
                rw [BacklogConfig.Expired]
                rcases List.mem_cons.mp hwo with rfl | hwo
                · omega
                · have := hfirst wo hwo
                  omega
              split
              · next bo hget => exact .due hdue hyoung (by rw [hget]; rfl) (ih _ hrest)
              · next hget => exact .due hdue hyoung (by rw [hget]; rfl) (ih _ hrest)
          · next hlt => exact .expired hdue (not_le.mp hlt) (ih _ hrest)
      · next hrecent =>
          apply revisited_of_not_due
          intro wo hwo
          rw [BacklogConfig.Due]
          rcases List.mem_cons.mp hwo with rfl | hwo
          · omega
          · have := hfirst wo hwo
            omega

end Loop

/-! ## The order of the queue -/

section Order

variable {s s' : BacklogService TOrd}

theorem revisitQueue_revisitFrom (clock : Clock) (s : BacklogService TOrd)
    (queue : List (WeightedOrder TOrderId)) :
    (revisitFrom clock s queue).1.revisitQueue <:+ queue := by
  have h := revisits_revisitFrom clock s queue
  generalize (revisitFrom clock s queue).1 = s' at h ⊢
  induction h with
  | done => exact List.suffix_refl _
  | moved _ _ ih => exact ih.trans (List.suffix_cons _ _)
  | dropped _ _ ih => exact ih.trans (List.suffix_cons _ _)
  | expired _ ih => exact ih.trans (List.suffix_cons _ _)
  | kept => exact List.suffix_refl _

/-- Only `check_later` lets an entry into `revisit_queue`. -/
theorem revisitQueue_exec (s : BacklogService TOrd) {call : BacklogCall TOrd TOrderId}
    (hcall : ∀ ord, call ≠ .checkLater ord) :
    (call.exec s).1.revisitQueue.Sublist s.revisitQueue := by
  cases call with
  | put ord pick => exact List.eraseP_sublist
  | suspend ord =>
      show (s.suspend ord).1.revisitQueue.Sublist _
      unfold suspend
      split <;> exact List.Sublist.refl _
  | checkLater ord => exact absurd rfl (hcall ord)
  | recharge ord =>
      show (s.recharge ord).revisitQueue.Sublist _
      unfold recharge
      split <;> exact List.Sublist.refl _
  | remove orderId => exact List.Sublist.refl _
  | tryPop env =>
      obtain ⟨-, -, hrevisit⟩ := s.pops_tryPop env rfl
      show (s.tryPop env).1.revisitQueue.Sublist _
      rw [hrevisit]
      exact (revisitQueue_revisitFrom env.clock s s.revisitQueue).sublist

end Order

/-! ## Runs -/

/-- The service, and what a clock has shown last. -/
structure Clocked (TOrd : Type) {TOrderId : Type} [OnChainOrder TOrd TOrderId] where
  service : BacklogService TOrd
  now : ℤ

/-- A call at a time that is not before the last one, which is the time of the submission if the
call is `check_later`. -/
def ClockStep (s : Clocked TOrd) (label : BacklogCall TOrd TOrderId × Option TOrd)
    (s' : Clocked TOrd) : Prop :=
  BacklogCall.Step s.service label s'.service ∧ s.now ≤ s'.now ∧
    ∀ ord, label.1 = .checkLater ord → ord.timestamp = s'.now

theorem clockStep_exec {s : Clocked TOrd} {call : BacklogCall TOrd TOrderId} {res : Option TOrd}
    (now : ℤ) (hres : (call.exec s.service).2 = res) (hnow : s.now ≤ now)
    (hsubmitted : ∀ ord, call = .checkLater ord → ord.timestamp = now) :
    ClockStep s (call, res) ⟨(call.exec s.service).1, now⟩ :=
  ⟨BacklogCall.step_exec hres, hnow, hsubmitted⟩

/-- The entries of `revisit_queue` are ordered, and none of them is from the future. -/
structure Clocked.Ordered (s : Clocked TOrd) : Prop where
  sorted : Sorted s.service.revisitQueue
  le_now : ∀ wo ∈ s.service.revisitQueue, wo.timestamp ≤ s.now

theorem ordered_step {s s' : Clocked TOrd} {label : BacklogCall TOrd TOrderId × Option TOrd}
    (h : s.Ordered) (hstep : ClockStep s label s') : s'.Ordered := by
  obtain ⟨hexec, hnow, hsubmitted⟩ := hstep
  have hservice : (label.1.exec s.service).1 = s'.service := congrArg Prod.fst hexec
  by_cases hcall : ∃ ord, label.1 = .checkLater ord
  · obtain ⟨ord, hcall⟩ := hcall
    rw [hcall] at hservice
    change (s.service.checkLater ord).1 = _ at hservice
    unfold checkLater at hservice
    split at hservice
    · -- the new entry is a latest one
      have hqueue : s.service.revisitQueue ++ [ord.toWeighted] = s'.service.revisitQueue :=
        congrArg BacklogService.revisitQueue hservice
      have hlast : ord.toWeighted.timestamp = s'.now := hsubmitted ord hcall
      constructor <;> rw [← hqueue]
      · refine List.pairwise_append.mpr ⟨h.sorted, List.pairwise_singleton _ _, ?_⟩
        intro wo hwo wo' hwo'
        rw [List.mem_singleton.mp hwo', hlast]
        exact (h.le_now wo hwo).trans hnow
      · intro wo hwo
        rcases List.mem_append.mp hwo with hwo | hwo
        · exact (h.le_now wo hwo).trans hnow
        · rw [List.mem_singleton.mp hwo, hlast]
    · have hqueue : s.service.revisitQueue = s'.service.revisitQueue :=
        congrArg BacklogService.revisitQueue hservice
      constructor <;> rw [← hqueue]
      · exact h.sorted
      · exact fun wo hwo => (h.le_now wo hwo).trans hnow
  · have hsublist := revisitQueue_exec s.service fun ord heq => hcall ⟨ord, heq⟩
    rw [hservice] at hsublist
    exact ⟨h.sorted.sublist hsublist,
      fun wo hwo => (h.le_now wo (hsublist.subset hwo)).trans hnow⟩

/-- In every run in which orders are submitted at the time of a clock, `revisit_queue` stays
ordered, and a revisit at any time moves, drops or deletes exactly what is due. -/
theorem revisited_of_run {store : BacklogStore TOrd} {conf : BacklogConfig} {start : ℤ}
    {labels : List (BacklogCall TOrd TOrderId × Option TOrd)} {s : Clocked TOrd}
    (hrun : Run ClockStep ⟨BacklogService.new store conf, start⟩ labels s) :
    Sorted s.service.revisitQueue ∧ ∀ t,
      Revisited t s.service s.service.revisitQueue
        (s.service.revisitProgressingOrders fun _ => t).1 ∧
      ∀ wo ∈ (s.service.revisitProgressingOrders fun _ => t).1.revisitQueue,
        ¬ t - wo.timestamp > s.service.conf.orderExecTime := by
  have hstart : Clocked.Ordered ⟨BacklogService.new store conf, start⟩ :=
    ⟨List.Pairwise.nil, fun wo hwo => absurd hwo List.not_mem_nil⟩
  have hordered : s.Ordered :=
    Run.invariant (fun s label s' h hstep => ordered_step h hstep) hrun hstart
  refine ⟨hordered.sorted, fun t => ?_⟩
  have hrevisited := revisited_revisitFrom t s.service s.service.revisitQueue hordered.sorted
  refine ⟨hrevisited, fun wo hwo => ?_⟩
  rw [revisitProgressingOrders, hrevisited.revisitQueue] at hwo
  exact of_decide_eq_true (List.mem_filter.mp hwo).2

open Sample

/-- Order 7 is submitted at time 1 and order 8 at time 4. -/
theorem revisited_of_run_sample :
    ∃ s : Clocked ℕ, s.service.revisitQueue = [⟨7, 1⟩, ⟨8, 4⟩] ∧
      Revisited 12 s.service s.service.revisitQueue
        (s.service.revisitProgressingOrders fun _ => 12).1 := by
  refine ⟨_, ?_, ((@revisited_of_run ℕ ℕ _ _ _ Table.empty conf 0
    [(.put ⟨7, 0⟩ 0, none), (.put ⟨8, 0⟩ 0, none), (.checkLater ⟨7, 1⟩, none),
      (.checkLater ⟨8, 4⟩, none)] _
    (.cons (clockStep_exec 0 rfl (by decide) nofun)
      (.cons (clockStep_exec 0 rfl (by decide) nofun)
        (.cons (clockStep_exec 1 rfl (by decide) fun ord heq => by cases heq; rfl)
          (.single (clockStep_exec 4 rfl (by decide) fun ord heq => by cases heq; rfl)))))).2
    12).1⟩
  rfl

end SpectrumOffchain.Backlog
