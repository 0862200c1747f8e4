import SpectrumOffchain.Backlog.Queues

/-!
# How often an order is queued

`occurrences` counts the entries of an order over the three queues.  No loop adds one:
an entry that is revisited moves, and one that is popped goes.  `put` leaves at most one
entry if there was at most one.  `suspend`, `check_later` and `recharge` add one to
whatever is there, so that they keep the entries unique exactly when the order is not
queued (or not stored, or the entry they insert is there already).

## Exactly when

`unique_suspend_iff`, `unique_recharge_iff` and `unique_checkLater_iff` are equivalences,
so that the condition `GivesBack` on a call is not stronger than it has to be.  All three
rest on one argument (`unique_iff_of_added`): of the counts only that of the given order
changes, and it grows by one.

For runs the entries are counted together with what is handed out: a call that does not put
an order adds to this sum at most what it gives back (`occurrences_exec`), and so does a
run (`handedOut_le`, by induction on the run).  After a careful run there is at most one
entry to begin with, which bounds how often the order is handed out before its next `put`.
-/

namespace SpectrumOffchain.Backlog

open Transition

variable {TOrd TOrderId : Type} [OnChainOrder TOrd TOrderId] [DecidableEq TOrderId]

namespace BacklogService

section Occurrences

/-- How many entries of the three queues have the id. -/
def occurrences (s : BacklogService TOrd) (id : TOrderId) : ℕ :=
  count id s.pendingPq.keys + count id s.suspendedPq.keys + count id s.revisitQueue

/-- No order is queued twice. -/
def Unique (s : BacklogService TOrd) : Prop := ∀ id, s.occurrences id ≤ 1

/-- One if the order is handed out, none otherwise. -/
def handed (id : TOrderId) (res : Option TOrd) : ℕ :=
  if res.map getSelfRef = some id then 1 else 0

theorem count_cons (id : TOrderId) (wo : WeightedOrder TOrderId)
    (rest : List (WeightedOrder TOrderId)) :
    count id (wo :: rest) = count id rest + if wo.orderId = id then 1 else 0 := by
  rw [count, List.countP_cons, count]
  simp only [decide_eq_true_eq]

theorem count_append (id : TOrderId) (queue queue' : List (WeightedOrder TOrderId)) :
    count id (queue ++ queue') = count id queue + count id queue' := List.countP_append

/-! ## The loops add no entry -/

variable [Weighted TOrd] {s s' : BacklogService TOrd} {id : TOrderId}

theorem Revisits.count_le {queue : List (WeightedOrder TOrderId)} (h : Revisits s queue s')
    (id : TOrderId) :
    s'.suspendedPq = s.suspendedPq ∧ count id s'.pendingPq.keys + count id s'.revisitQueue ≤
      count id s.pendingPq.keys + count id queue := by
  induction h with
  | done => exact ⟨rfl, le_rfl⟩
  | @moved s s' ord rest bo hget _ ih =>
      obtain ⟨hsuspended, ih⟩ := ih
      refine ⟨hsuspended, ih.trans ?_⟩
      have hid : bo.toWeighted.orderId = ord.orderId := (Table.get_eq_some.mp hget).2
      have hpush : count id (s.pendingPq.push bo.toWeighted (weight bo.order)).keys ≤
          count id s.pendingPq.keys + _ := count_push_le
      rw [hid] at hpush
      rw [count_cons]
      dsimp only
      omega
  | dropped hget _ ih =>
      obtain ⟨hsuspended, ih⟩ := ih
      rw [count_cons]
      exact ⟨hsuspended, by omega⟩
  | expired _ ih =>
      obtain ⟨hsuspended, ih⟩ := ih
      rw [count_cons]
      exact ⟨hsuspended, ih.trans (by dsimp only; omega)⟩
  | kept => exact ⟨rfl, le_rfl⟩

omit [Weighted TOrd] in
theorem Pops.count_le {store store' : BacklogStore TOrd}
    {pq pq' : PriorityQueue (WeightedOrder TOrderId)} {res : Option TOrd}
    (h : Pops store pq res store' pq') (id : TOrderId) :
    count id pq'.keys + handed id res ≤ count id pq.keys := by
  induction h with
  | stop => exact le_rfl
  | expired hmem _ ih =>
      rw [count_remove hmem]
      omega
  | dropped hmem hget _ ih =>
      rw [count_remove hmem]
      omega
  | @found store pq wo bo hmem hget =>
      have hid : getSelfRef bo.order = wo.orderId := (Table.get_eq_some.mp hget).2
      rw [count_remove hmem, handed, Option.map_some, hid]
      simp only [Option.some.injEq, le_refl]

omit [Weighted TOrd] in
theorem occurrences_eq (s : BacklogService TOrd) (rng : Fin 100) (id : TOrderId) :
    s.occurrences id = count id (s.drawnPq rng).keys + count id (s.otherPq rng).keys +
      count id s.revisitQueue := by
  rw [occurrences, drawnPq, otherPq]
  split
  · rfl
  · rw [Nat.add_comm (count id s.pendingPq.keys)]

/-- What is handed out is taken from the queues. -/
theorem occurrences_tryPop (s : BacklogService TOrd) (env : PopEnv) (id : TOrderId) :
    (s.tryPop env).1.occurrences id + handed id (s.tryPop env).2 ≤ s.occurrences id := by
  obtain ⟨hsuspended, hrevisited⟩ :=
    (revisits_revisitFrom env.clock s s.revisitQueue).count_le id
  obtain ⟨hpops, hother, hrevisit⟩ := s.pops_tryPop env rfl
  rw [revisitProgressingOrders] at hpops hother hrevisit
  generalize (revisitFrom env.clock s s.revisitQueue).1 = s₁
    at hsuspended hrevisited hpops hother hrevisit
  have hcount := hpops.count_le id
  have hs₁ : s₁.occurrences id ≤ s.occurrences id := by
    rw [occurrences, occurrences, hsuspended]
    omega
  rw [s₁.occurrences_eq env.rng] at hs₁
  rw [(s.tryPop env).1.occurrences_eq env.rng, hother, hrevisit]
  omega

/-! ## The calls -/

omit [Weighted TOrd] in
/-- One of several entries is found and taken out. -/
theorem count_eraseP (id : TOrderId) (queue : List (WeightedOrder TOrderId)) (orderId : TOrderId) :
    count id (queue.eraseP fun wo => wo.orderId = orderId) ≤ count id queue ∧
      count orderId (queue.eraseP fun wo => wo.orderId = orderId) = count orderId queue - 1 := by
  refine ⟨List.eraseP_sublist.countP_le, ?_⟩
  by_cases hmem : ∃ wo ∈ queue, wo.orderId = orderId
  · obtain ⟨wo, hwo, hid⟩ := hmem
    obtain ⟨wo', before, behind, -, hid', hqueue, herase⟩ :=
      List.exists_of_eraseP (p := fun wo => decide (wo.orderId = orderId)) hwo
        (decide_eq_true hid)
    have hid' : wo'.orderId = orderId := of_decide_eq_true hid'
    rw [herase, hqueue, count_append, count_append, count_cons, if_pos hid']
    omega
  · have hnone : ∀ wo ∈ queue, ¬ (decide (wo.orderId = orderId) = true) :=
      fun wo hwo hid => hmem ⟨wo, hwo, of_decide_eq_true hid⟩
    rw [List.eraseP_of_forall_not hnone, count, List.countP_eq_zero.mpr hnone]

omit [Weighted TOrd] in
theorem count_removeFound (id : TOrderId) (pq : PriorityQueue (WeightedOrder TOrderId))
    (orderId : TOrderId) (pick : ℕ) :
    count id (removeFound pq orderId pick).keys ≤ count id pq.keys ∧
      count orderId (removeFound pq orderId pick).keys = count orderId pq.keys - 1 := by
  unfold removeFound
  split
  · next element hchoose =>
      obtain ⟨hmem, hid⟩ := List.mem_filter.mp (mem_of_choose hchoose)
      have hid : element.orderId = orderId := of_decide_eq_true hid
      have hself : count orderId pq.keys = _ := count_remove hmem
      rw [if_pos hid] at hself
      rw [count_remove hmem]
      exact ⟨Nat.le_add_right _ _, by omega⟩
  · next hchoose =>
      have hnone := List.filter_eq_nil_iff.mp (choose_eq_none.mp hchoose)
      have hcount : count orderId pq.keys = 0 := List.countP_eq_zero.mpr hnone
      exact ⟨le_rfl, by omega⟩

/-- `put` adds no entry of another order. -/
theorem occurrences_put_le (s : BacklogService TOrd) {ord : PendingOrder TOrd} (pick : ℕ)
    (hid : getSelfRef ord.order ≠ id) : (s.put ord pick).occurrences id ≤ s.occurrences id := by
  obtain ⟨hrevisit, -⟩ := count_eraseP id s.revisitQueue (getSelfRef ord.order)
  obtain ⟨hsuspended, -⟩ :=
    count_removeFound id s.suspendedPq (getSelfRef ord.order) pick
  have hpush : count id (s.pendingPq.push ord.toWeighted (weight ord.order)).keys ≤
      count id s.pendingPq.keys + if getSelfRef ord.order = id then 1 else 0 := count_push_le
  rw [if_neg hid] at hpush
  unfold put
  rw [occurrences, occurrences]
  dsimp only
  split <;> omega

/-- `put` leaves one entry of the order if it had one at most. -/
theorem unique_put (hunique : s.Unique) (ord : PendingOrder TOrd) (pick : ℕ) :
    (s.put ord pick).Unique := by
  intro id
  have hle := hunique id
  by_cases hid : getSelfRef ord.order = id
  · obtain ⟨-, hrevisit⟩ := count_eraseP id s.revisitQueue (getSelfRef ord.order)
    obtain ⟨-, hsuspended⟩ :=
      count_removeFound id s.suspendedPq (getSelfRef ord.order) pick
    subst hid
    unfold put
    rw [occurrences] at hle ⊢
    dsimp only
    rw [hrevisit, hsuspended]
    split
    · omega
    · next hany =>
        have hnone : ∀ wo ∈ s.pendingPq.keys,
            ¬ (decide (wo.orderId = getSelfRef ord.order) = true) :=
          fun wo hwo hid => hany (List.any_eq_true.mpr ⟨wo, hwo, hid⟩)
        have hpending : count (getSelfRef ord.order) s.pendingPq.keys = 0 :=
          List.countP_eq_zero.mpr hnone
        have hpush : count (getSelfRef ord.order)
            (s.pendingPq.push ord.toWeighted (weight ord.order)).keys ≤
            count (getSelfRef ord.order) s.pendingPq.keys +
              if getSelfRef ord.order = getSelfRef ord.order then 1 else 0 := count_push_le
        rw [if_pos rfl] at hpush
        omega
  · exact (s.occurrences_put_le pick hid).trans hle

/-! ### Giving back -/

/-- A call that inserts without looking does so for an order that is not queued, or not
stored, or whose entry is replaced by the same one. -/
def GivesBack (s : BacklogService TOrd) : BacklogCall TOrd TOrderId → Prop
  | .suspend ord => ∀ backlogOrd, s.store.get (getSelfRef ord) = some backlogOrd →
      s.occurrences (getSelfRef ord) = 0 ∨
        ⟨getSelfRef ord, backlogOrd.timestamp⟩ ∈ s.suspendedPq.keys
  | .checkLater ord => (s.store.get (getSelfRef ord.order)).isSome →
      s.occurrences (getSelfRef ord.order) = 0
  | .recharge ord => ∀ backlogOrd, s.store.get (getSelfRef ord) = some backlogOrd →
      s.occurrences (getSelfRef ord) = 0 ∨
        ⟨getSelfRef ord, backlogOrd.timestamp⟩ ∈ s.pendingPq.keys
  | _ => True

theorem occurrences_suspend_le (s : BacklogService TOrd) (ord : TOrd) :
    (s.suspend ord).1.occurrences id ≤
      s.occurrences id + if decide (getSelfRef ord = id) then 1 else 0 := by
  unfold suspend
  split
  · next backlogOrd _ =>
      have hpush : count id (s.suspendedPq.push ⟨getSelfRef ord, backlogOrd.timestamp⟩
          (weight ord)).keys ≤
          count id s.suspendedPq.keys + if getSelfRef ord = id then 1 else 0 := count_push_le
      rw [occurrences, occurrences]
      simp only [decide_eq_true_eq]
      omega
  · exact Nat.le_add_right _ _

theorem occurrences_recharge_le (s : BacklogService TOrd) (ord : TOrd) :
    (s.recharge ord).occurrences id ≤
      s.occurrences id + if decide (getSelfRef ord = id) then 1 else 0 := by
  unfold recharge
  split
  · next backlogOrd _ =>
      have hpush : count id (s.pendingPq.push ⟨getSelfRef ord, backlogOrd.timestamp⟩
          (weight ord)).keys ≤
          count id s.pendingPq.keys + if getSelfRef ord = id then 1 else 0 := count_push_le
      rw [occurrences, occurrences]
      simp only [decide_eq_true_eq]
      omega
  · exact Nat.le_add_right _ _

omit [Weighted TOrd] in
theorem occurrences_checkLater_le (s : BacklogService TOrd) (ord : ProgressingOrder TOrd) :
    (s.checkLater ord).1.occurrences id ≤
      s.occurrences id + if decide (getSelfRef ord.order = id) then 1 else 0 := by
  unfold checkLater
  split
  · have hentry : count id [ord.toWeighted] = 0 + if getSelfRef ord.order = id then 1 else 0 :=
      count_cons id ord.toWeighted []
    rw [occurrences, occurrences]
    dsimp only
    rw [count_append, hentry]
    simp only [decide_eq_true_eq]
    omega
  · exact Nat.le_add_right _ _

omit [Weighted TOrd] in
/-- One more entry of an order keeps the entries unique if the order had none. -/
theorem unique_iff_of_added {orderId : TOrderId} (hunique : s.Unique)
    (hadded : ∀ id, s'.occurrences id = s.occurrences id + if orderId = id then 1 else 0) :
    s'.Unique ↔ s.occurrences orderId = 0 := by
  constructor
  · intro h
    have hle := h orderId
    rw [hadded, if_pos rfl] at hle
    omega
  · intro h id
    rw [hadded]
    by_cases hid : orderId = id
    · rw [if_pos hid, ← hid, h]
    · rw [if_neg hid]
      exact hunique id

omit [Weighted TOrd] in
/-- No more entries of any order keep the entries unique. -/
theorem unique_of_same (hunique : s.Unique) (hsame : ∀ id, s'.occurrences id = s.occurrences id) :
    s'.Unique := by
  intro id
  rw [hsame]
  exact hunique id

omit [Weighted TOrd] in
theorem forall_some_iff {bo : BacklogOrder TOrd} {P : BacklogOrder TOrd → Prop} :
    (∀ backlogOrd, some bo = some backlogOrd → P backlogOrd) ↔ P bo := by
  simp only [Option.some.injEq, forall_eq']

theorem unique_suspend_iff (hunique : s.Unique) (ord : TOrd) :
    (s.suspend ord).1.Unique ↔ s.GivesBack (.suspend ord) := by
  rw [suspend, GivesBack]
  cases hget : s.store.get (getSelfRef ord) with
  | none => exact iff_of_true hunique fun _ h => absurd h (Option.some_ne_none _).symm
  | some backlogOrd =>
      rw [forall_some_iff]
      dsimp only
      by_cases hmem : ⟨getSelfRef ord, backlogOrd.timestamp⟩ ∈ s.suspendedPq.keys
      · simp only [hmem, or_true, iff_true]
        refine unique_of_same hunique fun id => ?_
        rw [occurrences, occurrences, count_push_of_mem hmem]
      · simp only [hmem, or_false]
        refine unique_iff_of_added hunique fun id => ?_
        rw [occurrences, occurrences, count_push_of_notMem hmem]
        dsimp only
        omega

theorem unique_recharge_iff (hunique : s.Unique) (ord : TOrd) :
    (s.recharge ord).Unique ↔ s.GivesBack (.recharge ord) := by
  rw [recharge, GivesBack]
  cases hget : s.store.get (getSelfRef ord) with
  | none => exact iff_of_true hunique fun _ h => absurd h (Option.some_ne_none _).symm
  | some backlogOrd =>
      rw [forall_some_iff]
      dsimp only
      by_cases hmem : ⟨getSelfRef ord, backlogOrd.timestamp⟩ ∈ s.pendingPq.keys
      · simp only [hmem, or_true, iff_true]
        refine unique_of_same hunique fun id => ?_
        rw [occurrences, occurrences, count_push_of_mem hmem]
      · simp only [hmem, or_false]
        refine unique_iff_of_added hunique fun id => ?_
        rw [occurrences, occurrences, count_push_of_notMem hmem]
        dsimp only
        omega

omit [Weighted TOrd] in
theorem unique_checkLater_iff (hunique : s.Unique) (ord : ProgressingOrder TOrd) :
    (s.checkLater ord).1.Unique ↔ s.GivesBack (.checkLater ord) := by
  rw [checkLater, GivesBack]
  cases hget : s.store.get (getSelfRef ord.order) with
  | none => exact iff_of_true hunique fun h => absurd h Bool.false_ne_true
  | some backlogOrd =>
      simp only [Option.isSome_some, forall_const]
      refine unique_iff_of_added hunique fun id => ?_
      have hentry : count id [ord.toWeighted] = 0 + if getSelfRef ord.order = id then 1 else 0 :=
        count_cons id ord.toWeighted []
      rw [occurrences, occurrences, count_append, hentry]
      dsimp only
      omega

theorem unique_tryPop (hunique : s.Unique) (env : PopEnv) : (s.tryPop env).1.Unique := by
  intro id
  have hle := s.occurrences_tryPop env id
  have hs := hunique id
  omega

/-- Every call but those that give back an order that is queued keeps the entries unique. -/
theorem unique_exec_iff (hunique : s.Unique) (call : BacklogCall TOrd TOrderId) :
    (call.exec s).1.Unique ↔ s.GivesBack call := by
  cases call with
  | put ord pick => exact iff_of_true (unique_put hunique ord pick) trivial
  | suspend ord => exact unique_suspend_iff hunique ord
  | checkLater ord => exact unique_checkLater_iff hunique ord
  | recharge ord => exact unique_recharge_iff hunique ord
  | remove orderId => exact iff_of_true hunique trivial
  | tryPop env => exact iff_of_true (unique_tryPop hunique env) trivial

/-! ## A fresh service -/

theorem count_foldl_push_le (id : TOrderId) (orders : List (BacklogOrder TOrd))
    (pq : PriorityQueue (WeightedOrder TOrderId)) :
    count id (orders.foldl (fun pq ord => pq.push ord.toWeighted (weight ord.order)) pq).keys ≤
      count id pq.keys + (orders.map BacklogOrder.selfRef).countP fun orderId => orderId = id := by
  induction orders generalizing pq with
  | nil => exact Nat.le_add_right _ _
  | cons ord rest ih =>
      have hpush : count id (pq.push ord.toWeighted (weight ord.order)).keys ≤
          count id pq.keys + if ord.selfRef = id then 1 else 0 := count_push_le
      have hrest := ih (pq.push ord.toWeighted (weight ord.order))
      rw [List.foldl_cons, List.map_cons, List.countP_cons]
      simp only [decide_eq_true_eq]
      omega

/-- The store has distinct keys, and every stored order is queued once. -/
theorem unique_new (store : BacklogStore TOrd) (conf : BacklogConfig) :
    (new store conf).Unique := by
  intro id
  have hfold := count_foldl_push_le id store.entries .empty
  have hstored :
      (store.entries.map BacklogOrder.selfRef).countP (fun orderId => orderId = id) ≤ 1 := by
    have hcount := List.nodup_iff_count_le_one.mp store.distinct id
    rw [List.count_eq_countP] at hcount
    exact hcount
  have hempty : count id (Table.keys (.empty : PriorityQueue (WeightedOrder TOrderId))) = 0 := rfl
  have hnil : count id ([] : List (WeightedOrder TOrderId)) = 0 := rfl
  rw [occurrences, new]
  dsimp only
  omega

end Occurrences

end BacklogService

/-! ## Runs -/

variable [Weighted TOrd]

namespace BacklogCall

/-- A step of the service, labelled by the call and what it hands out. -/
def Step (s : BacklogService TOrd) (label : BacklogCall TOrd TOrderId × Option TOrd)
    (s' : BacklogService TOrd) : Prop :=
  label.1.exec s = (s', label.2)

theorem step_exec {s : BacklogService TOrd} {call : BacklogCall TOrd TOrderId} {res : Option TOrd}
    (h : (call.exec s).2 = res) : Step s (call, res) (call.exec s).1 := Prod.ext rfl h

/-- The steps that give back no order that is queued. -/
abbrev CarefulStep : BacklogService TOrd → BacklogCall TOrd TOrderId × Option TOrd →
    BacklogService TOrd → Prop :=
  restrict Step fun s label => s.GivesBack label.1

/-- Whether the call gives the order back to the queues. -/
def gives (id : TOrderId) : BacklogCall TOrd TOrderId → Bool
  | suspend ord => getSelfRef ord = id
  | checkLater ord => getSelfRef ord.order = id
  | recharge ord => getSelfRef ord = id
  | _ => false

/-- Whether the call puts the order. -/
def puts (id : TOrderId) : BacklogCall TOrd TOrderId → Bool
  | put ord _ => getSelfRef ord.order = id
  | _ => false

end BacklogCall

/-- How often the order is handed out in a run. -/
def handedOut (id : TOrderId) (labels : List (BacklogCall TOrd TOrderId × Option TOrd)) : ℕ :=
  labels.countP fun label => label.2.map getSelfRef = some id

/-- How often the order is given back in a run. -/
def givenBack (id : TOrderId) (labels : List (BacklogCall TOrd TOrderId × Option TOrd)) : ℕ :=
  labels.countP fun label => label.1.gives id

namespace BacklogService

variable {s s' : BacklogService TOrd} {id : TOrderId}

/-- What a call does to the entries of an order it does not put. -/
theorem occurrences_exec (s : BacklogService TOrd) (call : BacklogCall TOrd TOrderId)
    (hput : ¬ call.puts id) :
    (call.exec s).1.occurrences id + handed id (call.exec s).2 ≤
      s.occurrences id + if call.gives id then 1 else 0 := by
  cases call with
  | put ord pick =>
      rw [BacklogCall.puts, decide_eq_true_eq] at hput
      exact s.occurrences_put_le pick hput
  | suspend ord => exact s.occurrences_suspend_le ord
  | checkLater ord => exact s.occurrences_checkLater_le ord
  | recharge ord => exact s.occurrences_recharge_le ord
  | remove orderId => exact le_rfl
  | tryPop env => exact s.occurrences_tryPop env id

/-- Between two `put`s of an order it is handed out at most once for each entry it has, and
once each time it is given back. -/
theorem handedOut_le {labels : List (BacklogCall TOrd TOrderId × Option TOrd)}
    (hrun : Run BacklogCall.Step s labels s') (hput : ∀ label ∈ labels, ¬ label.1.puts id) :
    s'.occurrences id + handedOut id labels ≤ s.occurrences id + givenBack id labels := by
  induction hrun with
  | nil => exact le_rfl
  | @cons s t u label rest hstep _ ih =>
      have hrest := ih fun label' hmem => hput label' (List.mem_cons_of_mem _ hmem)
      have hcall := s.occurrences_exec label.1 (hput label List.mem_cons_self)
      rw [hstep] at hcall
      rw [handedOut, givenBack, List.countP_cons, List.countP_cons]
      rw [handedOut, givenBack] at hrest
      simp only [handed, decide_eq_true_eq] at hcall ⊢
      omega

end BacklogService

/-- As long as no queued order is given back, every order is queued at most once and a call keeps
it so exactly if it gives back no queued order; between two `put`s an order is handed out
at most once more than it is given back. -/
theorem queued_once {store : BacklogStore TOrd} {conf : BacklogConfig}
    {labels : List (BacklogCall TOrd TOrderId × Option TOrd)} {s : BacklogService TOrd}
    (hrun : Run BacklogCall.CarefulStep (BacklogService.new store conf) labels s) :
    s.Unique ∧
    (∀ call : BacklogCall TOrd TOrderId, (call.exec s).1.Unique ↔ s.GivesBack call) ∧
    ∀ (id : TOrderId) (labels' : List (BacklogCall TOrd TOrderId × Option TOrd))
      (s' : BacklogService TOrd), Run BacklogCall.Step s labels' s' →
      (∀ label ∈ labels', ¬ label.1.puts id) →
      handedOut id labels' ≤ givenBack id labels' + 1 := by
  have hunique : s.Unique := by
    refine Run.invariant (I := BacklogService.Unique) ?_ hrun (BacklogService.unique_new store conf)
    rintro s label s' h ⟨hstep, hgives⟩
    have hnext := (BacklogService.unique_exec_iff h label.1).mpr hgives
    rw [hstep] at hnext
    exact hnext
  refine ⟨hunique, BacklogService.unique_exec_iff hunique, ?_⟩
  intro id labels' s' hrun' hput
  have hle := BacklogService.handedOut_le hrun' hput
  have hs := hunique id
  omega

open Sample

/-- Order 7 is put, handed out, submitted and handed out again when it is due. -/
theorem queued_once_sample :
    ∃ s : BacklogService ℕ, s.Unique ∧ ∀ call : BacklogCall ℕ ℕ,
      (call.exec s).1.Unique ↔ s.GivesBack call := by
  obtain ⟨hunique, hcalls, -⟩ := @queued_once ℕ ℕ _ _ _ Table.empty conf
    [(.put ⟨7, 0⟩ 0, none), (.tryPop (env 1), some 7), (.checkLater ⟨7, 1⟩, none),
      (.tryPop (env 20), some 7)] _
    (Run.cons ⟨BacklogCall.step_exec rfl, trivial⟩ (Run.cons ⟨BacklogCall.step_exec rfl, trivial⟩
      (Run.cons ⟨BacklogCall.step_exec rfl, fun _ => rfl⟩
        (Run.single ⟨BacklogCall.step_exec (by decide), trivial⟩))))
  exact ⟨_, hunique, hcalls⟩

/-- Whether only orders are given back that were handed out and not given back since; `held` are
those at the start. -/
def givesHeld (held : List TOrderId) :
    List (BacklogCall TOrd TOrderId × Option TOrd) → Bool
  | [] => true
  | (.suspend ord, _) :: rest =>
      held.contains (getSelfRef ord) && givesHeld (held.erase (getSelfRef ord)) rest
  | (.checkLater ord, _) :: rest =>
      held.contains (getSelfRef ord.order) && givesHeld (held.erase (getSelfRef ord.order)) rest
  | (.recharge ord, _) :: rest =>
      held.contains (getSelfRef ord) && givesHeld (held.erase (getSelfRef ord)) rest
  | (_, res) :: rest => givesHeld ((res.map getSelfRef).toList ++ held) rest

/-- Order 7 is put again while it is in flight, and then suspended: it is queued twice. -/
theorem suspended_after_put :
    ¬ ∀ (labels : List (BacklogCall ℕ ℕ × Option ℕ)) (s : BacklogService ℕ),
      Run BacklogCall.Step (BacklogService.new Table.empty conf) labels s →
      givesHeld [] labels → s.Unique := by
  intro h
  have hunique := h [(.put ⟨7, 0⟩ 0, none), (.tryPop (env 1), some 7), (.put ⟨7, 2⟩ 0, none),
    (.suspend 7, none)] _ (Run.cons (BacklogCall.step_exec rfl) (Run.cons
    (BacklogCall.step_exec rfl) (Run.cons (BacklogCall.step_exec rfl)
    (Run.single (BacklogCall.step_exec rfl))))) rfl 7
  exact absurd hunique (by decide)

end SpectrumOffchain.Backlog
