import SpectrumOffchain.Backlog.Revisiting

/-!
# When orders expire

Whether an order has outlived its lifespan is judged by the timestamp of a queue entry, which is
a copy.  `suspend` and `recharge` copy the timestamp of the stored order, but `put` and
`check_later` take what they are given, and `remove` leaves the entries of its order where they are.  An
order that is removed and put again has a new timestamp in the store and an old one in
the queue, and is deleted when the old one expires.

`expiries` lists the deletions of a `try_pop` with the readings of the clock at which they were
decided (`store_tryPop`).  They are in time if no entry is older than the stored order
(`Aged`), and a call keeps it so exactly if it meets `KeepsAges` (`aged_exec_iff`).

## Strategy

The two loops are not changed: `revisitExpiries` and `popExpiries` run beside them and list
what they delete, and `store_tryPop` shows that the store after the call is the store before
it less what is on the list.  An entry is on the list only if it has outlived the lifespan
at the reading next to it, so a deletion is in time as soon as the stored order is not
newer than the entry.  That is `Aged`.

For each call there is an equivalence or a proof that nothing has to be asked: the two calls
that take a timestamp from outside can break `Aged` (`aged_put_iff`, `aged_checkLater_iff`),
the others cannot.
-/

namespace SpectrumOffchain.Backlog

open Transition

variable {TOrd TOrderId : Type} [OnChainOrder TOrd TOrderId] [DecidableEq TOrderId]

namespace BacklogService

/-! ## The deletions -/

/-- The deletions of the loop of `revisit_progressing_orders`: which order, and what the clock
shows at this moment. -/
def revisitExpiries (conf : BacklogConfig) (clock : Clock) :
    List (WeightedOrder TOrderId) → List (TOrderId × ℤ)
  | [] => []
  | ord :: rest =>
      if conf.Due (clock 0) ord then
        if conf.Expired (clock 0) ord then
          (ord.orderId, clock 0) :: revisitExpiries conf clock.next rest
        else revisitExpiries conf clock.next rest
      else []

/-- The deletions of the loop of `try_pop_max_order`. -/
def popExpiries (conf : BacklogConfig) (ties : ℕ → ℕ) (clock : Clock) (store : BacklogStore TOrd)
    (pq : PriorityQueue (WeightedOrder TOrderId)) : ℕ → List (TOrderId × ℤ)
  | 0 => []
  | rounds + 1 =>
      match pq.pop (ties rounds) with
      | none => []
      | some (ord, pq) =>
          if conf.Expired (clock 0) ord then (ord.orderId, clock 0) ::
            popExpiries conf ties clock.next (store.remove ord.orderId) pq rounds
          else
            match store.get ord.orderId with
            | some _ => []
            | none => popExpiries conf ties clock.next store pq rounds

/-- Delete the listed orders. -/
def removeExpired (store : BacklogStore TOrd) (expired : List (TOrderId × ℤ)) :
    BacklogStore TOrd :=
  expired.foldl (fun store d => store.remove d.1) store

theorem removeExpired_append (store : BacklogStore TOrd) (first rest : List (TOrderId × ℤ)) :
    removeExpired store (first ++ rest) = removeExpired (removeExpired store first) rest :=
  List.foldl_append

theorem store_popMaxFrom (conf : BacklogConfig) (ties : ℕ → ℕ) (clock : Clock)
    (store : BacklogStore TOrd) (pq : PriorityQueue (WeightedOrder TOrderId)) (rounds : ℕ) :
    (popMaxFrom conf ties clock store pq rounds).2.1 =
      removeExpired store (popExpiries conf ties clock store pq rounds) := by
  induction rounds generalizing clock store pq with
  | zero => rfl
  | succ rounds ih =>
      rw [popMaxFrom, popExpiries]
      cases pq.pop (ties rounds) with
      | none => rfl
      | some popped =>
          obtain ⟨ord, rest⟩ := popped
          dsimp only
          by_cases hold : clock 0 - ord.timestamp > conf.orderLifespan
          · have hexpired : conf.Expired (clock 0) ord := hold
            rw [if_pos hold, if_pos hexpired, ih]
            rfl
          · have hyoung : ¬ conf.Expired (clock 0) ord := hold
            rw [if_neg hold, if_neg hyoung]
            cases store.get ord.orderId with
            | none => exact ih _ _ _
            | some bo => rfl

variable [Weighted TOrd]

theorem store_revisitFrom (clock : Clock) (s : BacklogService TOrd)
    (queue : List (WeightedOrder TOrderId)) :
    (revisitFrom clock s queue).1.store =
      removeExpired s.store (revisitExpiries s.conf clock queue) := by
  induction queue generalizing clock s with
  | nil => rfl
  | cons ord rest ih =>
      unfold revisitFrom revisitExpiries
      dsimp only
      by_cases hdue : clock 0 - ord.timestamp > s.conf.orderExecTime
      · have hdue' : s.conf.Due (clock 0) ord := hdue
        rw [if_pos hdue, if_pos hdue']
        by_cases hle : clock 0 - ord.timestamp ≤ s.conf.orderLifespan
        · have hyoung : ¬ s.conf.Expired (clock 0) ord := not_lt.mpr hle
          rw [if_pos hle, if_neg hyoung]
          cases s.store.get ord.orderId with
          | none => exact ih _ _
          | some bo => exact ih _ _
        · have hexpired : s.conf.Expired (clock 0) ord := not_le.mp hle
          rw [if_neg hle, if_pos hexpired]
          exact ih _ _
      · have hrecent : ¬ s.conf.Due (clock 0) ord := hdue
        rw [if_neg hdue, if_neg hrecent]
        rfl

/-- The deletions of a `try_pop`. -/
def expiries (s : BacklogService TOrd) (env : PopEnv) : List (TOrderId × ℤ) :=
  let (s₁, clock) := s.revisitProgressingOrders env.clock
  revisitExpiries s.conf env.clock s.revisitQueue ++
    popExpiries s₁.conf env.ties clock s₁.store (s₁.drawnPq env.rng)
      (s₁.drawnPq env.rng).entries.length

/-- They are all that happens to the store. -/
theorem store_tryPop (s : BacklogService TOrd) (env : PopEnv) :
    (s.tryPop env).1.store = removeExpired s.store (s.expiries env) := by
  rw [s.tryPop_eq env rfl, store_withDrawnPq, tryPopMaxOrder, store_popMaxFrom, expiries,
    removeExpired_append, ← store_revisitFrom]
  rfl

/-! ## Ages -/

variable {s s' : BacklogService TOrd} {store store' : BacklogStore TOrd}

/-- No entry of the queue is older than the stored order. -/
def AgedIn (store : BacklogStore TOrd) (queue : List (WeightedOrder TOrderId)) : Prop :=
  ∀ wo ∈ queue, ∀ bo, store.get wo.orderId = some bo → bo.timestamp ≤ wo.timestamp

/-- No entry of a queue is older than the stored order. -/
def Aged (s : BacklogService TOrd) : Prop := AgedIn s.store s.queued

omit [Weighted TOrd] in
theorem AgedIn.mono {queue queue' : List (WeightedOrder TOrderId)} (h : AgedIn store queue)
    (hstore : ∀ id bo, store'.get id = some bo → store.get id = some bo)
    (hqueue : queue' ⊆ queue) : AgedIn store' queue' :=
  fun wo hwo bo hbo => h wo (hqueue hwo) bo (hstore _ _ hbo)

omit [Weighted TOrd] in
theorem get_of_get_removeExpired {expired : List (TOrderId × ℤ)} {id : TOrderId}
    {bo : BacklogOrder TOrd} (h : (removeExpired store expired).get id = some bo) :
    store.get id = some bo := by
  induction expired generalizing store with
  | nil => exact h
  | cons d rest ih =>
      have hrest : (store.remove d.1).get id = some bo := ih h
      exact Table.get_of_get_remove hrest

/-- What a revisit moves to `pending_pq` has the age of the stored order. -/
theorem Revisits.agedIn {queue : List (WeightedOrder TOrderId)} (h : Revisits s queue s')
    (hstore : ∀ id bo, s.store.get id = some bo → store.get id = some bo)
    (hpending : AgedIn store s.pendingPq.keys) (hqueue : AgedIn store queue) :
    AgedIn store s'.pendingPq.keys ∧ s'.suspendedPq = s.suspendedPq ∧
      AgedIn store s'.revisitQueue := by
  induction h with
  | done => exact ⟨hpending, rfl, hqueue⟩
  | @moved s s' ord rest bo hget _ ih =>
      refine ih hstore ?_ fun wo hwo => hqueue wo (List.mem_cons_of_mem _ hwo)
      intro wo hwo bo' hbo'
      rcases Table.mem_keys_put.mp hwo with rfl | hwo
      · have hself : bo.toWeighted.orderId = ord.orderId := (Table.get_eq_some.mp hget).2
        have hstored : store.get bo.toWeighted.orderId = some bo := by
          rw [hself]
          exact hstore _ _ hget
        have heq : some bo = some bo' := hstored.symm.trans hbo'
        cases heq
        exact le_rfl
      · exact hpending wo hwo bo' hbo'
  | dropped _ _ ih =>
      exact ih hstore hpending fun wo hwo => hqueue wo (List.mem_cons_of_mem _ hwo)
  | expired _ ih =>
      exact ih (fun id bo hbo => hstore id bo (Table.get_of_get_remove hbo)) hpending
        fun wo hwo => hqueue wo (List.mem_cons_of_mem _ hwo)
  | kept => exact ⟨hpending, rfl, hqueue⟩

/-- A revisit keeps the entries as old as they have to be, also for the orders it deletes. -/
theorem agedIn_revisit (h : s.Aged) (clock : Clock) :
    AgedIn s.store (s.revisitProgressingOrders clock).1.queued := by
  have hleft : ∀ wo ∈ s.pendingPq.keys, wo ∈ s.queued := fun wo hwo =>
    List.mem_append_left _ (List.mem_append_left _ hwo)
  have hmiddle : ∀ wo ∈ s.suspendedPq.keys, wo ∈ s.queued := fun wo hwo =>
    List.mem_append_left _ (List.mem_append_right _ hwo)
  have hright : ∀ wo ∈ s.revisitQueue, wo ∈ s.queued := fun wo hwo =>
    List.mem_append_right _ hwo
  obtain ⟨hpending, hsuspended, hrevisit⟩ :=
    (revisits_revisitFrom clock s s.revisitQueue).agedIn (fun _ _ hbo => hbo)
      (fun wo hwo => h wo (hleft wo hwo)) (fun wo hwo => h wo (hright wo hwo))
  intro wo hwo
  rw [revisitProgressingOrders, queued, hsuspended] at hwo
  rcases List.mem_append.mp hwo with hwo | hwo
  · rcases List.mem_append.mp hwo with hwo | hwo
    · exact hpending wo hwo
    · exact h wo (hmiddle wo hwo)
  · exact hrevisit wo hwo

/-! ### The calls -/

/-- The entries that `put` leaves where they are. -/
def leftBy (s : BacklogService TOrd) (orderId : TOrderId) (pick : ℕ) :
    List (WeightedOrder TOrderId) :=
  s.pendingPq.keys ++ (removeFound s.suspendedPq orderId pick).keys ++
    s.revisitQueue.eraseP fun wo => wo.orderId = orderId

/-- An order that is put is not newer than what is left of it in the queues, or, when it is stored
and gets another entry, not older than the stored one.  A submission is not older than the order. -/
def KeepsAges (s : BacklogService TOrd) : BacklogCall TOrd TOrderId → Prop
  | .put ord pick =>
      match s.store.get (getSelfRef ord.order) with
      | none => ∀ wo ∈ s.leftBy (getSelfRef ord.order) pick,
          wo.orderId = getSelfRef ord.order → ord.timestamp ≤ wo.timestamp
      | some bo => (∀ wo ∈ s.pendingPq.keys, wo.orderId ≠ getSelfRef ord.order) →
          bo.timestamp ≤ ord.timestamp
  | .checkLater ord => ∀ bo, s.store.get (getSelfRef ord.order) = some bo →
      bo.timestamp ≤ ord.timestamp
  | _ => True

theorem keys_removeFound_subset (pq : PriorityQueue (WeightedOrder TOrderId)) (orderId : TOrderId)
    (pick : ℕ) : (removeFound pq orderId pick).keys ⊆ pq.keys := by
  unfold removeFound
  split
  · exact fun wo hwo => (Table.mem_keys_remove.mp hwo).1
  · exact List.Subset.refl _

omit [Weighted TOrd] in
theorem leftBy_subset (s : BacklogService TOrd) (orderId : TOrderId) (pick : ℕ) :
    s.leftBy orderId pick ⊆ s.queued := by
  refine List.append_subset.mpr ⟨List.append_subset.mpr ⟨?_, ?_⟩, ?_⟩
  · exact fun wo hwo => List.mem_append_left _ (List.mem_append_left _ hwo)
  · exact fun wo hwo => List.mem_append_left _
      (List.mem_append_right _ (keys_removeFound_subset _ _ _ hwo))
  · exact fun wo hwo => List.mem_append_right _ (List.eraseP_subset hwo)

/-- `put` queues an order once more unless it is pending. -/
theorem mem_queued_put (s : BacklogService TOrd) (ord : PendingOrder TOrd) (pick : ℕ)
    {wo : WeightedOrder TOrderId} : wo ∈ (s.put ord pick).queued ↔
      wo ∈ s.leftBy (getSelfRef ord.order) pick ∨
        wo = ord.toWeighted ∧ ∀ wo ∈ s.pendingPq.keys, wo.orderId ≠ getSelfRef ord.order := by
  unfold put
  rw [queued, leftBy]
  simp only [List.mem_append]
  split
  · next hany =>
      have hpending : ¬ ∀ wo ∈ s.pendingPq.keys, wo.orderId ≠ getSelfRef ord.order := by
        obtain ⟨wo, hwo, hid⟩ := List.any_eq_true.mp hany
        exact fun hnone => hnone wo hwo (of_decide_eq_true hid)
      simp only [hpending, and_false, or_false]
  · next hany =>
      have hpending : ∀ wo ∈ s.pendingPq.keys, wo.orderId ≠ getSelfRef ord.order :=
        fun wo hwo hid => hany (List.any_eq_true.mpr ⟨wo, hwo, decide_eq_true hid⟩)
      have hpush : wo ∈ (s.pendingPq.push ord.toWeighted (weight ord.order)).keys ↔
          wo = ord.toWeighted ∨ wo ∈ s.pendingPq.keys := Table.mem_keys_put
      rw [hpush, and_iff_left hpending]
      tauto

theorem aged_put_iff (h : s.Aged) (ord : PendingOrder TOrd) (pick : ℕ) :
    (s.put ord pick).Aged ↔ s.KeepsAges (.put ord pick) := by
  have hleft : ∀ wo ∈ s.leftBy (getSelfRef ord.order) pick, ∀ bo,
      s.store.get wo.orderId = some bo → bo.timestamp ≤ wo.timestamp :=
    fun wo hwo => h wo (s.leftBy_subset _ _ hwo)
  rw [Aged, AgedIn, KeepsAges]
  cases hget : s.store.get (getSelfRef ord.order) with
  -- the order is stored with its first timestamp, and its new entry has the one of the call
  | some bo =>
      have hstore : (s.put ord pick).store = s.store := by
        rw [put]
        dsimp only
        rw [if_pos (by rw [hget]; rfl)]
      rw [hstore]
      constructor
      · intro haged hpending
        exact haged ord.toWeighted ((s.mem_queued_put ord pick).mpr (.inr ⟨rfl, hpending⟩)) bo hget
      · intro hle wo hwo bo' hbo'
        rcases (s.mem_queued_put ord pick).mp hwo with hwo | ⟨rfl, hpending⟩
        · exact hleft wo hwo bo' hbo'
        · cases hget.symm.trans hbo'
          exact hle hpending
  -- the store takes the timestamp of the call, and older entries of the order may be left
  | none =>
      have hstore : ∀ id, (s.put ord pick).store.get id =
          if id = getSelfRef ord.order then some ⟨ord.order, ord.timestamp⟩
          else s.store.get id := by
        intro id
        rw [put]
        dsimp only
        rw [if_neg (by rw [hget]; exact Bool.false_ne_true), Table.get_put]
        rfl
      constructor
      · intro haged wo hwo hid
        refine haged wo ((s.mem_queued_put ord pick).mpr (.inl hwo)) ⟨ord.order, ord.timestamp⟩ ?_
        rw [hstore, if_pos hid]
      · intro hle wo hwo bo hbo
        rw [hstore] at hbo
        rcases (s.mem_queued_put ord pick).mp hwo with hwo | ⟨rfl, -⟩
        · split at hbo
          · next hid =>
              cases hbo
              exact hle wo hwo hid
          · exact hleft wo hwo bo hbo
        · have hself : ord.toWeighted.orderId = getSelfRef ord.order := rfl
          rw [if_pos hself] at hbo
          cases hbo
          exact le_rfl

omit [Weighted TOrd] in
theorem aged_checkLater_iff (h : s.Aged) (ord : ProgressingOrder TOrd) :
    (s.checkLater ord).1.Aged ↔ s.KeepsAges (.checkLater ord) := by
  rw [checkLater, KeepsAges]
  cases hget : s.store.get (getSelfRef ord.order) with
  | none => exact iff_of_true h fun bo hbo => absurd hbo (Option.some_ne_none bo).symm
  | some bo =>
      have hqueued : ∀ wo,
          wo ∈ queued { s with revisitQueue := s.revisitQueue ++ [ord.toWeighted] } ↔
            wo ∈ s.queued ∨ wo = ord.toWeighted := by
        intro wo
        rw [queued, queued, ← List.append_assoc, List.mem_append, List.mem_singleton]
      constructor
      · intro haged bo' hbo'
        cases hbo'
        exact haged ord.toWeighted ((hqueued _).mpr (.inr rfl)) bo hget
      · intro hle wo hwo bo' hbo'
        rcases (hqueued wo).mp hwo with hwo | rfl
        · exact h wo hwo bo' hbo'
        · cases hget.symm.trans hbo'
          exact hle bo rfl

omit [Weighted TOrd] in
/-- An entry with the timestamp of the stored order may be queued. -/
theorem aged_of_added (h : s.Aged) (hstore : s'.store = s.store) {ord : TOrd}
    {bo : BacklogOrder TOrd} (hget : s.store.get (getSelfRef ord) = some bo)
    (hqueued : ∀ wo ∈ s'.queued, wo = ⟨getSelfRef ord, bo.timestamp⟩ ∨ wo ∈ s.queued) :
    s'.Aged := by
  intro wo hwo bo' hbo'
  rw [hstore] at hbo'
  rcases hqueued wo hwo with rfl | hwo
  · cases hget.symm.trans hbo'
    exact le_rfl
  · exact h wo hwo bo' hbo'

theorem aged_suspend (h : s.Aged) (ord : TOrd) : (s.suspend ord).1.Aged := by
  unfold suspend
  split
  · next bo hget =>
      refine aged_of_added h rfl hget fun wo hwo => ?_
      simp only [queued, List.mem_append, PriorityQueue.push, Table.mem_keys_put] at hwo ⊢
      tauto
  · exact h

theorem aged_recharge (h : s.Aged) (ord : TOrd) : (s.recharge ord).Aged := by
  unfold recharge
  split
  · next bo hget =>
      refine aged_of_added h rfl hget fun wo hwo => ?_
      simp only [queued, List.mem_append, PriorityQueue.push, Table.mem_keys_put] at hwo ⊢
      tauto
  · exact h

omit [Weighted TOrd] in
theorem aged_remove (h : s.Aged) (orderId : TOrderId) : (s.remove orderId).Aged :=
  AgedIn.mono h (fun _ _ => Table.get_of_get_remove) (List.Subset.refl _)

omit [Weighted TOrd] in
theorem Pops.queue_subset {pq pq' : PriorityQueue (WeightedOrder TOrderId)} {res : Option TOrd}
    (h : Pops store pq res store' pq') : pq'.keys ⊆ pq.keys := by
  induction h with
  | stop => exact List.Subset.refl _
  | expired _ _ ih => exact fun wo hwo => (Table.mem_keys_remove.mp (ih hwo)).1
  | dropped _ _ _ ih => exact fun wo hwo => (Table.mem_keys_remove.mp (ih hwo)).1
  | found _ _ => exact fun wo hwo => (Table.mem_keys_remove.mp hwo).1

omit [DecidableEq TOrderId] [Weighted TOrd] in
theorem mem_queued_iff (rng : Fin 100) {wo : WeightedOrder TOrderId} : wo ∈ s.queued ↔
    wo ∈ (s.drawnPq rng).keys ∨ wo ∈ (s.otherPq rng).keys ∨ wo ∈ s.revisitQueue := by
  rw [queued, List.mem_append, List.mem_append, drawnPq, otherPq]
  split <;> tauto

theorem aged_tryPop (h : s.Aged) (env : PopEnv) : (s.tryPop env).1.Aged := by
  have hrevisited := agedIn_revisit h env.clock
  obtain ⟨hpops, hother, hrevisit⟩ := s.pops_tryPop env rfl
  have hqueue := hpops.queue_subset
  refine AgedIn.mono hrevisited (fun id bo hbo => ?_) fun wo hwo => ?_
  · rw [store_tryPop] at hbo
    exact get_of_get_removeExpired hbo
  · rw [mem_queued_iff env.rng, hother, hrevisit] at hwo
    rw [mem_queued_iff env.rng]
    exact hwo.imp_left fun hwo => hqueue hwo

/-- A call leaves no entry that is older than the stored order exactly if it meets the condition. -/
theorem aged_exec_iff (h : s.Aged) (call : BacklogCall TOrd TOrderId) :
    (call.exec s).1.Aged ↔ s.KeepsAges call := by
  cases call with
  | put ord pick => exact aged_put_iff h ord pick
  | suspend ord => exact iff_of_true (aged_suspend h ord) trivial
  | checkLater ord => exact aged_checkLater_iff h ord
  | recharge ord => exact iff_of_true (aged_recharge h ord) trivial
  | remove orderId => exact iff_of_true (aged_remove h orderId) trivial
  | tryPop env => exact iff_of_true (aged_tryPop h env) trivial

theorem agedIn_foldl_push (store : BacklogStore TOrd) (orders : List (BacklogOrder TOrd))
    (horders : ∀ ord ∈ orders, ord ∈ store.entries)
    (pq : PriorityQueue (WeightedOrder TOrderId)) (hpq : AgedIn store pq.keys) :
    AgedIn store
      (orders.foldl (fun pq ord => pq.push ord.toWeighted (weight ord.order)) pq).keys := by
  induction orders generalizing pq with
  | nil => exact hpq
  | cons ord rest ih =>
      refine ih (fun ord' hord' => horders ord' (List.mem_cons_of_mem _ hord')) _ ?_
      intro wo hwo bo hbo
      rcases Table.mem_keys_put.mp hwo with rfl | hwo
      · have hget : store.get ord.selfRef = some ord :=
          Table.get_eq_some.mpr ⟨horders ord List.mem_cons_self, rfl⟩
        have heq : some ord = some bo := hget.symm.trans hbo
        cases heq
        exact le_rfl
      · exact hpq wo hwo bo hbo

theorem aged_new (store : BacklogStore TOrd) (conf : BacklogConfig) : (new store conf).Aged := by
  intro wo hwo
  rw [queued] at hwo
  rcases List.mem_append.mp hwo with hwo | hwo
  · rcases List.mem_append.mp hwo with hwo | hwo
    · exact agedIn_foldl_push store store.entries (fun _ h => h) .empty
        (fun _ h => absurd h List.not_mem_nil) wo hwo
    · exact absurd hwo List.not_mem_nil
  · exact absurd hwo List.not_mem_nil

/-! ## Deletions in time -/

/-- An order that is deleted because of its age has outlived its lifespan by its own timestamp. -/
def ExpiresInTime (s : BacklogService TOrd) (env : PopEnv) : Prop :=
  ∀ d ∈ s.expiries env, ∀ bo, s.store.get d.1 = some bo →
    s.conf.orderLifespan < d.2 - bo.timestamp

omit [OnChainOrder TOrd TOrderId] [DecidableEq TOrderId] [Weighted TOrd] in
theorem mem_revisitExpiries {conf : BacklogConfig} {clock : Clock}
    {queue : List (WeightedOrder TOrderId)} {d : TOrderId × ℤ}
    (h : d ∈ revisitExpiries conf clock queue) :
    ∃ wo ∈ queue, wo.orderId = d.1 ∧ conf.Expired d.2 wo := by
  induction queue generalizing clock with
  | nil => cases h
  | cons ord rest ih =>
      have hrest : d ∈ revisitExpiries conf clock.next rest →
          ∃ wo ∈ ord :: rest, wo.orderId = d.1 ∧ conf.Expired d.2 wo := fun h =>
        (ih h).imp fun wo hwo => ⟨List.mem_cons_of_mem _ hwo.1, hwo.2⟩
      rw [revisitExpiries] at h
      split at h
      · split at h
        · next hold =>
            rcases List.mem_cons.mp h with rfl | h
            · exact ⟨ord, List.mem_cons_self, rfl, hold⟩
            · exact hrest h
        · exact hrest h
      · cases h

omit [Weighted TOrd] in
theorem mem_popExpiries {conf : BacklogConfig} {ties : ℕ → ℕ} {clock : Clock} {rounds : ℕ}
    {pq : PriorityQueue (WeightedOrder TOrderId)} {d : TOrderId × ℤ}
    (h : d ∈ popExpiries conf ties clock store pq rounds) :
    ∃ wo ∈ pq.keys, wo.orderId = d.1 ∧ conf.Expired d.2 wo := by
  induction rounds generalizing clock store pq with
  | zero => cases h
  | succ rounds ih =>
      rw [popExpiries] at h
      split at h
      · cases h
      · next ord rest hpop =>
          obtain ⟨hmem, rfl⟩ := PriorityQueue.mem_keys_of_pop hpop
          have hrest : ∀ {store : BacklogStore TOrd},
              d ∈ popExpiries conf ties clock.next store (pq.remove ord) rounds →
              ∃ wo ∈ pq.keys, wo.orderId = d.1 ∧ conf.Expired d.2 wo := fun h =>
            (ih h).imp fun wo hwo => ⟨(Table.mem_keys_remove.mp hwo.1).1, hwo.2⟩
          split at h
          · next hold =>
              rcases List.mem_cons.mp h with rfl | h
              · exact ⟨ord, hmem, rfl, hold⟩
              · exact hrest h
          · split at h
            · cases h
            · exact hrest h

theorem conf_revisitFrom (clock : Clock) (s : BacklogService TOrd)
    (queue : List (WeightedOrder TOrderId)) : (revisitFrom clock s queue).1.conf = s.conf := by
  have h := revisits_revisitFrom clock s queue
  generalize (revisitFrom clock s queue).1 = s' at h ⊢
  induction h with
  | done => rfl
  | moved _ _ ih => exact ih
  | dropped _ _ ih => exact ih
  | expired _ ih => exact ih
  | kept => rfl

theorem expiresInTime_of_aged (h : s.Aged) (env : PopEnv) : s.ExpiresInTime env := by
  intro d hd bo hbo
  -- the entry that is judged is not older than the order
  have hentry : ∃ wo, wo.orderId = d.1 ∧ s.conf.Expired d.2 wo ∧ bo.timestamp ≤ wo.timestamp := by
    rcases List.mem_append.mp hd with hd | hd
    · obtain ⟨wo, hwo, hid, hold⟩ := mem_revisitExpiries hd
      exact ⟨wo, hid, hold, h wo (List.mem_append_right _ hwo) bo (hid ▸ hbo)⟩
    · obtain ⟨wo, hwo, hid, hold⟩ := mem_popExpiries hd
      rw [conf_revisitFrom] at hold
      have hqueued := (mem_queued_iff env.rng).mpr (.inl hwo)
      exact ⟨wo, hid, hold, agedIn_revisit h env.clock wo hqueued bo (hid ▸ hbo)⟩
  obtain ⟨wo, -, hold, hle⟩ := hentry
  rw [BacklogConfig.Expired] at hold
  omega

end BacklogService

variable [Weighted TOrd]

/-- In every run in which no entry becomes older than the stored order, `try_pop` deletes only
orders that have outlived their lifespan; and a call leaves no older entry exactly if it meets the
condition. -/
theorem expiresInTime_of_run {store : BacklogStore TOrd} {conf : BacklogConfig}
    {labels : List (BacklogCall TOrd TOrderId × Option TOrd)} {s : BacklogService TOrd}
    (hrun : Run (restrict BacklogCall.Step fun s label => s.KeepsAges label.1)
      (BacklogService.new store conf) labels s) :
    (∀ env, s.ExpiresInTime env ∧
      (s.tryPop env).1.store = BacklogService.removeExpired s.store (s.expiries env)) ∧
    ∀ call : BacklogCall TOrd TOrderId, (call.exec s).1.Aged ↔ s.KeepsAges call := by
  have haged : s.Aged := by
    refine Run.invariant (I := BacklogService.Aged) ?_ hrun (BacklogService.aged_new store conf)
    rintro s label s' h ⟨hstep, hkeeps⟩
    have hnext := (BacklogService.aged_exec_iff h label.1).mpr hkeeps
    rw [hstep] at hnext
    exact hnext
  exact ⟨fun env => ⟨BacklogService.expiresInTime_of_aged haged env, s.store_tryPop env⟩,
    BacklogService.aged_exec_iff haged⟩

open Sample

/-- Order 7 is put, handed out and submitted. -/
theorem expiresInTime_of_run_sample :
    ∃ s : BacklogService ℕ, s.revisitQueue = [⟨7, 1⟩] ∧ s.ExpiresInTime (env 101) := by
  refine ⟨_, ?_, ((@expiresInTime_of_run ℕ ℕ _ _ _ Table.empty conf
    [(.put ⟨7, 0⟩ 0, none), (.tryPop (env 1), some 7), (.checkLater ⟨7, 1⟩, none)] _
    (.cons ⟨BacklogCall.step_exec rfl, fun wo hwo => absurd hwo List.not_mem_nil⟩
      (.cons ⟨BacklogCall.step_exec rfl, trivial⟩
        (.single ⟨BacklogCall.step_exec rfl, fun bo hbo => by cases hbo; decide⟩)))).1 (env 101)).1⟩
  rfl

/-- Order 7 is removed by a rollback and put again, and expires with the entry it had before. -/
theorem put_again_expires_early :
    ¬ ∀ (labels : List (BacklogCall ℕ ℕ × Option ℕ)) (s : BacklogService ℕ),
      Run BacklogCall.Step (BacklogService.new Table.empty conf) labels s →
      ∀ env, s.ExpiresInTime env := by
  intro h
  have hlate := h [(.put ⟨7, 0⟩ 0, none), (.remove 7, none), (.put ⟨7, 50⟩ 0, none)] _
    (.cons (BacklogCall.step_exec rfl) (.cons (BacklogCall.step_exec rfl)
      (.single (BacklogCall.step_exec rfl)))) (env 101) (7, 101) (by decide) ⟨7, 50⟩ rfl
  exact absurd hlate (by decide)

end SpectrumOffchain.Backlog
