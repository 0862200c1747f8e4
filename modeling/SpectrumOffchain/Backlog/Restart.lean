import Mathlib.Data.List.Perm.Subperm
import SpectrumOffchain.Backlog.Popping

/-!
# After a restart

The queues are in memory, and `BacklogService::new` makes them anew: every stored order is
pending, those that were given up and those that were submitted included.

`Backed` is the state of a service that has been started and only been popped from since:
every pending entry stands for a stored order, and no order has two.  In such a state an
entry that is met is handed out or has expired, and `Popped` lists the entries that some
calls meet with what became of them.  A call whose draw points at the pending queue meets an
entry as long as there is one (`popped_of_tryPop`), and a call whose draw does not meets
none.  So when there are as many calls of the first kind as stored orders, every order is
handed out once, in the order of the weights, unless it has expired and is deleted
(`recovered_of_restart`).

## Strategy

What some calls do is described as one draining of the pending queue: `Popped` has the
entries that were met, in their order, and the fate of each.  Draining composes
(`Popped.trans`), so it is enough to describe one round of the loop, where an entry is
either handed out or expired (`popped_handedOut`, `popped_expired`), and then the loop, a
call, and a list of calls by induction.

The results are read off the description: the entries come in descending order because each
is the greatest of what was left (`Popped.descending`), no order comes twice because no two
entries are of one order (`Popped.once`), and an order whose entry has been met was handed
out or has expired (`Popped.outcome`).  Every call that draws the pending queue meets an
entry while there is one, so enough of them leave it empty (`drained_of_popAll`).
-/

namespace SpectrumOffchain.Backlog

open PriorityQueue BacklogService

variable {TOrd TOrderId : Type} [OnChainOrder TOrd TOrderId] [DecidableEq TOrderId]
  [Weighted TOrd]

/-! ## What is pending after a restart -/

/-- The entry of a stored order. -/
def BacklogOrder.entry (bo : BacklogOrder TOrd) : WeightedOrder TOrderId × ℕ :=
  (bo.toWeighted, weight bo.order)

theorem mem_foldl_push {orders : List (BacklogOrder TOrd)}
    {pq : PriorityQueue (WeightedOrder TOrderId)} {entry : WeightedOrder TOrderId × ℕ}
    (hdistinct : (orders.map BacklogOrder.selfRef).Nodup)
    (hnew : ∀ bo ∈ orders, ∀ entry ∈ pq.entries, entry.1 ≠ bo.toWeighted) :
    entry ∈ (orders.foldl (fun pq ord => pq.push ord.toWeighted (weight ord.order)) pq).entries ↔
      entry ∈ pq.entries ∨ entry ∈ orders.map BacklogOrder.entry := by
  induction orders generalizing pq with
  | nil => simp
  | cons bo rest ih =>
      obtain ⟨hfirst, hrest⟩ := List.nodup_cons.mp hdistinct
      have hpush : ∀ entry, entry ∈ (pq.push bo.toWeighted (weight bo.order)).entries ↔
          entry = bo.entry ∨ entry ∈ pq.entries := by
        intro entry
        rw [push, Table.put, List.mem_cons, Table.mem_entries_remove]
        exact or_congr_right (and_iff_left_of_imp (hnew bo List.mem_cons_self entry))
      rw [List.foldl_cons, ih hrest, hpush, List.map_cons, List.mem_cons]
      · tauto
      · intro other hother entry hentry heq
        rcases (hpush entry).mp hentry with rfl | hentry
        · apply hfirst
          apply List.mem_map.mpr ⟨other, hother, ?_⟩
          exact (congrArg WeightedOrder.orderId heq).symm
        · exact hnew other (List.mem_cons_of_mem _ hother) entry hentry heq

/-- The service has been started and only been popped from since. -/
structure Backed (s : BacklogService TOrd) : Prop where
  idle : s.revisitQueue = []
  suspended : s.suspendedPq.entries = []
  unique : (ids s.pendingPq.keys).Nodup
  stored : ∀ entry ∈ s.pendingPq.entries,
    ∃ bo, s.store.get bo.selfRef = some bo ∧ entry = bo.entry

theorem mem_pendingPq_new {store : BacklogStore TOrd} {conf : BacklogConfig}
    {entry : WeightedOrder TOrderId × ℕ} :
    entry ∈ (new store conf).pendingPq.entries ↔ entry ∈ store.entries.map BacklogOrder.entry := by
  refine (mem_foldl_push store.distinct ?_).trans ?_
  · exact fun _ _ entry hmem => absurd hmem List.not_mem_nil
  · exact or_iff_right List.not_mem_nil

theorem backed_new (store : BacklogStore TOrd) (conf : BacklogConfig) :
    Backed (new store conf) := by
  refine ⟨rfl, rfl, ?_, ?_⟩
  · rw [ids, Table.keys, List.map_map]
    refine List.Nodup.map_on ?_ (List.Nodup.of_map _ (new store conf).pendingPq.distinct)
    intro entry hentry other hother hid
    obtain ⟨bo, hbo, rfl⟩ := List.mem_map.mp (mem_pendingPq_new.mp hentry)
    obtain ⟨bo', hbo', rfl⟩ := List.mem_map.mp (mem_pendingPq_new.mp hother)
    exact congrArg _ (List.inj_on_of_nodup_map store.distinct hbo hbo' hid)
  · intro entry hentry
    obtain ⟨bo, hbo, rfl⟩ := List.mem_map.mp (mem_pendingPq_new.mp hentry)
    exact ⟨bo, Table.get_eq_some.mpr ⟨hbo, rfl⟩, rfl⟩

theorem length_pendingPq_new (store : BacklogStore TOrd) (conf : BacklogConfig) :
    (new store conf).pendingPq.entries.length ≤ store.entries.length := by
  have hnodup : (new store conf).pendingPq.entries.Nodup :=
    List.Nodup.of_map _ (new store conf).pendingPq.distinct
  have hsubset : (new store conf).pendingPq.entries ⊆ store.entries.map BacklogOrder.entry :=
    fun _ hentry => mem_pendingPq_new.mp hentry
  rw [← List.length_map BacklogOrder.entry]
  exact (hnodup.subperm hsubset).length_le

/-! ## What calls do -/

/-- The draw points at the pending queue. -/
def BacklogService.PopEnv.DrawsPending (conf : BacklogConfig) (env : PopEnv) : Prop :=
  conf.retrySuspendedProb.val ≤ env.rng.val

instance (conf : BacklogConfig) : DecidablePred (PopEnv.DrawsPending conf) := fun _ =>
  inferInstanceAs (Decidable (_ ≤ _))

/-- What becomes of an order whose entry is met. -/
inductive Fate where
  | handedOut
  | expired
  deriving DecidableEq

/-- Some calls meet the entries of the orders of `fates`, one after the other; `readings` are
readings of the clock. -/
structure Popped (readings : Set ℤ) (s : BacklogService TOrd)
    (fates : List (BacklogOrder TOrd × Fate)) (ords : List TOrd) (s' : BacklogService TOrd) :
    Prop where
  drains : Drains s.pendingPq (fates.map fun met => met.1.entry) s'.pendingPq
  stored : ∀ met ∈ fates, s.store.get met.1.selfRef = some met.1
  handedOut : ords = (fates.filter (·.2 = .handedOut)).map (·.1.order)
  expired : ∀ met ∈ fates, met.2 = .expired →
    ∃ now ∈ readings, s.conf.Expired now met.1.toWeighted
  /-- Exactly the expired orders are deleted. -/
  deletes : ∀ id, s'.store.get id =
    if ∃ met ∈ fates, met.2 = .expired ∧ met.1.selfRef = id then none else s.store.get id
  conf_eq : s'.conf = s.conf
  suspended_eq : s'.suspendedPq = s.suspendedPq
  idle : s'.revisitQueue = []

variable {readings : Set ℤ} {s s₁ s' : BacklogService TOrd}
  {fates fates' : List (BacklogOrder TOrd × Fate)} {ords ords' : List TOrd}

namespace Popped

theorem refl (hs : Backed s) : Popped readings s [] [] s where
  drains := .nil _
  stored := by simp
  handedOut := rfl
  expired := by simp
  deletes := by simp
  conf_eq := rfl
  suspended_eq := rfl
  idle := hs.idle

theorem get_of_get (h : Popped readings s fates ords s') {id : TOrderId} {bo : BacklogOrder TOrd}
    (hget : s'.store.get id = some bo) : s.store.get id = some bo := by
  rw [h.deletes] at hget
  split at hget
  · cases hget
  · exact hget

theorem trans (h : Popped readings s fates ords s₁) (h' : Popped readings s₁ fates' ords' s') :
    Popped readings s (fates ++ fates') (ords ++ ords') s' where
  drains := by
    rw [List.map_append]
    exact h.drains.append h'.drains
  stored := by
    intro met hmet
    rcases List.mem_append.mp hmet with hmet | hmet
    · exact h.stored met hmet
    · exact h.get_of_get (h'.stored met hmet)
  handedOut := by rw [h.handedOut, h'.handedOut, List.filter_append, List.map_append]
  expired := by
    intro met hmet hfate
    rcases List.mem_append.mp hmet with hmet | hmet
    · exact h.expired met hmet hfate
    · rw [← h.conf_eq]
      exact h'.expired met hmet hfate
  deletes := by
    intro id
    have happend : (∃ met ∈ fates ++ fates', met.2 = .expired ∧ met.1.selfRef = id) ↔
        (∃ met ∈ fates, met.2 = .expired ∧ met.1.selfRef = id) ∨
          ∃ met ∈ fates', met.2 = .expired ∧ met.1.selfRef = id := by
      simp only [List.mem_append, or_and_right, exists_or]
    rw [h'.deletes, h.deletes, ← ite_or]
    exact if_congr (or_comm.trans happend.symm) rfl rfl
  conf_eq := h'.conf_eq.trans h.conf_eq
  suspended_eq := h'.suspended_eq.trans h.suspended_eq
  idle := h'.idle

/-- No order is met twice. -/
theorem nodup (hs : Backed s) (h : Popped readings s fates ords s') :
    (fates.map (·.1.selfRef)).Nodup := by
  have hunique := hs.unique
  rw [ids, Table.keys, List.map_map] at hunique
  have hids : fates.map (·.1.selfRef) =
      (fates.map fun met => met.1.entry).map fun entry => entry.1.orderId := by
    rw [List.map_map]
    rfl
  rw [hids]
  refine List.Nodup.map_on ?_ h.drains.nodup
  intro entry hentry other hother hid
  exact List.inj_on_of_nodup_map hunique (h.drains.mem_entries.mpr (.inl hentry))
    (h.drains.mem_entries.mpr (.inl hother)) hid

theorem backed (hs : Backed s) (h : Popped readings s fates ords s') : Backed s' := by
  have hsubset : s'.pendingPq.entries ⊆ s.pendingPq.entries := fun _ hentry =>
    h.drains.mem_entries.mpr (.inr hentry)
  have hunique := hs.unique
  rw [ids, Table.keys, List.map_map] at hunique
  refine ⟨h.idle, h.suspended_eq ▸ hs.suspended, ?_, ?_⟩
  · rw [ids, Table.keys, List.map_map]
    refine List.Nodup.map_on ?_ (List.Nodup.of_map _ s'.pendingPq.distinct)
    intro entry hentry other hother
    exact List.inj_on_of_nodup_map hunique (hsubset hentry) (hsubset hother)
  · intro entry hentry
    obtain ⟨bo, hget, rfl⟩ := hs.stored entry (hsubset hentry)
    refine ⟨bo, ?_, rfl⟩
    rw [h.deletes, if_neg, hget]
    -- an expired order that is met has no other entry
    rintro ⟨met, hmet, -, hid⟩
    have hmet : met.1.entry ∈ fates.map fun met => met.1.entry := List.mem_map.mpr ⟨met, hmet, rfl⟩
    have heq : met.1.entry = bo.entry := List.inj_on_of_nodup_map hunique
      (h.drains.mem_entries.mpr (.inl hmet)) (hsubset hentry) hid
    exact h.drains.notMem hmet (heq ▸ hentry)

/-- The orders are handed out as the queue has them, the heaviest first. -/
theorem descending (h : Popped readings s fates ords s') :
    ords.Pairwise fun ord ord' => weight ord' ≤ weight ord := by
  rw [h.handedOut]
  refine List.Pairwise.map _ (fun _ _ hle => hle) (List.Pairwise.filter _ ?_)
  exact List.pairwise_map.mp h.drains.pairwise

theorem once (hs : Backed s) (h : Popped readings s fates ords s') :
    (ords.map getSelfRef).Nodup := by
  rw [h.handedOut, List.map_map]
  exact (h.nodup hs).sublist (List.filter_sublist.map _)

/-- A stored order that is met is handed out and stays stored, or has expired and is deleted. -/
theorem outcome (hs : Backed s) (h : Popped readings s fates ords s') {bo : BacklogOrder TOrd}
    {fate : Fate} (hmet : (bo, fate) ∈ fates) :
    bo.order ∈ ords ∧ s'.store.get bo.selfRef = some bo ∨
      bo.selfRef ∉ ords.map getSelfRef ∧ s'.store.get bo.selfRef = none ∧
        ∃ now ∈ readings, s.conf.Expired now bo.toWeighted := by
  have honly : ∀ other ∈ fates, other.1.selfRef = bo.selfRef → other = (bo, fate) :=
    fun other hother heq => List.inj_on_of_nodup_map (h.nodup hs) hother hmet heq
  cases fate with
  | handedOut =>
      left
      constructor
      · rw [h.handedOut]
        exact List.mem_map.mpr ⟨_, List.mem_filter.mpr ⟨hmet, rfl⟩, rfl⟩
      · rw [h.deletes, if_neg]
        · exact h.stored _ hmet
        · rintro ⟨other, hother, hfate, heq⟩
          rw [honly other hother heq] at hfate
          cases hfate
  | expired =>
      right
      refine ⟨?_, ?_, h.expired _ hmet rfl⟩
      · rw [h.handedOut, List.map_map]
        intro hid
        obtain ⟨other, hother, heq⟩ := List.mem_map.mp hid
        obtain ⟨hother, hfate⟩ := List.mem_filter.mp hother
        rw [honly other hother heq] at hfate
        exact absurd hfate (by simp)
      · rw [h.deletes, if_pos ⟨_, hmet, rfl, rfl⟩]

end Popped

section First

variable {bo : BacklogOrder TOrd} (hs : Backed s) (hmem : bo.entry ∈ s.pendingPq.entries)
  (hmax : ∀ entry ∈ s.pendingPq.entries, entry.2 ≤ bo.entry.2)
  (hget : s.store.get bo.selfRef = some bo)

include hs hmem hmax hget

theorem popped_handedOut : Popped readings s [(bo, .handedOut)] [bo.order]
    { s with pendingPq := s.pendingPq.remove bo.toWeighted } where
  drains := .cons hmem hmax (.nil _)
  stored := by simpa using hget
  handedOut := rfl
  expired := by simp
  deletes := by simp
  conf_eq := rfl
  suspended_eq := rfl
  idle := hs.idle

theorem popped_expired {now : ℤ} (hnow : now ∈ readings)
    (hold : s.conf.Expired now bo.toWeighted) :
    Popped readings s [(bo, .expired)] []
      { s with
        store := s.store.remove bo.selfRef
        pendingPq := s.pendingPq.remove bo.toWeighted } where
  drains := .cons hmem hmax (.nil _)
  stored := by simpa using hget
  handedOut := rfl
  expired := by simpa using ⟨now, hnow, hold⟩
  deletes := by
    intro id
    rw [Table.get_remove]
    simp [eq_comm]
  conf_eq := rfl
  suspended_eq := rfl
  idle := hs.idle

end First

/-- The loop of `try_pop_max_order` meets an entry if there is one, and stops at the first that has
not expired, since its order is stored. -/
theorem popped_popMaxFrom (hs : Backed s) (ties : ℕ → ℕ) (clock : Clock)
    (hclock : ∀ i, clock i ∈ readings) (rounds : ℕ) (hrounds : s.pendingPq.entries.length ≤ rounds)
    {res : Option TOrd} {store' : BacklogStore TOrd} {pq' : PriorityQueue (WeightedOrder TOrderId)}
    (h : popMaxFrom s.conf ties clock s.store s.pendingPq rounds = (res, store', pq')) :
    ∃ fates, Popped readings s fates res.toList { s with store := store', pendingPq := pq' } ∧
      (pq'.entries = [] ∨ fates ≠ []) := by
  induction rounds generalizing s clock with
  | zero =>
      cases h
      exact ⟨[], .refl hs, .inl (List.length_eq_zero_iff.mp (Nat.le_zero.mp hrounds))⟩
  | succ rounds ih =>
      rw [popMaxFrom] at h
      cases hpop : s.pendingPq.pop (ties rounds) with
      | none =>
          rw [hpop] at h
          cases h
          exact ⟨[], .refl hs, .inl (pop_eq_none.mp hpop)⟩
      | some popped =>
          obtain ⟨wo, rest⟩ := popped
          rw [hpop] at h
          dsimp only at h
          obtain ⟨rfl, priority, hmem, hmax⟩ := pop_eq_some hpop
          obtain ⟨bo, hget, hentry⟩ := hs.stored _ hmem
          cases hentry
          have hlength := Table.length_remove (List.mem_map.mpr ⟨_, hmem, rfl⟩ :
            bo.toWeighted ∈ s.pendingPq.keys)
          by_cases hold : clock 0 - bo.toWeighted.timestamp > s.conf.orderLifespan
          · rw [if_pos hold] at h
            have hfirst := popped_expired hs hmem hmax hget (hclock 0) hold
            obtain ⟨fates, hrest, -⟩ := ih (hfirst.backed hs) clock.next
              (fun i => hclock (i + 1)) (by dsimp only; omega) h
            exact ⟨_, hfirst.trans hrest, .inr (List.cons_ne_nil _ _)⟩
          · rw [if_neg hold, show s.store.get bo.toWeighted.orderId = some bo from hget] at h
            cases h
            exact ⟨_, popped_handedOut hs hmem hmax hget, .inr (List.cons_ne_nil _ _)⟩

theorem revisit_of_backed (hs : Backed s) (clock : Clock) :
    s.revisitProgressingOrders clock = (s, clock) := by
  obtain ⟨store, conf, pendingPq, suspendedPq, revisitQueue⟩ := s
  obtain rfl : revisitQueue = [] := hs.idle
  rfl

theorem popped_of_tryPop (hs : Backed s) (env : PopEnv) (hclock : ∀ i, env.clock i ∈ readings)
    (hdraw : env.DrawsPending s.conf) :
    ∃ fates, Popped readings s fates (s.tryPop env).2.toList (s.tryPop env).1 ∧
      ((s.tryPop env).1.pendingPq.entries = [] ∨ fates ≠ []) := by
  have hdrawn : s.drawnPq env.rng = s.pendingPq := if_pos hdraw
  have hwith : ∀ store' pq', s.withDrawnPq env.rng store' pq' =
      { s with store := store', pendingPq := pq' } := fun _ _ => if_pos hdraw
  rw [tryPop_eq s env (revisit_of_backed hs _), hdrawn, hwith]
  exact popped_popMaxFrom hs env.ties env.clock hclock _ le_rfl rfl

/-- The suspended queue has nothing to hand out. -/
theorem tryPop_of_not_drawsPending (hs : Backed s) (env : PopEnv)
    (hdraw : ¬ env.DrawsPending s.conf) : s.tryPop env = (s, none) := by
  have hdrawn : s.drawnPq env.rng = s.suspendedPq := if_neg hdraw
  have hnone : tryPopMaxOrder s.conf env.ties env.clock s.store s.suspendedPq =
      (none, s.store, s.suspendedPq) := by
    rw [tryPopMaxOrder, hs.suspended]
    rfl
  rw [tryPop_eq s env (revisit_of_backed hs _), hdrawn, hnone]
  exact congrArg (·, none) (if_neg hdraw)

/-! ## Calls after a restart -/

/-- Call `try_pop` again and again, and collect what it hands out. -/
def popAll (s : BacklogService TOrd) : List PopEnv → BacklogService TOrd × List TOrd
  | [] => (s, [])
  | env :: envs =>
      let (s₁, res) := s.tryPop env
      let (s', ords) := popAll s₁ envs
      (s', res.toList ++ ords)

theorem popped_of_popAll (hs : Backed s) (envs : List PopEnv)
    (hclocks : ∀ env ∈ envs, ∀ i, env.clock i ∈ readings) :
    ∃ fates, Popped readings s fates (popAll s envs).2 (popAll s envs).1 ∧
      ((popAll s envs).1.pendingPq.entries = [] ∨
        envs.countP (·.DrawsPending s.conf) ≤ fates.length) := by
  induction envs generalizing s with
  | nil => exact ⟨[], .refl hs, .inr le_rfl⟩
  | cons env rest ih =>
      obtain ⟨hclock, hclocks⟩ := List.forall_mem_cons.mp hclocks
      by_cases hdraw : env.DrawsPending s.conf
      · obtain ⟨fates, hpopped, hmet⟩ := popped_of_tryPop hs env hclock hdraw
        obtain ⟨fates', hrest, hall⟩ := ih (hpopped.backed hs) hclocks
        refine ⟨fates ++ fates', hpopped.trans hrest, ?_⟩
        rcases hmet with hempty | hmet
        · left
          have hlength := hrest.drains.length
          rw [hempty, List.length_nil] at hlength
          have hnone : (popAll (s.tryPop env).1 rest).1.pendingPq.entries.length = 0 := by omega
          exact List.length_eq_zero_iff.mp hnone
        · apply hall.imp_right
          intro hlength
          have hpos : 0 < fates.length := List.length_pos_iff.mpr hmet
          rw [hpopped.conf_eq] at hlength
          rw [List.length_append, List.countP_cons, if_pos (decide_eq_true hdraw)]
          omega
      · rw [popAll, tryPop_of_not_drawsPending hs env hdraw, List.countP_cons,
          if_neg (by simpa using hdraw)]
        exact ih hs hclocks

/-- What calls make of the orders of a store that they find pending. -/
structure Recovered (store : BacklogStore TOrd) (conf : BacklogConfig) (envs : List PopEnv)
    (ords : List TOrd) (s' : BacklogService TOrd) : Prop where
  empty : s'.queued = []
  descending : ords.Pairwise fun ord ord' => weight ord' ≤ weight ord
  once : (ords.map getSelfRef).Nodup
  stored : ∀ ord ∈ ords, ∃ bo ∈ store.entries, bo.order = ord
  outcome : ∀ bo ∈ store.entries,
    bo.order ∈ ords ∧ s'.store.get bo.selfRef = some bo ∨
      bo.selfRef ∉ ords.map getSelfRef ∧ s'.store.get bo.selfRef = none ∧
        ∃ env ∈ envs, ∃ i, conf.Expired (env.clock i) bo.toWeighted

/-- As many calls as there are stored orders drain the queue of a service that starts with them. -/
theorem drained_of_popAll {store : BacklogStore TOrd} {conf : BacklogConfig} {envs : List PopEnv}
    (henough : store.entries.length ≤ envs.countP (·.DrawsPending conf))
    (h : Popped readings (new store conf) fates ords s')
    (hall : s'.pendingPq.entries = [] ∨ envs.countP (·.DrawsPending conf) ≤ fates.length) :
    s'.pendingPq.entries = [] := by
  rcases hall with hempty | hlength
  · exact hempty
  · have hpending := length_pendingPq_new store conf
    have hdrained := h.drains.length
    rw [List.length_map] at hdrained
    exact List.length_eq_zero_iff.mp (by omega)

/-- After a restart, when as many calls draw the pending queue as there are stored orders,
every order is handed out once, the heaviest first, unless it is found expired and deleted. -/
theorem recovered_of_restart (store : BacklogStore TOrd) (conf : BacklogConfig)
    (envs : List PopEnv) (henough : store.entries.length ≤ envs.countP (·.DrawsPending conf)) :
    Recovered store conf envs (popAll (new store conf) envs).2
      (popAll (new store conf) envs).1 := by
  have hs := backed_new store conf
  have hclocks : ∀ env ∈ envs, ∀ i,
      env.clock i ∈ {now : ℤ | ∃ env ∈ envs, ∃ i, env.clock i = now} :=
    fun env henv i => ⟨env, henv, i, rfl⟩
  obtain ⟨fates, h, hall⟩ := popped_of_popAll hs envs hclocks
  have hempty := drained_of_popAll henough h hall
  generalize popAll (new store conf) envs = popped at h hempty ⊢
  obtain ⟨s', ords⟩ := popped
  dsimp only at h hempty ⊢
  constructor
  case empty =>
    rw [queued, h.idle, h.suspended_eq, Table.keys, hempty]
    rfl
  case descending => exact h.descending
  case once => exact h.once hs
  case stored =>
    intro ord hord
    rw [h.handedOut] at hord
    obtain ⟨met, hmet, rfl⟩ := List.mem_map.mp hord
    exact ⟨met.1, (Table.get_eq_some.mp (h.stored met (List.mem_filter.mp hmet).1)).1, rfl⟩
  case outcome =>
    intro bo hbo
    -- Every stored order is queued at the restart and the queue ends empty, so it was taken.
    have hpending : bo.entry ∈ (new store conf).pendingPq.entries :=
      mem_pendingPq_new.mpr (List.mem_map.mpr ⟨bo, hbo, rfl⟩)
    have htaken : bo.entry ∈ fates.map fun met => met.1.entry :=
      (h.drains.mem_entries.mp hpending).resolve_right (by simp [hempty])
    obtain ⟨⟨met, fate⟩, hmet, hentry⟩ := List.mem_map.mp htaken
    have hget : store.get met.selfRef = some met := h.stored _ hmet
    have hid : met.selfRef = bo.selfRef := congrArg (fun entry => entry.1.orderId) hentry
    obtain rfl : met = bo :=
      List.inj_on_of_nodup_map store.distinct (Table.get_eq_some.mp hget).1 hbo hid
    apply (h.outcome hs hmet).imp_right
    rintro ⟨hout, hdeleted, _, ⟨env, henv, i, rfl⟩, hold⟩
    exact ⟨hout, hdeleted, env, henv, i, hold⟩

open Sample in
/-- The service was stopped with orders 9, 5 and 3 in the store, and order 9 expires at time 101. -/
theorem recovered_of_restart_sample :
    ∃ s' : BacklogService ℕ,
      Recovered fullBacklog.store conf [env 150, env 151, env 152] [5, 3] s' :=
  ⟨_, recovered_of_restart fullBacklog.store conf [env 150, env 151, env 152] (by decide)⟩

end SpectrumOffchain.Backlog
