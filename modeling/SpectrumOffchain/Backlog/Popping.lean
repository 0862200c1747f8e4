import SpectrumOffchain.Backlog.Elimination
import SpectrumOffchain.Lib.Draining

/-!
# Which order is handed out

`try_pop` takes the queue that the draw points at and drains it until an entry is live: young
enough, and its order still stored.  What it meets before that is dropped, and an order that is
too old is deleted from the store.

The deletions are what makes this more than a search for a maximum.  They change which of
the entries behind are live, unless the queue holds every order once.  Under that
assumption liveness can be judged in the store the loop starts with (`Serves.cons`), and
the order that is handed out is the best one (`popsBest_of_tryPop`).

`Serves` describes what a loop has dropped and what it has left, in terms of the store before
it.  A round drops one entry, and the description of the rest is about the store after the
round; as no other entry is of the same order, the two stores agree on all that is left, and
the description carries over.
-/

namespace SpectrumOffchain.Backlog

open PriorityQueue

variable {TOrd TOrderId : Type} [OnChainOrder TOrd TOrderId] [DecidableEq TOrderId]

/-- The entry is older than orders may get. -/
def BacklogConfig.Expired (conf : BacklogConfig) (now : ℤ) (wo : WeightedOrder TOrderId) : Prop :=
  conf.orderLifespan < now - wo.timestamp

instance (conf : BacklogConfig) (now : ℤ) (wo : WeightedOrder TOrderId) :
    Decidable (conf.Expired now wo) := inferInstanceAs (Decidable (_ < _))

/-- The entry can be handed out. -/
def Live (conf : BacklogConfig) (now : ℤ) (store : BacklogStore TOrd)
    (wo : WeightedOrder TOrderId) : Prop :=
  ¬ conf.Expired now wo ∧ wo.orderId ∈ store.keys

/-- The best order of a queue is handed out, if there is one. -/
structure PopsBest (conf : BacklogConfig) (now : ℤ) (store : BacklogStore TOrd)
    (pq : PriorityQueue (WeightedOrder TOrderId)) (res : Option TOrd) (store' : BacklogStore TOrd)
    (pq' : PriorityQueue (WeightedOrder TOrderId)) : Prop where
  none_iff : res = none ↔ ∀ entry ∈ pq.entries, ¬ Live conf now store entry.1
  best : ∀ ord, res = some ord → ∃ top ∈ pq.entries, Live conf now store top.1 ∧
    (store.get top.1.orderId).map (·.order) = some ord ∧
    (∀ entry ∈ pq.entries, Live conf now store entry.1 → entry.2 ≤ top.2) ∧
    top ∉ pq'.entries ∧ ∀ entry ∈ pq.entries, entry ∉ pq'.entries →
      entry = top ∨ ¬ Live conf now store entry.1 ∧ top.2 ≤ entry.2
  queue : pq'.entries ⊆ pq.entries
  /-- Exactly the orders of the expired entries that were met are deleted. -/
  deletes : ∀ id, store'.get id =
    if ∃ entry ∈ pq.entries, entry ∉ pq'.entries ∧ conf.Expired now entry.1 ∧
      entry.1.orderId = id then none else store.get id

namespace BacklogService

/-! ## The loop -/

/-- What the loop of `try_pop_max_order` does, when it meets the entries `dead` before it stops. -/
structure Serves (conf : BacklogConfig) (now : ℤ) (store : BacklogStore TOrd)
    (pq : PriorityQueue (WeightedOrder TOrderId)) (dead : List (WeightedOrder TOrderId × ℕ))
    (res : Option TOrd) (store' : BacklogStore TOrd)
    (pq' : PriorityQueue (WeightedOrder TOrderId)) : Prop where
  notLive : ∀ entry ∈ dead, ¬ Live conf now store entry.1
  deletes : ∀ id, store'.get id =
    if ∃ entry ∈ dead, conf.Expired now entry.1 ∧ entry.1.orderId = id then none
    else store.get id
  stops : (res = none ∧ pq'.entries = [] ∧ Drains pq dead pq') ∨
    ∃ top bo, Drains pq (dead ++ [top]) pq' ∧ Live conf now store top.1 ∧
      store.get top.1.orderId = some bo ∧ res = some bo.order

variable {conf : BacklogConfig} {now : ℤ} {store store₁ store' : BacklogStore TOrd}
  {pq pq' : PriorityQueue (WeightedOrder TOrderId)} {res : Option TOrd}
  {dead : List (WeightedOrder TOrderId × ℕ)} {entry other : WeightedOrder TOrderId × ℕ}

theorem orderId_ne_of_mem_remove (hunique : (ids pq.keys).Nodup) (hmem : entry ∈ pq.entries)
    (hother : other ∈ (pq.remove entry.1).entries) : other.1.orderId ≠ entry.1.orderId := by
  obtain ⟨hother, hne⟩ := (mem_entries_remove_iff hmem).mp hother
  have hids : ids pq.keys = pq.entries.map fun e => e.1.orderId := by
    rw [ids, Table.keys, List.map_map]
    rfl
  rw [hids] at hunique
  exact fun heq => hne (List.inj_on_of_nodup_map hunique hother hmem heq)

theorem unique_remove (hunique : (ids pq.keys).Nodup) (wo : WeightedOrder TOrderId) :
    (ids (pq.remove wo).keys).Nodup := by
  rw [ids, Table.keys_remove]
  exact hunique.sublist (List.filter_sublist.map _)

/-- An entry that cannot be handed out is taken first.  It is the only one of its order, so that
deleting this order from the store says nothing about the entries behind. -/
theorem Serves.cons (hunique : (ids pq.keys).Nodup) (hmem : entry ∈ pq.entries)
    (hmax : ∀ other ∈ pq.entries, other.2 ≤ entry.2) (hdead : ¬ Live conf now store entry.1)
    (hstore : ∀ id, store₁.get id =
      if conf.Expired now entry.1 ∧ entry.1.orderId = id then none else store.get id)
    (h : Serves conf now store₁ (pq.remove entry.1) dead res store' pq') :
    Serves conf now store pq (entry :: dead) res store' pq' := by
  have hget : ∀ other ∈ (pq.remove entry.1).entries,
      store₁.get other.1.orderId = store.get other.1.orderId := by
    intro other hother
    rw [hstore, if_neg]
    exact fun heq => orderId_ne_of_mem_remove hunique hmem hother heq.2.symm
  have hlive : ∀ other ∈ (pq.remove entry.1).entries,
      (Live conf now store₁ other.1 ↔ Live conf now store other.1) := by
    intro other hother
    rw [Live, Live, ← Table.isSome_get, hget other hother, Table.isSome_get]
  have htaken : ∀ {taken}, Drains (pq.remove entry.1) taken pq' → ∀ other ∈ taken,
      other ∈ (pq.remove entry.1).entries := fun hdrains other hother =>
    hdrains.mem_entries.mpr (.inl hother)
  constructor
  · intro other hother
    rcases List.mem_cons.mp hother with rfl | hother
    · exact hdead
    · have hrest : other ∈ (pq.remove entry.1).entries := by
        rcases h.stops with ⟨-, -, hdrains⟩ | ⟨top, bo, hdrains, -⟩
        · exact htaken hdrains other hother
        · exact htaken hdrains other (List.mem_append_left _ hother)
      rw [← hlive other hrest]
      exact h.notLive other hother
  · intro id
    rw [h.deletes, hstore]
    exact ite_exists_cons none (store.get id)
  · rcases h.stops with ⟨hres, hempty, hdrains⟩ | ⟨top, bo, hdrains, htop, hbo, hres⟩
    · exact Or.inl ⟨hres, hempty, .cons hmem hmax hdrains⟩
    · have hrest := htaken hdrains top (List.mem_append_right _ (List.mem_singleton_self top))
      rw [hlive top hrest] at htop
      rw [hget top hrest] at hbo
      exact Or.inr ⟨top, bo, .cons hmem hmax hdrains, htop, hbo, hres⟩

theorem serves_popMaxFrom (ties : ℕ → ℕ) (rounds : ℕ) (store : BacklogStore TOrd)
    (pq : PriorityQueue (WeightedOrder TOrderId)) (hunique : (ids pq.keys).Nodup)
    (hrounds : pq.entries.length ≤ rounds) :
    ∃ dead, Serves conf now store pq dead
      (popMaxFrom conf ties (fun _ => now) store pq rounds).1
      (popMaxFrom conf ties (fun _ => now) store pq rounds).2.1
      (popMaxFrom conf ties (fun _ => now) store pq rounds).2.2 := by
  have hstop : ∀ {store : BacklogStore TOrd} {pq : PriorityQueue (WeightedOrder TOrderId)},
      pq.entries = [] → Serves conf now store pq [] none store pq := fun hempty =>
    ⟨by simp, by simp, .inl ⟨rfl, hempty, .nil _⟩⟩
  induction rounds generalizing store pq with
  | zero => exact ⟨[], hstop (List.length_eq_zero_iff.mp (Nat.le_zero.mp hrounds))⟩
  | succ rounds ih =>
      unfold popMaxFrom
      cases hpop : pq.pop (ties rounds) with
      | none => exact ⟨[], hstop (pop_eq_none.mp hpop)⟩
      | some popped =>
          obtain ⟨wo, rest⟩ := popped
          obtain ⟨rfl, priority, hmem, hmax⟩ := pop_eq_some hpop
          have hlength := Table.length_remove (List.mem_map.mpr ⟨_, hmem, rfl⟩ : wo ∈ pq.keys)
          have hrest := fun store₁ : BacklogStore TOrd =>
            ih store₁ (pq.remove wo) (unique_remove hunique wo) (by omega)
          dsimp only
          by_cases hold : now - wo.timestamp > conf.orderLifespan
          · -- the order has expired, and is deleted
            have hexpired : conf.Expired now wo := hold
            obtain ⟨dead, hserves⟩ := hrest (store.remove wo.orderId)
            rw [if_pos hold]
            refine ⟨(wo, priority) :: dead,
              hserves.cons hunique hmem hmax (fun h => h.1 hexpired) ?_⟩
            intro id
            rw [Table.get_remove]
            simp only [hexpired, true_and, eq_comm]
          · rw [if_neg hold]
            have hyoung : ∀ id, store.get id =
                if conf.Expired now wo ∧ wo.orderId = id then none else store.get id := fun id =>
              (if_neg fun h => hold h.1).symm
            cases hget : store.get wo.orderId with
            | none =>
                -- its order is not stored any more
                obtain ⟨dead, hserves⟩ := hrest store
                have hgone : ¬ Live conf now store wo := by
                  rw [Live, ← Table.isSome_get, hget]
                  simp
                exact ⟨(wo, priority) :: dead, hserves.cons hunique hmem hmax hgone hyoung⟩
            | some bo =>
                -- the loop ends with the first entry whose order is live
                have hlive : Live conf now store wo :=
                  ⟨hold, Table.isSome_get.mp (by rw [hget]; rfl)⟩
                exact ⟨[], by simp, by simp, .inr ⟨(wo, priority), bo,
                  .cons hmem hmax (.nil _), hlive, hget, rfl⟩⟩

theorem Serves.popsBest (h : Serves conf now store pq dead res store' pq') :
    PopsBest conf now store pq res store' pq' := by
  rcases h.stops with ⟨rfl, hempty, hdrains⟩ | ⟨top, bo, hdrains, htop, hbo, rfl⟩
  · have hmet : ∀ entry, entry ∈ dead ↔ entry ∈ pq.entries ∧ entry ∉ pq'.entries := by
      intro entry
      rw [hdrains.mem_entries, hempty]
      simp
    refine ⟨iff_of_true rfl ?_, by simp, ?_, ?_⟩
    · exact fun entry hmem => h.notLive entry ((hmet entry).mpr ⟨hmem, by simp [hempty]⟩)
    · rw [hempty]
      exact List.nil_subset _
    · intro id
      rw [h.deletes]
      simp only [hmet, and_assoc]
  · obtain ⟨hmem, hbest, hleft, hothers⟩ :=
      @Drains.best _ _ _ _ (fun e => Live conf now store e.1) _ _ hdrains h.notLive
    refine ⟨iff_of_false (by simp) fun hnone => hnone top hmem htop, ?_, ?_, ?_⟩
    · rintro ord hord
      cases hord
      exact ⟨top, hmem, htop, by rw [hbo]; rfl, hbest, hleft, hothers⟩
    · exact fun entry hentry => hdrains.mem_entries.mpr (.inr hentry)
    · intro id
      rw [h.deletes]
      refine if_congr (exists_congr fun entry => ?_) rfl rfl
      constructor
      · rintro ⟨hdead, hold⟩
        have htaken : entry ∈ dead ++ [top] := List.mem_append_left _ hdead
        exact ⟨hdrains.mem_entries.mpr (.inl htaken), hdrains.notMem htaken, hold⟩
      · rintro ⟨hentry, hgone, hold⟩
        have htaken := (hdrains.mem_entries.mp hentry).resolve_right hgone
        rcases List.mem_append.mp htaken with hdead | hlast
        · exact ⟨hdead, hold⟩
        · cases List.mem_singleton.mp hlast
          exact absurd hold.1 htop.1

/-! ## The call -/

theorem revisitFrom_const [Weighted TOrd] (now : ℤ) (s : BacklogService TOrd)
    (queue : List (WeightedOrder TOrderId)) :
    (revisitFrom (fun _ => now) s queue).2 = fun _ => now := by
  induction queue generalizing s with
  | nil => rfl
  | cons ord rest ih =>
      unfold revisitFrom
      dsimp only
      split
      · split
        · split
          · exact ih _
          · exact ih _
        · exact ih _
      · rfl

end BacklogService

variable [Weighted TOrd]

open BacklogService

/-- After the revisit step, `try_pop` hands out the best live order of the queue that the draw
points at, and leaves the other queues alone. -/
theorem popsBest_of_tryPop (s : BacklogService TOrd) (now : ℤ) (rng : Fin 100) (ties : ℕ → ℕ)
    {s₁ s' : BacklogService TOrd} {res : Option TOrd}
    (hs₁ : s₁ = (s.revisitProgressingOrders fun _ => now).1)
    (hunique : (ids (s₁.drawnPq rng).keys).Nodup)
    (h : s.tryPop ⟨fun _ => now, rng, ties⟩ = (s', res)) :
    PopsBest s₁.conf now s₁.store (s₁.drawnPq rng) res s'.store (s'.drawnPq rng) ∧
      s'.otherPq rng = s₁.otherPq rng ∧ s'.revisitQueue = s₁.revisitQueue ∧ s'.conf = s₁.conf := by
  have hclock : (s.revisitProgressingOrders fun _ => now).2 = fun _ => now :=
    revisitFrom_const now s s.revisitQueue
  obtain ⟨dead, hserves⟩ := serves_popMaxFrom ties (s₁.drawnPq rng).entries.length s₁.store
    (s₁.drawnPq rng) hunique le_rfl
  rw [s.tryPop_eq ⟨fun _ => now, rng, ties⟩ (Prod.ext hs₁.symm hclock)] at h
  cases h
  rw [store_withDrawnPq, drawnPq_withDrawnPq, otherPq_withDrawnPq, revisitQueue_withDrawnPq,
    conf_withDrawnPq]
  exact ⟨hserves.popsBest, rfl, rfl, rfl⟩

namespace Sample

/-- Order 9 expires at time 101. -/
def fullBacklog : BacklogService ℕ :=
  (((BacklogService.new Table.empty conf).put ⟨9, 0⟩ 0).put ⟨5, 100⟩ 0).put ⟨3, 100⟩ 0

theorem tryPop_fullBacklog : (fullBacklog.tryPop ⟨fun _ => 150, 50, fun _ => 0⟩).2 = some 5 := by
  decide

end Sample

open Sample in
/-- Order 5 is handed out before order 3 and instead of order 9. -/
theorem popsBest_of_tryPop_sample :
    ∃ s₁ s' : BacklogService ℕ, 9 ∈ ids (s₁.drawnPq 50).keys ∧
      PopsBest s₁.conf 150 s₁.store (s₁.drawnPq 50) (some 5) s'.store (s'.drawnPq 50) := by
  refine ⟨(fullBacklog.revisitProgressingOrders fun _ => 150).1,
    (fullBacklog.tryPop ⟨fun _ => 150, 50, fun _ => 0⟩).1, by decide, ?_⟩
  have hunique :
      (ids ((fullBacklog.revisitProgressingOrders fun _ => 150).1.drawnPq 50).keys).Nodup := by
    decide
  have hpop : fullBacklog.tryPop ⟨fun _ => 150, 50, fun _ => 0⟩ =
      ((fullBacklog.tryPop ⟨fun _ => 150, 50, fun _ => 0⟩).1, some 5) :=
    Prod.ext rfl tryPop_fullBacklog
  exact (popsBest_of_tryPop fullBacklog 150 50 (fun _ => 0) rfl hunique hpop).1

end SpectrumOffchain.Backlog
