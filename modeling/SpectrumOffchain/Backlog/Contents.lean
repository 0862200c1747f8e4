import SpectrumOffchain.Backlog.Elimination
import SpectrumOffchain.Backlog.Expiry

/-!
# What is stored in the backlog

A property of orders that holds of every order that is put holds of every order that is
stored, whatever else is called, and so of every order that is handed out
(`AllStored.exec`).  An order stays in the store until it is removed or found expired
(`stored_exec`).  `find_orders` lists the stored orders with a property, and when these are
removed one after the other, none is left (`not_stored_removeAll`).
-/

namespace SpectrumOffchain.Backlog

variable {TOrd TOrderId : Type} [OnChainOrder TOrd TOrderId] [DecidableEq TOrderId]

namespace BacklogService

/-- All stored orders with the property, in the order of the store. -/
def findOrders (s : BacklogService TOrd) (f : TOrd → Bool) : List TOrd :=
  (s.store.entries.filter fun bo => f bo.order).map BacklogOrder.order

/-- Remove the orders one after the other. -/
def removeAll (s : BacklogService TOrd) (orders : List TOrd) : BacklogService TOrd :=
  orders.foldl (fun s ord => s.remove (getSelfRef ord)) s

/-- Every stored order has the property. -/
def AllStored (P : TOrd → Prop) (s : BacklogService TOrd) : Prop :=
  ∀ bo ∈ s.store.entries, P bo.order

variable {s s' : BacklogService TOrd} {P : TOrd → Prop}

theorem mem_entries_removeAll {orders : List TOrd} {bo : BacklogOrder TOrd} :
    bo ∈ (s.removeAll orders).store.entries ↔
      bo ∈ s.store.entries ∧ ∀ ord ∈ orders, bo.selfRef ≠ getSelfRef ord := by
  induction orders generalizing s with
  | nil => simp [removeAll]
  | cons ord rest ih =>
      have hremove : bo ∈ (s.remove (getSelfRef ord)).store.entries ↔
          bo ∈ s.store.entries ∧ bo.selfRef ≠ getSelfRef ord := Table.mem_entries_remove
      rw [removeAll, List.foldl_cons]
      show bo ∈ (removeAll _ rest).store.entries ↔ _
      rw [ih, hremove, List.forall_mem_cons, and_assoc]

theorem AllStored.removeAll (h : AllStored P s) (orders : List TOrd) :
    AllStored P (s.removeAll orders) :=
  fun bo hbo => h bo (mem_entries_removeAll.mp hbo).1

/-- When the orders that were found are removed, none of their kind is left. -/
theorem not_stored_removeAll (s : BacklogService TOrd) (f : TOrd → Bool) :
    AllStored (fun ord => f ord = false) (s.removeAll (s.findOrders f)) := by
  intro bo hbo
  obtain ⟨hstored, hkept⟩ := mem_entries_removeAll.mp hbo
  by_contra hf
  have hfound : bo.order ∈ s.findOrders f :=
    List.mem_map_of_mem (List.mem_filter.mpr ⟨hstored, by simpa using hf⟩)
  exact hkept bo.order hfound rfl

theorem AllStored.remove (h : AllStored P s) (orderId : TOrderId) :
    AllStored P (s.remove orderId) :=
  fun bo hbo => h bo (Table.mem_entries_remove.mp hbo).1

theorem mem_keys_removeExpired {store : BacklogStore TOrd} {expired : List (TOrderId × ℤ)}
    {id : TOrderId} : id ∈ (removeExpired store expired).keys ↔
      id ∈ store.keys ∧ ∀ d ∈ expired, id ≠ d.1 := by
  induction expired generalizing store with
  | nil => simp [removeExpired]
  | cons d rest ih =>
      show id ∈ (removeExpired (store.remove d.1) rest).keys ↔ _
      rw [ih, Table.mem_keys_remove, List.forall_mem_cons, and_assoc]

variable [Weighted TOrd]

theorem Revisits.allStored {queue : List (WeightedOrder TOrderId)} (h : Revisits s queue s')
    (hs : AllStored P s) : AllStored P s' := by
  induction h with
  | done => exact hs
  | moved _ _ ih => exact ih hs
  | dropped _ _ ih => exact ih hs
  | expired _ ih => exact ih (hs.remove _)
  | kept => exact hs

omit [Weighted TOrd] in
theorem Pops.allStored {store store' : BacklogStore TOrd}
    {pq pq' : PriorityQueue (WeightedOrder TOrderId)} {res : Option TOrd}
    (h : Pops store pq res store' pq') (hs : ∀ bo ∈ store.entries, P bo.order) :
    (∀ bo ∈ store'.entries, P bo.order) ∧ ∀ ord, res = some ord → P ord := by
  induction h with
  | stop => exact ⟨hs, nofun⟩
  | expired _ _ ih => exact ih fun bo hbo => hs bo (Table.mem_entries_remove.mp hbo).1
  | dropped _ _ _ ih => exact ih hs
  | found _ hget =>
      refine ⟨hs, fun ord hord => ?_⟩
      cases hord
      exact hs _ (Table.get_eq_some.mp hget).1

theorem AllStored.put (hs : AllStored P s) {ord : PendingOrder TOrd} (hord : P ord.order)
    (pick : ℕ) : AllStored P (s.put ord pick) := by
  intro bo hbo
  unfold BacklogService.put at hbo
  dsimp only at hbo
  split at hbo
  · exact hs bo hbo
  · rcases List.mem_cons.mp hbo with rfl | hbo
    · exact hord
    · exact hs bo (Table.mem_entries_remove.mp hbo).1

/-- What holds of the stored orders and of those that are put holds of the stored orders after a
call, and of an order that is handed out. -/
theorem AllStored.exec (hs : AllStored P s) {call : BacklogCall TOrd TOrderId}
    (hput : ∀ ord pick, call = .put ord pick → P ord.order) :
    AllStored P (call.exec s).1 ∧ ∀ ord, (call.exec s).2 = some ord → P ord := by
  cases call with
  | put ord pick => exact ⟨hs.put (hput ord pick rfl) pick, nofun⟩
  | suspend ord =>
      refine ⟨?_, nofun⟩
      show AllStored P (s.suspend ord).1
      unfold BacklogService.suspend
      split <;> exact hs
  | checkLater ord =>
      refine ⟨?_, nofun⟩
      show AllStored P (s.checkLater ord).1
      unfold BacklogService.checkLater
      split <;> exact hs
  | recharge ord =>
      refine ⟨?_, nofun⟩
      show AllStored P (s.recharge ord)
      unfold BacklogService.recharge
      split <;> exact hs
  | remove orderId => exact ⟨hs.remove orderId, nofun⟩
  | tryPop env =>
      have hrevisit := (revisits_revisitFrom env.clock s s.revisitQueue).allStored hs
      obtain ⟨hpops, -, -⟩ := s.pops_tryPop env rfl
      exact hpops.allStored hrevisit

/-! ## Orders that stay -/

/-- The call takes the order out of the store: it removes it, or finds it expired. -/
def TakesOut (s : BacklogService TOrd) (id : TOrderId) : BacklogCall TOrd TOrderId → Prop
  | .remove orderId => orderId = id
  | .tryPop env => ∃ now, (id, now) ∈ s.expiries env
  | .put _ _ | .suspend _ | .checkLater _ | .recharge _ => False

theorem stored_put (s : BacklogService TOrd) (ord : PendingOrder TOrd) (pick : ℕ) :
    getSelfRef ord.order ∈ (s.put ord pick).store.keys := by
  unfold BacklogService.put
  dsimp only
  split
  case isTrue hstored =>
    obtain ⟨bo, hbo⟩ := Option.isSome_iff_exists.mp hstored
    obtain ⟨hmem, hid⟩ := Table.get_eq_some.mp hbo
    exact List.mem_map.mpr ⟨bo, hmem, hid⟩
  case isFalse => exact Table.mem_keys_put.mpr (.inl rfl)

theorem stored_put_of_stored {id : TOrderId} (h : id ∈ s.store.keys) (ord : PendingOrder TOrd)
    (pick : ℕ) : id ∈ (s.put ord pick).store.keys := by
  unfold BacklogService.put
  dsimp only
  split
  · exact h
  · exact Table.mem_keys_put.mpr (.inr h)

/-- An order stays in the store until a call takes it out. -/
theorem stored_exec {call : BacklogCall TOrd TOrderId} {id : TOrderId} (h : id ∈ s.store.keys)
    (htaken : ¬ s.TakesOut id call) : id ∈ (call.exec s).1.store.keys := by
  cases call with
  | put ord pick => exact stored_put_of_stored h ord pick
  | suspend ord =>
      show id ∈ (s.suspend ord).1.store.keys
      unfold BacklogService.suspend
      split <;> exact h
  | checkLater ord =>
      show id ∈ (s.checkLater ord).1.store.keys
      unfold BacklogService.checkLater
      split <;> exact h
  | recharge ord =>
      show id ∈ (s.recharge ord).store.keys
      unfold BacklogService.recharge
      split <;> exact h
  | remove orderId => exact Table.mem_keys_remove.mpr ⟨h, fun heq => htaken heq.symm⟩
  | tryPop env =>
      show id ∈ (s.tryPop env).1.store.keys
      rw [store_tryPop, mem_keys_removeExpired]
      refine ⟨h, fun d hd heq => htaken ⟨d.2, ?_⟩⟩
      rw [heq]
      exact hd

end BacklogService

end SpectrumOffchain.Backlog
