import SpectrumOffchain.Backlog.Uniqueness

/-!
# Eliminated orders

`remove` takes an order out of the store and leaves its entries in the queues.  No loop
hands out an order that is not stored, only `put` stores one, and `suspend`, `check_later`
and `recharge` look an order up before they queue it.  So an order that is removed is
never handed out, whatever is left of it in the queues, until it is put again
(`handed_out_of_run`).
-/

namespace SpectrumOffchain.Backlog

open Transition

variable {TOrd TOrderId : Type} [OnChainOrder TOrd TOrderId] [DecidableEq TOrderId]
  [Weighted TOrd]

namespace BacklogService

variable {s s' : BacklogService TOrd} {id : TOrderId}

theorem Revisits.keys_subset {queue : List (WeightedOrder TOrderId)} (h : Revisits s queue s') :
    s'.store.keys ⊆ s.store.keys := by
  induction h with
  | done => exact List.Subset.refl _
  | moved _ _ ih => exact ih
  | dropped _ _ ih => exact ih
  | expired _ ih => exact fun id hmem => (Table.mem_keys_remove.mp (ih hmem)).1
  | kept => exact List.Subset.refl _

omit [Weighted TOrd] in
theorem Pops.keys_subset {store store' : BacklogStore TOrd}
    {pq pq' : PriorityQueue (WeightedOrder TOrderId)} {res : Option TOrd}
    (h : Pops store pq res store' pq') : store'.keys ⊆ store.keys := by
  induction h with
  | stop => exact List.Subset.refl _
  | expired _ _ ih => exact fun id hmem => (Table.mem_keys_remove.mp (ih hmem)).1
  | dropped _ _ _ ih => exact ih
  | found _ _ => exact List.Subset.refl _

theorem keys_tryPop_subset (s : BacklogService TOrd) (env : PopEnv) :
    (s.tryPop env).1.store.keys ⊆ s.store.keys := by
  have hrevisit := (revisits_revisitFrom env.clock s s.revisitQueue).keys_subset
  obtain ⟨hpops, -, -⟩ := s.pops_tryPop env rfl
  exact List.Subset.trans hpops.keys_subset hrevisit

/-- Only `put` stores an order. -/
theorem mem_keys_exec {call : BacklogCall TOrd TOrderId} (hput : ¬ call.puts id)
    (h : id ∈ (call.exec s).1.store.keys) : id ∈ s.store.keys := by
  cases call with
  | put ord pick =>
      rw [BacklogCall.puts, decide_eq_true_eq] at hput
      change id ∈ (s.put ord pick).store.keys at h
      unfold put at h
      dsimp only at h
      split at h
      · exact h
      · rcases Table.mem_keys_put.mp h with rfl | hmem
        · exact absurd rfl hput
        · exact hmem
  | suspend ord =>
      change id ∈ (s.suspend ord).1.store.keys at h
      unfold suspend at h
      split at h <;> exact h
  | checkLater ord =>
      change id ∈ (s.checkLater ord).1.store.keys at h
      unfold checkLater at h
      split at h <;> exact h
  | recharge ord =>
      change id ∈ (s.recharge ord).store.keys at h
      unfold recharge at h
      split at h <;> exact h
  | remove orderId => exact (Table.mem_keys_remove.mp h).1
  | tryPop env => exact s.keys_tryPop_subset env h

/-! ## Orders that are not stored -/

omit [Weighted TOrd] in
theorem get_eq_none_of_notMem {store : BacklogStore TOrd} (h : id ∉ store.keys) :
    store.get id = none := by
  rw [← Option.not_isSome_iff_eq_none, Table.isSome_get]
  exact h

theorem suspend_of_notMem {ord : TOrd} (h : getSelfRef ord ∉ s.store.keys) :
    s.suspend ord = (s, false) := by
  rw [suspend, get_eq_none_of_notMem h]

omit [Weighted TOrd] in
theorem checkLater_of_notMem {ord : ProgressingOrder TOrd}
    (h : getSelfRef ord.order ∉ s.store.keys) : s.checkLater ord = (s, false) := by
  rw [checkLater, get_eq_none_of_notMem h]

theorem recharge_of_notMem {ord : TOrd} (h : getSelfRef ord ∉ s.store.keys) :
    s.recharge ord = s := by
  rw [recharge, get_eq_none_of_notMem h]

omit [Weighted TOrd] in
theorem notMem_remove (s : BacklogService TOrd) (id : TOrderId) :
    id ∉ (s.remove id).store.keys :=
  fun hmem => (Table.mem_keys_remove.mp hmem).2 rfl

/-- What is handed out is stored, then and afterwards. -/
theorem stored_of_step {label : BacklogCall TOrd TOrderId × Option TOrd} {ord : TOrd}
    (hstep : BacklogCall.Step s label s') (hres : label.2 = some ord) :
    getSelfRef ord ∈ s.store.keys ∧ getSelfRef ord ∈ s'.store.keys := by
  obtain ⟨call, res⟩ := label
  obtain rfl : res = some ord := hres
  cases call with
  | tryPop env =>
      have hpop : s.tryPop env = (s', some ord) := hstep
      have hstored := stored_of_tryPop hpop
      have hsubset := s.keys_tryPop_subset env
      rw [hpop] at hsubset
      exact ⟨hsubset hstored, hstored⟩
  | _ => cases hstep

/-- An order that is not stored stays so, and is not handed out, until it is put. -/
theorem not_handed_out_of_run {labels : List (BacklogCall TOrd TOrderId × Option TOrd)}
    (hrun : Run BacklogCall.Step s labels s') (hput : ∀ label ∈ labels, ¬ label.1.puts id)
    (h : id ∉ s.store.keys) :
    id ∉ s'.store.keys ∧ ∀ label ∈ labels, label.2.map getSelfRef ≠ some id := by
  induction hrun with
  | nil => exact ⟨h, fun label hmem => absurd hmem List.not_mem_nil⟩
  | @cons s t u label rest hstep _ ih =>
      obtain ⟨hhead, htail⟩ := List.forall_mem_cons.mp hput
      have hexec : (label.1.exec s).1 = t := congrArg Prod.fst hstep
      have hnext : id ∉ t.store.keys := by
        rw [← hexec]
        exact fun hmem => h (mem_keys_exec hhead hmem)
      obtain ⟨hlast, hrest⟩ := ih htail hnext
      refine ⟨hlast, List.forall_mem_cons.mpr ⟨?_, hrest⟩⟩
      intro hres
      obtain ⟨ord, hord, rfl⟩ := Option.map_eq_some_iff.mp hres
      exact h (stored_of_step hstep hord).1

end BacklogService

/-- Whatever the calls, an order that is handed out is in the store at that moment; once an
order is removed and until it is put again, it is not handed out, and giving it back
leaves the service as it is. -/
theorem handed_out_of_run (s : BacklogService TOrd) :
    (∀ (labels : List (BacklogCall TOrd TOrderId × Option TOrd)) (s' : BacklogService TOrd)
      (env : BacklogService.PopEnv) (ord : TOrd), Run BacklogCall.Step s labels s' →
      (s'.tryPop env).2 = some ord →
      getSelfRef ord ∈ s'.store.keys ∧ getSelfRef ord ∈ (s'.tryPop env).1.store.keys) ∧
    ∀ (id : TOrderId) (labels : List (BacklogCall TOrd TOrderId × Option TOrd))
      (s' : BacklogService TOrd), Run BacklogCall.Step (s.remove id) labels s' →
      (∀ label ∈ labels, ¬ label.1.puts id) →
      id ∉ s'.store.keys ∧ (∀ label ∈ labels, label.2.map getSelfRef ≠ some id) ∧
      (∀ ord : TOrd, getSelfRef ord = id → s'.suspend ord = (s', false)) ∧
      (∀ ord : ProgressingOrder TOrd, getSelfRef ord.order = id → s'.checkLater ord = (s', false)) ∧
      ∀ ord : TOrd, getSelfRef ord = id → s'.recharge ord = s' := by
  constructor
  · intro labels s' env ord _ hres
    have hstep : BacklogCall.Step s' (.tryPop env, some ord) (s'.tryPop env).1 :=
      BacklogCall.step_exec hres
    exact BacklogService.stored_of_step hstep rfl
  · intro id labels s' hrun hput
    obtain ⟨hnot, hlabels⟩ :=
      BacklogService.not_handed_out_of_run hrun hput (s.notMem_remove id)
    refine ⟨hnot, hlabels, ?_, ?_, ?_⟩
    · rintro ord rfl
      exact BacklogService.suspend_of_notMem hnot
    · rintro ord rfl
      exact BacklogService.checkLater_of_notMem hnot
    · rintro ord rfl
      exact BacklogService.recharge_of_notMem hnot

end SpectrumOffchain.Backlog
