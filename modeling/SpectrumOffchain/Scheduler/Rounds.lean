import SpectrumOffchain.Backlog.Contents
import SpectrumOffchain.Executor.TryExecute
import SpectrumOffchain.Lib.Chunks
import SpectrumOffchain.Resolver.EpochIndex
import SpectrumOffchain.Scheduler.Distribution

/-!
# Rounds of the distribution stream

A round of `distribution_stream` takes a due tick, selects the bundles that are still to be
compounded in its epoch, and puts an order for each batch of them into the backlog; then it
defers the tick, to come back to it later.  If no bundles are left it removes the orders of
the epoch from the backlog, and the tick from the schedules.

Nothing holds all three repositories for the length of a round.  Between any two accesses
the ledger may update schedules and bundles, and other parties may put, take and remove
orders; so every access is a step of its own here, and so is every call of the others.

What is handed to the executor is always a batch that was selected (`batches_of_run`).
Once the orders of an epoch are cleared, none of them is handed out before its stakers are
selected again (`cleared_of_run`), even if it was with the executor meanwhile.  A tick is
only lost to an update of its schedule or to a round that found nobody
(`tick_kept_of_run`), and a round that is over has an order for each of the stakers it
selected, unless somebody took the order out (`covered_of_round`).

## Strategy

Each of the four results has an invariant of its own, and the accesses of the stream and of
the others are the cases of its step lemma.

* `AllOrders P` says that the orders that are stored, and those that are about to be put,
  satisfy `P`.  With `P` that an order is a batch of selected bundles (`IsBatch`) this gives
  `batches_of_run`; with `P` that it is not a compound order of the tick it gives
  `cleared_of_run`.  What is handed out was stored, so it satisfies `P` too.
* `Kept` holds the tick to its schedule and asks of the round at hand that it spares it
  (`RoundStage.Spares`).  A round of another pool does so trivially.
* `Covers` follows one order of one round: it is still to be put, or it is stored.

The set `seen` is no part of the program.  It records what has been selected and only grows,
so that what is said of an order in terms of it stays true.
-/

namespace SpectrumOffchain.Scheduler

open Transition Backlog Resolver

/-! ## A round -/

/-- `TICK_SUSPENSION_DURATION`. -/
def tickSuspensionDuration : ℤ := 60 * 30

/-- `stakers.sort()`: ids are compared by their bytes. -/
def sortStakers (stakers : List BundleId) : List BundleId :=
  stakers.insertionSort fun a b => a.tokenId.bytes ≤ b.tokenId.bytes

/-- The orders of a round, one for each batch; `chunks` panics on a size of zero. -/
def compoundOrders (tick : Tick) (batchSize : ℕ) (stakers : List BundleId) :
    Outcome Unit (List Compound) :=
  if batchSize = 0 then .crash
  else .ok ((chunks batchSize stakers).mapIdx fun queueIx xs =>
    { poolId := tick.poolId, epochIx := tick.epochIx, queueIx, stakers := xs })

/-- The orders that a round without stakers looks for. -/
def isCompoundOf (tick : Tick) : Order → Bool
  | .compound c => c.epochIx = tick.epochIx ∧ c.poolId = tick.poolId
  | .deposit _ => false
  | .redeem _ => false

/-- Where the stream is in a round. -/
inductive RoundStage where
  | idle
  /-- A tick was peeked, and the node is asked for the height. -/
  | peeked (tick : Tick)
  | due (tick : Tick)
  /-- These orders are still to be put. -/
  | putting (tick : Tick) (tsNow : ℤ) (orders : List Compound)
  /-- No stakers are left; the orders of the epoch are to be removed. -/
  | clearing (tick : Tick)
  /-- The tick is to be removed. -/
  | finishing (tick : Tick)
  deriving DecidableEq, Repr

/-! ## Batches -/

/-- A batch of the bundles that were selected, in the order of their ids. -/
structure Batch (batchSize : ℕ) (seen : Set EpochIndexKey) (order : Compound) : Prop where
  nonempty : order.stakers ≠ []
  length_le : order.stakers.length ≤ batchSize
  sorted : order.stakers.Pairwise fun a b => a.tokenId.bytes < b.tokenId.bytes
  seen : ∀ id ∈ order.stakers, ⟨order.poolId, order.epochIx, id⟩ ∈ seen

theorem Batch.mono {batchSize : ℕ} {seen seen' : Set EpochIndexKey} {order : Compound}
    (h : Batch batchSize seen order) (hseen : seen ⊆ seen') : Batch batchSize seen' order :=
  ⟨h.nonempty, h.length_le, h.sorted, fun id hid => hseen (h.seen id hid)⟩

/-- The order is a batch, if it is a compound order. -/
def IsBatch (batchSize : ℕ) (seen : Set EpochIndexKey) (ord : Order) : Prop :=
  ∀ order, ord = .compound order → Batch batchSize seen order

theorem IsBatch.mono {batchSize : ℕ} {seen seen' : Set EpochIndexKey} {ord : Order}
    (h : IsBatch batchSize seen ord) (hseen : seen ⊆ seen') : IsBatch batchSize seen' ord :=
  fun order hord => (h order hord).mono hseen

theorem nodup_select (repo : BundleRepo) (poolId : PoolId) (epochIx : ℕ) :
    (repo.select poolId epochIx).Nodup := by
  refine List.Nodup.map_on ?_ (repo.epochIndex.distinct.filter _)
  intro key hkey key' hkey' heq
  obtain ⟨hpool, hepoch⟩ := of_decide_eq_true (List.mem_filter.mp hkey).2
  obtain ⟨hpool', hepoch'⟩ := of_decide_eq_true (List.mem_filter.mp hkey').2
  cases key
  cases key'
  simp_all

theorem mem_sortStakers {stakers : List BundleId} {id : BundleId} :
    id ∈ sortStakers stakers ↔ id ∈ stakers := List.mem_insertionSort _

theorem nodup_sortStakers {stakers : List BundleId} (h : stakers.Nodup) :
    (sortStakers stakers).Nodup :=
  (List.perm_insertionSort _ stakers).nodup_iff.mpr h

/-- Distinct ids are in strictly increasing order. -/
theorem pairwise_sortStakers {stakers : List BundleId} (h : stakers.Nodup) :
    (sortStakers stakers).Pairwise fun a b => a.tokenId.bytes < b.tokenId.bytes := by
  have : Std.Total fun a b : BundleId => a.tokenId.bytes ≤ b.tokenId.bytes :=
    ⟨fun a b => List.le_total a.tokenId.bytes b.tokenId.bytes⟩
  have : IsTrans BundleId fun a b => a.tokenId.bytes ≤ b.tokenId.bytes :=
    ⟨fun _ _ _ hab hbc => List.le_trans hab hbc⟩
  have hsorted : (sortStakers stakers).Pairwise fun a b => a.tokenId.bytes ≤ b.tokenId.bytes :=
    List.pairwise_insertionSort _ _
  refine (hsorted.and (nodup_sortStakers h)).imp ?_
  intro a b h
  by_contra hlt
  have heq : a.tokenId.bytes = b.tokenId.bytes := List.le_antisymm h.1 hlt
  obtain ⟨⟨_, _⟩⟩ := a
  obtain ⟨⟨_, _⟩⟩ := b
  cases heq
  exact h.2 rfl

theorem compoundOrders_eq_ok {tick : Tick} {batchSize : ℕ} {stakers : List BundleId}
    {orders : List Compound} (h : compoundOrders tick batchSize stakers = .ok orders) :
    0 < batchSize ∧ orders = (chunks batchSize stakers).mapIdx fun queueIx xs =>
      { poolId := tick.poolId, epochIx := tick.epochIx, queueIx, stakers := xs } := by
  unfold compoundOrders at h
  split at h
  · cases h
  · cases h
    exact ⟨by omega, rfl⟩

theorem of_mem_compoundOrders {tick : Tick} {batchSize : ℕ} {stakers : List BundleId}
    {orders : List Compound} (h : compoundOrders tick batchSize stakers = .ok orders)
    {order : Compound} (hmem : order ∈ orders) :
    order.poolId = tick.poolId ∧ order.epochIx = tick.epochIx := by
  obtain ⟨-, rfl⟩ := compoundOrders_eq_ok h
  obtain ⟨i, hi, rfl⟩ := List.mem_mapIdx.mp hmem
  exact ⟨rfl, rfl⟩

/-- The orders of a round are batches of the bundles that were selected for it. -/
theorem batch_of_mem_compoundOrders {tick : Tick} {batchSize : ℕ} {stakers : List BundleId}
    {orders : List Compound} (h : compoundOrders tick batchSize (sortStakers stakers) = .ok orders)
    (hnodup : stakers.Nodup) {seen : Set EpochIndexKey}
    (hseen : ∀ id ∈ stakers, ⟨tick.poolId, tick.epochIx, id⟩ ∈ seen) {order : Compound}
    (hmem : order ∈ orders) : Batch batchSize seen order := by
  obtain ⟨hsize, rfl⟩ := compoundOrders_eq_ok h
  obtain ⟨i, hi, rfl⟩ := List.mem_mapIdx.mp hmem
  have hpart := List.getElem_mem hi
  obtain ⟨hne, hlength⟩ := of_mem_chunks hsize hpart
  have hsub := sublist_of_mem_chunks hsize hpart
  exact
    { nonempty := hne
      length_le := hlength
      sorted := (pairwise_sortStakers hnodup).sublist hsub
      seen := fun id hid => hseen id (mem_sortStakers.mp (hsub.subset hid)) }

/-- Each staker is in exactly one of the orders. -/
theorem exists_compoundOrder {tick : Tick} {batchSize : ℕ} {stakers : List BundleId}
    {orders : List Compound} (h : compoundOrders tick batchSize stakers = .ok orders)
    (hnodup : stakers.Nodup) {id : BundleId} (hid : id ∈ stakers) :
    ∃ order ∈ orders, id ∈ order.stakers ∧
      ∀ order' ∈ orders, id ∈ order'.stakers → order' = order := by
  obtain ⟨hsize, rfl⟩ := compoundOrders_eq_ok h
  obtain ⟨i, part, hi, hmem, honly⟩ := exists_chunk hsize hnodup hid
  obtain ⟨hlt, rfl⟩ := List.getElem?_eq_some_iff.mp hi
  refine ⟨_, List.mem_mapIdx.mpr ⟨i, hlt, rfl⟩, hmem, fun order' horder' hmem' => ?_⟩
  obtain ⟨j, hj, rfl⟩ := List.mem_mapIdx.mp horder'
  cases honly j _ (List.getElem?_eq_getElem hj) hmem'
  rfl

/-! ## Ticks of other pools -/

/-- A round of the pool of the tick is about this tick, and has not come out empty. -/
def RoundStage.Spares (tick : Tick) : RoundStage → Prop
  | .idle | .putting _ _ _ => True
  | .peeked tick' | .due tick' => tick'.poolId = tick.poolId → tick' = tick
  | .clearing tick' | .finishing tick' => tick'.poolId ≠ tick.poolId

section OtherPools

variable {repo repo' : ScheduleRepo} {schedule : PoolSchedule} {poolId : PoolId} {key : TickKey}

theorem tickKey_ne (hkey : key.poolId = poolId) (hne : poolId ≠ schedule.poolId) (height : ℕ) :
    key ≠ tickKey schedule.poolId height := by
  rintro rfl
  exact hne hkey.symm

theorem mem_tickEntries_remove_of_ne {tick : Tick} (hne : tick.poolId ≠ poolId)
    (h : key ∈ repo.tickEntries poolId) : key ∈ (repo.remove tick).tickEntries poolId := by
  obtain ⟨hkey, hpool⟩ := ScheduleRepo.mem_tickEntries.mp h
  refine ScheduleRepo.mem_tickEntries.mpr ⟨hkey.imp_right fun hkey => ?_, hpool⟩
  refine Table.mem_keys_remove.mpr ⟨hkey, ?_⟩
  rintro rfl
  exact hne hpool

/-- The schedule of a pool has nothing to do with those of other pools, and with their ticks. -/
theorem handleSchedule_of_ne (h : repo.handleSchedule schedule = .ok repo')
    (hne : poolId ≠ schedule.poolId) :
    repo'.schedules.get poolId = repo.schedules.get poolId ∧
      (key ∈ repo.tickEntries poolId → key ∈ repo'.tickEntries poolId) := by
  rcases ScheduleRepo.handleSchedule_eq_ok h with ⟨-, rfl⟩ | ⟨nextHeight, -, ⟨-, -, rfl⟩ | ⟨-, rfl⟩⟩
  · refine ⟨Store.get_delete_of_ne hne, fun hkey => ?_⟩
    exact ScheduleRepo.mem_tickEntries_clean.mpr ⟨hkey, hne⟩
  · refine ⟨Store.get_put_of_ne hne, fun hkey => ?_⟩
    obtain ⟨hkey, hpool⟩ := ScheduleRepo.mem_tickEntries.mp hkey
    refine ScheduleRepo.mem_tickEntries.mpr ⟨?_, hpool⟩
    rw [ScheduleRepo.mem_ticks_write, ScheduleRepo.mem_deferredTicks_write]
    have hother := tickKey_ne hpool hne
    exact hkey.imp (fun hkey => ⟨⟨.inr hkey, hother _⟩, hother _⟩)
      fun hkey => ⟨⟨hkey, hother _⟩, hother _⟩
  · exact ⟨rfl, id⟩

theorem keyed_handleSchedule
    (hkeyed : ∀ poolId sc, repo.schedules.get poolId = some sc → sc.poolId = poolId)
    (h : repo.handleSchedule schedule = .ok repo') :
    ∀ poolId sc, repo'.schedules.get poolId = some sc → sc.poolId = poolId := by
  rcases ScheduleRepo.handleSchedule_eq_ok h with ⟨-, rfl⟩ | ⟨_, -, ⟨-, -, rfl⟩ | ⟨-, rfl⟩⟩
  · exact Store.forall_get_delete hkeyed
  · exact Store.forall_get_put rfl hkeyed
  · exact hkeyed

end OtherPools

/-! ## The steps -/

section Steps

variable [Blake2b]

/-- The repositories that the stream works on, and what it has ever selected. -/
structure Rounds where
  schedules : ScheduleRepo
  bundles : BundleRepo
  backlog : BacklogService Order
  stage : RoundStage
  seen : Set EpochIndexKey

inductive RoundLabel where
  | peek (tsNow : ℤ)
  | height (heightNow : ℕ)
  | select (tick : Tick) (tsNow : ℤ)
  | selectNone (tick : Tick)
  | put (pick : ℕ)
  | defer
  | clear
  | finish (tsNow : ℤ)
  | schedule (schedule : PoolSchedule)
  | bundle (call : BundleCall)
  | backlog (call : BacklogCall Order OrderId) (res : Option Order)

namespace Rounds

variable (batchSize : ℕ)

inductive Step : Rounds → RoundLabel → Rounds → Prop where
  | peek {s : Rounds} {tsNow : ℤ} {tick : Tick} (hstage : s.stage = .idle)
      (hpeek : s.schedules.peek tsNow = .ok (some tick)) :
      Step s (.peek tsNow) { s with stage := .peeked tick }
  | height {s : Rounds} {tick : Tick} {heightNow : ℕ} (hstage : s.stage = .peeked tick) :
      Step s (.height heightNow)
        { s with stage := if tick.height ≤ heightNow then .due tick else .idle }
  | select {s : Rounds} {tick : Tick} {tsNow : ℤ} {orders : List Compound}
      (hstage : s.stage = .due tick)
      (hstakers : sortStakers (s.bundles.select tick.poolId tick.epochIx) ≠ [])
      (horders : compoundOrders tick batchSize
        (sortStakers (s.bundles.select tick.poolId tick.epochIx)) = .ok orders) :
      Step s (.select tick tsNow)
        { s with
          stage := .putting tick tsNow orders
          seen := s.seen ∪ {key | key.poolId = tick.poolId ∧ key.initEpochIx = tick.epochIx ∧
            key.bundleId ∈ s.bundles.select tick.poolId tick.epochIx} }
  | selectNone {s : Rounds} {tick : Tick} (hstage : s.stage = .due tick)
      (hstakers : sortStakers (s.bundles.select tick.poolId tick.epochIx) = []) :
      Step s (.selectNone tick) { s with stage := .clearing tick }
  | put {s : Rounds} {tick : Tick} {tsNow : ℤ} {order : Compound} {rest : List Compound}
      {pick : ℕ} (hstage : s.stage = .putting tick tsNow (order :: rest)) :
      Step s (.put pick)
        { s with
          backlog := s.backlog.put ⟨.compound order, tsNow⟩ pick
          stage := .putting tick tsNow rest }
  | defer {s : Rounds} {tick : Tick} {tsNow : ℤ} (hstage : s.stage = .putting tick tsNow []) :
      Step s .defer
        { s with
          schedules := s.schedules.defer tick (tsNow + tickSuspensionDuration)
          stage := .idle }
  | clear {s : Rounds} {tick : Tick} (hstage : s.stage = .clearing tick) :
      -- the lock is held for all of the orders
      Step s .clear
        { s with
          backlog := s.backlog.removeAll (s.backlog.findOrders (isCompoundOf tick))
          stage := .finishing tick }
  | finish {s : Rounds} {tick : Tick} {tsNow : ℤ} (hstage : s.stage = .finishing tick) :
      -- only deferred ticks are removed, so that the tick is deferred first
      Step s (.finish tsNow)
        { s with
          schedules := (s.schedules.defer tick (tsNow + tickSuspensionDuration)).remove tick
          stage := .idle }
  | schedule {s : Rounds} {schedule : PoolSchedule} {schedules : ScheduleRepo}
      (hschedules : s.schedules.handleSchedule schedule = .ok schedules) :
      Step s (.schedule schedule) { s with schedules := schedules }
  | bundle {s : Rounds} {call : BundleCall} :
      Step s (.bundle call) { s with bundles := call.exec s.bundles }
  | backlog {s : Rounds} {call : BacklogCall Order OrderId}
      -- a round that cleared the backlog holds its lock until it is over
      (hstage : ∀ tick, s.stage ≠ .finishing tick)
      -- the orders of the ledger are deposits and redeems
      (hput : ∀ ord pick, call = .put ord pick → ∀ c, ord.order ≠ .compound c) :
      Step s (.backlog call (call.exec s.backlog).2)
        { s with backlog := (call.exec s.backlog).1 }

end Rounds

/-! ## What is handed out -/

namespace Rounds

variable {batchSize : ℕ} {s t u : Rounds} {l : RoundLabel} {labels : List RoundLabel}

/-- The orders that are stored, and those that are about to be put, have the property. -/
structure AllOrders (P : Order → Prop) (s : Rounds) : Prop where
  stored : s.backlog.AllStored P
  putting : ∀ tick tsNow orders, s.stage = .putting tick tsNow orders →
    ∀ order ∈ orders, P (.compound order)

theorem AllOrders.mono {P Q : Order → Prop} (h : AllOrders P s) (hPQ : ∀ ord, P ord → Q ord) :
    AllOrders Q s :=
  ⟨fun bo hbo => hPQ _ (h.stored bo hbo), fun tick tsNow orders hstage order hmem =>
    hPQ _ (h.putting tick tsNow orders hstage order hmem)⟩

/-- If the orders of the ledger and those of a new round have the property, all orders keep it, and
what is handed out has it. -/
theorem AllOrders.step {P : Order → Prop} (h : AllOrders P s)
    (hledger : ∀ ord : Order, (∀ c, ord ≠ .compound c) → P ord)
    (hselect : ∀ tick tsNow orders, l = .select tick tsNow → t.stage = .putting tick tsNow orders →
      ∀ order ∈ orders, P (.compound order))
    (hstep : Step batchSize s l t) :
    AllOrders P t ∧ ∀ call ord, l = .backlog call (some ord) → P ord := by
  obtain ⟨hstored, hputting⟩ := h
  cases hstep with
  | peek hstage _ => exact ⟨⟨hstored, fun _ _ _ hl => nomatch hl⟩, fun _ _ hl => nomatch hl⟩
  | height hstage =>
      refine ⟨⟨hstored, fun tick tsNow orders hstage' => ?_⟩, fun _ _ hl => nomatch hl⟩
      dsimp only at hstage'
      split at hstage' <;> cases hstage'
  | @select tick tsNow orders hstage hstakers horders =>
      refine ⟨⟨hstored, fun tick' tsNow' orders' hstage' => ?_⟩, fun _ _ hl => nomatch hl⟩
      cases hstage'
      exact hselect tick tsNow orders rfl rfl
  | selectNone hstage _ => exact ⟨⟨hstored, fun _ _ _ hl => nomatch hl⟩, fun _ _ hl => nomatch hl⟩
  | @put tick tsNow order rest pick hstage =>
      obtain ⟨horder, hrest⟩ := List.forall_mem_cons.mp (hputting _ _ _ hstage)
      refine ⟨⟨hstored.put horder pick, fun tick' tsNow' orders' hstage' => ?_⟩,
        fun _ _ hl => nomatch hl⟩
      cases hstage'
      exact hrest
  | defer hstage => exact ⟨⟨hstored, fun _ _ _ hl => nomatch hl⟩, fun _ _ hl => nomatch hl⟩
  | clear hstage =>
      exact ⟨⟨hstored.removeAll _, fun _ _ _ hl => nomatch hl⟩, fun _ _ hl => nomatch hl⟩
  | finish hstage => exact ⟨⟨hstored, fun _ _ _ hl => nomatch hl⟩, fun _ _ hl => nomatch hl⟩
  | schedule _ => exact ⟨⟨hstored, hputting⟩, fun _ _ hl => nomatch hl⟩
  | bundle => exact ⟨⟨hstored, hputting⟩, fun _ _ hl => nomatch hl⟩
  | @backlog call _ hput =>
      have hP : ∀ ord pick, call = .put ord pick → P ord.order :=
        fun ord pick hcall => hledger ord.order (hput ord pick hcall)
      obtain ⟨hstored', hhanded⟩ := hstored.exec hP
      refine ⟨⟨hstored', hputting⟩, fun call ord hl => ?_⟩
      obtain ⟨rfl, hres⟩ := RoundLabel.backlog.inj hl
      exact hhanded ord hres

/-- No step forgets what was selected. -/
theorem seen_subset (hstep : Step batchSize s l t) : s.seen ⊆ t.seen := by
  cases hstep with
  | select _ _ _ => exact Set.subset_union_left
  | _ => exact subset_rfl

theorem seen_subset_of_run (hrun : Run (Step batchSize) s labels t) : s.seen ⊆ t.seen := by
  induction hrun with
  | nil => exact subset_rfl
  | cons hstep _ ih => exact (seen_subset hstep).trans ih

theorem batched_step (h : AllOrders (IsBatch batchSize s.seen) s) (hstep : Step batchSize s l t) :
    AllOrders (IsBatch batchSize t.seen) t ∧
      ∀ call ord, l = .backlog call (some ord) → IsBatch batchSize t.seen ord := by
  refine (h.mono fun ord hord => hord.mono (seen_subset hstep)).step ?_ ?_ hstep
  · intro ord hord order heq
    exact absurd heq (hord order)
  · rintro tick tsNow orders rfl hputting order hmem _ ⟨⟩
    cases hstep with
    | select hstage _ horders =>
        cases hputting
        exact batch_of_mem_compoundOrders horders (nodup_select _ _ _)
          (fun id hid => .inr ⟨rfl, rfl, hid⟩) hmem

theorem batched_run (h : AllOrders (IsBatch batchSize s.seen) s)
    (hrun : Run (Step batchSize) s labels t) {call : BacklogCall Order OrderId} {ord : Order}
    (hmem : .backlog call (some ord) ∈ labels) : IsBatch batchSize t.seen ord := by
  induction hrun with
  | nil => cases hmem
  | cons hstep hrest ih =>
      obtain ⟨hlater, hhanded⟩ := batched_step h hstep
      rcases List.mem_cons.mp hmem with heq | hmem
      · exact (hhanded call ord heq.symm).mono (seen_subset_of_run hrest)
      · exact ih hlater hmem

/-- Whatever happens between the accesses of the stream: if a backlog starts without compound
orders, every compound order that is ever handed out is for at least one and at most `batch_size`
bundles, which are distinct and in the order of their ids, and each of which the stream has
selected for this pool and this epoch. -/
theorem batches_of_run (hstage : s.stage = .idle)
    (hstored : ∀ bo ∈ s.backlog.store.entries, ∀ order, bo.order ≠ .compound order)
    (hrun : Run (Step batchSize) s labels t) {call : BacklogCall Order OrderId}
    {order : Compound} (hmem : .backlog call (some (.compound order)) ∈ labels) :
    Batch batchSize t.seen order := by
  refine batched_run ⟨?_, ?_⟩ hrun hmem order rfl
  · intro bo hbo order hord
    exact absurd hord (hstored bo hbo order)
  · intro tick tsNow orders hputting
    rw [hstage] at hputting
    cases hputting

/-! ## An epoch that is over -/

theorem cleared_step {tick : Tick} (h : AllOrders (fun ord => isCompoundOf tick ord = false) s)
    (hselect : ∀ tick' tsNow, .select tick' tsNow = l →
      ¬ (tick'.epochIx = tick.epochIx ∧ tick'.poolId = tick.poolId))
    (hstep : Step batchSize s l t) :
    AllOrders (fun ord => isCompoundOf tick ord = false) t ∧
      ∀ call ord, l = .backlog call (some ord) → isCompoundOf tick ord = false := by
  refine h.step ?_ ?_ hstep
  · intro ord hord
    cases ord with
    | compound c => exact absurd rfl (hord c)
    | deposit _ => rfl
    | redeem _ => rfl
  · intro tick' tsNow orders hl hputting order hmem
    have hother := hselect tick' tsNow hl.symm
    subst hl
    cases hstep with
    | select _ _ horders =>
        cases hputting
        obtain ⟨hpool, hepoch⟩ := of_mem_compoundOrders horders hmem
        rw [isCompoundOf, hpool, hepoch]
        exact decide_eq_false hother

theorem cleared_run {tick : Tick} (h : AllOrders (fun ord => isCompoundOf tick ord = false) s)
    (hrun : Run (Step batchSize) s labels t)
    (hselect : ∀ tick' tsNow, .select tick' tsNow ∈ labels →
      ¬ (tick'.epochIx = tick.epochIx ∧ tick'.poolId = tick.poolId))
    {call : BacklogCall Order OrderId} {ord : Order} (hmem : .backlog call (some ord) ∈ labels) :
    isCompoundOf tick ord = false := by
  induction hrun with
  | nil => cases hmem
  | cons hstep hrest ih =>
      have hfirst := fun tick' tsNow heq =>
        hselect tick' tsNow (List.mem_cons.mpr (.inl heq))
      obtain ⟨hlater, hhanded⟩ := cleared_step h hfirst hstep
      rcases List.mem_cons.mp hmem with heq | hmem
      · exact hhanded call ord heq.symm
      · refine ih hlater (fun tick' tsNow hmem' => ?_) hmem
        exact hselect tick' tsNow (List.mem_cons_of_mem _ hmem')

/-- A round that finds no bundles removes the orders of the epoch; from then on, until the stream
selects bundles for this epoch again, none is handed out, wherever the orders were when the round
was over. -/
theorem cleared_of_run {tick : Tick} (hstage : s.stage = .clearing tick)
    (hclear : Step batchSize s .clear t) (hrun : Run (Step batchSize) t labels u)
    (hselect : ∀ tick' tsNow, .select tick' tsNow ∈ labels →
      ¬ (tick'.epochIx = tick.epochIx ∧ tick'.poolId = tick.poolId))
    {call : BacklogCall Order OrderId} {order : Compound}
    (hmem : .backlog call (some (.compound order)) ∈ labels) :
    ¬ (order.epochIx = tick.epochIx ∧ order.poolId = tick.poolId) := by
  have hcleared : AllOrders (fun ord => isCompoundOf tick ord = false) t := by
    cases hclear with
    | clear hstage' =>
        cases hstage.symm.trans hstage'
        exact ⟨BacklogService.not_stored_removeAll _ _, nofun⟩
  exact of_decide_eq_false (cleared_run hcleared hrun hselect hmem)

/-! ## Ticks that stay -/

/-- The tick is that of the stored schedule of its pool and has an entry, and a round of this pool
spares it. -/
structure Kept (sc : PoolSchedule) (tick : Tick) (s : Rounds) : Prop where
  keyed : ∀ poolId sc, s.schedules.schedules.get poolId = some sc → sc.poolId = poolId
  stored : s.schedules.schedules.get tick.poolId = some sc
  entry : tickKey tick.poolId tick.height ∈ s.schedules.tickEntries tick.poolId
  spares : s.stage.Spares tick

/-- A round loses the tick only after it found no bundles for it. -/
theorem kept_of_step {sc : PoolSchedule} {tick : Tick} (htick : Tick.tryFrom sc = .ok tick)
    (h : Kept sc tick s)
    (hschedule : ∀ schedule, l = .schedule schedule → schedule.poolId ≠ tick.poolId)
    (hselect : l = .selectNone tick → s.bundles.select tick.poolId tick.epochIx ≠ [])
    (hstep : Step batchSize s l t) : Kept sc tick t := by
  obtain ⟨hkeyed, hstored, hentry, hspares⟩ := h
  cases hstep with
  | @peek tsNow tick' hstage hpeek =>
      refine ⟨hkeyed, hstored, hentry, fun hpool => ?_⟩
      -- it is the tick of the stored schedule that is peeked
      obtain ⟨poolId, sc', -, hsc', htick'⟩ := ScheduleRepo.peek_eq_some hpeek
      have hid : poolId = tick.poolId := by
        rw [← hpool, (Tick.of_tryFrom htick').1, hkeyed poolId sc' hsc']
      rw [hid, hstored] at hsc'
      cases hsc'
      exact Outcome.ok.inj (htick'.symm.trans htick)
  | height hstage =>
      rw [hstage] at hspares
      refine ⟨hkeyed, hstored, hentry, ?_⟩
      dsimp only
      split
      · exact hspares
      · trivial
  | select hstage _ _ => exact ⟨hkeyed, hstored, hentry, trivial⟩
  | selectNone hstage hstakers =>
      rw [hstage] at hspares
      refine ⟨hkeyed, hstored, hentry, fun hpool => ?_⟩
      cases hspares hpool
      refine hselect rfl (List.eq_nil_iff_forall_not_mem.mpr fun id hid => ?_)
      -- there were bundles to select, so that the round does not come out empty
      have hsorted := mem_sortStakers.mpr hid
      rw [hstakers] at hsorted
      cases hsorted
  | put hstage => exact ⟨hkeyed, hstored, hentry, trivial⟩
  | defer hstage =>
      exact ⟨hkeyed, hstored, ScheduleRepo.mem_tickEntries_defer.mpr (.inr hentry), trivial⟩
  | clear hstage =>
      rw [hstage] at hspares
      exact ⟨hkeyed, hstored, hentry, hspares⟩
  | finish hstage =>
      rw [hstage] at hspares
      refine ⟨hkeyed, hstored, mem_tickEntries_remove_of_ne hspares ?_, trivial⟩
      exact ScheduleRepo.mem_tickEntries_defer.mpr (.inr hentry)
  | @schedule schedule schedules hschedules =>
      -- another pool has nothing to do with the tick
      have hne := hschedule schedule rfl
      obtain ⟨hget, hentries⟩ := handleSchedule_of_ne hschedules hne.symm
      refine ⟨?_, hget.trans hstored, hentries hentry, hspares⟩
      exact keyed_handleSchedule hkeyed hschedules
  | bundle => exact ⟨hkeyed, hstored, hentry, hspares⟩
  | backlog _ _ => exact ⟨hkeyed, hstored, hentry, hspares⟩

/-- The tick of a pool whose schedule is not updated stays in the repository, pending or deferred,
unless a round finds no bundle that is left to be compounded for it. -/
theorem tick_kept_of_run {sc : PoolSchedule} {tick : Tick} (hstage : s.stage = .idle)
    (hkeyed : ∀ poolId sc, s.schedules.schedules.get poolId = some sc → sc.poolId = poolId)
    (hstored : s.schedules.schedules.get tick.poolId = some sc)
    (htick : Tick.tryFrom sc = .ok tick)
    (hentry : tickKey tick.poolId tick.height ∈ s.schedules.tickEntries tick.poolId)
    (hrun : Run (Step batchSize) s labels t)
    (hschedule : ∀ schedule, .schedule schedule ∈ labels → schedule.poolId ≠ tick.poolId) :
    tickKey tick.poolId tick.height ∈ t.schedules.tickEntries tick.poolId ∨
      ∃ before after u, labels = before ++ .selectNone tick :: after ∧
        Run (Step batchSize) s before u ∧ u.bundles.select tick.poolId tick.epochIx = [] := by
  have hstart : Kept sc tick s := by
    refine ⟨hkeyed, hstored, hentry, ?_⟩
    rw [hstage]
    trivial
  rcases hrun.stays_or_leaves hstart with
    hkept | ⟨before, l, after, u, v, rfl, hbefore, hu, hl, hv, -⟩
  · exact .inl hkept.entry
  · refine .inr ?_
    by_contra hnone
    refine hv (kept_of_step htick hu ?_ ?_ hl)
    · rintro schedule rfl
      exact hschedule schedule (List.mem_append_right before List.mem_cons_self)
    · rintro rfl hempty
      exact hnone ⟨before, after, u, rfl, hbefore, hempty⟩

/-! ## Nobody is forgotten -/

/-- The order is still to be put in this round, or it is stored. -/
def Covers (tick : Tick) (tsNow : ℤ) (order : Compound) (s : Rounds) : Prop :=
  ∃ rest, s.stage = .putting tick tsNow rest ∧
    (order ∈ rest ∨ getSelfRef (Order.compound order) ∈ s.backlog.store.keys)

theorem covers_of_step {tick : Tick} {tsNow : ℤ} {order : Compound}
    (h : Covers tick tsNow order s) (hdefer : l ≠ .defer)
    (htaken : ∀ call res, l = .backlog call res →
      ¬ s.backlog.TakesOut (getSelfRef (Order.compound order)) call)
    (hstep : Step batchSize s l t) : Covers tick tsNow order t := by
  obtain ⟨rest, hputting, hwhere⟩ := h
  cases hstep with
  | peek hstage _ => cases hputting.symm.trans hstage
  | height hstage => cases hputting.symm.trans hstage
  | select hstage _ _ => cases hputting.symm.trans hstage
  | selectNone hstage _ => cases hputting.symm.trans hstage
  | clear hstage => cases hputting.symm.trans hstage
  | finish hstage => cases hputting.symm.trans hstage
  | defer _ => exact absurd rfl hdefer
  | @put tick' tsNow' first rest' pick hstage =>
      cases hputting.symm.trans hstage
      refine ⟨rest', rfl, ?_⟩
      rcases hwhere with hmem | hstored
      · rcases List.mem_cons.mp hmem with rfl | hmem
        · exact .inr (s.backlog.stored_put ⟨.compound order, tsNow⟩ pick)
        · exact .inl hmem
      · exact .inr (BacklogService.stored_put_of_stored hstored ⟨.compound first, tsNow⟩ pick)
  | schedule _ => exact ⟨rest, hputting, hwhere⟩
  | bundle => exact ⟨rest, hputting, hwhere⟩
  | backlog _ _ =>
      exact ⟨rest, hputting, hwhere.imp_right fun hstored =>
        BacklogService.stored_exec hstored (htaken _ _ rfl)⟩

/-- When a round defers its tick, each bundle that it selected is in exactly one of its orders, and
the backlog has this order, unless a call since the selection removed it or found it expired. -/
theorem covered_of_round {tick : Tick} {tsNow : ℤ} {v : Rounds}
    (hselect : Step batchSize s (.select tick tsNow) t) (hrun : Run (Step batchSize) t labels u)
    (hround : .defer ∉ labels) (hdefer : Step batchSize u .defer v) {id : BundleId}
    (hid : id ∈ s.bundles.select tick.poolId tick.epochIx) :
    ∃ orders, compoundOrders tick batchSize
        (sortStakers (s.bundles.select tick.poolId tick.epochIx)) = .ok orders ∧
      ∃ order ∈ orders, id ∈ order.stakers ∧
        (∀ order' ∈ orders, id ∈ order'.stakers → order' = order) ∧
        (getSelfRef (Order.compound order) ∈ v.backlog.store.keys ∨
          ∃ before call res after w, labels = before ++ .backlog call res :: after ∧
            Run (Step batchSize) t before w ∧
            w.backlog.TakesOut (getSelfRef (Order.compound order)) call) := by
  cases hselect with
  | @select _ _ orders hstage hstakers horders =>
      obtain ⟨order, hmem, hin, honly⟩ := exists_compoundOrder horders
        (nodup_sortStakers (nodup_select _ _ _)) (mem_sortStakers.mpr hid)
      refine ⟨orders, horders, order, hmem, hin, honly, ?_⟩
      rcases hrun.stays_or_leaves (I := Covers tick tsNow order) ⟨orders, rfl, .inl hmem⟩ with
        ⟨rest, hputting, hwhere⟩ | ⟨before, l, after, w, x, rfl, hbefore, hw, hl, hx, -⟩
      · cases hdefer with
        | defer hstage' =>
            cases hputting.symm.trans hstage'
            exact .inl (hwhere.resolve_left List.not_mem_nil)
      · refine .inr ?_
        by_contra hnone
        refine hx (covers_of_step hw ?_ ?_ hl)
        · rintro rfl
          exact hround (List.mem_append_right before List.mem_cons_self)
        · rintro call res rfl htaken
          exact hnone ⟨before, call, res, after, w, rfl, hbefore, htaken⟩

end Rounds

end Steps

/-! ## A round with three bundles -/

namespace Rounds.Sample

open Distribution.Sample

theorem length_id (byte : UInt8) : (List.replicate 32 byte).length = 32 := List.length_replicate

/-- The hash tells apart what begins or ends differently. -/
scoped instance blake2b : Blake2b :=
  ⟨fun bytes => ⟨List.replicate 32 (bytes.headD 0 + 16 * bytes.getLastD 0), length_id _⟩⟩

def bundleId (byte : UInt8) : BundleId := ⟨⟨List.replicate 32 byte, length_id byte⟩⟩

/-- Three bundles are to be compounded in the first epoch. -/
def started : Rounds where
  schedules := scheduled.repo
  bundles := { BundleRepo.empty with
    epochIndex := ((Table.empty.put ⟨poolId, 1, bundleId 3⟩).put ⟨poolId, 1, bundleId 4⟩).put
      ⟨poolId, 1, bundleId 2⟩ }
  backlog := .new .empty Backlog.Sample.conf
  stage := .idle
  seen := ∅

def firstOrder : Compound := ⟨poolId, 1, 0, [bundleId 2, bundleId 3]⟩

def secondOrder : Compound := ⟨poolId, 1, 1, [bundleId 4]⟩

/-- The bundles are selected, in batches of two. -/
def selected : Rounds :=
  { started with
    stage := .putting tick 0 [firstOrder, secondOrder]
    seen := ∅ ∪ {key | key.poolId = poolId ∧ key.initEpochIx = 1 ∧
      key.bundleId ∈ started.bundles.select poolId 1} }

def halfStored : Rounds :=
  { selected with
    backlog := selected.backlog.put ⟨.compound firstOrder, 0⟩ 0
    stage := .putting tick 0 [secondOrder] }

/-- Both orders are put. -/
def stored : Rounds :=
  { halfStored with
    backlog := halfStored.backlog.put ⟨.compound secondOrder, 0⟩ 0
    stage := .putting tick 0 [] }

/-- The tick is deferred. -/
def deferred : Rounds :=
  { stored with
    schedules := stored.schedules.defer tick (0 + tickSuspensionDuration)
    stage := .idle }

theorem step_select : Step 2 { started with stage := .due tick } (.select tick 0) selected :=
  .select rfl (by decide) rfl

theorem run_selected : Run (Step 2) started [.peek 0, .height 110, .select tick 0] selected :=
  .cons (.peek rfl rfl) (.cons (.height rfl) (.single step_select))

theorem run_put : Run (Step 2) selected [.put 0, .put 0] stored :=
  .cons (t := halfStored) (.put rfl) (.single (.put rfl))

theorem step_defer : Step 2 stored .defer deferred := .defer rfl

def laterOrder : Compound := ⟨poolId, 2, 0, [bundleId 2]⟩

/-- An order of each of the first two epochs is stored, and the first epoch is over. -/
def clearing : Rounds :=
  { started with
    backlog := .new ((Table.empty.put ⟨.compound firstOrder, 0⟩).put ⟨.compound laterOrder, 0⟩)
      Backlog.Sample.conf
    stage := .clearing tick }

/-- The orders of the first epoch are removed. -/
def cleared : Rounds :=
  { clearing with
    backlog := clearing.backlog.removeAll (clearing.backlog.findOrders (isCompoundOf tick))
    stage := .finishing tick }

/-- The order of the first epoch was there. -/
theorem findOrders_clearing :
    clearing.backlog.findOrders (isCompoundOf tick) = [.compound firstOrder] := by decide

/-- The next order is handed out. -/
def pop (s : Rounds) : Rounds :=
  { s with backlog := (s.backlog.tryPop (Backlog.Sample.env 1)).1 }

theorem step_pop {batchSize : ℕ} {s : Rounds} {res : Option Order}
    (hstage : ∀ tick, s.stage ≠ .finishing tick)
    (hres : (s.backlog.tryPop (Backlog.Sample.env 1)).2 = res) :
    Step batchSize s (.backlog (.tryPop (Backlog.Sample.env 1)) res) (pop s) := by
  subst hres
  exact .backlog hstage fun _ _ h => nomatch h

end Rounds.Sample

namespace Rounds

open Rounds.Sample Distribution.Sample

/-- Both orders of the round are handed out. -/
theorem batches_of_run_sample :
    Batch 2 selected.seen firstOrder ∧ Batch 2 selected.seen secondOrder := by
  have hpop : Step 2 stored (.backlog (.tryPop (Backlog.Sample.env 1))
      (some (.compound secondOrder))) (pop stored) := step_pop nofun rfl
  have hpop' : Step 2 (pop stored) (.backlog (.tryPop (Backlog.Sample.env 1))
      (some (.compound firstOrder))) (pop (pop stored)) := step_pop nofun rfl
  have hrun := run_selected.append (run_put.append (.cons hpop (.single hpop')))
  constructor
  · apply batches_of_run (s := started) rfl (fun bo hbo => absurd hbo List.not_mem_nil) hrun
    exact List.mem_append_right _
      (List.mem_append_right _ (List.mem_cons_of_mem _ List.mem_cons_self))
  · apply batches_of_run (s := started) rfl (fun bo hbo => absurd hbo List.not_mem_nil) hrun
    exact List.mem_append_right _ (List.mem_append_right _ List.mem_cons_self)

/-- The round removes the order of the first epoch, and what is handed out after it is the order of
the second. -/
theorem cleared_of_run_sample :
    clearing.backlog.findOrders (isCompoundOf tick) = [.compound firstOrder] ∧
      ¬ (laterOrder.epochIx = tick.epochIx ∧ laterOrder.poolId = tick.poolId) := by
  let finished : Rounds := { cleared with
    schedules := (cleared.schedules.defer tick (0 + tickSuspensionDuration)).remove tick
    stage := .idle }
  have hclear : Step 2 clearing .clear cleared := .clear rfl
  have hfinish : Step 2 cleared (.finish 0) finished := .finish rfl
  have hpop : Step 2 finished (.backlog (.tryPop (Backlog.Sample.env 1))
      (some (.compound laterOrder))) (pop finished) := step_pop nofun rfl
  exact ⟨findOrders_clearing, cleared_of_run rfl hclear (.cons hfinish (.single hpop)) (by simp)
    (List.mem_cons_of_mem _ List.mem_cons_self)⟩

theorem tick_kept_of_run_sample : Run (Step 2) started
      [.peek 0, .height 110, .select tick 0, .put 0, .put 0, .defer] deferred ∧
    (tickKey poolId 110 ∈ deferred.schedules.tickEntries poolId ∨
      ∃ before after u, [.peek 0, .height 110, .select tick 0, .put 0, .put 0, .defer] =
          before ++ .selectNone tick :: after ∧
        Run (Step 2) started before u ∧ u.bundles.select poolId 1 = []) := by
  have hrun : Run (Step 2) started
      [.peek 0, .height 110, .select tick 0, .put 0, .put 0, .defer] deferred :=
    run_selected.append (run_put.append (.single step_defer))
  have hentry : tickKey tick.poolId tick.height ∈ started.schedules.tickEntries tick.poolId := by
    decide
  refine ⟨hrun, tick_kept_of_run rfl ?_ rfl rfl hentry hrun (by simp)⟩
  exact Store.forall_get_put rfl nofun

/-- The bundle with the highest id is in the second batch, which is stored. -/
theorem covered_of_round_sample : ∃ orders, compoundOrders tick 2
      (sortStakers (started.bundles.select poolId 1)) = .ok orders ∧
    ∃ order ∈ orders, bundleId 4 ∈ order.stakers ∧
      (∀ order' ∈ orders, bundleId 4 ∈ order'.stakers → order' = order) ∧
      getSelfRef (Order.compound order) ∈ deferred.backlog.store.keys := by
  have hid : bundleId 4 ∈ started.bundles.select poolId 1 := by decide
  obtain ⟨orders, horders, order, hmem, hin, honly, hstored⟩ :=
    covered_of_round step_select run_put (by simp) step_defer hid
  refine ⟨orders, horders, order, hmem, hin, honly, hstored.resolve_right ?_⟩
  rintro ⟨before, call, res, after, w, hlabels, -⟩
  -- no call of another party is in the round
  have hcall : RoundLabel.backlog call res ∈ [RoundLabel.put 0, .put 0] := by
    rw [hlabels]
    exact List.mem_append_right before List.mem_cons_self
  simp at hcall

end Rounds

end SpectrumOffchain.Scheduler
