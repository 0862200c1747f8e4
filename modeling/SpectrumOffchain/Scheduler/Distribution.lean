import SpectrumOffchain.Lib.Transition
import SpectrumOffchain.Scheduler.Repo

/-!
# Ticks between the ledger and the distribution stream

The handler of the ledger updates the schedule of a pool whenever the pool changes, and with
it the tick.  The distribution stream peeks a tick, asks the node for the height and the
other repositories for the stakers, and then defers the tick, or defers and removes it when
no stakers are left.  It does not hold the lock of the repository in between.

If the tick is still that of the stored schedule whenever it is deferred, then a pool has at
most one tick, at the height of its schedule (`one_live_tick_iff_current`).  Otherwise the
update that came in between has removed the tick, and the stream brings it back next to the
new one (`tick_brought_back`).

## Strategy

* `WellFormed` holds of every run, whatever the stream does: a schedule is stored under its
  own pool, and a pool with a tick, or whose tick the stream holds, has epochs that are not
  empty.
* One tick per pool comes down to keys: no key is both pending and deferred, and every key
  is at the height of the schedule of its pool (`oneLiveTick_of_disjoint`).
* An update deletes the ticks one epoch before the new one and one epoch after it.  The
  ledger moves a pool by at most one epoch (`Moves`), so the tick of the schedule before is
  one of these or the new one itself (`nextCompoundingAt_of_moves`).
* A deferral deletes the pending tick and writes a deferred one with the same key.  It keeps
  `OneLiveTick` exactly if the key is still that of the stored schedule
  (`oneLiveTick_defer`).
-/

namespace SpectrumOffchain.Scheduler

open Transition

/-- What the distribution stream is doing.  While it removes a tick it holds the lock. -/
inductive Stage where
  | idle
  | peeked (tick : Tick)
  | removing (tick : Tick)
  deriving DecidableEq, Repr

/-- The repository, the last schedule of each pool that the handler was called with, and the
stream. -/
structure DistributionSystem where
  repo : ScheduleRepo
  last : Store PoolId PoolSchedule
  stage : Stage

inductive Label where
  | update (schedule : PoolSchedule)
  | peek (tsNow : ℤ)
  | skip
  | defer (deferredUntil : ℤ)
  | deferToRemove (deferredUntil : ℤ)
  | remove

/-- The schedule of the same pool, at most one epoch further or one epoch back. -/
structure Moves (old new : PoolSchedule) : Prop where
  epochLen : new.epochLen = old.epochLen
  epochNum : new.epochNum = old.epochNum
  programStart : new.programStart = old.programStart
  forward : new.lastCompletedEpochIx ≤ old.lastCompletedEpochIx + 1
  back : old.lastCompletedEpochIx ≤ new.lastCompletedEpochIx + 1

namespace DistributionSystem

inductive Step : DistributionSystem → Label → DistributionSystem → Prop where
  | update {s : DistributionSystem} {schedule : PoolSchedule} {repo : ScheduleRepo}
      (hlock : ∀ tick, s.stage ≠ .removing tick)
      (hmoves : ∀ old, s.last.get schedule.poolId = some old → Moves old schedule)
      (hrepo : s.repo.handleSchedule schedule = .ok repo) :
      Step s (.update schedule) ⟨repo, s.last.put schedule.poolId schedule, s.stage⟩
  | peek {s : DistributionSystem} {tsNow : ℤ} {tick : Tick} (hidle : s.stage = .idle)
      (hpeek : s.repo.peek tsNow = .ok (some tick)) :
      Step s (.peek tsNow) { s with stage := .peeked tick }
  | skip {s : DistributionSystem} {tick : Tick} (hstage : s.stage = .peeked tick) :
      Step s .skip { s with stage := .idle }
  | defer {s : DistributionSystem} {tick : Tick} {deferredUntil : ℤ}
      (hstage : s.stage = .peeked tick) :
      Step s (.defer deferredUntil)
        { s with repo := s.repo.defer tick deferredUntil, stage := .idle }
  | deferToRemove {s : DistributionSystem} {tick : Tick} {deferredUntil : ℤ}
      (hstage : s.stage = .peeked tick) :
      Step s (.deferToRemove deferredUntil)
        { s with repo := s.repo.defer tick deferredUntil, stage := .removing tick }
  | remove {s : DistributionSystem} {tick : Tick} (hstage : s.stage = .removing tick) :
      Step s .remove { s with repo := s.repo.remove tick, stage := .idle }

/-- A pool has at most one tick, at the height of its schedule, and this is the last schedule there
was unless it is exhausted. -/
structure OneLiveTick (s : DistributionSystem) : Prop where
  one : ∀ poolId, (s.repo.tickEntries poolId).length ≤ 1
  height : ∀ poolId, ∀ key ∈ s.repo.tickEntries poolId, ∃ sc,
    s.repo.schedules.get poolId = some sc ∧
      (sc.nextCompoundingAt : Outcome Unit _) = .ok (some key.height)
  stored : ∀ poolId sc, s.repo.schedules.get poolId = some sc ↔
    s.last.get poolId = some sc ∧
      ∃ height, (sc.nextCompoundingAt : Outcome Unit _) = .ok (some height)

/-- A tick that is deferred is that of the stored schedule. -/
def Current (s : DistributionSystem) : Label → Prop
  | .defer _ | .deferToRemove _ => ∀ tick, s.stage = .peeked tick → ∃ sc,
      s.repo.schedules.get tick.poolId = some sc ∧
        (sc.nextCompoundingAt : Outcome Unit _) = .ok (some tick.height)
  | _ => True

/-! ## What holds of every run -/

/-- The handler has seen the pool, and its epochs are not empty. -/
def Paced (s : DistributionSystem) (poolId : PoolId) : Prop :=
  ∃ sc, s.last.get poolId = some sc ∧ 1 ≤ sc.epochLen

structure WellFormed (s : DistributionSystem) : Prop where
  schedules : ∀ poolId sc, s.repo.schedules.get poolId = some sc → sc.poolId = poolId
  last : ∀ poolId sc, s.last.get poolId = some sc → sc.poolId = poolId
  entries : ∀ poolId, ∀ key ∈ s.repo.tickEntries poolId, s.Paced poolId
  held : ∀ tick, s.stage = .peeked tick ∨ s.stage = .removing tick → s.Paced tick.poolId

variable {s t : DistributionSystem} {l : Label} {schedule : PoolSchedule} {repo : ScheduleRepo}
  {poolId : PoolId}

theorem Paced.update
    (hmoves : ∀ old, s.last.get schedule.poolId = some old → Moves old schedule)
    (h : s.Paced poolId) : Paced ⟨repo, s.last.put schedule.poolId schedule, s.stage⟩ poolId := by
  obtain ⟨sc, hsc, hpos⟩ := h
  by_cases hid : poolId = schedule.poolId
  · subst hid
    exact ⟨schedule, Store.get_put_self, (hmoves sc hsc).epochLen ▸ hpos⟩
  · exact ⟨sc, (Store.get_put_of_ne hid).trans hsc, hpos⟩

theorem WellFormed.update (h : s.WellFormed)
    (hmoves : ∀ old, s.last.get schedule.poolId = some old → Moves old schedule)
    (hrepo : s.repo.handleSchedule schedule = .ok repo) :
    WellFormed ⟨repo, s.last.put schedule.poolId schedule, s.stage⟩ := by
  have hlast : ∀ poolId sc, (s.last.put schedule.poolId schedule).get poolId = some sc →
      sc.poolId = poolId := Store.forall_get_put rfl h.last
  refine ⟨?_, hlast, ?_, fun tick htick => (h.held tick htick).update hmoves⟩
  · rcases ScheduleRepo.handleSchedule_eq_ok hrepo with ⟨-, rfl⟩ | ⟨_, -, ⟨-, -, rfl⟩ | ⟨-, rfl⟩⟩
    · exact Store.forall_get_delete h.schedules
    · exact Store.forall_get_put rfl h.schedules
    · exact h.schedules
  · intro poolId key hkey
    rcases ScheduleRepo.handleSchedule_eq_ok hrepo with ⟨-, rfl⟩ | ⟨_, -, ⟨-, -, rfl⟩ | ⟨-, rfl⟩⟩
    · exact (h.entries poolId key (ScheduleRepo.mem_tickEntries_clean.mp hkey).1).update hmoves
    · obtain ⟨⟨rfl, rfl⟩ | hkey, hprev, -⟩ := ScheduleRepo.mem_tickEntries_write hkey
      · refine ⟨schedule, Store.get_put_self, ?_⟩
        -- in an empty epoch the tick is deleted as the one before it
        by_contra hzero
        rw [Nat.lt_one_iff.mp (Nat.lt_of_not_le hzero)] at hprev
        exact hprev rfl
      · exact (h.entries poolId key hkey).update hmoves
    · exact (h.entries poolId key hkey).update hmoves

theorem WellFormed.peek (h : s.WellFormed) {tsNow : ℤ} {tick : Tick}
    (hpeek : s.repo.peek tsNow = .ok (some tick)) :
    WellFormed { s with stage := .peeked tick } := by
  obtain ⟨poolId, sc, hentries, hsc, htick⟩ := ScheduleRepo.peek_eq_some hpeek
  obtain ⟨key, hkey⟩ := List.exists_mem_of_ne_nil _ hentries
  refine ⟨h.schedules, h.last, h.entries, ?_⟩
  rintro tick' (heq | heq) <;> cases heq
  rw [(Tick.of_tryFrom htick).1, h.schedules poolId sc hsc]
  exact h.entries poolId key hkey

theorem WellFormed.defer (h : s.WellFormed) {tick : Tick} {deferredUntil : ℤ} {stage : Stage}
    (hstage : s.stage = .peeked tick) (hnext : stage = .idle ∨ stage = .removing tick) :
    WellFormed { s with repo := s.repo.defer tick deferredUntil, stage := stage } := by
  have hpaced := h.held tick (.inl hstage)
  refine ⟨h.schedules, h.last, ?_, ?_⟩
  · intro poolId key hkey
    rcases ScheduleRepo.mem_tickEntries_defer.mp hkey with ⟨-, rfl⟩ | hkey
    · exact hpaced
    · exact h.entries poolId key hkey
  · rintro tick' hheld
    rcases hnext with rfl | rfl <;> rcases hheld with heq | heq <;> cases heq
    exact hpaced

theorem wellFormed_step (h : s.WellFormed) (hstep : Step s l t) : t.WellFormed := by
  cases hstep with
  | update _ hmoves hrepo => exact h.update hmoves hrepo
  | peek _ hpeek => exact h.peek hpeek
  | skip _ => exact ⟨h.schedules, h.last, h.entries, by simp⟩
  | defer hstage => exact h.defer hstage (.inl rfl)
  | deferToRemove hstage => exact h.defer hstage (.inr rfl)
  | remove _ =>
      refine ⟨h.schedules, h.last, ?_, by simp⟩
      exact fun poolId key hkey => h.entries poolId key (ScheduleRepo.mem_tickEntries_remove hkey)

/-! ## One step -/

/-- In terms of keys: no tick is both pending and deferred. -/
theorem oneLiveTick_of_disjoint
    (hdisjoint : ∀ key ∈ s.repo.ticks.keys, key ∉ s.repo.deferredTicks.keys)
    (hheight : ∀ poolId, ∀ key ∈ s.repo.tickEntries poolId, ∃ sc,
      s.repo.schedules.get poolId = some sc ∧
        (sc.nextCompoundingAt : Outcome Unit _) = .ok (some key.height))
    (hstored : ∀ poolId sc, s.repo.schedules.get poolId = some sc ↔
      s.last.get poolId = some sc ∧
        ∃ height, (sc.nextCompoundingAt : Outcome Unit _) = .ok (some height)) :
    OneLiveTick s := by
  refine ⟨fun poolId => ?_, hheight, hstored⟩
  have hnodup : (s.repo.tickEntries poolId).Nodup := by
    refine List.Nodup.filter _ (List.Nodup.append s.repo.ticks.distinct
      s.repo.deferredTicks.distinct ?_)
    intro key hticks hdeferred
    exact hdisjoint key hticks hdeferred
  cases hentries : s.repo.tickEntries poolId with
  | nil => exact Nat.zero_le 1
  | cons key rest =>
      have hsame : ∀ key' ∈ s.repo.tickEntries poolId, key' = key := by
        intro key' hkey'
        have hkey : key ∈ s.repo.tickEntries poolId := hentries ▸ List.mem_cons_self
        obtain ⟨sc, hsc, hnext⟩ := hheight poolId key hkey
        obtain ⟨sc', hsc', hnext'⟩ := hheight poolId key' hkey'
        rw [Option.some.inj (hsc'.symm.trans hsc)] at hnext'
        have heights : key'.height = key.height :=
          Option.some.inj (Outcome.ok.inj (hnext'.symm.trans hnext))
        have hpools : key'.poolId = key.poolId :=
          (ScheduleRepo.mem_tickEntries.mp hkey').2.trans
            (ScheduleRepo.mem_tickEntries.mp hkey).2.symm
        cases key'
        cases key
        simp only at heights hpools
        rw [heights, hpools]
      rw [List.eq_replicate_of_mem hsame, List.nodup_replicate] at hnodup
      rwa [hentries] at hnodup

theorem OneLiveTick.disjoint (h : OneLiveTick s) :
    ∀ key ∈ s.repo.ticks.keys, key ∉ s.repo.deferredTicks.keys := by
  intro key hticks hdeferred
  have hone := h.one key.poolId
  have hleft : key ∈ s.repo.ticks.keys.filter fun k => k.poolId = key.poolId :=
    List.mem_filter.mpr ⟨hticks, decide_eq_true rfl⟩
  have hright : key ∈ s.repo.deferredTicks.keys.filter fun k => k.poolId = key.poolId :=
    List.mem_filter.mpr ⟨hdeferred, decide_eq_true rfl⟩
  rw [ScheduleRepo.tickEntries, List.filter_append, List.length_append] at hone
  have := List.length_pos_of_mem hleft
  have := List.length_pos_of_mem hright
  omega

/-- A schedule that moved by at most one epoch is next compounded one epoch before or after the
height it was at, or it is the same schedule. -/
theorem nextCompoundingAt_of_moves {old new : PoolSchedule} (h : Moves old new)
    (hid : old.poolId = new.poolId) (hpos : 1 ≤ old.epochLen) {height height' : ℕ}
    (hold : (old.nextCompoundingAt : Outcome Unit _) = .ok (some height))
    (hnew : (new.nextCompoundingAt : Outcome Unit _) = .ok (some height')) :
    height ≠ height' ∧ (height = height' - new.epochLen ∨ height = height' + new.epochLen) ∨
      height = height' ∧ old = new := by
  have heq := PoolSchedule.nextCompoundingAt_eq_some hold
  have heq' := PoolSchedule.nextCompoundingAt_eq_some hnew
  obtain ⟨hlen, hnum, hstart, hforward, hback⟩ := h
  rw [hlen, hstart] at heq'
  rw [hlen]
  rcases Nat.lt_trichotomy old.lastCompletedEpochIx new.lastCompletedEpochIx with hlt | hsame | hlt
  · have hix : new.lastCompletedEpochIx = old.lastCompletedEpochIx + 1 := by omega
    rw [hix, Nat.succ_mul] at heq'
    omega
  · rw [← hsame] at heq'
    refine .inr ⟨heq.trans heq'.symm, ?_⟩
    cases old
    cases new
    simp only at hid hlen hnum hstart hsame
    rw [hid, hlen, hnum, hstart, hsame]
  · have hix : old.lastCompletedEpochIx = new.lastCompletedEpochIx + 1 := by omega
    rw [hix, Nat.succ_mul] at heq
    omega

/-- The tick of a pool before its schedule is updated. -/
theorem OneLiveTick.before_update (h : OneLiveTick s) (hwf : s.WellFormed)
    (hmoves : ∀ old, s.last.get schedule.poolId = some old → Moves old schedule) {height : ℕ}
    (hnext : (schedule.nextCompoundingAt : Outcome Unit _) = .ok (some height)) {key : TickKey}
    (hkey : key ∈ s.repo.tickEntries schedule.poolId) :
    key ≠ tickKey schedule.poolId height ∧
        (key = tickKey schedule.poolId (height - schedule.epochLen) ∨
          key = tickKey schedule.poolId (height + schedule.epochLen)) ∨
      key = tickKey schedule.poolId height ∧
        s.repo.schedules.get schedule.poolId = some schedule := by
  obtain ⟨old, hold, hprev⟩ := h.height _ key hkey
  have hlast := ((h.stored _ old).mp hold).1
  obtain ⟨old', hlast', hpos⟩ := hwf.entries _ key hkey
  cases hlast'.symm.trans hlast
  have hpool := (ScheduleRepo.mem_tickEntries.mp hkey).2
  have hmk : ∀ height', key.height = height' → key = tickKey schedule.poolId height' := by
    rintro _ rfl
    rw [tickKey, ← hpool]
  rcases nextCompoundingAt_of_moves (hmoves old hlast) (hwf.last _ old hlast) hpos hprev hnext with
    ⟨hne, heq⟩ | ⟨heq, rfl⟩
  · exact .inl ⟨fun h => hne (congrArg TickKey.height h), heq.imp (hmk _) (hmk _)⟩
  · exact .inr ⟨hmk _ heq, hold⟩

/-- The last clause of `OneLiveTick`, after an update. -/
theorem OneLiveTick.stored_update (h : OneLiveTick s)
    (hother : ∀ poolId, poolId ≠ schedule.poolId →
      repo.schedules.get poolId = s.repo.schedules.get poolId)
    (hown : ∀ sc, repo.schedules.get schedule.poolId = some sc ↔
      schedule = sc ∧ ∃ height, (sc.nextCompoundingAt : Outcome Unit _) = .ok (some height))
    (poolId : PoolId) (sc : PoolSchedule) :
    repo.schedules.get poolId = some sc ↔
      (s.last.put schedule.poolId schedule).get poolId = some sc ∧
        ∃ height, (sc.nextCompoundingAt : Outcome Unit _) = .ok (some height) := by
  by_cases hid : poolId = schedule.poolId
  · subst hid
    rw [hown, Store.get_put_self, Option.some.injEq]
  · rw [hother poolId hid, Store.get_put_of_ne hid]
    exact h.stored poolId sc

theorem OneLiveTick.clean (h : OneLiveTick s)
    (hexhausted : (schedule.nextCompoundingAt : Outcome Unit _) = .ok none) :
    OneLiveTick
      ⟨s.repo.clean schedule.poolId, s.last.put schedule.poolId schedule, s.stage⟩ := by
  refine oneLiveTick_of_disjoint ?_ ?_ (h.stored_update ?_ ?_)
  · intro key hkey hboth
    exact h.disjoint key (Table.mem_keys_removeAll.mp hkey).1 (Table.mem_keys_removeAll.mp hboth).1
  · intro poolId key hkey
    obtain ⟨hkey, hne⟩ := ScheduleRepo.mem_tickEntries_clean.mp hkey
    obtain ⟨sc, hsc, hheight⟩ := h.height poolId key hkey
    exact ⟨sc, (Store.get_delete_of_ne hne).trans hsc, hheight⟩
  · intro poolId hne
    exact Store.get_delete_of_ne hne
  · rintro sc
    rw [ScheduleRepo.clean, Store.get_delete_self]
    constructor
    · rintro ⟨⟩
    · rintro ⟨rfl, height, hnext⟩
      cases hexhausted.symm.trans hnext

theorem OneLiveTick.write (h : OneLiveTick s) (hwf : s.WellFormed)
    (hmoves : ∀ old, s.last.get schedule.poolId = some old → Moves old schedule) {height : ℕ}
    (hnext : (schedule.nextCompoundingAt : Outcome Unit _) = .ok (some height))
    (hdeferred : tickKey schedule.poolId height ∉ s.repo.deferredTicks.keys) :
    OneLiveTick ⟨s.repo.write schedule height (height + schedule.epochLen),
      s.last.put schedule.poolId schedule, s.stage⟩ := by
  refine oneLiveTick_of_disjoint ?_ ?_ (h.stored_update ?_ ?_)
  · intro key hkey hboth
    obtain ⟨⟨hboth, -⟩, -⟩ := ScheduleRepo.mem_deferredTicks_write.mp hboth
    obtain ⟨⟨rfl | hkey, -⟩, -⟩ := ScheduleRepo.mem_ticks_write.mp hkey
    · exact hdeferred hboth
    · exact h.disjoint key hkey hboth
  · intro poolId key hkey
    obtain ⟨hwhich, hprev, hafter⟩ := ScheduleRepo.mem_tickEntries_write hkey
    by_cases hid : poolId = schedule.poolId
    · subst hid
      refine ⟨schedule, Store.get_put_self, ?_⟩
      rcases hwhich with ⟨rfl, -⟩ | hkey
      · exact hnext
      · -- the tick there was is among those that are deleted
        rcases h.before_update hwf hmoves hnext hkey with ⟨-, heq | heq⟩ | ⟨rfl, -⟩
        · exact absurd heq hprev
        · exact absurd heq hafter
        · exact hnext
    · rcases hwhich with ⟨-, heq⟩ | hkey
      · exact absurd heq hid
      · obtain ⟨sc, hsc, hheight⟩ := h.height poolId key hkey
        exact ⟨sc, (Store.get_put_of_ne hid).trans hsc, hheight⟩
  · intro poolId hne
    exact Store.get_put_of_ne hne
  · intro sc
    rw [ScheduleRepo.write, Store.get_put_self, Option.some.injEq, iff_self_and]
    rintro rfl
    exact ⟨height, hnext⟩

theorem OneLiveTick.keep (h : OneLiveTick s) (hwf : s.WellFormed)
    (hmoves : ∀ old, s.last.get schedule.poolId = some old → Moves old schedule) {height : ℕ}
    (hnext : (schedule.nextCompoundingAt : Outcome Unit _) = .ok (some height))
    (hkept : tickKey schedule.poolId height ∈ s.repo.tickEntries schedule.poolId) :
    OneLiveTick ⟨s.repo, s.last.put schedule.poolId schedule, s.stage⟩ := by
  refine oneLiveTick_of_disjoint h.disjoint h.height (h.stored_update (fun _ _ => rfl) ?_)
  -- the tick is that of the same schedule
  have hstored : s.repo.schedules.get schedule.poolId = some schedule := by
    rcases h.before_update hwf hmoves hnext hkept with ⟨hne, -⟩ | ⟨-, hstored⟩
    · exact absurd rfl hne
    · exact hstored
  intro sc
  rw [hstored, Option.some.injEq, iff_self_and]
  rintro rfl
  exact ⟨height, hnext⟩

theorem OneLiveTick.update (h : OneLiveTick s) (hwf : s.WellFormed)
    (hmoves : ∀ old, s.last.get schedule.poolId = some old → Moves old schedule)
    (hrepo : s.repo.handleSchedule schedule = .ok repo) :
    OneLiveTick ⟨repo, s.last.put schedule.poolId schedule, s.stage⟩ := by
  rcases ScheduleRepo.handleSchedule_eq_ok hrepo with
    ⟨hexhausted, rfl⟩ | ⟨height, hnext, ⟨hdeferred, -, rfl⟩ | ⟨hkept, rfl⟩⟩
  · exact h.clean hexhausted
  · exact h.write hwf hmoves hnext hdeferred
  · exact h.keep hwf hmoves hnext hkept

/-- To defer a tick keeps the property exactly when the tick is that of the stored schedule. -/
theorem oneLiveTick_defer (h : OneLiveTick s) {tick : Tick} {deferredUntil : ℤ} {stage : Stage}
    (hstage : s.stage = .peeked tick) :
    OneLiveTick { s with repo := s.repo.defer tick deferredUntil, stage := stage } ↔
      ∀ tick, s.stage = .peeked tick → ∃ sc, s.repo.schedules.get tick.poolId = some sc ∧
        (sc.nextCompoundingAt : Outcome Unit _) = .ok (some tick.height) := by
  constructor
  · intro ht tick' hstage'
    cases hstage.symm.trans hstage'
    exact ht.height tick.poolId (tickKey tick.poolId tick.height)
      (ScheduleRepo.mem_tickEntries_defer.mpr (.inl ⟨rfl, rfl⟩))
  · intro hcurrent
    refine oneLiveTick_of_disjoint ?_ ?_ h.stored
    · intro key hkey hboth
      obtain ⟨hkey, hne⟩ := Table.mem_keys_remove.mp hkey
      rcases Table.mem_keys_put.mp hboth with heq | hboth
      · exact hne heq
      · exact h.disjoint key hkey hboth
    · intro poolId key hkey
      rcases ScheduleRepo.mem_tickEntries_defer.mp hkey with ⟨rfl, rfl⟩ | hkey
      · exact hcurrent tick hstage
      · exact h.height poolId key hkey

theorem OneLiveTick.remove (h : OneLiveTick s) {tick : Tick} {stage : Stage} :
    OneLiveTick { s with repo := s.repo.remove tick, stage := stage } := by
  refine oneLiveTick_of_disjoint ?_ ?_ h.stored
  · intro key hkey hboth
    exact h.disjoint key hkey (Table.mem_keys_remove.mp hboth).1
  · exact fun poolId key hkey => h.height poolId key (ScheduleRepo.mem_tickEntries_remove hkey)

theorem oneLiveTick_iff_current (hwf : s.WellFormed) (h : OneLiveTick s) (hstep : Step s l t) :
    OneLiveTick t ↔ Current s l := by
  cases hstep with
  | update _ hmoves hrepo => exact ⟨fun _ => trivial, fun _ => h.update hwf hmoves hrepo⟩
  | peek _ _ => exact ⟨fun _ => trivial, fun _ => ⟨h.one, h.height, h.stored⟩⟩
  | skip _ => exact ⟨fun _ => trivial, fun _ => ⟨h.one, h.height, h.stored⟩⟩
  | defer hstage => exact oneLiveTick_defer h hstage
  | deferToRemove hstage => exact oneLiveTick_defer h hstage
  | remove _ => exact ⟨fun _ => trivial, fun _ => h.remove⟩

/-! ## Every run -/

/-- Nothing has been scheduled. -/
def initial : DistributionSystem := ⟨.empty, .empty, .idle⟩

theorem tickEntries_initial (poolId : PoolId) : initial.repo.tickEntries poolId = [] := rfl

theorem wellFormed_initial : initial.WellFormed where
  schedules _ _ h := by cases h
  last _ _ h := by cases h
  entries poolId key h := by
    rw [tickEntries_initial] at h
    cases h
  held _ h := by rcases h with h | h <;> cases h

theorem oneLiveTick_initial : initial.OneLiveTick where
  one poolId := by rw [tickEntries_initial]; exact Nat.zero_le 1
  height poolId key h := by
    rw [tickEntries_initial] at h
    cases h
  stored poolId sc := by simp [initial, ScheduleRepo.empty]

/-- A run keeps the ticks of every pool right exactly when every tick that it defers is still that
of the stored schedule. -/
theorem one_live_tick_iff_current {labels : List Label} :
    Run (into Step OneLiveTick) initial labels t ↔ Run (restrict Step Current) initial labels t :=
  Run.into_iff_restrict_of_invariant (fun _ _ _ => wellFormed_step)
    (fun _ _ _ => oneLiveTick_iff_current) wellFormed_initial oneLiveTick_initial

end DistributionSystem

/-! ## An update between the peek and the deferral -/

namespace Distribution.Sample

def poolId : PoolId := ⟨⟨List.replicate 32 1, List.length_replicate⟩⟩

/-- Ten epochs of ten blocks. -/
def schedule (lastCompletedEpochIx : ℕ) : PoolSchedule :=
  ⟨poolId, 10, 10, 100, lastCompletedEpochIx⟩

def tick : Tick := ⟨poolId, 1, 110⟩

/-- The first epoch is to be compounded. -/
def scheduled : DistributionSystem where
  repo := ScheduleRepo.empty.write (schedule 0) 110 120
  last := Store.empty.put poolId (schedule 0)
  stage := .idle

/-- The first epoch has been compounded. -/
def advanced : DistributionSystem where
  repo := scheduled.repo.write (schedule 1) 120 130
  last := scheduled.last.put poolId (schedule 1)
  stage := .peeked tick

/-- The tick of the first epoch is deferred. -/
def broughtBack : DistributionSystem :=
  { advanced with repo := advanced.repo.defer tick 1800, stage := .idle }

end Distribution.Sample

open Distribution.Sample DistributionSystem in
/-- The pool moves on to its next epoch while the stream looks for the stakers of the last one. -/
theorem tick_brought_back :
    Run Step initial [.update (schedule 0), .peek 0, .update (schedule 1), .defer 1800]
        broughtBack ∧
      broughtBack.repo.tickEntries poolId = [tickKey poolId 120, tickKey poolId 110] ∧
      ¬ OneLiveTick broughtBack := by
  have hentries : broughtBack.repo.tickEntries poolId =
      [tickKey poolId 120, tickKey poolId 110] := rfl
  refine ⟨?_, hentries, ?_⟩
  · refine Run.cons (t := scheduled) (.update (by simp [initial]) ?_ rfl) ?_
    · intro old h
      cases h
    refine Run.cons (t := { scheduled with stage := .peeked tick }) (.peek rfl rfl) ?_
    refine Run.cons (t := advanced) (.update (by simp) ?_ rfl) ?_
    · intro old h
      cases h
      exact ⟨rfl, rfl, rfl, le_rfl, by decide⟩
    exact .single (.defer rfl)
  · intro h
    have hone := h.one poolId
    rw [hentries] at hone
    cases hone with
    | step hzero => cases hzero

end SpectrumOffchain.Scheduler
