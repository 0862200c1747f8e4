import SpectrumOffchain.Lib.Store
import SpectrumOffchain.Lib.Table
import SpectrumOffchain.Scheduler.Data
import Mathlib.Data.List.Sort

/-!
# The repository of schedules

`ScheduleRepoRocksDB` keeps the schedule of each pool and its tick, which is pending until
the scheduler has tried it, and deferred from then on.  The keys of ticks are the height,
the highest byte first, and the id of the pool, so that the database iterates over the ticks
of each kind in the order of their heights.

Where a tick is found, what is returned is the tick of the stored schedule of its pool.

## Order of the lemmas

First the arithmetic of a schedule: when the next compounding is, and that a tick derived
from a schedule is at this height (`Tick.of_tryFrom`); conversely a schedule with epochs
left and numbers in range has a tick (`Tick.exists_tryFrom`).

Then the operations, with one lemma for each about the keys of the ticks
(`mem_tickEntries_write`, `mem_tickEntries_clean`, `mem_tickEntries_defer`,
`mem_tickEntries_remove`), and one for what `peek` can return (`peek_eq_some`).  Arguments
about runs go through these and `handleSchedule_eq_ok`.
-/

namespace SpectrumOffchain

structure TickKey where
  height : ℕ
  poolId : PoolId
  deriving DecidableEq, Repr

/-- The order in which the database iterates over ticks of a kind. -/
def TickKey.Le (k k' : TickKey) : Prop :=
  k.height < k'.height ∨
    k.height = k'.height ∧ k.poolId.tokenId.bytes ≤ k'.poolId.tokenId.bytes

instance (k k' : TickKey) : Decidable (TickKey.Le k k') :=
  inferInstanceAs (Decidable (_ ∨ _ ∧ _))

structure DeferredTick where
  key : TickKey
  deferredUntil : ℤ
  deriving DecidableEq, Repr

structure ProgramExhausted where
  deriving DecidableEq, Repr

structure ScheduleRepo where
  schedules : Store PoolId PoolSchedule
  ticks : Table (fun key : TickKey => key)
  deferredTicks : Table DeferredTick.key

/-- The key of a tick of the pool. -/
def tickKey (poolId : PoolId) (height : ℕ) : TickKey := ⟨height, poolId⟩

/-! ## The next compounding -/

namespace PoolSchedule

/-- The heights of the schedule are in the range of the machine integers. -/
structure InRange (self : PoolSchedule) : Prop where
  next : self.programStart + self.lastCompletedEpochIx * self.epochLen + self.epochLen < 2 ^ 32
  last : self.programStart + self.epochLen * self.epochNum < 2 ^ 32

theorem nextCompoundingAt_eq_ok {ε : Type} {sc : PoolSchedule} {res : Option ℕ} :
    (sc.nextCompoundingAt : Outcome ε _) = .ok res ↔ sc.InRange ∧
      res = if sc.programStart + sc.lastCompletedEpochIx * sc.epochLen + sc.epochLen ≤
          sc.programStart + sc.epochLen * sc.epochNum
        then some (sc.programStart + sc.lastCompletedEpochIx * sc.epochLen + sc.epochLen)
        else none := by
  unfold nextCompoundingAt programEnd
  simp only [Outcome.bind_eq_ok, Outcome.checkedMul_eq_ok, Outcome.checkedAdd_eq_ok]
  constructor
  · rintro ⟨_, ⟨-, rfl⟩, _, ⟨-, rfl⟩, _, ⟨hnext, rfl⟩, _, ⟨_, ⟨-, rfl⟩, hlast, rfl⟩, h⟩
    refine ⟨⟨hnext, hlast⟩, ?_⟩
    split at h <;> cases h
    · rw [if_pos (by assumption)]
    · rw [if_neg (by assumption)]
  · rintro ⟨⟨hnext, hlast⟩, rfl⟩
    refine ⟨_, ⟨by omega, rfl⟩, _, ⟨by omega, rfl⟩, _, ⟨hnext, rfl⟩, _,
      ⟨_, ⟨by omega, rfl⟩, hlast, rfl⟩, ?_⟩
    split <;> rfl

theorem nextCompoundingAt_eq_some {ε : Type} {sc : PoolSchedule} {height : ℕ}
    (h : (sc.nextCompoundingAt : Outcome ε _) = .ok (some height)) :
    height = sc.programStart + sc.lastCompletedEpochIx * sc.epochLen + sc.epochLen := by
  obtain ⟨-, heq⟩ := nextCompoundingAt_eq_ok.mp h
  split at heq
  · exact Option.some.inj heq
  · cases heq

theorem unfailing_nextCompoundingAt {ε : Type} (sc : PoolSchedule) :
    Outcome.Unfailing (sc.nextCompoundingAt : Outcome ε _) := by
  unfold nextCompoundingAt programEnd
  refine Outcome.unfailing_bind (Outcome.unfailing_checkedMul _ _ _) fun past => ?_
  refine Outcome.unfailing_bind (Outcome.unfailing_checkedAdd _ _ _) fun lastEpochStart => ?_
  refine Outcome.unfailing_bind (Outcome.unfailing_checkedAdd _ _ _) fun nextEpochStart => ?_
  refine Outcome.unfailing_bind ?_ fun programEnd => ?_
  · refine Outcome.unfailing_bind (Outcome.unfailing_checkedMul _ _ _) fun len => ?_
    exact Outcome.unfailing_checkedAdd _ _ _
  · split <;> exact Outcome.unfailing_pure _

/-- The next compounding has nothing to do with the error of the caller. -/
theorem nextCompoundingAt_congr {ε ε' : Type} {sc : PoolSchedule} {res : Option ℕ} :
    (sc.nextCompoundingAt : Outcome ε _) = .ok res ↔
      (sc.nextCompoundingAt : Outcome ε' _) = .ok res :=
  nextCompoundingAt_eq_ok.trans nextCompoundingAt_eq_ok.symm

end PoolSchedule

/-- A tick is that of a schedule. -/
theorem Tick.of_tryFrom {sc : PoolSchedule} {tick : Tick} (h : Tick.tryFrom sc = .ok tick) :
    tick.poolId = sc.poolId ∧
      (sc.nextCompoundingAt : Outcome Unit _) = .ok (some tick.height) := by
  obtain ⟨next, hnext, h⟩ := Outcome.bind_eq_ok.mp h
  cases next with
  | none => cases h
  | some height =>
      obtain ⟨epochIx, -, h⟩ := Outcome.bind_eq_ok.mp h
      cases h
      exact ⟨rfl, hnext⟩

/-- As long as an epoch is left there is a tick, if the heights of the program are in range. -/
theorem Tick.exists_tryFrom {sc : PoolSchedule} (hleft : sc.lastCompletedEpochIx < sc.epochNum)
    (hnum : sc.epochNum < 2 ^ 32) (hend : sc.programStart + sc.epochLen * sc.epochNum < 2 ^ 32) :
    ∃ tick, Tick.tryFrom sc = .ok tick := by
  -- the next epoch ends before the program does
  have hnext : sc.lastCompletedEpochIx * sc.epochLen + sc.epochLen ≤ sc.epochLen * sc.epochNum := by
    rw [← Nat.succ_mul, Nat.mul_comm]
    exact Nat.mul_le_mul_left _ hleft
  have hheight : (sc.nextCompoundingAt : Outcome Unit _) = .ok (some _) :=
    PoolSchedule.nextCompoundingAt_eq_ok.mpr ⟨⟨by omega, hend⟩, (if_pos (by omega)).symm⟩
  have hix : (.checkedAdd 32 sc.lastCompletedEpochIx 1 : Outcome Unit ℕ) = .ok _ :=
    Outcome.checkedAdd_eq_ok.mpr ⟨by omega, rfl⟩
  rw [Tick.tryFrom, hheight, Outcome.ok_bind]
  dsimp only
  rw [hix]
  exact ⟨_, rfl⟩

/-! ## The operations -/

namespace ScheduleRepo

def empty : ScheduleRepo := ⟨.empty, .empty, .empty⟩

/-- The updated schedule and its tick, in place of those before and after it. -/
def write (repo : ScheduleRepo) (schedule : PoolSchedule) (nextHeight afterNextHeight : ℕ) :
    ScheduleRepo :=
  let pid := schedule.poolId
  let prevHeight := nextHeight - schedule.epochLen
  { schedules := repo.schedules.put pid schedule
    ticks := ((repo.ticks.put (tickKey pid nextHeight)).remove (tickKey pid prevHeight)).remove
      (tickKey pid afterNextHeight)
    deferredTicks := (repo.deferredTicks.remove (tickKey pid prevHeight)).remove
      (tickKey pid afterNextHeight) }

def updateSchedule (repo : ScheduleRepo) (schedule : PoolSchedule) :
    Outcome ProgramExhausted ScheduleRepo := do
  match ← schedule.nextCompoundingAt with
  | some nextHeight => do
      let afterNextHeight ← .checkedAdd 32 nextHeight schedule.epochLen
      -- unless the schedule was tried at this height already
      if tickKey schedule.poolId nextHeight ∉ repo.deferredTicks.keys ∧
          tickKey schedule.poolId nextHeight ∉ repo.ticks.keys then
        pure (repo.write schedule nextHeight afterNextHeight)
      else pure repo
  | none => .err ⟨⟩

/-- The tick of the stored schedule of a pool. -/
def scheduledTick (repo : ScheduleRepo) (poolId : PoolId) : Outcome Unit (Option Tick) :=
  match repo.schedules.get poolId with
  | some sc =>
      match Tick.tryFrom sc with
      | .ok tick => .ok (some tick)
      | .err _ => .ok none
      | .crash => .crash
  | none => .ok none

/-- The first of the pending ticks with a schedule. -/
def firstTick (repo : ScheduleRepo) : List TickKey → Outcome Unit (Option Tick)
  | [] => pure none
  | key :: rest => do
      match ← repo.scheduledTick key.poolId with
      | some tick => pure (some tick)
      | none => repo.firstTick rest

/-- The first of the deferred ticks, up to the first whose time has not come. -/
def firstDeferredTick (repo : ScheduleRepo) (tsNow : ℤ) :
    List DeferredTick → Outcome Unit (Option Tick)
  | [] => pure none
  | deferred :: rest =>
      if deferred.deferredUntil ≤ tsNow then do
        match ← repo.scheduledTick deferred.key.poolId with
        | some tick => pure (some tick)
        | none => repo.firstDeferredTick tsNow rest
      else pure none

def peek (repo : ScheduleRepo) (tsNow : ℤ) : Outcome Unit (Option Tick) := do
  let tick ← repo.firstTick (repo.ticks.entries.insertionSort TickKey.Le)
  let deferredTick ← repo.firstDeferredTick tsNow
    (repo.deferredTicks.entries.insertionSort fun t t' => t.key.Le t'.key)
  -- the one with the lowest height
  match tick, deferredTick with
  | some tick, none => pure (some tick)
  | none, some tick => pure (some tick)
  | some pendingTick, some deferredTick =>
      if pendingTick.height < deferredTick.height then pure (some pendingTick)
      else pure (some deferredTick)
  | none, none => pure none

/-- Only deferred ticks are removed. -/
def remove (repo : ScheduleRepo) (tick : Tick) : ScheduleRepo :=
  { repo with deferredTicks := repo.deferredTicks.remove (tickKey tick.poolId tick.height) }

def defer (repo : ScheduleRepo) (tick : Tick) (deferredUntil : ℤ) : ScheduleRepo :=
  { repo with
    ticks := repo.ticks.remove (tickKey tick.poolId tick.height)
    deferredTicks := repo.deferredTicks.put ⟨tickKey tick.poolId tick.height, deferredUntil⟩ }

/-- Delete all keys that end in the id of the pool. -/
def clean (repo : ScheduleRepo) (poolId : PoolId) : ScheduleRepo where
  schedules := repo.schedules.delete poolId
  ticks := repo.ticks.removeAll fun key => key.poolId = poolId
  deferredTicks := repo.deferredTicks.removeAll fun key => key.poolId = poolId

/-- What `ConfirmedScheduleUpdateHandler` does with the schedule of a pool: a pool whose program is
exhausted is cleaned. -/
def handleSchedule (repo : ScheduleRepo) (schedule : PoolSchedule) : Outcome Unit ScheduleRepo :=
  match repo.updateSchedule schedule with
  | .ok repo => .ok repo
  | .err _ => .ok (repo.clean schedule.poolId)
  | .crash => .crash

/-- The ticks of a pool, pending or deferred. -/
def tickEntries (repo : ScheduleRepo) (poolId : PoolId) : List TickKey :=
  (repo.ticks.keys ++ repo.deferredTicks.keys).filter fun key => key.poolId = poolId

/-! ## What the operations do -/

section Lemmas

variable {repo repo' : ScheduleRepo} {schedule : PoolSchedule} {key : TickKey} {poolId : PoolId}
  {tick : Tick} {tsNow : ℤ}

theorem mem_tickEntries : key ∈ repo.tickEntries poolId ↔
    (key ∈ repo.ticks.keys ∨ key ∈ repo.deferredTicks.keys) ∧ key.poolId = poolId := by
  rw [tickEntries, List.mem_filter, List.mem_append, decide_eq_true_eq]

theorem mem_ticks_write {nextHeight afterNextHeight : ℕ} :
    key ∈ (repo.write schedule nextHeight afterNextHeight).ticks.keys ↔
      ((key = tickKey schedule.poolId nextHeight ∨ key ∈ repo.ticks.keys) ∧
        key ≠ tickKey schedule.poolId (nextHeight - schedule.epochLen)) ∧
        key ≠ tickKey schedule.poolId afterNextHeight :=
  Table.mem_keys_remove.trans (and_congr_left fun _ =>
    Table.mem_keys_remove.trans (and_congr_left fun _ => Table.mem_keys_put))

theorem mem_deferredTicks_write {nextHeight afterNextHeight : ℕ} :
    key ∈ (repo.write schedule nextHeight afterNextHeight).deferredTicks.keys ↔
      (key ∈ repo.deferredTicks.keys ∧
        key ≠ tickKey schedule.poolId (nextHeight - schedule.epochLen)) ∧
        key ≠ tickKey schedule.poolId afterNextHeight :=
  Table.mem_keys_remove.trans (and_congr_left fun _ => Table.mem_keys_remove)

theorem mem_tickEntries_write {nextHeight afterNextHeight : ℕ}
    (h : key ∈ (repo.write schedule nextHeight afterNextHeight).tickEntries poolId) :
    (key = tickKey schedule.poolId nextHeight ∧ poolId = schedule.poolId ∨
      key ∈ repo.tickEntries poolId) ∧
      key ≠ tickKey schedule.poolId (nextHeight - schedule.epochLen) ∧
      key ≠ tickKey schedule.poolId afterNextHeight := by
  rw [mem_tickEntries, mem_ticks_write, mem_deferredTicks_write] at h
  rw [mem_tickEntries]
  obtain ⟨⟨⟨rfl | hkey, hprev⟩, hafter⟩ | ⟨⟨hkey, hprev⟩, hafter⟩, rfl⟩ := h
  · exact ⟨.inl ⟨rfl, rfl⟩, hprev, hafter⟩
  · exact ⟨.inr ⟨.inl hkey, rfl⟩, hprev, hafter⟩
  · exact ⟨.inr ⟨.inr hkey, rfl⟩, hprev, hafter⟩

theorem mem_tickEntries_clean {poolId' : PoolId} :
    key ∈ (repo.clean poolId').tickEntries poolId ↔
      key ∈ repo.tickEntries poolId ∧ poolId ≠ poolId' := by
  rw [mem_tickEntries, mem_tickEntries]
  simp only [clean, Table.mem_keys_removeAll, decide_eq_false_iff_not]
  constructor
  · rintro ⟨⟨hkey, hne⟩ | ⟨hkey, hne⟩, rfl⟩
    · exact ⟨⟨.inl hkey, rfl⟩, hne⟩
    · exact ⟨⟨.inr hkey, rfl⟩, hne⟩
  · rintro ⟨⟨hkey, rfl⟩, hne⟩
    exact ⟨hkey.imp (⟨·, hne⟩) (⟨·, hne⟩), rfl⟩

theorem mem_tickEntries_defer {deferredUntil : ℤ} :
    key ∈ (repo.defer tick deferredUntil).tickEntries poolId ↔
      key = tickKey tick.poolId tick.height ∧ poolId = tick.poolId ∨
        key ∈ repo.tickEntries poolId := by
  rw [mem_tickEntries, mem_tickEntries]
  simp only [defer, Table.mem_keys_remove, Table.mem_keys_put]
  by_cases hkey : key = tickKey tick.poolId tick.height
  · subst hkey
    simp only [ne_eq, not_true_eq_false, and_false, true_or, or_true, true_and]
    constructor
    · rintro rfl
      exact .inl rfl
    · rintro (rfl | ⟨-, h⟩)
      · rfl
      · exact h
  · simp only [hkey, ne_eq, not_false_eq_true, and_true, false_or, false_and]

theorem mem_tickEntries_remove (h : key ∈ (repo.remove tick).tickEntries poolId) :
    key ∈ repo.tickEntries poolId := by
  rw [mem_tickEntries] at h ⊢
  exact ⟨h.1.imp_right fun h => (Table.mem_keys_remove.mp h).1, h.2⟩

/-- What the handler does: the pool is cleaned, or its schedule is written unless there is a tick
at the same height. -/
theorem handleSchedule_eq_ok (h : repo.handleSchedule schedule = .ok repo') :
    ((schedule.nextCompoundingAt : Outcome Unit _) = .ok none ∧
        repo' = repo.clean schedule.poolId) ∨
      ∃ nextHeight, (schedule.nextCompoundingAt : Outcome Unit _) = .ok (some nextHeight) ∧
        ((tickKey schedule.poolId nextHeight ∉ repo.deferredTicks.keys ∧
            tickKey schedule.poolId nextHeight ∉ repo.ticks.keys ∧
            repo' = repo.write schedule nextHeight (nextHeight + schedule.epochLen)) ∨
          tickKey schedule.poolId nextHeight ∈ repo.tickEntries schedule.poolId ∧
            repo' = repo) := by
  unfold handleSchedule at h
  cases hupdate : repo.updateSchedule schedule with
  | crash =>
      rw [hupdate] at h
      cases h
  -- The one error of `update_schedule` is an exhausted program: the handler then cleans up.
  | err e =>
      rw [hupdate] at h
      cases h
      rcases Outcome.bind_eq_err.mp hupdate with hfail | ⟨next, hnext, hrest⟩
      · exact absurd hfail (schedule.unfailing_nextCompoundingAt e)
      · cases next with
        | none => exact .inl ⟨PoolSchedule.nextCompoundingAt_congr.mp hnext, rfl⟩
        | some nextHeight =>
            rcases Outcome.bind_eq_err.mp hrest with hfail | ⟨after, -, hrest⟩
            · exact absurd hfail (Outcome.unfailing_checkedAdd 32 _ _ e)
            · split at hrest <;> cases hrest
  | ok repo'' =>
      rw [hupdate] at h
      cases h
      obtain ⟨next, hnext, hrest⟩ := Outcome.bind_eq_ok.mp hupdate
      cases next with
      | none => cases hrest
      | some nextHeight =>
          refine .inr ⟨nextHeight, PoolSchedule.nextCompoundingAt_congr.mp hnext, ?_⟩
          obtain ⟨after, hafter, hrest⟩ := Outcome.bind_eq_ok.mp hrest
          obtain ⟨-, rfl⟩ := Outcome.checkedAdd_eq_ok.mp hafter
          split at hrest
          case isTrue hnew =>
            cases hrest
            exact .inl ⟨hnew.1, hnew.2, rfl⟩
          -- A tick at this height is stored already, in one of the two columns.
          case isFalse hold =>
            cases hrest
            refine .inr ⟨mem_tickEntries.mpr ⟨?_, rfl⟩, rfl⟩
            by_contra hnone
            exact hold ⟨fun h => hnone (.inr h), fun h => hnone (.inl h)⟩

theorem scheduledTick_eq_some : repo.scheduledTick poolId = .ok (some tick) ↔
    ∃ sc, repo.schedules.get poolId = some sc ∧ Tick.tryFrom sc = .ok tick := by
  unfold scheduledTick
  cases repo.schedules.get poolId with
  | none => simp
  | some sc => cases htick : Tick.tryFrom sc <;> simp [htick]

theorem firstTick_eq_some {keys : List TickKey} (h : repo.firstTick keys = .ok (some tick)) :
    ∃ key ∈ keys, repo.scheduledTick key.poolId = .ok (some tick) := by
  induction keys with
  | nil => cases h
  | cons key rest ih =>
      obtain ⟨found, hfound, h⟩ := Outcome.bind_eq_ok.mp h
      cases found with
      | some tick' =>
          cases h
          exact ⟨key, List.mem_cons_self, hfound⟩
      | none =>
          obtain ⟨key', hkey', htick⟩ := ih h
          exact ⟨key', List.mem_cons_of_mem key hkey', htick⟩

theorem firstDeferredTick_eq_some {deferred : List DeferredTick}
    (h : repo.firstDeferredTick tsNow deferred = .ok (some tick)) :
    ∃ t ∈ deferred, repo.scheduledTick t.key.poolId = .ok (some tick) := by
  induction deferred with
  | nil => cases h
  | cons t rest ih =>
      unfold firstDeferredTick at h
      split at h
      case isFalse => cases h
      case isTrue =>
        obtain ⟨found, hfound, h⟩ := Outcome.bind_eq_ok.mp h
        cases found with
        | some tick' =>
            cases h
            exact ⟨t, List.mem_cons_self, hfound⟩
        | none =>
            obtain ⟨t', ht', htick⟩ := ih h
            exact ⟨t', List.mem_cons_of_mem t ht', htick⟩

/-- What is peeked is the tick of the stored schedule of a pool that has a tick. -/
theorem peek_eq_some (h : repo.peek tsNow = .ok (some tick)) :
    ∃ poolId sc, repo.tickEntries poolId ≠ [] ∧ repo.schedules.get poolId = some sc ∧
      Tick.tryFrom sc = .ok tick := by
  obtain ⟨pending, hpending, h⟩ := Outcome.bind_eq_ok.mp h
  obtain ⟨deferred, hdeferred, h⟩ := Outcome.bind_eq_ok.mp h
  have hwhich : pending = some tick ∨ deferred = some tick := by
    cases pending <;> cases deferred <;> dsimp only at h
    · cases h
    · cases h
      exact .inr rfl
    · cases h
      exact .inl rfl
    · split at h <;> cases h
      · exact .inl rfl
      · exact .inr rfl
  rcases hwhich with rfl | rfl
  · obtain ⟨key, hkey, htick⟩ := firstTick_eq_some hpending
    obtain ⟨sc, hsc, htick⟩ := scheduledTick_eq_some.mp htick
    refine ⟨key.poolId, sc, List.ne_nil_of_mem (mem_tickEntries.mpr ⟨.inl ?_, rfl⟩), hsc, htick⟩
    rw [Table.keys, List.map_id']
    exact (List.mem_insertionSort _).mp hkey
  · obtain ⟨t, ht, htick⟩ := firstDeferredTick_eq_some hdeferred
    obtain ⟨sc, hsc, htick⟩ := scheduledTick_eq_some.mp htick
    refine ⟨t.key.poolId, sc, List.ne_nil_of_mem (mem_tickEntries.mpr ⟨.inr ?_, rfl⟩), hsc, htick⟩
    exact List.mem_map_of_mem ((List.mem_insertionSort _).mp ht)

end Lemmas

end ScheduleRepo

end SpectrumOffchain
