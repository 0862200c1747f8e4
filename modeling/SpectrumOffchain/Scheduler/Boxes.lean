import SpectrumOffchain.Execution.Prediction
import SpectrumOffchain.Scheduler.Heights
import SpectrumOffchain.Scheduler.Repo

/-!
# The schedule of any pool box

The handler of the ledger computes the schedule of every output that is read as a pool.  The
parser checks the script and the shape of the registers, but it takes the parameters of the
program as they are, so that anyone can make the handler compute with any of them.

`Schedulable` says when it gets a schedule.  There has to be an epoch at all, since the budget is
divided by their number; the quotient of what is left of the budget must not exceed the number
of epochs; and the heights have to fit into 32 bits, that of the epoch after the last one too if
all epochs have been compounded.
-/

namespace SpectrumOffchain

open Binary64

/-- The handler gets a schedule, and a tick within the program unless it is exhausted. -/
structure UsableSchedule (pool : Pool) (schedule : PoolSchedule) : Prop where
  fromPool : (PoolSchedule.fromPool pool : Outcome Unit _) = .ok schedule
  lastCompleted : schedule.lastCompletedEpochIx ≤ pool.conf.epochNum
  next : ∃ next, (schedule.nextCompoundingAt : Outcome Unit _) = .ok next
  tick_ne_crash : Tick.tryFrom schedule ≠ .crash
  tick : ∀ tick, Tick.tryFrom schedule = .ok tick → ∃ programEnd,
    (schedule.programEnd : Outcome Unit _) = .ok programEnd ∧
      pool.conf.programStart ≤ tick.height ∧ tick.height ≤ programEnd

namespace Pool

/-- The part of the budget that is still to be paid out in whole epochs. -/
def left (self : Pool) : ℕ := self.budgetRem.amount - self.conf.maxRoundingError

/-- The parameters and the budget of which the handler can make a schedule. -/
structure Schedulable (self : Pool) : Prop where
  epochNum_pos : 0 < self.conf.epochNum
  /-- What is left is that of at most as many epochs as there are, up to rounding. -/
  epochs : self.left = 0 ∨ self.conf.epochNum = 2 ^ 32 - 1 ∨ self.conf.epochAlloc ≠ 0 ∧
    round self.left ≤ (self.conf.epochNum + ulp self.conf.epochNum / 2) * round self.conf.epochAlloc
  programEnd : self.conf.programStart + self.conf.epochLen * self.conf.epochNum < 2 ^ 32
  /-- When all epochs have been compounded, the one after them is looked at. -/
  complete : self.left = 0 →
    self.conf.programStart + self.conf.epochLen * (self.conf.epochNum + 1) < 2 ^ 32 ∧
      (self.conf.epochLen = 0 → self.conf.epochNum < 2 ^ 32 - 1)

variable {self : Pool}

/-- The epochs that the code counts as left to process. -/
def epochsLeft (self : Pool) : ℕ :=
  (F64.ceil (F64.div (F64.ofNat self.left) (F64.ofNat self.conf.epochAlloc))).toU32

theorem epochsLeft_eq_zero_iff : self.epochsLeft = 0 ↔ self.left = 0 :=
  F64.toU32_ceil_div_eq_zero_iff

theorem epochsLeft_le_iff (hnum : 0 < self.conf.epochNum) :
    self.epochsLeft ≤ self.conf.epochNum ↔
      self.left = 0 ∨ self.conf.epochNum = 2 ^ 32 - 1 ∨ self.conf.epochAlloc ≠ 0 ∧
        round self.left ≤
          (self.conf.epochNum + ulp self.conf.epochNum / 2) * round self.conf.epochAlloc :=
  F64.toU32_ceil_div_le_iff hnum self.conf.epochNum_lt

end Pool

theorem PoolSchedule.programEnd_eq_ok {sc : PoolSchedule} {programEnd : ℕ} :
    (sc.programEnd : Outcome Unit _) = .ok programEnd ↔
      sc.programStart + sc.epochLen * sc.epochNum < 2 ^ 32 ∧
        programEnd = sc.programStart + sc.epochLen * sc.epochNum := by
  simp only [PoolSchedule.programEnd, Outcome.bind_eq_ok, Outcome.checkedMul_eq_ok,
    Outcome.checkedAdd_eq_ok]
  constructor
  · rintro ⟨_, ⟨-, rfl⟩, hlt, rfl⟩
    exact ⟨hlt, rfl⟩
  · rintro ⟨hlt, rfl⟩
    exact ⟨_, ⟨by omega, rfl⟩, hlt, rfl⟩

theorem PoolSchedule.fromPool_eq_ok {pool : Pool} {schedule : PoolSchedule} :
    (PoolSchedule.fromPool pool : Outcome Unit _) = .ok schedule ↔
      0 < pool.conf.epochNum ∧ pool.epochsLeft ≤ pool.conf.epochNum ∧
        schedule =
          { poolId := pool.poolId
            epochLen := pool.conf.epochLen
            epochNum := pool.conf.epochNum
            programStart := pool.conf.programStart
            lastCompletedEpochIx := pool.conf.epochNum - pool.epochsLeft } := by
  simp only [fromPool, Pool.epochsLeftToProcess, Outcome.bind_eq_ok, Pool.epochAlloc_eq_ok,
    Outcome.checkedSub_eq_ok, Outcome.pure_eq, Outcome.ok.injEq]
  constructor
  · rintro ⟨_, ⟨_, ⟨hnum, rfl⟩, rfl⟩, _, ⟨hle, rfl⟩, rfl⟩
    exact ⟨Nat.pos_of_ne_zero hnum, hle, rfl⟩
  · rintro ⟨hnum, hle, rfl⟩
    exact ⟨_, ⟨_, ⟨hnum.ne', rfl⟩, rfl⟩, _, ⟨hle, rfl⟩, rfl⟩

/-- The number of the next epoch has to fit as well. -/
theorem Tick.tryFrom_ne_crash_iff {sc : PoolSchedule} {next : Option ℕ}
    (h : (sc.nextCompoundingAt : Outcome Unit _) = .ok next) :
    Tick.tryFrom sc ≠ .crash ↔ (next.isSome → sc.lastCompletedEpochIx + 1 < 2 ^ 32) := by
  rw [tryFrom, h, Outcome.ok_bind]
  cases next with
  | none => simp
  | some height =>
      dsimp only
      rw [Outcome.bind_ne_crash, Outcome.checkedAdd_ne_crash]
      simp

/-- The handler gets a schedule exactly of the pools that have one. -/
theorem usableSchedule_iff {pool : Pool} :
    (∃ schedule, UsableSchedule pool schedule) ↔ pool.Schedulable := by
  have hzero := pool.epochsLeft_eq_zero_iff
  have hlt := pool.conf.epochNum_lt
  constructor
  · rintro ⟨schedule, hfrom, -, ⟨next, hnext⟩, hcrash, -⟩
    obtain ⟨hnum, hle, rfl⟩ := PoolSchedule.fromPool_eq_ok.mp hfrom
    rw [Tick.tryFrom_ne_crash_iff hnext] at hcrash
    obtain ⟨⟨hnextRange, hlastRange⟩, rfl⟩ := PoolSchedule.nextCompoundingAt_eq_ok.mp hnext
    refine ⟨hnum, (Pool.epochsLeft_le_iff hnum).mp hle, hlastRange, fun hleft => ?_⟩
    -- all epochs are compounded, so that the schedule is the one after the last epoch
    rw [hzero.mpr hleft] at hnextRange hcrash
    dsimp only at hnextRange hcrash
    rw [Nat.sub_zero] at hnextRange hcrash
    refine ⟨?_, fun hlen => ?_⟩
    · rw [Nat.mul_succ, Nat.mul_comm]
      omega
    · rw [hlen] at hcrash
      simp only [Nat.mul_zero, Nat.zero_mul, Nat.add_zero, le_refl, if_true, Option.isSome_some,
        forall_const] at hcrash
      omega
  · rintro ⟨hnum, hepochs, hprogramEnd, hcomplete⟩
    have hle : pool.epochsLeft ≤ pool.conf.epochNum := (Pool.epochsLeft_le_iff hnum).mpr hepochs
    set last := pool.conf.epochNum - pool.epochsLeft with hlast
    have hmul : last * pool.conf.epochLen ≤ pool.conf.epochLen * pool.conf.epochNum := by
      rw [Nat.mul_comm]
      exact Nat.mul_le_mul_left _ (by omega)
    -- the next height is in range, whether or not an epoch is left
    have hrange : pool.conf.programStart + last * pool.conf.epochLen + pool.conf.epochLen <
        2 ^ 32 := by
      by_cases hleft : pool.left = 0
      · have hnext := (hcomplete hleft).1
        rw [Nat.mul_succ] at hnext
        omega
      · have hsucc := Nat.mul_le_mul_left pool.conf.epochLen (by omega : last + 1 ≤ pool.conf.epochNum)
        rw [Nat.mul_succ, Nat.mul_comm] at hsucc
        omega
    have hnext : ((pool.conf.schedule pool.poolId last).nextCompoundingAt : Outcome Unit _) =
        .ok _ := PoolSchedule.nextCompoundingAt_eq_ok.mpr ⟨⟨hrange, hprogramEnd⟩, rfl⟩
    refine ⟨pool.conf.schedule pool.poolId last, ?_, Nat.sub_le _ _, ⟨_, hnext⟩, ?_, ?_⟩
    · exact PoolSchedule.fromPool_eq_ok.mpr ⟨hnum, hle, rfl⟩
    · rw [Tick.tryFrom_ne_crash_iff hnext]
      intro hsome
      show last + 1 < 2 ^ 32
      by_cases hleft : pool.left = 0
      · -- after the last epoch there is a next one only if epochs have no length
        have hshort : pool.conf.programStart + last * pool.conf.epochLen + pool.conf.epochLen ≤
            pool.conf.programStart + pool.conf.epochLen * pool.conf.epochNum := by
          split at hsome
          case isTrue hshort => exact hshort
          case isFalse => cases hsome
        rw [hlast, hzero.mpr hleft, Nat.sub_zero, Nat.mul_comm] at hshort
        have hnum' := (hcomplete hleft).2 (by omega)
        omega
      · omega
    · intro tick htick
      obtain ⟨-, hheight⟩ := Tick.of_tryFrom htick
      rw [hnext, Outcome.ok.injEq] at hheight
      refine ⟨_, PoolSchedule.programEnd_eq_ok.mpr ⟨hprogramEnd, rfl⟩, ?_⟩
      split at hheight
      case isFalse => cases hheight
      case isTrue hshort =>
        rw [← Option.some.inj hheight]
        exact ⟨Nat.le_add_right_of_le (Nat.le_add_right _ _), hshort⟩

/-- The handler gets a schedule of the pools that a box may be read as exactly if they have one. -/
theorem usableSchedule_of_box_iff (bx : ErgoBox) :
    (∀ pool, Pool.tryFromBox bx = some pool → ∃ schedule, UsableSchedule pool schedule) ↔
      ∀ pool, Pool.tryFromBox bx = some pool → pool.Schedulable :=
  forall₂_congr fun _ _ => usableSchedule_iff

/-! ## A program without epochs -/

namespace Sample

open Staking.Sample

/-- The sample pool with no epochs. -/
def epochlessPool : Pool :=
  { Staking.Sample.pool with
    conf := { Staking.Sample.conf with epochNum := 0, epochNum_lt := zero_lt_u32 } }

def epochlessBox : ErgoBox :=
  box fatValue poolValidator (some (poolTokens poolNft poolTmp))
    ⟨epochlessPool.registers, by decide, by decide⟩ 15

theorem tryFromBox_epochlessBox : Pool.tryFromBox epochlessBox = some epochlessPool :=
  Pool.tryFromBox_of_contents (c := epochlessBox.toErgoBoxCandidate)
    ⟨by decide, rfl, fun _ h => by cases h⟩ rfl (digest 13) 15

end Sample

open Sample in
/-- The handler divides by the number of epochs. -/
theorem epochless_pool_crashes :
    Pool.tryFromBox epochlessBox = some epochlessPool ∧
      (PoolSchedule.fromPool epochlessPool : Outcome Unit _) = .crash ∧
      ¬ ∃ schedule, UsableSchedule epochlessPool schedule := by
  refine ⟨tryFromBox_epochlessBox, rfl, ?_⟩
  rintro ⟨schedule, hfrom, -⟩
  cases hfrom

end SpectrumOffchain
