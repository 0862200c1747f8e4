import SpectrumOffchain.Data.Pool

/-!
# The schedule of a pool

`scheduler/data.rs`: the time points at which a pool should distribute rewards, derived
from the pool, and the next of them.
-/

namespace SpectrumOffchain

variable {ε : Type}

/-- Time point when a particular pool should distribute rewards. -/
structure Tick where
  poolId : PoolId
  epochIx : ℕ
  height : ℕ
  deriving DecidableEq, Repr

structure PoolSchedule where
  poolId : PoolId
  epochLen : ℕ
  epochNum : ℕ
  programStart : ℕ
  lastCompletedEpochIx : ℕ
  deriving DecidableEq, Repr

namespace PoolSchedule

def programEnd (self : PoolSchedule) : Outcome ε ℕ := do
  let len ← .checkedMul 32 self.epochLen self.epochNum
  .checkedAdd 32 self.programStart len

def nextCompoundingAt (self : PoolSchedule) : Outcome ε (Option ℕ) := do
  let past ← .checkedMul 32 self.lastCompletedEpochIx self.epochLen
  let lastEpochStart ← .checkedAdd 32 self.programStart past
  let nextEpochStart ← .checkedAdd 32 lastEpochStart self.epochLen
  let programEnd ← self.programEnd
  if nextEpochStart ≤ programEnd then pure (some nextEpochStart) else pure none

/-- `PoolSchedule::from(pool)`. -/
def fromPool (pool : Pool) : Outcome ε PoolSchedule := do
  let epochsLeft ← pool.epochsLeftToProcess
  let lastCompletedEpochIx ← .checkedSub pool.conf.epochNum epochsLeft
  pure
    { poolId := pool.poolId
      epochLen := pool.conf.epochLen
      epochNum := pool.conf.epochNum
      programStart := pool.conf.programStart
      lastCompletedEpochIx }

end PoolSchedule

/-- `Tick::try_from(sc)`; there is none after the last epoch. -/
def Tick.tryFrom (sc : PoolSchedule) : Outcome Unit Tick := do
  match ← sc.nextCompoundingAt with
  | some height =>
    let epochIx ← .checkedAdd 32 sc.lastCompletedEpochIx 1
    pure { poolId := sc.poolId, epochIx, height }
  | none => .err ()

end SpectrumOffchain
