import Mathlib.Data.Int.Order.Basic
import SpectrumOffchain.Lib.Table

/-!
# The backlog

`BacklogService` keeps orders in a persistent store and hands them out by weight.  An
order id that is to be executed waits in one of three queues in memory: `pending_pq`,
`suspended_pq` for orders that failed and are retried with some probability, and
`revisit_queue` for orders that were submitted.  The queues hold weighted orders, an id
with a timestamp; entries whose order has left the store are dropped when they surface.

What an operation reads besides the state is an argument of it: the readings of the
clock, the random draw, and which of several equally good queue entries is taken.
Timestamps and durations are in seconds.
-/

namespace SpectrumOffchain

/-- `trait OnChainOrder`, as far as the backlog uses it. -/
class OnChainOrder (TOrd : Type) (TOrderId : outParam Type) where
  getSelfRef : TOrd → TOrderId

/-- `trait Weighted`. -/
class Weighted (TOrd : Type) where
  weight : TOrd → ℕ

export OnChainOrder (getSelfRef)

export Weighted (weight)

namespace Backlog

structure BacklogOrder (TOrd : Type) where
  order : TOrd
  timestamp : ℤ
  deriving DecidableEq, Repr

structure PendingOrder (TOrd : Type) where
  order : TOrd
  timestamp : ℤ
  deriving DecidableEq, Repr

structure ProgressingOrder (TOrd : Type) where
  order : TOrd
  timestamp : ℤ
  deriving DecidableEq, Repr

structure WeightedOrder (TOrderId : Type) where
  orderId : TOrderId
  timestamp : ℤ
  deriving DecidableEq, Repr

structure BacklogConfig where
  orderLifespan : ℤ
  orderExecTime : ℤ
  retrySuspendedProb : Fin 101
  deriving DecidableEq, Repr

variable {TOrd TOrderId : Type} [OnChainOrder TOrd TOrderId]

/-- The key an order is stored under. -/
def BacklogOrder.selfRef (ord : BacklogOrder TOrd) : TOrderId := getSelfRef ord.order

/-- `WeightedOrder::from(BacklogOrder)`. -/
def BacklogOrder.toWeighted (ord : BacklogOrder TOrd) : WeightedOrder TOrderId :=
  ⟨getSelfRef ord.order, ord.timestamp⟩

/-- `WeightedOrder::from(PendingOrder)`. -/
def PendingOrder.toWeighted (ord : PendingOrder TOrd) : WeightedOrder TOrderId :=
  ⟨getSelfRef ord.order, ord.timestamp⟩

/-- `WeightedOrder::from(ProgressingOrder)`. -/
def ProgressingOrder.toWeighted (ord : ProgressingOrder TOrd) : WeightedOrder TOrderId :=
  ⟨getSelfRef ord.order, ord.timestamp⟩

/-- `BacklogStore`, a map by order id. -/
abbrev BacklogStore (TOrd : Type) {TOrderId : Type} [OnChainOrder TOrd TOrderId] :=
  Table (BacklogOrder.selfRef : BacklogOrder TOrd → TOrderId)

structure BacklogService (TOrd : Type) {TOrderId : Type} [OnChainOrder TOrd TOrderId] where
  store : BacklogStore TOrd
  conf : BacklogConfig
  /-- Pending orders ordered by weight. -/
  pendingPq : PriorityQueue (WeightedOrder TOrderId)
  /-- Failed orders waiting for retry. -/
  suspendedPq : PriorityQueue (WeightedOrder TOrderId)
  /-- Successfully submitted orders. Left orders should be re-executed in some time. -/
  revisitQueue : List (WeightedOrder TOrderId)

variable [Weighted TOrd] [DecidableEq TOrderId]

namespace BacklogService

/-- `BacklogService::new`. -/
def new (store : BacklogStore TOrd) (conf : BacklogConfig) : BacklogService TOrd where
  store := store
  conf := conf
  pendingPq := store.entries.foldl (fun pq ord => pq.push ord.toWeighted (weight ord.order)) .empty
  suspendedPq := .empty
  revisitQueue := []

/-- Take the entry of the order that is found first out of a queue; `pick` says which one. -/
def removeFound (pq : PriorityQueue (WeightedOrder TOrderId)) (orderId : TOrderId) (pick : ℕ) :
    PriorityQueue (WeightedOrder TOrderId) :=
  match choose pick (pq.keys.filter fun wo => wo.orderId = orderId) with
  | some element => pq.remove element
  | none => pq

/-- Put `ord` into the store unless it is there, and into `pending_pq` unless it is there,
taking it out of the other queues. -/
def put (s : BacklogService TOrd) (ord : PendingOrder TOrd) (pick : ℕ) : BacklogService TOrd :=
  let orderId := getSelfRef ord.order
  let store :=
    if (s.store.get orderId).isSome then s.store else s.store.put ⟨ord.order, ord.timestamp⟩
  let revisitQueue := s.revisitQueue.eraseP fun wo => wo.orderId = orderId
  let suspendedPq := removeFound s.suspendedPq orderId pick
  let pendingPq :=
    if s.pendingPq.keys.any fun wo => wo.orderId = orderId then s.pendingPq
    else s.pendingPq.push ord.toWeighted (weight ord.order)
  { s with store, pendingPq, suspendedPq, revisitQueue }

def suspend (s : BacklogService TOrd) (ord : TOrd) : BacklogService TOrd × Bool :=
  match s.store.get (getSelfRef ord) with
  | some backlogOrd =>
      let wo := ⟨getSelfRef ord, backlogOrd.timestamp⟩
      ({ s with suspendedPq := s.suspendedPq.push wo (weight ord) }, true)
  | none => (s, false)

def checkLater (s : BacklogService TOrd) (ord : ProgressingOrder TOrd) :
    BacklogService TOrd × Bool :=
  match s.store.get (getSelfRef ord.order) with
  | some _ => ({ s with revisitQueue := s.revisitQueue ++ [ord.toWeighted] }, true)
  | none => (s, false)

def recharge (s : BacklogService TOrd) (ord : TOrd) : BacklogService TOrd :=
  match s.store.get (getSelfRef ord) with
  | some backlogOrd =>
      let wo := ⟨getSelfRef ord, backlogOrd.timestamp⟩
      { s with pendingPq := s.pendingPq.push wo (weight ord) }
  | none => s

def remove (s : BacklogService TOrd) (orderId : TOrderId) : BacklogService TOrd :=
  { s with store := s.store.remove orderId }

/-- The readings of the clock, from the next one on. -/
abbrev Clock := ℕ → ℤ

/-- The clock after a reading. -/
def Clock.next (clock : Clock) : Clock := fun i => clock (i + 1)

/-- The loop of `revisit_progressing_orders`, with what is left of the queue as the last
argument. -/
def revisitFrom (clock : Clock) (s : BacklogService TOrd) :
    List (WeightedOrder TOrderId) → BacklogService TOrd × Clock
  | [] => ({ s with revisitQueue := [] }, clock)
  | ord :: rest =>
      let elapsedSecs := clock 0 - ord.timestamp
      if elapsedSecs > s.conf.orderExecTime then
        if elapsedSecs ≤ s.conf.orderLifespan then
          match s.store.get ord.orderId with
          | some bo =>
              let pendingPq := s.pendingPq.push bo.toWeighted (weight bo.order)
              revisitFrom clock.next { s with pendingPq } rest
          | none => revisitFrom clock.next s rest
        else
          revisitFrom clock.next { s with store := s.store.remove ord.orderId } rest
      else
        -- Too soon to consider `ord`, return it to queue.
        ({ s with revisitQueue := ord :: rest }, clock.next)

def revisitProgressingOrders (s : BacklogService TOrd) (clock : Clock) :
    BacklogService TOrd × Clock := revisitFrom clock s s.revisitQueue

/-- The loop of `try_pop_max_order`; `ties` picks among equal weights.  A round takes an
entry from the queue, so that as many rounds as it has entries are enough. -/
def popMaxFrom (conf : BacklogConfig) (ties : ℕ → ℕ) (clock : Clock) (store : BacklogStore TOrd)
    (pq : PriorityQueue (WeightedOrder TOrderId)) :
    ℕ → Option TOrd × BacklogStore TOrd × PriorityQueue (WeightedOrder TOrderId)
  | 0 => (none, store, pq)
  | rounds + 1 =>
      match pq.pop (ties rounds) with
      | none => (none, store, pq)
      | some (ord, pq) =>
          let elapsedSecs := clock 0 - ord.timestamp
          if elapsedSecs > conf.orderLifespan then
            popMaxFrom conf ties clock.next (store.remove ord.orderId) pq rounds
          else
            match store.get ord.orderId with
            | some bo => (some bo.order, store, pq)
            | none => popMaxFrom conf ties clock.next store pq rounds

def tryPopMaxOrder (conf : BacklogConfig) (ties : ℕ → ℕ) (clock : Clock)
    (store : BacklogStore TOrd) (pq : PriorityQueue (WeightedOrder TOrderId)) :
    Option TOrd × BacklogStore TOrd × PriorityQueue (WeightedOrder TOrderId) :=
  popMaxFrom conf ties clock store pq pq.entries.length

/-- What `try_pop` reads: the clock, the draw from `0..=99`, and the ties of the queue. -/
structure PopEnv where
  clock : Clock
  rng : Fin 100
  ties : ℕ → ℕ

def tryPop (s : BacklogService TOrd) (env : PopEnv) : BacklogService TOrd × Option TOrd :=
  let (s, clock) := s.revisitProgressingOrders env.clock
  if env.rng.val ≥ s.conf.retrySuspendedProb.val then
    let (res, store, pendingPq) := tryPopMaxOrder s.conf env.ties clock s.store s.pendingPq
    ({ s with store, pendingPq }, res)
  else
    let (res, store, suspendedPq) := tryPopMaxOrder s.conf env.ties clock s.store s.suspendedPq
    ({ s with store, suspendedPq }, res)

end BacklogService

/-! ## Runs -/

/-- A call of the backlog, by the order stream, the scheduler or the executor. -/
inductive BacklogCall (TOrd TOrderId : Type) where
  | put (ord : PendingOrder TOrd) (pick : ℕ)
  | suspend (ord : TOrd)
  | checkLater (ord : ProgressingOrder TOrd)
  | recharge (ord : TOrd)
  | remove (orderId : TOrderId)
  | tryPop (env : BacklogService.PopEnv)

namespace BacklogCall

/-- The state after the call, and the order it hands out. -/
def exec (s : BacklogService TOrd) : BacklogCall TOrd TOrderId → BacklogService TOrd × Option TOrd
  | put ord pick => (s.put ord pick, none)
  | suspend ord => ((s.suspend ord).1, none)
  | checkLater ord => ((s.checkLater ord).1, none)
  | recharge ord => (s.recharge ord, none)
  | remove orderId => (s.remove orderId, none)
  | tryPop env => s.tryPop env

end BacklogCall

end Backlog

end SpectrumOffchain
