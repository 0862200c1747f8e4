import SpectrumOffchain.EventSink.Events
import SpectrumOffchain.Executor.TryExecute
import Mathlib.Data.List.ReduceOption

/-!
# The intake of orders

`OrderUpdatesHandler` watches the ledger for orders.  Of an applied transaction it
eliminates those inputs that are in the backlog, and announces the orders among the
outputs; of a transaction that is undone it eliminates the orders among the outputs.  The
updates go through a channel to `convert_order_proto`, which looks up the bundle of a
redeem, and from there to `backlog_stream`, which writes them to the backlog.

The parser of redeems asserts the miner fee proposition, so that handling a transaction
crashes on a box that looks like a redeem but for that.
-/

namespace SpectrumOffchain

open Backlog Resolver

/-- This type exists to wrap over `RedeemProto`. -/
inductive OrderProto where
  | deposit (order : AsBox Deposit)
  | redeem (order : AsBox RedeemProto)
  | compound (order : Compound)
  deriving DecidableEq, Repr

inductive OrderUpdate (TOrd TOrderId : Type) where
  | newOrder (pendingOrder : PendingOrder TOrd)
  | orderEliminated (orderId : TOrderId)
  deriving DecidableEq, Repr

namespace OrderProto

/-- `order.get::<OrderId>()`. -/
def orderId [Blake2b] : OrderProto → OrderId
  | deposit order => order.value.orderId
  | redeem order => order.value.orderId
  | compound order => order.orderId

def tryFromBox [ErgoLib] (bx : ErgoBox) : Outcome Unit (Option OrderProto) :=
  match Deposit.tryFromBox bx with
  | some d => pure (some (.deposit ⟨bx, d⟩))
  | none => do
      let found ← RedeemProto.tryFromBox bx
      pure (found.map fun r => .redeem ⟨bx, r⟩)

variable [ErgoLib]

theorem orderId_of_deposit {bx : ErgoBox} {d : Deposit} (h : Deposit.tryFromBox bx = some d) :
    d.orderId = ⟨bx.boxId⟩ := (Deposit.of_tryFromBox h).1

theorem orderId_of_redeem {bx : ErgoBox} {r : RedeemProto}
    (h : (RedeemProto.tryFromBox bx : Outcome Unit _) = .ok (some r)) : r.orderId = ⟨bx.boxId⟩ := by
  unfold RedeemProto.tryFromBox at h
  split at h
  case h_2 => cases h
  case h_1 =>
    split at h
    case h_2 => cases h
    case h_1 =>
      split at h
      case isFalse => cases h
      case isTrue =>
        dsimp only at h
        split at h
        case h_2 => cases h
        case h_1 =>
          split at h
          case isTrue => cases h
          case isFalse =>
            simp only [Outcome.pure_eq, Outcome.ok.injEq, Option.bind_eq_bind,
              Option.bind_eq_some_iff] at h
            obtain ⟨_, -, _, -, h⟩ := h
            cases h
            rfl

/-- An order on the ledger is known by the id of its box. -/
theorem orderId_of_tryFromBox [Blake2b] {bx : ErgoBox} {proto : OrderProto}
    (h : tryFromBox bx = .ok (some proto)) : proto.orderId = ⟨bx.boxId⟩ := by
  unfold tryFromBox at h
  split at h
  case h_1 d hd =>
    cases h
    exact orderId_of_deposit hd
  case h_2 =>
    obtain ⟨found, hfound, h⟩ := Outcome.bind_eq_ok.mp h
    obtain ⟨r, rfl, rfl⟩ := Option.map_eq_some_iff.mp (Outcome.ok.inj h)
    exact orderId_of_redeem hfound

theorem unfailing_redeem (bx : ErgoBox) :
    Outcome.Unfailing (RedeemProto.tryFromBox bx : Outcome Unit _) := by
  intro e
  unfold RedeemProto.tryFromBox
  split
  case h_2 => simp
  case h_1 =>
    split
    case h_2 => simp
    case h_1 =>
      dsimp only
      split
      case isFalse => simp
      case isTrue =>
        split
        case h_2 => simp
        case h_1 => split <;> simp

theorem unfailing_tryFromBox (bx : ErgoBox) : Outcome.Unfailing (tryFromBox bx) := by
  unfold tryFromBox
  split
  case h_1 => exact Outcome.unfailing_pure _
  case h_2 => exact Outcome.unfailing_bind (unfailing_redeem bx) fun _ => Outcome.unfailing_pure _

end OrderProto

/-! ## The handler -/

section Handler

variable [ErgoLib]

/-- What the handler feeds for an input: the order is eliminated if the backlog has it. -/
def lookupOrder (stored : OrderId → Bool) (input : BoxId) :
    List (OrderUpdate OrderProto OrderId) :=
  if stored ⟨input⟩ then [.orderEliminated ⟨input⟩] else []

/-- The orders among the outputs of a transaction. -/
def parseOrders (outputs : List ErgoBox) : Outcome Unit (List OrderProto) := do
  let found ← outputs.mapM OrderProto.tryFromBox
  pure found.reduceOption

theorem mem_of_parseOrders {outputs : List ErgoBox} {orders : List OrderProto}
    (h : parseOrders outputs = .ok orders) {order : OrderProto} :
    order ∈ orders ↔ ∃ bx ∈ outputs, OrderProto.tryFromBox bx = .ok (some order) := by
  obtain ⟨found, hfound, h⟩ := Outcome.bind_eq_ok.mp h
  cases h
  obtain ⟨hresults, hitems⟩ := Outcome.mem_of_mapM_eq_ok hfound
  rw [List.reduceOption_mem_iff]
  constructor
  · intro hmem
    exact hresults (some order) hmem
  · rintro ⟨bx, hbx, horder⟩
    obtain ⟨res, hres, heq⟩ := hitems bx hbx
    rw [← Outcome.ok.inj (heq.symm.trans horder)]
    exact hres

/-- Parsing a list of boxes fails only by a crash. -/
theorem exists_parseOrders {outputs : List ErgoBox} :
    (∃ orders, parseOrders outputs = .ok orders) ↔
      ∀ bx ∈ outputs, OrderProto.tryFromBox bx ≠ .crash := by
  constructor
  · rintro ⟨orders, h⟩ bx hbx
    obtain ⟨found, hfound, -⟩ := Outcome.bind_eq_ok.mp h
    obtain ⟨res, -, heq⟩ := (Outcome.mem_of_mapM_eq_ok hfound).2 bx hbx
    rw [heq]
    simp
  · intro h
    obtain ⟨found, hfound⟩ := Outcome.exists_mapM_eq_ok fun bx hbx =>
      (OrderProto.unfailing_tryFromBox bx).ne_crash_iff.mp (h bx hbx)
    exact ⟨found.reduceOption, Outcome.bind_eq_ok.mpr ⟨found, hfound, rfl⟩⟩

/-- What the handler feeds for the outputs of an applied transaction.  The first reading of the
clock says whether the transaction is too old, and every order gets the next one as timestamp. -/
def observeOrders (orderLifespanMillis : ℤ) (clock : BacklogService.Clock) (timestamp : I64)
    (outputs : List ErgoBox) : Outcome Unit (List (OrderUpdate OrderProto OrderId)) :=
  if clock 0 - timestamp.toInt ≤ orderLifespanMillis then do
    let orders ← parseOrders outputs
    pure (orders.mapIdx fun i order => .newOrder ⟨order, clock (i + 1)⟩)
  else pure []

/-- `OrderUpdatesHandler::try_handle`, up to what it returns: the updates it feeds into its
topic. -/
def handleOrderEvent [Blake2b] (stored : OrderId → Bool) (orderLifespanMillis : ℤ)
    (clock : BacklogService.Clock) :
    LedgerTxEvent LedgerTx → Outcome Unit (List (OrderUpdate OrderProto OrderId))
  | .appliedTx tx timestamp => do
      let eliminated := tx.inputs.flatMap (lookupOrder stored)
      let created ← observeOrders orderLifespanMillis clock timestamp tx.outputs
      pure (eliminated ++ created)
  | .unappliedTx tx => do
      let orders ← parseOrders tx.outputs
      pure (orders.map fun order => .orderEliminated order.orderId)

end Handler

/-! ## The streams -/

/-- An item of `convert_order_proto`.  A redeem whose bundle is not in the repository is dropped. -/
def convertOrderProto (bundleRepo : BundleRepo) :
    OrderUpdate OrderProto OrderId → Option (OrderUpdate Order OrderId)
  | .newOrder pendingOrder =>
      match pendingOrder.order with
      | .deposit d => some (.newOrder ⟨.deposit d, pendingOrder.timestamp⟩)
      | .redeem r =>
          match bundleRepo.getLastConfirmed ⟨r.value.bundleKey.tokenId⟩ with
          | some bundle =>
              some (.newOrder ⟨.redeem ⟨r.bx, r.value.finalize bundle.value.poolId⟩,
                pendingOrder.timestamp⟩)
          | none => none
      | .compound c => some (.newOrder ⟨.compound c, pendingOrder.timestamp⟩)
  | .orderEliminated orderId => some (.orderEliminated orderId)

theorem convertOrderProto_eq_none {bundleRepo : BundleRepo}
    {upd : OrderUpdate OrderProto OrderId} :
    convertOrderProto bundleRepo upd = none ↔ ∃ r timestamp,
      upd = .newOrder ⟨.redeem r, timestamp⟩ ∧
        bundleRepo.getLastConfirmed ⟨r.value.bundleKey.tokenId⟩ = none := by
  match upd with
  | .newOrder ⟨.deposit d, timestamp⟩ => simp [convertOrderProto]
  | .newOrder ⟨.compound c, timestamp⟩ => simp [convertOrderProto]
  | .orderEliminated orderId => simp [convertOrderProto]
  | .newOrder ⟨.redeem r, timestamp⟩ =>
      cases hbundle : bundleRepo.getLastConfirmed ⟨r.value.bundleKey.tokenId⟩ <;>
        simp [convertOrderProto, hbundle]

variable [Blake2b]

/-- An order keeps its id when it is converted. -/
theorem convertOrderProto_newOrder {bundleRepo : BundleRepo}
    {pendingOrder : PendingOrder OrderProto} {upd : OrderUpdate Order OrderId}
    (h : convertOrderProto bundleRepo (.newOrder pendingOrder) = some upd) :
    ∃ order, upd = .newOrder ⟨order, pendingOrder.timestamp⟩ ∧
      getSelfRef order = pendingOrder.order.orderId := by
  obtain ⟨order, timestamp⟩ := pendingOrder
  cases order with
  | deposit d =>
      cases h
      exact ⟨.deposit d, rfl, rfl⟩
  | compound c =>
      cases h
      exact ⟨.compound c, rfl, rfl⟩
  | redeem r =>
      unfold convertOrderProto at h
      dsimp only at h
      split at h
      case h_1 bundle _ =>
        cases h
        exact ⟨.redeem ⟨r.bx, r.value.finalize bundle.value.poolId⟩, rfl, rfl⟩
      case h_2 => cases h

/-- An item of `backlog_stream`. -/
def backlogStep (backlog : BacklogService Order) (pick : ℕ) :
    OrderUpdate Order OrderId → BacklogService Order
  | .newOrder pendingOrder => backlog.put pendingOrder pick
  | .orderEliminated orderId => backlog.remove orderId

/-- The ids of the orders in the store. -/
def storedOrders (backlog : BacklogService Order) : Set OrderId := {id | id ∈ backlog.store.keys}

theorem mem_storedOrders {backlog : BacklogService Order} {id : OrderId} :
    id ∈ storedOrders backlog ↔ (backlog.store.get id).isSome := Table.isSome_get.symm

theorem storedOrders_put (backlog : BacklogService Order) (ord : PendingOrder Order) (pick : ℕ) :
    storedOrders (backlog.put ord pick) = insert (getSelfRef ord.order) (storedOrders backlog) := by
  ext id
  rw [Set.mem_insert_iff]
  show id ∈ (backlog.put ord pick).store.keys ↔ _ ∨ id ∈ backlog.store.keys
  unfold BacklogService.put
  dsimp only
  split
  case isTrue hstored =>
    refine ⟨.inr, ?_⟩
    rintro (rfl | h)
    · exact Table.isSome_get.mp hstored
    · exact h
  case isFalse => exact Table.mem_keys_put

theorem storedOrders_remove (backlog : BacklogService Order) (orderId : OrderId) :
    storedOrders (backlog.remove orderId) = storedOrders backlog \ {orderId} := by
  ext id
  exact Table.mem_keys_remove

end SpectrumOffchain
