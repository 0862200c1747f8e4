import SpectrumOffchain.Backlog.Queues
import SpectrumOffchain.EventSink.Funding
import SpectrumOffchain.EventSink.Orders
import SpectrumOffchain.Execution.Prediction

/-!
# Rolling back a transaction

When a transaction is undone, the orders and funding boxes it created are eliminated
again.  Those it spent are unspent from then on, but neither handler brings them back: the
branches for `UnappliedTx` look only at the outputs.  So the stores hold after an
application and a rollback what they held before, less what the transaction spent
(`mem_rolledBack`), and they are restored exactly if it spent nothing that was stored
(`restored_iff`).

## Strategy

The two stores do not depend on each other, so each direction is proved for either of them:
`storedOrders_applied` and `storedFunding_applied` say what a transaction leaves behind,
`storedOrders_unapplied` and `storedFunding_unapplied` what its rollback does.  An order
that is announced may be too old to be stored, so the first of them gives only bounds, and
these are enough, since whatever was added is eliminated again.

The outputs of the transaction are taken to be new to both stores (`Stores.Before`), as they
are when a transaction is applied for the first time.
-/

namespace SpectrumOffchain.EventSink

open Backlog Resolver Funding

/-- What a step of `backlog_stream` reads besides the update: the repository of bundles, and which
of several entries of a queue is taken. -/
structure DrainEnv where
  bundleRepo : BundleRepo
  pick : ℕ

section Stores

variable [Blake2b]

/-- The two stores. -/
structure Stores where
  backlog : BacklogService Order
  funding : FundingRepo

/-- What the handling of an event reads. -/
structure HandlerEnv where
  orderLifespanMillis : ℤ
  clock : BacklogService.Clock
  drain : ℕ → DrainEnv

/-- An update on its way through `convert_order_proto` and `backlog_stream`. -/
def intakeStep (env : DrainEnv) (backlog : BacklogService Order)
    (upd : OrderUpdate OrderProto OrderId) : BacklogService Order :=
  match convertOrderProto env.bundleRepo upd with
  | some upd => backlogStep backlog env.pick upd
  | none => backlog

/-- The updates in the channel go through the streams one by one. -/
def drainOrders (env : ℕ → DrainEnv) :
    List (OrderUpdate OrderProto OrderId) → BacklogService Order → BacklogService Order
  | [], backlog => backlog
  | upd :: rest, backlog =>
      drainOrders (fun i => env (i + 1)) rest (intakeStep (env 0) backlog upd)

/-- An event is handled by both handlers, and then the channels are drained. -/
def Stores.handle [ErgoLib] (filter : FundingFilter) (wallet : ExecutorWallet) (s : Stores)
    (env : HandlerEnv) (ev : LedgerTxEvent LedgerTx) : Outcome Unit Stores := do
  let updates ← handleOrderEvent (fun id => (s.backlog.store.get id).isSome)
    env.orderLifespanMillis env.clock ev
  pure
    { backlog := drainOrders env.drain updates s.backlog
      funding := (handleFundingEvent (filter.mayExist s.funding) wallet ev).foldl fundingStep
        s.funding }

/-! ## What draining leaves in the backlog -/

section Drain

variable {env : ℕ → DrainEnv} {backlog : BacklogService Order} {id : OrderId}

/-- An order that is announced is stored afterwards, unless it was dropped; the others stay. -/
theorem storedOrders_newOrder (env : DrainEnv) (pendingOrder : PendingOrder OrderProto) :
    (id ∈ storedOrders backlog →
      id ∈ storedOrders (intakeStep env backlog (.newOrder pendingOrder))) ∧
    (id ∈ storedOrders (intakeStep env backlog (.newOrder pendingOrder)) →
      id ∈ storedOrders backlog ∨ id = pendingOrder.order.orderId) := by
  unfold intakeStep
  cases hconvert : convertOrderProto env.bundleRepo (.newOrder pendingOrder) with
  | none => exact ⟨fun h => h, .inl⟩
  | some upd =>
      obtain ⟨order, rfl, horder⟩ := convertOrderProto_newOrder hconvert
      show (_ → id ∈ storedOrders (backlog.put _ env.pick)) ∧
        (id ∈ storedOrders (backlog.put _ env.pick) → _)
      rw [storedOrders_put, Set.mem_insert_iff, horder]
      exact ⟨.inr, .symm⟩

theorem storedOrders_eliminated (ids : List OrderId) :
    id ∈ storedOrders (drainOrders env (ids.map .orderEliminated) backlog) ↔
      id ∈ storedOrders backlog ∧ id ∉ ids := by
  induction ids generalizing env backlog with
  | nil => simp [drainOrders]
  | cons orderId ids ih =>
      rw [List.map_cons, drainOrders, ih, List.mem_cons, not_or, ← and_assoc]
      have hstep : storedOrders (intakeStep (env 0) backlog (.orderEliminated orderId)) =
          storedOrders backlog \ {orderId} := storedOrders_remove backlog orderId
      rw [hstep]
      rfl

/-- Of a list of announced orders some are stored afterwards; the others stay. -/
theorem storedOrders_announced (orders : List (PendingOrder OrderProto)) :
    (id ∈ storedOrders backlog →
      id ∈ storedOrders (drainOrders env (orders.map .newOrder) backlog)) ∧
    (id ∈ storedOrders (drainOrders env (orders.map .newOrder) backlog) →
      id ∈ storedOrders backlog ∨ ∃ order ∈ orders, id = order.order.orderId) := by
  induction orders generalizing env backlog with
  | nil => exact ⟨fun h => h, .inl⟩
  | cons order orders ih =>
      obtain ⟨hkeep, hnew⟩ := storedOrders_newOrder (env 0) order
      refine ⟨fun h => ih.1 (hkeep h), fun h => ?_⟩
      rcases ih.2 h with h | ⟨other, hother, heq⟩
      · rcases hnew h with h | heq
        · exact .inl h
        · exact .inr ⟨order, List.mem_cons_self, heq⟩
      · exact .inr ⟨other, List.mem_cons_of_mem order hother, heq⟩

theorem drainOrders_append (upds upds' : List (OrderUpdate OrderProto OrderId)) :
    drainOrders env (upds ++ upds') backlog =
      drainOrders (fun i => env (upds.length + i)) upds' (drainOrders env upds backlog) := by
  induction upds generalizing env backlog with
  | nil => simp [drainOrders]
  | cons upd upds ih =>
      rw [List.cons_append, drainOrders, ih, drainOrders]
      simp only [List.length_cons, Nat.add_assoc, Nat.add_comm 1]

end Drain

/-! ## Applying a transaction and undoing it -/

/-- The stores before a transaction, whose outputs are not known yet. -/
structure Stores.Before (s : Stores) (tx : LedgerTx) : Prop where
  sound : s.funding.Sound FundingRecord.id
  orders_fresh : ∀ bx ∈ tx.outputs, ⟨bx.boxId⟩ ∉ storedOrders s.backlog
  funding_fresh : ∀ bx ∈ tx.outputs, ⟨bx.boxId⟩ ∉ storedFunding s.funding

section Handle

variable [ErgoLib] {filter : FundingFilter} {wallet : ExecutorWallet} {s s' : Stores}
  {env : HandlerEnv} {tx : LedgerTx} {timestamp : I64}

omit [ErgoLib] [Blake2b] in
theorem flatMap_lookupOrder (stored : OrderId → Bool) (inputs : List BoxId) :
    inputs.flatMap (lookupOrder stored) =
      (((inputs.map OrderId.mk).filter stored).map .orderEliminated) := by
  induction inputs with
  | nil => rfl
  | cons input inputs ih =>
      rw [List.flatMap_cons, ih, List.map_cons, List.filter_cons, lookupOrder]
      split <;> rfl

/-- The orders that were announced are orders among the outputs. -/
theorem observeOrders_eq_ok {orderLifespanMillis : ℤ} {clock : BacklogService.Clock}
    {outputs : List ErgoBox} {upds : List (OrderUpdate OrderProto OrderId)}
    (h : observeOrders orderLifespanMillis clock timestamp outputs = .ok upds) :
    ∃ orders : List (PendingOrder OrderProto), upds = orders.map .newOrder ∧
      ∀ order ∈ orders, ∃ bx ∈ outputs, order.order.orderId = ⟨bx.boxId⟩ ∧
        OrderProto.tryFromBox bx = .ok (some order.order) := by
  unfold observeOrders at h
  split at h
  case isFalse =>
    cases h
    exact ⟨[], rfl, fun order horder => absurd horder List.not_mem_nil⟩
  case isTrue =>
    obtain ⟨orders, horders, h⟩ := Outcome.bind_eq_ok.mp h
    cases h
    refine ⟨orders.mapIdx fun i order => ⟨order, clock (i + 1)⟩, ?_, ?_⟩
    · refine List.ext_getElem? fun i => ?_
      simp only [List.getElem?_map, List.getElem?_mapIdx, Option.map_map]
      rfl
    · intro order horder
      obtain ⟨i, hi, rfl⟩ := List.mem_mapIdx.mp horder
      obtain ⟨bx, hbx, hparse⟩ := (mem_of_parseOrders horders).mp (List.getElem_mem hi)
      exact ⟨bx, hbx, OrderProto.orderId_of_tryFromBox hparse, hparse⟩

/-- The orders that a transaction spends leave the backlog, and only its outputs come in. -/
theorem storedOrders_applied (h : s.handle filter wallet env (.appliedTx tx timestamp) = .ok s')
    {id : OrderId} :
    (id ∈ storedOrders s.backlog ∧ id ∉ tx.inputs.map OrderId.mk →
      id ∈ storedOrders s'.backlog) ∧
    (id ∈ storedOrders s'.backlog →
      (id ∈ storedOrders s.backlog ∧ id ∉ tx.inputs.map OrderId.mk) ∨
        ∃ bx ∈ tx.outputs, id = ⟨bx.boxId⟩ ∧
          ∃ order, OrderProto.tryFromBox bx = .ok (some order)) := by
  obtain ⟨upds, hupds, h⟩ := Outcome.bind_eq_ok.mp h
  obtain ⟨created, hcreated, heq⟩ := Outcome.bind_eq_ok.mp hupds
  cases heq
  cases h
  obtain ⟨orders, rfl, horders⟩ := observeOrders_eq_ok hcreated
  have hspent : ∀ id, id ∈ (tx.inputs.map OrderId.mk).filter
      (fun id => (s.backlog.store.get id).isSome) ↔
        id ∈ tx.inputs.map OrderId.mk ∧ id ∈ storedOrders s.backlog := by
    intro id
    rw [List.mem_filter, mem_storedOrders]
  dsimp only
  rw [flatMap_lookupOrder, drainOrders_append]
  constructor
  · rintro ⟨hid, hinput⟩
    refine (storedOrders_announced orders).1 (storedOrders_eliminated _ |>.mpr ⟨hid, ?_⟩)
    rw [hspent]
    exact fun h => hinput h.1
  · intro hid
    rcases (storedOrders_announced orders).2 hid with hid | ⟨order, horder, rfl⟩
    · obtain ⟨hid, hinput⟩ := (storedOrders_eliminated _).mp hid
      rw [hspent] at hinput
      exact .inl ⟨hid, fun h => hinput ⟨h, hid⟩⟩
    · obtain ⟨bx, hbx, heq, hparse⟩ := horders order horder
      exact .inr ⟨bx, hbx, heq, order.order, hparse⟩

theorem storedOrders_unapplied (h : s.handle filter wallet env (.unappliedTx tx) = .ok s')
    {id : OrderId} :
    (id ∈ storedOrders s'.backlog → id ∈ storedOrders s.backlog) ∧
      (id ∈ storedOrders s.backlog → id ∈ storedOrders s'.backlog ∨
        ∃ bx ∈ tx.outputs, id = ⟨bx.boxId⟩) ∧
      ∀ bx ∈ tx.outputs, id = ⟨bx.boxId⟩ → (∃ order, OrderProto.tryFromBox bx = .ok (some order)) →
        id ∉ storedOrders s'.backlog := by
  obtain ⟨upds, hupds, h⟩ := Outcome.bind_eq_ok.mp h
  obtain ⟨orders, horders, heq⟩ := Outcome.bind_eq_ok.mp hupds
  cases heq
  cases h
  have hmap : orders.map (fun order => (.orderEliminated order.orderId :
      OrderUpdate OrderProto OrderId)) = (orders.map OrderProto.orderId).map .orderEliminated := by
    rw [List.map_map]
    rfl
  dsimp only
  rw [hmap, storedOrders_eliminated]
  refine ⟨And.left, ?_, ?_⟩
  · intro hid
    by_cases hmem : id ∈ orders.map OrderProto.orderId
    · obtain ⟨order, horder, rfl⟩ := List.mem_map.mp hmem
      obtain ⟨bx, hbx, hparse⟩ := (mem_of_parseOrders horders).mp horder
      exact .inr ⟨bx, hbx, OrderProto.orderId_of_tryFromBox hparse⟩
    · exact .inl ⟨hid, hmem⟩
  · rintro bx hbx rfl ⟨order, horder⟩ ⟨-, hnot⟩
    refine hnot (List.mem_map.mpr ⟨order, (mem_of_parseOrders horders).mpr ⟨bx, hbx, horder⟩, ?_⟩)
    exact OrderProto.orderId_of_tryFromBox horder

/-- The funding boxes that a transaction spends leave the repository, and its outputs to the wallet
come in. -/
theorem storedFunding_applied (hbefore : s.Before tx)
    (h : s.handle filter wallet env (.appliedTx tx timestamp) = .ok s') :
    s'.funding.Sound FundingRecord.id ∧ ∀ fid, fid ∈ storedFunding s'.funding ↔
      (fid ∈ storedFunding s.funding ∧ fid ∉ tx.inputs.map FundingId.mk) ∨
        ∃ funding ∈ walletBoxes wallet tx.outputs, funding.value.id = fid := by
  obtain ⟨upds, hupds, h⟩ := Outcome.bind_eq_ok.mp h
  cases h
  dsimp only
  rw [handleFundingEvent, List.foldl_append]
  have hspent : ∀ fid, fid ∈ storedFunding s.funding →
      (fid ∈ (tx.inputs.map FundingId.mk).filter (filter.mayExist s.funding) ↔
        fid ∈ tx.inputs.map FundingId.mk) := by
    intro fid hfid
    rw [List.mem_filter, and_iff_left]
    exact filter.mayExist_of_stored _ _ ((Indexed.mem_owners_iff hbefore.sound).mp hfid)
  have hsound := sound_eliminate hbefore.sound
    ((tx.inputs.map FundingId.mk).filter (filter.mayExist s.funding))
  refine ⟨sound_create hsound (nodup_walletBoxes wallet tx) ?_, fun fid => ?_⟩
  · intro funding hfunding hmem
    obtain ⟨hbx, hparse⟩ := mem_walletBoxes.mp hfunding
    have hid := DistributionFunding.id_of_tryFromBox hparse
    refine hbefore.funding_fresh funding.bx hbx ?_
    rw [← hid]
    exact ((mem_storedFunding_eliminate hbefore.sound _).mp hmem).1
  · rw [mem_storedFunding_create, mem_storedFunding_eliminate hbefore.sound]
    refine or_congr (and_congr_right fun hfid => ?_) Iff.rfl
    rw [hspent fid hfid]

theorem storedFunding_unapplied (hsound : s.funding.Sound FundingRecord.id)
    (h : s.handle filter wallet env (.unappliedTx tx) = .ok s') {fid : FundingId} :
    fid ∈ storedFunding s'.funding ↔ fid ∈ storedFunding s.funding ∧
      ¬ ∃ funding ∈ walletBoxes wallet tx.outputs, funding.value.id = fid := by
  obtain ⟨upds, hupds, h⟩ := Outcome.bind_eq_ok.mp h
  cases h
  have hmap : handleFundingEvent (filter.mayExist s.funding) wallet (.unappliedTx tx) =
      ((walletBoxes wallet tx.outputs).map fun funding => funding.value.id).map
        .fundingEliminated := by
    rw [List.map_map]
    rfl
  dsimp only
  rw [hmap, mem_storedFunding_eliminate hsound, List.mem_map]

/-- The stores after a transaction was applied and undone: what they held before, less what the
transaction spent. -/
theorem mem_rolledBack {mid : Stores} {env' : HandlerEnv} (hbefore : s.Before tx)
    (happly : s.handle filter wallet env (.appliedTx tx timestamp) = .ok mid)
    (hunapply : mid.handle filter wallet env' (.unappliedTx tx) = .ok s') :
    (∀ id, id ∈ storedOrders s'.backlog ↔
      id ∈ storedOrders s.backlog ∧ id ∉ tx.inputs.map OrderId.mk) ∧
    ∀ fid, fid ∈ storedFunding s'.funding ↔
      fid ∈ storedFunding s.funding ∧ fid ∉ tx.inputs.map FundingId.mk := by
  constructor
  · intro id
    obtain ⟨hkeep, hnew⟩ : (_ → id ∈ storedOrders mid.backlog) ∧ _ := storedOrders_applied happly
    obtain ⟨hsub, hrest, hgone⟩ : (id ∈ storedOrders s'.backlog → _) ∧ _ ∧ _ :=
      storedOrders_unapplied hunapply
    constructor
    · intro hid
      rcases hnew (hsub hid) with h | ⟨bx, hbx, heq, hparse⟩
      · exact h
      · exact absurd hid (hgone bx hbx heq hparse)
    · intro h
      rcases hrest (hkeep h) with hid | ⟨bx, hbx, rfl⟩
      · exact hid
      · exact absurd h.1 (hbefore.orders_fresh bx hbx)
  · intro fid
    obtain ⟨hsound, hmid⟩ := storedFunding_applied hbefore happly
    rw [storedFunding_unapplied hsound hunapply, hmid]
    constructor
    · rintro ⟨h | h, hnot⟩
      · exact h
      · exact absurd h hnot
    · intro h
      refine ⟨.inl h, ?_⟩
      rintro ⟨funding, hfunding, rfl⟩
      obtain ⟨hbx, hparse⟩ := mem_walletBoxes.mp hfunding
      refine hbefore.funding_fresh funding.bx hbx ?_
      rw [← DistributionFunding.id_of_tryFromBox hparse]
      exact h.1

/-- The stores are restored exactly if the parser of the orders does not crash on an output, and
the transaction spends none of the stored orders and funding boxes. -/
theorem restored_iff (hbefore : s.Before tx) (env' : HandlerEnv) :
    (∃ mid s', s.handle filter wallet env (.appliedTx tx timestamp) = .ok mid ∧
      mid.handle filter wallet env' (.unappliedTx tx) = .ok s' ∧
      storedOrders s'.backlog = storedOrders s.backlog ∧
      storedFunding s'.funding = storedFunding s.funding) ↔
    (∀ bx ∈ tx.outputs, OrderProto.tryFromBox bx ≠ .crash) ∧
      ∀ input ∈ tx.inputs, ⟨input⟩ ∉ storedOrders s.backlog ∧ ⟨input⟩ ∉ storedFunding s.funding := by
  constructor
  · rintro ⟨mid, s', happly, hunapply, horders, hfunding⟩
    obtain ⟨horders', hfunding'⟩ := mem_rolledBack hbefore happly hunapply
    refine ⟨?_, fun input hinput => ⟨fun hmem => ?_, fun hmem => ?_⟩⟩
    · obtain ⟨upds, hupds, -⟩ := Outcome.bind_eq_ok.mp hunapply
      obtain ⟨orders, hparse, -⟩ := Outcome.bind_eq_ok.mp hupds
      exact exists_parseOrders.mp ⟨orders, hparse⟩
    · rw [← horders, horders'] at hmem
      exact hmem.2 (List.mem_map_of_mem hinput)
    · rw [← hfunding, hfunding'] at hmem
      exact hmem.2 (List.mem_map_of_mem hinput)
  · rintro ⟨hparse, hinputs⟩
    obtain ⟨orders, horders⟩ := exists_parseOrders.mpr hparse
    -- Parsing is the only step of either handler that can crash.
    obtain ⟨mid, happly⟩ : ∃ mid,
        s.handle filter wallet env (.appliedTx tx timestamp) = .ok mid := by
      unfold Stores.handle handleOrderEvent observeOrders
      dsimp only
      split <;> simp [horders]
    obtain ⟨s', hunapply⟩ : ∃ s', mid.handle filter wallet env' (.unappliedTx tx) = .ok s' := by
      simp [Stores.handle, handleOrderEvent, horders]
    obtain ⟨horders', hfunding'⟩ := mem_rolledBack hbefore happly hunapply
    refine ⟨mid, s', happly, hunapply, ?_, ?_⟩
    · ext id
      rw [horders', and_iff_left_iff_imp]
      intro hmem hinput
      obtain ⟨input, hspent, rfl⟩ := List.mem_map.mp hinput
      exact (hinputs input hspent).1 hmem
    · ext fid
      rw [hfunding', and_iff_left_iff_imp]
      intro hmem hinput
      obtain ⟨input, hspent, rfl⟩ := List.mem_map.mp hinput
      exact (hinputs input hspent).2 hmem

end Handle

end Stores

/-! ## A deposit and a funding box that are spent -/

namespace Sample

open Staking.Sample SpectrumOffchain.Sample Blake2b.Sample

def lq : Token := token (digest 2) 13

def order : Order := .deposit ⟨depositBox lq, deposit lq⟩

/-- A backlog with the deposit, and the box of the wallet that was confirmed. -/
def stores : Stores where
  backlog := (BacklogService.new .empty Backlog.Sample.conf).put ⟨order, 0⟩ 0
  funding := FundingRepo.putConfirmed .empty Funding.Sample.residual

/-- A transaction that spends both. -/
def tx : LedgerTx := ⟨[(depositBox lq).boxId, Funding.Sample.boxId 31], [], List.nodup_nil⟩

/-- A filter without false positives. -/
def filter : FundingFilter := ⟨fun repo fid => (repo.index.get fid).isSome, fun _ _ h => h⟩

def wallet : ExecutorWallet := ⟨⟨[2]⟩⟩

def env : HandlerEnv := ⟨100, fun _ => 0, fun _ => ⟨.empty, 0⟩⟩

/-- The stores after the transaction. -/
def emptied : Stores where
  backlog := stores.backlog.remove ⟨(depositBox lq).boxId⟩
  funding := stores.funding.removeFunding ⟨Funding.Sample.boxId 31⟩

theorem handle_applied : stores.handle filter wallet env (.appliedTx tx 0) = .ok emptied := rfl

theorem handle_unapplied : emptied.handle filter wallet env (.unappliedTx tx) = .ok emptied := rfl

theorem before_tx : stores.Before tx where
  sound := by
    refine (Indexed.sound_write_iff (fun _ _ => FundingRecord.id_of_key)
      Indexed.sound_empty).mpr ?_
    intro k hk
    cases hk
  orders_fresh := fun bx hbx => absurd hbx List.not_mem_nil
  funding_fresh := fun bx hbx => absurd hbx List.not_mem_nil

theorem mem_storedOrders_stores : ⟨(depositBox lq).boxId⟩ ∈ storedOrders stores.backlog := by
  rw [stores, storedOrders_put]
  exact Set.mem_insert _ _

end Sample

open EventSink.Sample SpectrumOffchain.Sample Blake2b.Sample in
/-- A deposit and a funding box that were spent by a transaction stay gone when it is undone. -/
theorem spent_not_restored :
    stores.Before tx ∧ stores.handle filter wallet env (.appliedTx tx 0) = .ok emptied ∧
      emptied.handle filter wallet env (.unappliedTx tx) = .ok emptied ∧
      storedOrders emptied.backlog ≠ storedOrders stores.backlog ∧
      storedFunding emptied.funding ≠ storedFunding stores.funding := by
  refine ⟨before_tx, handle_applied, handle_unapplied, ?_, ?_⟩
  · intro heq
    have hmem := mem_storedOrders_stores
    rw [← heq, emptied, storedOrders_remove] at hmem
    exact hmem.2 rfl
  · intro heq
    have hmem : ⟨Funding.Sample.boxId 31⟩ ∈ storedFunding stores.funding :=
      mem_storedFunding_put.mpr (.inl rfl)
    rw [← heq] at hmem
    exact ((mem_storedFunding_remove before_tx.sound).mp hmem).2 rfl

open EventSink.Sample SpectrumOffchain.Sample Blake2b.Sample in
theorem restored_iff_sample :
    ¬ ∃ mid s', stores.handle filter wallet env (.appliedTx tx 0) = .ok mid ∧
      mid.handle filter wallet env (.unappliedTx tx) = .ok s' ∧
      storedOrders s'.backlog = storedOrders stores.backlog ∧
      storedFunding s'.funding = storedFunding stores.funding := by
  intro h
  obtain ⟨-, hinputs⟩ := (restored_iff before_tx env).mp h
  exact (hinputs _ List.mem_cons_self).1 mem_storedOrders_stores

end SpectrumOffchain.EventSink
