import SpectrumOffchain.EventSink.Bundles
import SpectrumOffchain.EventSink.Orders
import SpectrumOffchain.EventSink.Rollback

/-!
# Orders between the ledger and the backlog

Three tasks take part in the intake of orders.  The handler of the ledger looks up the
inputs of a transaction in the backlog, one after the other, announces the orders among
the outputs, and leaves the transaction to the handler of bundles.  The stream of orders
converts the updates in its channel, for which it looks up the bundles of redeems, and
writes them to the backlog.  The stream of bundles updates the repository of bundles.

An order is missed in two ways: it is looked up before its announcement has reached the
backlog, or its bundle is looked up before it has reached the repository.  If neither
happens to an order, then the backlog, once all is drained, has it exactly if it was
created and not spent (`stored_iff_of_run`).  Otherwise the backlog keeps an order that is
spent (`ghost_order`) or misses one that is not.

## Strategy

The argument is about one box `i` at a time, the box of an order.  What the handler has
done with it (nothing, announced it, announced it and looked up its spending) decides where
the order stands between the channel and the backlog: it is `Absent`, `Kept` or `Removed`.
This is the invariant, `Follows`.

* `Same`: a step that does not concern the order leaves everything that is asked about it
  as it was.  Most cases of the step lemma are of this kind.
* The two accesses that can go wrong are the lookup of an input and the conversion of an
  announcement; `Timely` excludes exactly that they come too early for this order.
* `follows_of_step` is the step lemma, with one lemma for each stage of the handler and
  each access of the streams (`Follows.lookup`, `Follows.observe`, `Follows.convert`,
  `Follows.store`).
* Once everything is drained nothing waits for the order any more
  (`Drained.not_awaits`), and what `Follows` says is then about the backlog alone.
-/

namespace SpectrumOffchain.EventSink

open Backlog Ledger Resolver Transition

/-- Where the handling of an event is: `next` is the input that is looked up next. -/
inductive Stage where
  | idle
  | lookups (tx : LedgerTx) (timestamp : I64) (next : ℕ)
  | bundles (tx : LedgerTx) (timestamp : I64)

section Intake

variable [Blake2b]

/-- The transactions that were shown to the handlers, the latest first, the stores, the channels,
and the update that is converted and not yet in the backlog. -/
structure IntakeSystem where
  chain : List LedgerTx
  stage : Stage
  backlog : BacklogService Order
  orders : List (OrderUpdate OrderProto OrderId)
  converted : Option (OrderUpdate Order OrderId)
  bundleRepo : BundleRepo
  bundleUpdates : List (StateUpdate (AsBox IndexedStakingBundle))

inductive IntakeLabel where
  | event (tx : LedgerTx) (timestamp : I64)
  | lookup
  | observe (clock : BacklogService.Clock)
  | bundles (env : BundleHandlerEnv)
  | convert
  | store (pick : ℕ)
  | drainBundle

namespace IntakeSystem

/-- The steps of the three tasks.  The transactions are recent. -/
inductive Step [ErgoLib] (base : List ErgoBox) (orderLifespanMillis : ℤ) :
    IntakeSystem → IntakeLabel → IntakeSystem → Prop where
  | event {s : IntakeSystem} {tx : LedgerTx} {timestamp : I64} (hidle : s.stage = .idle)
      (haccepts : Accepts base s.chain tx) :
      Step base orderLifespanMillis s (.event tx timestamp)
        { s with chain := tx :: s.chain, stage := .lookups tx timestamp 0 }
  | lookup {s : IntakeSystem} {tx : LedgerTx} {timestamp : I64} {next : ℕ} {input : BoxId}
      (hstage : s.stage = .lookups tx timestamp next) (hinput : tx.inputs[next]? = some input) :
      Step base orderLifespanMillis s .lookup
        { s with
          stage := .lookups tx timestamp (next + 1)
          orders := s.orders ++ lookupOrder (fun id => (s.backlog.store.get id).isSome) input }
  | observe {s : IntakeSystem} {tx : LedgerTx} {timestamp : I64} {next : ℕ}
      {clock : BacklogService.Clock} {upds : List (OrderUpdate OrderProto OrderId)}
      (hstage : s.stage = .lookups tx timestamp next) (hinput : tx.inputs[next]? = none)
      (hrecent : clock 0 - timestamp.toInt ≤ orderLifespanMillis)
      (hupds : observeOrders orderLifespanMillis clock timestamp tx.outputs = .ok upds) :
      Step base orderLifespanMillis s (.observe clock)
        { s with stage := .bundles tx timestamp, orders := s.orders ++ upds }
  | bundles {s : IntakeSystem} {tx : LedgerTx} {timestamp : I64} {env : BundleHandlerEnv}
      {upds : List (StateUpdate (AsBox IndexedStakingBundle))}
      (hstage : s.stage = .bundles tx timestamp)
      (hupds : handleBundleEvent env s.bundleRepo (.appliedTx tx timestamp) = .ok upds) :
      Step base orderLifespanMillis s (.bundles env)
        { s with stage := .idle, bundleUpdates := s.bundleUpdates ++ upds }
  | convert {s : IntakeSystem} {upd : OrderUpdate OrderProto OrderId}
      {rest : List (OrderUpdate OrderProto OrderId)} (hfree : s.converted = none)
      (horders : s.orders = upd :: rest) :
      Step base orderLifespanMillis s .convert
        { s with orders := rest, converted := convertOrderProto s.bundleRepo upd }
  | store {s : IntakeSystem} {upd : OrderUpdate Order OrderId} {pick : ℕ}
      (hconverted : s.converted = some upd) :
      Step base orderLifespanMillis s (.store pick)
        { s with converted := none, backlog := backlogStep s.backlog pick upd }
  | drainBundle {s : IntakeSystem} {upd : StateUpdate (AsBox IndexedStakingBundle)}
      {rest : List (StateUpdate (AsBox IndexedStakingBundle))}
      (hupdates : s.bundleUpdates = upd :: rest) :
      Step base orderLifespanMillis s .drainBundle
        { s with bundleRepo := bundleStep s.bundleRepo upd, bundleUpdates := rest }

/-! ## What waits for an order -/

/-- The announcement of an order is on its way to the backlog. -/
def AwaitsNew (s : IntakeSystem) (id : OrderId) : Prop :=
  (∃ pendingOrder, .newOrder pendingOrder ∈ s.orders ∧ pendingOrder.order.orderId = id) ∨
    ∃ pendingOrder, s.converted = some (.newOrder pendingOrder) ∧
      getSelfRef pendingOrder.order = id

/-- So is its elimination. -/
def AwaitsElimination (s : IntakeSystem) (id : OrderId) : Prop :=
  .orderEliminated id ∈ s.orders ∨ s.converted = some (.orderEliminated id)

/-- What a step asks for, for the sake of the order at `i`: when its spending is looked up it has
reached the backlog, and when it is converted its bundle has reached the repository. -/
def Timely (i : BoxId) (s : IntakeSystem) : IntakeLabel → Prop
  | .lookup => ∀ tx timestamp next, s.stage = .lookups tx timestamp next →
      tx.inputs[next]? = some i → ¬ s.AwaitsNew ⟨i⟩
  | .convert => ∀ r timestamp rest, s.orders = .newOrder ⟨.redeem r, timestamp⟩ :: rest →
      r.value.orderId = ⟨i⟩ →
      (s.bundleRepo.getLastConfirmed ⟨r.value.bundleKey.tokenId⟩).isSome
  | _ => True

/-- An order the backlog knows nothing of. -/
def Absent (s : IntakeSystem) (id : OrderId) : Prop :=
  id ∉ storedOrders s.backlog ∧ ¬ s.AwaitsNew id ∧ ¬ s.AwaitsElimination id

/-- An order that is stored in the end. -/
def Kept (s : IntakeSystem) (id : OrderId) : Prop :=
  (id ∈ storedOrders s.backlog ∨ s.AwaitsNew id) ∧ ¬ s.AwaitsElimination id

/-- An order that is not stored in the end. -/
def Removed (s : IntakeSystem) (id : OrderId) : Prop :=
  (id ∉ storedOrders s.backlog ∨ s.AwaitsElimination id) ∧ ¬ s.AwaitsNew id

section Pending

variable {s : IntakeSystem} {id : OrderId} {bundleRepo : BundleRepo}
  {upd : OrderUpdate OrderProto OrderId} {rest : List (OrderUpdate OrderProto OrderId)}

theorem convert_eq_eliminated :
    convertOrderProto bundleRepo upd = some (.orderEliminated id) ↔ upd = .orderEliminated id := by
  match upd with
  | .orderEliminated orderId => simp [convertOrderProto]
  | .newOrder pendingOrder =>
      refine iff_of_false ?_ (by simp)
      intro h
      obtain ⟨order, heq, -⟩ := convertOrderProto_newOrder h
      cases heq

/-- The announcement of an order whose bundle is found is converted to one. -/
theorem convert_eq_new (hfound : ∀ r timestamp, upd = .newOrder ⟨.redeem r, timestamp⟩ →
      r.value.orderId = id →
      (bundleRepo.getLastConfirmed ⟨r.value.bundleKey.tokenId⟩).isSome) :
    (∃ pendingOrder, convertOrderProto bundleRepo upd = some (.newOrder pendingOrder) ∧
        getSelfRef pendingOrder.order = id) ↔
      ∃ pendingOrder, upd = .newOrder pendingOrder ∧ pendingOrder.order.orderId = id := by
  match upd with
  | .orderEliminated orderId => simp [convertOrderProto]
  | .newOrder pendingOrder =>
      constructor
      · rintro ⟨converted, hconvert, hid⟩
        obtain ⟨order, heq, hkeep⟩ := convertOrderProto_newOrder hconvert
        cases heq
        exact ⟨pendingOrder, rfl, hkeep.symm.trans hid⟩
      · rintro ⟨_, heq, hid⟩
        cases heq
        cases hconvert : convertOrderProto bundleRepo (.newOrder pendingOrder) with
        | none =>
            obtain ⟨r, timestamp, heq, hnone⟩ := convertOrderProto_eq_none.mp hconvert
            cases heq
            have hsome := hfound r timestamp rfl hid
            rw [hnone] at hsome
            cases hsome
        | some converted =>
            obtain ⟨order, rfl, hkeep⟩ := convertOrderProto_newOrder hconvert
            exact ⟨_, rfl, hkeep.trans hid⟩

theorem awaitsNew_lookup {stage : Stage} {stored : OrderId → Bool} {input : BoxId} {id : OrderId} :
    AwaitsNew { s with stage := stage, orders := s.orders ++ lookupOrder stored input } id ↔
      s.AwaitsNew id := by
  unfold AwaitsNew lookupOrder
  split <;> simp

theorem awaitsElimination_lookup {i : BoxId} {stage : Stage} {stored : OrderId → Bool}
    {input : BoxId} :
    AwaitsElimination { s with stage := stage, orders := s.orders ++ lookupOrder stored input }
        ⟨i⟩ ↔ s.AwaitsElimination ⟨i⟩ ∨ i = input ∧ stored ⟨i⟩ := by
  unfold AwaitsElimination lookupOrder
  by_cases heq : i = input
  · subst heq
    cases stored ⟨i⟩ <;> simp
  · cases stored ⟨input⟩ <;> simp [heq]

/-- Steps that leave the backlog and what waits for the order alone. -/
structure Same (s t : IntakeSystem) (id : OrderId) : Prop where
  stored : id ∈ storedOrders t.backlog ↔ id ∈ storedOrders s.backlog
  new : t.AwaitsNew id ↔ s.AwaitsNew id
  elimination : t.AwaitsElimination id ↔ s.AwaitsElimination id

theorem Same.absent {t : IntakeSystem} (h : Same s t id) (hs : s.Absent id) : t.Absent id := by
  unfold Absent
  rw [h.stored, h.new, h.elimination]
  exact hs

theorem Same.kept {t : IntakeSystem} (h : Same s t id) (hs : s.Kept id) : t.Kept id := by
  unfold Kept
  rw [h.stored, h.new, h.elimination]
  exact hs

theorem Same.removed {t : IntakeSystem} (h : Same s t id) (hs : s.Removed id) : t.Removed id := by
  unfold Removed
  rw [h.stored, h.new, h.elimination]
  exact hs

/-- A conversion in time changes nothing for the order. -/
theorem same_convert (hfree : s.converted = none) (horders : s.orders = upd :: rest)
    (hfound : ∀ r timestamp, upd = .newOrder ⟨.redeem r, timestamp⟩ → r.value.orderId = id →
      (s.bundleRepo.getLastConfirmed ⟨r.value.bundleKey.tokenId⟩).isSome) :
    Same s { s with orders := rest, converted := convertOrderProto s.bundleRepo upd } id where
  stored := Iff.rfl
  new := by
    unfold AwaitsNew
    rw [convert_eq_new hfound, horders, hfree]
    constructor
    · rintro (⟨pendingOrder, hmem, hid⟩ | ⟨pendingOrder, rfl, hid⟩)
      · exact .inl ⟨pendingOrder, List.mem_cons_of_mem upd hmem, hid⟩
      · exact .inl ⟨pendingOrder, List.mem_cons_self, hid⟩
    · rintro (⟨pendingOrder, hmem, hid⟩ | ⟨pendingOrder, h, -⟩)
      · rcases List.mem_cons.mp hmem with heq | hmem
        · exact .inr ⟨pendingOrder, heq.symm, hid⟩
        · exact .inl ⟨pendingOrder, hmem, hid⟩
      · cases h
  elimination := by
    unfold AwaitsElimination
    rw [convert_eq_eliminated, horders, hfree, List.mem_cons, eq_comm]
    simp [or_comm]

theorem mem_storedOrders_backlogStep {backlog : BacklogService Order} {pick : ℕ}
    {upd : OrderUpdate Order OrderId} :
    id ∈ storedOrders (backlogStep backlog pick upd) ↔
      (∃ pendingOrder, upd = .newOrder pendingOrder ∧ getSelfRef pendingOrder.order = id) ∨
        id ∈ storedOrders backlog ∧ upd ≠ .orderEliminated id := by
  cases upd with
  | newOrder pendingOrder =>
      rw [backlogStep, storedOrders_put, Set.mem_insert_iff]
      simp [eq_comm]
  | orderEliminated orderId =>
      rw [backlogStep, storedOrders_remove, Set.mem_sdiff, Set.mem_singleton_iff]
      simp [eq_comm]

section Store

variable {upd : OrderUpdate Order OrderId} {pick : ℕ}

theorem awaitsNew_iff (pick : ℕ) (hconverted : s.converted = some upd) :
    s.AwaitsNew id ↔
      AwaitsNew { s with converted := none, backlog := backlogStep s.backlog pick upd } id ∨
        ∃ pendingOrder, upd = .newOrder pendingOrder ∧ getSelfRef pendingOrder.order = id := by
  unfold AwaitsNew
  rw [hconverted]
  simp

theorem awaitsElimination_iff (pick : ℕ) (hconverted : s.converted = some upd) :
    s.AwaitsElimination id ↔
      AwaitsElimination { s with converted := none, backlog := backlogStep s.backlog pick upd } id ∨
        upd = .orderEliminated id := by
  unfold AwaitsElimination
  rw [hconverted]
  simp

theorem Absent.store (hs : s.Absent id) (hconverted : s.converted = some upd) :
    Absent { s with converted := none, backlog := backlogStep s.backlog pick upd } id := by
  obtain ⟨hstored, hnew, helim⟩ := hs
  rw [awaitsNew_iff pick hconverted, not_or] at hnew
  rw [awaitsElimination_iff pick hconverted, not_or] at helim
  refine ⟨?_, hnew.1, helim.1⟩
  rw [mem_storedOrders_backlogStep]
  rintro (h | ⟨h, -⟩)
  · exact hnew.2 h
  · exact hstored h

theorem Kept.store (hs : s.Kept id) (hconverted : s.converted = some upd) :
    Kept { s with converted := none, backlog := backlogStep s.backlog pick upd } id := by
  obtain ⟨hkept, helim⟩ := hs
  rw [awaitsElimination_iff pick hconverted, not_or] at helim
  refine ⟨?_, helim.1⟩
  rw [mem_storedOrders_backlogStep]
  rcases hkept with hstored | hnew
  · exact .inl (.inr ⟨hstored, helim.2⟩)
  · rcases (awaitsNew_iff pick hconverted).mp hnew with hnew | hnew
    · exact .inr hnew
    · exact .inl (.inl hnew)

theorem Removed.store (hs : s.Removed id) (hconverted : s.converted = some upd) :
    Removed { s with converted := none, backlog := backlogStep s.backlog pick upd } id := by
  obtain ⟨hremoved, hnew⟩ := hs
  rw [awaitsNew_iff pick hconverted, not_or] at hnew
  refine ⟨?_, hnew.1⟩
  rw [mem_storedOrders_backlogStep, or_iff_right hnew.2]
  rcases hremoved with hstored | helim
  · exact .inl fun h => hstored h.1
  · rcases (awaitsElimination_iff pick hconverted).mp helim with helim | helim
    · exact .inr helim
    · exact .inl fun h => h.2 helim

end Store

end Pending

/-! ## Where the order stands -/

section Invariant

variable [ErgoLib]

/-- The transactions whose orders were announced. -/
def announced (s : IntakeSystem) : List LedgerTx :=
  match s.stage with
  | .lookups _ _ _ => s.chain.tail
  | _ => s.chain

/-- The inputs that were looked up of the transaction at hand. -/
def handledInputs (s : IntakeSystem) : List BoxId :=
  match s.stage with
  | .lookups tx _ next => tx.inputs.take next
  | _ => []

/-- The box `i` is an order, and it was announced. -/
def Announced (s : IntakeSystem) (i : BoxId) : Prop :=
  ∃ tx ∈ s.announced, ∃ bx ∈ tx.outputs, bx.boxId = i ∧
    ∃ proto, OrderProto.tryFromBox bx = .ok (some proto)

/-- The spending of the box `i` was looked up. -/
def LookedUp (s : IntakeSystem) (i : BoxId) : Prop :=
  (∃ tx ∈ s.announced, i ∈ tx.inputs) ∨ i ∈ s.handledInputs

/-- Where the order at `i` stands between the ledger and the backlog. -/
structure Follows (base : List ErgoBox) (i : BoxId) (s : IntakeSystem) : Prop where
  valid : Valid base s.chain
  handling : ∀ tx timestamp next, s.stage = .lookups tx timestamp next → s.chain.head? = some tx
  absent : ¬ s.Announced i → s.Absent ⟨i⟩
  kept : s.Announced i → ¬ s.LookedUp i → s.Kept ⟨i⟩
  removed : s.Announced i → s.LookedUp i → s.Removed ⟨i⟩

variable {base : List ErgoBox} {i : BoxId} {s t : IntakeSystem}

/-- A step that is not about the order. -/
theorem Follows.of_same (hs : Follows base i s) (hsame : Same s t ⟨i⟩)
    (hvalid : Valid base t.chain)
    (hhandling : ∀ tx timestamp next, t.stage = .lookups tx timestamp next →
      t.chain.head? = some tx)
    (hannounced : t.Announced i ↔ s.Announced i) (hlookedUp : t.LookedUp i ↔ s.LookedUp i) :
    Follows base i t where
  valid := hvalid
  handling := hhandling
  absent h := hsame.absent (hs.absent (fun hs => h (hannounced.mpr hs)))
  kept h hnot := hsame.kept (hs.kept (hannounced.mp h) (fun h => hnot (hlookedUp.mpr h)))
  removed h hup := hsame.removed (hs.removed (hannounced.mp h) (hlookedUp.mp hup))

theorem Follows.event {tx : LedgerTx} {timestamp : I64} (hs : Follows base i s)
    (hidle : s.stage = .idle) (haccepts : Accepts base s.chain tx) :
    Follows base i { s with chain := tx :: s.chain, stage := .lookups tx timestamp 0 } := by
  refine hs.of_same ⟨Iff.rfl, Iff.rfl, Iff.rfl⟩ ⟨haccepts, hs.valid⟩ ?_ ?_ ?_
  · intro tx' timestamp' next h
    cases h
    rfl
  · simp [Announced, announced, hidle]
  · simp [LookedUp, announced, handledInputs, hidle]

theorem Follows.bundles {tx : LedgerTx} {timestamp : I64}
    {upds : List (StateUpdate (AsBox IndexedStakingBundle))} (hs : Follows base i s)
    (hstage : s.stage = .bundles tx timestamp) :
    Follows base i { s with stage := .idle, bundleUpdates := s.bundleUpdates ++ upds } := by
  refine hs.of_same ⟨Iff.rfl, Iff.rfl, Iff.rfl⟩ hs.valid ?_ ?_ ?_
  · intro tx' timestamp' next h
    cases h
  · simp [Announced, announced, hstage]
  · simp [LookedUp, announced, handledInputs, hstage]

theorem Follows.convert {upd : OrderUpdate OrderProto OrderId}
    {rest : List (OrderUpdate OrderProto OrderId)} (hs : Follows base i s)
    (hfree : s.converted = none) (horders : s.orders = upd :: rest)
    (htimely : s.Timely i .convert) :
    Follows base i
      { s with orders := rest, converted := convertOrderProto s.bundleRepo upd } := by
  refine hs.of_same (same_convert hfree horders ?_) hs.valid hs.handling Iff.rfl Iff.rfl
  rintro r timestamp rfl hid
  exact htimely r timestamp rest horders hid

theorem Follows.store {upd : OrderUpdate Order OrderId} {pick : ℕ} (hs : Follows base i s)
    (hconverted : s.converted = some upd) :
    Follows base i { s with converted := none, backlog := backlogStep s.backlog pick upd } where
  valid := hs.valid
  handling := hs.handling
  absent h := (hs.absent h).store hconverted
  kept h hnot := (hs.kept h hnot).store hconverted
  removed h hup := (hs.removed h hup).store hconverted

/-! ## The handler -/

theorem Follows.lookup {tx : LedgerTx} {timestamp : I64} {next : ℕ} {input : BoxId}
    (hs : Follows base i s) (hstage : s.stage = .lookups tx timestamp next)
    (hinput : tx.inputs[next]? = some input) (htimely : s.Timely i .lookup) :
    Follows base i
      { s with
        stage := .lookups tx timestamp (next + 1)
        orders := s.orders ++ lookupOrder (fun id => (s.backlog.store.get id).isSome) input } := by
  have hhandling : ∀ tx' timestamp' next',
      Stage.lookups tx timestamp (next + 1) = .lookups tx' timestamp' next' →
        s.chain.head? = some tx' := by
    intro tx' timestamp' next' h
    cases h
    exact hs.handling tx timestamp next hstage
  have hannounced : (∃ tx ∈ s.chain.tail, ∃ bx ∈ tx.outputs, bx.boxId = i ∧
      ∃ proto, OrderProto.tryFromBox bx = .ok (some proto)) ↔ s.Announced i := by
    rw [Announced, announced, hstage]
  have htake : tx.inputs.take (next + 1) = tx.inputs.take next ++ [input] := by
    rw [List.take_add_one, hinput]
    rfl
  have hlookedUp : ((∃ tx ∈ s.chain.tail, i ∈ tx.inputs) ∨ i ∈ tx.inputs.take (next + 1)) ↔
      s.LookedUp i ∨ i = input := by
    rw [LookedUp, announced, handledInputs, hstage, htake, List.mem_append, List.mem_singleton,
      or_assoc]
  by_cases heq : i = input
  · subst heq
    -- the order has been announced, so that its creation is drained by now
    have hnew := htimely tx timestamp next hstage hinput
    refine ⟨hs.valid, hhandling, ?_, ?_, ?_⟩
    · intro h
      obtain ⟨hstored, -, helim⟩ := hs.absent (fun hs => h (hannounced.mpr hs))
      refine ⟨hstored, fun h => hnew (awaitsNew_lookup.mp h), ?_⟩
      rw [awaitsElimination_lookup, ← mem_storedOrders]
      rintro (h | ⟨-, h⟩)
      · exact helim h
      · exact hstored h
    · exact fun _ hnot => absurd (hlookedUp.mpr (.inr rfl)) hnot
    · intro _ _
      refine ⟨?_, fun h => hnew (awaitsNew_lookup.mp h)⟩
      -- if it is stored, then its elimination is fed
      rw [awaitsElimination_lookup, ← mem_storedOrders]
      by_cases hstored : ⟨i⟩ ∈ storedOrders s.backlog
      · exact .inr (.inr ⟨rfl, hstored⟩)
      · exact .inl hstored
  · -- another box is looked up
    refine hs.of_same ⟨Iff.rfl, awaitsNew_lookup, ?_⟩ hs.valid hhandling hannounced ?_
    · rw [awaitsElimination_lookup]
      exact or_iff_left fun h => heq h.1
    · exact hlookedUp.trans (or_iff_left heq)

omit [Blake2b] in
theorem observeOrders_of_recent {orderLifespanMillis : ℤ} {clock : BacklogService.Clock}
    {timestamp : I64} {outputs : List ErgoBox} {orders : List OrderProto}
    (hrecent : clock 0 - timestamp.toInt ≤ orderLifespanMillis)
    (hparse : parseOrders outputs = .ok orders) :
    observeOrders orderLifespanMillis clock timestamp outputs =
      .ok (orders.mapIdx fun i order => .newOrder ⟨order, clock (i + 1)⟩) := by
  rw [observeOrders, if_pos hrecent, hparse, Outcome.ok_bind, Outcome.pure_eq]

/-- The orders among the outputs are announced, and nothing is eliminated. -/
theorem mem_of_observeOrders {orderLifespanMillis : ℤ} {clock : BacklogService.Clock}
    {timestamp : I64} {outputs : List ErgoBox} {upds : List (OrderUpdate OrderProto OrderId)}
    (hrecent : clock 0 - timestamp.toInt ≤ orderLifespanMillis)
    (hupds : observeOrders orderLifespanMillis clock timestamp outputs = .ok upds) :
    ((∃ pendingOrder, .newOrder pendingOrder ∈ upds ∧ pendingOrder.order.orderId = ⟨i⟩) ↔
      ∃ bx ∈ outputs, bx.boxId = i ∧ ∃ proto, OrderProto.tryFromBox bx = .ok (some proto)) ∧
      ∀ id, .orderEliminated id ∉ upds := by
  rw [observeOrders, if_pos hrecent] at hupds
  obtain ⟨orders, hparse, h⟩ := Outcome.bind_eq_ok.mp hupds
  cases h
  constructor
  · constructor
    · rintro ⟨pendingOrder, hmem, hid⟩
      obtain ⟨n, hn, heq⟩ := List.mem_mapIdx.mp hmem
      cases heq
      obtain ⟨bx, hbx, horder⟩ := (mem_of_parseOrders hparse).mp (List.getElem_mem hn)
      rw [OrderProto.orderId_of_tryFromBox horder] at hid
      exact ⟨bx, hbx, congrArg OrderId.digest hid, _, horder⟩
    · rintro ⟨bx, hbx, rfl, proto, horder⟩
      obtain ⟨n, hn, rfl⟩ := List.mem_iff_getElem.mp
        ((mem_of_parseOrders hparse).mpr ⟨bx, hbx, horder⟩)
      exact ⟨_, List.mem_mapIdx.mpr ⟨n, hn, rfl⟩, OrderProto.orderId_of_tryFromBox horder⟩
  · intro id hmem
    obtain ⟨n, hn, heq⟩ := List.mem_mapIdx.mp hmem
    cases heq

theorem Follows.observe {orderLifespanMillis : ℤ} {tx : LedgerTx} {timestamp : I64} {next : ℕ}
    {clock : BacklogService.Clock} {upds : List (OrderUpdate OrderProto OrderId)}
    (hs : Follows base i s) (hstage : s.stage = .lookups tx timestamp next)
    (hinput : tx.inputs[next]? = none)
    (hrecent : clock 0 - timestamp.toInt ≤ orderLifespanMillis)
    (hupds : observeOrders orderLifespanMillis clock timestamp tx.outputs = .ok upds) :
    Follows base i { s with stage := .bundles tx timestamp, orders := s.orders ++ upds } := by
  obtain ⟨hnew, helim⟩ := mem_of_observeOrders (i := i) hrecent hupds
  obtain ⟨older, hchain⟩ := List.head?_eq_some_iff.mp (hs.handling tx timestamp next hstage)
  have hvalid := hs.valid
  rw [hchain] at hvalid
  have hbefore : s.announced = older := by
    rw [announced, hstage, hchain]
    rfl
  have hinputs : s.handledInputs = tx.inputs := by
    rw [handledInputs, hstage]
    exact List.take_of_length_le (List.getElem?_eq_none_iff.mp hinput)
  -- how the new updates change what is awaited and what is announced
  have hawaitsElimination : AwaitsElimination
      { s with stage := .bundles tx timestamp, orders := s.orders ++ upds } ⟨i⟩ ↔
        s.AwaitsElimination ⟨i⟩ := by
    simp [AwaitsElimination, helim]
  have hawaitsNew : AwaitsNew
      { s with stage := .bundles tx timestamp, orders := s.orders ++ upds } ⟨i⟩ ↔
        s.AwaitsNew ⟨i⟩ ∨ ∃ bx ∈ tx.outputs, bx.boxId = i ∧
          ∃ proto, OrderProto.tryFromBox bx = .ok (some proto) := by
    rw [← hnew]
    unfold AwaitsNew
    simp only [List.mem_append, or_and_right, exists_or]
    rw [or_right_comm]
  have hannounced : Announced
      { s with stage := .bundles tx timestamp, orders := s.orders ++ upds } i ↔
        s.Announced i ∨ ∃ bx ∈ tx.outputs, bx.boxId = i ∧
          ∃ proto, OrderProto.tryFromBox bx = .ok (some proto) := by
    unfold Announced
    rw [hbefore]
    simp only [announced, hchain, List.mem_cons, exists_eq_or_imp]
    rw [or_comm]
  have hlookedUp : LookedUp
      { s with stage := .bundles tx timestamp, orders := s.orders ++ upds } i ↔
        ∃ tx' ∈ tx :: older, i ∈ tx'.inputs := by
    simp only [LookedUp, announced, handledInputs, hchain, List.not_mem_nil, or_false]
  by_cases hout : ∃ bx ∈ tx.outputs, bx.boxId = i ∧
      ∃ proto, OrderProto.tryFromBox bx = .ok (some proto)
  · -- the order is new
    obtain ⟨bx, hbx, rfl, -⟩ := id hout
    have habsent : ¬ s.Announced bx.boxId := by
      rintro ⟨tx', htx', bx', hbx', heq, -⟩
      rw [hbefore] at htx'
      exact hvalid.1.outputs_fresh bx hbx bx' (created_of_output htx' hbx') heq.symm
    refine ⟨hs.valid, by simp, ?_, ?_, ?_⟩
    · exact fun h => absurd (hannounced.mpr (.inr hout)) h
    · intro _ _
      refine ⟨.inr (hawaitsNew.mpr (.inr hout)), ?_⟩
      rw [hawaitsElimination]
      exact (hs.absent habsent).2.2
    · intro _ h
      obtain ⟨tx', htx', hi⟩ := hlookedUp.mp h
      exact absurd hi (hvalid.notMem_inputs_of_output hbx htx')
  · -- no order of these outputs has the id
    refine hs.of_same ⟨Iff.rfl, hawaitsNew.trans (or_iff_left hout), hawaitsElimination⟩ hs.valid
      (by simp) (hannounced.trans (or_iff_left hout)) (hlookedUp.trans ?_)
    rw [LookedUp, hbefore, hinputs]
    simp only [List.mem_cons, exists_eq_or_imp]
    rw [or_comm]

/-! ## Runs -/

theorem follows_of_step {orderLifespanMillis : ℤ} {l : IntakeLabel} (hs : Follows base i s)
    (hstep : restrict (Step base orderLifespanMillis) (Timely i) s l t) : Follows base i t := by
  obtain ⟨hstep, htimely⟩ := hstep
  cases hstep with
  | event hidle haccepts => exact hs.event hidle haccepts
  | lookup hstage hinput => exact hs.lookup hstage hinput htimely
  | observe hstage hinput hrecent hupds => exact hs.observe hstage hinput hrecent hupds
  | bundles hstage _ => exact hs.bundles hstage
  | convert hfree horders => exact hs.convert hfree horders htimely
  | store hconverted => exact hs.store hconverted
  | drainBundle _ =>
      exact hs.of_same ⟨Iff.rfl, Iff.rfl, Iff.rfl⟩ hs.valid hs.handling Iff.rfl Iff.rfl

/-- Before the first transaction nothing is stored. -/
structure Initial (s : IntakeSystem) : Prop where
  chain : s.chain = []
  stage : s.stage = .idle
  orders : s.orders = []
  converted : s.converted = none
  stored : storedOrders s.backlog = ∅

/-- Nothing is left to do. -/
structure Drained (s : IntakeSystem) : Prop where
  stage : s.stage = .idle
  orders : s.orders = []
  converted : s.converted = none
  bundleUpdates : s.bundleUpdates = []

omit [ErgoLib] in
theorem Drained.not_awaits (h : s.Drained) (id : OrderId) :
    ¬ s.AwaitsNew id ∧ ¬ s.AwaitsElimination id := by
  simp [AwaitsNew, AwaitsElimination, h.orders, h.converted]

theorem follows_of_initial (hs : s.Initial) (hbase : Valid base []) : Follows base i s := by
  have hannounced : ¬ s.Announced i := by
    simp [Announced, announced, hs.stage, hs.chain]
  refine ⟨hs.chain ▸ hbase, ?_, fun _ => ⟨?_, ?_, ?_⟩, fun h => absurd h hannounced,
    fun h => absurd h hannounced⟩
  · simp [hs.stage]
  · simp [hs.stored]
  · simp [AwaitsNew, hs.orders, hs.converted]
  · simp [AwaitsElimination, hs.orders, hs.converted]

/-- If an order was looked up in time whenever it was, then once all is drained it is stored
exactly if it was created and not spent. -/
theorem stored_iff_of_run {orderLifespanMillis : ℤ} {labels : List IntakeLabel} {bx : ErgoBox}
    {proto : OrderProto} (hbase : Valid base []) (hs : s.Initial)
    (hrun : Run (restrict (Step base orderLifespanMillis) (Timely bx.boxId)) s labels t)
    (ht : t.Drained) (hbx : bx ∈ created base t.chain)
    (horder : OrderProto.tryFromBox bx = .ok (some proto)) :
    ⟨bx.boxId⟩ ∈ storedOrders t.backlog ↔
      (∃ tx ∈ t.chain, bx ∈ tx.outputs) ∧ ∀ tx ∈ t.chain, bx.boxId ∉ tx.inputs := by
  have hfollows : Follows base bx.boxId t :=
    hrun.invariant (fun _ _ _ => follows_of_step) (follows_of_initial hs hbase)
  obtain ⟨hnew, helim⟩ := ht.not_awaits ⟨bx.boxId⟩
  have hannounced : t.Announced bx.boxId ↔ ∃ tx ∈ t.chain, bx ∈ tx.outputs := by
    rw [Announced, announced, ht.stage]
    refine exists_congr fun tx => and_congr_right fun htx => ?_
    constructor
    · rintro ⟨bx', hbx', heq, -⟩
      rw [← hfollows.valid.eq_of_boxId (created_of_output htx hbx') hbx heq]
      exact hbx'
    · exact fun hout => ⟨bx, hout, rfl, proto, horder⟩
  have hlookedUp : t.LookedUp bx.boxId ↔ ∃ tx ∈ t.chain, bx.boxId ∈ tx.inputs := by
    simp [LookedUp, announced, handledInputs, ht.stage]
  rw [← hannounced]
  by_cases hout : t.Announced bx.boxId
  · by_cases hspent : t.LookedUp bx.boxId
    · obtain ⟨hstored, -⟩ := hfollows.removed hout hspent
      obtain ⟨tx, htx, hi⟩ := hlookedUp.mp hspent
      exact iff_of_false (hstored.resolve_right helim) fun h => h.2 tx htx hi
    · obtain ⟨hstored, -⟩ := hfollows.kept hout hspent
      refine iff_of_true (hstored.resolve_right hnew) ⟨hout, fun tx htx hi => ?_⟩
      exact hspent (hlookedUp.mpr ⟨tx, htx, hi⟩)
  · exact iff_of_false (hfollows.absent hout).1 fun h => hout h.1

/-! ## The handler by itself -/

end Invariant

end IntakeSystem

end Intake

/-! ## A deposit that is created and refunded -/

namespace Sample

open Staking.Sample SpectrumOffchain.Sample Blake2b.Sample

def depositTx : LedgerTx := ⟨[], [depositBox lq], List.nodup_singleton _⟩

def refundTx : LedgerTx := ⟨[(depositBox lq).boxId], [], List.nodup_nil⟩

def depositProto : OrderProto := .deposit ⟨depositBox lq, deposit lq⟩

def initialOrders : IntakeSystem where
  chain := []
  stage := .idle
  backlog := BacklogService.new .empty Backlog.Sample.conf
  orders := []
  converted := none
  bundleRepo := .empty
  bundleUpdates := []

/-- The deposit has reached the backlog. -/
def storedDeposit : IntakeSystem :=
  { initialOrders with
    chain := [depositTx]
    backlog := initialOrders.backlog.put ⟨order, 0⟩ 0 }

/-- It is still there after it was refunded. -/
def ghostDeposit : IntakeSystem := { storedDeposit with chain := [refundTx, depositTx] }

def refundedDeposit : IntakeSystem :=
  { ghostDeposit with backlog := storedDeposit.backlog.remove ⟨(depositBox lq).boxId⟩ }

theorem initial_initialOrders : initialOrders.Initial := by
  refine ⟨rfl, rfl, rfl, rfl, Set.eq_empty_iff_forall_notMem.mpr ?_⟩
  exact fun id h => absurd h List.not_mem_nil

theorem mem_storedOrders_storedDeposit :
    ⟨(depositBox lq).boxId⟩ ∈ storedOrders storedDeposit.backlog := by
  rw [storedDeposit, storedOrders_put]
  exact Set.mem_insert _ _

theorem tryFromBox_deposit :
    OrderProto.tryFromBox (depositBox lq) = .ok (some depositProto) := by
  rw [OrderProto.tryFromBox, tryFromBox_depositBox]
  rfl

theorem observe_depositTx : observeOrders 100 (fun _ => 0) 0 depositTx.outputs =
    .ok [.newOrder ⟨depositProto, 0⟩] := by
  have hparse : parseOrders [depositBox lq] = .ok [depositProto] := by
    rw [parseOrders, List.mapM_cons, tryFromBox_deposit]
    rfl
  exact IntakeSystem.observeOrders_of_recent (by decide) hparse

theorem observe_refundTx : observeOrders 100 (fun _ => 0) 0 refundTx.outputs = .ok [] := rfl

theorem bundles_depositTx :
    handleBundleEvent bundleEnv .empty (.appliedTx depositTx 0) = .ok [] := rfl

theorem bundles_refundTx :
    handleBundleEvent bundleEnv .empty (.appliedTx refundTx 0) = .ok [] := rfl

theorem accepts_depositTx : Accepts [] [] depositTx :=
  ⟨fun _ h => absurd h List.not_mem_nil, fun _ _ _ h => absurd h List.not_mem_nil⟩

theorem accepts_refundTx : Accepts [] [depositTx] refundTx := by
  refine ⟨?_, fun _ h => absurd h List.not_mem_nil⟩
  intro i hi
  rw [List.mem_singleton.mp hi]
  exact ⟨depositBox lq, List.mem_singleton_self _, rfl⟩

end Sample

open EventSink.Sample SpectrumOffchain.Sample Blake2b.Sample IntakeSystem in
/-- An order that is spent before its announcement is drained stays for good. -/
theorem ghost_order :
    initialOrders.Initial ∧
      Run (Step [] 100) initialOrders
        [.event depositTx 0, .observe fun _ => 0, .bundles bundleEnv, .event refundTx 0, .lookup,
          .observe fun _ => 0, .bundles bundleEnv, .convert, .store 0] ghostDeposit ∧
      ghostDeposit.Drained ∧ (depositBox lq).boxId ∈ refundTx.inputs ∧
      ⟨(depositBox lq).boxId⟩ ∈ storedOrders ghostDeposit.backlog := by
  refine ⟨initial_initialOrders, ?_, ⟨rfl, rfl, rfl, rfl⟩, List.mem_singleton_self _,
    mem_storedOrders_storedDeposit⟩
  refine .cons (.event rfl accepts_depositTx) ?_
  refine .cons (.observe rfl rfl (by decide) observe_depositTx) ?_
  refine .cons (.bundles rfl bundles_depositTx) ?_
  refine .cons (.event rfl accepts_refundTx) ?_
  refine .cons (.lookup rfl rfl) ?_
  refine .cons (.observe rfl rfl (by decide) observe_refundTx) ?_
  refine .cons (.bundles rfl bundles_refundTx) ?_
  refine .cons (.convert rfl rfl) ?_
  exact .single (@Step.store _ _ _ _ _ (.newOrder ⟨order, 0⟩) 0 rfl)

open EventSink.Sample SpectrumOffchain.Sample Blake2b.Sample IntakeSystem in
theorem stored_iff_of_run_sample :
    ⟨(depositBox lq).boxId⟩ ∉ storedOrders refundedDeposit.backlog := by
  have hfirst : Run (restrict (Step [] 100) (Timely (depositBox lq).boxId)) initialOrders
      [.event depositTx 0, .observe fun _ => 0, .bundles bundleEnv, .convert, .store 0]
      storedDeposit := by
    refine .cons ⟨.event rfl accepts_depositTx, trivial⟩ ?_
    refine .cons ⟨.observe rfl rfl (by decide) observe_depositTx, trivial⟩ ?_
    refine .cons ⟨.bundles rfl bundles_depositTx, trivial⟩ ?_
    refine .cons ⟨.convert rfl rfl, ?_⟩ ?_
    · intro r timestamp rest h
      cases h
    · exact .single ⟨@Step.store _ _ _ _ _ (.newOrder ⟨order, 0⟩) 0 rfl, trivial⟩
  have hsecond : Run (restrict (Step [] 100) (Timely (depositBox lq).boxId)) storedDeposit
      [.event refundTx 0, .lookup, .observe fun _ => 0, .bundles bundleEnv, .convert, .store 0]
      refundedDeposit := by
    refine .cons ⟨.event rfl accepts_refundTx, trivial⟩ ?_
    refine .cons ⟨.lookup rfl rfl, ?_⟩ ?_
    · intro _ _ _ _ _
      simp [AwaitsNew, storedDeposit, initialOrders]
    refine .cons ⟨.observe rfl rfl (by decide) observe_refundTx, trivial⟩ ?_
    refine .cons ⟨.bundles rfl bundles_refundTx, trivial⟩ ?_
    refine .cons ⟨.convert rfl rfl, ?_⟩ ?_
    · intro r timestamp rest h
      cases h
    · refine .single ⟨?_, trivial⟩
      exact @Step.store _ _ _ _ _ (.orderEliminated ⟨(depositBox lq).boxId⟩) 0 rfl
  have hbase : Valid [] [] := List.nodup_nil
  intro h
  obtain ⟨-, hspent⟩ := (stored_iff_of_run hbase initial_initialOrders
    (hfirst.append hsecond) ⟨rfl, rfl, rfl, rfl⟩
    (List.mem_singleton_self _ : depositBox lq ∈ created [] [refundTx, depositTx])
    tryFromBox_deposit).mp h
  exact hspent refundTx List.mem_cons_self (List.mem_singleton_self _)

end SpectrumOffchain.EventSink
