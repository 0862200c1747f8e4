import SpectrumOffchain.EventSink.Intake

/-!
# Old orders

`OrderUpdatesHandler` announces the orders of an applied transaction only if its block is at
most `order_lifespan` old, so that a synchronisation from far back does not fill the backlog
with orders that have long expired.  The age is a difference of a reading of the clock in seconds
and the timestamp of the block in milliseconds, and it is compared with a number of milliseconds.

The seconds since the epoch are a thousandth of the milliseconds, so that this difference is
far below the age, and negative for every block of the last decades: the filter is open
(`stale_order_admitted`).  It does what it is for when the block is young or is older than the
reading of the clock by more than the lifespan (`admitsYoung_iff`).
-/

namespace SpectrumOffchain.EventSink

open Backlog

section Handler

variable [ErgoLib] [Blake2b] {stored : OrderId → Bool} {orderLifespanMillis : ℤ}
  {clock : BacklogService.Clock} {times : ℕ → ℕ} {tx : LedgerTx} {timestamp : I64}
  {updates : List (OrderUpdate OrderProto OrderId)} {order : OrderProto}

/-- `Utc::now().timestamp()` at times given in milliseconds since the epoch. -/
def secondsClock (times : ℕ → ℕ) : BacklogService.Clock := fun i => (times i / 1000 : ℕ)

/-- The order is announced. -/
def Announces (updates : List (OrderUpdate OrderProto OrderId)) (order : OrderProto) : Prop :=
  ∃ observedAt, .newOrder ⟨order, observedAt⟩ ∈ updates

/-- The order is among the outputs. -/
def Carries (tx : LedgerTx) (order : OrderProto) : Prop :=
  ∃ bx ∈ tx.outputs, OrderProto.tryFromBox bx = .ok (some order)

/-- The orders of an applied transaction are announced if and only if its block is at most
`orderLifespanMillis` old when the handler looks at it. -/
def AdmitsYoung (stored : OrderId → Bool) (orderLifespanMillis : ℤ) (times : ℕ → ℕ) (tx : LedgerTx)
    (timestamp : I64) : Prop :=
  ∃ updates, handleOrderEvent stored orderLifespanMillis (secondsClock times)
      (.appliedTx tx timestamp) = .ok updates ∧
    ∀ order, Announces updates order ↔
      (times 0 : ℤ) - timestamp.toInt ≤ orderLifespanMillis ∧ Carries tx order

/-! ## Units -/

omit [ErgoLib] [Blake2b] in
/-- There are fewer seconds than milliseconds, so that the filter lets every young block pass. -/
theorem secondsClock_le (times : ℕ → ℕ) (i : ℕ) : secondsClock times i ≤ times i := by
  have hle : times i / 1000 ≤ times i := Nat.div_le_self _ _
  exact Int.ofNat_le.mpr hle

/-! ## The filter -/

omit [ErgoLib] [Blake2b] in
theorem not_announces_lookups (inputs : List BoxId) :
    ¬ Announces (inputs.flatMap (lookupOrder stored)) order := by
  rintro ⟨observedAt, hmem⟩
  obtain ⟨input, -, hmem⟩ := List.mem_flatMap.mp hmem
  unfold lookupOrder at hmem
  split at hmem
  · cases List.mem_singleton.mp hmem
  · cases hmem

/-- An open filter lets all orders pass. -/
theorem announces_iff_of_open (hopen : clock 0 - timestamp.toInt ≤ orderLifespanMillis)
    (h : handleOrderEvent stored orderLifespanMillis clock (.appliedTx tx timestamp) =
      .ok updates) :
    Announces updates order ↔ Carries tx order := by
  obtain ⟨created, hcreated, h⟩ := Outcome.bind_eq_ok.mp h
  cases h
  rw [observeOrders, if_pos hopen] at hcreated
  obtain ⟨orders, hparse, hcreated⟩ := Outcome.bind_eq_ok.mp hcreated
  cases hcreated
  rw [Carries, ← mem_of_parseOrders hparse]
  constructor
  · rintro ⟨observedAt, hmem⟩
    rcases List.mem_append.mp hmem with hmem | hmem
    · exact absurd ⟨observedAt, hmem⟩ (not_announces_lookups tx.inputs)
    · obtain ⟨n, hn, heq⟩ := List.mem_mapIdx.mp hmem
      cases heq
      exact List.getElem_mem hn
  · intro hmem
    obtain ⟨n, hn, rfl⟩ := List.mem_iff_getElem.mp hmem
    exact ⟨clock (n + 1), List.mem_append_right _ (List.mem_mapIdx.mpr ⟨n, hn, rfl⟩)⟩

/-- A closed one lets none pass, and the outputs are not looked at. -/
theorem handle_of_closed (hclosed : ¬ clock 0 - timestamp.toInt ≤ orderLifespanMillis) :
    handleOrderEvent stored orderLifespanMillis clock (.appliedTx tx timestamp) =
      .ok (tx.inputs.flatMap (lookupOrder stored)) := by
  rw [handleOrderEvent, observeOrders, if_neg hclosed, Outcome.pure_eq, Outcome.ok_bind,
    List.append_nil, Outcome.pure_eq]

theorem exists_handle_of_open (hopen : clock 0 - timestamp.toInt ≤ orderLifespanMillis) :
    (∃ updates, handleOrderEvent stored orderLifespanMillis clock (.appliedTx tx timestamp) =
      .ok updates) ↔ ∀ bx ∈ tx.outputs, OrderProto.tryFromBox bx ≠ .crash := by
  rw [← exists_parseOrders]
  constructor
  · rintro ⟨updates, h⟩
    obtain ⟨created, hcreated, -⟩ := Outcome.bind_eq_ok.mp h
    rw [observeOrders, if_pos hopen] at hcreated
    obtain ⟨orders, hparse, -⟩ := Outcome.bind_eq_ok.mp hcreated
    exact ⟨orders, hparse⟩
  · rintro ⟨orders, hparse⟩
    exact ⟨_, Outcome.bind_eq_ok.mpr
      ⟨_, IntakeSystem.observeOrders_of_recent hopen hparse, rfl⟩⟩

/-- The orders of a transaction are announced if and only if its block is at most the lifespan
old, exactly if the filter is closed, or if the outputs can be parsed and the block is as young as
that or there is no order. -/
theorem admitsYoung_iff (stored : OrderId → Bool) (orderLifespanMillis : ℤ) (times : ℕ → ℕ)
    (tx : LedgerTx) (timestamp : I64) :
    AdmitsYoung stored orderLifespanMillis times tx timestamp ↔
      ((times 0 / 1000 : ℕ) - timestamp.toInt ≤ orderLifespanMillis →
        (∀ bx ∈ tx.outputs, OrderProto.tryFromBox bx ≠ .crash) ∧
        ((times 0 : ℤ) - timestamp.toInt ≤ orderLifespanMillis ∨
          ∀ order, ¬ Carries tx order)) := by
  have hle : ((times 0 / 1000 : ℕ) : ℤ) ≤ times 0 := secondsClock_le times 0
  by_cases hopen : (times 0 / 1000 : ℕ) - timestamp.toInt ≤ orderLifespanMillis
  · have hclock : secondsClock times 0 - timestamp.toInt ≤ orderLifespanMillis := hopen
    simp only [hopen, true_imp_iff]
    constructor
    · rintro ⟨updates, hupdates, hadmits⟩
      refine ⟨exists_handle_of_open hclock |>.mp ⟨updates, hupdates⟩, ?_⟩
      by_contra hnot
      obtain ⟨hold, hsome⟩ := not_or.mp hnot
      obtain ⟨order, horder⟩ := not_forall_not.mp hsome
      exact hold ((hadmits order).mp ((announces_iff_of_open hclock hupdates).mpr horder)).1
    · rintro ⟨hparse, hyoung⟩
      obtain ⟨updates, hupdates⟩ := (exists_handle_of_open hclock).mpr hparse
      refine ⟨updates, hupdates, fun order => ?_⟩
      rw [announces_iff_of_open hclock hupdates]
      rcases hyoung with hyoung | hnone
      · exact (and_iff_right hyoung).symm
      · exact iff_of_false (hnone order) fun h => hnone order h.2
  · have hclock : ¬ secondsClock times 0 - timestamp.toInt ≤ orderLifespanMillis := hopen
    have hold : ¬ (times 0 : ℤ) - timestamp.toInt ≤ orderLifespanMillis := by omega
    refine iff_of_true ?_ fun h => absurd h hopen
    refine ⟨_, handle_of_closed hclock, fun order => ?_⟩
    exact iff_of_false (not_announces_lookups tx.inputs) fun h => hold h.1

end Handler

open EventSink.Sample SpectrumOffchain.Sample Blake2b.Sample in
/-- In November 2023 a deposit of September 2020 is announced, with a lifespan of a hundred
days. -/
theorem stale_order_admitted :
    ¬ ∀ (stored : OrderId → Bool) (orderLifespanMillis : ℤ) (times : ℕ → ℕ) (tx : LedgerTx)
      (timestamp : I64), AdmitsYoung stored orderLifespanMillis times tx timestamp := by
  intro h
  obtain ⟨updates, hupdates, hadmits⟩ :=
    h (fun _ => false) 8640000000 (fun _ => 1700000000000) depositTx 1600000000000
  have hcarries : Carries depositTx depositProto :=
    ⟨depositBox lq, List.mem_singleton_self _, tryFromBox_deposit⟩
  have hopen : secondsClock (fun _ => 1700000000000) 0 - (1600000000000 : I64).toInt ≤
      8640000000 := by decide +kernel
  have hyoung := ((hadmits depositProto).mp
    ((announces_iff_of_open hopen hupdates).mpr hcarries)).1
  exact absurd hyoung (by decide +kernel)

end SpectrumOffchain.EventSink
