import SpectrumOffchain.Scheduler.Distribution

/-!
# Which tick is peeked

A tick can be tried when it is pending, or when it is deferred and its time has come.  `peek` is
meant to return one of the lowest height among these (`PeeksLowest`).

It looks at the first pending tick and at the first deferred one, in the order of the keys.  The
deferred ticks are sorted by height and not by the time they are deferred to, so that the scan over
them has to go on behind a tick whose time has not come.  It ends there: such a tick hides all those
of larger keys, unless a pending tick is lower than these anyway (`peeksLowest_iff`).

## Strategy

In a repository of a run the schedule behind a tick is always there and has this very tick
(`Scheduled`), so neither scan gets past its first key: the pending one returns the first
tick, the deferred one returns the first if its time has come and nothing otherwise
(`firstTick_eq`, `firstDeferredTick_eq`).  The only other outcome is a crash, when the index
of the epoch does not fit 32 bits.

So `peek` is the lower of two candidates (`peek_of_fits`), and it remains to compare them
with all ticks that can be tried.  The first pending tick is the lowest of its kind.  The
first deferred one is too, but it may not be due, and then nothing is offered of the
deferred ticks at all: this is what `Unhidden` excludes, and only for the case that it
matters, a due tick below all the pending ones.
-/

namespace SpectrumOffchain

/-! ## The first of several keys -/

namespace TickKey

instance : Std.Total TickKey.Le := ⟨fun k k' => by
  rcases Nat.lt_trichotomy k.height k'.height with hlt | heq | hlt
  · exact .inl (.inl hlt)
  · exact (List.le_total k.poolId.tokenId.bytes k'.poolId.tokenId.bytes).imp
      (fun h => .inr ⟨heq, h⟩) fun h => .inr ⟨heq.symm, h⟩
  · exact .inr (.inl hlt)⟩

instance : IsTrans TickKey TickKey.Le := ⟨by
  rintro k k' k'' (hlt | ⟨heq, hle⟩) (hlt' | ⟨heq', hle'⟩)
  · exact .inl (hlt.trans hlt')
  · exact .inl (heq' ▸ hlt)
  · exact .inl (heq ▸ hlt')
  · exact .inr ⟨heq.trans heq', List.le_trans hle hle'⟩⟩

variable {k k' : TickKey}

theorem Le.height_le (h : k.Le k') : k.height ≤ k'.height := by
  rcases h with hlt | ⟨heq, -⟩
  · exact hlt.le
  · exact heq.le

theorem Le.antisymm (h : k.Le k') (h' : k'.Le k) : k = k' := by
  have hheight : k.height = k'.height := Nat.le_antisymm h.height_le h'.height_le
  have hbytes : k.poolId.tokenId.bytes = k'.poolId.tokenId.bytes := by
    rcases h with hlt | ⟨-, hle⟩
    · omega
    · rcases h' with hlt' | ⟨-, hle'⟩
      · omega
      · exact List.le_antisymm hle hle'
  obtain ⟨_, ⟨⟨_, _⟩⟩⟩ := k
  obtain ⟨_, ⟨⟨_, _⟩⟩⟩ := k'
  cases hheight
  cases hbytes
  rfl

/-- The key comes before all others. -/
def IsFirst (keys : List TickKey) (key : TickKey) : Prop := key ∈ keys ∧ ∀ key' ∈ keys, key.Le key'

theorem IsFirst.unique {keys : List TickKey} (h : IsFirst keys k) (h' : IsFirst keys k') : k = k' :=
  (h.2 k' h'.1).antisymm (h'.2 k h.1)

end TickKey

/-- What the iterator of the database comes to first. -/
theorem head?_insertionSort_iff {α : Type} {items : List α} {key : α → TickKey}
    (hnodup : (items.map key).Nodup) {a : α} :
    (items.insertionSort fun a b => (key a).Le (key b)).head? = some a ↔
      a ∈ items ∧ TickKey.IsFirst (items.map key) (key a) := by
  have : Std.Total fun a b => (key a).Le (key b) := ⟨fun a b => Std.Total.total (key a) (key b)⟩
  have : IsTrans α fun a b => (key a).Le (key b) := ⟨fun _ _ _ h h' => IsTrans.trans _ _ _ h h'⟩
  have hsorted := List.pairwise_insertionSort (fun a b => (key a).Le (key b)) items
  have hmem : ∀ b, b ∈ items.insertionSort (fun a b => (key a).Le (key b)) ↔ b ∈ items :=
    fun b => List.mem_insertionSort _
  generalize items.insertionSort (fun a b => (key a).Le (key b)) = sorted at hsorted hmem
  cases sorted with
  | nil =>
      refine iff_of_false (by simp) fun h => ?_
      exact absurd ((hmem a).mpr h.1) List.not_mem_nil
  | cons first rest =>
      have hfirst : TickKey.IsFirst (items.map key) (key first) := by
        refine ⟨List.mem_map_of_mem ((hmem first).mp List.mem_cons_self), ?_⟩
        intro key' hkey'
        obtain ⟨b, hb, rfl⟩ := List.mem_map.mp hkey'
        rcases List.mem_cons.mp ((hmem b).mpr hb) with rfl | hb
        · exact (Std.Total.total (key b) (key b)).elim id id
        · exact (List.pairwise_cons.mp hsorted).1 b hb
      rw [List.head?_cons, Option.some.injEq]
      constructor
      · rintro rfl
        exact ⟨(hmem first).mp List.mem_cons_self, hfirst⟩
      · rintro ⟨ha, hkey⟩
        exact List.inj_on_of_nodup_map hnodup ((hmem first).mp List.mem_cons_self) ha
          (hfirst.unique hkey)

theorem exists_head?_insertionSort {α : Type} {items : List α} {r : α → α → Prop} [DecidableRel r]
    {a : α} (ha : a ∈ items) : ∃ first, (items.insertionSort r).head? = some first := by
  rw [← Option.isSome_iff_exists, List.isSome_head?, ← List.length_pos_iff,
    List.length_insertionSort]
  exact List.length_pos_of_mem ha

/-- The key a tick is stored under. -/
def Tick.key (tick : Tick) : TickKey := tickKey tick.poolId tick.height

namespace ScheduleRepo

variable {repo : ScheduleRepo} {tsNow : ℤ} {key : TickKey} {tick : Tick}

/-! ## The ticks of the schedules -/

/-- A pool has at most one tick, at the height of its schedule. -/
structure Scheduled (repo : ScheduleRepo) : Prop where
  one : ∀ poolId, (repo.tickEntries poolId).length ≤ 1
  height : ∀ poolId, ∀ key ∈ repo.tickEntries poolId, ∃ sc,
    repo.schedules.get poolId = some sc ∧ sc.poolId = poolId ∧
      (sc.nextCompoundingAt : Outcome Unit _) = .ok (some key.height)

/-- The index of the epoch that the tick is about is in the range of the machine integers. -/
def FitsEpoch (repo : ScheduleRepo) (key : TickKey) : Prop :=
  ∀ sc, repo.schedules.get key.poolId = some sc → sc.lastCompletedEpochIx + 1 < 2 ^ 32

/-- Where the epochs of a schedule are not empty, there are fewer of them than heights. -/
theorem fitsEpoch_of_epochLen (h : repo.Scheduled) (hkey : key ∈ repo.tickEntries key.poolId)
    (hlen : ∀ sc, repo.schedules.get key.poolId = some sc → 1 ≤ sc.epochLen) :
    repo.FitsEpoch key := by
  intro sc hsc
  obtain ⟨sc', hsc', -, hnext⟩ := h.height key.poolId key hkey
  obtain rfl := Option.some.inj (hsc.symm.trans hsc')
  obtain ⟨⟨hrange, -⟩, -⟩ := PoolSchedule.nextCompoundingAt_eq_ok.mp hnext
  have hle : sc.lastCompletedEpochIx * 1 ≤ sc.lastCompletedEpochIx * sc.epochLen :=
    Nat.mul_le_mul_left _ (hlen sc hsc)
  have := hlen sc hsc
  omega

/-- The stored schedule of a pool with a tick has that tick, or its epoch does not fit. -/
theorem scheduledTick_of_entry (h : repo.Scheduled) (hkey : key ∈ repo.tickEntries key.poolId) :
    (repo.FitsEpoch key → ∃ tick, repo.scheduledTick key.poolId = .ok (some tick) ∧
      tick.key = key) ∧
    (¬ repo.FitsEpoch key → repo.scheduledTick key.poolId = .crash) := by
  obtain ⟨sc, hsc, hpoolId, hnext⟩ := h.height key.poolId key hkey
  have htick : Tick.tryFrom sc = (do
      let epochIx ← .checkedAdd 32 sc.lastCompletedEpochIx 1
      pure ⟨sc.poolId, epochIx, key.height⟩) := by
    rw [Tick.tryFrom, hnext, Outcome.ok_bind]
  constructor
  · intro hfits
    have hepoch : (.checkedAdd 32 sc.lastCompletedEpochIx 1 : Outcome Unit ℕ) =
        .ok (sc.lastCompletedEpochIx + 1) := Outcome.checkedAdd_eq_ok.mpr ⟨hfits sc hsc, rfl⟩
    refine ⟨⟨sc.poolId, sc.lastCompletedEpochIx + 1, key.height⟩,
      scheduledTick_eq_some.mpr ⟨sc, hsc, ?_⟩, ?_⟩
    · rw [htick, hepoch]
      rfl
    · rw [Tick.key, hpoolId]
      rfl
  · intro hfits
    have hcrash : (.checkedAdd 32 sc.lastCompletedEpochIx 1 : Outcome Unit ℕ) = .crash := by
      by_contra hne
      refine hfits fun sc' hsc' => ?_
      obtain rfl := Option.some.inj (hsc.symm.trans hsc')
      exact Outcome.checkedAdd_ne_crash.mp hne
    rw [scheduledTick, hsc]
    dsimp only
    rw [htick, hcrash]
    rfl

/-! ## The two scans -/

/-- The scan over the pending ticks returns the first. -/
theorem firstTick_eq (h : repo.Scheduled) {keys : List TickKey}
    (hkeys : ∀ key ∈ keys, key ∈ repo.tickEntries key.poolId) :
    ((∀ key, keys.head? = some key → repo.FitsEpoch key) →
      ∃ found, repo.firstTick keys = .ok found ∧ found.map Tick.key = keys.head?) ∧
    ((∃ key, keys.head? = some key ∧ ¬ repo.FitsEpoch key) → repo.firstTick keys = .crash) := by
  cases keys with
  | nil =>
      refine ⟨fun _ => ⟨none, rfl, rfl⟩, ?_⟩
      rintro ⟨key, hkey, -⟩
      cases hkey
  | cons key rest =>
      obtain ⟨hok, hcrash⟩ := scheduledTick_of_entry h (hkeys key List.mem_cons_self)
      constructor
      · intro hfits
        obtain ⟨tick, htick, heq⟩ := hok (hfits key rfl)
        refine ⟨some tick, ?_, by rw [Option.map_some, heq, List.head?_cons]⟩
        rw [firstTick, htick, Outcome.ok_bind]
        rfl
      · rintro ⟨_, ⟨⟩, hfits⟩
        rw [firstTick, hcrash hfits, Outcome.crash_bind]

/-- The scan over the deferred ticks returns the first, or nothing. -/
theorem firstDeferredTick_eq (h : repo.Scheduled) {deferred : List DeferredTick}
    (hkeys : ∀ t ∈ deferred, t.key ∈ repo.tickEntries t.key.poolId) :
    ((∀ t, deferred.head? = some t → t.deferredUntil ≤ tsNow → repo.FitsEpoch t.key) →
      ∃ found, repo.firstDeferredTick tsNow deferred = .ok found ∧ found.map Tick.key =
        (deferred.head?.filter fun t => t.deferredUntil ≤ tsNow).map DeferredTick.key) ∧
    ((∃ t, deferred.head? = some t ∧ t.deferredUntil ≤ tsNow ∧ ¬ repo.FitsEpoch t.key) →
      repo.firstDeferredTick tsNow deferred = .crash) := by
  cases deferred with
  | nil =>
      refine ⟨fun _ => ⟨none, rfl, rfl⟩, ?_⟩
      rintro ⟨t, ht, -⟩
      cases ht
  | cons t rest =>
      obtain ⟨hok, hcrash⟩ := scheduledTick_of_entry h (hkeys t List.mem_cons_self)
      by_cases hdue : t.deferredUntil ≤ tsNow
      case pos =>
        constructor
        · intro hfits
          obtain ⟨tick, htick, heq⟩ := hok (hfits t rfl hdue)
          refine ⟨some tick, ?_, by simp [hdue, heq]⟩
          rw [firstDeferredTick, if_pos hdue, htick, Outcome.ok_bind]
          rfl
        · rintro ⟨_, ⟨⟩, -, hfits⟩
          rw [firstDeferredTick, if_pos hdue, hcrash hfits, Outcome.crash_bind]
      case neg =>
        constructor
        · intro _
          refine ⟨none, ?_, by simp [not_le.mp hdue]⟩
          rw [firstDeferredTick, if_neg hdue]
          rfl
        · rintro ⟨_, ⟨⟩, hdue', -⟩
          exact absurd hdue' hdue

/-! ## The merge -/

/-- The first pending tick. -/
def firstPending (repo : ScheduleRepo) : Option TickKey :=
  (repo.ticks.entries.insertionSort TickKey.Le).head?

/-- The first deferred tick. -/
def firstDeferred (repo : ScheduleRepo) : Option DeferredTick :=
  (repo.deferredTicks.entries.insertionSort fun t t' => t.key.Le t'.key).head?

/-- The first deferred tick, if its time has come. -/
def firstDue (repo : ScheduleRepo) (tsNow : ℤ) : Option TickKey :=
  (repo.firstDeferred.filter fun t => t.deferredUntil ≤ tsNow).map DeferredTick.key

/-- Of two ticks the one of lower height. -/
def lower : Option TickKey → Option TickKey → Option TickKey
  | some key, some key' => if key.height < key'.height then some key else some key'
  | some key, none => some key
  | none, key' => key'

theorem lower_eq_none {pending deferred : Option TickKey} :
    lower pending deferred = none ↔ pending = none ∧ deferred = none := by
  cases pending <;> cases deferred <;> simp [lower]
  split <;> simp

theorem lower_eq_some {pending deferred : Option TickKey} (h : lower pending deferred = some key) :
    (pending = some key ∨ deferred = some key) ∧
      (∀ key', pending = some key' → key.height ≤ key'.height) ∧
      ∀ key', deferred = some key' → key.height ≤ key'.height := by
  have hself : ∀ key', some key = some key' → key.height ≤ key'.height := by
    rintro _ ⟨⟩
    exact le_rfl
  cases pending with
  | none =>
      obtain rfl : deferred = some key := h
      exact ⟨.inr rfl, by simp, hself⟩
  | some key₁ =>
      cases deferred with
      | none =>
          obtain rfl := Option.some.inj h
          exact ⟨.inl rfl, hself, by simp⟩
      | some key₂ =>
          by_cases hlt : key₁.height < key₂.height
          · rw [lower, if_pos hlt] at h
            obtain rfl := Option.some.inj h
            exact ⟨.inl rfl, hself, by simpa using hlt.le⟩
          · rw [lower, if_neg hlt] at h
            obtain rfl := Option.some.inj h
            exact ⟨.inr rfl, by simpa using hlt, hself⟩

theorem firstPending_iff : repo.firstPending = some key ↔ TickKey.IsFirst repo.ticks.keys key := by
  refine (@head?_insertionSort_iff _ _ (fun key => key) repo.ticks.distinct key).trans ?_
  constructor
  · exact fun h => h.2
  · intro h
    refine ⟨?_, h⟩
    have := h.1
    rwa [Table.keys, List.map_id'] at this

theorem firstDeferred_iff {t : DeferredTick} : repo.firstDeferred = some t ↔
    t ∈ repo.deferredTicks.entries ∧ TickKey.IsFirst repo.deferredTicks.keys t.key :=
  head?_insertionSort_iff repo.deferredTicks.distinct

theorem firstDue_eq_some : repo.firstDue tsNow = some key ↔
    ∃ t, repo.firstDeferred = some t ∧ t.deferredUntil ≤ tsNow ∧ t.key = key := by
  simp [firstDue, Option.filter_eq_some_iff, and_assoc]

/-- The ticks that are looked at are in range. -/
structure FitsFirst (repo : ScheduleRepo) (tsNow : ℤ) : Prop where
  pending : ∀ key, TickKey.IsFirst repo.ticks.keys key → repo.FitsEpoch key
  deferred : ∀ t ∈ repo.deferredTicks.entries, TickKey.IsFirst repo.deferredTicks.keys t.key →
    t.deferredUntil ≤ tsNow → repo.FitsEpoch t.key

theorem pending_mem (h : key ∈ repo.ticks.entries.insertionSort TickKey.Le) :
    key ∈ repo.tickEntries key.poolId := by
  refine mem_tickEntries.mpr ⟨.inl ?_, rfl⟩
  rw [Table.keys, List.map_id']
  exact (List.mem_insertionSort _).mp h

theorem deferred_mem {t : DeferredTick}
    (h : t ∈ repo.deferredTicks.entries.insertionSort fun t t' => t.key.Le t'.key) :
    t.key ∈ repo.tickEntries t.key.poolId :=
  mem_tickEntries.mpr ⟨.inr (List.mem_map_of_mem ((List.mem_insertionSort _).mp h)), rfl⟩

theorem peek_of_fits (h : repo.Scheduled) (hfits : repo.FitsFirst tsNow) :
    ∃ found, repo.peek tsNow = .ok found ∧
      found.map Tick.key = lower repo.firstPending (repo.firstDue tsNow) := by
  obtain ⟨pending, hpending, hpendingKey⟩ := (firstTick_eq h fun key => pending_mem).1
    fun key hkey => hfits.pending key (firstPending_iff.mp hkey)
  obtain ⟨deferred, hdeferred, hdeferredKey⟩ := (firstDeferredTick_eq h fun t => deferred_mem).1
    fun t ht => hfits.deferred t (firstDeferred_iff.mp ht).1 (firstDeferred_iff.mp ht).2
  change _ = repo.firstPending at hpendingKey
  change _ = repo.firstDue tsNow at hdeferredKey
  rw [peek, hpending, Outcome.ok_bind, hdeferred, Outcome.ok_bind, ← hpendingKey, ← hdeferredKey]
  cases pending with
  | none =>
      cases deferred with
      | none => exact ⟨none, rfl, rfl⟩
      | some tick => exact ⟨some tick, rfl, rfl⟩
  | some tick =>
      cases deferred with
      | none => exact ⟨some tick, rfl, rfl⟩
      | some tick' =>
          by_cases hlt : tick.height < tick'.height
          · exact ⟨some tick, if_pos hlt, (if_pos hlt).symm⟩
          · exact ⟨some tick', if_neg hlt, (if_neg hlt).symm⟩

theorem peek_crash (h : repo.Scheduled) (hfits : ¬ repo.FitsFirst tsNow) :
    repo.peek tsNow = .crash := by
  obtain ⟨hpendingOk, hpendingCrash⟩ := firstTick_eq h fun key => pending_mem
  obtain ⟨-, hdeferredCrash⟩ := @firstDeferredTick_eq repo tsNow h _ fun t => deferred_mem
  by_cases hpending : ∃ key, repo.firstPending = some key ∧ ¬ repo.FitsEpoch key
  case pos => rw [peek, hpendingCrash hpending, Outcome.crash_bind]
  case neg =>
    have hfitsPending : ∀ key, repo.firstPending = some key → repo.FitsEpoch key :=
      fun key hkey => by_contra fun hnot => hpending ⟨key, hkey, hnot⟩
    have hdeferred : ∃ t, repo.firstDeferred = some t ∧ t.deferredUntil ≤ tsNow ∧
        ¬ repo.FitsEpoch t.key := by
      by_contra hnone
      refine hfits ⟨fun key hkey => hfitsPending key (firstPending_iff.mpr hkey), ?_⟩
      intro t ht hfirst hdue
      exact by_contra fun hnot => hnone ⟨t, firstDeferred_iff.mpr ⟨ht, hfirst⟩, hdue, hnot⟩
    obtain ⟨found, hfound, -⟩ := hpendingOk hfitsPending
    rw [peek, hfound, Outcome.ok_bind, hdeferredCrash hdeferred, Outcome.crash_bind]

/-! ## The lowest tick -/

/-- The ticks that can be tried: the pending ones, and the deferred ones whose time has come. -/
def liveKeys (repo : ScheduleRepo) (tsNow : ℤ) : List TickKey :=
  repo.ticks.keys ++
    (repo.deferredTicks.entries.filter fun t => t.deferredUntil ≤ tsNow).map DeferredTick.key

theorem mem_liveKeys : key ∈ repo.liveKeys tsNow ↔ key ∈ repo.ticks.keys ∨
    ∃ t ∈ repo.deferredTicks.entries, t.deferredUntil ≤ tsNow ∧ t.key = key := by
  simp [liveKeys, and_assoc]

/-- What is peeked is one of the lowest ticks that can be tried, and nothing only if there is
none. -/
structure PeeksLowest (repo : ScheduleRepo) (tsNow : ℤ) : Prop where
  total : ∃ found, repo.peek tsNow = .ok found
  lowest : ∀ tick, repo.peek tsNow = .ok (some tick) → tick.key ∈ repo.liveKeys tsNow ∧
    ∀ key ∈ repo.liveKeys tsNow, tick.height ≤ key.height
  nothing : repo.peek tsNow = .ok none → repo.liveKeys tsNow = []

/-- The epochs of the ticks that are looked at are in range; and if the time has come for a deferred
tick that is lower than all pending ones, then it has come for the first of the deferred ticks. -/
structure Unhidden (repo : ScheduleRepo) (tsNow : ℤ) : Prop where
  fits : repo.FitsFirst tsNow
  due : ∀ t ∈ repo.deferredTicks.entries, t.deferredUntil ≤ tsNow →
    (∀ key ∈ repo.ticks.keys, t.key.height < key.height) →
    ∃ first ∈ repo.deferredTicks.entries, TickKey.IsFirst repo.deferredTicks.keys first.key ∧
      first.deferredUntil ≤ tsNow

theorem exists_firstPending (h : key ∈ repo.ticks.keys) :
    ∃ first, repo.firstPending = some first ∧ first.height ≤ key.height := by
  have hmem : key ∈ repo.ticks.entries := by rwa [Table.keys, List.map_id'] at h
  obtain ⟨first, hfirst⟩ := exists_head?_insertionSort (r := TickKey.Le) hmem
  exact ⟨first, hfirst, ((firstPending_iff.mp hfirst).2 key h).height_le⟩

/-- What is peeked can be tried. -/
theorem lower_mem (h : lower repo.firstPending (repo.firstDue tsNow) = some key) :
    key ∈ repo.liveKeys tsNow := by
  rcases (lower_eq_some h).1 with hpending | hdeferred
  · exact mem_liveKeys.mpr (.inl (firstPending_iff.mp hpending).1)
  · obtain ⟨t, ht, hdue, hkey⟩ := firstDue_eq_some.mp hdeferred
    exact mem_liveKeys.mpr (.inr ⟨t, (firstDeferred_iff.mp ht).1, hdue, hkey⟩)

/-- Nothing that can be tried is lower than what comes first, if no due tick is hidden. -/
theorem exists_first_le (h : repo.Unhidden tsNow) {key' : TickKey}
    (hkey' : key' ∈ repo.liveKeys tsNow) :
    ∃ first, (repo.firstPending = some first ∨ repo.firstDue tsNow = some first) ∧
      first.height ≤ key'.height := by
  rcases mem_liveKeys.mp hkey' with hpending | ⟨t, ht, hdue, rfl⟩
  · obtain ⟨first, hfirst, hle⟩ := exists_firstPending hpending
    exact ⟨first, .inl hfirst, hle⟩
  · by_cases hlower : ∃ key ∈ repo.ticks.keys, key.height ≤ t.key.height
    case pos =>
      obtain ⟨key, hkey, hle⟩ := hlower
      obtain ⟨first, hfirst, hle'⟩ := exists_firstPending hkey
      exact ⟨first, .inl hfirst, hle'.trans hle⟩
    case neg =>
      have hbelow : ∀ key ∈ repo.ticks.keys, t.key.height < key.height :=
        fun key hkey => not_le.mp fun hle => hlower ⟨key, hkey, hle⟩
      obtain ⟨first, hmem, hfirst, hdue'⟩ := h.due t ht hdue hbelow
      refine ⟨first.key, .inr (firstDue_eq_some.mpr
        ⟨first, firstDeferred_iff.mpr ⟨hmem, hfirst⟩, hdue', rfl⟩), ?_⟩
      exact (hfirst.2 t.key (List.mem_map_of_mem ht)).height_le

/-- A due tick that is lower than all pending ones is hidden by a deferred tick of a smaller key,
whose time has not come. -/
theorem due_of_peeksLowest (hscheduled : repo.Scheduled) (hfits : repo.FitsFirst tsNow)
    (h : repo.PeeksLowest tsNow) {t : DeferredTick} (ht : t ∈ repo.deferredTicks.entries)
    (hdue : t.deferredUntil ≤ tsNow) (hbelow : ∀ key ∈ repo.ticks.keys, t.key.height < key.height) :
    ∃ first ∈ repo.deferredTicks.entries, TickKey.IsFirst repo.deferredTicks.keys first.key ∧
      first.deferredUntil ≤ tsNow := by
  obtain ⟨first, hfirst⟩ :
      ∃ first, repo.firstDeferred = some first := exists_head?_insertionSort ht
  obtain ⟨hmem, hisFirst⟩ := firstDeferred_iff.mp hfirst
  refine ⟨first, hmem, hisFirst, ?_⟩
  by_contra hnotDue
  have hnone : repo.firstDue tsNow = none := by simp [firstDue, hfirst, not_le.mp hnotDue]
  have hlive : t.key ∈ repo.liveKeys tsNow := mem_liveKeys.mpr (.inr ⟨t, ht, hdue, rfl⟩)
  obtain ⟨found, hfound, hkey⟩ := peek_of_fits hscheduled hfits
  cases found with
  | none =>
      rw [h.nothing hfound] at hlive
      exact absurd hlive List.not_mem_nil
  | some tick =>
      have hle := (h.lowest tick hfound).2 t.key hlive
      rcases (lower_eq_some hkey.symm).1 with hpending | hdeferred
      · have hlt : t.key.height < tick.height := hbelow tick.key (firstPending_iff.mp hpending).1
        omega
      · cases hnone.symm.trans hdeferred

theorem peeksLowest_iff (repo : ScheduleRepo) (tsNow : ℤ) (hscheduled : repo.Scheduled) :
    repo.PeeksLowest tsNow ↔ repo.Unhidden tsNow := by
  constructor
  · intro h
    have hfits : repo.FitsFirst tsNow := by
      by_contra hnot
      obtain ⟨found, hfound⟩ := h.total
      cases (peek_crash hscheduled hnot).symm.trans hfound
    exact ⟨hfits, fun t ht hdue hbelow => due_of_peeksLowest hscheduled hfits h ht hdue hbelow⟩
  · intro h
    obtain ⟨found, hfound, hkey⟩ := peek_of_fits hscheduled h.fits
    refine ⟨⟨found, hfound⟩, ?_, ?_⟩
    · intro tick htick
      obtain rfl := Outcome.ok.inj (hfound.symm.trans htick)
      refine ⟨lower_mem hkey.symm, fun key' hkey' => ?_⟩
      obtain ⟨-, hpending, hdeferred⟩ := lower_eq_some hkey.symm
      obtain ⟨first, hfirst | hfirst, hle⟩ := exists_first_le h hkey'
      · exact (hpending first hfirst).trans hle
      · exact (hdeferred first hfirst).trans hle
    · intro hnothing
      obtain rfl := Outcome.ok.inj (hfound.symm.trans hnothing)
      obtain ⟨hpending, hdeferred⟩ := lower_eq_none.mp hkey.symm
      apply List.eq_nil_iff_forall_not_mem.mpr
      intro key' hkey'
      obtain ⟨first, hfirst | hfirst, -⟩ := exists_first_le h hkey'
      · cases hpending.symm.trans hfirst
      · cases hdeferred.symm.trans hfirst

end ScheduleRepo

namespace Scheduler

open Transition

/-! ## The states of runs -/

/-- A tick that was scheduled has a schedule whose epochs are not empty. -/
theorem DistributionSystem.scheduled_of_oneLiveTick {s : DistributionSystem} (hwf : s.WellFormed)
    (h : s.OneLiveTick) : s.repo.Scheduled ∧ ∀ tsNow, s.repo.FitsFirst tsNow := by
  have hscheduled : s.repo.Scheduled := by
    refine ⟨h.one, fun poolId key hkey => ?_⟩
    obtain ⟨sc, hsc, hnext⟩ := h.height poolId key hkey
    exact ⟨sc, hsc, hwf.schedules poolId sc hsc, hnext⟩
  have hfits : ∀ key ∈ s.repo.tickEntries key.poolId, s.repo.FitsEpoch key := by
    intro key hkey
    refine ScheduleRepo.fitsEpoch_of_epochLen hscheduled hkey fun sc hsc => ?_
    obtain ⟨last, hlast, hlen⟩ := hwf.entries key.poolId key hkey
    obtain rfl := Option.some.inj (hlast.symm.trans ((h.stored key.poolId sc).mp hsc).1)
    exact hlen
  refine ⟨hscheduled, fun tsNow => ⟨fun key hkey => hfits key ?_, fun t ht _ _ => hfits t.key ?_⟩⟩
  · exact ScheduleRepo.mem_tickEntries.mpr ⟨.inl hkey.1, rfl⟩
  · exact ScheduleRepo.mem_tickEntries.mpr ⟨.inr (List.mem_map_of_mem ht), rfl⟩

/-- As long as every tick that is deferred is still that of the stored schedule, there is nothing
but the order of the deferred ticks that can go wrong. -/
theorem DistributionSystem.scheduled_of_run {labels : List Label} {s : DistributionSystem}
    (hrun : Run (restrict Step Current) initial labels s) :
    s.repo.Scheduled ∧ ∀ tsNow, s.repo.FitsFirst tsNow := by
  have hinv : s.WellFormed ∧ s.OneLiveTick := by
    refine hrun.invariant (I := fun s => s.WellFormed ∧ s.OneLiveTick) ?_
      ⟨wellFormed_initial, oneLiveTick_initial⟩
    rintro s l t ⟨hwf, h⟩ ⟨hstep, hcurrent⟩
    exact ⟨wellFormed_step hwf hstep, (oneLiveTick_iff_current hwf h hstep).mpr hcurrent⟩
  exact scheduled_of_oneLiveTick hinv.1 hinv.2

/-! ## A tick that is hidden -/

namespace Distribution.Sample

def otherPoolId : PoolId := ⟨⟨List.replicate 32 2, List.length_replicate⟩⟩

/-- Fifteen epochs of fifteen blocks. -/
def otherSchedule : PoolSchedule := ⟨otherPoolId, 15, 15, 110, 0⟩

/-- Both pools are scheduled. -/
def bothScheduled : DistributionSystem where
  repo := scheduled.repo.write otherSchedule 125 140
  last := scheduled.last.put otherPoolId otherSchedule
  stage := .idle

/-- The tick of the first pool is deferred. -/
def oneDeferred : DistributionSystem :=
  { bothScheduled with repo := bothScheduled.repo.defer tick 1800 }

/-- The tick of the other pool, which is higher, is deferred by less. -/
def bothDeferred : DistributionSystem :=
  { oneDeferred with repo := oneDeferred.repo.defer ⟨otherPoolId, 1, 125⟩ 600 }

theorem run_bothDeferred : Run (restrict DistributionSystem.Step DistributionSystem.Current)
    DistributionSystem.initial [.update (schedule 0), .update otherSchedule, .peek 0, .defer 1800,
      .peek 0, .defer 600] bothDeferred := by
  refine Run.cons (t := scheduled) ⟨.update (by simp [DistributionSystem.initial]) ?_ rfl,
    trivial⟩ ?_
  · intro old h
    cases h
  refine Run.cons (t := bothScheduled) ⟨.update (by simp [scheduled]) ?_ rfl, trivial⟩ ?_
  · intro old h
    cases h
  refine Run.cons (t := { bothScheduled with stage := .peeked tick }) ⟨.peek rfl rfl, trivial⟩ ?_
  refine Run.cons (t := oneDeferred) ⟨.defer rfl, ?_⟩ ?_
  · rintro _ ⟨⟩
    exact ⟨_, rfl, rfl⟩
  refine Run.cons (t := { oneDeferred with stage := .peeked ⟨otherPoolId, 1, 125⟩ })
    ⟨.peek rfl rfl, trivial⟩ (.single ⟨.defer rfl, ?_⟩)
  rintro _ ⟨⟩
  exact ⟨_, rfl, rfl⟩

end Distribution.Sample

open Distribution.Sample in
/-- The time has come for the tick of the other pool, but nothing is peeked. -/
theorem due_tick_hidden :
    Run (restrict DistributionSystem.Step DistributionSystem.Current) DistributionSystem.initial
        [.update (schedule 0), .update otherSchedule, .peek 0, .defer 1800, .peek 0, .defer 600]
        bothDeferred ∧
      bothDeferred.repo.Scheduled ∧ bothDeferred.repo.peek 700 = .ok none ∧
      ¬ bothDeferred.repo.PeeksLowest 700 := by
  have hpeek : bothDeferred.repo.peek 700 = .ok none := rfl
  refine ⟨run_bothDeferred, (DistributionSystem.scheduled_of_run run_bothDeferred).1, hpeek, ?_⟩
  intro h
  exact absurd (h.nothing hpeek) (by decide)

open Distribution.Sample in
theorem peeksLowest_iff_bothDeferred :
    bothDeferred.repo.PeeksLowest 700 ↔ bothDeferred.repo.Unhidden 700 :=
  ScheduleRepo.peeksLowest_iff bothDeferred.repo 700
    (DistributionSystem.scheduled_of_run run_bothDeferred).1

end Scheduler

end SpectrumOffchain
