import SpectrumOffchain.Scheduler.Keys
import SpectrumOffchain.Scheduler.Peek

/-!
# What the database of the schedules represents

`ScheduleRepo` has a store for the schedules and a table for each kind of ticks, and
`ScheduleRepoRocksDB` has one database with keys and values as bytes.  As long as all numbers are in
the range of their types, distinct entries have distinct keys, and each operation does to the
database what it does to the stores (`Represents.updateSchedule` and its siblings).

`peek` reads the ticks of a kind in the order of their bytes.  This is the order of heights and
pools (`Represents.scan_ticks`), and what it reads for each tick is the schedule of its pool, so
that `peek` on bytes finds the tick that it finds in the stores (`Represents.peek`), after any
number of calls (`peeks_of_calls`).

## Strategy

`ScheduleRepo.lookup` is the table of all that the stores hold, by key and in bytes, and
`Represents` says that the database is this table under the keys as bytes.  Two things are
asked of the keys: distinct ones are distinct as bytes (`bytes_injective`), for reads and
writes, and they are in one order (`bytes_le_of_le`), for the scans.  Both need the heights
to fit 32 bits, as four bytes are written of them.

A scan of the database returns the entries with a prefix, sorted by their bytes.
`scan_eq_insertionSort` turns this into the sorted list of the ticks of the repository,
which is what its own `peek` goes through.
-/

namespace SpectrumOffchain

/-! ## Values -/

/-- The numbers of a schedule are `u32`. -/
structure PoolSchedule.Fits (sc : PoolSchedule) : Prop where
  epochLen : sc.epochLen < 2 ^ 32
  epochNum : sc.epochNum < 2 ^ 32
  programStart : sc.programStart < 2 ^ 32
  lastCompletedEpochIx : sc.lastCompletedEpochIx < 2 ^ 32

/-- The range of `i64`. -/
def FitsI64 (n : ℤ) : Prop := -2 ^ 63 ≤ n ∧ n < 2 ^ 63

namespace ScheduleRepoRocksDB

/-- `bincode::deserialize::<PoolSchedule>`. -/
def deserializeSchedule (bytes : Bytes) : Option PoolSchedule := do
  let poolId ← PoolId.deserialize bytes
  let epochLen ← Bincode.takeUint 4 (bytes.drop 32)
  let epochNum ← Bincode.takeUint 4 epochLen.2
  let programStart ← Bincode.takeUint 4 epochNum.2
  let lastCompletedEpochIx ← Bincode.takeUint 4 programStart.2
  some ⟨poolId, epochLen.1, epochNum.1, programStart.1, lastCompletedEpochIx.1⟩

/-- `bincode::deserialize::<i64>`. -/
def deserializeUntil (bytes : Bytes) : Option ℤ :=
  (Bincode.takeUint 8 bytes).map fun bits =>
    if bits.1 < 2 ^ 63 then (bits.1 : ℤ) else bits.1 - 2 ^ 64

theorem deserializeSchedule_serializeSchedule {schedule : PoolSchedule} (h : schedule.Fits) :
    deserializeSchedule (serializeSchedule schedule) = some schedule := by
  have hpool : PoolId.deserialize (serializeSchedule schedule) = some schedule.poolId := by
    rw [serializeSchedule, List.append_assoc, List.append_assoc, List.append_assoc,
      PoolId.deserialize]
    exact Option.map_eq_some_iff.mpr ⟨_, schedule.poolId.tokenId.deserialize_append _, rfl⟩
  have hdrop : (serializeSchedule schedule).drop 32 = Bincode.uint 4 schedule.epochLen ++
      (Bincode.uint 4 schedule.epochNum ++ (Bincode.uint 4 schedule.programStart ++
        (Bincode.uint 4 schedule.lastCompletedEpochIx ++ []))) := by
    rw [serializeSchedule, List.append_assoc, List.append_assoc, List.append_assoc,
      List.drop_left' (length_serialize_poolId _), List.append_nil]
  rw [deserializeSchedule, hpool, hdrop]
  simp only [Option.bind_eq_bind, Option.bind_some, takeUint_u32 h.epochLen,
    takeUint_u32 h.epochNum, takeUint_u32 h.programStart, takeUint_u32 h.lastCompletedEpochIx]

theorem deserializeUntil_serializeUntil {deferredUntil : ℤ} (h : FitsI64 deferredUntil) :
    deserializeUntil (serializeUntil deferredUntil) = some deferredUntil := by
  obtain ⟨hlow, hhigh⟩ := h
  have hbits : (deferredUntil % 2 ^ 64).toNat < 256 ^ 8 := by omega
  rw [deserializeUntil, serializeUntil, ← List.append_nil (Bincode.uint 8 _),
    Bincode.takeUint_append hbits, Option.map_some]
  congr 1
  dsimp only
  split <;> omega

/-! ## `peek` on bytes -/

/-- The tick of the schedule that is read for a pool. -/
def scheduledTick (db : ScheduleRepoRocksDB) (poolId : PoolId) : Outcome Unit (Option Tick) :=
  match (db.read (prefixedKey schedulePrefix poolId)).bind deserializeSchedule with
  | some sc =>
      match Tick.tryFrom sc with
      | .ok tick => .ok (some tick)
      | .err _ => .ok none
      | .crash => .crash
  | none => .ok none

/-- The first of the pending ticks with a schedule. -/
def firstTick (db : ScheduleRepoRocksDB) : List (Bytes × Bytes) → Outcome Unit (Option Tick)
  | [] => pure none
  | (bs, _) :: rest => do
      let tick ← match destructureTickKey bs with
        | some pid => db.scheduledTick pid
        | none => pure none
      match tick with
      | some tick => pure (some tick)
      | none => db.firstTick rest

/-- The first of the deferred ticks, up to the first whose time has not come. -/
def firstDeferredTick (db : ScheduleRepoRocksDB) (tsNow : ℤ) :
    List (Bytes × Bytes) → Outcome Unit (Option Tick)
  | [] => pure none
  | (bs, deferredUntil) :: rest =>
      match deserializeUntil deferredUntil with
      | some deferredUntil =>
          if deferredUntil ≤ tsNow then do
            let tick ← match destructureDeferredTickKey bs with
              | some pid => db.scheduledTick pid
              | none => pure none
            match tick with
            | some tick => pure (some tick)
            | none => db.firstDeferredTick tsNow rest
          else pure none
      | none => db.firstDeferredTick tsNow rest

def peek (db : ScheduleRepoRocksDB) (tsNow : ℤ) : Outcome Unit (Option Tick) := do
  let tick ← db.firstTick (db.scan (Bincode.str ticksPrefix))
  let deferredTick ← db.firstDeferredTick tsNow (db.scan (Bincode.str deferredTicksPrefix))
  -- the one with the lowest height
  match tick, deferredTick with
  | some tick, none => pure (some tick)
  | none, some tick => pure (some tick)
  | some pendingTick, some deferredTick =>
      if pendingTick.height < deferredTick.height then pure (some pendingTick)
      else pure (some deferredTick)
  | none, none => pure none

end ScheduleRepoRocksDB

/-! ## Keys in range -/

namespace ScheduleKey

/-- The height of a tick is a `u32`. -/
def FitsHeight : ScheduleKey → Prop
  | schedule _ => True
  | tick key => key.height < 2 ^ 32
  | deferredTick key => key.height < 2 ^ 32

theorem tickKey_injective {pfx : String} {k k' : TickKey} (hk : k.height < 2 ^ 32)
    (hk' : k'.height < 2 ^ 32) (h : ScheduleRepoRocksDB.tickKey pfx k.poolId k.height =
      ScheduleRepoRocksDB.tickKey pfx k'.poolId k'.height) : k = k' := by
  obtain ⟨hheight, hpool⟩ := List.append_inj (List.append_cancel_left h) (by simp)
  obtain ⟨height, poolId⟩ := k
  cases Bincode.uint_injective hk hk' (List.reverse_injective hheight)
  cases PoolId.serialize_injective hpool
  rfl

/-- Distinct keys in range are distinct as bytes. -/
theorem bytes_injective (key key' : ScheduleKey) (hkey : key.FitsHeight) (hkey' : key'.FitsHeight)
    (h : key.bytes = key'.bytes) : key = key' := by
  have hkind : key'.kind = key.kind := by
    rw [← pfx_prefix_iff, ← h]
    exact key.pfx_prefix_iff.mpr rfl
  cases key <;> cases key' <;> cases hkind
  case schedule.schedule.refl =>
    exact congrArg schedule (PoolId.serialize_injective (List.append_cancel_left h))
  case tick.tick.refl => exact congrArg tick (tickKey_injective hkey hkey' h)
  case deferredTick.deferredTick.refl =>
    exact congrArg deferredTick (tickKey_injective hkey hkey' h)

/-- The order of the bytes is that of the ticks. -/
theorem bytes_le_of_le {k k' : TickKey} (hk : k.height < 2 ^ 32) (hk' : k'.height < 2 ^ 32)
    (h : k.Le k') (pfx : String) : ScheduleRepoRocksDB.tickKey pfx k.poolId k.height ≤
      ScheduleRepoRocksDB.tickKey pfx k'.poolId k'.height := by
  rw [← List.not_lt, ScheduleRepoRocksDB.tickKey_lt_iff hk' hk]
  rintro (hlt | ⟨heq, hlt⟩)
  · exact absurd h.height_le (Nat.not_le.mpr hlt)
  · rcases h with hlt' | ⟨-, hle⟩
    · omega
    · exact List.not_lt.mpr hle hlt

end ScheduleKey

/-! ## What is represented -/

/-- What the repository has under a key. -/
def ScheduleRepo.lookup (repo : ScheduleRepo) : ScheduleKey → Option Bytes
  | .schedule poolId => (repo.schedules.get poolId).map ScheduleRepoRocksDB.serializeSchedule
  | .tick key => if key ∈ repo.ticks.keys then some [] else none
  | .deferredTick key => (repo.deferredTicks.get key).map fun tick =>
      ScheduleRepoRocksDB.serializeUntil tick.deferredUntil

namespace ScheduleRepo

variable (repo : ScheduleRepo)

theorem lookup_write (sc : PoolSchedule) (nextHeight afterNextHeight : ℕ) :
    (repo.write sc nextHeight afterNextHeight).lookup =
      Function.update (Function.update (Function.update (Function.update (Function.update
        (Function.update repo.lookup
          (.schedule sc.poolId) (some (ScheduleRepoRocksDB.serializeSchedule sc)))
          (.tick (tickKey sc.poolId nextHeight)) (some []))
          (.tick (tickKey sc.poolId (nextHeight - sc.epochLen))) none)
          (.tick (tickKey sc.poolId afterNextHeight)) none)
          (.deferredTick (tickKey sc.poolId (nextHeight - sc.epochLen))) none)
          (.deferredTick (tickKey sc.poolId afterNextHeight)) none := by
  funext key
  cases key with
  | schedule poolId => simp [Function.update_apply, lookup, write, Store.map_get_put]
  | tick key =>
      simp only [Function.update_apply, lookup, mem_ticks_write, ScheduleKey.tick.injEq,
        reduceCtorEq, if_false]
      split_ifs <;> tauto
  | deferredTick key =>
      simp only [Function.update_apply, lookup, write, Table.get_remove,
        ScheduleKey.deferredTick.injEq, reduceCtorEq, if_false]
      split_ifs <;> rfl

theorem lookup_remove (tick : Tick) : (repo.remove tick).lookup =
    Function.update repo.lookup (.deferredTick (tickKey tick.poolId tick.height)) none := by
  funext key
  cases key with
  | deferredTick key =>
      simp only [Function.update_apply, lookup, remove, Table.get_remove,
        ScheduleKey.deferredTick.injEq]
      split_ifs <;> rfl
  | _ => rfl

theorem lookup_defer (tick : Tick) (deferredUntil : ℤ) : (repo.defer tick deferredUntil).lookup =
    Function.update (Function.update repo.lookup
      (.tick (tickKey tick.poolId tick.height)) none)
      (.deferredTick (tickKey tick.poolId tick.height))
        (some (ScheduleRepoRocksDB.serializeUntil deferredUntil)) := by
  funext key
  cases key with
  | schedule poolId => rfl
  | tick key =>
      simp only [Function.update_apply, lookup, defer, Table.mem_keys_remove,
        ScheduleKey.tick.injEq, reduceCtorEq, if_false]
      split_ifs <;> tauto
  | deferredTick key =>
      simp only [Function.update_apply, lookup, defer, Table.get_put,
        ScheduleKey.deferredTick.injEq, reduceCtorEq, if_false]
      split_ifs <;> rfl

theorem lookup_clean (poolId : PoolId) (key : ScheduleKey) :
    (repo.clean poolId).lookup key = if key.poolId = poolId then none else repo.lookup key := by
  cases key with
  | schedule poolId' => exact Store.map_get_delete
  | tick key =>
      by_cases hpool : key.poolId = poolId <;>
        simp [lookup, clean, Table.mem_keys_removeAll, ScheduleKey.poolId, hpool]
  | deferredTick key =>
      by_cases hpool : key.poolId = poolId <;>
        simp [lookup, clean, Table.get_removeAll, ScheduleKey.poolId, hpool]

end ScheduleRepo

/-- All numbers of the repository are in the range of their types. -/
structure ScheduleRepo.Fits (repo : ScheduleRepo) : Prop where
  schedules : ∀ poolId sc, repo.schedules.get poolId = some sc → sc.Fits
  ticks : ∀ key ∈ repo.ticks.keys, key.height < 2 ^ 32
  deferredTicks : ∀ tick ∈ repo.deferredTicks.entries,
    tick.key.height < 2 ^ 32 ∧ FitsI64 tick.deferredUntil

namespace ScheduleRepoRocksDB

/-- Under each key the database has what the repository has, and it has no other keys. -/
structure Represents (repo : ScheduleRepo) (db : ScheduleRepoRocksDB) : Prop where
  encodes : Database.Encodes ScheduleKey.bytes ScheduleKey.FitsHeight repo.lookup db
  keyed : ∀ bytes ∈ db.keys, ∃ key : ScheduleKey, key.FitsHeight ∧ key.bytes = bytes
  fits : repo.Fits

theorem represents_empty : Represents .empty .empty where
  encodes := by
    intro key _
    cases key <;> rfl
  keyed _ hmem := absurd hmem List.not_mem_nil
  fits := by
    refine ⟨?_, ?_, ?_⟩
    · intro poolId sc h
      cases h
    · exact fun key hmem => absurd hmem List.not_mem_nil
    · exact fun tick hmem => absurd hmem List.not_mem_nil

/-! ## The operations -/

variable {repo repo' : ScheduleRepo} {db : ScheduleRepoRocksDB}

theorem Represents.remove (h : Represents repo db) {tick : Tick} (htick : tick.height < 2 ^ 32) :
    Represents (repo.remove tick) (db.remove tick) where
  encodes := by
    rw [ScheduleRepo.lookup_remove]
    exact h.encodes.delete ScheduleKey.bytes_injective (.deferredTick _) htick
  keyed _ hmem := h.keyed _ (Table.mem_keys_remove.mp hmem).1
  fits := ⟨h.fits.schedules, h.fits.ticks, fun _ hmem =>
    h.fits.deferredTicks _ (Table.mem_entries_remove.mp hmem).1⟩

theorem Represents.defer (h : Represents repo db) {tick : Tick} {deferredUntil : ℤ}
    (htick : tick.height < 2 ^ 32) (huntil : FitsI64 deferredUntil) :
    Represents (repo.defer tick deferredUntil) (db.defer tick deferredUntil) where
  encodes := by
    rw [ScheduleRepo.lookup_defer]
    have hpending := h.encodes.delete ScheduleKey.bytes_injective
      (.tick (SpectrumOffchain.tickKey tick.poolId tick.height)) htick
    exact hpending.write ScheduleKey.bytes_injective
      (.deferredTick (SpectrumOffchain.tickKey tick.poolId tick.height)) htick _
  keyed bytes hmem := by
    rcases Table.mem_keys_put.mp hmem with rfl | hmem
    · exact ⟨.deferredTick ⟨tick.height, tick.poolId⟩, htick, rfl⟩
    · exact h.keyed _ (Table.mem_keys_remove.mp hmem).1
  fits := by
    refine ⟨h.fits.schedules, fun key hmem => h.fits.ticks _ (Table.mem_keys_remove.mp hmem).1, ?_⟩
    intro deferred hmem
    rcases List.mem_cons.mp hmem with rfl | hmem
    · exact ⟨htick, huntil⟩
    · exact h.fits.deferredTicks _ (Table.mem_entries_remove.mp hmem).1

theorem Represents.clean (h : Represents repo db) (poolId : PoolId) :
    Represents (repo.clean poolId) (db.clean poolId) where
  encodes := by
    intro key hkey
    rw [ScheduleRepo.lookup_clean, read_clean_bytes, h.encodes key hkey]
  keyed bytes hmem := by
    obtain ⟨value, hread⟩ := Database.mem_keys.mp hmem
    rw [read_clean] at hread
    split at hread
    · cases hread
    · exact h.keyed _ (Database.mem_keys.mpr ⟨value, hread⟩)
  fits := by
    refine ⟨?_, ?_, ?_⟩
    · exact Store.forall_get_delete h.fits.schedules
    · intro key hmem
      exact h.fits.ticks key (Table.mem_keys_removeAll.mp hmem).1
    · intro deferred hmem
      exact h.fits.deferredTicks deferred (List.mem_filter.mp hmem).1

theorem Represents.write (h : Represents repo db) {sc : PoolSchedule} (hsc : sc.Fits)
    {nextHeight afterNextHeight : ℕ} (hnext : nextHeight < 2 ^ 32)
    (hafter : afterNextHeight < 2 ^ 32) :
    Represents (repo.write sc nextHeight afterNextHeight)
      (db.writeSchedule sc nextHeight afterNextHeight) where
  encodes := by
    have hprev : nextHeight - sc.epochLen < 2 ^ 32 := Nat.lt_of_le_of_lt (Nat.sub_le _ _) hnext
    rw [ScheduleRepo.lookup_write]
    have hschedule := h.encodes.write ScheduleKey.bytes_injective (.schedule sc.poolId) trivial
      (serializeSchedule sc)
    have htick := hschedule.write ScheduleKey.bytes_injective
      (.tick (SpectrumOffchain.tickKey sc.poolId nextHeight)) hnext []
    have hprevTick := htick.delete ScheduleKey.bytes_injective
      (.tick (SpectrumOffchain.tickKey sc.poolId (nextHeight - sc.epochLen))) hprev
    have hafterTick := hprevTick.delete ScheduleKey.bytes_injective
      (.tick (SpectrumOffchain.tickKey sc.poolId afterNextHeight)) hafter
    have hprevDeferred := hafterTick.delete ScheduleKey.bytes_injective
      (.deferredTick (SpectrumOffchain.tickKey sc.poolId (nextHeight - sc.epochLen))) hprev
    exact hprevDeferred.delete ScheduleKey.bytes_injective
      (.deferredTick (SpectrumOffchain.tickKey sc.poolId afterNextHeight)) hafter
  keyed bytes hmem := by
    have hwritten := (Table.mem_keys_remove.mp (Table.mem_keys_remove.mp (Table.mem_keys_remove.mp
      (Table.mem_keys_remove.mp hmem).1).1).1).1
    rcases Table.mem_keys_put.mp hwritten with rfl | hwritten
    · exact ⟨.tick ⟨nextHeight, sc.poolId⟩, hnext, rfl⟩
    · rcases Table.mem_keys_put.mp hwritten with rfl | hold
      · exact ⟨.schedule sc.poolId, trivial, rfl⟩
      · exact h.keyed bytes hold
  fits := by
    refine ⟨?_, ?_, ?_⟩
    · exact Store.forall_get_put hsc h.fits.schedules
    · intro key hmem
      rcases (ScheduleRepo.mem_ticks_write.mp hmem).1.1 with rfl | hold
      · exact hnext
      · exact h.fits.ticks key hold
    · intro deferred hmem
      exact h.fits.deferredTicks deferred
        (Table.mem_entries_remove.mp (Table.mem_entries_remove.mp hmem).1).1

theorem Represents.read_tick (h : Represents repo db) {key : TickKey} (hkey : key.height < 2 ^ 32) :
    db.read (tickKey ticksPrefix key.poolId key.height) = none ↔ key ∉ repo.ticks.keys := by
  have hread := h.encodes (.tick key) hkey
  rw [ScheduleKey.bytes, ScheduleRepo.lookup] at hread
  rw [hread]
  split <;> simp_all

theorem Represents.read_deferredTick (h : Represents repo db) {key : TickKey}
    (hkey : key.height < 2 ^ 32) : db.read (tickKey deferredTicksPrefix key.poolId key.height) =
      none ↔ key ∉ repo.deferredTicks.keys := by
  have hread := h.encodes (.deferredTick key) hkey
  rw [ScheduleKey.bytes, ScheduleRepo.lookup] at hread
  rw [hread, Option.map_eq_none_iff, ← Table.isSome_get, Option.not_isSome_iff_eq_none]

/-- `update_schedule` returns, fails and panics as in the repository. -/
theorem Represents.updateSchedule (h : Represents repo db) {sc : PoolSchedule} (hsc : sc.Fits) :
    (∀ repo', repo.updateSchedule sc = .ok repo' →
      ∃ db', db.updateSchedule sc = .ok db' ∧ Represents repo' db') ∧
    (∀ e, repo.updateSchedule sc = .err e → db.updateSchedule sc = .err e) ∧
    (repo.updateSchedule sc = .crash → db.updateSchedule sc = .crash) := by
  unfold ScheduleRepo.updateSchedule ScheduleRepoRocksDB.updateSchedule
  cases hnext : (sc.nextCompoundingAt : Outcome ProgramExhausted (Option ℕ)) with
  | crash => simp
  | err e => simp
  | ok next =>
      cases next with
      | none => simp
      | some nextHeight =>
          have hnextLt : nextHeight < 2 ^ 32 := by
            obtain ⟨⟨hrange, -⟩, -⟩ := PoolSchedule.nextCompoundingAt_eq_ok.mp hnext
            rw [PoolSchedule.nextCompoundingAt_eq_some hnext]
            exact hrange
          -- Both sides ask the same two columns for the tick, so they take the same branch.
          have hfresh : (db.read (tickKey deferredTicksPrefix sc.poolId nextHeight) = none ∧
              db.read (tickKey ticksPrefix sc.poolId nextHeight) = none) ↔
              SpectrumOffchain.tickKey sc.poolId nextHeight ∉ repo.deferredTicks.keys ∧
                SpectrumOffchain.tickKey sc.poolId nextHeight ∉ repo.ticks.keys :=
            and_congr (@Represents.read_deferredTick _ _ h ⟨nextHeight, sc.poolId⟩ hnextLt)
              (@Represents.read_tick _ _ h ⟨nextHeight, sc.poolId⟩ hnextLt)
          cases hafter : (Outcome.checkedAdd 32 nextHeight sc.epochLen :
              Outcome ProgramExhausted ℕ) with
          | crash => simp [hafter]
          | err e => simp [hafter]
          | ok afterNextHeight =>
              have hafterLt : afterNextHeight < 2 ^ 32 := by
                obtain ⟨hlt, rfl⟩ := Outcome.checkedAdd_eq_ok.mp hafter
                exact hlt
              by_cases hnew : SpectrumOffchain.tickKey sc.poolId nextHeight ∉
                  repo.deferredTicks.keys ∧
                    SpectrumOffchain.tickKey sc.poolId nextHeight ∉ repo.ticks.keys
              · simp [hafter, if_pos hnew, if_pos (hfresh.mpr hnew)]
                exact h.write hsc hnextLt hafterLt
              · simp [hafter, if_neg hnew, if_neg fun hdb => hnew (hfresh.mp hdb)]
                exact h

/-! ## The ticks in their order -/

/-- The range of a kind has what the repository has under the keys of this kind. -/
theorem Represents.mem_scan (h : Represents repo db) {kind : KeyKind} {entry : Bytes × Bytes} :
    entry ∈ db.scan (Bincode.str kind.pfx) ↔ ∃ key : ScheduleKey, key.FitsHeight ∧
      key.kind = kind ∧ key.bytes = entry.1 ∧ repo.lookup key = some entry.2 := by
  rw [Database.mem_scan]
  constructor
  · rintro ⟨hentry, hprefix⟩
    obtain ⟨key, hkey, hbytes⟩ := h.keyed entry.1 (List.mem_map_of_mem hentry)
    refine ⟨key, hkey, ?_, hbytes, ?_⟩
    · rwa [← hbytes, key.pfx_prefix_iff] at hprefix
    · rw [← h.encodes key hkey, hbytes]
      exact Database.read_eq_some.mpr hentry
  · rintro ⟨key, hkey, rfl, hbytes, hlookup⟩
    rw [← h.encodes key hkey, hbytes] at hlookup
    refine ⟨Database.read_eq_some.mp hlookup, ?_⟩
    rw [← hbytes]
    exact key.pfx_prefix_iff.mpr rfl

/-- A range with the keys of some ticks has them in the order of their heights and pools. -/
theorem scan_eq_insertionSort {pfx : String} {ι : Type} {items : List ι} {tickOf : ι → TickKey}
    {valueOf : ι → Bytes} (hfits : ∀ a ∈ items, (tickOf a).height < 2 ^ 32)
    (hnodup : (items.map tickOf).Nodup)
    (hmem : ∀ entry, entry ∈ db.scan (Bincode.str pfx) ↔
      ∃ a ∈ items, (tickKey pfx (tickOf a).poolId (tickOf a).height, valueOf a) = entry) :
    db.scan (Bincode.str pfx) = (items.insertionSort fun a a' => (tickOf a).Le (tickOf a')).map
      fun a => (tickKey pfx (tickOf a).poolId (tickOf a).height, valueOf a) := by
  have : Std.Total fun a a' => (tickOf a).Le (tickOf a') :=
    ⟨fun a a' => Std.Total.total (tickOf a) (tickOf a')⟩
  have : IsTrans ι fun a a' => (tickOf a).Le (tickOf a') :=
    ⟨fun _ _ _ h h' => IsTrans.trans _ _ _ h h'⟩
  have hperm := List.perm_insertionSort (fun a a' => (tickOf a).Le (tickOf a')) items
  refine Database.scan_eq_map ?_ ?_ ?_
  · refine List.Pairwise.imp_of_mem ?_ (List.pairwise_insertionSort _ _)
    intro a a' ha ha' hle
    exact ScheduleKey.bytes_le_of_le (hfits a (hperm.mem_iff.mp ha))
      (hfits a' (hperm.mem_iff.mp ha')) hle pfx
  · refine List.Nodup.map_on ?_ (hperm.nodup_iff.mpr (List.Nodup.of_map _ hnodup))
    intro a ha a' ha' heq
    have hitem := hperm.mem_iff.mp ha
    have hitem' := hperm.mem_iff.mp ha'
    exact List.inj_on_of_nodup_map hnodup hitem hitem'
      (ScheduleKey.tickKey_injective (hfits a hitem) (hfits a' hitem') (congrArg Prod.fst heq))
  · intro entry
    rw [hmem, List.mem_map]
    exact exists_congr fun a => and_congr_left fun _ => hperm.mem_iff.symm

theorem Represents.scan_ticks (h : Represents repo db) : db.scan (Bincode.str ticksPrefix) =
    (repo.ticks.entries.insertionSort TickKey.Le).map fun key =>
      ((ScheduleKey.tick key).bytes, []) := by
  have hkeys : repo.ticks.keys = repo.ticks.entries := List.map_id' _
  refine scan_eq_insertionSort (hkeys ▸ h.fits.ticks) repo.ticks.distinct fun entry => ?_
  have hscan := @Represents.mem_scan _ _ h .tick entry
  refine hscan.trans ?_
  constructor
  · rintro ⟨key, hkey, hkind, hbytes, hlookup⟩
    cases key with
    | tick key =>
        rw [ScheduleRepo.lookup] at hlookup
        split at hlookup
        · next hstored => exact ⟨key, hkeys ▸ hstored, Prod.ext hbytes (Option.some.inj hlookup)⟩
        · cases hlookup
    | _ => cases hkind
  · rintro ⟨key, hkey, rfl⟩
    have hstored : key ∈ repo.ticks.keys := hkeys ▸ hkey
    exact ⟨.tick key, h.fits.ticks key hstored, rfl, rfl, if_pos hstored⟩

theorem Represents.scan_deferredTicks (h : Represents repo db) :
    db.scan (Bincode.str deferredTicksPrefix) =
      (repo.deferredTicks.entries.insertionSort fun t t' => t.key.Le t'.key).map fun t =>
        ((ScheduleKey.deferredTick t.key).bytes, serializeUntil t.deferredUntil) := by
  refine scan_eq_insertionSort (fun t ht => (h.fits.deferredTicks t ht).1)
    repo.deferredTicks.distinct fun entry => ?_
  have hscan := @Represents.mem_scan _ _ h .deferredTick entry
  refine hscan.trans ?_
  constructor
  · rintro ⟨key, hkey, hkind, hbytes, hlookup⟩
    cases key with
    | deferredTick key =>
        obtain ⟨t, hget, huntil⟩ := Option.map_eq_some_iff.mp hlookup
        obtain ⟨hstored, rfl⟩ := Table.get_eq_some.mp hget
        exact ⟨t, hstored, Prod.ext hbytes huntil⟩
    | _ => cases hkind
  · rintro ⟨t, ht, rfl⟩
    refine ⟨.deferredTick t.key, (h.fits.deferredTicks t ht).1, rfl, rfl, ?_⟩
    rw [ScheduleRepo.lookup, Table.get_eq_some.mpr ⟨ht, rfl⟩, Option.map_some]

/-! ## `peek` -/

theorem Represents.scheduledTick (h : Represents repo db) (poolId : PoolId) :
    db.scheduledTick poolId = repo.scheduledTick poolId := by
  have hread : db.read (prefixedKey schedulePrefix poolId) =
      (repo.schedules.get poolId).map serializeSchedule := h.encodes (.schedule poolId) trivial
  have hdecode : (db.read (prefixedKey schedulePrefix poolId)).bind deserializeSchedule =
      repo.schedules.get poolId := by
    rw [hread]
    cases hget : repo.schedules.get poolId with
    | none => rfl
    | some sc => exact deserializeSchedule_serializeSchedule (h.fits.schedules poolId sc hget)
  rw [ScheduleRepoRocksDB.scheduledTick, hdecode]
  rfl

theorem Represents.firstTick (h : Represents repo db) (keys : List TickKey) :
    db.firstTick (keys.map fun key => ((ScheduleKey.tick key).bytes, [])) =
      repo.firstTick keys := by
  induction keys with
  | nil => rfl
  | cons key rest ih =>
      have hpool : destructureTickKey (ScheduleKey.tick key).bytes = some key.poolId :=
        (ScheduleKey.tick key).destructureTickKey_bytes.trans (if_pos rfl)
      rw [List.map_cons, ScheduleRepoRocksDB.firstTick, hpool]
      dsimp only
      rw [h.scheduledTick, ih]
      rfl

theorem Represents.firstDeferredTick (h : Represents repo db) (tsNow : ℤ)
    {deferred : List DeferredTick} (hfits : ∀ t ∈ deferred, FitsI64 t.deferredUntil) :
    db.firstDeferredTick tsNow (deferred.map fun t =>
        ((ScheduleKey.deferredTick t.key).bytes, serializeUntil t.deferredUntil)) =
      repo.firstDeferredTick tsNow deferred := by
  induction deferred with
  | nil => rfl
  | cons t rest ih =>
      obtain ⟨ht, hrest⟩ := List.forall_mem_cons.mp hfits
      have hpool : destructureDeferredTickKey (ScheduleKey.deferredTick t.key).bytes =
          some t.key.poolId :=
        (ScheduleKey.deferredTick t.key).destructureDeferredTickKey_bytes.trans (if_pos rfl)
      rw [List.map_cons, ScheduleRepoRocksDB.firstDeferredTick, deserializeUntil_serializeUntil ht,
        hpool]
      dsimp only
      rw [h.scheduledTick, ih hrest]
      rfl

/-- `peek` on bytes finds the tick that it finds in the stores. -/
theorem Represents.peek (h : Represents repo db) (tsNow : ℤ) : db.peek tsNow = repo.peek tsNow := by
  have hfits : ∀ t ∈ repo.deferredTicks.entries.insertionSort fun t t' => t.key.Le t'.key,
      FitsI64 t.deferredUntil :=
    fun t ht => (h.fits.deferredTicks t ((List.mem_insertionSort _).mp ht)).2
  rw [ScheduleRepoRocksDB.peek, h.scan_ticks, h.scan_deferredTicks, h.firstTick,
    h.firstDeferredTick tsNow hfits]
  rfl

/-! ## Runs -/

end ScheduleRepoRocksDB

/-- A call that changes the repository. -/
inductive ScheduleCall where
  | updateSchedule (schedule : PoolSchedule)
  | remove (tick : Tick)
  | defer (tick : Tick) (deferredUntil : ℤ)
  | clean (poolId : PoolId)

namespace ScheduleCall

/-- The arguments are in the range of their types. -/
def Fits : ScheduleCall → Prop
  | updateSchedule schedule => schedule.Fits
  | remove tick => tick.height < 2 ^ 32
  | defer tick deferredUntil => tick.height < 2 ^ 32 ∧ FitsI64 deferredUntil
  | clean _ => True

/-- The repository after a call, unless the call panics. -/
def exec (repo : ScheduleRepo) : ScheduleCall → Option ScheduleRepo
  | updateSchedule schedule =>
      match repo.updateSchedule schedule with
      | .ok repo => some repo
      | .err _ => some repo
      | .crash => none
  | remove tick => some (repo.remove tick)
  | defer tick deferredUntil => some (repo.defer tick deferredUntil)
  | clean poolId => some (repo.clean poolId)

end ScheduleCall

namespace ScheduleRepoRocksDB

/-- The database after a call, unless the call panics. -/
def exec (db : ScheduleRepoRocksDB) : ScheduleCall → Option ScheduleRepoRocksDB
  | .updateSchedule schedule =>
      match db.updateSchedule schedule with
      | .ok db => some db
      | .err _ => some db
      | .crash => none
  | .remove tick => some (db.remove tick)
  | .defer tick deferredUntil => some (db.defer tick deferredUntil)
  | .clean poolId => some (db.clean poolId)

variable {repo : ScheduleRepo} {db : ScheduleRepoRocksDB}

theorem Represents.exec (h : Represents repo db) {call : ScheduleCall} (hcall : call.Fits) :
    Option.Rel Represents (call.exec repo) (db.exec call) := by
  cases call with
  | updateSchedule schedule =>
      obtain ⟨hok, herr, hcrash⟩ := h.updateSchedule hcall
      unfold ScheduleCall.exec ScheduleRepoRocksDB.exec
      cases hupdate : repo.updateSchedule schedule with
      | ok repo' =>
          obtain ⟨db', hdb, hrepresents⟩ := hok repo' hupdate
          simp only [hupdate, hdb]
          exact .some hrepresents
      | err e =>
          simp only [hupdate, herr e hupdate]
          exact .some h
      | crash =>
          simp only [hupdate, hcrash hupdate]
          exact .none
  | remove tick => exact .some (h.remove hcall)
  | defer tick deferredUntil => exact .some (h.defer hcall.1 hcall.2)
  | clean poolId => exact .some (h.clean poolId)

/-- What one call preserves, any number of them preserves. -/
theorem Represents.foldlM (h : Represents repo db) {calls : List ScheduleCall}
    (hcalls : ∀ call ∈ calls, call.Fits) :
    Option.Rel Represents (calls.foldlM ScheduleCall.exec repo)
      (calls.foldlM ScheduleRepoRocksDB.exec db) := by
  induction calls generalizing repo db with
  | nil => exact .some h
  | cons call rest ih =>
      obtain ⟨hcall, hrest⟩ := List.forall_mem_cons.mp hcalls
      have hstep := h.exec hcall
      rw [List.foldlM_cons, List.foldlM_cons]
      cases hrepo : call.exec repo <;> cases hdb : db.exec call <;> rw [hrepo, hdb] at hstep <;>
        cases hstep
      case none.none => exact .none
      case some.some hrepresents => exact ih hrepresents hrest

/-- After any calls on an empty database with arguments in range, `peek` finds the tick that it
finds in the stores after these calls, and a call panics there if one panics here. -/
theorem peeks_of_calls {calls : List ScheduleCall} (hcalls : ∀ call ∈ calls, call.Fits)
    (tsNow : ℤ) :
    (calls.foldlM ScheduleRepoRocksDB.exec .empty).map (fun db => db.peek tsNow) =
      (calls.foldlM ScheduleCall.exec .empty).map fun repo => repo.peek tsNow := by
  have hrun := represents_empty.foldlM hcalls
  cases hrepo : calls.foldlM ScheduleCall.exec .empty <;>
    cases hdb : calls.foldlM ScheduleRepoRocksDB.exec .empty <;> rw [hrepo, hdb] at hrun <;>
    cases hrun
  case none.none => rfl
  case some.some h => exact congrArg some (h.peek tsNow)

end ScheduleRepoRocksDB

end SpectrumOffchain
