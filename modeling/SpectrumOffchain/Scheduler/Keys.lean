import SpectrumOffchain.Binary
import SpectrumOffchain.Lib.Database
import SpectrumOffchain.Scheduler.Repo

/-!
# The keys of the schedules and ticks

`ScheduleRepoRocksDB` has one database for its three kinds of entries: schedules, pending ticks and
deferred ticks.  The keys of a kind begin with its prefix and end in the id of the pool, and those
of ticks have the height in between, its highest byte first.

The prefixes differ, and so do the lengths of the keys.  So neither an iterator over the ticks of a
kind (`pfx_prefix_iff`) nor a destructor (`destructureTickKey_bytes`) takes an entry for one of
another kind, and iterators come to the ticks by height and pool (`tickKey_lt_iff`).  `clean` goes
by the last 32 bytes of all keys, which are the pool id in each kind (`extractPoolId_bytes`).

## Order of the lemmas

A key is described as a value of `ScheduleKey`, with its bytes as a function of it.  From
the length and the prefix of each kind follow what the functions of the source do with the
bytes: which keys an iterator returns, what a destructor reads, and what `clean` takes for
the id of the pool.  The operations are then said to touch only the keys of one pool
(`OnlyTouches`), one write or delete at a time, and `keys_codec` collects all of this.
-/

namespace SpectrumOffchain

/-- The database of the repository. -/
abbrev ScheduleRepoRocksDB := Database UInt8 Bytes

namespace ScheduleRepoRocksDB

/-- Schedules: (PREFIX:PoolId -> Schedule) -/
def schedulePrefix : String := "sc:"

/-- Pending ticks (queue): (PREFIX:H:PoolId -> ()) -/
def ticksPrefix : String := "ts:"

/-- Tried ticks (queue): (PREFIX:H:PoolId -> RETRY_AFTER) -/
def deferredTicksPrefix : String := "tr:ts:"

def tickKeyLen : ℕ := 47

def triedTickKeyLen : ℕ := 50

def poolIdLen : ℕ := 32

def tickKey (pfx : String) (poolId : PoolId) (nextEpochHeight : ℕ) : Bytes :=
  rawPrefixedKey pfx ((Bincode.uint 4 nextEpochHeight).reverse ++ Serialize.serialize poolId)

def destructureTickKey (bytes : Bytes) : Option PoolId :=
  if bytes.length = tickKeyLen then PoolId.deserialize (bytes.drop 15) else none

def extractPoolId (bytes : Bytes) : Option PoolId :=
  if bytes.length ≥ poolIdLen then PoolId.deserialize (bytes.drop (bytes.length - poolIdLen))
  else none

def destructureDeferredTickKey (bytes : Bytes) : Option PoolId :=
  if bytes.length = triedTickKeyLen then PoolId.deserialize (bytes.drop 18) else none

/-! ## The operations -/

/-- `bincode::serialize(&schedule)`. -/
def serializeSchedule (schedule : PoolSchedule) : Bytes :=
  Serialize.serialize schedule.poolId ++ Bincode.uint 4 schedule.epochLen ++
    Bincode.uint 4 schedule.epochNum ++ Bincode.uint 4 schedule.programStart ++
    Bincode.uint 4 schedule.lastCompletedEpochIx

/-- `bincode::serialize(&until)` of an `i64`. -/
def serializeUntil (deferredUntil : ℤ) : Bytes := Bincode.uint 8 (deferredUntil % 2 ^ 64).toNat

/-- The writes of `update_schedule`: the ticks before and after the next one are removed. -/
def writeSchedule (db : ScheduleRepoRocksDB) (schedule : PoolSchedule)
    (nextHeight afterNextHeight : ℕ) : ScheduleRepoRocksDB :=
  let pid := schedule.poolId
  let prevHeight := nextHeight - schedule.epochLen
  let db := db.write (prefixedKey schedulePrefix pid) (serializeSchedule schedule)
  let db := db.write (tickKey ticksPrefix pid nextHeight) []
  let db := db.delete (tickKey ticksPrefix pid prevHeight)
  let db := db.delete (tickKey ticksPrefix pid afterNextHeight)
  let db := db.delete (tickKey deferredTicksPrefix pid prevHeight)
  db.delete (tickKey deferredTicksPrefix pid afterNextHeight)

def updateSchedule (db : ScheduleRepoRocksDB) (schedule : PoolSchedule) :
    Outcome ProgramExhausted ScheduleRepoRocksDB := do
  match ← schedule.nextCompoundingAt with
  | some nextHeight => do
      let afterNextHeight ← .checkedAdd 32 nextHeight schedule.epochLen
      -- unless the schedule was tried at this height already
      if db.read (tickKey deferredTicksPrefix schedule.poolId nextHeight) = none ∧
          db.read (tickKey ticksPrefix schedule.poolId nextHeight) = none then
        pure (db.writeSchedule schedule nextHeight afterNextHeight)
      else pure db
  | none => .err ⟨⟩

def remove (db : ScheduleRepoRocksDB) (tick : Tick) : ScheduleRepoRocksDB :=
  db.delete (tickKey deferredTicksPrefix tick.poolId tick.height)

def defer (db : ScheduleRepoRocksDB) (tick : Tick) (deferredUntil : ℤ) : ScheduleRepoRocksDB :=
  (db.delete (tickKey ticksPrefix tick.poolId tick.height)).write
    (tickKey deferredTicksPrefix tick.poolId tick.height) (serializeUntil deferredUntil)

/-- The round of the loop of `clean` with the key `bs`. -/
def cleanKey (poolId : PoolId) (transaction : ScheduleRepoRocksDB) (bs : Bytes) :
    ScheduleRepoRocksDB :=
  match extractPoolId bs with
  | some extPoolId => if extPoolId = poolId then transaction.delete bs else transaction
  | none => transaction

def clean (db : ScheduleRepoRocksDB) (poolId : PoolId) : ScheduleRepoRocksDB :=
  ((db.scan []).map Prod.fst).foldl (cleanKey poolId) db

end ScheduleRepoRocksDB

/-! ## The kinds of keys -/

inductive KeyKind where
  | schedule
  | tick
  | deferredTick
  deriving DecidableEq, Repr

/-- The key of an entry. -/
inductive ScheduleKey where
  | schedule (poolId : PoolId)
  | tick (key : TickKey)
  | deferredTick (key : TickKey)
  deriving DecidableEq, Repr

open ScheduleRepoRocksDB

def KeyKind.pfx : KeyKind → String
  | schedule => schedulePrefix
  | tick => ticksPrefix
  | deferredTick => deferredTicksPrefix

theorem KeyKind.pfx_injective {kind kind' : KeyKind} (h : kind.pfx = kind'.pfx) : kind = kind' := by
  revert h
  cases kind <;> cases kind' <;> decide

theorem KeyKind.length_pfx (kind : KeyKind) : (Bincode.text kind.pfx).length < 2 ^ 64 := by
  cases kind <;> decide

namespace ScheduleKey

def kind : ScheduleKey → KeyKind
  | schedule _ => .schedule
  | tick _ => .tick
  | deferredTick _ => .deferredTick

def poolId : ScheduleKey → PoolId
  | schedule poolId => poolId
  | tick key => key.poolId
  | deferredTick key => key.poolId

def bytes : ScheduleKey → Bytes
  | schedule poolId => prefixedKey schedulePrefix poolId
  | tick key => ScheduleRepoRocksDB.tickKey ticksPrefix key.poolId key.height
  | deferredTick key => ScheduleRepoRocksDB.tickKey deferredTicksPrefix key.poolId key.height

/-- What a key has between its prefix and the pool. -/
def body : ScheduleKey → Bytes
  | schedule _ => []
  | tick key => (Bincode.uint 4 key.height).reverse
  | deferredTick key => (Bincode.uint 4 key.height).reverse

variable (key : ScheduleKey)

theorem bytes_eq : key.bytes =
    Bincode.str key.kind.pfx ++ key.body ++ Serialize.serialize key.poolId := by
  cases key <;> simp [bytes, body, kind, poolId, KeyKind.pfx, prefixedKey, rawPrefixedKey,
    ScheduleRepoRocksDB.tickKey]

/-- A key lies in the range of the prefix of its own kind only. -/
theorem pfx_prefix_iff {kind : KeyKind} : Bincode.str kind.pfx <+: key.bytes ↔ key.kind = kind := by
  rw [bytes_eq, List.append_assoc,
    Bincode.str_prefix_iff (KeyKind.length_pfx kind) (KeyKind.length_pfx key.kind)]
  constructor
  · exact fun h => (KeyKind.pfx_injective h).symm
  · rintro rfl
    rfl

/-- The lengths of what comes before the pool. -/
def lengthBefore : KeyKind → ℕ
  | .schedule => 11
  | .tick => 15
  | .deferredTick => 18

theorem length_before : (Bincode.str key.kind.pfx ++ key.body).length = lengthBefore key.kind := by
  cases key <;> simp [body, kind, KeyKind.pfx, lengthBefore, Bincode.str] <;> decide

theorem length_bytes : key.bytes.length = lengthBefore key.kind + 32 := by
  rw [bytes_eq, List.length_append, length_before, length_serialize_poolId]

theorem drop_bytes : key.bytes.drop (lengthBefore key.kind) = Serialize.serialize key.poolId := by
  rw [bytes_eq, ← length_before, List.drop_left]

theorem extractPoolId_bytes : extractPoolId key.bytes = some key.poolId := by
  have hlength : key.bytes.length ≥ poolIdLen ∧
      key.bytes.length - poolIdLen = lengthBefore key.kind := by
    rw [length_bytes, poolIdLen]
    omega
  rw [extractPoolId, if_pos hlength.1, hlength.2, drop_bytes, PoolId.deserialize_serialize]

theorem lengthBefore_injective {kind kind' : KeyKind} (h : lengthBefore kind = lengthBefore kind') :
    kind = kind' := by
  revert h
  cases kind <;> cases kind' <;> decide

/-- The length tells the keys of a kind from all others. -/
theorem deserialize_bytes (kind : KeyKind) :
    (if key.bytes.length = lengthBefore kind + 32 then
      PoolId.deserialize (key.bytes.drop (lengthBefore kind)) else none) =
      if key.kind = kind then some key.poolId else none := by
  rw [length_bytes]
  by_cases hkind : key.kind = kind
  · rw [if_pos hkind, ← hkind, if_pos rfl, drop_bytes, PoolId.deserialize_serialize]
  · rw [if_neg hkind, if_neg fun hlength => hkind (lengthBefore_injective (by omega))]

theorem destructureTickKey_bytes :
    destructureTickKey key.bytes = if key.kind = .tick then some key.poolId else none :=
  key.deserialize_bytes .tick

theorem destructureDeferredTickKey_bytes : destructureDeferredTickKey key.bytes =
    if key.kind = .deferredTick then some key.poolId else none :=
  key.deserialize_bytes .deferredTick

variable {key} {key' : ScheduleKey}

theorem bytes_ne (h : key.poolId ≠ key'.poolId) : key.bytes ≠ key'.bytes := by
  intro heq
  have hpool := congrArg extractPoolId heq
  rw [extractPoolId_bytes, extractPoolId_bytes] at hpool
  exact h (Option.some.inj hpool)

end ScheduleKey

namespace ScheduleRepoRocksDB

variable {db db' : ScheduleRepoRocksDB} {key : ScheduleKey} {poolId poolId' : PoolId}
  {height height' : ℕ}

/-- Ticks of a kind are ordered by height, and those of one height by pool. -/
theorem tickKey_lt_iff {pfx : String} (h : height < 2 ^ 32) (h' : height' < 2 ^ 32) :
    tickKey pfx poolId height < tickKey pfx poolId' height' ↔
      height < height' ∨ height = height' ∧ poolId.tokenId.bytes < poolId'.tokenId.bytes := by
  have hheight : (Bincode.uint 4 height).reverse = (Bincode.uint 4 height').reverse ↔
      height = height' := by
    constructor
    · exact fun heq => Bincode.uint_injective h h' (List.reverse_injective heq)
    · rintro rfl
      rfl
  rw [tickKey, tickKey, rawPrefixedKey, rawPrefixedKey, Bincode.append_lt_append_iff rfl,
    Bincode.append_lt_append_iff (by simp), Bincode.reverse_uint_lt_iff h h', hheight]
  constructor
  · rintro (hlt | ⟨-, hlt⟩)
    · exact absurd hlt (List.lt_irrefl _)
    · exact hlt
  · exact fun hlt => .inr ⟨rfl, hlt⟩

/-! ## What the operations do -/

theorem cleanKey_eq (transaction : ScheduleRepoRocksDB) (bs : Bytes) :
    cleanKey poolId transaction bs =
      if extractPoolId bs = some poolId then transaction.delete bs else transaction := by
  rw [cleanKey]
  cases extractPoolId bs with
  | none => rfl
  | some extPoolId => simp only [Option.some.injEq]

theorem read_clean (bs : Bytes) :
    (db.clean poolId).read bs = if extractPoolId bs = some poolId then none else db.read bs := by
  have hfold : db.clean poolId = ((db.scan []).map Prod.fst).foldl
      (fun transaction bs =>
        if extractPoolId bs = some poolId then Database.delete transaction bs else transaction)
      db := List.foldl_ext _ _ _ fun transaction bs _ => cleanKey_eq transaction bs
  rw [hfold, Database.read_foldl_delete]
  by_cases hpool : extractPoolId bs = some poolId
  · by_cases hmem : bs ∈ (db.scan []).map Prod.fst
    · rw [if_pos ⟨hmem, hpool⟩, if_pos hpool]
    · -- what the iterator does not come to is not there
      have hread : db.read bs = none := by
        rw [Database.read_eq_none, Table.keys, List.mem_map]
        rintro ⟨entry, hentry, rfl⟩
        exact hmem (List.mem_map_of_mem (Database.mem_scan.mpr ⟨hentry, List.nil_prefix⟩))
      rw [if_neg fun h => hmem h.1, if_pos hpool, hread]
  · rw [if_neg fun h => hpool h.2, if_neg hpool]

theorem read_clean_bytes : (db.clean poolId).read key.bytes =
    if key.poolId = poolId then none else db.read key.bytes := by
  simp only [read_clean, key.extractPoolId_bytes, Option.some.injEq]

/-- The entries of other pools are the same. -/
def OnlyTouches (poolId : PoolId) (db db' : ScheduleRepoRocksDB) : Prop :=
  ∀ key : ScheduleKey, key.poolId ≠ poolId → db'.read key.bytes = db.read key.bytes

theorem OnlyTouches.refl (poolId : PoolId) (db : ScheduleRepoRocksDB) : OnlyTouches poolId db db :=
  fun _ _ => rfl

theorem OnlyTouches.trans {db'' : ScheduleRepoRocksDB} (h : OnlyTouches poolId db db')
    (h' : OnlyTouches poolId db' db'') : OnlyTouches poolId db db'' :=
  fun key hne => (h' key hne).trans (h key hne)

theorem onlyTouches_write (key : ScheduleKey) (value : Bytes) :
    OnlyTouches key.poolId db (db.write key.bytes value) :=
  fun _ hne => Database.read_write_of_ne (ScheduleKey.bytes_ne hne)

theorem onlyTouches_delete (key : ScheduleKey) : OnlyTouches key.poolId db (db.delete key.bytes) :=
  fun _ hne => Database.read_delete_of_ne (ScheduleKey.bytes_ne hne)

theorem onlyTouches_clean : OnlyTouches poolId db (db.clean poolId) :=
  fun _ hne => read_clean_bytes.trans (if_neg hne)

theorem onlyTouches_remove (tick : Tick) : OnlyTouches tick.poolId db (db.remove tick) :=
  onlyTouches_delete (.deferredTick ⟨tick.height, tick.poolId⟩)

theorem onlyTouches_defer (tick : Tick) (deferredUntil : ℤ) :
    OnlyTouches tick.poolId db (db.defer tick deferredUntil) :=
  (onlyTouches_delete (.tick ⟨tick.height, tick.poolId⟩)).trans
    (onlyTouches_write (.deferredTick ⟨tick.height, tick.poolId⟩) _)

theorem onlyTouches_writeSchedule (schedule : PoolSchedule) (nextHeight afterNextHeight : ℕ) :
    OnlyTouches schedule.poolId db (db.writeSchedule schedule nextHeight afterNextHeight) := by
  have htick : ∀ (db : ScheduleRepoRocksDB) (height : ℕ), OnlyTouches schedule.poolId db
      (db.delete (tickKey ticksPrefix schedule.poolId height)) :=
    fun _ height => onlyTouches_delete (.tick ⟨height, schedule.poolId⟩)
  have hdeferred : ∀ (db : ScheduleRepoRocksDB) (height : ℕ), OnlyTouches schedule.poolId db
      (db.delete (tickKey deferredTicksPrefix schedule.poolId height)) :=
    fun _ height => onlyTouches_delete (.deferredTick ⟨height, schedule.poolId⟩)
  have hwrites : OnlyTouches schedule.poolId db
      ((db.write (prefixedKey schedulePrefix schedule.poolId) (serializeSchedule schedule)).write
        (tickKey ticksPrefix schedule.poolId nextHeight) []) :=
    (onlyTouches_write (.schedule schedule.poolId) _).trans
      (onlyTouches_write (.tick ⟨nextHeight, schedule.poolId⟩) _)
  exact (((hwrites.trans (htick _ _)).trans (htick _ _)).trans (hdeferred _ _)).trans
    (hdeferred _ _)

theorem onlyTouches_updateSchedule {schedule : PoolSchedule}
    (hok : db.updateSchedule schedule = .ok db') : OnlyTouches schedule.poolId db db' := by
  obtain ⟨next, -, hrest⟩ := Outcome.bind_eq_ok.mp hok
  cases next with
  | none => cases hrest
  | some nextHeight =>
      obtain ⟨afterNextHeight, -, hrest⟩ := Outcome.bind_eq_ok.mp hrest
      split at hrest
      · cases hrest
        exact onlyTouches_writeSchedule schedule nextHeight afterNextHeight
      · cases hrest
        exact OnlyTouches.refl _ _

/-- The codec of the keys: ticks under one prefix are in the order of their heights and pools, each
destructor accepts the keys of its own kind and recovers the pool, the range of a prefix has the
keys of its own kind only, and the pool is recovered from all keys.  So `clean` deletes all entries
of a pool, and no operation touches the entries of another one. -/
theorem keys_codec :
    (∀ (pfx : String) (poolId poolId' : PoolId) (height height' : UInt32),
      tickKey pfx poolId height.toNat < tickKey pfx poolId' height'.toNat ↔
        height < height' ∨
          height = height' ∧ poolId.tokenId.bytes < poolId'.tokenId.bytes) ∧
    (∀ key : ScheduleKey,
      destructureTickKey key.bytes = (if key.kind = .tick then some key.poolId else none) ∧
      destructureDeferredTickKey key.bytes =
        (if key.kind = .deferredTick then some key.poolId else none) ∧
      extractPoolId key.bytes = some key.poolId ∧
      ∀ kind : KeyKind, Bincode.str kind.pfx <+: key.bytes ↔ key.kind = kind) ∧
    (∀ (db : ScheduleRepoRocksDB) (key : ScheduleKey),
      (db.clean key.poolId).read key.bytes = none) ∧
    ∀ db : ScheduleRepoRocksDB,
      (∀ poolId : PoolId, OnlyTouches poolId db (db.clean poolId)) ∧
      (∀ tick : Tick, OnlyTouches tick.poolId db (db.remove tick)) ∧
      (∀ (tick : Tick) (deferredUntil : ℤ),
        OnlyTouches tick.poolId db (db.defer tick deferredUntil)) ∧
      ∀ (schedule : PoolSchedule) (db' : ScheduleRepoRocksDB),
        db.updateSchedule schedule = .ok db' → OnlyTouches schedule.poolId db db' := by
  refine ⟨?_, ?_, fun _ _ => read_clean_bytes.trans (if_pos rfl), ?_⟩
  · intro pfx poolId poolId' height height'
    rw [tickKey_lt_iff height.toNat_lt height'.toNat_lt, UInt32.lt_iff_toNat_lt, ← UInt32.toNat_inj]
  · exact fun key => ⟨key.destructureTickKey_bytes, key.destructureDeferredTickKey_bytes,
      key.extractPoolId_bytes, fun _ => key.pfx_prefix_iff⟩
  · exact fun db => ⟨fun _ => onlyTouches_clean, onlyTouches_remove, onlyTouches_defer,
      fun _ _ => onlyTouches_updateSchedule⟩

end ScheduleRepoRocksDB

namespace ScheduleKeys.Sample

theorem length_poolId : (List.replicate 32 (1 : UInt8)).length = 32 := List.length_replicate

def poolId : PoolId := ⟨⟨List.replicate 32 1, length_poolId⟩⟩

theorem length_otherPoolId : (List.replicate 32 (3 : UInt8)).length = 32 := List.length_replicate

def otherPoolId : PoolId := ⟨⟨List.replicate 32 3, length_otherPoolId⟩⟩

theorem otherPoolId_ne : otherPoolId ≠ poolId := by decide

/-- Ten epochs of ten blocks. -/
def schedule (poolId : PoolId) : PoolSchedule := ⟨poolId, 10, 10, 100, 0⟩

/-- The database with the schedule of the other pool. -/
def otherStored : ScheduleRepoRocksDB := writeSchedule .empty (schedule otherPoolId) 110 120

/-- The database with both schedules. -/
def stored : ScheduleRepoRocksDB := writeSchedule otherStored (schedule poolId) 110 120

theorem updateSchedule_eq : updateSchedule otherStored (schedule poolId) = .ok stored := rfl

end ScheduleKeys.Sample

open ScheduleKeys.Sample in
/-- The other pool has the same schedule and the same tick before and after. -/
theorem ScheduleRepoRocksDB.keys_codec_sample :
    stored.read (ScheduleKey.schedule otherPoolId).bytes =
        otherStored.read (ScheduleKey.schedule otherPoolId).bytes ∧
      stored.read (ScheduleKey.tick ⟨110, otherPoolId⟩).bytes =
        otherStored.read (ScheduleKey.tick ⟨110, otherPoolId⟩).bytes ∧
      otherStored.read (ScheduleKey.tick ⟨110, otherPoolId⟩).bytes = some [] := by
  have hother : OnlyTouches poolId otherStored stored :=
    (ScheduleRepoRocksDB.keys_codec.2.2.2 otherStored).2.2.2 (schedule poolId) stored
      updateSchedule_eq
  exact ⟨hother (.schedule otherPoolId) otherPoolId_ne,
    hother (.tick ⟨110, otherPoolId⟩) otherPoolId_ne, rfl⟩

end SpectrumOffchain
