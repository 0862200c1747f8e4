import Mathlib.Data.Set.List
import SpectrumOffchain.Binary
import SpectrumOffchain.Lib.Database
import SpectrumOffchain.Resolver.EpochIndex

/-!
# The keys of the bundle repository

`BundleRepoRocksDB` has one database for the states, the links, the two indices of last states and
the epoch index.  A key of the epoch index is its prefix, the pool, the negated epoch and the
bundle.  `select` iterates over the keys that begin with a pool and an epoch, and stops at the first
one that does not decode to these; it also asserts that the epoch of each key is the one it asked
for.

The keys of the other kinds begin with another prefix, whatever ids follow, and a pool and an epoch
take the same number of bytes in every key.  So all keys of the range decode to the pool and the
epoch, and the loop comes to the end (`selectLoop_eq`).  How `bincode` writes the id of a state is a
parameter.

## Strategy

As for the schedules, a key is a value of `BundleKey` with its bytes as a function of it,
and a database is `Keyed` if all its keys are of this form.  The operations write no others,
with epochs of 32 bits, so every reachable database is.

The range of `select` consists of the keys with the prefix of a pool and an epoch.  In a
keyed database these are the index keys of this pool and epoch (`prefix_bytes_iff`), each is
destructured to what it was made of (`destructureEpochIndexKey_epochIndexKey`), and the
assertion holds at every one.  The negated epoch is the complement of 32 bits, so different
epochs have different keys (`negEpochIx_injective`).
-/

namespace SpectrumOffchain.Resolver

open Transition

/-- What is stored under a key. -/
inductive BundleValue where
  | state (bundleState : AsBox IndexedStakingBundle)
  | stateId (sid : BundleStateId)
  | dummy

/-- The database of the repository. -/
abbrev BundleRepoRocksDB := Database UInt8 BundleValue

namespace BundleRepoRocksDB

def statePrefix : String := "state"

def predictionLinkPrefix : String := "p:link"

def lastPredictedPrefix : String := "p:last"

def lastConfirmedPrefix : String := "c:last"

/-- Key structure: {prefix}{pool_id}{init_epoch_ix}{bundle_id} -/
def poolEpochPrefix : String := "pl:epix"

def poolEpochKeyLen : ℕ := 83

def epochIndexPrefix (poolId : PoolId) (epochIx : ℕ) : Bytes :=
  Bincode.str poolEpochPrefix ++ Serialize.serialize poolId ++
    Bincode.uint 4 (2 ^ 32 - 1 - epochIx)

def destructureEpochIndexKey (key : Bytes) : Option (PoolId × BundleId × ℕ) :=
  if key.length = poolEpochKeyLen then
    match PoolId.deserialize ((key.drop 15).take 32),
        BundleId.deserialize (key.drop (poolEpochKeyLen - 32)),
        deserializeU32 ((key.drop 47).take 4) with
    | some poolId, some bundleId, some negEpochIx =>
        some (poolId, bundleId, 2 ^ 32 - 1 - negEpochIx)
    | _, _, _ => none
  else none

def epochIndexKey (poolId : PoolId) (initEpochIx : ℕ) (bundleId : BundleId) : Bytes :=
  epochIndexPrefix poolId initEpochIx ++ Serialize.serialize bundleId

/-- The loop of `select`. -/
def selectLoop (poolId : PoolId) (epochIx : ℕ) (acc : List BundleId) :
    List (Bytes × BundleValue) → Outcome Unit (List BundleId)
  | [] => .ok acc
  | (keyBytes, _) :: rest =>
      match destructureEpochIndexKey keyBytes with
      | some (pid, bundleId, initEpochIx) =>
          -- the assertion
          if initEpochIx = epochIx then
            if pid = poolId ∧ bundleId ∉ acc then selectLoop poolId epochIx (acc ++ [bundleId]) rest
            else .ok acc
          else .crash
      | none => .ok acc

def select (db : BundleRepoRocksDB) (poolId : PoolId) (epochIx : ℕ) :
    Outcome Unit (List BundleId) :=
  selectLoop poolId epochIx [] (db.scan (epochIndexPrefix poolId epochIx))

variable [Serialize BundleStateId]

def invalidate (db : BundleRepoRocksDB) (stateId : BundleStateId) : BundleRepoRocksDB :=
  (db.delete (prefixedKey statePrefix stateId)).delete (prefixedKey predictionLinkPrefix stateId)

def eliminate (db : BundleRepoRocksDB) (bundleSt : IndexedStakingBundle) : BundleRepoRocksDB :=
  let bundleId : BundleId := OnChainEntity.getSelfRef bundleSt
  let db := db.delete (prefixedKey lastConfirmedPrefix bundleId)
  let db := db.delete (prefixedKey lastPredictedPrefix bundleId)
  db.delete (epochIndexKey bundleSt.bundle.poolId bundleSt.lowerEpochIx bundleId)

def putConfirmed (db : BundleRepoRocksDB) (bundleState : AsBox IndexedStakingBundle) :
    BundleRepoRocksDB :=
  let bundleId : BundleId := OnChainEntity.getSelfRef bundleState
  let stateId : BundleStateId := OnChainEntity.getSelfStateRef bundleState
  let poolId := bundleState.value.bundle.poolId
  let lowerEpochIx := bundleState.value.lowerEpochIx
  let db := db.write (prefixedKey statePrefix stateId) (.state bundleState)
  let db := db.write (prefixedKey lastConfirmedPrefix bundleId) (.stateId stateId)
  let db := db.write (epochIndexKey poolId lowerEpochIx bundleId) .dummy
  -- the key of the previous epoch is deleted last
  db.delete (epochIndexKey poolId (lowerEpochIx - 1) bundleId)

def putPredicted (db : BundleRepoRocksDB) (traced : Traced (AsBox IndexedStakingBundle)) :
    BundleRepoRocksDB :=
  let bundleState := traced.state
  let bundleId : BundleId := OnChainEntity.getSelfRef bundleState
  let stateId : BundleStateId := OnChainEntity.getSelfStateRef bundleState
  let db := db.write (prefixedKey statePrefix stateId) (.state bundleState)
  let db := db.write (prefixedKey lastPredictedPrefix bundleId) (.stateId stateId)
  let db := db.write (epochIndexKey bundleState.value.bundle.poolId
    bundleState.value.lowerEpochIx bundleId) .dummy
  match traced.prevStateId with
  | some prevSid => db.write (prefixedKey predictionLinkPrefix stateId) (.stateId prevSid)
  | none => db

def exec (db : BundleRepoRocksDB) : BundleCall → BundleRepoRocksDB
  | .putConfirmed bundleState => db.putConfirmed bundleState
  | .putPredicted traced => db.putPredicted traced
  | .invalidate stateId => db.invalidate stateId
  | .eliminate bundleSt => db.eliminate bundleSt

end BundleRepoRocksDB

/-- The epoch of the state that the call is about is a `u32`. -/
def BundleCall.FitsEpoch : BundleCall → Prop
  | putConfirmed bundleState => bundleState.value.lowerEpochIx < 2 ^ 32
  | putPredicted traced => traced.state.value.lowerEpochIx < 2 ^ 32
  | invalidate _ => True
  | eliminate bundleSt => bundleSt.lowerEpochIx < 2 ^ 32

/-! ## The epoch index -/

namespace BundleRepoRocksDB

variable {poolId poolId' : PoolId} {epochIx epochIx' : ℕ} {bundleId bundleId' : BundleId}

/-- The negation of an epoch can be undone. -/
theorem negEpochIx_injective (h : epochIx < 2 ^ 32) (h' : epochIx' < 2 ^ 32)
    (heq : Bincode.uint 4 (2 ^ 32 - 1 - epochIx) = Bincode.uint 4 (2 ^ 32 - 1 - epochIx')) :
    epochIx = epochIx' := by
  have hneg : 2 ^ 32 - 1 - epochIx = 2 ^ 32 - 1 - epochIx' :=
    Bincode.uint_injective (by omega) (by omega) heq
  omega

theorem epochIndexPrefix_injective (h : epochIx < 2 ^ 32) (h' : epochIx' < 2 ^ 32)
    (heq : epochIndexPrefix poolId epochIx = epochIndexPrefix poolId' epochIx') :
    poolId = poolId' ∧ epochIx = epochIx' := by
  obtain ⟨hpool, hepoch⟩ := List.append_inj heq (by simp)
  exact ⟨PoolId.serialize_injective (List.append_cancel_left hpool),
    negEpochIx_injective h h' hepoch⟩

theorem length_epochIndexPrefix (poolId : PoolId) (epochIx : ℕ) :
    (epochIndexPrefix poolId epochIx).length = 51 := by
  rw [epochIndexPrefix, List.length_append, List.length_append, Bincode.length_uint,
    length_serialize_poolId]
  rfl

theorem destructureEpochIndexKey_epochIndexKey (h : epochIx < 2 ^ 32) :
    destructureEpochIndexKey (epochIndexKey poolId epochIx bundleId) =
      some (poolId, bundleId, epochIx) := by
  have hlength : (epochIndexKey poolId epochIx bundleId).length = poolEpochKeyLen := by
    rw [epochIndexKey, List.length_append, length_epochIndexPrefix, length_serialize_bundleId]
    rfl
  have hprefix : (Bincode.str poolEpochPrefix).length = 15 := rfl
  have hpool : ((epochIndexKey poolId epochIx bundleId).drop 15).take 32 =
      Serialize.serialize poolId := by
    rw [epochIndexKey, epochIndexPrefix, List.append_assoc, List.append_assoc,
      List.drop_left' hprefix, List.take_left' (length_serialize_poolId poolId)]
  have hepoch : ((epochIndexKey poolId epochIx bundleId).drop 47).take 4 =
      Bincode.uint 4 (2 ^ 32 - 1 - epochIx) := by
    rw [epochIndexKey, epochIndexPrefix, List.append_assoc, List.drop_left', List.take_left']
    · exact Bincode.length_uint _ _
    · rw [List.length_append, length_serialize_poolId, hprefix]
  have hbundle : (epochIndexKey poolId epochIx bundleId).drop (poolEpochKeyLen - 32) =
      Serialize.serialize bundleId :=
    List.drop_left' (length_epochIndexPrefix poolId epochIx)
  rw [destructureEpochIndexKey, if_pos hlength, hpool, hepoch, hbundle,
    PoolId.deserialize_serialize, BundleId.deserialize_serialize,
    deserializeU32_uint (Nat.lt_of_le_of_lt (Nat.sub_le _ _) (by norm_num))]
  have hneg : 2 ^ 32 - 1 - (2 ^ 32 - 1 - epochIx) = epochIx := by omega
  simp only [hneg]

theorem epochIndexKey_injective
    (heq : epochIndexKey poolId epochIx bundleId = epochIndexKey poolId epochIx bundleId') :
    bundleId = bundleId' :=
  BundleId.serialize_injective (List.append_cancel_left heq)

end BundleRepoRocksDB

/-! ## The kinds of keys -/

inductive BundleKeyKind where
  | state
  | predictionLink
  | lastPredicted
  | lastConfirmed
  | epochIndex
  deriving DecidableEq, Repr

/-- The key of an entry. -/
inductive BundleKey where
  | state (stateId : BundleStateId)
  | predictionLink (stateId : BundleStateId)
  | lastPredicted (bundleId : BundleId)
  | lastConfirmed (bundleId : BundleId)
  | epochIndex (key : EpochIndexKey)
  deriving DecidableEq, Repr

open BundleRepoRocksDB

namespace BundleKeyKind

def pfx : BundleKeyKind → String
  | state => statePrefix
  | predictionLink => predictionLinkPrefix
  | lastPredicted => lastPredictedPrefix
  | lastConfirmed => lastConfirmedPrefix
  | epochIndex => poolEpochPrefix

theorem pfx_injective {kind kind' : BundleKeyKind} (h : kind.pfx = kind'.pfx) : kind = kind' := by
  revert h
  cases kind <;> cases kind' <;> decide

theorem length_pfx (kind : BundleKeyKind) : (Bincode.text kind.pfx).length < 2 ^ 64 := by
  cases kind <;> decide

end BundleKeyKind

namespace BundleKey

def kind : BundleKey → BundleKeyKind
  | state _ => .state
  | predictionLink _ => .predictionLink
  | lastPredicted _ => .lastPredicted
  | lastConfirmed _ => .lastConfirmed
  | epochIndex _ => .epochIndex

/-- The epoch of a key of the epoch index is a `u32`. -/
def FitsEpoch : BundleKey → Prop
  | epochIndex key => key.initEpochIx < 2 ^ 32
  | _ => True

variable [Serialize BundleStateId]

def bytes : BundleKey → Bytes
  | state stateId => prefixedKey statePrefix stateId
  | predictionLink stateId => prefixedKey predictionLinkPrefix stateId
  | lastPredicted bundleId => prefixedKey lastPredictedPrefix bundleId
  | lastConfirmed bundleId => prefixedKey lastConfirmedPrefix bundleId
  | epochIndex key => BundleRepoRocksDB.epochIndexKey key.poolId key.initEpochIx key.bundleId

/-- What comes after the prefix. -/
def body : BundleKey → Bytes
  | state stateId => Serialize.serialize stateId
  | predictionLink stateId => Serialize.serialize stateId
  | lastPredicted bundleId => Serialize.serialize bundleId
  | lastConfirmed bundleId => Serialize.serialize bundleId
  | epochIndex key => Serialize.serialize key.poolId ++
      (Bincode.uint 4 (2 ^ 32 - 1 - key.initEpochIx) ++ Serialize.serialize key.bundleId)

theorem bytes_eq (key : BundleKey) : key.bytes = Bincode.str key.kind.pfx ++ key.body := by
  cases key with
  | epochIndex key =>
      rw [bytes, BundleRepoRocksDB.epochIndexKey, epochIndexPrefix, List.append_assoc,
        List.append_assoc]
      rfl
  | _ => rfl

/-- A key begins with the prefix of its own kind only. -/
theorem pfx_prefix_iff {key : BundleKey} {kind : BundleKeyKind} :
    Bincode.str kind.pfx <+: key.bytes ↔ key.kind = kind := by
  rw [bytes_eq, Bincode.str_prefix_iff kind.length_pfx key.kind.length_pfx]
  constructor
  · exact fun h => (BundleKeyKind.pfx_injective h).symm
  · rintro rfl
    rfl

/-- The keys that begin with a pool and an epoch are those of its bundles in the index. -/
theorem prefix_bytes_iff {key : BundleKey} (hkey : key.FitsEpoch) {poolId : PoolId} {epochIx : ℕ}
    (hepoch : epochIx < 2 ^ 32) : epochIndexPrefix poolId epochIx <+: key.bytes ↔
      ∃ bundleId, key = .epochIndex ⟨poolId, epochIx, bundleId⟩ := by
  constructor
  · intro h
    have hstr : Bincode.str BundleKeyKind.epochIndex.pfx <+: epochIndexPrefix poolId epochIx := by
      rw [epochIndexPrefix, List.append_assoc]
      exact List.prefix_append _ _
    have hkind : key.kind = .epochIndex := pfx_prefix_iff.mp (hstr.trans h)
    cases key with
    | epochIndex key =>
        obtain ⟨rest, hrest⟩ := h
        rw [bytes, BundleRepoRocksDB.epochIndexKey] at hrest
        have hinj := List.append_inj_left hrest (by simp only [length_epochIndexPrefix])
        obtain ⟨rfl, rfl⟩ := epochIndexPrefix_injective hepoch hkey hinj
        exact ⟨key.bundleId, rfl⟩
    | _ => cases hkind
  · rintro ⟨bundleId, rfl⟩
    rw [bytes, BundleRepoRocksDB.epochIndexKey]
    exact List.prefix_append _ _

end BundleKey

/-! ## The loop -/

namespace BundleRepoRocksDB

variable {poolId : PoolId} {epochIx : ℕ} {bundleId : BundleId}

/-- Over keys of the pool and the epoch, the loop collects all bundles. -/
theorem selectLoop_eq (hepoch : epochIx < 2 ^ 32) {entries : List (Bytes × BundleValue)}
    {ids acc : List BundleId}
    (hkeys : entries.map Prod.fst = ids.map (epochIndexKey poolId epochIx))
    (hnodup : (acc ++ ids).Nodup) : selectLoop poolId epochIx acc entries = .ok (acc ++ ids) := by
  induction entries generalizing acc ids with
  | nil =>
      obtain rfl := List.map_eq_nil_iff.mp hkeys.symm
      rw [List.append_nil]
      rfl
  | cons entry rest ih =>
      cases ids with
      | nil => cases hkeys
      | cons id ids =>
          obtain ⟨hkey, hkeys⟩ := List.cons.inj hkeys
          have hnew : id ∉ acc := by
            have hdisjoint := List.disjoint_of_nodup_append hnodup
            exact fun hmem => hdisjoint hmem List.mem_cons_self
          have hrest : (acc ++ [id] ++ ids).Nodup := by
            rw [List.append_assoc]
            exact hnodup
          have hdestructure : destructureEpochIndexKey entry.1 = some (poolId, id, epochIx) := by
            rw [hkey, destructureEpochIndexKey_epochIndexKey hepoch]
          rw [selectLoop, hdestructure]
          simp only [if_pos, hnew, not_false_eq_true, and_self]
          rw [ih hkeys hrest, List.append_assoc]
          rfl

/-! ## What is selected -/

variable [Serialize BundleStateId] {db db' : BundleRepoRocksDB}

/-- All keys are those of entries. -/
def Keyed (db : BundleRepoRocksDB) : Prop :=
  ∀ bytes ∈ db.keys, ∃ key : BundleKey, key.FitsEpoch ∧ key.bytes = bytes

theorem keyed_empty : Keyed .empty := fun _ hmem => absurd hmem List.not_mem_nil

theorem Keyed.write (h : db.Keyed) (key : BundleKey) (hkey : key.FitsEpoch) (value : BundleValue) :
    Keyed (Database.write db key.bytes value) := by
  intro bytes hmem
  rcases Table.mem_keys_put.mp hmem with rfl | hmem
  · exact ⟨key, hkey, rfl⟩
  · exact h bytes hmem

theorem Keyed.delete (h : db.Keyed) (bytes : Bytes) : Keyed (Database.delete db bytes) :=
  fun _ hmem => h _ (Table.mem_keys_remove.mp hmem).1

theorem Keyed.exec (h : db.Keyed) {call : BundleCall} (hcall : call.FitsEpoch) :
    (db.exec call).Keyed := by
  cases call with
  | putConfirmed st =>
      have hstate := h.write (.state (OnChainEntity.getSelfStateRef st)) trivial (.state st)
      have hlast := hstate.write (.lastConfirmed (OnChainEntity.getSelfRef st)) trivial
        (.stateId (OnChainEntity.getSelfStateRef st))
      have hindex := hlast.write (.epochIndex (indexEntry st)) hcall .dummy
      exact hindex.delete _
  | putPredicted traced =>
      have hstate := h.write (.state (OnChainEntity.getSelfStateRef traced.state)) trivial
        (.state traced.state)
      have hlast := hstate.write (.lastPredicted (OnChainEntity.getSelfRef traced.state)) trivial
        (.stateId (OnChainEntity.getSelfStateRef traced.state))
      have hindex := hlast.write (.epochIndex (indexEntry traced.state)) hcall .dummy
      rw [BundleRepoRocksDB.exec, putPredicted]
      cases traced.prevStateId with
      | none => exact hindex
      | some prevSid =>
          exact hindex.write (.predictionLink (OnChainEntity.getSelfStateRef traced.state)) trivial
            (.stateId prevSid)
  | invalidate stateId => exact (h.delete _).delete _
  | eliminate bundleSt => exact ((h.delete _).delete _).delete _

/-- The bundles with a key for the pool and the epoch are selected, each once. -/
theorem Keyed.select (h : db.Keyed) (poolId : PoolId) (hepoch : epochIx < 2 ^ 32) :
    ∃ ids, db.select poolId epochIx = .ok ids ∧ ids.Nodup ∧
      ∀ bundleId, bundleId ∈ ids ↔ epochIndexKey poolId epochIx bundleId ∈ db.keys := by
  have hrange : ∀ bytes, bytes ∈ (db.scan (epochIndexPrefix poolId epochIx)).map Prod.fst ↔
      bytes ∈ db.keys ∧ epochIndexPrefix poolId epochIx <+: bytes := by
    intro bytes
    rw [List.mem_map, Table.keys, List.mem_map]
    constructor
    · rintro ⟨entry, hentry, rfl⟩
      obtain ⟨hmem, hprefix⟩ := Database.mem_scan.mp hentry
      exact ⟨⟨entry, hmem, rfl⟩, hprefix⟩
    · rintro ⟨⟨entry, hmem, rfl⟩, hprefix⟩
      exact ⟨entry, Database.mem_scan.mpr ⟨hmem, hprefix⟩, rfl⟩
  have hkeys : ∃ ids : List BundleId, ids.map (epochIndexKey poolId epochIx) =
      (db.scan (epochIndexPrefix poolId epochIx)).map Prod.fst := by
    rw [← Set.mem_range, Set.range_list_map]
    intro bytes hmem
    obtain ⟨hstored, hprefix⟩ := (hrange bytes).mp hmem
    obtain ⟨key, hfits, rfl⟩ := h bytes hstored
    obtain ⟨bundleId, rfl⟩ := (BundleKey.prefix_bytes_iff hfits hepoch).mp hprefix
    exact ⟨bundleId, rfl⟩
  obtain ⟨ids, hids⟩ := hkeys
  have hnodup : ids.Nodup := by
    have hscan : ((db.scan (epochIndexPrefix poolId epochIx)).map Prod.fst).Nodup :=
      Database.nodup_keys_scan
    exact List.Nodup.of_map _ (hids ▸ hscan)
  refine ⟨ids, selectLoop_eq hepoch hids.symm hnodup, hnodup, ?_⟩
  intro bundleId
  have hmem : bundleId ∈ ids ↔ epochIndexKey poolId epochIx bundleId ∈
      ids.map (epochIndexKey poolId epochIx) := by
    rw [List.mem_map]
    constructor
    · exact fun hmem => ⟨bundleId, hmem, rfl⟩
    · rintro ⟨other, hmem, heq⟩
      exact epochIndexKey_injective heq ▸ hmem
  rw [hmem, hids, hrange]
  exact and_iff_left (List.prefix_append _ _)

/-- An operation on a state whose epoch is a `u32`. -/
def Step (db : BundleRepoRocksDB) (call : BundleCall) (db' : BundleRepoRocksDB) : Prop :=
  call.FitsEpoch ∧ db' = db.exec call

theorem keyed_of_run {calls : List BundleCall} (hrun : Run Step .empty calls db) : db.Keyed := by
  apply hrun.invariant _ keyed_empty
  rintro db call db' h ⟨hcall, rfl⟩
  exact h.exec hcall

/-- The destructor inverts the keys of the epoch index, and in every database that the operations
build, `select` scans exactly the requested epoch. -/
theorem select_of_run :
    (∀ (poolId : PoolId) (epochIx : UInt32) (bundleId : BundleId),
      destructureEpochIndexKey (epochIndexKey poolId epochIx.toNat bundleId) =
        some (poolId, bundleId, epochIx.toNat)) ∧
    ∀ (calls : List BundleCall) (db : BundleRepoRocksDB), Run Step .empty calls db →
      ∀ (poolId : PoolId) (epochIx : UInt32), ∃ ids, db.select poolId epochIx.toNat = .ok ids ∧
        ids.Nodup ∧ ∀ bundleId,
          bundleId ∈ ids ↔ epochIndexKey poolId epochIx.toNat bundleId ∈ db.keys := by
  constructor
  · intro poolId epochIx bundleId
    exact destructureEpochIndexKey_epochIndexKey epochIx.toNat_lt
  · intro calls db hrun poolId epochIx
    exact (keyed_of_run hrun).select poolId epochIx.toNat_lt

end BundleRepoRocksDB

namespace BundleKeys.Sample

open Staking.Sample SpectrumOffchain.Sample EpochIndex.Sample BundleRepoRocksDB

/-- The database with a staked bundle. -/
def stored : BundleRepoRocksDB := putConfirmed .empty (staked 40 1)

theorem run_stored : Run Step .empty [.putConfirmed (staked 40 1)] stored :=
  .single ⟨one_lt_u32, rfl⟩

theorem mem_stored : BundleRepoRocksDB.epochIndexKey Staking.Sample.bundle.poolId 1
    Staking.Sample.bundle.bundleId ∈ stored.keys := by
  refine Table.mem_keys_remove.mpr ⟨Table.mem_keys_put.mpr (.inl rfl), ?_⟩
  intro heq
  have hepoch := epochIndexPrefix_injective one_lt_u32 zero_lt_u32
    (List.append_inj_left heq (by simp only [length_epochIndexPrefix]))
  exact absurd hepoch.2 (by decide)

end BundleKeys.Sample

open BundleKeys.Sample in
theorem BundleRepoRocksDB.select_of_run_sample : ∃ ids,
    stored.select Staking.Sample.bundle.poolId 1 = .ok ids ∧
      Staking.Sample.bundle.bundleId ∈ ids := by
  obtain ⟨ids, hselect, -, hmem⟩ :=
    BundleRepoRocksDB.select_of_run.2 _ _ run_stored Staking.Sample.bundle.poolId 1
  exact ⟨ids, hselect, (hmem _).mpr mem_stored⟩

end SpectrumOffchain.Resolver
