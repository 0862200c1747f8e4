import SpectrumOffchain.Binary
import SpectrumOffchain.Lib.Database
import SpectrumOffchain.Resolver.Resolve

/-!
# The database of the entities

`EntityRepoRocksDB` keeps the states, the links and the three indices of last states in one
database of bytes, under keys that begin with different prefixes.  A read decodes what it
finds, twice where it goes through an index, and takes what it cannot decode for missing.

The repository has a store for each kind of entry.  `Represents` says that under the key of
an entry the database has what `bincode` makes of the entry of the repository.  A call
leaves this true (`Represents.exec`), and under it every read of the database is the read
of the repository (`Reads`), the walk along the prediction links included.

What `bincode` makes of ids and states is a parameter, and so is the law it is used by,
that what was written is read back.

## Strategy

The entries of the repository are one table (`lookup`), whose keys are told apart by their
kind and their id.  No prefix begins another one, since each is written with its length, and
behind the prefix the id is read back, so distinct keys are distinct as bytes
(`EntityKey.bytes_injective`).  Each operation of the repository changes the table at a few
keys (`lookup_putConfirmed` and its siblings), and the operation on the database makes the
same changes to the bytes.

A read through an index decodes an id and reads under it (`Represents.readThrough`).
-/

namespace SpectrumOffchain

namespace Resolver

open Transition Links

abbrev EntityRepoRocksDB := Database UInt8 Bytes

namespace EntityRepoRocksDB

def statePrefix : String := "state"

def predictionLinkPrefix : String := "prediction:link"

def lastPredictedPrefix : String := "predicted:last"

def lastConfirmedPrefix : String := "confirmed:last"

def lastUnconfirmedPrefix : String := "unconfirmed:last"

end EntityRepoRocksDB

section

variable {TEntity TEntityId TStateId : Type} [Deserialize TEntity] [Serialize TEntityId]
  [Deserialize TStateId]

open Deserialize (deserialize)

open Serialize (serialize)

namespace EntityRepoRocksDB

def getPredictionPredecessor (db : EntityRepoRocksDB) (sid : TStateId) : Option TStateId :=
  (db.read (prefixedKey predictionLinkPrefix sid)).bind deserialize

/-- The state whose id is under `indexKey`, if there is something under the key that is made of
this id. -/
def readThrough (db : EntityRepoRocksDB) (indexKey : Bytes) (witnessKey : TStateId → Bytes) :
    Option TEntity :=
  (db.read indexKey).bind fun bytes =>
    (deserialize bytes : Option TStateId).bind fun sid =>
      (if (db.read (witnessKey sid)).isSome then db.read (prefixedKey statePrefix sid)
        else none).bind deserialize

def getLastPredicted [OnChainEntity TEntity TEntityId TStateId] (db : EntityRepoRocksDB)
    (id : TEntityId) : Option TEntity :=
  db.readThrough (prefixedKey lastPredictedPrefix id)
    fun sid : TStateId => prefixedKey predictionLinkPrefix sid

/-- The index is read twice. -/
def getLastConfirmed [OnChainEntity TEntity TEntityId TStateId] (db : EntityRepoRocksDB)
    (id : TEntityId) : Option TEntity :=
  db.readThrough (prefixedKey lastConfirmedPrefix id)
    fun _ : TStateId => prefixedKey lastConfirmedPrefix id

def getLastUnconfirmed [OnChainEntity TEntity TEntityId TStateId] (db : EntityRepoRocksDB)
    (id : TEntityId) : Option TEntity :=
  db.readThrough (prefixedKey lastUnconfirmedPrefix id)
    fun _ : TStateId => prefixedKey lastUnconfirmedPrefix id

def getState (db : EntityRepoRocksDB) (sid : TStateId) : Option TEntity :=
  (db.read (prefixedKey statePrefix sid)).bind deserialize

variable [OnChainEntity TEntity TEntityId TStateId]

def putPredicted (db : EntityRepoRocksDB) (traced : Traced TEntity) : EntityRepoRocksDB :=
  let entity := traced.state
  let stateId : TStateId := getSelfStateRef entity
  let db := db.write (prefixedKey statePrefix stateId) (serialize entity)
  let db := db.write (prefixedKey lastPredictedPrefix (getSelfRef entity)) (serialize stateId)
  match traced.prevStateId with
  | some prevSid => db.write (prefixedKey predictionLinkPrefix stateId) (serialize prevSid)
  | none => db

def putConfirmed (db : EntityRepoRocksDB) (entity : TEntity) : EntityRepoRocksDB :=
  let stateId : TStateId := getSelfStateRef entity
  let db := db.write (prefixedKey statePrefix stateId) (serialize entity)
  db.write (prefixedKey lastConfirmedPrefix (getSelfRef entity)) (serialize stateId)

def putUnconfirmed (db : EntityRepoRocksDB) (entity : TEntity) : EntityRepoRocksDB :=
  let stateId : TStateId := getSelfStateRef entity
  let db := db.write (prefixedKey statePrefix stateId) (serialize entity)
  db.write (prefixedKey lastUnconfirmedPrefix (getSelfRef entity)) (serialize stateId)

def invalidate (db : EntityRepoRocksDB) (sid : TStateId) (eid : TEntityId) :
    EntityRepoRocksDB :=
  let predecessor : Option TStateId := db.getPredictionPredecessor sid
  let db := match predecessor with
    | some predecessor => db.write (prefixedKey lastConfirmedPrefix eid) (serialize predecessor)
    | none => db.delete (prefixedKey lastConfirmedPrefix eid)
  let db := db.delete (prefixedKey predictionLinkPrefix sid)
  db.delete (prefixedKey lastUnconfirmedPrefix eid)

def eliminate (db : EntityRepoRocksDB) (entity : TEntity) : EntityRepoRocksDB :=
  let stateId : TStateId := getSelfStateRef entity
  let db := db.delete (prefixedKey predictionLinkPrefix stateId)
  let db := db.delete (prefixedKey lastPredictedPrefix (getSelfRef entity))
  let db := db.delete (prefixedKey lastConfirmedPrefix (getSelfRef entity))
  db.delete (prefixedKey lastUnconfirmedPrefix (getSelfRef entity))

/-- Whether the predictions from `sid` back lead to `anchoringSid`. -/
def isLinking [DecidableEq TStateId] (db : EntityRepoRocksDB) (sid anchoringSid : TStateId)
    (rounds : ℕ) : Option Bool :=
  follow (fun sid : TStateId => db.getPredictionPredecessor sid) anchoringSid rounds sid

/-- `resolve_entity_state` over this repository. -/
def resolveEntityState [DecidableEq TStateId] (db : EntityRepoRocksDB) (id : TEntityId)
    (rounds : ℕ) : Option (Option TEntity) :=
  match (db.getLastConfirmed id : Option TEntity), (db.getLastUnconfirmed id : Option TEntity),
      (db.getLastPredicted id : Option TEntity) with
  | some conf, unconf, some pred =>
      let anchoringPoint := unconf.getD conf
      let anchoringSid := getSelfStateRef anchoringPoint
      let predictedSid := getSelfStateRef pred
      if predictedSid = anchoringSid then some (some pred)
      else (db.isLinking predictedSid anchoringSid rounds).map fun predictionIsValid =>
        some (if predictionIsValid then pred else anchoringPoint)
  | _, some unconf, none => some (some unconf)
  | some conf, _, _ => some (some conf)
  | _, _, _ => some none

def exec (db : EntityRepoRocksDB) : RepoCall TEntity → EntityRepoRocksDB
  | .putPredicted traced => db.putPredicted traced
  | .putConfirmed entity => db.putConfirmed entity
  | .putUnconfirmed entity => db.putUnconfirmed entity
  | .invalidate sid eid => db.invalidate sid eid
  | .eliminate entity => db.eliminate entity

end EntityRepoRocksDB

end

/-! ## The kinds of keys -/

inductive EntityKeyKind where
  | state
  | predictionLink
  | lastPredicted
  | lastConfirmed
  | lastUnconfirmed
  deriving DecidableEq, Repr

/-- The key of an entry. -/
inductive EntityKey (TEntityId TStateId : Type) where
  | state (sid : TStateId)
  | predictionLink (sid : TStateId)
  | lastPredicted (eid : TEntityId)
  | lastConfirmed (eid : TEntityId)
  | lastUnconfirmed (eid : TEntityId)
  deriving DecidableEq, Repr

open EntityRepoRocksDB

namespace EntityKeyKind

def pfx : EntityKeyKind → String
  | state => statePrefix
  | predictionLink => predictionLinkPrefix
  | lastPredicted => lastPredictedPrefix
  | lastConfirmed => lastConfirmedPrefix
  | lastUnconfirmed => lastUnconfirmedPrefix

theorem pfx_injective {kind kind' : EntityKeyKind} (h : kind.pfx = kind'.pfx) : kind = kind' := by
  revert h
  cases kind <;> cases kind' <;> decide

theorem length_pfx (kind : EntityKeyKind) : (Bincode.text kind.pfx).length < 2 ^ 64 := by
  cases kind <;> decide

end EntityKeyKind

namespace EntityKey

variable {TEntityId TStateId : Type}

def kind : EntityKey TEntityId TStateId → EntityKeyKind
  | state _ => .state
  | predictionLink _ => .predictionLink
  | lastPredicted _ => .lastPredicted
  | lastConfirmed _ => .lastConfirmed
  | lastUnconfirmed _ => .lastUnconfirmed

variable [Serialize TEntityId] [Serialize TStateId]

/-- What comes after the prefix. -/
def body : EntityKey TEntityId TStateId → Bytes
  | state sid => Serialize.serialize sid
  | predictionLink sid => Serialize.serialize sid
  | lastPredicted eid => Serialize.serialize eid
  | lastConfirmed eid => Serialize.serialize eid
  | lastUnconfirmed eid => Serialize.serialize eid

def bytes (key : EntityKey TEntityId TStateId) : Bytes := Bincode.str key.kind.pfx ++ key.body

end EntityKey

theorem EntityKey.pfx_prefix_iff {TEntityId TStateId : Type} [Serialize TEntityId]
    [Serialize TStateId] {kind : EntityKeyKind} {key : EntityKey TEntityId TStateId} :
    Bincode.str kind.pfx <+: key.bytes ↔ key.kind = kind := by
  rw [bytes, Bincode.str_prefix_iff kind.length_pfx key.kind.length_pfx]
  exact ⟨fun h => (EntityKeyKind.pfx_injective h).symm, fun h => by rw [h]⟩

theorem EntityKey.bytes_injective {TEntityId TStateId : Type} [Deserialize TEntityId]
    [Deserialize TStateId] (key key' : EntityKey TEntityId TStateId)
    (h : key.bytes = key'.bytes) : key = key' := by
  have hkind : key'.kind = key.kind := by
    rw [← pfx_prefix_iff, ← h]
    exact pfx_prefix_iff.mpr rfl
  rw [bytes, bytes, hkind] at h
  have hbody : key.body = key'.body := List.append_cancel_left h
  cases key <;> cases key' <;> cases hkind <;>
    exact congrArg _ (Deserialize.serialize_injective hbody)

/-! ## What the database represents -/

section Lookup

variable {TEntity TEntityId TStateId : Type} [OnChainEntity TEntity TEntityId TStateId]
  [Serialize TEntity] [Serialize TStateId]

open Serialize (serialize)

namespace EntityRepo

/-- What the repository has under a key, in bytes. -/
def lookup (repo : EntityRepo TEntity) : EntityKey TEntityId TStateId → Option Bytes
  | .state sid => (repo.state.get sid).map serialize
  | .predictionLink sid => (repo.predictionLink.get sid).map serialize
  | .lastPredicted eid => (repo.lastPredicted.get eid).map serialize
  | .lastConfirmed eid => (repo.lastConfirmed.get eid).map serialize
  | .lastUnconfirmed eid => (repo.lastUnconfirmed.get eid).map serialize

variable [DecidableEq TEntityId] [DecidableEq TStateId] (repo : EntityRepo TEntity)

theorem lookup_putConfirmed (entity : TEntity) : (repo.putConfirmed entity).lookup =
    Function.update (Function.update repo.lookup
      (.state (getSelfStateRef entity)) (some (serialize entity)))
      (.lastConfirmed (getSelfRef entity)) (some (serialize (getSelfStateRef entity))) := by
  funext key
  cases key <;> simp [Function.update_apply, lookup, putConfirmed, Store.map_get_put]

theorem lookup_putUnconfirmed (entity : TEntity) : (repo.putUnconfirmed entity).lookup =
    Function.update (Function.update repo.lookup
      (.state (getSelfStateRef entity)) (some (serialize entity)))
      (.lastUnconfirmed (getSelfRef entity)) (some (serialize (getSelfStateRef entity))) := by
  funext key
  cases key <;> simp [Function.update_apply, lookup, putUnconfirmed, Store.map_get_put]

theorem lookup_putPredicted (entity : TEntity) : (repo.putPredicted ⟨entity, none⟩).lookup =
    Function.update (Function.update repo.lookup
      (.state (getSelfStateRef entity)) (some (serialize entity)))
      (.lastPredicted (getSelfRef entity)) (some (serialize (getSelfStateRef entity))) := by
  funext key
  cases key <;> simp [Function.update_apply, lookup, putPredicted, Store.map_get_put]

theorem lookup_putPredicted_some (entity : TEntity) (prevSid : TStateId) :
    (repo.putPredicted ⟨entity, some prevSid⟩).lookup =
      Function.update (repo.putPredicted ⟨entity, none⟩).lookup
        (.predictionLink (getSelfStateRef entity)) (some (serialize prevSid)) := by
  funext key
  cases key <;> simp [Function.update_apply, lookup, putPredicted, Store.map_get_put]

theorem lookup_invalidate (sid : TStateId) (eid : TEntityId) :
    (repo.invalidate sid eid).lookup =
      Function.update (Function.update (Function.update repo.lookup
        (.lastConfirmed eid) ((repo.getPredictionPredecessor sid).map serialize))
        (.predictionLink sid) none)
        (.lastUnconfirmed eid) none := by
  funext key
  cases key with
  | lastConfirmed eid' =>
      rw [lookup, lastConfirmed_invalidate, apply_ite (Option.map serialize)]
      simp [Function.update_apply, lookup, getPredictionPredecessor]
  | _ => simp [Function.update_apply, lookup, invalidate, Store.map_get_delete]

theorem lookup_eliminate (entity : TEntity) : (repo.eliminate entity).lookup =
    Function.update (Function.update (Function.update (Function.update repo.lookup
      (.predictionLink (getSelfStateRef entity)) none)
      (.lastPredicted (getSelfRef entity)) none)
      (.lastConfirmed (getSelfRef entity)) none)
      (.lastUnconfirmed (getSelfRef entity)) none := by
  funext key
  cases key <;> simp [Function.update_apply, lookup, eliminate, Store.map_get_delete]

end EntityRepo

end Lookup

section Represents

variable {TEntity TEntityId TStateId : Type} [OnChainEntity TEntity TEntityId TStateId]
  [Deserialize TEntity] [Deserialize TEntityId] [Deserialize TStateId]

open Serialize (serialize)

namespace EntityRepoRocksDB

/-- Under each key the database has what the repository has. -/
def Represents (repo : EntityRepo TEntity) (db : EntityRepoRocksDB) : Prop :=
  Database.Encodes EntityKey.bytes (fun _ => True) repo.lookup db

theorem represents_empty : Represents (.empty : EntityRepo TEntity) .empty := by
  intro key _
  cases key <;> rfl

/-! ### Reading -/

section Reading

variable {repo : EntityRepo TEntity} {db : EntityRepoRocksDB}

theorem Represents.read (h : Represents repo db) (key : EntityKey TEntityId TStateId) :
    db.read key.bytes = repo.lookup key :=
  h key trivial

theorem bind_deserialize {T : Type} [Deserialize T] (o : Option T) :
    (o.map serialize).bind Deserialize.deserialize = o := by
  cases o with
  | none => rfl
  | some a => exact Deserialize.deserialize_serialize a

theorem Represents.getPredictionPredecessor (h : Represents repo db) (sid : TStateId) :
    db.getPredictionPredecessor sid = repo.getPredictionPredecessor sid := by
  have hread := h.read (.predictionLink sid)
  change db.read (prefixedKey predictionLinkPrefix sid) = _ at hread
  rw [EntityRepoRocksDB.getPredictionPredecessor, hread]
  exact bind_deserialize _

theorem Represents.getState (h : Represents repo db) (sid : TStateId) :
    (db.getState sid : Option TEntity) = repo.getState sid := by
  have hread := h.read (.state sid)
  change db.read (prefixedKey statePrefix sid) = _ at hread
  rw [EntityRepoRocksDB.getState, hread]
  exact bind_deserialize _

/-- A read through an index is decoded to the read through a store. -/
theorem Represents.readThrough (h : Represents repo db) {index : Store TEntityId TStateId}
    {eid : TEntityId} {indexKey : Bytes} {witnessKey : TStateId → Bytes}
    {present : TStateId → Bool}
    (hindex : db.read indexKey = (index.get eid).map serialize)
    (hwitness : ∀ sid, (db.read (witnessKey sid)).isSome = present sid) :
    db.readThrough indexKey witnessKey =
      (index.get eid).bind fun sid => if present sid then repo.state.get sid else none := by
  rw [EntityRepoRocksDB.readThrough, hindex]
  cases index.get eid with
  | none => rfl
  | some sid =>
      have hstate := h.read (.state sid)
      change db.read (prefixedKey statePrefix sid) = _ at hstate
      simp only [Option.map_some, Option.bind_some, Deserialize.deserialize_serialize, hwitness,
        hstate, EntityRepo.lookup]
      split_ifs
      · exact bind_deserialize _
      · rfl

theorem Represents.getLastPredicted (h : Represents repo db) (eid : TEntityId) :
    (db.getLastPredicted eid : Option TEntity) = repo.getLastPredicted eid := by
  refine h.readThrough (h.read (.lastPredicted eid)) fun sid => ?_
  have hlink := h.read (.predictionLink sid)
  change db.read (prefixedKey predictionLinkPrefix sid) = _ at hlink
  rw [hlink]
  exact Option.isSome_map

theorem Represents.getLastConfirmed (h : Represents repo db) (eid : TEntityId) :
    (db.getLastConfirmed eid : Option TEntity) = repo.getLastConfirmed eid := by
  have hindex := h.read (.lastConfirmed eid)
  refine h.readThrough hindex fun _ => ?_
  change db.read (prefixedKey lastConfirmedPrefix eid) = _ at hindex
  rw [hindex]
  exact Option.isSome_map

theorem Represents.getLastUnconfirmed (h : Represents repo db) (eid : TEntityId) :
    (db.getLastUnconfirmed eid : Option TEntity) = repo.getLastUnconfirmed eid := by
  have hindex := h.read (.lastUnconfirmed eid)
  refine h.readThrough hindex fun _ => ?_
  change db.read (prefixedKey lastUnconfirmedPrefix eid) = _ at hindex
  rw [hindex]
  exact Option.isSome_map

/-- Everything that is read from the database is what the repository answers. -/
structure Reads (repo : EntityRepo TEntity) (db : EntityRepoRocksDB) [DecidableEq TStateId] :
    Prop where
  getPredictionPredecessor : ∀ sid : TStateId,
    db.getPredictionPredecessor sid = repo.getPredictionPredecessor sid
  getState : ∀ sid : TStateId, (db.getState sid : Option TEntity) = repo.getState sid
  getLastPredicted : ∀ eid : TEntityId,
    (db.getLastPredicted eid : Option TEntity) = repo.getLastPredicted eid
  getLastConfirmed : ∀ eid : TEntityId,
    (db.getLastConfirmed eid : Option TEntity) = repo.getLastConfirmed eid
  getLastUnconfirmed : ∀ eid : TEntityId,
    (db.getLastUnconfirmed eid : Option TEntity) = repo.getLastUnconfirmed eid
  resolveEntityState : ∀ (eid : TEntityId) (rounds : ℕ),
    (db.resolveEntityState eid rounds : Option (Option TEntity)) =
      Resolver.resolveEntityState repo eid rounds

theorem Represents.reads [DecidableEq TStateId] (h : Represents repo db) : Reads repo db where
  getPredictionPredecessor := h.getPredictionPredecessor
  getState := h.getState
  getLastPredicted := h.getLastPredicted
  getLastConfirmed := h.getLastConfirmed
  getLastUnconfirmed := h.getLastUnconfirmed
  resolveEntityState eid rounds := by
    have hnext : (fun sid : TStateId => db.getPredictionPredecessor sid) =
        repo.getPredictionPredecessor := funext h.getPredictionPredecessor
    rw [EntityRepoRocksDB.resolveEntityState, h.getLastConfirmed, h.getLastUnconfirmed,
      h.getLastPredicted]
    unfold EntityRepoRocksDB.isLinking
    rw [hnext]
    rfl

end Reading

/-! ### Writing -/

section Writing

variable [DecidableEq TEntityId] [DecidableEq TStateId] {repo : EntityRepo TEntity}
  {db : EntityRepoRocksDB}

/-- Each call does to the database what it does to the repository. -/
theorem Represents.exec (h : Represents repo db) (call : RepoCall TEntity) :
    Represents (call.exec repo) (db.exec call) := by
  have hinj : ∀ k k' : EntityKey TEntityId TStateId, True → True → k.bytes = k'.bytes → k = k' :=
    fun k k' _ _ => EntityKey.bytes_injective k k'
  have hdb : Database.Encodes EntityKey.bytes (fun _ => True) repo.lookup db := h
  rw [Represents]
  cases call with
  | putPredicted traced =>
      obtain ⟨entity, prevStateId⟩ := traced
      have hstate := hdb.write hinj (.state (getSelfStateRef entity)) trivial (serialize entity)
      have hlast := hstate.write hinj (.lastPredicted (getSelfRef entity)) trivial
        (serialize (getSelfStateRef entity))
      rw [← EntityRepo.lookup_putPredicted] at hlast
      cases prevStateId with
      | none => exact hlast
      | some prevSid =>
          rw [RepoCall.exec, EntityRepo.lookup_putPredicted_some]
          exact hlast.write hinj (.predictionLink (getSelfStateRef entity)) trivial
            (serialize prevSid)
  | putConfirmed entity =>
      have hstate := hdb.write hinj (.state (getSelfStateRef entity)) trivial (serialize entity)
      rw [RepoCall.exec, EntityRepo.lookup_putConfirmed]
      exact hstate.write hinj (.lastConfirmed (getSelfRef entity)) trivial _
  | putUnconfirmed entity =>
      have hstate := hdb.write hinj (.state (getSelfStateRef entity)) trivial (serialize entity)
      rw [RepoCall.exec, EntityRepo.lookup_putUnconfirmed]
      exact hstate.write hinj (.lastUnconfirmed (getSelfRef entity)) trivial _
  | invalidate sid eid =>
      rw [RepoCall.exec, EntityRepo.lookup_invalidate, EntityRepoRocksDB.exec,
        EntityRepoRocksDB.invalidate, h.getPredictionPredecessor]
      -- what is written depends on the link that the database has
      cases repo.getPredictionPredecessor sid with
      | none =>
          have hconf := hdb.delete hinj (.lastConfirmed eid) trivial
          have hlink := hconf.delete hinj (.predictionLink sid) trivial
          exact hlink.delete hinj (.lastUnconfirmed eid) trivial
      | some predecessor =>
          have hconf := hdb.write hinj (.lastConfirmed eid) trivial (serialize predecessor)
          have hlink := hconf.delete hinj (.predictionLink sid) trivial
          exact hlink.delete hinj (.lastUnconfirmed eid) trivial
  | eliminate entity =>
      have hlink := hdb.delete hinj (.predictionLink (getSelfStateRef entity)) trivial
      have hpred := hlink.delete hinj (.lastPredicted (getSelfRef entity)) trivial
      have hconf := hpred.delete hinj (.lastConfirmed (getSelfRef entity)) trivial
      rw [RepoCall.exec, EntityRepo.lookup_eliminate]
      exact hconf.delete hinj (.lastUnconfirmed (getSelfRef entity)) trivial

theorem Represents.foldl (h : Represents repo db) (calls : List (RepoCall TEntity)) :
    Represents (calls.foldl RepoCall.exec repo) (calls.foldl EntityRepoRocksDB.exec db) := by
  induction calls generalizing repo db with
  | nil => exact h
  | cons call rest ih => exact ih (h.exec call)

/-- After any calls on an empty database, everything that is read from it is what the repository
answers after these calls. -/
theorem reads_of_calls (calls : List (RepoCall TEntity)) :
    Reads (calls.foldl RepoCall.exec .empty) (calls.foldl EntityRepoRocksDB.exec .empty) :=
  (represents_empty.foldl calls).reads

end Writing

end EntityRepoRocksDB

end Represents

/-! ## An entity on bytes -/

namespace EntityStorage.Sample

/-- A state that is told by the id of its entity and its own. -/
structure Told where
  id : BundleId
  stateId : BundleStateId
  deriving DecidableEq, Repr

scoped instance : OnChainEntity Told BundleId BundleStateId := ⟨Told.id, Told.stateId⟩

/-- The 32 bytes of the one id, and the digits of the other. -/
scoped instance : Deserialize Told where
  serialize := fun self => self.id.tokenId.bytes ++ serializeId self.stateId.boxId
  deserialize := fun bytes =>
    (BundleId.deserialize bytes).bind fun id =>
      (deserializeId (bytes.drop 32)).map fun boxId => ⟨id, ⟨boxId⟩⟩
  deserialize_serialize := fun self => by
    rw [BundleId.deserialize, Digest32.deserialize_append, List.drop_left' self.id.tokenId.length_eq,
      deserializeId_serializeId]
    rfl

theorem length_replicate_byte (byte : UInt8) : (List.replicate 32 byte).length = 32 :=
  List.length_replicate

def digest (byte : UInt8) : Digest32 := ⟨List.replicate 32 byte, length_replicate_byte byte⟩

def told (byte : UInt8) : Told := ⟨⟨digest 1⟩, ⟨digest byte⟩⟩

/-- The second state is predicted from the first one. -/
def calls : List (RepoCall Told) :=
  [.putConfirmed (told 2), .putPredicted ⟨told 3, some (told 2).stateId⟩]

end EntityStorage.Sample

open EntityStorage.Sample in
theorem EntityRepoRocksDB.reads_of_calls_sample :
    Reads (calls.foldl RepoCall.exec .empty) (calls.foldl EntityRepoRocksDB.exec .empty) ∧
      (calls.foldl EntityRepoRocksDB.exec .empty).resolveEntityState (told 2).id 1 =
        some (some (told 3)) := by
  have hreads := EntityRepoRocksDB.reads_of_calls calls
  refine ⟨hreads, ?_⟩
  rw [hreads.resolveEntityState]
  decide

end Resolver

end SpectrumOffchain
