import SpectrumOffchain.Lib.Store
import SpectrumOffchain.Lib.Transition

/-!
# The repository of entity states

`EntityRepoRocksDB` stores the states of on-chain entities by their state ids, and for
each entity the ids of its last predicted, confirmed and unconfirmed states.  A predicted
state is linked to the state it was predicted from.  The database keys are a prefix
followed by an id, and the prefixes are distinct, so that each kind of key is a store of
its own.  Every operation is one transaction of the database.
-/

namespace SpectrumOffchain

/-- `trait OnChainEntity`. -/
class OnChainEntity (TEntity : Type) (TEntityId TStateId : outParam Type) where
  getSelfRef : TEntity → TEntityId
  getSelfStateRef : TEntity → TStateId

namespace Resolver

export OnChainEntity (getSelfRef getSelfStateRef)

/-- A state, and the one it was predicted from. -/
structure Traced (TEntity : Type) {TEntityId TStateId : Type}
    [OnChainEntity TEntity TEntityId TStateId] where
  state : TEntity
  prevStateId : Option TStateId

variable {TEntity TEntityId TStateId : Type} [OnChainEntity TEntity TEntityId TStateId]

structure EntityRepo (TEntity : Type) {TEntityId TStateId : Type}
    [OnChainEntity TEntity TEntityId TStateId] where
  state : Store TStateId TEntity
  predictionLink : Store TStateId TStateId
  lastPredicted : Store TEntityId TStateId
  lastConfirmed : Store TEntityId TStateId
  lastUnconfirmed : Store TEntityId TStateId

namespace EntityRepo

def empty : EntityRepo TEntity := ⟨.empty, .empty, .empty, .empty, .empty⟩

def getPredictionPredecessor (repo : EntityRepo TEntity) (sid : TStateId) : Option TStateId :=
  repo.predictionLink.get sid

def getLastPredicted (repo : EntityRepo TEntity) (id : TEntityId) : Option TEntity :=
  (repo.lastPredicted.get id).bind fun sid =>
    if (repo.predictionLink.get sid).isSome then repo.state.get sid else none

def getLastConfirmed (repo : EntityRepo TEntity) (id : TEntityId) : Option TEntity :=
  (repo.lastConfirmed.get id).bind fun sid =>
    if (repo.lastConfirmed.get id).isSome then repo.state.get sid else none

def getLastUnconfirmed (repo : EntityRepo TEntity) (id : TEntityId) : Option TEntity :=
  (repo.lastUnconfirmed.get id).bind fun sid =>
    if (repo.lastUnconfirmed.get id).isSome then repo.state.get sid else none

def getState (repo : EntityRepo TEntity) (sid : TStateId) : Option TEntity := repo.state.get sid

variable [DecidableEq TEntityId] [DecidableEq TStateId]

def putPredicted (repo : EntityRepo TEntity) (traced : Traced TEntity) : EntityRepo TEntity :=
  { repo with
    state := repo.state.put (getSelfStateRef traced.state) traced.state
    lastPredicted := repo.lastPredicted.put (getSelfRef traced.state) (getSelfStateRef traced.state)
    predictionLink := match traced.prevStateId with
      | some prevSid => repo.predictionLink.put (getSelfStateRef traced.state) prevSid
      | none => repo.predictionLink }

def putConfirmed (repo : EntityRepo TEntity) (entity : TEntity) : EntityRepo TEntity :=
  { repo with
    state := repo.state.put (getSelfStateRef entity) entity
    lastConfirmed := repo.lastConfirmed.put (getSelfRef entity) (getSelfStateRef entity) }

def putUnconfirmed (repo : EntityRepo TEntity) (entity : TEntity) : EntityRepo TEntity :=
  { repo with
    state := repo.state.put (getSelfStateRef entity) entity
    lastUnconfirmed := repo.lastUnconfirmed.put (getSelfRef entity) (getSelfStateRef entity) }

def invalidate (repo : EntityRepo TEntity) (sid : TStateId) (eid : TEntityId) :
    EntityRepo TEntity :=
  { repo with
    lastConfirmed := match repo.getPredictionPredecessor sid with
      | some predecessor => repo.lastConfirmed.put eid predecessor
      | none => repo.lastConfirmed.delete eid
    predictionLink := repo.predictionLink.delete sid
    lastUnconfirmed := repo.lastUnconfirmed.delete eid }

def eliminate (repo : EntityRepo TEntity) (entity : TEntity) : EntityRepo TEntity :=
  { repo with
    predictionLink := repo.predictionLink.delete (getSelfStateRef entity)
    lastPredicted := repo.lastPredicted.delete (getSelfRef entity)
    lastConfirmed := repo.lastConfirmed.delete (getSelfRef entity)
    lastUnconfirmed := repo.lastUnconfirmed.delete (getSelfRef entity) }

/-! ## What the operations leave -/

section Lemmas

variable {repo : EntityRepo TEntity} {sid : TStateId} {eid : TEntityId}

omit [DecidableEq TEntityId] [DecidableEq TStateId] in
theorem getLastConfirmed_eq : repo.getLastConfirmed eid =
    (repo.lastConfirmed.get eid).bind repo.state.get := by
  unfold getLastConfirmed
  cases repo.lastConfirmed.get eid <;> rfl

omit [DecidableEq TEntityId] [DecidableEq TStateId] in
theorem getLastUnconfirmed_eq_none (h : repo.lastUnconfirmed.get eid = none) :
    repo.getLastUnconfirmed eid = none := by
  rw [getLastUnconfirmed, h]
  rfl

/-- After `invalidate` the predecessor counts as confirmed. -/
theorem lastConfirmed_invalidate (eid' : TEntityId) :
    (repo.invalidate sid eid).lastConfirmed.get eid' =
      if eid' = eid then repo.predictionLink.get sid else repo.lastConfirmed.get eid' := by
  unfold invalidate getPredictionPredecessor
  dsimp only
  cases repo.predictionLink.get sid with
  | some predecessor => exact Store.get_put
  | none => exact Store.get_delete

theorem predictionLink_putPredicted (traced : Traced TEntity) (sid : TStateId) :
    (repo.putPredicted traced).predictionLink.get sid =
      if sid = getSelfStateRef traced.state ∧ traced.prevStateId.isSome then traced.prevStateId
      else repo.predictionLink.get sid := by
  unfold putPredicted
  cases traced.prevStateId with
  | some prevSid => simp [Store.get_put]
  | none => simp

end Lemmas

end EntityRepo

/-! ## Runs -/

/-- A write to the repository. -/
inductive RepoCall (TEntity : Type) {TEntityId TStateId : Type}
    [OnChainEntity TEntity TEntityId TStateId] where
  | putPredicted (traced : Traced TEntity)
  | putConfirmed (entity : TEntity)
  | putUnconfirmed (entity : TEntity)
  | invalidate (sid : TStateId) (eid : TEntityId)
  | eliminate (entity : TEntity)

namespace RepoCall

variable [DecidableEq TEntityId] [DecidableEq TStateId]

def exec (repo : EntityRepo TEntity) : RepoCall TEntity → EntityRepo TEntity
  | putPredicted traced => repo.putPredicted traced
  | putConfirmed entity => repo.putConfirmed entity
  | putUnconfirmed entity => repo.putUnconfirmed entity
  | invalidate sid eid => repo.invalidate sid eid
  | eliminate entity => repo.eliminate entity

/-- The state that the call stores. -/
def stored : RepoCall TEntity → Option TEntity
  | putPredicted traced => some traced.state
  | putConfirmed entity => some entity
  | putUnconfirmed entity => some entity
  | invalidate _ _ => none
  | eliminate _ => none

/-- States are only ever stored, and each under its own id. -/
theorem state_exec (repo : EntityRepo TEntity) (call : RepoCall TEntity) :
    (call.exec repo).state = match call.stored with
      | some entity => repo.state.put (getSelfStateRef entity) entity
      | none => repo.state := by
  cases call <;> rfl

end RepoCall

namespace Sample

/-- States that are pairs of an entity and a state id. -/
scoped instance : OnChainEntity (ℕ × ℕ) ℕ ℕ := ⟨Prod.fst, Prod.snd⟩

end Sample

end Resolver

end SpectrumOffchain
