import SpectrumOffchain.Data.Bundle
import SpectrumOffchain.Lib.Links
import SpectrumOffchain.Lib.Table
import SpectrumOffchain.Resolver.EntityRepo

/-!
# The repository of staking bundles

`BundleRepoRocksDB` stores the states of staking bundles the way `EntityRepoRocksDB` stores
those of other entities.  It has no unconfirmed states, it takes the last predicted state
without asking for its link, and `invalidate` deletes the state.  The epoch index says
which bundles of a pool may be compounded in an epoch.

The states that are stored are taken as readable here.  Loading a bundle whose owner is no single
`ProveDlog` panics instead, and which bundles these are is the subject of `Resolver.Stored`.
-/

namespace SpectrumOffchain

abbrev IndexedStakingBundle := IndexedBundle StakingBundle

/-- `AsBox::map`. -/
def AsBox.map {T U : Type} (f : T → U) (self : AsBox T) : AsBox U := ⟨self.bx, f self.value⟩

namespace Resolver

instance : OnChainEntity StakingBundle BundleId BundleStateId where
  getSelfRef self := self.bundleId
  getSelfStateRef self := self.stateId

instance {B TEntityId TStateId : Type} [OnChainEntity B TEntityId TStateId] :
    OnChainEntity (IndexedBundle B) TEntityId TStateId where
  getSelfRef self := getSelfRef self.bundle
  getSelfStateRef self := getSelfStateRef self.bundle

instance {T TEntityId TStateId : Type} [OnChainEntity T TEntityId TStateId] :
    OnChainEntity (AsBox T) TEntityId TStateId where
  getSelfRef self := getSelfRef self.value
  getSelfStateRef self := getSelfStateRef self.value

/-- A key of the epoch index. -/
structure EpochIndexKey where
  poolId : PoolId
  initEpochIx : ℕ
  bundleId : BundleId
  deriving DecidableEq, Repr

structure BundleRepo where
  state : Store BundleStateId (AsBox IndexedStakingBundle)
  predictionLink : Store BundleStateId BundleStateId
  lastPredicted : Store BundleId BundleStateId
  lastConfirmed : Store BundleId BundleStateId
  epochIndex : Table (fun key : EpochIndexKey => key)

/-- The key of a bundle in the epoch index, for the epoch `epochIx`. -/
def epochIndexKey (st : IndexedStakingBundle) (epochIx : ℕ) : EpochIndexKey :=
  ⟨st.bundle.poolId, epochIx, getSelfRef st⟩

namespace BundleRepo

def empty : BundleRepo := ⟨.empty, .empty, .empty, .empty, .empty⟩

def getState (repo : BundleRepo) (stateId : BundleStateId) : Option (AsBox IndexedStakingBundle) :=
  repo.state.get stateId

def invalidate (repo : BundleRepo) (stateId : BundleStateId) : BundleRepo :=
  { repo with
    state := repo.state.delete stateId
    predictionLink := repo.predictionLink.delete stateId }

def eliminate (repo : BundleRepo) (bundleSt : IndexedStakingBundle) : BundleRepo :=
  { repo with
    lastConfirmed := repo.lastConfirmed.delete (getSelfRef bundleSt)
    lastPredicted := repo.lastPredicted.delete (getSelfRef bundleSt)
    epochIndex := repo.epochIndex.remove (epochIndexKey bundleSt bundleSt.lowerEpochIx) }

def putConfirmed (repo : BundleRepo) (bundleState : AsBox IndexedStakingBundle) : BundleRepo :=
  let lowerEpochIx := bundleState.value.lowerEpochIx
  { repo with
    state := repo.state.put (getSelfStateRef bundleState) bundleState
    lastConfirmed := repo.lastConfirmed.put (getSelfRef bundleState) (getSelfStateRef bundleState)
    -- the entry is written before the one of the previous epoch is deleted
    epochIndex := (repo.epochIndex.put (epochIndexKey bundleState.value lowerEpochIx)).remove
      (epochIndexKey bundleState.value (lowerEpochIx - 1)) }

def putPredicted (repo : BundleRepo) (traced : Traced (AsBox IndexedStakingBundle)) : BundleRepo :=
  let bundleState := traced.state
  { repo with
    state := repo.state.put (getSelfStateRef bundleState) bundleState
    lastPredicted := repo.lastPredicted.put (getSelfRef bundleState) (getSelfStateRef bundleState)
    epochIndex :=
      repo.epochIndex.put (epochIndexKey bundleState.value bundleState.value.lowerEpochIx)
    predictionLink := match traced.prevStateId with
      | some prevSid => repo.predictionLink.put (getSelfStateRef bundleState) prevSid
      | none => repo.predictionLink }

def getLastConfirmed (repo : BundleRepo) (id : BundleId) : Option (AsBox StakingBundle) :=
  ((repo.lastConfirmed.get id).bind repo.state.get).map (AsBox.map IndexedBundle.bundle)

def getLastPredicted (repo : BundleRepo) (id : BundleId) : Option (AsBox StakingBundle) :=
  ((repo.lastPredicted.get id).bind repo.state.get).map (AsBox.map IndexedBundle.bundle)

def getPredictionPredecessor (repo : BundleRepo) (id : BundleStateId) : Option BundleStateId :=
  repo.predictionLink.get id

end BundleRepo

/-- `is_linking` of `bundle.rs`. -/
def isLinkingBundle (repo : BundleRepo) (sid anchoringSid : BundleStateId) (rounds : ℕ) :
    Option Bool :=
  Links.follow repo.getPredictionPredecessor anchoringSid rounds sid

def resolveBundleState (repo : BundleRepo) (bundleId : BundleId) (rounds : ℕ) :
    Option (Option (AsBox StakingBundle)) :=
  match repo.getLastConfirmed bundleId, repo.getLastPredicted bundleId with
  | some conf, some pred =>
      let anchoringPoint := conf
      let anchoringSid := getSelfStateRef anchoringPoint
      let predictedSid := getSelfStateRef pred
      if predictedSid = anchoringSid then some (some pred)
      else (isLinkingBundle repo predictedSid anchoringSid rounds).map fun predictionIsValid =>
        some (if predictionIsValid then pred else anchoringPoint)
  | some conf, none => some (some conf)
  | none, some _ => some none
  | none, none => some none

end Resolver

end SpectrumOffchain
