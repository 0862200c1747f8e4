import SpectrumOffchain.Resolver.BundleKeys

/-!
# What the database of the bundles represents

`BundleRepo` has a store for each kind of entry, and `BundleRepoRocksDB` has one database with the
keys as bytes.  Distinct ids of states are written as distinct bytes, so that distinct entries have
distinct keys (`BundleKey.bytes_injective`), and each operation does to the database what it does
to the stores (`Represents.exec`).  So what holds of the stores in a run holds of the database:
all reads find the same, and `select` on bytes is the abstract one (`reads_of_run`).

Reading a state back is not part of this: a value is a state, an id or an empty entry as it
was written (`BundleValue`).  Whether the bytes of a bundle can be read is a question of its
own, and the answer depends on the owner of the bundle.
-/

namespace SpectrumOffchain.Resolver

open Transition BundleRepoRocksDB

/-- What the repository has under a key. -/
def BundleRepo.lookup (repo : BundleRepo) : BundleKey → Option BundleValue
  | .state stateId => (repo.state.get stateId).map .state
  | .predictionLink stateId => (repo.predictionLink.get stateId).map .stateId
  | .lastPredicted bundleId => (repo.lastPredicted.get bundleId).map .stateId
  | .lastConfirmed bundleId => (repo.lastConfirmed.get bundleId).map .stateId
  | .epochIndex key => if key ∈ repo.epochIndex.keys then some .dummy else none

namespace BundleRepo

variable (repo : BundleRepo)

theorem lookup_putConfirmed (st : AsBox IndexedStakingBundle) : (repo.putConfirmed st).lookup =
    Function.update (Function.update (Function.update (Function.update repo.lookup
      (.state (OnChainEntity.getSelfStateRef st)) (some (.state st)))
      (.lastConfirmed (OnChainEntity.getSelfRef st))
        (some (.stateId (OnChainEntity.getSelfStateRef st))))
      (.epochIndex (indexEntry st)) (some .dummy))
      (.epochIndex (epochIndexKey st.value (st.value.lowerEpochIx - 1))) none := by
  funext key
  cases key with
  | epochIndex key =>
      simp only [Function.update_apply, lookup, putConfirmed, Table.mem_keys_remove,
        Table.mem_keys_put, BundleKey.epochIndex.injEq, reduceCtorEq, if_false, indexEntry]
      split_ifs <;> tauto
  | _ => simp [Function.update_apply, lookup, putConfirmed, Store.map_get_put]

theorem lookup_putPredicted (st : AsBox IndexedStakingBundle) :
    (repo.putPredicted ⟨st, none⟩).lookup =
      Function.update (Function.update (Function.update repo.lookup
        (.state (OnChainEntity.getSelfStateRef st)) (some (.state st)))
        (.lastPredicted (OnChainEntity.getSelfRef st))
          (some (.stateId (OnChainEntity.getSelfStateRef st))))
        (.epochIndex (indexEntry st)) (some .dummy) := by
  funext key
  cases key with
  | epochIndex key =>
      simp only [Function.update_apply, lookup, putPredicted, Table.mem_keys_put,
        BundleKey.epochIndex.injEq, reduceCtorEq, if_false, indexEntry]
      split_ifs <;> tauto
  | _ => simp [Function.update_apply, lookup, putPredicted, Store.map_get_put]

/-- A predecessor adds a link. -/
theorem lookup_putPredicted_some (st : AsBox IndexedStakingBundle) (prevSid : BundleStateId) :
    (repo.putPredicted ⟨st, some prevSid⟩).lookup =
      Function.update (repo.putPredicted ⟨st, none⟩).lookup
        (.predictionLink (OnChainEntity.getSelfStateRef st)) (some (.stateId prevSid)) := by
  funext key
  cases key with
  | predictionLink sid => simp [Function.update_apply, lookup, putPredicted, Store.map_get_put]
  | _ => rfl

theorem lookup_invalidate (stateId : BundleStateId) : (repo.invalidate stateId).lookup =
    Function.update (Function.update repo.lookup (.state stateId) none)
      (.predictionLink stateId) none := by
  funext key
  cases key with
  | epochIndex key => rfl
  | _ => simp [Function.update_apply, lookup, invalidate, Store.map_get_delete]

theorem lookup_eliminate (bundleSt : IndexedStakingBundle) : (repo.eliminate bundleSt).lookup =
    Function.update (Function.update (Function.update repo.lookup
      (.lastConfirmed (OnChainEntity.getSelfRef bundleSt)) none)
      (.lastPredicted (OnChainEntity.getSelfRef bundleSt)) none)
      (.epochIndex (epochIndexKey bundleSt bundleSt.lowerEpochIx)) none := by
  funext key
  cases key with
  | epochIndex key =>
      simp only [Function.update_apply, lookup, eliminate, Table.mem_keys_remove,
        BundleKey.epochIndex.injEq, reduceCtorEq, if_false]
      split_ifs <;> tauto
  | _ => simp [Function.update_apply, lookup, eliminate, Store.map_get_delete]

end BundleRepo

theorem BundleKey.bytes_injective (key key' : BundleKey) (hkey : key.FitsEpoch)
    (hkey' : key'.FitsEpoch) (h : key.bytes = key'.bytes) : key = key' := by
  have hkind : key'.kind = key.kind := by
    rw [← BundleKey.pfx_prefix_iff, ← h]
    exact BundleKey.pfx_prefix_iff.mpr rfl
  rw [BundleKey.bytes_eq, BundleKey.bytes_eq, hkind] at h
  have hbody : key.body = key'.body := List.append_cancel_left h
  cases key <;> cases key' <;> cases hkind
  case state.state.refl => rw [Deserialize.serialize_injective hbody]
  case predictionLink.predictionLink.refl => rw [Deserialize.serialize_injective hbody]
  case lastPredicted.lastPredicted.refl => rw [BundleId.serialize_injective hbody]
  case lastConfirmed.lastConfirmed.refl => rw [BundleId.serialize_injective hbody]
  case epochIndex.epochIndex.refl key key' =>
    obtain ⟨hpool, hrest⟩ := List.append_inj hbody (by simp)
    obtain ⟨hneg, hbundle⟩ := List.append_inj hrest (by simp)
    have hpool := PoolId.serialize_injective hpool
    have hepoch := negEpochIx_injective hkey hkey' hneg
    have hbundle := BundleId.serialize_injective hbundle
    obtain ⟨poolId, epochIx, bundleId⟩ := key
    cases hpool
    cases hepoch
    cases hbundle
    rfl

namespace BundleRepoRocksDB

/-- Under each key the database has what the repository has. -/
def Represents (repo : BundleRepo) (db : BundleRepoRocksDB) : Prop :=
  Database.Encodes BundleKey.bytes BundleKey.FitsEpoch repo.lookup db

theorem represents_empty : Represents .empty .empty := by
  intro key _
  cases key <;> rfl

variable {db : BundleRepoRocksDB} {repo : BundleRepo}

/-- Each operation does to the database what it does to the repository. -/
theorem Represents.exec (h : Represents repo db) {call : BundleCall} (hcall : call.FitsEpoch) :
    Represents (call.exec repo) (db.exec call) := by
  have hinj := BundleKey.bytes_injective
  have h : Database.Encodes BundleKey.bytes BundleKey.FitsEpoch repo.lookup db := h
  rw [Represents]
  cases call with
  | putConfirmed st =>
      have hprev : (BundleKey.epochIndex
          (Resolver.epochIndexKey st.value (st.value.lowerEpochIx - 1))).FitsEpoch :=
        Nat.lt_of_le_of_lt (Nat.sub_le _ _) hcall
      have hstate := h.write hinj (.state (OnChainEntity.getSelfStateRef st)) trivial
        (.state st)
      have hlast := hstate.write hinj (.lastConfirmed (OnChainEntity.getSelfRef st)) trivial
        (.stateId (OnChainEntity.getSelfStateRef st))
      have hindex := hlast.write hinj (.epochIndex (indexEntry st)) hcall .dummy
      rw [BundleCall.exec, BundleRepo.lookup_putConfirmed]
      exact hindex.delete hinj _ hprev
  | putPredicted traced =>
      obtain ⟨st, prevStateId⟩ := traced
      have hstate := h.write hinj (.state (OnChainEntity.getSelfStateRef st)) trivial
        (.state st)
      have hlast := hstate.write hinj (.lastPredicted (OnChainEntity.getSelfRef st)) trivial
        (.stateId (OnChainEntity.getSelfStateRef st))
      have hindex := hlast.write hinj (.epochIndex (indexEntry st)) hcall .dummy
      rw [← BundleRepo.lookup_putPredicted] at hindex
      cases prevStateId with
      | none => exact hindex
      | some prevSid =>
          rw [BundleCall.exec, BundleRepo.lookup_putPredicted_some]
          exact hindex.write hinj (.predictionLink (OnChainEntity.getSelfStateRef st)) trivial
            (.stateId prevSid)
  | invalidate stateId =>
      have hstate := h.delete hinj (.state stateId) trivial
      rw [BundleCall.exec, BundleRepo.lookup_invalidate]
      exact hstate.delete hinj (.predictionLink stateId) trivial
  | eliminate bundleSt =>
      have hconf := h.delete hinj (.lastConfirmed (OnChainEntity.getSelfRef bundleSt)) trivial
      have hpred := hconf.delete hinj (.lastPredicted (OnChainEntity.getSelfRef bundleSt))
        trivial
      rw [BundleCall.exec, BundleRepo.lookup_eliminate]
      exact hpred.delete hinj (.epochIndex _) hcall

/-- A run of the database is one of the repository. -/
theorem Represents.run {db' : BundleRepoRocksDB} {calls : List BundleCall}
    (hrun : Run Step db calls db') (h : Represents repo db) :
    Represents (calls.foldl BundleCall.exec repo) db' := by
  induction hrun generalizing repo with
  | nil => exact h
  | cons hstep _ ih =>
      obtain ⟨hcall, rfl⟩ := hstep
      exact ih (h.exec hcall)

/-- What is selected is what the index of the repository says. -/
theorem Represents.mem_select_iff (h : Represents repo db) (hkeyed : db.Keyed) (poolId : PoolId)
    {epochIx : ℕ} (hepoch : epochIx < 2 ^ 32) : ∃ ids, db.select poolId epochIx = .ok ids ∧
      ∀ bundleId, bundleId ∈ ids ↔ bundleId ∈ repo.select poolId epochIx := by
  obtain ⟨ids, hselect, -, hmem⟩ := hkeyed.select poolId hepoch
  refine ⟨ids, hselect, fun bundleId => ?_⟩
  have hread := h (.epochIndex ⟨poolId, epochIx, bundleId⟩) hepoch
  rw [hmem, BundleRepo.mem_select]
  constructor
  · intro hstored
    by_contra hnone
    rw [BundleRepo.lookup, if_neg hnone] at hread
    exact Database.read_eq_none.mp hread hstored
  · intro hindexed
    by_contra hnone
    rw [BundleRepo.lookup, if_pos hindexed] at hread
    exact Option.some_ne_none _ (hread.symm.trans (Database.read_eq_none.mpr hnone))

/-- After any calls on an empty database, what is read under a key is what the repository has after
these calls, and `select` returns the bundles of its index. -/
theorem reads_of_run {calls : List BundleCall} (hrun : Run Step .empty calls db) :
    (∀ key : BundleKey, key.FitsEpoch →
      db.read key.bytes = (calls.foldl BundleCall.exec .empty).lookup key) ∧
    ∀ (poolId : PoolId) (epochIx : UInt32), ∃ ids, db.select poolId epochIx.toNat = .ok ids ∧
      ∀ bundleId, bundleId ∈ ids ↔
        bundleId ∈ (calls.foldl BundleCall.exec .empty).select poolId epochIx.toNat := by
  have hrepresents := represents_empty.run hrun
  have hkeyed : db.Keyed := keyed_of_run hrun
  exact ⟨hrepresents, fun poolId epochIx =>
    hrepresents.mem_select_iff hkeyed poolId epochIx.toNat_lt⟩

end BundleRepoRocksDB

end SpectrumOffchain.Resolver
