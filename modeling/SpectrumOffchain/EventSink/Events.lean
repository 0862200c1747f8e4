import SpectrumOffchain.ChainSync.Model
import SpectrumOffchain.Lib.Table
import SpectrumOffchain.Resolver.EntityRepo

/-!
# Ledger events and state updates

The event source turns the blocks that are applied and undone into events of their
transactions, and `process_events` shows every event to every handler.  A handler
compares what a transaction consumed, which it looks up in a repository, with what it
created, which it reads off the outputs, and feeds the difference into a channel.  A
stream drains the channel into the repository.

A transaction is known by the ids of the boxes it spends and by the boxes it creates.

## The order of transitions

`extract_transitions` goes over a hash set of ids, so a transaction yields its transitions in
an order that is not determined.  A `Shuffle` is such an order, and whatever is proved holds
for each: there is one transition for each entity that is touched (`nodup_transitions`),
made of what the maps of consumed and created states have for it (`mem_transitions`).  Where
several states of an entity are among the outputs, the map keeps the last one (`byId`).
-/

namespace SpectrumOffchain

/-- A transaction on the ledger.  The ids of its outputs are distinct. -/
structure LedgerTx where
  inputs : List BoxId
  outputs : List ErgoBox
  distinct : (outputs.map ErgoBox.boxId).Nodup

/-- `db.key_may_exist`, a Bloom filter: it may say so of a key that is not there. -/
structure MayExist {σ ι : Type} (stored : σ → ι → Prop) where
  mayExist : σ → ι → Bool
  mayExist_of_stored : ∀ s i, stored s i → mayExist s i = true

/-! ## What a transaction does to an entity -/

inductive EitherOrBoth (O₁ O₂ : Type) where
  | left (o₁ : O₁)
  | right (o₂ : O₂)
  | both (o₁ : O₁) (o₂ : O₂)
  deriving DecidableEq, Repr

namespace EitherOrBoth

variable {O₁ O₂ : Type}

def swap : EitherOrBoth O₁ O₂ → EitherOrBoth O₂ O₁
  | left o₁ => .right o₁
  | right o₂ => .left o₂
  | both o₁ o₂ => .both o₂ o₁

/-- `EitherOrBoth::try_from`. -/
def tryFrom : Option O₁ × Option O₂ → Option (EitherOrBoth O₁ O₂)
  | (some l, some r) => some (.both l r)
  | (some l, none) => some (.left l)
  | (none, some r) => some (.right r)
  | (none, none) => none

/-- The state of the entity afterwards, if it goes on. -/
def newState : EitherOrBoth O₁ O₂ → Option O₂
  | left _ => none
  | right o₂ => some o₂
  | both _ o₂ => some o₂

end EitherOrBoth

inductive StateUpdate (T : Type) where
  | transition (tr : EitherOrBoth T T)
  | transitionRollback (tr : EitherOrBoth T T)
  deriving DecidableEq, Repr

/-- The state of the entity after the update, if it goes on. -/
def StateUpdate.newState {T : Type} : StateUpdate T → Option T
  | transition tr => tr.newState
  | transitionRollback tr => tr.newState

/-! ## What a transaction does to all entities -/

section Transitions

open Resolver

variable {T TEntityId TStateId : Type} [OnChainEntity T TEntityId TStateId]

/-- The entity that is updated. -/
def EitherOrBoth.entityId : EitherOrBoth T T → TEntityId
  | left o₁ => OnChainEntity.getSelfRef o₁
  | right o₂ => OnChainEntity.getSelfRef o₂
  | both o₁ _ => OnChainEntity.getSelfRef o₁

/-- The order in which a hash set is iterated over. -/
structure Shuffle (α : Type) where
  shuffle : List α → List α
  perm : ∀ items, (shuffle items).Perm items

variable [DecidableEq TEntityId]

/-- The entities by their ids; of several with one id the last one counts. -/
def byId (entities : List T) : Table (OnChainEntity.getSelfRef : T → TEntityId) :=
  entities.foldl Table.put .empty

/-- `extract_transitions`, from the entities that were consumed and those that were created on. -/
def transitions (order : Shuffle TEntityId) (consumed created : List T) :
    List (EitherOrBoth T T) :=
  let consumed := byId consumed
  let created := byId created
  let keys := consumed.keys ++ created.keys.filter fun k => k ∉ consumed.keys
  (order.shuffle keys).filterMap fun k =>
    EitherOrBoth.tryFrom (consumed.get k, created.get k)

variable {entities consumed created : List T} {order : Shuffle TEntityId} {k : TEntityId}

theorem mem_keys_byId :
    k ∈ (byId entities).keys ↔ ∃ e ∈ entities, OnChainEntity.getSelfRef e = k := by
  have hfold : ∀ t : Table (OnChainEntity.getSelfRef : T → TEntityId),
      k ∈ (entities.foldl Table.put t).keys ↔
      (∃ e ∈ entities, OnChainEntity.getSelfRef e = k) ∨ k ∈ t.keys := by
    induction entities with
    | nil => simp
    | cons e rest ih =>
        intro t
        rw [List.foldl_cons, ih, Table.mem_keys_put]
        simp only [List.mem_cons, exists_eq_or_imp, eq_comm (a := k)]
        rw [or_left_comm, or_assoc]
  refine (hfold .empty).trans (or_iff_left ?_)
  exact List.not_mem_nil

theorem mem_of_mem_byId {e : T} (h : e ∈ (byId entities).entries) : e ∈ entities := by
  have hfold : ∀ t : Table (OnChainEntity.getSelfRef : T → TEntityId),
      e ∈ (entities.foldl Table.put t).entries → e ∈ entities ∨ e ∈ t.entries := by
    clear h
    induction entities with
    | nil => exact fun t h => .inr h
    | cons e' rest ih =>
        intro t h
        rcases ih _ h with h | h
        · exact .inl (List.mem_cons_of_mem e' h)
        · rcases List.mem_cons.mp h with rfl | h
          · exact .inl List.mem_cons_self
          · exact .inr (List.mem_of_mem_filter h)
  exact (hfold .empty h).resolve_right List.not_mem_nil

theorem get_byId_eq_none :
    (byId entities).get k = none ↔ ∀ e ∈ entities, OnChainEntity.getSelfRef e ≠ k := by
  rw [← Option.not_isSome_iff_eq_none, Table.isSome_get, mem_keys_byId]
  simp

theorem mem_of_get_byId {e : T} (h : (byId entities).get k = some e) :
    e ∈ entities ∧ OnChainEntity.getSelfRef e = k := by
  obtain ⟨hmem, hkey⟩ := Table.get_eq_some.mp h
  exact ⟨mem_of_mem_byId hmem, hkey⟩

/-- Of entities with different ids all are found. -/
theorem get_byId_eq_some {e : T}
    (hinj : ∀ e ∈ entities, ∀ e' ∈ entities,
      OnChainEntity.getSelfRef e = OnChainEntity.getSelfRef e' → e = e') :
    (byId entities).get k = some e ↔ e ∈ entities ∧ OnChainEntity.getSelfRef e = k := by
  refine ⟨mem_of_get_byId, ?_⟩
  rintro ⟨hmem, rfl⟩
  obtain ⟨e', hget, hkey⟩ := Table.exists_get (mem_keys_byId.mpr ⟨e, hmem, rfl⟩)
  rw [hget, hinj e' (mem_of_get_byId hget).1 e hmem hkey]

theorem entityId_of_tryFrom {tr : EitherOrBoth T T}
    (h : EitherOrBoth.tryFrom ((byId consumed).get k, (byId created).get k) = some tr) :
    tr.entityId = k := by
  cases hl : (byId consumed).get k with
  | some l =>
      rw [hl] at h
      cases hr : (byId created).get k <;> rw [hr] at h <;> cases h <;>
        exact (mem_of_get_byId hl).2
  | none =>
      rw [hl] at h
      cases hr : (byId created).get k with
      | some r =>
          rw [hr] at h
          cases h
          exact (mem_of_get_byId hr).2
      | none =>
          rw [hr] at h
          cases h

theorem mem_transitions {tr : EitherOrBoth T T} :
    tr ∈ transitions order consumed created ↔
      EitherOrBoth.tryFrom ((byId consumed).get tr.entityId, (byId created).get tr.entityId) =
        some tr := by
  rw [transitions, List.mem_filterMap]
  constructor
  · rintro ⟨k, -, h⟩
    rw [entityId_of_tryFrom h]
    exact h
  · intro h
    refine ⟨tr.entityId, (order.perm _).mem_iff.mpr ?_, h⟩
    rw [List.mem_append, List.mem_filter]
    by_cases hconsumed : tr.entityId ∈ (byId consumed).keys
    · exact .inl hconsumed
    · refine .inr ⟨?_, decide_eq_true hconsumed⟩
      rw [← Table.isSome_get] at hconsumed ⊢
      cases hr : (byId created).get tr.entityId with
      | some r => rfl
      | none =>
          rw [Option.not_isSome_iff_eq_none.mp hconsumed, hr] at h
          cases h

/-- An entity that was consumed or created has a transition. -/
theorem mem_entityIds_transitions :
    k ∈ (transitions order consumed created).map EitherOrBoth.entityId ↔
      (∃ e ∈ consumed, OnChainEntity.getSelfRef e = k) ∨
        ∃ e ∈ created, OnChainEntity.getSelfRef e = k := by
  rw [List.mem_map, ← mem_keys_byId, ← mem_keys_byId, ← Table.isSome_get, ← Table.isSome_get]
  constructor
  · rintro ⟨tr, htr, rfl⟩
    have htr := mem_transitions.mp htr
    cases hl : (byId consumed).get tr.entityId with
    | some l => exact .inl rfl
    | none =>
        cases hr : (byId created).get tr.entityId with
        | some r => exact .inr rfl
        | none =>
            rw [hl, hr] at htr
            cases htr
  · intro h
    obtain ⟨tr, htr⟩ : ∃ tr, EitherOrBoth.tryFrom
        ((byId consumed).get k, (byId created).get k) = some tr := by
      cases hl : (byId consumed).get k with
      | some l => cases hr : (byId created).get k <;> exact ⟨_, rfl⟩
      | none =>
          cases hr : (byId created).get k with
          | some r => exact ⟨_, rfl⟩
          | none =>
              rw [hl, hr] at h
              simp at h
    have hk := entityId_of_tryFrom htr
    refine ⟨tr, mem_transitions.mpr ?_, hk⟩
    rw [hk]
    exact htr

/-- The new state of an entity is the one that was created. -/
theorem newState_of_mem_transitions {tr : EitherOrBoth T T}
    (h : tr ∈ transitions order consumed created) :
    tr.newState = (byId created).get tr.entityId := by
  have h := mem_transitions.mp h
  cases hl : (byId consumed).get tr.entityId <;>
    cases hr : (byId created).get tr.entityId <;> rw [hl, hr] at h <;> cases h <;> rfl

/-- A transition records the new state of its entity, or deletes what is recorded. -/
theorem get_of_mem_transitions {tr : EitherOrBoth T T} {last last' : Store TEntityId TStateId}
    (htr : tr ∈ transitions order consumed created)
    (hlast : last' = match tr.newState with
      | some new => last.put (OnChainEntity.getSelfRef new) (OnChainEntity.getSelfStateRef new)
      | none => last.delete tr.entityId) :
    last'.get k = if k = tr.entityId then tr.newState.map OnChainEntity.getSelfStateRef
      else last.get k := by
  subst hlast
  cases hnew : tr.newState with
  | none => exact Store.get_delete
  | some new =>
      have hcreated := (newState_of_mem_transitions htr).symm.trans hnew
      rw [← (mem_of_get_byId hcreated).2]
      exact Store.get_put

/-- There is one transition for each entity. -/
theorem nodup_transitions :
    ((transitions order consumed created).map EitherOrBoth.entityId).Nodup := by
  have hkeys : ((byId consumed).keys ++
      (byId created).keys.filter fun k => k ∉ (byId consumed).keys).Nodup := by
    refine List.nodup_append.mpr ⟨(byId consumed).distinct, (byId created).distinct.filter _, ?_⟩
    intro k hk k' hk' heq
    exact of_decide_eq_true (List.mem_filter.mp hk').2 (heq ▸ hk)
  have hsub : ∀ keys : List TEntityId, ((keys.filterMap fun k =>
      EitherOrBoth.tryFrom ((byId consumed).get k, (byId created).get k)).map
        EitherOrBoth.entityId).Sublist keys := by
    intro keys
    induction keys with
    | nil => exact .slnil
    | cons k keys ih =>
        rw [List.filterMap_cons]
        split
        · exact ih.cons k
        case h_2 tr htr =>
          rw [List.map_cons, entityId_of_tryFrom htr]
          exact ih.cons_cons k
  exact ((order.perm _).nodup_iff.mpr hkeys).sublist (hsub _)

end Transitions

end SpectrumOffchain
