import Mathlib.Data.List.Basic
import Mathlib.Tactic.Common

/-!
# Key-value stores

`Store κ ν` is a partial map from keys to values, with the reads and writes of a
key-value database.  A database whose keys are of several kinds is a record of
stores, one for each kind of key.
-/

namespace SpectrumOffchain

/-- A map from keys to the values stored under them. -/
@[ext] structure Store (κ ν : Type) where
  get : κ → Option ν

namespace Store

variable {κ ν : Type}

def empty : Store κ ν := ⟨fun _ => none⟩

@[simp] theorem get_empty (k : κ) : (empty : Store κ ν).get k = none := rfl

variable [DecidableEq κ]

def put (s : Store κ ν) (k : κ) (v : ν) : Store κ ν :=
  ⟨fun k' => if k' = k then some v else s.get k'⟩

def delete (s : Store κ ν) (k : κ) : Store κ ν :=
  ⟨fun k' => if k' = k then none else s.get k'⟩

/-- One `put` after the other, a later one overwriting an earlier one. -/
def putAll (s : Store κ ν) (entries : List (κ × ν)) : Store κ ν :=
  entries.foldl (fun s entry => s.put entry.1 entry.2) s

def deleteAll (s : Store κ ν) (keys : List κ) : Store κ ν := keys.foldl delete s

variable {s : Store κ ν} {k k' : κ} {v v' : ν}

theorem get_put : (s.put k v).get k' = if k' = k then some v else s.get k' := rfl

theorem get_delete : (s.delete k).get k' = if k' = k then none else s.get k' := rfl

@[simp] theorem get_put_self : (s.put k v).get k = some v := if_pos rfl

@[simp] theorem get_delete_self : (s.delete k).get k = none := if_pos rfl

theorem get_put_of_ne (h : k' ≠ k) : (s.put k v).get k' = s.get k' := if_neg h

theorem get_delete_of_ne (h : k' ≠ k) : (s.delete k).get k' = s.get k' := if_neg h

theorem get_put_eq_some : (s.put k v).get k' = some v' ↔
    k' = k ∧ v = v' ∨ k' ≠ k ∧ s.get k' = some v' := by
  rw [get_put]
  by_cases h : k' = k <;> simp [h]

theorem get_delete_eq_some : (s.delete k).get k' = some v' ↔ k' ≠ k ∧ s.get k' = some v' := by
  rw [get_delete]
  by_cases h : k' = k <;> simp [h]

/-- What holds of all entries holds after a `put` of an entry that it holds of. -/
theorem forall_get_put {P : κ → ν → Prop} (hput : P k v)
    (h : ∀ k' v', s.get k' = some v' → P k' v') :
    ∀ k' v', (s.put k v).get k' = some v' → P k' v' := by
  intro k' v' hget
  rcases get_put_eq_some.mp hget with ⟨rfl, rfl⟩ | ⟨-, hget⟩
  · exact hput
  · exact h k' v' hget

theorem forall_get_delete {P : κ → ν → Prop} (h : ∀ k' v', s.get k' = some v' → P k' v') :
    ∀ k' v', (s.delete k).get k' = some v' → P k' v' :=
  fun k' v' hget => h k' v' (get_delete_eq_some.mp hget).2

theorem map_get_put {μ : Type} {f : ν → μ} : ((s.put k v).get k').map f =
    if k' = k then some (f v) else (s.get k').map f := by
  rw [get_put, apply_ite (Option.map f), Option.map_some]

theorem map_get_delete {μ : Type} {f : ν → μ} : ((s.delete k).get k').map f =
    if k' = k then none else (s.get k').map f := by
  rw [get_delete, apply_ite (Option.map f), Option.map_none]

/-- A value read through a pointer, after a `put`. -/
theorem bind_get_put {pointer : Option κ} : pointer.bind (s.put k v).get = some v' ↔
    pointer = some k ∧ v = v' ∨ pointer ≠ some k ∧ pointer.bind s.get = some v' := by
  cases pointer with
  | none => simp
  | some k' => simp [get_put_eq_some]

theorem bind_get_delete {pointer : Option κ} : pointer.bind (s.delete k).get = some v' ↔
    pointer ≠ some k ∧ pointer.bind s.get = some v' := by
  cases pointer with
  | none => simp
  | some k' => simp [get_delete_eq_some]

/-! ## Many keys at once -/

theorem get_putAll_of_notMem {entries : List (κ × ν)} (h : k' ∉ entries.map Prod.fst) :
    (s.putAll entries).get k' = s.get k' := by
  induction entries generalizing s with
  | nil => rfl
  | cons entry rest ih =>
      rw [List.map_cons, List.mem_cons, not_or] at h
      have hrest : ((s.put entry.1 entry.2).putAll rest).get k' =
          (s.put entry.1 entry.2).get k' := ih h.2
      exact hrest.trans (get_put_of_ne h.1)

/-- Under distinct keys every entry can be read back. -/
theorem get_putAll_of_mem {entries : List (κ × ν)} (hnodup : (entries.map Prod.fst).Nodup)
    (h : (k, v) ∈ entries) : (s.putAll entries).get k = some v := by
  induction entries generalizing s with
  | nil => cases h
  | cons entry rest ih =>
      rw [List.map_cons, List.nodup_cons] at hnodup
      rcases List.mem_cons.mp h with rfl | h
      · have hrest : ((s.put k v).putAll rest).get k = (s.put k v).get k :=
          get_putAll_of_notMem hnodup.1
        exact hrest.trans get_put_self
      · exact ih hnodup.2 h

/-- What is found afterwards was there before or has been put. -/
theorem get_putAll_eq_some {entries : List (κ × ν)} (h : (s.putAll entries).get k = some v) :
    s.get k = some v ∨ (k, v) ∈ entries := by
  induction entries generalizing s with
  | nil => exact .inl h
  | cons entry rest ih =>
      have hrest : ((s.put entry.1 entry.2).putAll rest).get k = some v := h
      rcases ih hrest with hput | hmem
      · rcases get_put_eq_some.mp hput with ⟨rfl, rfl⟩ | ⟨-, hold⟩
        · exact .inr List.mem_cons_self
        · exact .inl hold
      · exact .inr (List.mem_cons_of_mem _ hmem)

theorem get_of_get_deleteAll {keys : List κ} (h : (s.deleteAll keys).get k = some v) :
    s.get k = some v := by
  induction keys generalizing s with
  | nil => exact h
  | cons key rest ih =>
      have hrest : ((s.delete key).deleteAll rest).get k = some v := h
      exact (get_delete_eq_some.mp (ih hrest)).2

theorem get_deleteAll_of_notMem {keys : List κ} (h : k' ∉ keys) :
    (s.deleteAll keys).get k' = s.get k' := by
  induction keys generalizing s with
  | nil => rfl
  | cons key rest ih =>
      rw [List.mem_cons, not_or] at h
      have hrest : ((s.delete key).deleteAll rest).get k' = (s.delete key).get k' := ih h.2
      exact hrest.trans (get_delete_of_ne h.1)

end Store

end SpectrumOffchain
