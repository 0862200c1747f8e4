import Mathlib.Data.List.MinMax
import Mathlib.Data.List.Nodup
import Mathlib.Data.List.Perm.Basic
import Mathlib.Tactic.Common

/-!
# Finite tables and priority queues

A `Table key` is a finite set of entries with distinct keys: a map whose values know
the key they are stored under, and which can be listed.  A priority queue is a table of
items with their priorities; `pop` takes an item of maximal priority, and which one of
several is up to its argument.

`keys_put`, `keys_remove` and the `countP` lemmas say how often a key with a given property
occurs after an operation.

The lemmas about `get` are equations for each operation, so that a table is also a function
on keys, and those about `entries` and `keys` say which of them there are, for the places
that go through a table.
-/

namespace SpectrumOffchain

/-- Entries with distinct keys. -/
structure Table {α κ : Type} (key : α → κ) where
  entries : List α
  distinct : (entries.map key).Nodup

namespace Table

variable {α κ : Type} {key : α → κ}

def empty : Table key := ⟨[], List.nodup_nil⟩

def keys (t : Table key) : List κ := t.entries.map key

variable [DecidableEq κ]

def get (t : Table key) (k : κ) : Option α := t.entries.find? fun a => key a = k

def remove (t : Table key) (k : κ) : Table key where
  entries := t.entries.filter fun a => key a ≠ k
  distinct := t.distinct.sublist (List.filter_sublist.map key)

variable {t : Table key} {a b : α} {k k' : κ}

theorem keys_remove : (t.remove k).keys = t.keys.filter (· ≠ k) := by
  rw [keys, keys, remove, List.filter_map]
  rfl

theorem mem_keys_remove : k' ∈ (t.remove k).keys ↔ k' ∈ t.keys ∧ k' ≠ k := by
  rw [keys_remove, List.mem_filter, decide_eq_true_eq]

/-- Remove all entries whose keys have a property. -/
def removeAll (t : Table key) (p : κ → Bool) : Table key where
  entries := t.entries.filter fun a => !p (key a)
  distinct := t.distinct.sublist (List.filter_sublist.map key)

omit [DecidableEq κ] in
theorem mem_keys_removeAll {p : κ → Bool} :
    k ∈ (t.removeAll p).keys ↔ k ∈ t.keys ∧ p k = false := by
  simp only [keys, removeAll, List.mem_map, List.mem_filter, Bool.not_eq_true']
  constructor
  · rintro ⟨a, ⟨hmem, hp⟩, rfl⟩
    exact ⟨⟨a, hmem, rfl⟩, hp⟩
  · rintro ⟨⟨a, hmem, rfl⟩, hp⟩
    exact ⟨a, ⟨hmem, hp⟩, rfl⟩

/-- Store an entry, in place of the one with the same key if there is one. -/
def put (t : Table key) (a : α) : Table key where
  entries := a :: (t.remove (key a)).entries
  distinct := by
    rw [List.map_cons, List.nodup_cons]
    refine ⟨?_, (t.remove (key a)).distinct⟩
    intro hmem
    exact (mem_keys_remove.mp hmem).2 rfl

theorem keys_put : (t.put a).keys = key a :: t.keys.filter (· ≠ key a) := by
  rw [← keys_remove]
  rfl

theorem mem_keys_put : k ∈ (t.put a).keys ↔ k = key a ∨ k ∈ t.keys := by
  rw [keys_put, List.mem_cons, List.mem_filter, decide_eq_true_eq]
  by_cases h : k = key a <;> simp [h]

theorem get_eq_some : t.get k = some a ↔ a ∈ t.entries ∧ key a = k := by
  constructor
  · intro h
    exact ⟨List.mem_of_find?_eq_some h, by simpa using List.find?_some h⟩
  · rintro ⟨hmem, rfl⟩
    cases hget : t.get (key a) with
    | none => simpa using List.find?_eq_none.mp hget a hmem
    | some b =>
        -- two entries with one key are the same entry
        have hb : b ∈ t.entries := List.mem_of_find?_eq_some hget
        have hkey : key b = key a := by simpa using List.find?_some hget
        rw [List.inj_on_of_nodup_map t.distinct hb hmem hkey]

theorem mem_entries_remove : a ∈ (t.remove k).entries ↔ a ∈ t.entries ∧ key a ≠ k := by
  rw [remove, List.mem_filter, decide_eq_true_eq]

theorem get_remove : (t.remove k).get k' = if k' = k then none else t.get k' := by
  apply Option.ext
  intro a
  rw [get_eq_some, mem_entries_remove]
  by_cases h : k' = k
  · rw [if_pos h, h]
    exact iff_of_false (fun hmem => hmem.1.2 hmem.2) (Option.some_ne_none a).symm
  · rw [if_neg h, get_eq_some]
    constructor
    · exact fun hmem => ⟨hmem.1.1, hmem.2⟩
    · exact fun hmem => ⟨⟨hmem.1, fun heq => h (hmem.2.symm.trans heq)⟩, hmem.2⟩

theorem get_removeAll {p : κ → Bool} :
    (t.removeAll p).get k = if p k then none else t.get k := by
  apply Option.ext
  intro a
  have hmem : a ∈ (t.removeAll p).entries ↔ a ∈ t.entries ∧ p (key a) = false := by
    rw [removeAll, List.mem_filter, Bool.not_eq_true']
  rw [get_eq_some, hmem]
  by_cases hp : p k = true
  · rw [if_pos hp]
    refine iff_of_false ?_ (Option.some_ne_none a).symm
    rintro ⟨⟨-, hkept⟩, rfl⟩
    exact Bool.false_ne_true (hkept.symm.trans hp)
  · rw [if_neg hp, get_eq_some]
    constructor
    · exact fun h => ⟨h.1.1, h.2⟩
    · rintro ⟨hentry, rfl⟩
      exact ⟨⟨hentry, Bool.eq_false_of_not_eq_true hp⟩, rfl⟩

theorem get_of_get_remove (h : (t.remove k).get k' = some a) : t.get k' = some a := by
  rw [get_remove] at h
  split at h
  · cases h
  · exact h

theorem get_put : (t.put a).get k = if k = key a then some a else t.get k := by
  by_cases h : k = key a
  · rw [if_pos h, get_eq_some]
    exact ⟨List.mem_cons_self, h.symm⟩
  · have hremove : (t.put a).get k = (t.remove (key a)).get k :=
      List.find?_cons_of_neg (by simpa using fun heq => h heq.symm)
    rw [hremove, get_remove, if_neg h, if_neg h]

theorem isSome_get : (t.get k).isSome ↔ k ∈ t.keys := by
  rw [Option.isSome_iff_exists, keys, List.mem_map]
  exact exists_congr fun a => get_eq_some

theorem exists_get (h : k ∈ t.keys) : ∃ a, t.get k = some a ∧ key a = k := by
  obtain ⟨a, ha⟩ := Option.isSome_iff_exists.mp (isSome_get.mpr h)
  exact ⟨a, ha, (get_eq_some.mp ha).2⟩

/-! ## Counting keys -/

section Counting

variable {p : κ → Bool}

theorem countP_keys_remove (h : k ∈ t.keys) :
    t.keys.countP p = (t.remove k).keys.countP p + if p k then 1 else 0 := by
  have herase : t.keys.erase k = (t.remove k).keys := by
    have hnodup : t.keys.Nodup := t.distinct
    rw [keys_remove, hnodup.erase_eq_filter]
    apply List.filter_congr
    intro x _
    exact Bool.eq_iff_iff.mpr (by simp)
  rw [(List.perm_cons_erase h).countP_eq, List.countP_cons, herase]

theorem countP_keys_put_of_notMem (h : key a ∉ t.keys) :
    (t.put a).keys.countP p = t.keys.countP p + if p (key a) then 1 else 0 := by
  have hkeep : t.keys.filter (· ≠ key a) = t.keys := by
    rw [List.filter_eq_self]
    intro x hx
    exact decide_eq_true (fun heq => h (heq ▸ hx))
  rw [keys_put, hkeep, List.countP_cons]

/-- An entry that is there already is only replaced. -/
theorem countP_keys_put_of_mem (h : key a ∈ t.keys) :
    (t.put a).keys.countP p = t.keys.countP p := by
  rw [countP_keys_remove h, keys_put, ← keys_remove, List.countP_cons]

theorem countP_keys_put_le :
    (t.put a).keys.countP p ≤ t.keys.countP p + if p (key a) then 1 else 0 := by
  by_cases h : key a ∈ t.keys
  · rw [countP_keys_put_of_mem h]
    exact Nat.le_add_right _ _
  · exact (countP_keys_put_of_notMem h).le

theorem length_remove (h : k ∈ t.keys) : (t.remove k).entries.length + 1 = t.entries.length := by
  have hlength : ∀ t : Table key, t.keys.countP (fun _ => true) = t.entries.length := by
    intro t
    rw [List.countP_true, keys, List.length_map]
  have hcount := countP_keys_remove (p := fun _ => true) h
  rw [hlength, hlength, if_pos rfl] at hcount
  exact hcount.symm

end Counting

end Table

/-! ## Choices -/

/-- Some element of a list, any of them for a suitable `pick`. -/
def choose {α : Type} (pick : ℕ) (items : List α) : Option α := items[pick % items.length]?

theorem mem_of_choose {α : Type} {pick : ℕ} {items : List α} {a : α}
    (h : choose pick items = some a) : a ∈ items := List.mem_of_getElem? h

theorem choose_eq_none {α : Type} {pick : ℕ} {items : List α} :
    choose pick items = none ↔ items = [] := by
  rw [choose, List.getElem?_eq_none_iff]
  constructor
  · intro h
    by_contra hne
    have hpos : 0 < items.length := List.length_pos_iff.mpr hne
    have hlt := Nat.mod_lt pick hpos
    omega
  · rintro rfl
    exact Nat.zero_le _

/-! ## Priority queues -/

/-- Items with their priorities. -/
abbrev PriorityQueue (α : Type) := Table (Prod.fst : α × ℕ → α)

namespace PriorityQueue

variable {α : Type} [DecidableEq α]

/-- Insert an item, or change its priority. -/
def push (q : PriorityQueue α) (item : α) (priority : ℕ) : PriorityQueue α :=
  q.put (item, priority)

/-- The entries that none exceeds. -/
def maximal (q : PriorityQueue α) : List (α × ℕ) :=
  q.entries.filter fun entry => q.entries.all fun other => other.2 ≤ entry.2

/-- Remove an item of maximal priority, the one that `tie` picks among several. -/
def pop (q : PriorityQueue α) (tie : ℕ) : Option (α × PriorityQueue α) :=
  (choose tie q.maximal).map fun entry => (entry.1, q.remove entry.1)

/-- What is popped was queued with a priority that none exceeds. -/
theorem pop_eq_some {q q' : PriorityQueue α} {tie : ℕ} {item : α}
    (h : q.pop tie = some (item, q')) :
    q' = q.remove item ∧ ∃ priority, (item, priority) ∈ q.entries ∧
      ∀ other ∈ q.entries, other.2 ≤ priority := by
  obtain ⟨entry, hentry, heq⟩ := Option.map_eq_some_iff.mp h
  cases heq
  obtain ⟨hmem, hmax⟩ := List.mem_filter.mp (mem_of_choose hentry)
  exact ⟨rfl, entry.2, hmem, by simpa using hmax⟩

theorem mem_keys_of_pop {q q' : PriorityQueue α} {tie : ℕ} {item : α}
    (h : q.pop tie = some (item, q')) : item ∈ q.keys ∧ q' = q.remove item := by
  obtain ⟨hrest, priority, hmem, -⟩ := pop_eq_some h
  exact ⟨List.mem_map.mpr ⟨_, hmem, rfl⟩, hrest⟩

/-- Only an empty queue has nothing to pop. -/
theorem pop_eq_none {q : PriorityQueue α} {tie : ℕ} : q.pop tie = none ↔ q.entries = [] := by
  rw [pop, Option.map_eq_none_iff, choose_eq_none]
  constructor
  · intro h
    by_contra hne
    -- an entry of greatest priority is maximal
    cases hmax : q.entries.argmax Prod.snd with
    | none => exact hne (List.argmax_eq_none.mp hmax)
    | some entry =>
        have hentry : entry ∈ q.maximal := by
          refine List.mem_filter.mpr ⟨List.argmax_mem hmax, ?_⟩
          rw [List.all_eq_true]
          intro other hother
          exact decide_eq_true (List.le_of_mem_argmax hother hmax)
        rw [h] at hentry
        cases hentry
  · intro h
    rw [maximal, h]
    rfl

end PriorityQueue

end SpectrumOffchain
