import Mathlib.Data.List.Sort
import SpectrumOffchain.Lib.Table

/-!
# Databases with ordered keys

A database stores values under strings over an alphabet, usually of bytes, and hands out the entries
whose keys have a given prefix in the lexicographic order of the keys (`scan`).  Where its keys
encode those of another map, it `Encodes` this map, and writing and deleting update it at one key.
-/

namespace SpectrumOffchain

abbrev Database (α β : Type) := Table (Prod.fst : List α × β → List α)

namespace Database

variable {α β : Type} [DecidableEq α]

def read (db : Database α β) (key : List α) : Option β := (db.get key).map Prod.snd

def write (db : Database α β) (key : List α) (value : β) : Database α β := db.put (key, value)

def delete (db : Database α β) (key : List α) : Database α β := db.remove key

variable {db : Database α β} {key key' pfx : List α} {value : β}

theorem read_eq_some : db.read key = some value ↔ (key, value) ∈ db.entries := by
  rw [read, Option.map_eq_some_iff]
  constructor
  · rintro ⟨entry, hget, rfl⟩
    obtain ⟨hmem, rfl⟩ := Table.get_eq_some.mp hget
    exact hmem
  · intro hmem
    exact ⟨_, Table.get_eq_some.mpr ⟨hmem, rfl⟩, rfl⟩

theorem mem_keys : key ∈ db.keys ↔ ∃ value, db.read key = some value := by
  rw [Table.keys, List.mem_map]
  constructor
  · rintro ⟨⟨_, value⟩, hmem, rfl⟩
    exact ⟨value, read_eq_some.mpr hmem⟩
  · rintro ⟨value, hread⟩
    exact ⟨_, read_eq_some.mp hread, rfl⟩

theorem read_eq_none : db.read key = none ↔ key ∉ db.keys := by
  rw [read, Option.map_eq_none_iff, ← Table.isSome_get, Option.not_isSome_iff_eq_none]

theorem read_write :
    (db.write key value).read key' = if key' = key then some value else db.read key' := by
  rw [read, write, Table.get_put, apply_ite (Option.map Prod.snd), Option.map_some]
  rfl

theorem read_delete : (db.delete key).read key' = if key' = key then none else db.read key' := by
  rw [read, delete, Table.get_remove, apply_ite (Option.map Prod.snd), Option.map_none]
  rfl

theorem read_write_of_ne (h : key' ≠ key) : (db.write key value).read key' = db.read key' :=
  read_write.trans (if_neg h)

theorem read_delete_of_ne (h : key' ≠ key) : (db.delete key).read key' = db.read key' :=
  read_delete.trans (if_neg h)

/-- Delete those of the keys that have a property. -/
theorem read_foldl_delete {p : List α → Prop} [DecidablePred p] {keys : List (List α)} :
    (keys.foldl (fun db key => if p key then delete db key else db) db).read key =
      if key ∈ keys ∧ p key then none else db.read key := by
  induction keys generalizing db with
  | nil => exact (if_neg fun h => absurd h.1 List.not_mem_nil).symm
  | cons first rest ih =>
      have hfirst : (if p first then db.delete first else db).read key =
          if key = first ∧ p key then none else db.read key := by
        by_cases hp : p first
        · rw [if_pos hp, read_delete]
          by_cases heq : key = first <;> simp [heq, hp]
        · rw [if_neg hp, if_neg]
          rintro ⟨rfl, hkey⟩
          exact hp hkey
      rw [List.foldl_cons, ih, hfirst]
      simp only [List.mem_cons]
      split_ifs <;> tauto

/-! ## Encoded keys -/

section Encodes

variable {K : Type} [DecidableEq K] {encode : K → List α} {valid : K → Prop}
  {lookup : K → Option β}

/-- Under the encodings of the valid keys the database has what `lookup` says. -/
def Encodes (encode : K → List α) (valid : K → Prop) (lookup : K → Option β)
    (db : Database α β) : Prop :=
  ∀ k, valid k → db.read (encode k) = lookup k

omit [DecidableEq K] in
theorem Encodes.congr {lookup' : K → Option β} (h : Encodes encode valid lookup db)
    (heq : ∀ k, lookup k = lookup' k) : Encodes encode valid lookup' db :=
  fun k hk => (h k hk).trans (heq k)

variable (hinj : ∀ k k', valid k → valid k' → encode k = encode k' → k = k')

include hinj in
theorem Encodes.write (h : Encodes encode valid lookup db) (k : K) (hk : valid k) (value : β) :
    Encodes encode valid (Function.update lookup k (some value)) (db.write (encode k) value) := by
  intro k' hk'
  by_cases heq : k' = k
  · rw [heq, Function.update_self, read_write, if_pos rfl]
  · rw [Function.update_of_ne heq, read_write_of_ne fun h => heq (hinj k' k hk' hk h), h k' hk']

include hinj in
theorem Encodes.delete (h : Encodes encode valid lookup db) (k : K) (hk : valid k) :
    Encodes encode valid (Function.update lookup k none) (db.delete (encode k)) := by
  intro k' hk'
  by_cases heq : k' = k
  · rw [heq, Function.update_self, read_delete, if_pos rfl]
  · rw [Function.update_of_ne heq, read_delete_of_ne fun h => heq (hinj k' k hk' hk h), h k' hk']

end Encodes

/-! ## Iterators -/

variable [LT α] [DecidableLT α]

/-- The entries whose keys begin with `pfx`, in the order of the keys. -/
def scan (db : Database α β) (pfx : List α) : List (List α × β) :=
  (db.entries.filter fun entry => pfx.isPrefixOf entry.1).insertionSort fun entry entry' =>
    entry.1 ≤ entry'.1

theorem mem_scan {entry : List α × β} :
    entry ∈ db.scan pfx ↔ entry ∈ db.entries ∧ pfx <+: entry.1 := by
  rw [scan, List.mem_insertionSort, List.mem_filter, List.isPrefixOf_iff_prefix]

theorem nodup_keys_scan : ((db.scan pfx).map Prod.fst).Nodup := by
  have hperm := (db.entries.filter fun entry => pfx.isPrefixOf entry.1).perm_insertionSort
    fun entry entry' => entry.1 ≤ entry'.1
  have hnodup := db.distinct.sublist ((List.filter_sublist
    (p := fun entry => pfx.isPrefixOf entry.1)).map Prod.fst)
  exact (hperm.map Prod.fst).nodup_iff.mpr hnodup

section Order

variable [LE α] [Std.IsLinearOrder α] [Std.LawfulOrderLT α]

theorem pairwise_scan : (db.scan pfx).Pairwise fun entry entry' => entry.1 ≤ entry'.1 := by
  have : Std.Total fun entry entry' : List α × β => entry.1 ≤ entry'.1 :=
    ⟨fun entry entry' => List.le_total entry.1 entry'.1⟩
  have : IsTrans (List α × β) fun entry entry' => entry.1 ≤ entry'.1 :=
    ⟨fun _ _ _ h h' => List.le_trans h h'⟩
  exact List.pairwise_insertionSort _ _

/-- The entries of a range are known from a list of them in the order of the keys. -/
theorem scan_eq_map {ι : Type} {items : List ι} {entryOf : ι → List α × β}
    (hsorted : items.Pairwise fun a a' => (entryOf a).1 ≤ (entryOf a').1)
    (hnodup : (items.map entryOf).Nodup)
    (hmem : ∀ entry, entry ∈ db.scan pfx ↔ entry ∈ items.map entryOf) :
    db.scan pfx = items.map entryOf := by
  refine List.Perm.eq_of_pairwise ?_ pairwise_scan (List.pairwise_map.mpr hsorted) ?_
  · intro entry entry' hentry hentry' hle hle'
    have hstored := (mem_scan.mp hentry).1
    have hstored' := (mem_scan.mp ((hmem entry').mpr hentry')).1
    exact List.inj_on_of_nodup_map db.distinct hstored hstored' (List.le_antisymm hle hle')
  · exact (List.perm_ext_iff_of_nodup (List.Nodup.of_map _ nodup_keys_scan) hnodup).mpr hmem

end Order

end Database

end SpectrumOffchain
