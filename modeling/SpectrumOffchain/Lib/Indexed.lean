import SpectrumOffchain.Lib.Store
import SpectrumOffchain.Lib.Table
import Mathlib.Data.Set.Insert

/-!
# Records under composite keys, with an index

A database keeps its records under keys by which they are sorted, and an index from what a
record is about, its owner, to the key it is stored under.  The key of a record determines
its owner, but an owner can have records under several keys: writing a record does not
remove an older one of the same owner.

In a `Sound` database every owner has one record at most, and the index knows it.
Replacing a record keeps the database sound (`sound_replace`), and so does removing the
one that the index knows; writing one does exactly when the owner has no record under
another key (`sound_write_iff`).
-/

namespace SpectrumOffchain

/-- Records, and the key of the record of each owner. -/
structure Indexed {α κ : Type} (ι : Type) (key : α → κ) where
  records : Table key
  index : Store ι κ

namespace Indexed

variable {α κ ι : Type} {key : α → κ}

def empty : Indexed ι key := ⟨.empty, .empty⟩

variable [DecidableEq κ] [DecidableEq ι]

/-- Write a record and its index entry. -/
def write (owner : α → ι) (s : Indexed ι key) (a : α) : Indexed ι key :=
  ⟨s.records.put a, s.index.put (owner a) (key a)⟩

/-- Write a record in place of another one. -/
def replace (owner : α → ι) (s : Indexed ι key) (old : κ) (a : α) : Indexed ι key :=
  ⟨(s.records.remove old).put a, s.index.put (owner a) (key a)⟩

/-- Remove the record that the index knows. -/
def remove (s : Indexed ι key) (id : ι) : Indexed ι key :=
  match s.index.get id with
  | some k => ⟨s.records.remove k, s.index.delete id⟩
  | none => s

/-- Every owner has one record at most, and the index leads to it. -/
structure Sound (owner : α → ι) (s : Indexed ι key) : Prop where
  unique : ∀ a ∈ s.records.entries, ∀ b ∈ s.records.entries, owner a = owner b → a = b
  indexed : ∀ a ∈ s.records.entries, s.index.get (owner a) = some (key a)
  pointed : ∀ id k, s.index.get id = some k → ∃ a ∈ s.records.entries, owner a = id ∧ key a = k

/-- The owner of `a` has no record under another key than that of `a`. -/
def Fits (owner : α → ι) (s : Indexed ι key) (a : α) : Prop :=
  ∀ k, s.index.get (owner a) = some k → k = key a

variable {owner : α → ι} {s : Indexed ι key} {a b : α} {id : ι}

theorem mem_write : b ∈ (s.write owner a).records.entries ↔
    b = a ∨ b ∈ s.records.entries ∧ key b ≠ key a := by
  simp [write, Table.put, Table.remove]

theorem mem_replace {old : κ} : b ∈ (s.replace owner old a).records.entries ↔
    b = a ∨ b ∈ s.records.entries ∧ key b ≠ key a ∧ key b ≠ old := by
  simp [replace, Table.put, Table.remove]

theorem mem_entries_remove : b ∈ (s.remove id).records.entries ↔
    b ∈ s.records.entries ∧ ∀ k, s.index.get id = some k → key b ≠ k := by
  unfold remove
  cases s.index.get id <;> simp [Table.remove]

theorem get_index_remove {id' : ι} :
    (s.remove id).index.get id' = if id' = id then none else s.index.get id' := by
  unfold remove
  cases hget : s.index.get id with
  | some k => exact Store.get_delete
  | none =>
      by_cases h : id' = id
      · rw [if_pos h, h]
        exact hget
      · rw [if_neg h]

omit [DecidableEq κ] [DecidableEq ι] in
theorem sound_empty : (empty : Indexed ι key).Sound owner := by
  refine ⟨?_, ?_, ?_⟩
  · intro a ha
    cases ha
  · intro a ha
    cases ha
  · intro id k hk
    cases hk

/-- After a record was written in place of one with the same owner, the database is as sound as
before. -/
theorem sound_replace (hkey : ∀ a b, key a = key b → owner a = owner b) {old : α}
    (h : s.Sound owner) (hold : old ∈ s.records.entries) (howner : owner a = owner old) :
    (s.replace owner (key old) a).Sound owner := by
  have hother : ∀ b ∈ s.records.entries, key b ≠ key old → owner b ≠ owner a := by
    intro b hb hne heq
    exact hne (congrArg key (h.unique b hb old hold (heq.trans howner)))
  refine ⟨?_, ?_, ?_⟩
  · intro b hb c hc heq
    rcases mem_replace.mp hb with rfl | ⟨hbs, -, hne⟩ <;>
      rcases mem_replace.mp hc with rfl | ⟨hcs, -, hne'⟩
    · rfl
    · exact absurd heq.symm (hother c hcs hne')
    · exact absurd heq (hother b hbs hne)
    · exact h.unique b hbs c hcs heq
  · intro b hb
    rcases mem_replace.mp hb with rfl | ⟨hb, -, hne⟩
    · exact Store.get_put_self
    · exact (Store.get_put_of_ne (hother b hb hne)).trans (h.indexed b hb)
  · intro id k hk
    rcases Store.get_put_eq_some.mp hk with ⟨rfl, rfl⟩ | ⟨hne, hk⟩
    · exact ⟨a, mem_replace.mpr (.inl rfl), rfl, rfl⟩
    · obtain ⟨b, hb, rfl, rfl⟩ := h.pointed id k hk
      refine ⟨b, mem_replace.mpr (.inr ⟨hb, ?_, ?_⟩), rfl, rfl⟩
      · intro heq
        exact hne (hkey b a heq)
      · intro heq
        exact hne ((hkey b old heq).trans howner.symm)

/-- Writing a record keeps the database sound exactly when its owner has none under another key. -/
theorem sound_write_iff (hkey : ∀ a b, key a = key b → owner a = owner b) (h : s.Sound owner) :
    (s.write owner a).Sound owner ↔ s.Fits owner a := by
  constructor
  · intro hwrite k hk
    obtain ⟨b, hb, howner, rfl⟩ := h.pointed _ k hk
    by_contra hne
    have heq := hwrite.unique b (mem_write.mpr (.inr ⟨hb, hne⟩)) a (mem_write.mpr (.inl rfl)) howner
    exact hne (congrArg key heq)
  · intro hfits
    have hother : ∀ b ∈ s.records.entries, key b ≠ key a → owner b ≠ owner a := by
      intro b hb hne heq
      exact hne (hfits (key b) (heq ▸ h.indexed b hb))
    refine ⟨?_, ?_, ?_⟩
    · intro b hb c hc heq
      rcases mem_write.mp hb with rfl | ⟨hbs, hne⟩ <;>
        rcases mem_write.mp hc with rfl | ⟨hcs, hne'⟩
      · rfl
      · exact absurd heq.symm (hother c hcs hne')
      · exact absurd heq (hother b hbs hne)
      · exact h.unique b hbs c hcs heq
    · intro b hb
      rcases mem_write.mp hb with rfl | ⟨hb, hne⟩
      · exact Store.get_put_self
      · exact (Store.get_put_of_ne (hother b hb hne)).trans (h.indexed b hb)
    · intro id k hk
      rcases Store.get_put_eq_some.mp hk with ⟨rfl, rfl⟩ | ⟨hne, hk⟩
      · exact ⟨a, mem_write.mpr (.inl rfl), rfl, rfl⟩
      · obtain ⟨b, hb, rfl, rfl⟩ := h.pointed id k hk
        refine ⟨b, mem_write.mpr (.inr ⟨hb, ?_⟩), rfl, rfl⟩
        intro heq
        exact hne (hkey b a heq)

theorem sound_remove (h : s.Sound owner) (id : ι) : (s.remove id).Sound owner := by
  refine ⟨?_, ?_, ?_⟩
  · intro b hb c hc heq
    exact h.unique b (mem_entries_remove.mp hb).1 c (mem_entries_remove.mp hc).1 heq
  · intro b hb
    obtain ⟨hb, hne⟩ := mem_entries_remove.mp hb
    rw [get_index_remove, if_neg]
    · exact h.indexed b hb
    · intro heq
      exact hne (key b) (heq ▸ h.indexed b hb) rfl
  · intro id' k hk
    rw [get_index_remove] at hk
    split at hk
    case isTrue => cases hk
    case isFalse hne =>
      obtain ⟨b, hb, rfl, rfl⟩ := h.pointed id' k hk
      refine ⟨b, mem_entries_remove.mpr ⟨hb, fun k' hk' heq => ?_⟩, rfl, rfl⟩
      obtain ⟨c, hc, rfl, hkc⟩ := h.pointed id k' hk'
      -- the two records share a key, so they are one
      have hbc : b = c := List.inj_on_of_nodup_map s.records.distinct hb hc (heq.trans hkc.symm)
      exact hne (congrArg owner hbc)

/-- In a sound database, the record of an owner is gone after its removal. -/
theorem owner_ne_of_mem_remove (h : s.Sound owner) (hb : b ∈ (s.remove id).records.entries) :
    owner b ≠ id := by
  rintro rfl
  obtain ⟨hb, hne⟩ := mem_entries_remove.mp hb
  exact hne (key b) (h.indexed b hb) rfl

omit [DecidableEq κ] [DecidableEq ι] in
theorem Sound.nodup_owners (h : s.Sound owner) : (s.records.entries.map owner).Nodup := by
  refine List.Nodup.map_on h.unique ?_
  exact s.records.distinct.of_map key

/-! ## Who has a record -/

/-- The owners with a record. -/
def owners (owner : α → ι) (s : Indexed ι key) : Set ι :=
  {id | ∃ a ∈ s.records.entries, owner a = id}

theorem owners_write (hkey : ∀ a b, key a = key b → owner a = owner b) :
    (s.write owner a).owners owner = insert (owner a) (s.owners owner) := by
  ext id
  rw [Set.mem_insert_iff]
  constructor
  · rintro ⟨b, hb, rfl⟩
    rcases mem_write.mp hb with rfl | ⟨hb, -⟩
    · exact .inl rfl
    · exact .inr ⟨b, hb, rfl⟩
  · rintro (rfl | ⟨b, hb, rfl⟩)
    · exact ⟨a, mem_write.mpr (.inl rfl), rfl⟩
    · by_cases heq : key b = key a
      · exact ⟨a, mem_write.mpr (.inl rfl), hkey a b heq.symm⟩
      · exact ⟨b, mem_write.mpr (.inr ⟨hb, heq⟩), rfl⟩

theorem owners_remove (h : s.Sound owner) (id : ι) :
    (s.remove id).owners owner = s.owners owner \ {id} := by
  ext id'
  constructor
  · rintro ⟨b, hb, rfl⟩
    exact ⟨⟨b, (mem_entries_remove.mp hb).1, rfl⟩, owner_ne_of_mem_remove h hb⟩
  · rintro ⟨⟨b, hb, rfl⟩, hne⟩
    refine ⟨b, mem_entries_remove.mpr ⟨hb, fun k hk heq => hne ?_⟩, rfl⟩
    obtain ⟨c, hc, rfl, rfl⟩ := h.pointed id k hk
    -- the two records share a key, so they are one
    have hbc : b = c := List.inj_on_of_nodup_map s.records.distinct hb hc heq
    exact congrArg owner hbc

omit [DecidableEq κ] [DecidableEq ι] in
theorem mem_owners_iff (h : s.Sound owner) : id ∈ s.owners owner ↔ (s.index.get id).isSome := by
  constructor
  · rintro ⟨b, hb, rfl⟩
    rw [h.indexed b hb]
    rfl
  · intro hsome
    obtain ⟨k, hk⟩ := Option.isSome_iff_exists.mp hsome
    obtain ⟨b, hb, howner, -⟩ := h.pointed id k hk
    exact ⟨b, hb, howner⟩

omit [DecidableEq κ] [DecidableEq ι] in
theorem fits_of_notMem_owners (h : s.Sound owner) (hmem : owner a ∉ s.owners owner) :
    s.Fits owner a := by
  intro k hk
  exact absurd ((mem_owners_iff h).mpr (Option.isSome_iff_exists.mpr ⟨k, hk⟩)) hmem

end Indexed

end SpectrumOffchain
