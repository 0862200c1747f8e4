import SpectrumOffchain.Lib.Table

/-!
# Draining a priority queue

`Drains q taken q'` says that popping `q` again and again takes the entries `taken`, in this order,
and leaves `q'`.  What is taken is at least as urgent as what is taken later (`Drains.pairwise`)
and as what stays (`Drains.le`), and nothing else leaves the queue (`Drains.mem_entries`).  So
someone who pops until an entry is acceptable has an acceptable entry that none of the acceptable
ones exceeds (`Drains.best`).
-/

namespace SpectrumOffchain

/-- What is taken away for one of the later items or for the first one is taken away for one of
them. -/
theorem ite_exists_cons {α β : Type} {p : α → Prop} {a : α} {rest : List α} (x y : β)
    [Decidable (p a)] [Decidable (∃ b ∈ rest, p b)] [Decidable (∃ b ∈ a :: rest, p b)] :
    (if ∃ b ∈ rest, p b then x else if p a then x else y) =
      if ∃ b ∈ a :: rest, p b then x else y := by
  have hcons : (∃ b ∈ a :: rest, p b) ↔ p a ∨ ∃ b ∈ rest, p b :=
    List.exists_mem_cons_iff p a rest
  by_cases hrest : ∃ b ∈ rest, p b
  · rw [if_pos hrest, if_pos (hcons.mpr (.inr hrest))]
  · rw [if_neg hrest]
    exact if_congr (hcons.trans (or_iff_left hrest)).symm rfl rfl

namespace PriorityQueue

variable {α : Type} [DecidableEq α] {q q' : PriorityQueue α} {entry other : α × ℕ}
  {taken : List (α × ℕ)}

inductive Drains : PriorityQueue α → List (α × ℕ) → PriorityQueue α → Prop where
  | nil (q : PriorityQueue α) : Drains q [] q
  | cons {q q' : PriorityQueue α} {entry : α × ℕ} {rest : List (α × ℕ)}
      (hmem : entry ∈ q.entries) (hmax : ∀ other ∈ q.entries, other.2 ≤ entry.2)
      (hrest : Drains (q.remove entry.1) rest q') : Drains q (entry :: rest) q'

omit [DecidableEq α] in
/-- Two entries for one item are the same. -/
theorem entry_ext (hmem : entry ∈ q.entries) (hother : other ∈ q.entries)
    (h : other.1 = entry.1) : other = entry :=
  List.inj_on_of_nodup_map q.distinct hother hmem h

theorem mem_entries_remove_iff (hmem : entry ∈ q.entries) :
    other ∈ (q.remove entry.1).entries ↔ other ∈ q.entries ∧ other ≠ entry := by
  rw [Table.mem_entries_remove]
  refine and_congr_right fun hother => not_congr ?_
  exact ⟨entry_ext hmem hother, fun h => h ▸ rfl⟩

namespace Drains

theorem mem_entries (h : Drains q taken q') :
    other ∈ q.entries ↔ other ∈ taken ∨ other ∈ q'.entries := by
  induction h with
  | nil => simp
  | @cons q q' entry rest hmem _ _ ih =>
      rw [mem_entries_remove_iff hmem] at ih
      rw [List.mem_cons, or_assoc, ← ih]
      by_cases heq : other = entry
      · simp [heq, hmem]
      · simp [heq]

/-- What is taken does not stay. -/
theorem notMem (h : Drains q taken q') (htaken : other ∈ taken) : other ∉ q'.entries := by
  induction h with
  | nil => cases htaken
  | @cons q q' entry rest hmem _ hrest ih =>
      rcases List.mem_cons.mp htaken with rfl | htaken
      · intro hleft
        exact ((mem_entries_remove_iff hmem).mp (hrest.mem_entries.mpr (.inr hleft))).2 rfl
      · exact ih htaken

theorem pairwise (h : Drains q taken q') : taken.Pairwise fun e e' => e'.2 ≤ e.2 := by
  induction h with
  | nil => exact List.Pairwise.nil
  | cons hmem hmax hrest ih =>
      refine List.Pairwise.cons ?_ ih
      intro e he
      exact hmax e ((mem_entries_remove_iff hmem).mp (hrest.mem_entries.mpr (.inl he))).1

theorem le (h : Drains q taken q') (htaken : entry ∈ taken) (hleft : other ∈ q'.entries) :
    other.2 ≤ entry.2 := by
  induction h with
  | nil => cases htaken
  | @cons q q' first rest hmem hmax hrest ih =>
      rcases List.mem_cons.mp htaken with rfl | htaken
      · exact hmax other ((mem_entries_remove_iff hmem).mp (hrest.mem_entries.mpr (.inr hleft))).1
      · exact ih htaken hleft

theorem append {q₁ : PriorityQueue α} {taken' : List (α × ℕ)} (h : Drains q taken q₁)
    (h' : Drains q₁ taken' q') : Drains q (taken ++ taken') q' := by
  induction h with
  | nil => exact h'
  | cons hmem hmax _ ih => exact .cons hmem hmax (ih h')

theorem nodup (h : Drains q taken q') : taken.Nodup := by
  induction h with
  | nil => exact List.nodup_nil
  | cons hmem _ hrest ih =>
      refine List.nodup_cons.mpr ⟨fun htaken => ?_, ih⟩
      exact ((mem_entries_remove_iff hmem).mp (hrest.mem_entries.mpr (.inl htaken))).2 rfl

theorem length (h : Drains q taken q') :
    q.entries.length = taken.length + q'.entries.length := by
  induction h with
  | nil => simp
  | @cons q q' entry rest hmem _ _ ih =>
      have hremove := Table.length_remove (List.mem_map.mpr ⟨entry, hmem, rfl⟩ : entry.1 ∈ q.keys)
      rw [List.length_cons]
      omega

/-- The first acceptable entry is not exceeded by another one, and what was taken before it is not
exceeded by it. -/
theorem best {good : α × ℕ → Prop} {dead : List (α × ℕ)} {top : α × ℕ}
    (h : Drains q (dead ++ [top]) q') (hdead : ∀ e ∈ dead, ¬ good e) :
    top ∈ q.entries ∧ (∀ e ∈ q.entries, good e → e.2 ≤ top.2) ∧ top ∉ q'.entries ∧
      ∀ e ∈ q.entries, e ∉ q'.entries → e = top ∨ ¬ good e ∧ top.2 ≤ e.2 := by
  have hlast : top ∈ dead ++ [top] := List.mem_append_right _ (List.mem_singleton_self top)
  have hbefore : ∀ e ∈ dead, top.2 ≤ e.2 := fun e he =>
    (List.pairwise_append.mp h.pairwise).2.2 e he top (List.mem_singleton_self top)
  have hsplit : ∀ e ∈ q.entries, e ∉ q'.entries → e ∈ dead ∨ e = top := by
    intro e he hleft
    rcases List.mem_append.mp ((h.mem_entries.mp he).resolve_right hleft) with hmem | hmem
    · exact Or.inl hmem
    · exact Or.inr (List.mem_singleton.mp hmem)
  refine ⟨h.mem_entries.mpr (.inl hlast), ?_, h.notMem hlast, ?_⟩
  · intro e he hgood
    by_cases hleft : e ∈ q'.entries
    · exact h.le hlast hleft
    · rcases hsplit e he hleft with hmem | rfl
      · exact absurd hgood (hdead e hmem)
      · exact le_rfl
  · intro e he hleft
    rcases hsplit e he hleft with hmem | rfl
    · exact Or.inr ⟨hdead e hmem, hbefore e hmem⟩
    · exact Or.inl rfl

end Drains

end PriorityQueue

end SpectrumOffchain
