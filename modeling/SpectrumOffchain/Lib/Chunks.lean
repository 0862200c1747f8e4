import Mathlib.Data.List.Flatten
import Mathlib.Data.List.Nodup
import Mathlib.Tactic.Common

/-!
# Consecutive parts of a list

`chunks size xs` cuts a list into parts of `size` elements each, of which the last may be
shorter.  Put together again the parts are the list (`flatten_chunks`), none of them is
empty, and none is longer than `size`.  So every element of a list without repetitions is
in one part only (`exists_chunk`).
-/

namespace SpectrumOffchain

variable {α : Type}

/-- Cut off a part in each round.  A part has an element at least, so that as many rounds as there
are elements are enough. -/
def chunksFrom (size : ℕ) : ℕ → List α → List (List α)
  | 0, _ => []
  | _ + 1, [] => []
  | rounds + 1, x :: rest =>
      (x :: rest).take size :: chunksFrom size rounds ((x :: rest).drop size)

def chunks (size : ℕ) (xs : List α) : List (List α) := chunksFrom size xs.length xs

variable {size rounds : ℕ} {xs part : List α}

theorem flatten_chunksFrom (hsize : 0 < size) (hrounds : xs.length ≤ rounds) :
    (chunksFrom size rounds xs).flatten = xs := by
  induction rounds generalizing xs with
  | zero =>
      rw [List.length_eq_zero_iff.mp (Nat.le_zero.mp hrounds)]
      rfl
  | succ rounds ih =>
      cases xs with
      | nil => rfl
      | cons x rest =>
          have hlength : ((x :: rest).drop size).length ≤ rounds := by
            rw [List.length_drop]
            omega
          rw [chunksFrom, List.flatten_cons, ih hlength, List.take_append_drop]

theorem of_mem_chunksFrom (hsize : 0 < size) (h : part ∈ chunksFrom size rounds xs) :
    part ≠ [] ∧ part.length ≤ size := by
  induction rounds generalizing xs with
  | zero => cases h
  | succ rounds ih =>
      cases xs with
      | nil => cases h
      | cons x rest =>
          rcases List.mem_cons.mp h with rfl | hrest
          · refine ⟨?_, List.length_take_le size _⟩
            rw [Ne, List.take_eq_nil_iff, not_or]
            exact ⟨Nat.ne_of_gt hsize, List.cons_ne_nil x rest⟩
          · exact ih hrest

theorem flatten_chunks (hsize : 0 < size) (xs : List α) : (chunks size xs).flatten = xs :=
  flatten_chunksFrom hsize (Nat.le_refl _)

/-- Each part is of the size, or shorter, and not empty. -/
theorem of_mem_chunks (hsize : 0 < size) (h : part ∈ chunks size xs) :
    part ≠ [] ∧ part.length ≤ size :=
  of_mem_chunksFrom hsize h

theorem sublist_of_mem_chunks (hsize : 0 < size) (h : part ∈ chunks size xs) :
    part.Sublist xs := by
  have hsub := List.sublist_flatten_of_mem h
  rwa [flatten_chunks hsize] at hsub

/-- Every element of a list without repetitions is in exactly one part. -/
theorem exists_chunk (hsize : 0 < size) (hnodup : xs.Nodup) {x : α} (hx : x ∈ xs) :
    ∃ (i : ℕ) (part : List α), (chunks size xs)[i]? = some part ∧ x ∈ part ∧
      ∀ (j : ℕ) (part' : List α), (chunks size xs)[j]? = some part' → x ∈ part' → j = i := by
  have hflat := flatten_chunks hsize xs
  rw [← hflat] at hx hnodup
  obtain ⟨part, hpart, hmem⟩ := List.mem_flatten.mp hx
  obtain ⟨i, hi⟩ := List.mem_iff_getElem?.mp hpart
  have hapart := List.pairwise_iff_getElem.mp (List.nodup_flatten.mp hnodup).2
  refine ⟨i, part, hi, hmem, fun j part' hj hmem' => ?_⟩
  obtain ⟨hilt, rfl⟩ := List.getElem?_eq_some_iff.mp hi
  obtain ⟨hjlt, rfl⟩ := List.getElem?_eq_some_iff.mp hj
  by_contra hne
  rcases Nat.lt_or_gt_of_ne hne with hlt | hlt
  · exact hapart j i hjlt hilt hlt hmem' hmem
  · exact hapart i j hilt hjlt hlt hmem hmem'

end SpectrumOffchain
