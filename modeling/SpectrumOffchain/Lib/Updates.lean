import Mathlib.Data.List.Nodup
import Mathlib.Tactic.Common

/-!
# Batches of updates under distinct keys

A batch of updates is applied one after the other, and each is about one key.  If an
update decides what can be read under its own key and leaves the other keys alone, then
after a batch with distinct keys every update has had its effect, in whatever order they
were applied.  What an update decides may rest on an invariant of the states in between.
-/

namespace SpectrumOffchain.Updates

variable {R U K V : Type} {step : R → U → R} (get : R → K → V) {key : U → K} {value : U → V}
  (I : R → Prop) {upds : List U} {r : R}

/-- A key that no update is about reads the same after the batch. -/
theorem get_foldl_of_notMem
    (hother : ∀ r, ∀ u ∈ upds, ∀ k, k ≠ key u → get (step r u) k = get r k) {k : K}
    (hk : k ∉ upds.map key) : get (upds.foldl step r) k = get r k := by
  induction upds generalizing r with
  | nil => rfl
  | cons u rest ih =>
      rw [List.map_cons, List.mem_cons, not_or] at hk
      rw [List.foldl_cons, ih (fun r u' hu' => hother r u' (List.mem_cons_of_mem u hu')) hk.2]
      exact hother r u List.mem_cons_self k hk.1

/-- The invariant holds after the batch. -/
theorem foldl_invariant (hI : ∀ r, ∀ u ∈ upds, I r → I (step r u)) (hr : I r) :
    I (upds.foldl step r) := by
  induction upds generalizing r with
  | nil => exact hr
  | cons u rest ih =>
      refine ih (fun r u' hu' => hI r u' (List.mem_cons_of_mem u hu')) ?_
      exact hI r u List.mem_cons_self hr

/-- What an update of the batch brings about and the others keep holds after the batch. -/
theorem foldl_of_mem (hI : ∀ r, ∀ u ∈ upds, I r → I (step r u)) {u : U} (hu : u ∈ upds)
    (hself : ∀ r, I (step r u)) : I (upds.foldl step r) := by
  induction upds generalizing r with
  | nil => cases hu
  | cons u' rest ih =>
      have hrest : ∀ r, ∀ u ∈ rest, I r → I (step r u) :=
        fun r u hu => hI r u (List.mem_cons_of_mem u' hu)
      rw [List.foldl_cons]
      rcases List.mem_cons.mp hu with rfl | hu
      · exact foldl_invariant I hrest (hself r)
      · exact ih hrest hu

/-- Every update of the batch decides what is read under its key. -/
theorem get_foldl_of_mem
    (hother : ∀ r, ∀ u ∈ upds, ∀ k, k ≠ key u → get (step r u) k = get r k)
    (hI : ∀ r, ∀ u ∈ upds, I r → I (step r u))
    (hself : ∀ r, ∀ u ∈ upds, I r → get (step r u) (key u) = value u)
    (hnodup : (upds.map key).Nodup) (hr : I r) {u : U} (hu : u ∈ upds) :
    get (upds.foldl step r) (key u) = value u := by
  induction upds generalizing r with
  | nil => cases hu
  | cons u' rest ih =>
      rw [List.map_cons, List.nodup_cons] at hnodup
      have hstep := hI r u' List.mem_cons_self hr
      have hrest : ∀ r, ∀ u ∈ rest, ∀ k, k ≠ key u → get (step r u) k = get r k :=
        fun r u hu => hother r u (List.mem_cons_of_mem u' hu)
      rcases List.mem_cons.mp hu with rfl | hu
      · rw [List.foldl_cons, get_foldl_of_notMem get hrest hnodup.1]
        exact hself r u List.mem_cons_self hr
      · exact ih hrest (fun r u hu => hI r u (List.mem_cons_of_mem u' hu))
          (fun r u hu => hself r u (List.mem_cons_of_mem u' hu)) hnodup.2 hstep hu

end SpectrumOffchain.Updates
