import Mathlib.Tactic.Common

/-!
# A bounded window on a stack

A window shows the top of a stack, its newest item last.  An item pushed onto a full window
drops the oldest one, and nothing brings that one back: when items are popped the window only
gets shorter.  So what the window shows is not what is near the top of the stack, but what has
always been.

To say so, `put` keeps with each item of the stack the most items that have ever lain on it.  A
window that `Shows` the stack has exactly the items on which fewer than `cap` have lain
(`Shows.mem_iff`).
-/

namespace SpectrumOffchain.Window

variable {α : Type} {cap : ℕ} {window : List α} {stack : List (α × ℕ)}

/-- Push an item, and drop the oldest one if there are more than `cap`. -/
def push (cap : ℕ) (window : List α) (a : α) : List α :=
  let window := window ++ [a]
  if window.length > cap then window.tail else window

/-- Put an item on a stack, top first, of items with the most that have lain on each. -/
def put (stack : List (α × ℕ)) (a : α) : List (α × ℕ) :=
  (a, 0) :: stack.mapIdx fun i b => (b.1, max b.2 (i + 1))

/-- The window shows the top of the stack, as far down as fewer than `cap` items have lain. -/
def Shows (cap : ℕ) (window : List α) (stack : List (α × ℕ)) : Prop :=
  ∃ k ≤ cap, k ≤ stack.length ∧ window = ((stack.take k).map Prod.fst).reverse ∧
    ∀ (i : ℕ) (b : α × ℕ), stack[i]? = some b → i ≤ b.2 ∧ (b.2 < cap ↔ i < k)

theorem shows_nil : Shows cap ([] : List α) [] :=
  ⟨0, Nat.zero_le _, Nat.le_refl _, rfl, fun _ _ hget => by simp at hget⟩

theorem map_fst_put (a : α) : (put stack a).map Prod.fst = a :: stack.map Prod.fst := by
  have hfst : (stack.mapIdx fun i b => (b.1, max b.2 (i + 1))).map Prod.fst =
      stack.map Prod.fst := by
    apply List.ext_getElem?
    intro i
    rw [List.getElem?_map, List.getElem?_mapIdx, List.getElem?_map, Option.map_map]
    rfl
  rw [put, List.map_cons, hfst]

/-- A window of `k` items keeps the newest of `k + 1` and `cap`. -/
theorem push_reverse_take {items : List α} {k : ℕ} (hk : k ≤ cap) (hlength : k ≤ items.length)
    (a : α) :
    push cap (items.take k).reverse a = ((a :: items).take (min (k + 1) cap)).reverse := by
  have hpushed : (items.take k).reverse ++ [a] = ((a :: items).take (k + 1)).reverse := by
    rw [List.take_succ_cons, List.reverse_cons]
  have hpushedLength : ((a :: items).take (k + 1)).length = k + 1 := by
    rw [List.length_take, List.length_cons]
    omega
  rw [push, hpushed, List.length_reverse, hpushedLength]
  split
  · next hfull =>
      have hcap : min (k + 1) cap = k + 1 - 1 := by omega
      rw [List.tail_reverse, List.dropLast_eq_take, List.take_take, hpushedLength, hcap]
      congr 2
      omega
  · next hroom =>
      rw [Nat.min_eq_left (Nat.not_lt.mp hroom)]

theorem Shows.push (h : Shows cap window stack) (a : α) :
    Shows cap (push cap window a) (put stack a) := by
  obtain ⟨k, hk, hlength, rfl, hlain⟩ := h
  refine ⟨min (k + 1) cap, Nat.min_le_right _ _, ?_, ?_, ?_⟩
  · rw [put, List.length_cons, List.length_mapIdx]
    omega
  · rw [List.map_take, List.map_take, map_fst_put]
    exact push_reverse_take hk (by rwa [List.length_map]) a
  · intro i b hget
    cases i with
    | zero =>
        rw [put, List.getElem?_cons_zero] at hget
        cases hget
        show 0 ≤ 0 ∧ (0 < cap ↔ 0 < min (k + 1) cap)
        omega
    | succ i =>
        -- one more item lies on the items that were there
        rw [put, List.getElem?_cons_succ, List.getElem?_mapIdx, Option.map_eq_some_iff] at hget
        obtain ⟨below, hbelow, rfl⟩ := hget
        obtain ⟨hle, hiff⟩ := hlain i below hbelow
        show i + 1 ≤ max below.2 (i + 1) ∧ (max below.2 (i + 1) < cap ↔ i + 1 < min (k + 1) cap)
        omega

theorem Shows.pop (h : Shows cap window stack) : Shows cap window.dropLast stack.tail := by
  obtain ⟨k, hk, hlength, rfl, hlain⟩ := h
  refine ⟨k - 1, Nat.le_trans (Nat.sub_le _ _) hk, ?_, ?_, ?_⟩
  · rw [List.length_tail]
    omega
  · rw [List.dropLast_reverse, ← List.map_tail, ← List.drop_one, List.drop_take, List.drop_one]
  · intro i b hget
    rw [List.getElem?_tail] at hget
    obtain ⟨hle, hiff⟩ := hlain (i + 1) b hget
    omega

/-- The window has what has never had `cap` items on it. -/
theorem Shows.mem_iff (h : Shows cap window stack) {a : α} :
    a ∈ window ↔ ∃ lain < cap, (a, lain) ∈ stack := by
  obtain ⟨k, hk, hlength, rfl, hlain⟩ := h
  rw [List.mem_reverse, List.mem_map]
  constructor
  · rintro ⟨b, hmem, rfl⟩
    obtain ⟨i, hget⟩ := List.mem_iff_getElem?.mp hmem
    rw [List.getElem?_take] at hget
    split at hget
    · next hi => exact ⟨b.2, (hlain i b hget).2.mpr hi, List.mem_of_getElem? hget⟩
    · cases hget
  · rintro ⟨lain, hlt, hmem⟩
    obtain ⟨i, hget⟩ := List.mem_iff_getElem?.mp hmem
    have hi : i < k := (hlain i _ hget).2.mp hlt
    refine ⟨(a, lain), List.mem_iff_getElem?.mpr ⟨i, ?_⟩, rfl⟩
    rw [List.getElem?_take, if_pos hi]
    exact hget

end SpectrumOffchain.Window
