import Mathlib.Algebra.GroupWithZero.Nat
import Mathlib.Data.List.Sort
import Mathlib.Order.Basic

/-!
# Reaching a target

Items with weights are taken one after the other until a target is reached (`reach`).  What is
taken is the shortest prefix that reaches it, or everything if nothing does.

The items stand in some strict order.  Where another order was meant, they are still taken as they
would have been in that one exactly when every item that is taken comes before all later items in
the meant order as well (`exists_reach_iff`).  Whether an item is taken is said without running the
loop: what stands below it has to stay below the target (`mem_reach_iff`).
-/

namespace SpectrumOffchain.Reaching

variable {α : Type} {weight : α → ℕ} {target : ℕ} {items : List α} {a b : α}

def total (weight : α → ℕ) (items : List α) : ℕ := (items.map weight).sum

@[simp] theorem total_nil : total weight [] = 0 := rfl

@[simp] theorem total_cons : total weight (a :: items) = weight a + total weight items := by
  simp [total]

theorem total_append {others : List α} :
    total weight (items ++ others) = total weight items + total weight others := by
  simp [total]

theorem total_perm {others : List α} (h : items.Perm others) :
    total weight items = total weight others :=
  (h.map weight).sum_nat

/-- The items that are taken until the target is reached. -/
def reach (weight : α → ℕ) (target : ℕ) : List α → List α
  | [] => []
  | a :: rest => if target = 0 then [] else a :: reach weight (target - weight a) rest

@[simp] theorem reach_nil : reach weight target [] = [] := rfl

@[simp] theorem reach_zero : reach weight 0 items = [] := by
  cases items <;> simp [reach]

theorem reach_cons (h : target ≠ 0) :
    reach weight target (a :: items) = a :: reach weight (target - weight a) items := if_neg h

theorem reach_isPrefix : reach weight target items <+: items := by
  induction items generalizing target with
  | nil => exact List.nil_prefix
  | cons a rest ih =>
      by_cases h : target = 0
      · simp [h]
      · rw [reach_cons h]
        exact List.cons_prefix_cons.mpr ⟨rfl, ih⟩

theorem le_total_reach (h : target ≤ total weight items) :
    target ≤ total weight (reach weight target items) := by
  induction items generalizing target with
  | nil => exact h
  | cons a rest ih =>
      by_cases h0 : target = 0
      · simp [h0]
      · rw [total_cons] at h
        rw [reach_cons h0, total_cons]
        have hrest : target - weight a ≤ total weight rest := by omega
        have := ih hrest
        omega

/-- Everything is taken if that does not do. -/
theorem reach_eq_self (h : total weight items < target) : reach weight target items = items := by
  induction items generalizing target with
  | nil => rfl
  | cons a rest ih =>
      rw [total_cons] at h
      rw [reach_cons (by omega), ih (by omega)]

/-- What comes after the target is reached does not matter. -/
theorem reach_append {others : List α} (h : target ≤ total weight items) :
    reach weight target (items ++ others) = reach weight target items := by
  induction items generalizing target with
  | nil =>
      obtain rfl : target = 0 := Nat.le_zero.mp h
      simp
  | cons a rest ih =>
      by_cases h0 : target = 0
      · simp [h0]
      · rw [total_cons] at h
        rw [List.cons_append, reach_cons h0, reach_cons h0, ih (by omega)]

/-- The prefix reaches the target, and no shorter one does. -/
structure ShortestPrefix (weight : α → ℕ) (target : ℕ) (items first : List α) : Prop where
  isPrefix : first <+: items
  reaches : target ≤ total weight first
  shortest : ∀ p, p <+: items → target ≤ total weight p → first.length ≤ p.length

theorem shortestPrefix_iff {first : List α} : ShortestPrefix weight target items first ↔
    target ≤ total weight items ∧ reach weight target items = first := by
  constructor
  · rintro ⟨⟨rest, rfl⟩, hreaches, hshortest⟩
    have htotal : target ≤ total weight (first ++ rest) := by
      rw [total_append]
      omega
    have hle := hshortest _ reach_isPrefix (le_total_reach htotal)
    rw [reach_append hreaches] at hle ⊢
    exact ⟨htotal, reach_isPrefix.eq_of_length (le_antisymm reach_isPrefix.length_le hle)⟩
  · rintro ⟨htotal, rfl⟩
    refine ⟨reach_isPrefix, le_total_reach htotal, ?_⟩
    rintro p ⟨rest, rfl⟩ hreaches
    rw [reach_append hreaches]
    exact reach_isPrefix.length_le

/-! ## Items in a strict order -/

section Order

variable {lt : α → α → Prop} [DecidableRel lt]

/-- The items that come before `a`. -/
def below (lt : α → α → Prop) [DecidableRel lt] (items : List α) (a : α) : List α :=
  items.filter (lt · a)

theorem total_below_perm {others : List α} (h : items.Perm others) :
    total weight (below lt items a) = total weight (below lt others a) :=
  total_perm (h.filter _)

theorem below_cons (h : lt b a) : below lt (b :: items) a = b :: below lt items a :=
  List.filter_cons_of_pos (decide_eq_true h)

theorem below_eq_nil (h : ∀ b ∈ items, ¬ lt b a) : below lt items a = [] :=
  List.filter_eq_nil_iff.mpr fun b hb hlt => h b hb (of_decide_eq_true hlt)

variable [Std.Asymm lt]

theorem below_append {first rest : List α} (h : (first ++ a :: rest).Pairwise lt) :
    below lt (first ++ a :: rest) a = first := by
  induction first with
  | nil =>
      apply below_eq_nil
      intro b hb
      rcases List.mem_cons.mp hb with rfl | hb
      · exact Std.Irrefl.irrefl b
      · exact Std.Asymm.asymm a b ((List.pairwise_cons.mp h).1 b hb)
  | cons c first ih =>
      obtain ⟨hc, hrest⟩ := List.pairwise_cons.mp h
      rw [List.cons_append, below_cons (hc a (by simp)), ih hrest]

/-- An item is taken if those below it do not reach the target. -/
theorem mem_reach_iff (hsorted : items.Pairwise lt) :
    a ∈ reach weight target items ↔
      a ∈ items ∧ total weight (below lt items a) < target := by
  induction items generalizing target with
  | nil => simp
  | cons c rest ih =>
      obtain ⟨hc, hrest⟩ := List.pairwise_cons.mp hsorted
      by_cases h0 : target = 0
      case pos => simp [h0]
      case neg =>
        have hfirst : below lt ([] ++ c :: rest) c = [] := below_append hsorted
        rw [List.nil_append] at hfirst
        rw [reach_cons h0, List.mem_cons, List.mem_cons, ih hrest]
        constructor
        · rintro (rfl | ⟨ha, hlt⟩)
          · exact ⟨.inl rfl, by rw [hfirst, total_nil]; omega⟩
          · exact ⟨.inr ha, by rw [below_cons (hc a ha), total_cons]; omega⟩
        · rintro ⟨rfl | ha, hlt⟩
          · exact .inl rfl
          · rw [below_cons (hc a ha), total_cons] at hlt
            exact .inr ⟨ha, by omega⟩

omit [DecidableRel lt] in
theorem rel_of_lt {r : α → α → Prop} (hlt' : items.Pairwise lt)
    (hrel : items.Pairwise r) (ha : a ∈ items) (hb : b ∈ items) (hlt : lt a b) : r a b := by
  induction items with
  | nil => cases ha
  | cons c rest ih =>
      obtain ⟨hltc, hlt'⟩ := List.pairwise_cons.mp hlt'
      obtain ⟨hrc, hrel⟩ := List.pairwise_cons.mp hrel
      rcases List.mem_cons.mp ha with rfl | hrest <;> rcases List.mem_cons.mp hb with rfl | hrest'
      · exact absurd hlt (Std.Irrefl.irrefl _)
      · exact hrc b hrest'
      · exact absurd hlt (Std.Asymm.asymm _ _ (hltc a hrest))
      · exact ih hlt' hrel hrest hrest'

/-- Going by the strict order takes what going by the relation takes, whatever that leaves open,
exactly when the relation puts every item that is taken before all later ones. -/
theorem exists_reach_iff {r : α → α → Prop} [DecidableRel r] [Std.Total r] [IsTrans α r]
    (hsorted : items.Pairwise lt) (htarget : target ≤ total weight items) :
    (∃ ordered : List α, ordered.Perm items ∧ ordered.Pairwise r ∧
      reach weight target ordered = reach weight target items) ↔
    ∀ a ∈ items, total weight (below lt items a) < target →
      ∀ b ∈ items, lt a b → r a b := by
  have hmem : ∀ a, a ∈ reach weight target items ↔
      a ∈ items ∧ total weight (below lt items a) < target := fun a => mem_reach_iff hsorted
  have htotal := le_total_reach htarget
  obtain ⟨rest, hitems⟩ : reach weight target items <+: items := reach_isPrefix
  generalize htaken : reach weight target items = taken at hmem htotal hitems ⊢
  subst hitems
  obtain ⟨hlts, -, hcross⟩ := List.pairwise_append.mp hsorted
  constructor
  · rintro ⟨ordered, hperm, hordered, heq⟩ a ha hlt b hb hab
    -- Both orders start with what is taken, so that they leave the same items.
    obtain ⟨rest', rfl⟩ : taken <+: ordered := heq ▸ reach_isPrefix
    have hperm' : rest'.Perm rest := (List.perm_append_left_iff taken).mp hperm
    obtain ⟨hrel, -, hrest⟩ := List.pairwise_append.mp hordered
    have hmema : a ∈ taken := (hmem a).mpr ⟨ha, hlt⟩
    rcases List.mem_append.mp hb with hb | hb
    · exact rel_of_lt hlts hrel hmema hb hab
    · exact hrest a hmema b (hperm'.mem_iff.mpr hb)
  · intro h
    have hrel : ∀ a ∈ taken, ∀ b ∈ taken ++ rest, lt a b → r a b := by
      intro a ha b hb hab
      obtain ⟨hmema, hlt⟩ := (hmem a).mp ha
      exact h a hmema hlt b hb hab
    have hself : reach weight target taken = taken := (reach_append htotal).symm.trans htaken
    refine ⟨taken ++ rest.insertionSort r, (List.perm_insertionSort r rest).append_left taken,
      List.pairwise_append.mpr ⟨?_, List.pairwise_insertionSort r rest, ?_⟩, ?_⟩
    · exact hlts.imp_of_mem fun ha hb hab => hrel _ ha _ (List.mem_append_left _ hb) hab
    · intro a ha b hb
      have hb := (List.mem_insertionSort r).mp hb
      exact hrel a ha b (List.mem_append_right _ hb) (hcross a ha b hb)
    · rw [reach_append htotal, hself]

end Order

end SpectrumOffchain.Reaching
