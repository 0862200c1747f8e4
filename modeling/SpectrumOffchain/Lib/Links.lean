import Mathlib.Data.List.Basic
import Mathlib.Logic.Relation
import Mathlib.Tactic.Common

/-!
# Following links

Every node has at most one link, `next`, to another one.  `LeadsTo next a b` says that one
or more links lead from `a` to `b`, and `follow` looks for `b` along the links of `a`.
What `follow` answers is right (`follow_eq_some`), and it answers after some number of
rounds if the links from `a` come to an end (`exists_follow`).

Links do come to an end if a node gets its link when it is created, to a node that is
there before it.  `created` lists nodes with their links, the newest first; it is
`Ordered` if no node occurs in the entries before its own.  `ancestry` lists the nodes
that a node leads to.
-/

namespace SpectrumOffchain.Links

variable {α : Type} {next : α → Option α} {a b : α}

/-- One or more links lead from one node to the other. -/
def LeadsTo (next : α → Option α) : α → α → Prop := Relation.TransGen fun a b => next a = some b

theorem leadsTo_iff : LeadsTo next a b ↔ ∃ c, next a = some c ∧ (c = b ∨ LeadsTo next c b) := by
  unfold LeadsTo
  rw [Relation.TransGen.head'_iff]
  refine exists_congr fun c => and_congr_right fun _ => ?_
  rw [Relation.reflTransGen_iff_eq_or_transGen, eq_comm]

/-! ## The search -/

section Follow

variable [DecidableEq α] {goal head : α} {rounds rounds' : ℕ} {found : Bool}

/-- Follow the links from `head` to see if they lead to `goal`. -/
def follow (next : α → Option α) (goal : α) : ℕ → α → Option Bool
  | 0, _ => none
  | rounds + 1, head =>
      match next head with
      | none => some false
      | some prev => if prev = goal then some true else follow next goal rounds prev

theorem follow_mono (h : follow next goal rounds head = some found) (hle : rounds ≤ rounds') :
    follow next goal rounds' head = some found := by
  induction rounds generalizing head rounds' with
  | zero => cases h
  | succ rounds ih =>
      cases rounds' with
      | zero => omega
      | succ rounds' =>
          unfold follow at h ⊢
          cases hnext : next head with
          | none =>
              rw [hnext] at h
              exact h
          | some prev =>
              rw [hnext] at h
              dsimp only at h ⊢
              by_cases hgoal : prev = goal
              · rw [if_pos hgoal] at h ⊢
                exact h
              · rw [if_neg hgoal] at h ⊢
                exact ih h (by omega)

/-- What is made of the answer stays the same too. -/
theorem map_follow_mono {β : Type} {f : Bool → β} {res : β}
    (h : (follow next goal rounds head).map f = some res) (hle : rounds ≤ rounds') :
    (follow next goal rounds' head).map f = some res := by
  obtain ⟨found, hfollow, hres⟩ := Option.map_eq_some_iff.mp h
  exact Option.map_eq_some_iff.mpr ⟨found, follow_mono hfollow hle, hres⟩

theorem follow_eq_some (h : follow next goal rounds head = some found) :
    found = true ↔ LeadsTo next head goal := by
  induction rounds generalizing head with
  | zero => cases h
  | succ rounds ih =>
      unfold follow at h
      rw [leadsTo_iff]
      cases hnext : next head with
      | none =>
          rw [hnext] at h
          cases h
          simp
      | some prev =>
          rw [hnext] at h
          dsimp only at h
          simp only [Option.some.injEq, exists_eq_left']
          by_cases hgoal : prev = goal
          · rw [if_pos hgoal] at h
            cases h
            exact iff_of_true rfl (Or.inl hgoal)
          · rw [if_neg hgoal] at h
            rw [ih h, or_iff_right hgoal]

/-- The search comes to an end if the links do. -/
theorem exists_follow (goal : α) (h : Acc (fun b a => next a = some b) head) :
    ∃ rounds found, follow next goal rounds head = some found := by
  induction h with
  | intro head _ ih =>
      cases hnext : next head with
      | none => exact ⟨1, false, by rw [follow, hnext]⟩
      | some prev =>
          obtain ⟨rounds, found, hrest⟩ := ih prev hnext
          by_cases hgoal : prev = goal
          · exact ⟨1, true, by simp [follow, hnext, hgoal]⟩
          · exact ⟨rounds + 1, found, by simp [follow, hnext, hgoal, hrest]⟩

end Follow

/-! ## Nodes in the order of their creation -/

/-- A node, and the one it is linked to. -/
abbrev Entry (α : Type) := α × Option α

/-- Whether no entry is about the node or links to it. -/
def Fresh (created : List (Entry α)) (a : α) : Prop :=
  ∀ entry ∈ created, entry.1 ≠ a ∧ entry.2 ≠ some a

instance [DecidableEq α] (created : List (Entry α)) (a : α) : Decidable (Fresh created a) :=
  inferInstanceAs (Decidable (∀ entry ∈ created, _))

/-- Every node was fresh when it was created, the newest being the first of the list. -/
def Ordered : List (Entry α) → Prop
  | [] => True
  | (a, prev) :: older => prev ≠ some a ∧ Fresh older a ∧ Ordered older

theorem Ordered.acc {created : List (Entry α)} (h : Ordered created) (a : α) :
    Acc (fun b a => (a, some b) ∈ created) a := by
  induction created generalizing a with
  | nil => exact ⟨a, fun b hb => absurd hb List.not_mem_nil⟩
  | cons entry older ih =>
      obtain ⟨newest, prev⟩ := entry
      obtain ⟨hself, hfresh, hordered⟩ := h
      -- the links of the other nodes do not lead to the newest one
      have hothers : ∀ x, x ≠ newest →
          Acc (fun b a => (a, some b) ∈ (newest, prev) :: older) x := by
        intro x hx
        induction ih hordered x with
        | intro x _ ihx =>
            constructor
            intro y hy
            rcases List.mem_cons.mp hy with heq | hy
            · exact absurd (congrArg Prod.fst heq) hx
            · exact ihx y hy fun heq => (hfresh _ hy).2 (congrArg some heq)
      by_cases ha : a = newest
      · subst ha
        constructor
        intro y hy
        rcases List.mem_cons.mp hy with heq | hy
        · apply hothers
          rintro rfl
          exact hself (congrArg Prod.snd heq).symm
        · exact absurd rfl (hfresh _ hy).1
      · exact hothers a ha

/-- Links that were recorded when their nodes were created come to an end. -/
theorem acc_of_ordered {created : List (Entry α)} (h : Ordered created)
    (hlinks : ∀ a b, next a = some b → (a, some b) ∈ created) (a : α) :
    Acc (fun b a => next a = some b) a :=
  Subrelation.accessible (fun {b a} => hlinks a b) (h.acc a)

/-- Nodes other than the newest one lead where they led before it was created. -/
theorem Ordered.leadsTo_older {entry : Entry α} {older : List (Entry α)}
    (h : Ordered (entry :: older)) (ha : a ≠ entry.1) :
    Relation.ReflTransGen (fun a b => (a, some b) ∈ entry :: older) a b ↔
      Relation.ReflTransGen (fun a b => (a, some b) ∈ older) a b := by
  obtain ⟨-, hfresh, -⟩ := h
  constructor
  · intro hleads
    induction hleads using Relation.ReflTransGen.head_induction_on with
    | refl => exact Relation.ReflTransGen.refl
    | @head a c hlink _ ih =>
        rcases List.mem_cons.mp hlink with heq | hlink
        · exact absurd (congrArg Prod.fst heq) ha
        · have hc : c ≠ entry.1 := fun heq => (hfresh _ hlink).2 (congrArg some heq)
          exact Relation.ReflTransGen.head hlink (ih hc)
  · intro hleads
    exact Relation.ReflTransGen.mono (fun _ _ hlink => List.mem_cons_of_mem _ hlink) _ _ hleads

/-! ## Ancestry -/

section Ancestry

variable [DecidableEq α]

/-- The node and those it leads to. -/
def ancestry : List (Entry α) → α → List α
  | [], a => [a]
  | (newest, some prev) :: older, a =>
      if a = newest then newest :: ancestry older prev else ancestry older a
  | (newest, none) :: older, a => if a = newest then [newest] else ancestry older a

theorem head?_ancestry (created : List (Entry α)) (a : α) :
    (ancestry created a).head? = some a := by
  induction created with
  | nil => rfl
  | cons entry older ih =>
      obtain ⟨newest, prev⟩ := entry
      by_cases ha : a = newest
      · cases prev <;> simp [ancestry, ha]
      · cases prev <;> simp [ancestry, ha, ih]

theorem mem_ancestry_iff_reflTransGen {created : List (Entry α)} (h : Ordered created) :
    b ∈ ancestry created a ↔ Relation.ReflTransGen (fun a b => (a, some b) ∈ created) a b := by
  induction created generalizing a with
  | nil =>
      rw [ancestry, List.mem_singleton, Relation.ReflTransGen.cases_head_iff]
      simp [eq_comm]
  | cons entry older ih =>
      obtain ⟨newest, prev⟩ := entry
      by_cases ha : a = newest
      · subst ha
        obtain ⟨hself, hfresh, hordered⟩ := id h
        -- the newest node is linked to `prev` only
        have hlink : ∀ c, (a, some c) ∈ (a, prev) :: older ↔ some c = prev := by
          intro c
          rw [List.mem_cons, Prod.mk.injEq, eq_self_iff_true, true_and]
          exact or_iff_left fun hmem => (hfresh _ hmem).1 rfl
        rw [Relation.ReflTransGen.cases_head_iff]
        simp only [hlink]
        cases prev with
        | none => simp [ancestry, eq_comm]
        | some prev =>
            have hne : prev ≠ a := fun heq => hself (congrArg some heq)
            simp only [Option.some.injEq, exists_eq_left]
            rw [h.leadsTo_older hne, ← ih hordered, ancestry, if_pos rfl, List.mem_cons, eq_comm]
      · rw [h.leadsTo_older ha, ← ih h.2.2]
        cases prev <;> simp [ancestry, ha]

/-- Among nodes in the order of their creation, the ancestry of a node is what it leads to. -/
theorem mem_ancestry_iff {created : List (Entry α)} (h : Ordered created)
    (hlinks : ∀ a b, next a = some b ↔ (a, some b) ∈ created) :
    b ∈ ancestry created a ↔ b = a ∨ LeadsTo next a b := by
  have hrel : (fun a b => (a, some b) ∈ created) = fun a b => next a = some b := by
    funext a b
    exact propext (hlinks a b).symm
  rw [mem_ancestry_iff_reflTransGen h, hrel, Relation.reflTransGen_iff_eq_or_transGen, LeadsTo]

end Ancestry

/-! ## Paths -/

/-- Each node is linked to the one behind it, and the last one to none. -/
def Path (next : α → Option α) : List α → Prop
  | [] => True
  | a :: rest => next a = rest.head? ∧ Path next rest

namespace Path

variable {next' : α → Option α} {nodes rest : List α}

theorem congr (h : Path next nodes) (heq : ∀ a ∈ nodes, next' a = next a) : Path next' nodes := by
  induction nodes with
  | nil => trivial
  | cons a rest ih =>
      obtain ⟨ha, hrest⟩ := List.forall_mem_cons.mp heq
      exact ⟨ha.trans h.1, ih h.2 hrest⟩

theorem suffix (h : Path next nodes) (hsuffix : rest <:+ nodes) : Path next rest := by
  induction nodes with
  | nil =>
      rw [List.suffix_nil.mp hsuffix]
      trivial
  | cons a nodes ih =>
      rcases List.suffix_cons_iff.mp hsuffix with rfl | hsuffix
      · exact h
      · exact ih h.2 hsuffix

theorem leadsTo (h : Path next (a :: rest)) (hb : b ∈ rest) : LeadsTo next a b := by
  induction rest generalizing a with
  | nil => cases hb
  | cons c rest ih =>
      apply leadsTo_iff.mpr ⟨c, h.1, ?_⟩
      rcases List.mem_cons.mp hb with rfl | hb
      · exact Or.inl rfl
      · exact Or.inr (ih h.2 hb)

end Path

/-- Where links are taken away, no new ones lead anywhere. -/
theorem LeadsTo.mono {next' : α → Option α} (h : LeadsTo next' a b)
    (hle : ∀ a b, next' a = some b → next a = some b) : LeadsTo next a b :=
  Relation.TransGen.mono (fun a b => hle a b) _ _ h

/-- What a node leads to is linked to by some node. -/
theorem LeadsTo.exists_link (h : LeadsTo next a b) : ∃ c, next c = some b := by
  obtain ⟨c, -, hlink⟩ := Relation.TransGen.tail'_iff.mp h
  exact ⟨c, hlink⟩

/-- The link of a node that none is linked to matters to this node only. -/
theorem LeadsTo.of_isolated {next' : α → Option α} {node : α} (h : LeadsTo next' a b)
    (hnode : ∀ c, next c ≠ some node) (heq : ∀ c, c ≠ node → next' c = next c) (ha : a ≠ node) :
    LeadsTo next a b := by
  induction h using Relation.TransGen.head_induction_on with
  | single hlink => exact Relation.TransGen.single ((heq _ ha).symm.trans hlink)
  | @head a c hlink _ ih =>
      have hlink : next a = some c := (heq _ ha).symm.trans hlink
      exact Relation.TransGen.head hlink (ih fun hc => hnode a (hc ▸ hlink))

end SpectrumOffchain.Links
