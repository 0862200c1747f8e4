import Mathlib.Data.Finset.Basic
import Mathlib.Data.Finset.Dedup

/-!
# Logs of changes to a set

A `Change` adds an element to a set or removes one.  A log of changes is legal from a set
if everything it adds is new at that point and everything it removes is there
(`Legal`).  In a legal log the changes of each element alternate (`alternates_of_legal`),
and a set that is brought up to date by legal logs is the replay of what was logged.
-/

namespace SpectrumOffchain

inductive Change (α : Type) where
  | add (a : α)
  | remove (a : α)
  deriving DecidableEq, Repr

namespace Change

variable {α : Type}

def subject : Change α → α
  | add a => a
  | remove a => a

def isAdd : Change α → Bool
  | add _ => true
  | remove _ => false

variable [DecidableEq α]

def apply (s : Finset α) : Change α → Finset α
  | add a => insert a s
  | remove a => s.erase a

/-- What is added is new, and what is removed is there. -/
def Fits (s : Finset α) : Change α → Prop
  | add a => a ∉ s
  | remove a => a ∈ s

/-- The set after a log of changes. -/
def replay (s : Finset α) (log : List (Change α)) : Finset α := log.foldl apply s

def Legal (s : Finset α) : List (Change α) → Prop
  | [] => True
  | change :: rest => change.Fits s ∧ Legal (change.apply s) rest

variable {s : Finset α} {log log' : List (Change α)}

@[simp] theorem replay_nil : replay s [] = s := rfl

@[simp] theorem replay_cons (change : Change α) :
    replay s (change :: log) = replay (change.apply s) log := rfl

theorem replay_append : replay s (log ++ log') = replay (replay s log) log' := List.foldl_append

theorem legal_append : Legal s (log ++ log') ↔ Legal s log ∧ Legal (replay s log) log' := by
  induction log generalizing s with
  | nil => simp [Legal]
  | cons change rest ih => rw [List.cons_append, Legal, Legal, ih, replay_cons, and_assoc]

/-! ## One element -/

/-- A change of one element concerns no other. -/
theorem mem_apply_of_ne {change : Change α} {a : α} (h : change.subject ≠ a) :
    a ∈ change.apply s ↔ a ∈ s := by
  cases change with
  | add b => exact Finset.mem_insert.trans (or_iff_right (Ne.symm h))
  | remove b => exact Finset.mem_erase.trans (and_iff_right (Ne.symm h))

theorem mem_apply_subject (change : Change α) :
    change.subject ∈ change.apply s ↔ change.isAdd := by
  cases change with
  | add b => exact iff_of_true (Finset.mem_insert_self b s) rfl
  | remove b => exact iff_of_false (Finset.notMem_erase b s) Bool.false_ne_true

theorem fits_iff {change : Change α} :
    change.Fits s ↔ change.isAdd = !decide (change.subject ∈ s) := by
  cases change with
  | add b =>
      show b ∉ s ↔ true = !decide (b ∈ s)
      by_cases h : b ∈ s <;> simp [h]
  | remove b =>
      show b ∈ s ↔ false = !decide (b ∈ s)
      by_cases h : b ∈ s <;> simp [h]

/-- Additions and removals in turn; `present` says whether a removal comes first. -/
def Alternates (present : Bool) : List (Change α) → Prop
  | [] => True
  | change :: rest => change.isAdd = !present ∧ Alternates (!present) rest

/-- In a legal log the changes of an element alternate, and they start with an addition if it is
not in the set. -/
theorem alternates_of_legal (a : α) (h : Legal s log) :
    Alternates (decide (a ∈ s)) (log.filter (·.subject = a)) := by
  induction log generalizing s with
  | nil => trivial
  | cons change rest ih =>
      obtain ⟨hfits, hrest⟩ := h
      have hnext := ih hrest
      by_cases hsubject : change.subject = a
      · rw [List.filter_cons_of_pos (by simpa using hsubject)]
        subst hsubject
        have hadd := fits_iff.mp hfits
        have hmem : decide (change.subject ∈ change.apply s) = !decide (change.subject ∈ s) := by
          rw [decide_eq_decide.mpr (mem_apply_subject change), Bool.decide_coe, hadd]
        rw [hmem] at hnext
        exact ⟨hadd, hnext⟩
      · rw [List.filter_cons_of_neg (by simpa using hsubject)]
        rw [decide_eq_decide.mpr (mem_apply_of_ne hsubject)] at hnext
        exact hnext

end Change

end SpectrumOffchain
