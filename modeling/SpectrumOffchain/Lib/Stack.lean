import Mathlib.Data.List.Basic
import SpectrumOffchain.Lib.Transition

/-!
# Streams that follow a stack

A stream of `push` and `pop` follows a stack discipline when each `push a` is made onto
a stack that `a` fits on and each `pop a` names the item on top.  `StackStep fits same`
is one such operation as a transition, so that a well-nested stream is a `Run` of it
from the empty stack.  How exactly a `pop` names the top is left to the relation `same`.

A stack of groups can be read as a stack of their members: pushing a group pushes its
members in order, popping it pops them in reverse order (`pushAll`, `popAll`).
-/

namespace SpectrumOffchain

/-- An operation on a stack, as it shows in a stream. -/
inductive StackOp (α : Type) where
  | push (item : α)
  | pop (item : α)
  deriving Repr, DecidableEq

/-- `push` of an item that fits, or `pop` of an item that is the `same` as the top. -/
inductive StackStep {α : Type} (fits : List α → α → Prop) (same : α → α → Prop) :
    List α → StackOp α → List α → Prop where
  | push {stack : List α} {item : α} (h : fits stack item) :
      StackStep fits same stack (.push item) (item :: stack)
  | pop {top item : α} {rest : List α} (h : same item top) :
      StackStep fits same (top :: rest) (.pop item) rest

namespace StackStep

open Transition

variable {α : Type} {fits : List α → α → Prop} {same : α → α → Prop}

/-- Members pushed in order lie on the stack in reverse order. -/
theorem pushAll (hfits : ∀ stack item, fits stack item) (items stack : List α) :
    Run (StackStep fits same) stack (items.map .push) (items.reverse ++ stack) := by
  induction items generalizing stack with
  | nil => exact Run.nil stack
  | cons item rest ih =>
      have hpush : StackStep fits same stack (.push item) (item :: stack) := push (hfits _ _)
      have hrest := ih (item :: stack)
      rw [List.map_cons, List.reverse_cons, List.append_assoc]
      exact Run.cons hpush hrest

/-- Members popped in the order they lie on the stack leave what was below them. -/
theorem popAll (hsame : ∀ item, same item item) (items stack : List α) :
    Run (StackStep fits same) (items ++ stack) (items.map .pop) stack := by
  induction items with
  | nil => exact Run.nil stack
  | cons item rest ih =>
      rw [List.map_cons, List.cons_append]
      exact Run.cons (pop (hsame item)) ih

theorem deterministic {stack : List α} {op : StackOp α} {after after' : List α}
    (h : StackStep fits same stack op after) (h' : StackStep fits same stack op after') :
    after = after' := by
  cases h <;> cases h' <;> rfl

/-- What is pushed and popped again leaves the stack as it was. -/
theorem eq_of_push_pop (hfits : ∀ stack item, fits stack item) (hsame : ∀ item, same item item)
    {items stack after : List α}
    (hrun : Run (StackStep fits same) stack (items.map .push ++ items.reverse.map .pop) after) :
    after = stack := by
  have hback : Run (StackStep fits same) stack
      (items.map .push ++ items.reverse.map .pop) stack :=
    (pushAll hfits items stack).append (popAll hsame items.reverse stack)
  have hdet : ∀ (stack : List α) (op : StackOp α) (after after' : List α),
      StackStep fits same stack op after → StackStep fits same stack op after' → after = after' :=
    fun _ _ _ _ => deterministic
  exact hrun.unique hdet hback

end StackStep

end SpectrumOffchain
