import SpectrumOffchain.Lib.Outcome

/-!
# Two computations side by side

Where one piece of code does the work of another on data of another form, the two end alike: both
return, with results that are related, or both fail, or both crash.  The rules follow the statements
of the code.
-/

namespace SpectrumOffchain.Outcome

variable {ε α β : Type}

/-- Both return, with results that are related, or both end in the same error, or both crash. -/
inductive Coupled (R : α → β → Prop) : Outcome ε α → Outcome ε β → Prop where
  | ok {a : α} {b : β} (h : R a b) : Coupled R (.ok a) (.ok b)
  | err (e : ε) : Coupled R (.err e) (.err e)
  | crash : Coupled R .crash .crash

section Coupled

variable {γ δ : Type} {R : α → β → Prop} {S : γ → δ → Prop} {x : Outcome ε α} {y : Outcome ε β}

theorem Coupled.bind {f : α → Outcome ε γ} {g : β → Outcome ε δ} (h : Coupled R x y)
    (hf : ∀ a b, R a b → Coupled S (f a) (g b)) : Coupled S (x >>= f) (y >>= g) := by
  cases h with
  | ok h => exact hf _ _ h
  | err e => exact Coupled.err e
  | crash => exact Coupled.crash

/-- Where both begin with the same statement, it does the same in both. -/
theorem Coupled.same_bind {f : α → Outcome ε γ} {g : α → Outcome ε δ} {x : Outcome ε α}
    (hf : ∀ a, x = .ok a → Coupled S (f a) (g a)) : Coupled S (x >>= f) (x >>= g) := by
  cases x with
  | ok a => exact hf a rfl
  | err e => exact Coupled.err e
  | crash => exact Coupled.crash

end Coupled

end SpectrumOffchain.Outcome
