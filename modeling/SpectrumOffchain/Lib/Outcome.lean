import Mathlib.Algebra.Group.Nat.Defs
import Mathlib.Data.List.Forall2
import Mathlib.Data.Option.Basic
import Mathlib.Tactic.Common

/-!
# Computations that return, fail or crash

`Outcome ε α` is what a piece of imperative code ends in: a value of type `α`,
an error of type `ε` that it hands back to its caller, or a crash.  A crash is a
failed `unwrap` or an arithmetic operation out of range, at which a build with
overflow checks panics and one without them goes on with a wrong number.  The
three are kept apart because callers react to the first two and never see the third.

A proof about such code has one of three shapes, and this file has the rewriting
rules for each:

* *inversion*: the code returned, so every statement before it did
  (`bind_eq_ok` with the `*_eq_ok` lemma of each primitive);
* *crash freedom*: no statement the run reaches crashes (`bind_ne_crash` with
  the `*_ne_crash` lemma of each primitive);
* *errors*: an error comes from one of the statements (`bind_eq_err`), and never
  from arithmetic (`Unfailing`).

Machine integers are natural numbers; `checkedAdd w` and its siblings compute in
`w` bits and crash when the result does not fit.
-/

namespace SpectrumOffchain

/-- How a piece of code ends. -/
inductive Outcome (ε α : Type) where
  | ok (value : α)
  | err (error : ε)
  | crash
  deriving Repr, DecidableEq

namespace Outcome

variable {ε α β : Type}

instance : Monad (Outcome ε) where
  pure := .ok
  bind x f :=
    match x with
    | .ok a => f a
    | .err e => .err e
    | .crash => .crash

/-- Replace the error, as `map_err` does. -/
def mapErr {δ : Type} (f : ε → δ) : Outcome ε α → Outcome δ α
  | .ok a => .ok a
  | .err e => .err (f e)
  | .crash => .crash

/-! ## Composition -/

@[simp] theorem pure_eq (a : α) : (pure a : Outcome ε α) = .ok a := rfl

@[simp] theorem ok_bind (a : α) (f : α → Outcome ε β) : (Outcome.ok a >>= f) = f a := rfl

@[simp] theorem err_bind (e : ε) (f : α → Outcome ε β) :
    ((Outcome.err e : Outcome ε α) >>= f) = .err e := rfl

@[simp] theorem crash_bind (f : α → Outcome ε β) :
    ((Outcome.crash : Outcome ε α) >>= f) = .crash := rfl

instance : LawfulMonad (Outcome ε) :=
  LawfulMonad.mk' _ (fun x => by cases x <;> rfl) (fun _ _ => rfl)
    (fun x _ _ => by cases x <;> rfl)

theorem bind_eq_ok {x : Outcome ε α} {f : α → Outcome ε β} {b : β} :
    (x >>= f) = .ok b ↔ ∃ a, x = .ok a ∧ f a = .ok b := by
  cases x <;> simp

theorem bind_ne_crash {x : Outcome ε α} {f : α → Outcome ε β} :
    (x >>= f) ≠ .crash ↔ x ≠ .crash ∧ ∀ a, x = .ok a → f a ≠ .crash := by
  cases x <;> simp

theorem bind_eq_err {x : Outcome ε α} {f : α → Outcome ε β} {e : ε} :
    (x >>= f) = .err e ↔ x = .err e ∨ ∃ a, x = .ok a ∧ f a = .err e := by
  cases x <;> simp

theorem mapErr_eq_ok {δ : Type} {f : ε → δ} {x : Outcome ε α} {a : α} :
    x.mapErr f = .ok a ↔ x = .ok a := by
  cases x <;> simp [mapErr]

theorem mapErr_eq_err {δ : Type} {f : ε → δ} {x : Outcome ε α} {d : δ} :
    x.mapErr f = .err d ↔ ∃ e, x = .err e ∧ f e = d := by
  cases x <;> simp [mapErr]

theorem mapErr_ne_crash {δ : Type} {f : ε → δ} {x : Outcome ε α} :
    x.mapErr f ≠ .crash ↔ x ≠ .crash := by
  cases x <;> simp [mapErr]

/-! ## Early returns and unwraps -/

/-- `if c { return Err(e) }`. -/
def failIf (c : Prop) [Decidable c] (e : ε) : Outcome ε Unit :=
  if c then .err e else .ok ()

/-- `opt.unwrap()`. -/
def unwrap : Option α → Outcome ε α
  | some a => .ok a
  | none => .crash

theorem failIf_pos {c : Prop} [Decidable c] {e : ε} (h : c) : failIf c e = .err e := if_pos h

theorem failIf_neg {c : Prop} [Decidable c] {e : ε} (h : ¬ c) : failIf c e = .ok () := if_neg h

theorem failIf_eq_ok {c : Prop} [Decidable c] {e : ε} {u : Unit} :
    failIf c e = .ok u ↔ ¬ c := by
  by_cases h : c <;> simp [failIf, h]

theorem failIf_eq_err {c : Prop} [Decidable c] {e e' : ε} (h : failIf c e = .err e') : e' = e := by
  unfold failIf at h
  split at h <;> cases h
  rfl

theorem failIf_ne_crash {c : Prop} [Decidable c] {e : ε} : failIf c e ≠ .crash := by
  by_cases h : c <;> simp [failIf, h]

theorem unwrap_eq_ok {o : Option α} {a : α} : (unwrap o : Outcome ε α) = .ok a ↔ o = some a := by
  cases o <;> simp [unwrap]

/-! ## Checked arithmetic -/

/-- A result that has to fit into `w` bits. -/
def fit (w n : ℕ) : Outcome ε ℕ :=
  if n < 2 ^ w then .ok n else .crash

/-- `a + b` in `w` bits. -/
def checkedAdd (w a b : ℕ) : Outcome ε ℕ := fit w (a + b)

/-- `a * b` in `w` bits. -/
def checkedMul (w a b : ℕ) : Outcome ε ℕ := fit w (a * b)

/-- `a - b` on unsigned integers. -/
def checkedSub (a b : ℕ) : Outcome ε ℕ :=
  if b ≤ a then .ok (a - b) else .crash

/-- `a / b` on unsigned integers. -/
def checkedDiv (a b : ℕ) : Outcome ε ℕ :=
  if b = 0 then .crash else .ok (a / b)

/-- `a % b` on unsigned integers. -/
def checkedRem (a b : ℕ) : Outcome ε ℕ :=
  if b = 0 then .crash else .ok (a % b)

theorem fit_eq_ok {w n m : ℕ} : (fit w n : Outcome ε ℕ) = .ok m ↔ n < 2 ^ w ∧ n = m := by
  by_cases h : n < 2 ^ w <;> simp [fit, h]

theorem fit_ne_crash {w n : ℕ} : (fit w n : Outcome ε ℕ) ≠ .crash ↔ n < 2 ^ w := by
  by_cases h : n < 2 ^ w <;> simp [fit, h]

theorem checkedAdd_eq_ok {w a b c : ℕ} :
    (checkedAdd w a b : Outcome ε ℕ) = .ok c ↔ a + b < 2 ^ w ∧ a + b = c := fit_eq_ok

theorem checkedAdd_ne_crash {w a b : ℕ} :
    (checkedAdd w a b : Outcome ε ℕ) ≠ .crash ↔ a + b < 2 ^ w := fit_ne_crash

theorem checkedMul_eq_ok {w a b c : ℕ} :
    (checkedMul w a b : Outcome ε ℕ) = .ok c ↔ a * b < 2 ^ w ∧ a * b = c := fit_eq_ok

theorem checkedMul_ne_crash {w a b : ℕ} :
    (checkedMul w a b : Outcome ε ℕ) ≠ .crash ↔ a * b < 2 ^ w := fit_ne_crash

theorem checkedSub_eq_ok {a b c : ℕ} :
    (checkedSub a b : Outcome ε ℕ) = .ok c ↔ b ≤ a ∧ a - b = c := by
  by_cases h : b ≤ a <;> simp [checkedSub, h]

theorem checkedSub_ne_crash {a b : ℕ} : (checkedSub a b : Outcome ε ℕ) ≠ .crash ↔ b ≤ a := by
  by_cases h : b ≤ a <;> simp [checkedSub, h]

theorem checkedDiv_eq_ok {a b c : ℕ} :
    (checkedDiv a b : Outcome ε ℕ) = .ok c ↔ b ≠ 0 ∧ a / b = c := by
  by_cases h : b = 0 <;> simp [checkedDiv, h]

/-! ## Code without errors -/

/-- The code returns or crashes. -/
def Unfailing (x : Outcome ε α) : Prop := ∀ e, x ≠ .err e

theorem unfailing_pure (a : α) : Unfailing (pure a : Outcome ε α) := fun _ h => nomatch h

theorem unfailing_bind {x : Outcome ε α} {f : α → Outcome ε β} (hx : Unfailing x)
    (hf : ∀ a, Unfailing (f a)) : Unfailing (x >>= f) := by
  intro e h
  rcases bind_eq_err.mp h with h | ⟨a, -, h⟩
  · exact hx e h
  · exact hf a e h

theorem unfailing_unwrap (o : Option α) : Unfailing (unwrap o : Outcome ε α) := by
  intro e
  cases o <;> simp [unwrap]

/-- Code without errors returns unless it crashes. -/
theorem Unfailing.ne_crash_iff {x : Outcome ε α} (hx : Unfailing x) :
    x ≠ .crash ↔ ∃ a, x = .ok a := by
  cases x with
  | ok a => simp
  | err e => exact absurd rfl (hx e)
  | crash => simp

theorem Unfailing.bind_ne_crash {x : Outcome ε α} (hx : Unfailing x) {f : α → Outcome ε β} :
    (x >>= f) ≠ .crash ↔ ∃ a, x = .ok a ∧ f a ≠ .crash := by
  cases x with
  | ok a => simp
  | err e => exact absurd rfl (hx e)
  | crash => simp

theorem unfailing_fit (w n : ℕ) : Unfailing (fit w n : Outcome ε ℕ) := by
  intro e
  by_cases h : n < 2 ^ w <;> simp [fit, h]

theorem unfailing_checkedAdd (w a b : ℕ) : Unfailing (checkedAdd w a b : Outcome ε ℕ) :=
  unfailing_fit w _

theorem unfailing_checkedMul (w a b : ℕ) : Unfailing (checkedMul w a b : Outcome ε ℕ) :=
  unfailing_fit w _

theorem unfailing_checkedSub (a b : ℕ) : Unfailing (checkedSub a b : Outcome ε ℕ) := by
  intro e
  by_cases h : b ≤ a <;> simp [checkedSub, h]

theorem unfailing_checkedDiv (a b : ℕ) : Unfailing (checkedDiv a b : Outcome ε ℕ) := by
  intro e
  by_cases h : b = 0 <;> simp [checkedDiv, h]

theorem unfailing_foldlM {f : β → α → Outcome ε β} (hf : ∀ b a, Unfailing (f b a))
    (items : List α) (b : β) : Unfailing (items.foldlM f b) := by
  induction items generalizing b with
  | nil => exact unfailing_pure b
  | cons a rest ih =>
      rw [List.foldlM_cons]
      exact unfailing_bind (hf b a) ih

theorem unfailing_mapM {f : α → Outcome ε β} (hf : ∀ a, Unfailing (f a)) (items : List α) :
    Unfailing (items.mapM f) := by
  induction items with
  | nil => exact unfailing_pure []
  | cons a rest ih =>
      rw [List.mapM_cons]
      exact unfailing_bind (hf a) fun _ => unfailing_bind ih fun _ => unfailing_pure _

theorem unfailing_traverse {f : α → Outcome ε β} (hf : ∀ a, Unfailing (f a)) (o : Option α) :
    Unfailing (o.traverse f) := by
  cases o with
  | none => exact unfailing_pure none
  | some a =>
      show Unfailing (some <$> f a)
      rw [map_eq_pure_bind]
      exact unfailing_bind (hf a) fun _ => unfailing_pure _

/-- What a function says about each result, it says about a list of results. -/
theorem map_of_mapM_eq_ok {γ : Type} {f : α → Outcome ε β} {g : β → γ} {k : α → γ}
    (hf : ∀ a b, f a = .ok b → g b = k a) {items : List α} {results : List β}
    (h : items.mapM f = .ok results) : results.map g = items.map k := by
  induction items generalizing results with
  | nil =>
      cases h
      rfl
  | cons a rest ih =>
      simp only [List.mapM_cons, bind_eq_ok, pure_eq, ok.injEq] at h
      obtain ⟨b, hb, others, hothers, rfl⟩ := h
      rw [List.map_cons, List.map_cons, hf a b hb, ih hothers]

theorem mapM_eq_ok_iff {f : α → Outcome ε β} {items : List α} {results : List β} :
    items.mapM f = .ok results ↔ List.Forall₂ (fun a b => f a = .ok b) items results := by
  induction items generalizing results with
  | nil => rw [List.mapM_nil, pure_eq, ok.injEq, eq_comm, List.forall₂_nil_left_iff]
  | cons a rest ih =>
      simp only [List.mapM_cons, bind_eq_ok, pure_eq, ok.injEq, List.forall₂_cons_left_iff, ih]
      constructor
      · rintro ⟨b, hb, others, hothers, rfl⟩
        exact ⟨b, others, hb, hothers, rfl⟩
      · rintro ⟨b, others, hb, hothers, rfl⟩
        exact ⟨b, hb, others, hothers, rfl⟩

theorem length_of_mapM_eq_ok {f : α → Outcome ε β} {items : List α} {results : List β}
    (h : items.mapM f = .ok results) : results.length = items.length := by
  have := map_of_mapM_eq_ok (g := fun _ => ()) (k := fun _ => ()) (fun _ _ _ => rfl) h
  simpa using congrArg List.length this

/-- The results of a list are those of its elements. -/
theorem mem_of_mapM_eq_ok {f : α → Outcome ε β} {items : List α} {results : List β}
    (h : items.mapM f = .ok results) :
    (∀ b ∈ results, ∃ a ∈ items, f a = .ok b) ∧ ∀ a ∈ items, ∃ b ∈ results, f a = .ok b := by
  induction items generalizing results with
  | nil =>
      cases h
      exact ⟨fun b hb => absurd hb List.not_mem_nil, fun a ha => absurd ha List.not_mem_nil⟩
  | cons a rest ih =>
      simp only [List.mapM_cons, bind_eq_ok, pure_eq, ok.injEq] at h
      obtain ⟨b, hb, others, hothers, rfl⟩ := h
      obtain ⟨hresults, hitems⟩ := ih hothers
      constructor
      · intro b' hb'
        rcases List.mem_cons.mp hb' with rfl | hb'
        · exact ⟨a, List.mem_cons_self, hb⟩
        · obtain ⟨a', ha', hf⟩ := hresults b' hb'
          exact ⟨a', List.mem_cons_of_mem _ ha', hf⟩
      · intro a' ha'
        rcases List.mem_cons.mp ha' with rfl | ha'
        · exact ⟨b, List.mem_cons_self, hb⟩
        · obtain ⟨b', hb', hf⟩ := hitems a' ha'
          exact ⟨b', List.mem_cons_of_mem _ hb', hf⟩

theorem exists_mapM_eq_ok {f : α → Outcome ε β} {items : List α}
    (hf : ∀ a ∈ items, ∃ b, f a = .ok b) : ∃ results, items.mapM f = .ok results := by
  induction items with
  | nil => exact ⟨[], rfl⟩
  | cons a rest ih =>
      obtain ⟨ha, hrest⟩ := List.forall_mem_cons.mp hf
      obtain ⟨b, hb⟩ := ha
      obtain ⟨results, hresults⟩ := ih hrest
      refine ⟨b :: results, ?_⟩
      rw [List.mapM_cons, hb, ok_bind, hresults]
      rfl

theorem traverse_eq_ok {f : α → Outcome ε β} {o : Option α} {r : Option β}
    (h : o.traverse f = .ok r) :
    r.isSome = o.isSome ∧ ∀ b, r = some b → ∃ a, o = some a ∧ f a = .ok b := by
  cases o with
  | none =>
      change ok none = ok r at h
      cases h
      exact ⟨rfl, nofun⟩
  | some a =>
      change some <$> f a = ok r at h
      rw [map_eq_pure_bind, bind_eq_ok] at h
      obtain ⟨b, hb, h⟩ := h
      cases h
      refine ⟨rfl, fun b' hb' => ⟨a, rfl, ?_⟩⟩
      cases hb'
      exact hb

/-- The error of a loop is the error of one of its rounds. -/
theorem foldlM_eq_err {f : β → α → Outcome ε β} {P : ε → Prop}
    (hf : ∀ b a e, f b a = .err e → P e) {items : List α} {b : β} {e : ε}
    (h : items.foldlM f b = .err e) : P e := by
  induction items generalizing b with
  | nil => cases h
  | cons a rest ih =>
      rw [List.foldlM_cons, bind_eq_err] at h
      rcases h with h | ⟨b', -, h⟩
      · exact hf b a e h
      · exact ih h

end Outcome

end SpectrumOffchain
