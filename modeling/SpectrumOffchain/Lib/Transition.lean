import Mathlib.Tactic.Common

/-!
# Runs of a labelled transition system

A system is a relation `step s l t`: in state `s` the action `l` can lead to `t`.  A
`Run` is a finite sequence of steps with the labels it takes.  What every step
preserves, a run preserves (`Run.invariant`), and what every step relates, a run
relates (`Run.relates`).  A system all of whose steps another one can answer is simulated by it
along whole runs (`Run.simulates`).  Claims that hold only of some steps are made about
runs of `restrict`, whose steps all meet a condition on the state they start from; where
the condition is exact, these are the runs that stay in the states with the property
(`Run.into_iff_restrict`).
-/

namespace SpectrumOffchain.Transition

variable {S L : Type}

/-- The runs of `step`. -/
inductive Run (step : S → L → S → Prop) : S → List L → S → Prop where
  | nil (s : S) : Run step s [] s
  | cons {s t u : S} {l : L} {rest : List L} (hstep : step s l t) (hrest : Run step t rest u) :
      Run step s (l :: rest) u

/-- The steps that meet a condition on the state they start from and their label. -/
def restrict (step : S → L → S → Prop) (cond : S → L → Prop) (s : S) (l : L) (t : S) : Prop :=
  step s l t ∧ cond s l

/-- The steps that end in a state with a property. -/
def into (step : S → L → S → Prop) (I : S → Prop) (s : S) (l : L) (t : S) : Prop :=
  step s l t ∧ I t

namespace Run

variable {step : S → L → S → Prop} {s t u : S} {labels labels' : List L}

theorem append (hfirst : Run step s labels t) (hsecond : Run step t labels' u) :
    Run step s (labels ++ labels') u := by
  induction hfirst with
  | nil => exact hsecond
  | cons hstep _ ih => exact cons hstep (ih hsecond)

/-- A run over two sequences of labels passes through a state between them. -/
theorem split (hrun : Run step s (labels ++ labels') u) :
    ∃ t, Run step s labels t ∧ Run step t labels' u := by
  induction labels generalizing s with
  | nil => exact ⟨s, nil s, hrun⟩
  | cons l rest ih =>
      cases hrun with
      | cons hstep hrest =>
          obtain ⟨t, hfirst, hsecond⟩ := ih hrest
          exact ⟨t, cons hstep hfirst, hsecond⟩

theorem single {l : L} (hstep : step s l t) : Run step s [l] t := cons hstep (nil t)

theorem mono {step' : S → L → S → Prop} (h : ∀ s l t, step s l t → step' s l t)
    (hrun : Run step s labels t) : Run step' s labels t := by
  induction hrun with
  | nil => exact nil _
  | cons hstep _ ih => exact cons (h _ _ _ hstep) ih

/-- Where a label leaves no choice, the labels of a run do not. -/
theorem unique (hdet : ∀ s l t t', step s l t → step s l t' → t = t')
    (hrun : Run step s labels t) (hrun' : Run step s labels u) : t = u := by
  induction hrun with
  | nil =>
      cases hrun'
      rfl
  | cons hstep _ ih =>
      cases hrun' with
      | cons hstep' hrest' =>
          cases hdet _ _ _ _ hstep hstep'
          exact ih hrest'

/-- An invariant of the steps is an invariant of the runs. -/
theorem invariant {I : S → Prop} (hstep : ∀ s l t, I s → step s l t → I t)
    (hrun : Run step s labels t) (hs : I s) : I t := by
  induction hrun with
  | nil => exact hs
  | cons h _ ih => exact ih (hstep _ _ _ hs h)

/-- A run that starts in the states with a property ends there, or has a first step out of them. -/
theorem stays_or_leaves {I : S → Prop} (hrun : Run step s labels t) (hs : I s) :
    I t ∨ ∃ before l after u v, labels = before ++ l :: after ∧ Run step s before u ∧ I u ∧
      step u l v ∧ ¬ I v ∧ Run step v after t := by
  induction hrun with
  | nil s => exact .inl hs
  | @cons s v t l rest hstep hrest ih =>
      by_cases hv : I v
      · rcases ih hv with ht | ⟨before, l', after, u, w, rfl, hbefore, hafter⟩
        · exact .inl ht
        · exact .inr ⟨l :: before, l', after, u, w, rfl, cons hstep hbefore, hafter⟩
      · exact .inr ⟨[], l, rest, s, v, rfl, nil s, hs, hstep, hv, hrest⟩

/-- Systems with the same steps out of the states of an invariant have the same runs. -/
theorem congr_of_invariant {step' : S → L → S → Prop} {J : S → Prop}
    (hinv : ∀ s l t, J s → step s l t → J t) (hiff : ∀ s l t, J s → (step s l t ↔ step' s l t))
    (hJ : J s) : Run step s labels t ↔ Run step' s labels t := by
  constructor
  · intro hrun
    induction hrun with
    | nil s => exact nil s
    | cons h _ ih => exact cons ((hiff _ _ _ hJ).mp h) (ih (hinv _ _ _ hJ h))
  · intro hrun
    induction hrun with
    | nil s => exact nil s
    | cons h _ ih =>
        have hstep := (hiff _ _ _ hJ).mpr h
        exact cons hstep (ih (hinv _ _ _ hJ hstep))

/-- If, in the states of an invariant, a step keeps a property exactly when it meets a condition,
then a run stays in the states with the property exactly when all its steps meet the condition. -/
theorem into_iff_restrict_of_invariant {I J : S → Prop} {cond : S → L → Prop}
    (hinv : ∀ s l t, J s → step s l t → J t)
    (hstep : ∀ s l t, J s → I s → step s l t → (I t ↔ cond s l)) (hJ : J s) (hs : I s) :
    Run (into step I) s labels t ↔ Run (restrict step cond) s labels t := by
  refine congr_of_invariant (J := fun s => J s ∧ I s) ?_ ?_ ⟨hJ, hs⟩
  · intro s l t h hinto
    exact ⟨hinv s l t h.1 hinto.1, hinto.2⟩
  · intro s l t h
    exact and_congr_right fun hst => hstep s l t h.1 h.2 hst

/-- If a step keeps a property exactly when it meets a condition, then a run stays in the states
with the property exactly when all its steps meet the condition. -/
theorem into_iff_restrict {I : S → Prop} {cond : S → L → Prop}
    (hstep : ∀ s l t, I s → step s l t → (I t ↔ cond s l)) (hs : I s) :
    Run (into step I) s labels t ↔ Run (restrict step cond) s labels t :=
  into_iff_restrict_of_invariant (J := fun _ => True) (fun _ _ _ _ _ => trivial)
    (fun s l t _ => hstep s l t) trivial hs

/-- A preorder that contains the steps out of states with an invariant contains the runs. -/
theorem relates {I : S → Prop} {R : S → S → Prop} (hinv : ∀ s l t, I s → step s l t → I t)
    (hrefl : ∀ s, R s s) (htrans : ∀ s t u, R s t → R t u → R s u)
    (hstep : ∀ s l t, I s → step s l t → R s t)
    (hrun : Run step s labels t) (hs : I s) : R s t := by
  induction hrun with
  | nil s => exact hrefl s
  | cons h _ ih => exact htrans _ _ _ (hstep _ _ _ hs h) (ih (hinv _ _ _ hs h))

/-- If another system can answer each step by a run of its own, it can answer each run.
`out` is what a step shows of itself in the other system's terms. -/
theorem simulates {S' L' : Type} {step' : S' → L' → S' → Prop} {out : L → List L'}
    {R : S → S' → Prop}
    (hstep : ∀ s l t a, R s a → step s l t → ∃ b, Run step' a (out l) b ∧ R t b)
    (hrun : Run step s labels t) {a : S'} (hs : R s a) :
    ∃ b, Run step' a (labels.flatMap out) b ∧ R t b := by
  induction hrun generalizing a with
  | nil => exact ⟨a, nil a, hs⟩
  | cons h _ ih =>
      obtain ⟨b, hfirst, hb⟩ := hstep _ _ _ _ hs h
      obtain ⟨c, hrest, hc⟩ := ih hb
      refine ⟨c, ?_, hc⟩
      rw [List.flatMap_cons]
      exact append hfirst hrest

end Run

end SpectrumOffchain.Transition
