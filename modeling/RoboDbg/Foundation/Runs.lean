import Mathlib.Data.List.Basic

/-!
# Runs of a labelled step relation

A run is a finite sequence of steps with their labels. Restricting the steps to
those that meet a condition gives the runs in which the condition never fails;
an invariant of the restricted steps holds throughout such a run. Where two systems
share their steps, a run of both is a run of each.
-/

namespace Runs

variable {σ ι : Type*}

inductive Run (step : σ → ι → σ → Prop) : σ → List ι → σ → Prop
  | nil (s : σ) : Run step s [] s
  | cons {s s' s'' : σ} {i : ι} {is : List ι} (h : step s i s') (hrun : Run step s' is s'') :
      Run step s (i :: is) s''

def Restrict (step : σ → ι → σ → Prop) (ok : σ → ι → Prop) (s : σ) (i : ι) (s' : σ) : Prop :=
  step s i s' ∧ ok s i

namespace Run

variable {step : σ → ι → σ → Prop}

theorem single {s s' : σ} {i : ι} (h : step s i s') : Run step s [i] s' := .cons h (.nil s')

theorem append {s s' s'' : σ} {is js : List ι} (h : Run step s is s') (h' : Run step s' js s'') :
    Run step s (is ++ js) s'' := by
  induction h with
  | nil => exact h'
  | cons hstep _ ih => exact .cons hstep (ih h')

theorem of_restrict {ok : σ → ι → Prop} {s s' : σ} {is : List ι}
    (h : Run (Restrict step ok) s is s') : Run step s is s' := by
  induction h with
  | nil s => exact .nil s
  | cons hstep _ ih => exact .cons hstep.1 ih

/-- What every step keeps, every run keeps. -/
theorem invariant {inv : σ → Prop} (hstep : ∀ s i s', inv s → step s i s' → inv s') {s s' : σ}
    {is : List ι} (hrun : Run step s is s') (h : inv s) : inv s' := by
  induction hrun with
  | nil s => exact h
  | cons hs _ ih => exact ih (hstep _ _ _ h hs)

/-- Seen from one side, the steps of a run are steps of that side, or not to be seen. -/
theorem project {α κ : Type*} {side : α → κ → α → Prop} {R : σ → α → Prop}
    {label : ι → Option κ}
    (hnone : ∀ s i s' a, step s i s' → label i = none → R s a → R s' a)
    (hsome : ∀ s i s' k a, step s i s' → label i = some k → R s a →
      ∃ a', side a k a' ∧ R s' a')
    {s s' : σ} {is : List ι} (hrun : Run step s is s') {a : α} (ha : R s a) :
    ∃ a', Run side a (is.filterMap label) a' ∧ R s' a' := by
  induction hrun generalizing a with
  | nil s => exact ⟨a, .nil a, ha⟩
  | @cons s s₁ s' i is hstep hrun ih =>
    cases hlabel : label i with
    | none =>
      rw [List.filterMap_cons_none hlabel]
      exact ih (hnone _ _ _ _ hstep hlabel ha)
    | some k =>
      obtain ⟨a₁, hside, ha₁⟩ := hsome _ _ _ _ _ hstep hlabel ha
      obtain ⟨a', hrest, ha'⟩ := ih ha₁
      rw [List.filterMap_cons_some hlabel]
      exact ⟨a', .cons hside hrest, ha'⟩

end Run
end Runs
