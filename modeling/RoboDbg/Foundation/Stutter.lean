import Mathlib.Logic.Function.Iterate
import RoboDbg.Foundation.Runs

/-!
# Stuttering simulation of deterministic machines

A machine simulates another if each of its steps is matched by one step of the
other or by none. The schedule counts the matched steps. Conversely, when some
number of steps always leads to the next related state, every finite run of the
other machine is reached, with the observations that its labels stand for.
-/

namespace Stutter

open Runs

variable {σ τ ι ω : Type*} {step : σ → σ} {next : τ → τ} {R : σ → τ → Prop}

def Simulates (step : σ → σ) (next : τ → τ) (R : σ → τ → Prop) : Prop :=
  ∀ s t, R s t → R (step s) t ∨ R (step s) (next t)

open scoped Classical in
/-- How many steps of the other machine match the first `k` steps. -/
noncomputable def schedule (step : σ → σ) (next : τ → τ) (R : σ → τ → Prop) (s : σ) (t : τ) :
    ℕ → ℕ
  | 0 => 0
  | k + 1 =>
    if R (step^[k + 1] s) (next^[schedule step next R s t k] t) then schedule step next R s t k
    else schedule step next R s t k + 1

theorem schedule_succ (s : σ) (t : τ) (k : ℕ) :
    schedule step next R s t (k + 1) = schedule step next R s t k ∨
      schedule step next R s t (k + 1) = schedule step next R s t k + 1 := by
  rw [schedule]
  split_ifs
  · exact Or.inl rfl
  · exact Or.inr rfl

theorem Simulates.schedule (h : Simulates step next R) {s : σ} {t : τ} (hst : R s t) (k : ℕ) :
    R (step^[k] s) (next^[Stutter.schedule step next R s t k] t) := by
  induction k with
  | zero => exact hst
  | succ k ih =>
    rw [Stutter.schedule]
    split_ifs with hstay
    · exact hstay
    · rw [Function.iterate_succ_apply'] at hstay ⊢
      rw [Function.iterate_succ_apply']
      exact (h _ _ ih).resolve_left hstay

/-- A relation between one machine and a labelled one that some number of steps
always takes to the next label; `obs` is what has been observed so far. -/
def Reaches (step : σ → σ) (spec : τ → ι → τ → Prop) (obs : σ → List ω) (out : ι → List ω)
    (Q : σ → τ → Prop) : Prop :=
  ∀ s t, Q s t → ∃ k i t', spec t i t' ∧ Q (step^[k] s) t' ∧ obs (step^[k] s) = obs s ++ out i

/-- Where the relation counts how many labels are certain, that many are reached. -/
theorem run_of_countdown {spec : τ → ι → τ → Prop} {obs : σ → List ω} {out : ι → List ω}
    {Q : ℕ → σ → τ → Prop}
    (h : ∀ n s t, Q (n + 1) s t →
      ∃ k i t', spec t i t' ∧ Q n (step^[k] s) t' ∧ obs (step^[k] s) = obs s ++ out i)
    (n : ℕ) {s : σ} {t : τ} (hst : Q n s t) :
    ∃ k labels t', labels.length = n ∧ Run spec t labels t' ∧ Q 0 (step^[k] s) t' ∧
      obs (step^[k] s) = obs s ++ labels.flatMap out := by
  induction n generalizing s t with
  | zero => exact ⟨0, [], t, rfl, .nil t, hst, by simp⟩
  | succ n ih =>
    obtain ⟨k, i, t₁, hspec, hQ, hobs⟩ := h n s t hst
    obtain ⟨m, labels, t₂, hlen, hrun, hQ', hobs'⟩ := ih hQ
    refine ⟨m + k, i :: labels, t₂, ?_, .cons hspec hrun, ?_, ?_⟩
    · rw [List.length_cons, hlen]
    · rwa [Function.iterate_add_apply]
    · rw [Function.iterate_add_apply, hobs', hobs, List.flatMap_cons, List.append_assoc]

theorem Reaches.run {spec : τ → ι → τ → Prop} {obs : σ → List ω} {out : ι → List ω}
    {Q : σ → τ → Prop} (h : Reaches step spec obs out Q) (n : ℕ) {s : σ} {t : τ} (hst : Q s t) :
    ∃ k labels t', labels.length = n ∧ Run spec t labels t' ∧ Q (step^[k] s) t' ∧
      obs (step^[k] s) = obs s ++ labels.flatMap out := by
  let certain : ℕ → σ → τ → Prop := fun _ => Q
  have hcount : ∀ n s t, certain (n + 1) s t → ∃ k i t', spec t i t' ∧
      certain n (step^[k] s) t' ∧ obs (step^[k] s) = obs s ++ out i := fun _ => h
  exact run_of_countdown hcount n hst

end Stutter
