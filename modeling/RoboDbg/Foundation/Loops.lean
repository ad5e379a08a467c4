import Mathlib.Order.Lattice

/-!
# Loops without a bound

A loop that only its own `break` ends is run with a number of passes to spend.
It ends when every large enough number gives the same state; the numbers that
loops inside the body are given grow with it.
-/

namespace Loops

variable {σ α β : Type*}

inductive Pass (σ : Type*)
  | again (s : σ)
  | done (s : σ)

/-- `for (;;)`; `none` when the passes are spent, here or inside the body. -/
def forever (body : σ → Option (Pass σ)) : ℕ → σ → Option σ
  | 0, _ => none
  | n + 1, s =>
    match body s with
    | none => none
    | some (.done s') => some s'
    | some (.again s') => forever body n s'

/-- All large enough numbers of passes give this value. -/
def Yields (f : ℕ → Option α) (x : α) : Prop := ∃ n₀, ∀ n ≥ n₀, f n = some x

/-- With enough passes for the loop and for those inside its body it ends in `s'`. -/
def Ends (body : ℕ → σ → Option (Pass σ)) (s s' : σ) : Prop :=
  ∃ n₀, ∀ n ≥ n₀, ∀ m ≥ n₀, forever (body n) m s = some s'

namespace Yields

theorem const (x : α) : Yields (fun _ => some x) x := ⟨0, fun _ _ => rfl⟩

theorem bind {f : ℕ → Option α} {g : ℕ → α → Option β} {x : α} {y : β} (hf : Yields f x)
    (hg : Yields (fun n => g n x) y) : Yields (fun n => (f n).bind (g n)) y := by
  obtain ⟨k, hk⟩ := hf
  obtain ⟨l, hl⟩ := hg
  refine ⟨max k l, fun n hn => ?_⟩
  have hfn : f n = some x := hk n ((le_max_left k l).trans hn)
  have hgn : g n x = some y := hl n ((le_max_right k l).trans hn)
  simp only [hfn, Option.bind_some, hgn]

theorem map {f : ℕ → Option α} {x : α} (hf : Yields f x) (g : α → β) :
    Yields (fun n => (f n).map g) (g x) := by
  obtain ⟨k, hk⟩ := hf
  exact ⟨k, fun n hn => congrArg (Option.map g) (hk n hn)⟩

theorem unique {f : ℕ → Option α} {x y : α} (hx : Yields f x) (hy : Yields f y) : x = y := by
  obtain ⟨k, hk⟩ := hx
  obtain ⟨l, hl⟩ := hy
  have hxy := (hk (max k l) (le_max_left k l)).symm.trans (hl (max k l) (le_max_right k l))
  exact Option.some.inj hxy

theorem of_bind {f : ℕ → Option α} {g : ℕ → α → Option β} {x : α} {y : β} (hf : Yields f x)
    (h : Yields (fun n => (f n).bind (g n)) y) : Yields (fun n => g n x) y := by
  obtain ⟨k, hk⟩ := hf
  obtain ⟨l, hl⟩ := h
  refine ⟨max k l, fun n hn => ?_⟩
  have hfn : f n = some x := hk n ((le_max_left k l).trans hn)
  have hbind : (f n).bind (g n) = some y := hl n ((le_max_right k l).trans hn)
  rwa [hfn, Option.bind_some] at hbind

theorem exists_eq {f : ℕ → Option α} {x : α} (h : Yields f x) : ∃ n, f n = some x := by
  obtain ⟨k, hk⟩ := h
  exact ⟨k, hk k le_rfl⟩

theorem not_of_none {f : ℕ → Option α} (hf : ∀ n, f n = none) (x : α) : ¬ Yields f x := by
  rintro ⟨k, hk⟩
  have hval := hk k le_rfl
  rw [hf k] at hval
  cases hval

end Yields

/-- An account of a computation that may not end: `none` says that the passes are always
spent, however many there are. -/
def Accounts {τ : Type*} (R : σ → τ → Prop) (f : ℕ → Option σ) : Option τ → Prop
  | some t => ∃ s, Yields f s ∧ R s t
  | none => ∃ n₀, ∀ n ≥ n₀, f n = none

namespace Accounts

variable {τ ι : Type*} {R : σ → τ → Prop} {step : ℕ → σ → ι → Option σ} {abs : τ → ι → Option τ}

theorem foldlM (h : ∀ s t i, R s t → Accounts R (fun n => step n s i) (abs t i)) {s : σ} {t : τ}
    (hst : R s t) (is : List ι) : Accounts R (fun n => is.foldlM (step n) s) (is.foldlM abs t) := by
  induction is generalizing s t with
  | nil => exact ⟨s, Yields.const s, hst⟩
  | cons i is ih =>
    have hstep := h s t i hst
    simp only [List.foldlM_cons]
    cases ht : abs t i with
    | none =>
      rw [ht] at hstep
      obtain ⟨k, hk⟩ := hstep
      refine ⟨k, fun n hn => ?_⟩
      have hspent : step n s i = none := hk n hn
      exact congrArg (Option.bind · (fun s' => is.foldlM (step n) s')) hspent
    | some t' =>
      rw [ht] at hstep
      obtain ⟨s', hyields, hst'⟩ := hstep
      have hrest := ih hst'
      change Accounts R _ (is.foldlM abs t')
      cases hend : is.foldlM abs t' with
      | none =>
        rw [hend] at hrest
        obtain ⟨l, hl⟩ := hrest
        obtain ⟨k, hk⟩ := hyields
        refine ⟨max k l, fun n hn => ?_⟩
        have hsn : step n s i = some s' := hk n ((le_max_left k l).trans hn)
        have hrest : is.foldlM (step n) s' = none := hl n ((le_max_right k l).trans hn)
        exact (congrArg (Option.bind · (fun s => is.foldlM (step n) s)) hsn).trans hrest
      | some t'' =>
        rw [hend] at hrest
        obtain ⟨s'', hyields', hst''⟩ := hrest
        exact ⟨s'', hyields.bind hyields', hst''⟩

theorem yields_iff {f : ℕ → Option σ} {t : Option τ} (h : Accounts R f t) :
    (∃ s, Yields f s) ↔ t.isSome = true := by
  cases t with
  | none =>
    obtain ⟨k, hk⟩ := h
    refine iff_of_false ?_ Bool.false_ne_true
    rintro ⟨s, l, hl⟩
    have hval := hl (max k l) (le_max_right k l)
    rw [hk (max k l) (le_max_left k l)] at hval
    cases hval
  | some t =>
    obtain ⟨s, hs, -⟩ := h
    exact iff_of_true ⟨s, hs⟩ rfl

theorem related {f : ℕ → Option σ} {t : Option τ} (h : Accounts R f t) {s : σ} (hs : Yields f s) :
    ∃ t', t = some t' ∧ R s t' := by
  cases t with
  | none =>
    have hsome := h.yields_iff.mp ⟨s, hs⟩
    cases hsome
  | some t' =>
    obtain ⟨s', hs', hst⟩ := h
    obtain rfl := hs.unique hs'
    exact ⟨t', rfl, hst⟩

end Accounts

/-- A loop that goes on from every state of an invariant spends all its passes. -/
theorem forever_eq_none {body : σ → Option (Pass σ)} {I : σ → Prop}
    (hgo : ∀ s, I s → ∃ s', body s = some (.again s') ∧ I s') (n : ℕ) {s : σ} (hs : I s) :
    forever body n s = none := by
  induction n generalizing s with
  | zero => rfl
  | succ n ih =>
    obtain ⟨s', hbody, hs'⟩ := hgo s hs
    rw [forever, hbody]
    exact ih hs'

/-- What every pass preserves holds of the state that a loop ends in. -/
theorem forever_invariant {body : σ → Option (Pass σ)} {I : σ → Prop}
    (hagain : ∀ s s', I s → body s = some (.again s') → I s')
    (hdone : ∀ s s', I s → body s = some (.done s') → I s') {n : ℕ} {s s' : σ} (hs : I s)
    (h : forever body n s = some s') : I s' := by
  induction n generalizing s with
  | zero => cases h
  | succ n ih =>
    rw [forever] at h
    split at h
    · cases h
    · next s₁ hbody =>
      obtain rfl := Option.some.inj h
      exact hdone s s₁ hs hbody
    · next s₁ hbody => exact ih (hagain s s₁ hs hbody) h

namespace Ends

variable {body : ℕ → σ → Option (Pass σ)} {s s₁ s' : σ}

theorem done (h : Yields (fun n => body n s) (.done s')) : Ends body s s' := by
  obtain ⟨k, hk⟩ := h
  refine ⟨k + 1, fun n hn m hm => ?_⟩
  obtain ⟨m, rfl⟩ : ∃ j, m = j + 1 := ⟨m - 1, by omega⟩
  have hbody : body n s = some (.done s') := hk n (by omega)
  rw [forever, hbody]

theorem again (h : Yields (fun n => body n s) (.again s₁)) (hs : Ends body s₁ s') :
    Ends body s s' := by
  obtain ⟨k, hk⟩ := h
  obtain ⟨l, hl⟩ := hs
  refine ⟨max k l + 1, fun n hn m hm => ?_⟩
  obtain ⟨m, rfl⟩ : ∃ j, m = j + 1 := ⟨m - 1, by omega⟩
  have hbody : body n s = some (.again s₁) := hk n ((le_max_left k l).trans (by omega))
  have hln : l ≤ n := (le_max_right k l).trans (by omega)
  have hlm : l ≤ m := (le_max_right k l).trans (by omega)
  rw [forever, hbody]
  exact hl n hln m hlm

/-- A loop each of whose passes ends, and goes on only to a smaller state. -/
theorem of_measure {I : σ → Prop} (size : σ → ℕ)
    (hpass : ∀ s, I s → ∃ p, Yields (fun n => body n s) p ∧
      ∀ s', p = .again s' → I s' ∧ size s' < size s) (hs : I s) : ∃ s', Ends body s s' := by
  induction hn : size s using Nat.strong_induction_on generalizing s with
  | _ n ih =>
    obtain ⟨p, hp, hsmaller⟩ := hpass s hs
    cases p with
    | done s' => exact ⟨s', done hp⟩
    | again s₁ =>
      obtain ⟨hs₁, hlt⟩ := hsmaller s₁ rfl
      obtain ⟨s', hend⟩ := ih (size s₁) (hn ▸ hlt) hs₁ rfl
      exact ⟨s', again hp hend⟩

theorem yields (h : Ends body s s') : Yields (fun n => forever (body n) n s) s' := by
  obtain ⟨k, hk⟩ := h
  exact ⟨k, fun n hn => hk n hn n hn⟩

end Ends

inductive Visits (body : ℕ → σ → Option (Pass σ)) (s : σ) : σ → Prop
  | start : Visits body s s
  | again {s₁ s₂ : σ} (h : Visits body s s₁) (hpass : Yields (fun n => body n s₁) (.again s₂)) :
      Visits body s s₂

theorem Visits.ends {body : ℕ → σ → Option (Pass σ)} {s s₁ s' : σ} (h : Visits body s s₁)
    (hend : Ends body s₁ s') : Ends body s s' := by
  induction h with
  | start => exact hend
  | again _ hpass ih => exact ih (Ends.again hpass hend)

theorem Visits.head {body : ℕ → σ → Option (Pass σ)} {s s₁ s₂ : σ}
    (hpass : Yields (fun n => body n s) (.again s₁)) (h : Visits body s₁ s₂) :
    Visits body s s₂ := by
  induction h with
  | start => exact .again .start hpass
  | again _ hpass' ih => exact .again ih hpass'

section Definite

/-- A pass that ends with some number of passes for its own loops ends in the same way
with every larger one. -/
def Definite (body : ℕ → σ → Option (Pass σ)) : Prop :=
  ∀ n s p, body n s = some p → Yields (fun k => body k s) p

theorem Definite.const (f : σ → Option (Pass σ)) : Definite (fun _ => f) :=
  fun _ _ _ h => ⟨0, fun _ _ => h⟩

variable {body : ℕ → σ → Option (Pass σ)} (hbody : Definite body)
include hbody

theorem Definite.visits {n m : ℕ} {s s' : σ} (h : forever (body n) m s = some s') :
    ∃ s₁, Visits body s s₁ ∧ Yields (fun k => body k s₁) (.done s') := by
  induction m generalizing s with
  | zero => cases h
  | succ m ih =>
    rw [forever] at h
    split at h
    · cases h
    · next s₁ hpass =>
      obtain rfl := Option.some.inj h
      exact ⟨s, .start, hbody n s _ hpass⟩
    · next s₁ hpass =>
      obtain ⟨s₂, hvisits, hdone⟩ := ih h
      exact ⟨s₂, .head (hbody n s _ hpass) hvisits, hdone⟩

theorem Definite.ends {n m : ℕ} {s s' : σ} (h : forever (body n) m s = some s') :
    Ends body s s' := by
  obtain ⟨s₁, hvisits, hdone⟩ := hbody.visits h
  exact hvisits.ends (Ends.done hdone)

/-- A loop can be told from another only in the states that it visits. -/
theorem Definite.forever_congr {n : ℕ} {pass : σ → Option (Pass σ)} {s : σ}
    (h : ∀ s', Visits body s s' → pass s' = body n s') (m : ℕ) :
    forever pass m s = forever (body n) m s := by
  induction m generalizing s with
  | zero => rfl
  | succ m ih =>
    rw [forever, forever, h s .start]
    cases hpass : body n s with
    | none => rfl
    | some p =>
      cases p with
      | done s' => rfl
      | again s₁ => exact ih (fun s' hs' => h s' (.head (hbody n s _ hpass) hs'))

end Definite

end Loops
