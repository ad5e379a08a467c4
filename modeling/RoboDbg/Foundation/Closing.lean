import RoboDbg.Foundation.Runs

/-!
# A resource that is closed during a run

The steps of a run use a resource, and some uses close it. The record of all uses
is in order when nothing follows a closing use. This is compared with what the
steps do: whether one closes the resource, and whether a later one touches it.
-/

namespace Runs

variable {σ ι α : Type*}

def InOrder (closing : α → Prop) : List α → Prop
  | [] => True
  | x :: l => (closing x → l = []) ∧ InOrder closing l

def Closed (closing : α → Prop) (l : List α) : Prop := ∃ x ∈ l, closing x

/-- Runs with one closing step at most, after which no step touches the resource. -/
inductive ClosedOnce (step : σ → ι → σ → Prop) (closes touches : σ → ι → Prop) :
    σ → List ι → σ → Prop
  | nil (s : σ) : ClosedOnce step closes touches s [] s
  | keep {s s' s'' : σ} {i : ι} {is : List ι} (h : step s i s') (hi : ¬ closes s i)
      (hrun : ClosedOnce step closes touches s' is s'') :
      ClosedOnce step closes touches s (i :: is) s''
  | close {s s' s'' : σ} {i : ι} {is : List ι} (h : step s i s') (hi : closes s i)
      (hrun : Run (Restrict step (fun s i => ¬ touches s i)) s' is s'') :
      ClosedOnce step closes touches s (i :: is) s''

/-- Each step adds its own uses to the record, a closing one at the end only. -/
def Records (step : σ → ι → σ → Prop) (closing : α → Prop) (uses : σ → List α)
    (closes touches : σ → ι → Prop) : Prop :=
  ∀ s i s', step s i s' → ∃ l, uses s' = uses s ++ l ∧ InOrder closing l ∧
    (closes s i ↔ Closed closing l) ∧ (touches s i ↔ l ≠ [])

section InOrder

variable {closing : α → Prop} {l l' : List α}

theorem closed_append : Closed closing (l ++ l') ↔ Closed closing l ∨ Closed closing l' := by
  constructor
  · rintro ⟨x, hx, hclosing⟩
    rcases List.mem_append.mp hx with hx | hx
    · exact Or.inl ⟨x, hx, hclosing⟩
    · exact Or.inr ⟨x, hx, hclosing⟩
  · rintro (⟨x, hx, hclosing⟩ | ⟨x, hx, hclosing⟩)
    · exact ⟨x, List.mem_append_left _ hx, hclosing⟩
    · exact ⟨x, List.mem_append_right _ hx, hclosing⟩

theorem closed_cons {x : α} : Closed closing (x :: l) ↔ closing x ∨ Closed closing l := by
  simp [Closed]

theorem inOrder_append : InOrder closing (l ++ l') ↔
    InOrder closing l ∧ InOrder closing l' ∧ (Closed closing l → l' = []) := by
  induction l with
  | nil => simp [InOrder, Closed]
  | cons x l ih =>
    rw [List.cons_append, InOrder, InOrder, ih, closed_cons, List.append_eq_nil_iff]
    constructor
    · rintro ⟨hx, hl, hl', hclosed⟩
      exact ⟨⟨fun h => (hx h).1, hl⟩, hl', fun h => h.elim (fun h => (hx h).2) hclosed⟩
    · rintro ⟨⟨hx, hl⟩, hl', hclosed⟩
      exact ⟨fun h => ⟨hx h, hclosed (Or.inl h)⟩, hl, hl', fun h => hclosed (Or.inr h)⟩

theorem inOrder_of_open (h : ¬ Closed closing l) : InOrder closing l := by
  induction l with
  | nil => trivial
  | cons x l ih =>
    rw [closed_cons, not_or] at h
    exact ⟨fun hx => absurd hx h.1, ih h.2⟩

end InOrder

namespace Records

variable {step : σ → ι → σ → Prop} {closing : α → Prop} {uses : σ → List α}
  {closes touches : σ → ι → Prop} (h : Records step closing uses closes touches)
  {s s' : σ} {is : List ι}
include h

theorem run_append (hrun : Run step s is s') : ∃ l, uses s' = uses s ++ l := by
  induction hrun with
  | nil => exact ⟨[], (List.append_nil _).symm⟩
  | cons hstep _ ih =>
    obtain ⟨l, hl, -⟩ := h _ _ _ hstep
    obtain ⟨l', hl'⟩ := ih
    exact ⟨l ++ l', by rw [hl', hl, List.append_assoc]⟩

theorem closed_mono (hrun : Run step s is s') (hc : Closed closing (uses s)) :
    Closed closing (uses s') := by
  obtain ⟨l, hl⟩ := h.run_append hrun
  rw [hl]
  exact closed_append.mpr (Or.inl hc)

theorem inOrder_anti (hrun : Run step s is s') (hs' : InOrder closing (uses s')) :
    InOrder closing (uses s) := by
  obtain ⟨l, hl⟩ := h.run_append hrun
  rw [hl] at hs'
  exact (inOrder_append.mp hs').1

theorem closed_step {i : ι} (hstep : step s i s') :
    Closed closing (uses s') ↔ Closed closing (uses s) ∨ closes s i := by
  obtain ⟨l, hl, -, hcloses, -⟩ := h s i s' hstep
  rw [hl, closed_append, hcloses]

theorem open_step {i : ι} (hstep : step s i s') (hopen : ¬ Closed closing (uses s))
    (hi : ¬ closes s i) : ¬ Closed closing (uses s') := by
  rw [h.closed_step hstep, not_or]
  exact ⟨hopen, hi⟩

theorem inOrder_step {i : ι} (hstep : step s i s') (hopen : ¬ Closed closing (uses s)) :
    InOrder closing (uses s') := by
  obtain ⟨l, hl, hl', -, -⟩ := h s i s' hstep
  rw [hl]
  exact inOrder_append.mpr ⟨inOrder_of_open hopen, hl', fun hc => absurd hc hopen⟩

/-- The resource is still open exactly after the runs without a closing step. -/
theorem open_iff (hopen : ¬ Closed closing (uses s)) (hrun : Run step s is s') :
    ¬ Closed closing (uses s') ↔ Run (Restrict step (fun s i => ¬ closes s i)) s is s' := by
  constructor
  · intro hend
    induction hrun with
    | nil s => exact .nil s
    | cons hs hrun ih =>
      have hi := fun hi => hend (h.closed_mono hrun ((h.closed_step hs).mpr (Or.inr hi)))
      exact .cons ⟨hs, hi⟩ (ih (h.open_step hs hopen hi) hend)
  · intro hrun'
    clear hrun
    induction hrun' with
    | nil s => exact hopen
    | cons hs _ ih => exact ih (h.open_step hs.1 hopen hs.2)

/-- After it has been closed, the record stays in order exactly along the runs that do
not touch the resource. -/
theorem untouched_iff (hclosed : Closed closing (uses s)) (hs : InOrder closing (uses s))
    (hrun : Run step s is s') :
    InOrder closing (uses s') ↔ Run (Restrict step (fun s i => ¬ touches s i)) s is s' := by
  have hstep : ∀ {s s' i}, step s i s' → ¬ touches s i → uses s' = uses s := by
    intro s s' i hs hi
    obtain ⟨l, hl, -, -, htouches⟩ := h s i s' hs
    rw [htouches, not_not] at hi
    rw [hl, hi, List.append_nil]
  constructor
  · intro hend
    induction hrun with
    | nil s => exact .nil s
    | @cons s s₁ s' i is hs₁ hrun ih =>
      have hi : ¬ touches s i := by
        obtain ⟨l, hl, -, -, htouches⟩ := h s i s₁ hs₁
        have hfirst := h.inOrder_anti hrun hend
        rw [hl] at hfirst
        rw [htouches, not_not]
        exact (inOrder_append.mp hfirst).2.2 hclosed
      have hsame := hstep hs₁ hi
      refine .cons ⟨hs₁, hi⟩ (ih ?_ ?_ hend)
      · rwa [hsame]
      · rwa [hsame]
  · intro hrun'
    clear hrun
    induction hrun' with
    | nil s => exact hs
    | cons hs₁ _ ih =>
      have hsame := hstep hs₁.1 hs₁.2
      refine ih ?_ ?_
      · rwa [hsame]
      · rwa [hsame]

/-- The record is in order exactly after the runs that close the resource once at most and
do not touch it afterwards. -/
theorem inOrder_iff (hopen : ¬ Closed closing (uses s)) (hrun : Run step s is s') :
    InOrder closing (uses s') ↔ ClosedOnce step closes touches s is s' := by
  constructor
  · intro hend
    induction hrun with
    | nil s => exact .nil s
    | @cons s s₁ s' i is hs hrun ih =>
      by_cases hi : closes s i
      · have hclosed := (h.closed_step hs).mpr (Or.inr hi)
        exact .close hs hi ((h.untouched_iff hclosed (h.inOrder_step hs hopen) hrun).mp hend)
      · exact .keep hs hi (ih (h.open_step hs hopen hi) hend)
  · intro honce
    clear hrun
    induction honce with
    | nil s => exact inOrder_of_open hopen
    | keep hs hi _ ih => exact ih (h.open_step hs hopen hi)
    | close hs hi hrun =>
      have hclosed := (h.closed_step hs).mpr (Or.inr hi)
      exact (h.untouched_iff hclosed (h.inOrder_step hs hopen) hrun.of_restrict).mpr hrun

end Records
end Runs
