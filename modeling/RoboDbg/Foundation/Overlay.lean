import Mathlib.Logic.Function.Basic
import Mathlib.Data.List.Basic

/-!
# Reversible patches over a store

A patch replaces the value at an address by a fixed mark and files the old
value in a partial table. Table entries may be stale: an entry counts only
while its address holds the mark. `Covers` is the invariant that makes every
patch reversible, relative to a reference store that the patches do not touch.
-/

namespace Overlay

variable {α β : Type*}

/-- At every address the store agrees with the reference, or it holds the mark
and the table knows the reference value. An address whose reference value is
the mark itself is never filed. -/
def Covers (mark : β) (ref store : α → β) (table : α → Option β) : Prop :=
  ∀ a, (store a = ref a ∧ (ref a = mark → table a = none)) ∨
    (store a = mark ∧ table a = some (ref a) ∧ ref a ≠ mark)

namespace Covers

variable {mark : β} {ref store : α → β} {table : α → Option β}

theorem empty (ref : α → β) : Covers mark ref ref (fun _ => none) :=
  fun _ => Or.inl ⟨rfl, fun _ => rfl⟩

theorem of_ne (h : Covers mark ref store table) {a : α} (hne : store a ≠ ref a) :
    store a = mark ∧ table a = some (ref a) := by
  rcases h a with ⟨he, -⟩ | ⟨hm, ht, -⟩
  · exact absurd he hne
  · exact ⟨hm, ht⟩

theorem filed_eq (h : Covers mark ref store table) {a : α} {x : β} (hm : store a = mark)
    (ht : table a = some x) : x = ref a ∧ ref a ≠ mark := by
  rcases h a with ⟨he, hn⟩ | ⟨-, ht', hr⟩
  · rw [hn (he.symm.trans hm)] at ht
    cases ht
  · rw [ht'] at ht
    exact ⟨(Option.some.inj ht).symm, hr⟩

theorem prune (h : Covers mark ref store table) {table' : α → Option β}
    (hp : ∀ a, table' a = table a ∨ (table' a = none ∧ store a ≠ mark)) :
    Covers mark ref store table' := by
  intro a
  rcases h a with ⟨he, hn⟩ | ⟨hm, ht, hr⟩
  · refine Or.inl ⟨he, fun hmark => ?_⟩
    rcases hp a with hp | ⟨hp, -⟩
    · rw [hp, hn hmark]
    · exact hp
  · rcases hp a with hp | ⟨-, hne⟩
    · exact Or.inr ⟨hm, hp.trans ht, hr⟩
    · exact absurd hm hne

variable [DecidableEq α]

theorem arm (h : Covers mark ref store table) {a : α} (hm : store a ≠ mark) :
    Covers mark ref (Function.update store a mark) (Function.update table a (some (store a))) := by
  intro c
  by_cases hc : c = a
  · subst hc
    have he : store c = ref c := by
      by_contra hne
      exact hm (h.of_ne hne).1
    simp only [Function.update_self]
    exact Or.inr ⟨trivial, by rw [he], he ▸ hm⟩
  · simpa only [Function.update_of_ne hc] using h c

theorem disarm (h : Covers mark ref store table) {a : α} {x : β} (hm : store a = mark)
    (ht : table a = some x) : Covers mark ref (Function.update store a x) table := by
  obtain ⟨hx, hr⟩ := h.filed_eq hm ht
  intro c
  by_cases hc : c = a
  · subst hc
    simp only [Function.update_self]
    exact Or.inl ⟨hx, fun he => absurd he hr⟩
  · simpa only [Function.update_of_ne hc] using h c

theorem write (h : Covers mark ref store table) {a : α} {x : β} (hx : x ≠ mark) :
    Covers mark (Function.update ref a x) (Function.update store a x) table := by
  intro c
  by_cases hc : c = a
  · subst hc
    simp only [Function.update_self]
    exact Or.inl ⟨trivial, fun he => absurd he hx⟩
  · simpa only [Function.update_of_ne hc] using h c

/-- A write to an address that is not filed goes to both as well, whatever is written. -/
theorem write_of_not_filed (h : Covers mark ref store table) {a : α} (ha : table a = none) (x : β) :
    Covers mark (Function.update ref a x) (Function.update store a x) table := by
  intro c
  by_cases hc : c = a
  · subst hc
    simp only [Function.update_self]
    exact Or.inl ⟨trivial, fun _ => ha⟩
  · simpa only [Function.update_of_ne hc] using h c

end Covers

/-- One undo: the filed value goes back if the address still holds the mark. -/
def undo [DecidableEq α] [DecidableEq β] (mark : β) (table : α → Option β) (store : α → β)
    (a : α) : α → β :=
  match table a with
  | some x => if store a = mark then Function.update store a x else store
  | none => store

section Undo

variable [DecidableEq α] [DecidableEq β] {mark : β} {ref store : α → β} {table : α → Option β}

theorem Covers.undo (h : Covers mark ref store table) (a : α) :
    Covers mark ref (undo mark table store a) table := by
  unfold Overlay.undo
  cases ht : table a with
  | none => exact h
  | some x =>
    by_cases hm : store a = mark
    · simpa only [if_pos hm] using h.disarm hm ht
    · simpa only [if_neg hm] using h

theorem Covers.undo_eq_ref (h : Covers mark ref store table) (a : α) :
    Overlay.undo mark table store a a = ref a := by
  unfold Overlay.undo
  cases ht : table a with
  | none =>
    by_contra hne
    rw [(h.of_ne hne).2] at ht
    cases ht
  | some x =>
    by_cases hm : store a = mark
    · simp only [if_pos hm, Function.update_self]
      exact (h.filed_eq hm ht).1
    · simp only [if_neg hm]
      by_contra hne
      exact hm (h.of_ne hne).1

theorem Covers.undo_of_eq_ref (h : Covers mark ref store table) {a c : α} (hc : store c = ref c) :
    Overlay.undo mark table store a c = ref c := by
  by_cases hca : c = a
  · subst hca
    exact h.undo_eq_ref c
  · unfold Overlay.undo
    cases table a with
    | none => exact hc
    | some x => split_ifs <;> simp [Function.update_of_ne hca, hc]

/-- Undoing a list of addresses settles each of them, in whatever order they come. -/
theorem Covers.undoAll_of_mem (h : Covers mark ref store table) {as : List α} {c : α}
    (hc : store c = ref c ∨ c ∈ as) : as.foldl (Overlay.undo mark table) store c = ref c := by
  induction as generalizing store with
  | nil => simpa using hc
  | cons a as ih =>
    rw [List.foldl_cons]
    apply ih (h.undo a)
    rcases hc with he | hmem
    · exact Or.inl (h.undo_of_eq_ref he)
    · rcases List.mem_cons.mp hmem with rfl | hmem
      · exact Or.inl (h.undo_eq_ref c)
      · exact Or.inr hmem

theorem Covers.undoAll_eq_ref (h : Covers mark ref store table) {as : List α}
    (has : ∀ a, table a ≠ none → a ∈ as) : as.foldl (Overlay.undo mark table) store = ref := by
  funext c
  apply h.undoAll_of_mem
  by_cases he : store c = ref c
  · exact Or.inl he
  · exact Or.inr (has c (by simp [(h.of_ne he).2]))

end Undo
end Overlay
