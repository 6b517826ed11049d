import Mathlib.Data.List.Basic

/-!
# Results of steps in a row

Steps that may fail give a result together if each of them does, and the result is put together
from theirs.
-/

namespace FrontLint

section Except

variable {α β ε : Type} {g : α → Except ε β} {l : List α} {r : List β}

theorem bind_eq_ok_iff {x : Except ε α} {y : β} :
    x >>= g = .ok y ↔ ∃ a, x = .ok a ∧ g a = .ok y := by
  cases x with
  | error fault =>
      constructor
      · intro h
        cases h
      · rintro ⟨a, h, -⟩
        cases h
  | ok a =>
      constructor
      · intro h
        exact ⟨a, rfl, h⟩
      · rintro ⟨b, h, hg⟩
        cases h
        exact hg

theorem pure_eq_ok_iff {x y : α} : (pure x : Except ε α) = .ok y ↔ x = y := by
  constructor
  · intro h
    cases h
    rfl
  · rintro rfl
    rfl

theorem foldlM_cons_eq_ok_iff {step : β → α → Except ε β} {x : α} {first last : β} :
    (x :: l).foldlM step first = .ok last ↔
      ∃ next, step first x = .ok next ∧ l.foldlM step next = .ok last := by
  rw [List.foldlM_cons, bind_eq_ok_iff]

/-- What is observed of a state under steps follows from what is observed of it before them. -/
theorem map_foldlM {γ : Type} {observe : β → γ} {step : β → α → Except ε β}
    {step' : γ → α → Except ε γ} (h : ∀ s x, (step s x).map observe = step' (observe s) x)
    (l : List α) (s : β) : (l.foldlM step s).map observe = l.foldlM step' (observe s) := by
  induction l generalizing s with
  | nil => rfl
  | cons x l ih =>
      rw [List.foldlM_cons, List.foldlM_cons, ← h s x]
      cases step s x with
      | error fault => rfl
      | ok next => exact ih next

theorem mapM_cons_eq_ok_iff {x : α} :
    (x :: l).mapM g = .ok r ↔ ∃ y, g x = .ok y ∧ ∃ ys, l.mapM g = .ok ys ∧ y :: ys = r := by
  simp only [List.mapM_cons, bind_eq_ok_iff, pure_eq_ok_iff]

theorem mem_of_mapM_eq_ok (h : l.mapM g = .ok r) {y : β} :
    y ∈ r ↔ ∃ x ∈ l, g x = .ok y := by
  induction l generalizing r with
  | nil =>
      cases h
      simp
  | cons x l ih =>
      obtain ⟨first, hx, rest, hl, rfl⟩ := mapM_cons_eq_ok_iff.1 h
      simp [ih hl, hx, eq_comm]

theorem exists_mapM_eq_ok_iff :
    (∃ r, l.mapM g = .ok r) ↔ ∀ x ∈ l, ∃ y, g x = .ok y := by
  induction l with
  | nil => exact iff_of_true ⟨[], rfl⟩ (List.forall_mem_nil _)
  | cons x l ih =>
      simp only [mapM_cons_eq_ok_iff, List.forall_mem_cons, ← ih]
      constructor
      · rintro ⟨_, y, hx, ys, hl, -⟩
        exact ⟨⟨y, hx⟩, ys, hl⟩
      · rintro ⟨⟨y, hx⟩, ys, hl⟩
        exact ⟨_, y, hx, ys, hl, rfl⟩

end Except

end FrontLint
