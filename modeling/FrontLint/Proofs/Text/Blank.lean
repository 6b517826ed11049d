import FrontLint.Text.Blank
import Mathlib.Data.List.Basic

/-!
# The ends of texts

What is dropped at the end of a text is the longest end in which all satisfy a condition: an
end of that kind makes no difference, and nothing in front of another character is dropped.
-/

namespace FrontLint

theorem exists_dropEndWhile_append_eq (p : Code → Bool) (t : Text) :
    ∃ back, back.all p = true ∧ Text.dropEndWhile p t ++ back = t := by
  induction t with
  | nil => exact ⟨[], rfl, rfl⟩
  | cons c t ih =>
      obtain ⟨back, hback, heq⟩ := ih
      cases hkept : Text.dropEndWhile p t with
      | nil =>
          rw [hkept, List.nil_append] at heq
          by_cases hc : p c = true
          · exact ⟨c :: back, by simp [hc, hback], by simp [Text.dropEndWhile, hkept, hc, heq]⟩
          · exact ⟨back, hback, by simp [Text.dropEndWhile, hkept, hc, heq]⟩
      | cons d kept =>
          rw [hkept] at heq
          exact ⟨back, hback, by simpa [Text.dropEndWhile, hkept] using heq⟩

theorem isPrefix_dropEndWhile (p : Code → Bool) (t : Text) : Text.dropEndWhile p t <+: t :=
  let ⟨back, _, heq⟩ := exists_dropEndWhile_append_eq p t
  ⟨back, heq⟩

theorem dropEndWhile_append_of_all {p : Code → Bool} {back : Text} (h : back.all p = true)
    (t : Text) : Text.dropEndWhile p (t ++ back) = Text.dropEndWhile p t := by
  induction t with
  | nil => exact Text.dropEndWhile_eq_nil_iff.2 h
  | cons c t ih => rw [List.cons_append, Text.dropEndWhile, ih, Text.dropEndWhile]

theorem dropEndWhile_append {p : Code → Bool} {c : Code} (hc : p c = false) (front rest : Text) :
    Text.dropEndWhile p (front ++ c :: rest) = front ++ c :: Text.dropEndWhile p rest := by
  induction front with
  | nil =>
      rw [List.nil_append, Text.dropEndWhile]
      cases Text.dropEndWhile p rest <;> simp [hc]
  | cons a front ih => rw [List.cons_append, Text.dropEndWhile, ih]; simp

/-- What stripping leaves of a text between blanks that begins and ends with none. -/
theorem strip_append_append {front t back : Text} (hfront : front.isBlank = true)
    (hback : back.isBlank = true) (hhead : ∀ c ∈ t.head?, c.isBlank = false)
    (hlast : ∀ c ∈ t.getLast?, c.isBlank = false) : (front ++ t ++ back).strip = t := by
  rcases List.eq_nil_or_concat' t with rfl | ⟨init, last, rfl⟩
  · rw [List.append_nil, Text.strip_eq_nil_iff, Text.isBlank, List.all_append,
      Bool.and_eq_true]
    exact ⟨hfront, hback⟩
  · have hdrop : (front ++ (init ++ [last]) ++ back).dropWhile Code.isBlank =
        init ++ [last] ++ back := by
      rw [List.append_assoc, List.dropWhile_append_of_pos (List.all_eq_true.1 hfront)]
      cases init with
      | nil => exact List.dropWhile_cons_of_neg (by simp [hhead last rfl])
      | cons c init => exact List.dropWhile_cons_of_neg (by simp [hhead c rfl])
    rw [Text.strip, hdrop, Text.stripEnd, dropEndWhile_append_of_all hback,
      dropEndWhile_append (hlast last (by simp)), Text.dropEndWhile]

end FrontLint
