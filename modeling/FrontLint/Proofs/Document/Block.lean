import FrontLint.Document.Block
import FrontLint.Proofs.Document.Span

/-!
# Located blocks

A block that is found lies between the first two delimiters, of which the first one is the
first line, and has fields.
-/

namespace FrontLint

namespace Block

theorem ofLines?_eq_ok_some_iff {lines : List Text} {block : Block} :
    (ofLines? lines).result = .ok (some block) ↔
      ∃ closing : Nat, Span.find? lines = some ⟨0, closing⟩ ∧ block.opening = 0 ∧
        block.closing = closing ∧ block.fields ≠ [] ∧
        (Fields.ofLines lines 0 closing).result = .ok block.fields := by
  rw [ofLines?]
  cases hspan : Span.find? lines with
  | none => simp
  | some span =>
      obtain ⟨opening, closing⟩ := span
      rw [Noted.result_bind_eq_ok_iff]
      constructor
      · rintro ⟨fields, hfields, hblock⟩
        simp only [Noted.result_pure, Except.ok.injEq, Option.ite_none_left_eq_some,
          Option.some.injEq] at hblock
        obtain ⟨hne, rfl⟩ := hblock
        have hopening : opening = 0 := by
          by_contra hpos
          have hcast : (opening : Int) ≠ 0 := by exact_mod_cast hpos
          simp only [Fields.ofLines, hcast, if_true, ne_eq, not_false_eq_true,
            Noted.result_pure, Except.ok.injEq] at hfields
          simp [← hfields] at hne
        subst hopening
        exact ⟨closing, rfl, rfl, rfl, by simpa using hne, hfields⟩
      · rintro ⟨closing', hspan', hopening, hclosing, hne, hfields⟩
        simp only [Option.some.injEq, Span.mk.injEq] at hspan'
        obtain ⟨rfl, rfl⟩ := hspan'
        refine ⟨block.fields, hfields, ?_⟩
        cases block
        simp_all

/-- The block of a document with two delimiters is located by its fields. -/
theorem ofLines?_result {lines : List Text} {opening closing : Nat} {fields : Fields}
    (hspan : Span.find? lines = some ⟨opening, closing⟩)
    (hfields : (Fields.ofLines lines opening closing).result = .ok fields) :
    (ofLines? lines).result =
      .ok (if fields = [] then none else some ⟨opening, closing, fields⟩) := by
  rw [ofLines?, hspan, Noted.result_bind, hfields]
  simp only [List.isEmpty_iff]
  rfl

end Block

end FrontLint
