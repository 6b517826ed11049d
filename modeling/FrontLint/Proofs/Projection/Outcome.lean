import FrontLint.Proofs.Projection.Slot

/-!
# Outcomes

A document has a projection exactly when its block is found and indexed, its fields are laid
out, and something of them is not blank.
-/

namespace FrontLint

namespace Projection

theorem indexOf_result (lines : List Text) (block : Block) :
    (indexOf lines block).result =
      match KeyIndex.ofLines? lines block.opening block.closing with
      | some index => .ok index
      | none => .error .lineMissing := by
  rw [indexOf]
  cases KeyIndex.ofLines? lines block.opening block.closing <;> rfl

variable [HashSeed]

theorem ofText?_of_block_none {document : Text}
    (h : (Block.ofLines? (splitLines document)).result = .ok none) :
    (ofText? document).result = .ok none := by
  rw [ofText?, Noted.result_bind, Noted.result_mapFault, h]
  rfl

/-- The projection of a document with a block is that of the block, unless it is blank. -/
theorem ofText?_of_block_some {document : Text} {block : Block} {index : KeyIndex}
    (h : (Block.ofLines? (splitLines document)).result = .ok (some block))
    (hindex : KeyIndex.ofLines? (splitLines document) block.opening block.closing = some index) :
    (ofText? document).result =
      (ofBlock block index).result.map fun p => if p.isBlank then none else some p := by
  rw [ofText?, Noted.result_bind, Noted.result_mapFault, h]
  simp only [Except.mapError, Except.bind, Noted.result_bind, indexOf_result, hindex]
  rfl

/-- The three steps to a projection: the block, its index, and the layout. -/
theorem ofText?_eq_ok_some_iff {document : Text} {p : Projection} :
    (ofText? document).result = .ok (some p) ↔
      ∃ block index, (Block.ofLines? (splitLines document)).result = .ok (some block) ∧
        KeyIndex.ofLines? (splitLines document) block.opening block.closing = some index ∧
        (ofBlock block index).result = .ok p ∧ p.isBlank = false := by
  constructor
  · rw [ofText?, Noted.result_bind_eq_ok_iff, Noted.result_mapFault]
    rintro ⟨found, hfound, h⟩
    cases hb : (Block.ofLines? (splitLines document)).result with
    | error e => simp [hb, Except.mapError] at hfound
    | ok found' =>
        simp only [hb, Except.mapError, Except.ok.injEq] at hfound
        subst hfound
        cases found' with
        | none => simp at h
        | some block =>
            simp only [Noted.result_bind_eq_ok_iff, indexOf_result] at h
            obtain ⟨index, hindex, q, hq, hp⟩ := h
            split at hindex
            · rename_i found hfound
              cases hindex
              simp only [Noted.result_pure, Except.ok.injEq, Option.ite_none_left_eq_some,
                Option.some.injEq] at hp
              obtain ⟨hblank, rfl⟩ := hp
              exact ⟨block, index, rfl, hfound, hq, by simpa using hblank⟩
            · cases hindex
  · rintro ⟨block, index, hblock, hindex, hp, hblank⟩
    rw [ofText?_of_block_some hblock hindex, hp]
    simp [Except.map, hblank]

/-- A fault on the way to a projection is one of the three steps'. -/
theorem ofText?_eq_error {document : Text} {e : Fault} (h : (ofText? document).result = .error e) :
    (∃ fault, e = .block fault) ∨
      ∃ block, (Block.ofLines? (splitLines document)).result = .ok (some block) ∧
        (KeyIndex.ofLines? (splitLines document) block.opening block.closing = none ∨
          ∃ index,
            KeyIndex.ofLines? (splitLines document) block.opening block.closing = some index ∧
              (ofBlock block index).result = .error e) := by
  rw [ofText?, Noted.result_bind_eq_error_iff, Noted.result_mapFault] at h
  cases hb : (Block.ofLines? (splitLines document)).result with
  | error fault =>
      left
      simp only [hb, Except.mapError, Except.error.injEq, reduceCtorEq, false_and, exists_false,
        or_false] at h
      exact ⟨fault, h.symm⟩
  | ok found =>
      simp only [hb, Except.mapError, reduceCtorEq, Except.ok.injEq, exists_eq_left',
        false_or] at h
      cases found with
      | none => cases h
      | some block =>
          refine Or.inr ⟨block, rfl, ?_⟩
          cases hindex : KeyIndex.ofLines? (splitLines document) block.opening block.closing with
          | none => exact Or.inl rfl
          | some index =>
              refine Or.inr ⟨index, rfl, ?_⟩
              simp only [Noted.result_bind_eq_error_iff, indexOf_result, hindex, reduceCtorEq,
                Except.ok.injEq, exists_eq_left', false_or] at h
              rcases h with h | ⟨p, _, h⟩
              · exact h
              · cases h

end Projection

end FrontLint
