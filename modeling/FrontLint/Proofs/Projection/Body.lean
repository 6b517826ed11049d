import FrontLint.Proofs.Document.Block
import FrontLint.Proofs.Document.KeyIndex
import FrontLint.Projection

/-!
# Independence of the body

Two documents with the same lines up to the end of the first one's block have the same
projection, or the same fault, and the same notes are made on the way to it. Whatever stands
behind the block is not looked at.
-/

namespace FrontLint

/-- Two lists of lines agree up to and including a line. -/
def AgreeThrough (closing : Nat) (lines lines' : List Text) : Prop :=
  lines.take (closing + 1) = lines'.take (closing + 1)

namespace AgreeThrough

variable {lines lines' : List Text} {closing : Nat}

theorem getElem?_eq (h : AgreeThrough closing lines lines') {i : Nat} (hi : i ≤ closing) :
    lines[i]? = lines'[i]? := by
  have hlt : i < closing + 1 := by omega
  rw [← List.getElem?_take_of_lt hlt, h, List.getElem?_take_of_lt hlt]

theorem isDelimiterAt_eq (h : AgreeThrough closing lines lines') {i : Nat} (hi : i ≤ closing) :
    isDelimiterAt lines i = isDelimiterAt lines' i := by
  rw [isDelimiterAt, isDelimiterAt, h.getElem?_eq hi]

/-- The first two delimiters are the same if they are among the lines that agree. -/
theorem find?_eq (h : AgreeThrough closing lines lines') {span : Span}
    (hspan : Span.find? lines = some span) (hclosing : span.closing = closing) :
    Span.find? lines' = some span := by
  subst hclosing
  obtain ⟨hlt, hopening, hclosing, hother⟩ := Span.find?_eq_some_iff.1 hspan
  refine Span.find?_eq_some_iff.2 ⟨hlt, ?_, ?_, ?_⟩
  · rw [← h.isDelimiterAt_eq (Nat.le_of_lt hlt)]
    exact hopening
  · rw [← h.isDelimiterAt_eq (Nat.le_refl _)]
    exact hclosing
  · intro i hi hne
    rw [← h.isDelimiterAt_eq (Nat.le_of_lt hi)]
    exact hother i hi hne

/-- The block is cut out of the lines that agree. -/
theorem interiorLines_eq (h : AgreeThrough closing lines lines') :
    interiorLines lines closing = interiorLines lines' closing := by
  have htake : lines.take closing = lines'.take closing := by
    have := congrArg (List.take closing) h
    simpa [List.take_take] using this
  have hcount : ¬ (closing : Int) < 0 := by omega
  simp only [interiorLines, hcount, if_false, Int.toNat_natCast, htake]

theorem fieldsOfLines_eq (h : AgreeThrough closing lines lines') (opening : Int) :
    Fields.ofLines lines opening closing = Fields.ofLines lines' opening closing := by
  rw [Fields.ofLines, Fields.ofLines, h.interiorLines_eq]

/-- The index is made of lines that agree. -/
theorem keyIndexOfLines?_eq (h : AgreeThrough closing lines lines') (opening : Nat) :
    KeyIndex.ofLines? lines opening closing = KeyIndex.ofLines? lines' opening closing := by
  suffices hall : ∀ last ≤ closing + 1,
      KeyIndex.ofLines? lines opening last = KeyIndex.ofLines? lines' opening last from
    hall closing (by omega)
  intro last hlast
  induction last with
  | zero => simp only [KeyIndex.ofLines?, KeyIndex.interior_of_le (Nat.zero_le _),
      KeyIndex.ofNumbers?]
  | succ last ih =>
      by_cases hlt : opening < last
      · rw [KeyIndex.ofLines?_succ lines hlt, KeyIndex.ofLines?_succ lines' hlt,
          ih (by omega), h.getElem?_eq (by omega)]
      · simp only [KeyIndex.ofLines?,
          KeyIndex.interior_of_le (show last + 1 ≤ opening + 1 by omega), KeyIndex.ofNumbers?]

end AgreeThrough

/-- The block of a document lies between its first two delimiters, if it has fields. -/
theorem Block.span_of_ofLines? {lines : List Text} {span : Span} {block : Block}
    (hspan : Span.find? lines = some span)
    (h : (Block.ofLines? lines).result = .ok (some block)) :
    block.opening = span.opening ∧ block.closing = span.closing := by
  obtain ⟨closing, hfound, hopening, hclosing, -⟩ := ofLines?_eq_ok_some_iff.1 h
  rw [hspan] at hfound
  cases hfound
  exact ⟨hopening, hclosing⟩

theorem Block.ofLines?_congr {lines lines' : List Text} {span : Span}
    (hspan : Span.find? lines = some span) (h : AgreeThrough span.closing lines lines') :
    Block.ofLines? lines = Block.ofLines? lines' := by
  rw [ofLines?, ofLines?, hspan, h.find?_eq hspan rfl]
  simp only [h.fieldsOfLines_eq]

namespace Projection

/-- The body does not influence the projection, the fault, or the notes. -/
theorem ofText?_eq_of_agreeThrough [HashSeed] {document document' : Text} {span : Span}
    (hspan : Span.find? (splitLines document) = some span)
    (h : AgreeThrough span.closing (splitLines document) (splitLines document')) :
    ofText? document = ofText? document' := by
  simp only [ofText?, ← Block.ofLines?_congr hspan h]
  refine Noted.bind_congr fun found hfound => ?_
  cases found with
  | none => rfl
  | some block =>
      have hblock : (Block.ofLines? (splitLines document)).result = .ok (some block) :=
        Noted.result_of_mapFault hfound
      obtain ⟨hopening, hclosing⟩ := Block.span_of_ofLines? hspan hblock
      have hindex : indexOf (splitLines document) block = indexOf (splitLines document') block := by
        rw [indexOf, indexOf, hopening, hclosing, h.keyIndexOfLines?_eq]
      simp only [hindex]

/-- A document with a title, and with a body of any lines. -/
def titled (body : List Text) : Text :=
  joinLines ([['-', '-', '-'], ['t', 'i', 't', 'l', 'e', ':', ' ', 'T'],
    ['-', '-', '-']].map Text.ofChars ++ body)

open HashSeed

/-- A body that looks like a block, and like a malformed one. -/
theorem ofText?_titled_eq :
    let body := [['t', 'i', 't', 'l', 'e', ':', ' ', '['], ['-', '-', '-']].map Text.ofChars
    Span.find? (splitLines (titled [])) = some ⟨0, 2⟩ ∧
      AgreeThrough 2 (splitLines (titled [])) (splitLines (titled body)) ∧
      ofText? (titled []) = ofText? (titled body) := by
  have hspan : Span.find? (splitLines (titled [])) = some ⟨0, 2⟩ := by decide
  have hagree : AgreeThrough 2 (splitLines (titled []))
      (splitLines (titled ([['t', 'i', 't', 'l', 'e', ':', ' ', '['],
        ['-', '-', '-']].map Text.ofChars))) := by
    rw [AgreeThrough]
    decide
  exact ⟨hspan, hagree, ofText?_eq_of_agreeThrough hspan hagree⟩

end Projection

end FrontLint
