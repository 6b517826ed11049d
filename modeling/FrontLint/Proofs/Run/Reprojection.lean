import FrontLint.Proofs.Cache.ReadBack
import FrontLint.Proofs.Run.AddedFile

/-!
# Projections as documents

The first line of a projection is empty, so no block opens there, and a projection has no
projection of its own. A run that comes to the projections of another run skips them all.
-/

namespace FrontLint

/-- A document whose first line is empty has no block. -/
theorem Block.ofLines?_nil_cons (lines : List Text) : Block.ofLines? ([] :: lines) = pure none := by
  rw [Block.ofLines?]
  cases hspan : Span.find? ([] :: lines) with
  | none => rfl
  | some span =>
      have hopening : (span.opening : Int) ≠ 0 := by
        intro hzero
        have hdelimiter := (Span.find?_eq_some_iff.1 hspan).2.1
        rw [Int.natCast_eq_zero.1 hzero, isDelimiterAt, List.getElem?_cons_zero] at hdelimiter
        exact absurd hdelimiter (by decide)
      simp only [Fields.ofLines, ne_eq, hopening, not_false_eq_true, if_true]
      rfl

namespace Projection

section

variable [HashSeed]

/-- A document that begins with a line feed is not linted. -/
theorem ofText?_lineFeed_cons (rest : Text) : ofText? (lineFeed :: rest) = pure none := by
  rw [ofText?, splitLines, if_pos rfl, Block.ofLines?_nil_cons]
  rfl

/-- The line of the opening delimiter is empty in every projection. -/
theorem PreservesLines.exists_text_eq {lines : List Text} {closing : Nat} {fields : Fields}
    {index : KeyIndex} {p : Projection} (h : p.PreservesLines lines closing fields index) :
    ∃ rest, p.text = lineFeed :: rest := by
  have hlength := h.length_lines
  obtain ⟨first, rest, hlines⟩ := List.exists_cons_of_length_eq_add_one hlength
  have hfirst : first = [] := by
    by_contra hne
    have hslot := (h.filled_iff 0 first hne).1 (by rw [hlines, List.getElem?_cons_zero])
    -- the line of a slot is not the first one
    rcases hslot with ⟨text, hslot, -⟩ | ⟨key, hbody⟩
    · obtain ⟨n, hn, hpos, -⟩ := h.declared _ _ _ (.inl ⟨rfl, hslot⟩)
      omega
    · obtain ⟨n, hn, hpos, -⟩ := h.declared _ _ _ (.inr hbody)
      omega
  have hrest : rest ≠ [] := by
    rintro rfl
    simp [hlines] at hlength
  refine ⟨joinLines rest, ?_⟩
  rw [text, hlines, hfirst, joinLines_cons _ hrest, List.nil_append]

/-- A projection is not linted itself, however its line ends are read, and a run that comes to a
file with its text skips the file. -/
theorem ofText?_projection {document : Text} {p : Projection}
    (h : (ofText? document).result = .ok (some p)) :
    ofText? p.text = pure none ∧ ofText? p.text.withLineFeeds = pure none ∧
      ∀ (cache : Cache) (console : Option Console) (progress : Progress) (file : List Char)
          (content : Bytes),
        Utf8.encode p.text = .ok content →
        progress.files.read (cache.base.join (.ofText file)).text = .ok content →
        progress.take cache console file = (progress.countSkipped file, none) := by
  obtain ⟨closing, block, index, -, -, hpreserves⟩ := preservesLines_of_ofText? h
  obtain ⟨rest, htext⟩ := hpreserves.exists_text_eq
  have hunified : ofText? p.text.withLineFeeds = pure none := by
    rw [htext]
    exact ofText?_lineFeed_cons _
  refine ⟨htext ▸ ofText?_lineFeed_cons rest, hunified, ?_⟩
  intro cache console progress file content hencode hread
  have hproject : cache.project file progress.files = pure none := by
    rw [Cache.project_of_read hread, Utf8.encode_eq_ok hencode, Cache.projectContent,
      Utf8.decode_encodeChars]
    simp only
    rw [← Text.withLineFeeds_ofChars, ← Utf8.eq_ofChars_of_encode hencode, hunified]
    rfl
  have hprocess : cache.process file progress.files = (pure none, progress.files) := by
    simp only [Cache.process, hproject, Noted.result_pure]
    rfl
  rw [Progress.take_of_ok_none (by rw [hprocess]; rfl), Progress.afterProcess, hprocess]
  simp [Pure.pure, Noted.pure]

end

/-- A document with delimiters in its fields: behind a carriage return in the title, and as the
description. -/
def ruledFields : Text :=
  joinLines ([['-', '-', '-'],
    ['t', 'i', 't', 'l', 'e', ':', ' ', '"', 'a', '\\', 'r', '-', '-', '-', '"'],
    ['d', 'e', 's', 'c', 'r', 'i', 'p', 't', 'i', 'o', 'n', ':', ' ', '"', '-', '-', '-', '"'],
    ['-', '-', '-']].map Text.ofChars)

def ruledProjection : Projection :=
  ⟨[[], Text.ofChars ['#', ' ', 'a', '\r', '-', '-', '-'], Text.ofChars ['-', '-', '-'], [], []]⟩

open HashSeed

/-- Two delimiters stand in the projection once its line ends are read, and still it has no
block. -/
theorem ofText?_projection_ruledFields :
    (ofText? ruledFields).result = .ok (some ruledProjection) ∧
      (Span.find? (splitLines ruledProjection.text.withLineFeeds)).isSome = true ∧
      ofText? ruledProjection.text = pure none ∧
      ofText? ruledProjection.text.withLineFeeds = pure none := by
  have h : (ofText? ruledFields).result = .ok (some ruledProjection) :=
    Noted.eq_ok_of_toOption (by decide +kernel)
  obtain ⟨hself, hunified, -⟩ := ofText?_projection h
  exact ⟨h, by decide, hself, hunified⟩

end Projection

end FrontLint
