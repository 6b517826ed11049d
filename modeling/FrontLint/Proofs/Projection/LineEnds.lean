import FrontLint.Proofs.Document.LineEnds
import FrontLint.Projection

/-!
# Projections and line ends

The line ends inside of a block do not matter to the projection of its document. With carriage
returns the last line of the block has a line end too, which the lines without them have not.
Only a block scalar may keep it.
-/

namespace FrontLint

namespace Projection

section

variable [HashSeed]

/-- The outcome of a document with a block on its first lines, by what the text of the block is
read as. -/
def ofBlockValue? (lines : List Text) (closing : Int)
    (value : Except Yaml.Fault (Option Value)) : Noted Fault (Option Projection) := do
  let fields ← (Noted.ofExcept value >>= Fields.ofValue).mapFault .block
  if fields.isEmpty then return none
  else
    let block : Block := ⟨0, closing, fields⟩
    let projection ← ofBlock block (← indexOf lines block)
    return if projection.isBlank then none else some projection

/-- The outcome of a document whose block is read by `read`. -/
def ofTextBy? (read : Text → Except Yaml.Fault (Option Value)) (document : Text) :
    Noted Fault (Option Projection) :=
  let lines := splitLines document
  match Span.find? lines with
  | some ⟨0, closing⟩ =>
    ofBlockValue? lines closing (read (joinLines (interiorLines lines closing)))
  | _ => return none

theorem ofText?_eq_ofTextBy? (document : Text) :
    ofText? document = ofTextBy? Yaml.valueOfText document := by
  rw [ofText?, ofTextBy?]
  generalize splitLines document = lines
  cases hspan : Span.find? lines with
  | none =>
      simp only [Block.ofLines?, hspan]
      rfl
  | some span =>
      obtain ⟨opening, closing⟩ := span
      cases opening with
      | succ opening =>
          have hopening : ((opening + 1 : Nat) : Int) ≠ 0 := by omega
          simp only [Block.ofLines?, hspan, Fields.ofLines, ne_eq, hopening, not_false_eq_true,
            if_true]
          rfl
      | zero =>
          rw [Block.ofLines?, hspan]
          have hzero : ¬ ((0 : Nat) : Int) ≠ 0 := by decide
          simp only [Fields.ofLines, if_neg hzero, ofBlockValue?]
          generalize (Noted.ofExcept
            (Yaml.valueOfText (joinLines (interiorLines lines closing))) >>=
              Fields.ofValue) = fields
          obtain ⟨notes, result⟩ := fields
          cases result with
          | error fault => rfl
          | ok fields =>
              cases hempty : fields.isEmpty <;>
                simp [hempty, Bind.bind, Noted.bind, Noted.mapFault, Pure.pure, Noted.pure,
                  Except.mapError]

theorem ofBlockValue?_returnedLines (lines : List Text) (closing : Int)
    (value : Except Yaml.Fault (Option Value)) :
    ofBlockValue? (returnedLines lines) closing value = ofBlockValue? lines closing value := by
  simp only [ofBlockValue?, indexOf, KeyIndex.ofLines?_returnedLines]

/-- The same outcome, where all malformed blocks have the same. -/
def SameOutcome (x x' : Noted Fault (Option Projection)) : Prop :=
  x = x' ∨ ∃ e e', x = .fail (.block e) ∧ x' = .fail (.block e') ∧
    e.isOfBlock = true ∧ e'.isOfBlock = true

/-- A document with carriage returns has the outcome of the one without, if a line feed more is
read at the end of the block. They have the same outcome if no block scalar can begin in it. -/
theorem ofText?_withReturns {document : Text} (h : carriageReturn ∉ document) :
    ofText? document.withReturns =
        ofTextBy? (fun block => Yaml.valueOfText (block ++ [lineFeed])) document ∧
      ((∀ closing : Nat, Span.find? (splitLines document) = some ⟨0, closing⟩ →
          let block := joinLines (interiorLines (splitLines document) closing)
          .char '|' ∉ block ∧ .char '>' ∉ block) →
        SameOutcome (ofText? document.withReturns) (ofText? document)) := by
  have hreturn : ∀ line ∈ splitLines document, carriageReturn ∉ line := by
    intro line hline hmem
    refine h ?_
    rw [← joinLines_splitLines document, mem_joinLines_iff (by decide)]
    exact ⟨line, hline, hmem⟩
  have hread : ofText? document.withReturns =
      ofTextBy? (fun block => Yaml.valueOfText (block ++ [lineFeed])) document := by
    rw [ofText?_eq_ofTextBy?, ofTextBy?, ofTextBy?, splitLines_withReturns,
      Span.find?_returnedLines]
    have hfeed : ∀ line ∈ splitLines document, lineFeed ∉ line := fun _ =>
      not_mem_of_mem_splitLines
    generalize splitLines document = lines at hreturn hfeed
    split
    · rename_i closing hspan
      have hclosing : closing < lines.length := Span.closing_lt_length hspan
      rw [ofBlockValue?_returnedLines, valueOfText_returnedLines hclosing hfeed hreturn]
    · rfl
  refine ⟨hread, fun hblock => ?_⟩
  rw [hread, ofText?_eq_ofTextBy?, ofTextBy?, ofTextBy?]
  split
  · rename_i closing hspan
    obtain ⟨hliteral, hfolded⟩ := hblock closing hspan
    have hchars : ∀ c ∈ joinLines (interiorLines (splitLines document) closing),
        c ≠ carriageReturn ∧ c ≠ .char '|' ∧ c ≠ .char '>' := by
      intro c hc
      refine ⟨?_, ne_of_mem_of_not_mem hc hliteral, ne_of_mem_of_not_mem hc hfolded⟩
      rintro rfl
      obtain ⟨line, hline, hmem⟩ := (mem_joinLines_iff (by decide)).1 hc
      rw [interiorLines_natCast] at hline
      exact hreturn line (List.mem_of_mem_take (List.mem_of_mem_drop hline)) hmem
    rcases Yaml.valueOfText_append_lineFeed hchars with heq | ⟨e, e', heq, heq', he, he'⟩
    · exact .inl (by rw [heq])
    · rw [heq, heq']
      exact .inr ⟨e, e', rfl, rfl, he, he'⟩
  · exact .inl rfl

end

/-- A document that ends its description in a block scalar with all line ends kept. -/
def keptLineEnds : Text :=
  joinLines ([['-', '-', '-'],
    ['d', 'e', 's', 'c', 'r', 'i', 'p', 't', 'i', 'o', 'n', ':', ' ', '|', '+'], [' ', 'a'], [],
    ['-', '-', '-']].map Text.ofChars)

/-- A document with a title on one line. -/
def plainTitle : Text :=
  joinLines ([['-', '-', '-'], ['t', 'i', 't', 'l', 'e', ':', ' ', 'b'],
    ['-', '-', '-']].map Text.ofChars)

open HashSeed

/-- The description fits on one line, and not with carriage returns; the title does not change. -/
theorem ofText?_withReturns_keptLineEnds :
    (carriageReturn ∉ keptLineEnds ∧
        (ofText? keptLineEnds).result =
          .ok (some ⟨[[], Text.ofChars ['a'], [], [], [], []]⟩) ∧
        (ofText? keptLineEnds.withReturns).result = .ok none) ∧
      carriageReturn ∉ plainTitle ∧
        (ofText? plainTitle).result =
          .ok (some ⟨[[], Text.ofChars ['#', ' ', 'b'], [], []]⟩) ∧
        SameOutcome (ofText? plainTitle.withReturns) (ofText? plainTitle) := by
  have hkept : carriageReturn ∉ keptLineEnds := by decide
  have hplain : carriageReturn ∉ plainTitle := by decide
  have hspan : Span.find? (splitLines plainTitle) = some ⟨0, 2⟩ := by decide
  refine ⟨⟨hkept, Noted.eq_ok_of_toOption (by decide +kernel), ?_⟩, hplain,
    Noted.eq_ok_of_toOption (by decide +kernel), (ofText?_withReturns hplain).2 ?_⟩
  · rw [(ofText?_withReturns hkept).1]
    exact Noted.eq_ok_of_toOption (by decide +kernel)
  · intro closing hclosing
    rw [hspan, Option.some.injEq] at hclosing
    cases hclosing
    decide

end Projection

end FrontLint
