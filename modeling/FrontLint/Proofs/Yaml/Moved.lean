import FrontLint.Proofs.Yaml.Reading
import FrontLint.Yaml.Token.Flow

/-!
# Readers further on in a text

What a reader reads depends on the characters ahead and on the column, and not on how many
characters and lines stand before them. So a reader that begins at the same characters further
on in another text reads the same.
-/

namespace FrontLint.Yaml

namespace Cursor

/-- The same place, counted as if `a` characters and `b` lines more stood before it. -/
def moved (a b : Nat) (c : Cursor) : Cursor := { c with index := c.index + a, line := c.line + b }

/-- What is read, up to the count of the characters and lines before the place behind it. -/
abbrev alongMoved (a b : Nat) (r : Except Fault (α × Cursor)) : Except Fault (α × Cursor) :=
  r.map (Prod.map id (moved a b))

variable {α β : Type} {a b : Nat} {c : Cursor}

@[simp] theorem moved_zero : c.moved 0 0 = c := rfl

@[simp] theorem rest_moved : (c.moved a b).rest = c.rest := rfl

@[simp] theorem column_moved : (c.moved a b).column = c.column := rfl

@[simp] theorem head_moved : (c.moved a b).head = c.head := rfl

@[simp] theorem peek_moved (n : Nat) : (c.moved a b).peek n = c.peek n := rfl

@[simp] theorem run_moved (p : Char → Bool) : (c.moved a b).run p = c.run p := rfl

@[simp] theorem next_moved : (c.moved a b).next = c.next.moved a b := by
  obtain ⟨rest, index, line, column⟩ := c
  cases rest with
  | nil => rfl
  | cons x rest =>
      simp only [next, moved]
      split
      · rw [Nat.add_right_comm index, Nat.add_right_comm line]
      · rw [Nat.add_right_comm index]

@[simp] theorem advance_moved (n : Nat) : advance n (c.moved a b) = (advance n c).moved a b := by
  induction n generalizing c with
  | zero => rfl
  | succ n ih => rw [advance, advance, next_moved, ih]

@[simp] theorem skip_moved (p : Char → Bool) : (c.moved a b).skip p = (c.skip p).moved a b := by
  rw [skip, skip, run_moved, advance_moved]

@[simp] theorem skipSpaces_moved : (c.moved a b).skipSpaces = c.skipSpaces.moved a b :=
  skip_moved _

@[simp] theorem skipComment_moved : (c.moved a b).skipComment = c.skipComment.moved a b := by
  rw [skipComment, skipComment, head_moved, skip_moved]
  split <;> rfl

@[simp] theorem lineBreak?_moved :
    (c.moved a b).lineBreak? = c.lineBreak?.map (Prod.map id (moved a b)) := by
  simp only [lineBreak?, rest_moved, next_moved, advance_moved]
  split
  · rfl
  · split
    · rfl
    · split <;> rfl
  · rfl

@[simp] theorem isAtDocumentMark_moved : (c.moved a b).isAtDocumentMark = c.isAtDocumentMark := rfl

/-! ## Names -/

theorem tagText_moved (site : TagSite) (fuel : Nat) :
    tagText site fuel (c.moved a b) = alongMoved a b (tagText site fuel c) := by
  induction fuel generalizing c with
  | zero => rfl
  | succ fuel ih =>
      simp only [tagText, run_moved, advance_moved, head_moved, rest_moved]
      split
      · cases escapedBytes site (advance (c.run isTagChar).length c).rest with
        | error fault => rfl
        | ok bytes =>
            simp only [bind, Except.bind]
            cases Utf8.decode bytes with
            | error fault => rfl
            | ok chars =>
                simp only [ih]
                cases tagText site fuel _ <;> rfl
      · rfl

@[simp] theorem tagSuffix_moved (site : TagSite) :
    tagSuffix site (c.moved a b) = alongMoved a b (tagSuffix site c) := by
  simp only [tagSuffix, head_moved, rest_moved, tagText_moved]
  split <;> rfl

@[simp] theorem tagHandle_moved (site : TagSite) :
    tagHandle site (c.moved a b) = alongMoved a b (tagHandle site c) := by
  simp only [tagHandle, head_moved, peek_moved, next_moved, run_moved, advance_moved]
  split
  · rfl
  · split
    · rfl
    · split <;> rfl

@[simp] theorem shorthandTag_moved :
    (c.moved a b).shorthandTag = alongMoved a b c.shorthandTag := by
  simp only [shorthandTag, next_moved, run_moved, tagHandle_moved]
  split
  · cases tagHandle .node c with
    | error fault => rfl
    | ok x =>
        simp only [bind, Except.bind, Except.map, Prod.map, tagSuffix_moved]
        cases tagSuffix .node x.2 <;> rfl
  · simp only [bind, Except.bind, pure, Except.pure, tagSuffix_moved]
    cases tagSuffix .node c.next <;> rfl

/-- A step that goes on from where a reader stopped. -/
theorem alongMoved_bind {r : Except Fault (α × Cursor)}
    {f g : α × Cursor → Except Fault (β × Cursor)}
    (h : ∀ x c', f (x, c'.moved a b) = alongMoved a b (g (x, c'))) :
    alongMoved a b r >>= f = alongMoved a b (r >>= g) := by
  cases r with
  | error fault => rfl
  | ok x => exact h x.1 x.2

/-- What stands behind a token is looked at only. -/
theorem guarded_moved {x : α} {fault : Fault} (p : Char → Bool) (c : Cursor) :
    (if p c.head = true then pure (x, c.moved a b) else throw fault :
        Except Fault (α × Cursor)) =
      alongMoved a b (if p c.head = true then pure (x, c) else throw fault) := by
  cases p c.head <;> rfl

@[simp] theorem tag_moved : (c.moved a b).tag = alongMoved a b c.tag := by
  have hlast (r : Except Fault (Token × Cursor)) :
      (alongMoved a b r >>= fun x =>
        if isSpaceOrBreak x.2.head = true then pure (x.1, x.2) else throw (.misread .tag)) =
      alongMoved a b (r >>= fun x =>
        if isSpaceOrBreak x.2.head = true then pure (x.1, x.2) else throw (.misread .tag)) :=
    alongMoved_bind fun _ c' => guarded_moved isSpaceOrBreak c'
  simp only [tag, peek_moved, advance_moved, next_moved, shorthandTag_moved, tagSuffix_moved]
  split
  · refine alongMoved_bind fun suffix c' => ?_
    simp only [head_moved, next_moved]
    split
    · exact hlast (pure (.tag none suffix, c'.next))
    · rfl
  · split
    · exact hlast (pure (.tag none ['!'], c.next))
    · exact hlast c.shorthandTag

@[simp] theorem anchorName_moved (part : Part) :
    anchorName part (c.moved a b) = alongMoved a b (anchorName part c) := by
  simp only [anchorName, next_moved, run_moved, advance_moved, head_moved]
  split <;> rfl

@[simp] theorem versionNumber_moved :
    (c.moved a b).versionNumber = alongMoved a b c.versionNumber := by
  simp only [versionNumber, run_moved, advance_moved]
  split
  · rfl
  · split <;> rfl

@[simp] theorem versionDirective_moved :
    (c.moved a b).versionDirective = alongMoved a b c.versionDirective := by
  simp only [versionDirective, skipSpaces_moved, versionNumber_moved]
  refine alongMoved_bind fun x c' => ?_
  simp only [head_moved, next_moved, versionNumber_moved]
  split
  · rfl
  · exact alongMoved_bind fun _ c' => guarded_moved isSpaceOrBreak c'

@[simp] theorem handleDirective_moved :
    (c.moved a b).handleDirective = alongMoved a b c.handleDirective := by
  simp only [handleDirective, skipSpaces_moved, tagHandle_moved]
  refine alongMoved_bind fun x c' => ?_
  simp only [head_moved, skipSpaces_moved, tagSuffix_moved]
  split
  · rfl
  · exact alongMoved_bind fun _ c' => guarded_moved isSpaceOrBreak c'

@[simp] theorem restOfLine_moved (part : Part) :
    restOfLine part (c.moved a b) = (restOfLine part c).map (moved a b) := by
  simp only [restOfLine, skipSpaces_moved, skipComment_moved, head_moved, lineBreak?_moved]
  split
  · cases c.skipSpaces.skipComment.lineBreak? <;> rfl
  · rfl

@[simp] theorem directive_moved : (c.moved a b).directive = alongMoved a b c.directive := by
  have hlast (r : Except Fault (Directive × Cursor)) :
      (alongMoved a b r >>= fun x => do
        return (Token.directive x.1, ← x.2.restOfLine .directive)) =
      alongMoved a b (r >>= fun x => do
        return (Token.directive x.1, ← x.2.restOfLine .directive)) := by
    refine alongMoved_bind fun x c' => ?_
    simp only [restOfLine_moved]
    cases restOfLine .directive c' <;> rfl
  simp only [directive, next_moved, run_moved, advance_moved, head_moved, skip_moved,
    versionDirective_moved, handleDirective_moved]
  split
  · rfl
  · by_cases hversion : c.next.run isNameChar = ['Y', 'A', 'M', 'L']
    · rw [if_pos hversion, if_pos hversion]
      exact hlast _
    · rw [if_neg hversion, if_neg hversion]
      by_cases hhandle : c.next.run isNameChar = ['T', 'A', 'G']
      · rw [if_pos hhandle, if_pos hhandle]
        exact hlast _
      · rw [if_neg hhandle, if_neg hhandle]
        exact hlast (pure (.other,
          (advance (c.next.run isNameChar).length c.next).skip fun a => !isBreakOrEnd a))

/-! ## Block scalars -/

@[simp] theorem chomping?_moved : (c.moved a b).chomping? = c.chomping? := rfl

@[simp] theorem indentation?_moved :
    (c.moved a b).indentation? = alongMoved a b c.indentation? := by
  simp only [indentation?, head_moved, next_moved]
  split
  · rfl
  · split <;> rfl

@[simp] theorem blockHeader_moved : (c.moved a b).blockHeader = alongMoved a b c.blockHeader := by
  simp only [blockHeader, chomping?_moved, indentation?_moved, next_moved]
  cases c.chomping? with
  | some chomping =>
      cases c.next.indentation? with
      | error fault => rfl
      | ok x => exact guarded_moved isSpaceOrBreak x.2
  | none =>
      cases c.indentation? with
      | error fault => rfl
      | ok x =>
          obtain ⟨indentation, c'⟩ := x
          simp only [bind, Except.bind, Except.map, Prod.map, chomping?_moved, next_moved]
          cases indentation with
          | none => exact guarded_moved isSpaceOrBreak c'
          | some n =>
              simp only [id_eq]
              cases c'.chomping? with
              | none => exact guarded_moved isSpaceOrBreak c'
              | some chomping => exact guarded_moved isSpaceOrBreak c'.next

@[simp] theorem detectIndentation_moved (fuel widest : Nat) :
    detectIndentation fuel widest (c.moved a b) =
      (detectIndentation fuel widest c).map id (Prod.map id (moved a b)) := by
  induction fuel generalizing widest c with
  | zero => rfl
  | succ fuel ih =>
      simp only [detectIndentation, head_moved, next_moved, column_moved, lineBreak?_moved, ih]
      split
      · rfl
      · cases c.lineBreak? with
        | none => rfl
        | some x => simp only [Option.map_some, Prod.map, ih]; rfl

@[simp] theorem skipIndentation_moved (indentation : Nat) :
    (c.moved a b).skipIndentation indentation = (c.skipIndentation indentation).moved a b := by
  simp only [skipIndentation, column_moved, run_moved, advance_moved]

@[simp] theorem emptyLines_moved (indentation fuel : Nat) :
    emptyLines indentation fuel (c.moved a b) =
      (emptyLines indentation fuel c).map id (moved a b) := by
  induction fuel generalizing c with
  | zero => rfl
  | succ fuel ih =>
      simp only [emptyLines, skipIndentation_moved, lineBreak?_moved]
      cases (c.skipIndentation indentation).lineBreak? with
      | none => rfl
      | some x => simp only [Option.map_some, Prod.map, ih]; rfl

@[simp] theorem isAtBlank_moved : (c.moved a b).isAtBlank = c.isAtBlank := rfl

@[simp] theorem isAtBlockLine_moved (indentation : Nat) :
    (c.moved a b).isAtBlockLine indentation = c.isAtBlockLine indentation := rfl

/-- What a reader answers with the place behind its parts. -/
abbrev lastMoved (a b : Nat) {γ δ : Type} (x : γ × δ × α × Cursor) : γ × δ × α × Cursor :=
  (x.1, x.2.1, x.2.2.1, x.2.2.2.moved a b)

@[simp] theorem blockLines_moved (folded : Bool) (indentation fuel : Nat) :
    blockLines folded indentation fuel (c.moved a b) =
      lastMoved a b (blockLines folded indentation fuel c) := by
  induction fuel generalizing c with
  | zero => rfl
  | succ fuel ih =>
      simp only [blockLines, isAtBlank_moved, run_moved, advance_moved, lineBreak?_moved]
      cases (advance (c.run fun a => !isBreakOrEnd a).length c).lineBreak? with
      | none =>
          simp only [Option.map_none, emptyLines_moved, rest_moved, Prod.map,
            isAtBlockLine_moved, isAtBlank_moved, ih]
          split <;> rfl
      | some x =>
          simp only [Option.map_some, emptyLines_moved, rest_moved, Prod.map,
            isAtBlockLine_moved, isAtBlank_moved, ih]
          split <;> rfl

@[simp] theorem leadingBreaks_moved (least : Nat) (given : Option Nat) :
    leadingBreaks least given (c.moved a b) =
      (leadingBreaks least given c).map id (Prod.map id (moved a b)) := by
  cases given with
  | none => simp only [leadingBreaks, rest_moved, detectIndentation_moved]; rfl
  | some n => simp only [leadingBreaks, rest_moved, emptyLines_moved]; rfl

@[simp] theorem blockText_moved (folded : Bool) (indentation : Nat) (breaks : List Char) :
    blockText folded indentation breaks (c.moved a b) =
      lastMoved a b (blockText folded indentation breaks c) := by
  simp only [blockText, isAtBlockLine_moved, rest_moved, blockLines_moved]
  split <;> rfl

theorem blockScalar_moved (folded : Bool) (indent : Int) :
    blockScalar folded indent (c.moved a b) = alongMoved a b (blockScalar folded indent c) := by
  simp only [blockScalar, next_moved, blockHeader_moved]
  refine alongMoved_bind fun header c' => ?_
  simp only [restOfLine_moved]
  cases restOfLine .blockScalar c' with
  | error fault => rfl
  | ok c'' =>
      simp only [bind, Except.bind, Except.map, leadingBreaks_moved, Prod.map, blockText_moved]
      rfl

/-! ## Quoted scalars -/

theorem quotedBreaks_moved (fuel : Nat) :
    quotedBreaks fuel (c.moved a b) = alongMoved a b (quotedBreaks fuel c) := by
  induction fuel generalizing c with
  | zero => rfl
  | succ fuel ih =>
      simp only [quotedBreaks, isAtDocumentMark_moved, skip_moved, lineBreak?_moved]
      split
      · rfl
      · cases (c.skip fun a => a == ' ' || a == '\t').lineBreak? with
        | none => rfl
        | some x =>
            simp only [bind, Except.bind, Option.map_some, Prod.map, ih]
            cases quotedBreaks fuel x.2 <;> rfl

theorem escape_moved : (c.moved a b).escape = alongMoved a b c.escape := by
  simp only [escape, head_moved, next_moved, rest_moved, advance_moved, lineBreak?_moved]
  split
  · rfl
  · split
    · cases escapedCode (Numeral.valueIn 16 (List.take _ c.next.rest)) <;> rfl
    · rfl
  · cases c.lineBreak? with
    | none => rfl
    | some x =>
        simp only [Option.map_some, Prod.map, quotedBreaks_moved, rest_moved]
        cases quotedBreaks (x.2.rest.length + 1) x.2 <;> rfl

theorem quotedBlanks_moved : (c.moved a b).quotedBlanks = alongMoved a b c.quotedBlanks := by
  simp only [quotedBlanks, run_moved, advance_moved, lineBreak?_moved, head_moved]
  cases (advance (c.run fun a => a == ' ' || a == '\t').length c).lineBreak? with
  | none =>
      simp only [Option.map_none]
      split <;> rfl
  | some x =>
      simp only [Option.map_some, Prod.map, quotedBreaks_moved, rest_moved]
      cases quotedBreaks (x.2.rest.length + 1) x.2 <;> rfl

theorem quotedText_moved (double : Bool) (fuel : Nat) :
    quotedText double fuel (c.moved a b) = alongMoved a b (quotedText double fuel c) := by
  induction fuel generalizing c with
  | zero => rfl
  | succ fuel ih =>
      have hrest (r : Except Fault (Text × Cursor)) :
          (alongMoved a b r >>= fun x => do
            let y ← quotedText double fuel x.2
            return (x.1 ++ y.1, y.2)) =
          alongMoved a b (r >>= fun x => do
            let y ← quotedText double fuel x.2
            return (x.1 ++ y.1, y.2)) := by
        refine alongMoved_bind fun x c' => ?_
        simp only [ih]
        cases quotedText double fuel c' <;> rfl
      simp only [quotedText, head_moved, peek_moved, next_moved, advance_moved, quotedBlanks_moved,
        escape_moved]
      split
      · exact hrest _
      · split
        · rfl
        · split
          · exact hrest _
          · split
            · split
              · exact hrest (pure ([.char '\x27'], advance 2 c))
              · rfl
            · exact hrest (pure ([.char c.head], c.next))

theorem quotedScalar_moved (double : Bool) :
    quotedScalar double (c.moved a b) = alongMoved a b (quotedScalar double c) := by
  simp only [quotedScalar, rest_moved, next_moved, quotedText_moved]
  exact alongMoved_bind fun _ _ => rfl

/-! ## Plain scalars -/

theorem plainBreaks_moved (fuel : Nat) :
    plainBreaks fuel (c.moved a b) = (plainBreaks fuel c).map id (moved a b) := by
  induction fuel generalizing c with
  | zero => rfl
  | succ fuel ih =>
      simp only [plainBreaks, head_moved, next_moved, lineBreak?_moved, ih]
      split
      · rfl
      · cases c.lineBreak? with
        | none => rfl
        | some x =>
            simp only [Option.map_some, Prod.map, isAtDocumentMark_moved, ih]
            split <;> rfl

theorem plainGap_moved :
    (c.moved a b).plainGap = c.plainGap.map id (Prod.map id (moved a b)) := by
  simp only [plainGap, run_moved, advance_moved, lineBreak?_moved]
  cases (advance (c.run (· == ' ')).length c).lineBreak? with
  | none => rfl
  | some x =>
      simp only [Option.map_some, Prod.map, isAtDocumentMark_moved, rest_moved, plainBreaks_moved]
      split
      · rfl
      · rcases plainBreaks (x.2.rest.length + 1) x.2 with ⟨_ | breaks, c'⟩ <;> rfl

theorem plainWords_moved (inFlow : Bool) (indent : Int) (fuel : Nat) (gap : List Char)
    (crossed : Bool) :
    plainWords inFlow indent fuel gap crossed (c.moved a b) =
      (plainWords inFlow indent fuel gap crossed c).map id (Prod.map id (moved a b)) := by
  induction fuel generalizing gap crossed c with
  | zero => rfl
  | succ fuel ih =>
      simp only [plainWords, head_moved, rest_moved, advance_moved, plainGap_moved]
      split
      · rfl
      · obtain ⟨next, crossed, c'⟩ := (advance (plainWord inFlow c.rest).length c).plainGap
        simp only [Prod.map_apply, id_eq, head_moved, column_moved, ih]
        rw [apply_ite (Prod.map id (Prod.map id (moved a b)))]
        rfl

theorem plainScalar_moved (inFlow : Bool) (indent : Int) :
    plainScalar inFlow indent (c.moved a b) =
      (plainScalar inFlow indent c).map id (Prod.map id (moved a b)) := by
  simp only [plainScalar, rest_moved, plainWords_moved]
  rfl

end Cursor

end FrontLint.Yaml
