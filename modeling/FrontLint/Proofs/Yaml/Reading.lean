import FrontLint.Proofs.Yaml.Postcondition
import FrontLint.Yaml.Token.Flow
import Mathlib.Data.List.Infix

/-!
# Readers of tokens

Each reader of a token goes on to a place behind the one at which it began. Where it finds a
fault, this is a fault of the block, or an escape beyond the numbers of 31 bits, which only a
block with a backslash can hold.
-/

namespace FrontLint.Yaml

namespace Cursor

@[simp] theorem rest_next (c : Cursor) : c.next.rest = c.rest.tail := by
  rw [next]
  split
  · rename_i h
    simp [h]
  · rename_i h
    split <;> simp [h]

@[simp] theorem rest_advance (n : Nat) (c : Cursor) : (advance n c).rest = c.rest.drop n := by
  induction n generalizing c with
  | zero => rfl
  | succ n ih => rw [advance, ih, rest_next, List.drop_tail]

/-- A place behind another one, or the same. -/
def IsBehind (c' c : Cursor) : Prop := ∃ n, c' = advance n c

theorem advance_add (n m : Nat) (c : Cursor) : advance (n + m) c = advance m (advance n c) := by
  induction n generalizing c with
  | zero => rw [Nat.zero_add, advance]
  | succ n ih => rw [Nat.add_right_comm, advance, advance, ih]

theorem isBehind_refl (c : Cursor) : c.IsBehind c := ⟨0, rfl⟩

theorem isBehind_advance (n : Nat) (c : Cursor) : (advance n c).IsBehind c := ⟨n, rfl⟩

theorem isBehind_next (c : Cursor) : c.next.IsBehind c := ⟨1, rfl⟩

theorem IsBehind.trans {c c' c'' : Cursor} (h : c''.IsBehind c') (h' : c'.IsBehind c) :
    c''.IsBehind c := by
  obtain ⟨m, rfl⟩ := h
  obtain ⟨n, rfl⟩ := h'
  exact ⟨n + m, (advance_add n m c).symm⟩

theorem IsBehind.suffix {c c' : Cursor} (h : c'.IsBehind c) : c'.rest <:+ c.rest := by
  obtain ⟨n, rfl⟩ := h
  rw [rest_advance]
  exact List.drop_suffix n c.rest

theorem IsBehind.length_le {c c' : Cursor} (h : c'.IsBehind c) :
    c'.rest.length ≤ c.rest.length := h.suffix.length_le

theorem isBehind_skip (c : Cursor) (p : Char → Bool) : (c.skip p).IsBehind c :=
  isBehind_advance _ c

theorem isBehind_skipSpaces (c : Cursor) : c.skipSpaces.IsBehind c := isBehind_skip c _

theorem isBehind_skipComment (c : Cursor) : c.skipComment.IsBehind c := by
  rw [skipComment]
  split
  · exact isBehind_skip c _
  · exact isBehind_refl c

theorem isBehind_of_lineBreak? {c c' : Cursor} {b : Char} (h : c.lineBreak? = some (b, c')) :
    c'.IsBehind c := by
  rw [lineBreak?] at h
  split at h
  · cases h
    exact isBehind_advance 2 c
  · split at h
    · cases h
      exact isBehind_next c
    · split at h
      · cases h
        exact isBehind_next c
      · cases h
  · cases h

end Cursor

/-- The faults of readers on a text: those of a block, and a number in an escape that is too
large, if the text has a backslash. -/
def IsReaderFault (text : List Char) (fault : Fault) : Prop :=
  fault.isOfBlock = true ∨ fault = .codePointSize ∧ '\\' ∈ text

theorem IsReaderFault.of_suffix {text text' : List Char} {fault : Fault}
    (h : IsReaderFault text' fault) (hsuffix : text' <:+ text) : IsReaderFault text fault :=
  h.imp_right fun h => ⟨h.1, hsuffix.mem h.2⟩

namespace Cursor

variable {α β : Type} {c c' : Cursor}

/-- A reader goes on to a place behind, or finds a fault. -/
def Reads (c : Cursor) (r : Except Fault (α × Cursor)) : Prop :=
  Meets r (fun x => x.2.IsBehind c) (IsReaderFault c.rest)

theorem reads_ok {a : α} (h : c'.IsBehind c) : Reads c (.ok (a, c')) := h

theorem reads_error (fault : Fault) (h : fault.isOfBlock = true) :
    Reads c (.error fault : Except Fault (α × Cursor)) := .inl h

theorem Reads.of_isBehind {r : Except Fault (α × Cursor)} (h : Reads c' r) (hc : c'.IsBehind c) :
    Reads c r :=
  Meets.mono h (fun _ h => h.trans hc) fun _ h => h.of_suffix hc.suffix

theorem Reads.bind {r : Except Fault (α × Cursor)}
    {f : α × Cursor → Except Fault (β × Cursor)} (h : Reads c r)
    (hf : ∀ a c', c'.IsBehind c → Reads c' (f (a, c'))) : Reads c (r >>= f) :=
  Meets.bind h fun x hx => (hf x.1 x.2 hx).of_isBehind hx

theorem reads_pure_bind {a : α} {f : α × Cursor → Except Fault (β × Cursor)}
    (hc : c'.IsBehind c) (h : Reads c' (f (a, c'))) : Reads c (pure (a, c') >>= f) :=
  h.of_isBehind hc

/-- A step that reads nothing. -/
theorem reads_bind {r : Except Fault α} {f : α → Except Fault (β × Cursor)}
    (h : Meets r (fun _ => True) fun fault => fault.isOfBlock = true)
    (hf : ∀ a, Reads c (f a)) : Reads c (r >>= f) :=
  Meets.bind (h.mono (fun _ h => h) fun _ h => .inl h) fun a _ => hf a

/-! ## Names -/

theorem isOfBlock_misread (site : TagSite) : site.misread.isOfBlock = true := by
  cases site <;> rfl

theorem isOfBlock_missing (site : TagSite) : site.missing.isOfBlock = true := by
  cases site <;> rfl

theorem meets_escapedBytes (site : TagSite) (cs : List Char) :
    Meets (escapedBytes site cs) (fun _ => True) fun fault => fault.isOfBlock = true := by
  fun_induction escapedBytes site cs with
  | case1 a b rest _ ih =>
      cases hrest : escapedBytes site rest with
      | ok bytes => trivial
      | error fault => exact ih.of_eq_error hrest
  | case2 => exact isOfBlock_misread site
  | case3 => exact isOfBlock_misread site
  | case4 => trivial

theorem reads_tagText (site : TagSite) (fuel : Nat) (c : Cursor) :
    Reads c (tagText site fuel c) := by
  induction fuel generalizing c with
  | zero => exact reads_ok (isBehind_refl c)
  | succ fuel ih =>
      have hplain := isBehind_advance (c.run isTagChar).length c
      rw [tagText]
      dsimp only
      split
      · refine reads_bind (meets_escapedBytes site _) fun bytes => ?_
        split
        · exact reads_error _ (isOfBlock_misread site)
        · have hrest := (ih (advance (3 * bytes.length) _)).of_isBehind
            ((isBehind_advance _ _).trans hplain)
          exact hrest.bind fun _ c' _ => reads_ok (isBehind_refl c')
      · exact reads_ok hplain

theorem reads_tagSuffix (site : TagSite) (c : Cursor) : Reads c (tagSuffix site c) := by
  rw [tagSuffix]
  split
  · exact reads_tagText site _ c
  · exact reads_error _ (isOfBlock_missing site)

theorem reads_tagHandle (site : TagSite) (c : Cursor) : Reads c.next (tagHandle site c) := by
  rw [tagHandle]
  split
  · exact reads_error _ (isOfBlock_misread site)
  · split
    · exact reads_ok (isBehind_refl _)
    · dsimp only
      split
      · exact reads_ok (isBehind_advance _ c.next)
      · exact reads_error _ (isOfBlock_misread site)

/-- What stands behind a token is looked at only. -/
theorem reads_guarded {a : α} {fault : Fault} {p : Prop} [Decidable p]
    (h : fault.isOfBlock = true) :
    Reads c (if p then pure (a, c) else throw fault : Except Fault (α × Cursor)) := by
  split
  · exact reads_ok (isBehind_refl c)
  · exact reads_error _ h

theorem reads_shorthandTag (c : Cursor) : Reads c.next c.shorthandTag := by
  rw [shorthandTag]
  split
  · refine (reads_tagHandle .node c).bind fun handle c' _ => ?_
    exact (reads_tagSuffix .node c').bind fun _ c'' _ => reads_ok (isBehind_refl c'')
  · refine reads_pure_bind (isBehind_refl _) ?_
    exact (reads_tagSuffix .node c.next).bind fun _ c' _ => reads_ok (isBehind_refl c')

theorem reads_tag (c : Cursor) : Reads c.next c.tag := by
  rw [tag]
  split
  · refine ((reads_tagSuffix .node (advance 2 c)).of_isBehind (isBehind_next c.next)).bind
      fun suffix c' _ => ?_
    dsimp only
    split
    · exact Reads.of_isBehind (reads_guarded rfl) (isBehind_next c')
    · exact reads_error (.ungrammatical .tag) rfl
  · split
    · exact reads_guarded rfl
    · exact (reads_shorthandTag c).bind fun _ _ _ => reads_guarded rfl

theorem reads_anchorName (part : Part) (c : Cursor) : Reads c.next (anchorName part c) := by
  rw [anchorName]
  split
  · exact reads_error _ rfl
  · exact reads_ok (isBehind_advance _ c.next)

theorem reads_versionNumber (c : Cursor) : Reads c c.versionNumber := by
  rw [versionNumber]
  split
  · exact reads_error _ rfl
  · split
    · exact reads_error _ rfl
    · exact reads_ok (isBehind_advance _ c)

theorem reads_versionDirective (c : Cursor) : Reads c c.versionDirective := by
  rw [versionDirective]
  refine ((reads_versionNumber c.skipSpaces).of_isBehind (isBehind_skipSpaces c)).bind
    fun major c' _ => ?_
  dsimp only
  split
  · exact reads_error (.misread .directive) rfl
  · exact ((reads_versionNumber c'.next).of_isBehind (isBehind_next c')).bind
      fun _ _ _ => reads_guarded rfl

theorem reads_handleDirective (c : Cursor) : Reads c c.handleDirective := by
  have hstart := (isBehind_next c.skipSpaces).trans (isBehind_skipSpaces c)
  rw [handleDirective]
  refine ((reads_tagHandle .directive c.skipSpaces).of_isBehind hstart).bind fun handle c' _ => ?_
  dsimp only
  split
  · exact reads_error (.misread .directive) rfl
  · exact ((reads_tagSuffix .directive c'.skipSpaces).of_isBehind (isBehind_skipSpaces c')).bind
      fun _ _ _ => reads_guarded rfl

theorem meets_restOfLine (part : Part) (c : Cursor) :
    Meets (c.restOfLine part) (fun c' => c'.IsBehind c) (IsReaderFault c.rest) := by
  have hcomment : c.skipSpaces.skipComment.IsBehind c :=
    (isBehind_skipComment _).trans (isBehind_skipSpaces c)
  rw [restOfLine]
  split
  · split
    · rename_i h
      exact (isBehind_of_lineBreak? h).trans hcomment
    · exact hcomment
  · exact .inl rfl

theorem reads_directive (c : Cursor) : Reads c.next c.directive := by
  have hname := isBehind_advance (c.next.run isNameChar).length c.next
  have hrest (x : Directive × Cursor) : Reads x.2 (do
      return (Token.directive x.1, ← x.2.restOfLine .directive)) :=
    Meets.bind (meets_restOfLine .directive x.2) fun _ h => reads_ok h
  rw [directive]
  dsimp only
  split
  · exact reads_error (.misread .directive) rfl
  · split
    · exact Reads.bind ((reads_versionDirective _).of_isBehind hname) fun _ _ _ => hrest _
    · split
      · exact Reads.bind ((reads_handleDirective _).of_isBehind hname) fun _ _ _ => hrest _
      · have hskip := (isBehind_skip _ fun a => !isBreakOrEnd a).trans hname
        generalize Cursor.skip _ _ = c' at hskip ⊢
        exact reads_pure_bind hskip (hrest (.other, c'))

/-! ## Block scalars -/

theorem reads_indentation? (c : Cursor) : Reads c c.indentation? := by
  rw [indentation?]
  split
  · exact reads_error _ rfl
  · split
    · exact reads_ok (isBehind_next c)
    · exact reads_ok (isBehind_refl c)

theorem reads_blockHeader (c : Cursor) : Reads c c.blockHeader := by
  rw [blockHeader]
  split
  · exact ((reads_indentation? c.next).of_isBehind (isBehind_next c)).bind
      fun _ _ _ => reads_guarded rfl
  · refine (reads_indentation? c).bind fun indentation c' _ => ?_
    dsimp only
    split
    · exact Reads.of_isBehind (reads_guarded rfl) (isBehind_next c')
    · exact reads_guarded rfl

theorem isBehind_detectIndentation (fuel widest : Nat) (c : Cursor) :
    (detectIndentation fuel widest c).2.2.IsBehind c := by
  fun_induction detectIndentation fuel widest c with
  | case1 => exact isBehind_refl _
  | case2 _ _ c _ ih => exact ih.trans (isBehind_next c)
  | case3 _ _ _ _ _ _ h _ _ _ heq ih =>
      rw [heq] at ih
      exact ih.trans (isBehind_of_lineBreak? h)
  | case4 => exact isBehind_refl _

theorem isBehind_emptyLines (indentation fuel : Nat) (c : Cursor) :
    (emptyLines indentation fuel c).2.IsBehind c := by
  fun_induction emptyLines indentation fuel c with
  | case1 => exact isBehind_refl _
  | case2 _ c _ _ _ h _ _ heq ih =>
      rw [heq] at ih
      exact (ih.trans (isBehind_of_lineBreak? h)).trans (isBehind_advance _ c)
  | case3 _ c => exact isBehind_advance _ c

theorem isBehind_lineEnd {c c' c'' : Cursor} {n indentation fuel : Nat}
    {lineEnd breaks : List Char}
    (hend : (match (advance n c).lineBreak? with
      | some (b, c') => ([b], c')
      | none => ([], advance n c)) = (lineEnd, c'))
    (hempty : emptyLines indentation fuel c' = (breaks, c'')) : c''.IsBehind c := by
  have hbreak : c'.IsBehind (advance n c) := by
    split at hend
    · rename_i h
      cases hend
      exact isBehind_of_lineBreak? h
    · cases hend
      exact isBehind_refl _
  have hlines := isBehind_emptyLines indentation fuel c'
  rw [hempty] at hlines
  exact (hlines.trans hbreak).trans (isBehind_advance n c)

theorem isBehind_blockLines (folded : Bool) (indentation fuel : Nat) (c : Cursor) :
    (blockLines folded indentation fuel c).2.2.2.IsBehind c := by
  fun_induction blockLines folded indentation fuel c with
  | case1 => exact isBehind_refl _
  | case2 _ c _ _ c' _ c'' hend _ _ hempty _ _ _ _ _ _ hlines ih =>
      rw [hlines] at ih
      exact ih.trans (isBehind_lineEnd hend hempty)
  | case3 _ c _ c' _ c'' hend _ _ hempty _ =>
      exact isBehind_lineEnd hend hempty

theorem isBehind_leadingBreaks (least : Nat) (given : Option Nat) (c : Cursor) :
    (leadingBreaks least given c).2.2.IsBehind c := by
  cases given with
  | some n => exact isBehind_emptyLines (least + n - 1) (c.rest.length + 1) c
  | none => exact isBehind_detectIndentation (c.rest.length + 1) 0 c

theorem isBehind_blockText (folded : Bool) (indentation : Nat) (breaks : List Char)
    (c : Cursor) : (blockText folded indentation breaks c).2.2.2.IsBehind c := by
  rw [blockText]
  split
  · exact isBehind_blockLines folded indentation _ c
  · exact isBehind_refl c

theorem reads_blockScalar (folded : Bool) (indent : Int) (c : Cursor) :
    Reads c.next (c.blockScalar folded indent) := by
  rw [blockScalar]
  refine (reads_blockHeader c.next).bind fun header c' _ => ?_
  refine Meets.bind (meets_restOfLine .blockScalar c') fun c₀ h => ?_
  have hbreaks := isBehind_leadingBreaks (max 1 (indent + 1).toNat) header.indentation c₀
  generalize c₀.leadingBreaks _ _ = front at hbreaks ⊢
  obtain ⟨breaks, indentation, c₁⟩ := front
  have htext := isBehind_blockText folded indentation breaks c₁
  dsimp only
  generalize c₁.blockText folded indentation breaks = lines at htext ⊢
  exact reads_ok ((htext.trans hbreaks).trans h)

/-! ## Flow scalars -/

theorem reads_quotedBreaks (fuel : Nat) (c : Cursor) : Reads c (quotedBreaks fuel c) := by
  induction fuel generalizing c with
  | zero => exact reads_ok (isBehind_refl c)
  | succ fuel ih =>
      have hblank := isBehind_skip c fun a => a == ' ' || a == '\t'
      rw [quotedBreaks]
      dsimp only
      split
      · exact reads_error (.misread .quotedScalar) rfl
      · split
        · rename_i h
          exact ((ih _).of_isBehind ((isBehind_of_lineBreak? h).trans hblank)).bind
            fun _ c' _ => reads_ok (isBehind_refl c')
        · exact reads_ok hblank

theorem isOfBlock_or_of_escapedCode (n : Nat) :
    Meets (escapedCode n) (fun _ => True)
      fun fault => fault.isOfBlock = true ∨ fault = .codePointSize := by
  rw [escapedCode]
  split
  · trivial
  · split
    · exact .inl rfl
    · exact .inr rfl

/-- An escape is read up to a place behind its backslash. -/
theorem meets_escape (c : Cursor) :
    Meets c.escape (fun x => x.2.IsBehind c)
      fun fault => fault.isOfBlock = true ∨ fault = .codePointSize := by
  rw [escape]
  split
  · exact isBehind_next c
  · dsimp only
    split
    · exact (isOfBlock_or_of_escapedCode _).bind fun code _ => isBehind_advance _ c
    · exact .inl rfl
  · split
    · rename_i hbreak
      refine Meets.bind ((reads_quotedBreaks _ _).mono (fun _ h => h) fun fault h => ?_)
        fun x hx => hx.trans (isBehind_of_lineBreak? hbreak)
      exact h.imp_right (·.1)
    · exact .inl rfl

theorem reads_escape {c : Cursor} (h : '\\' ∈ c.rest) : Reads c c.next.escape :=
  (meets_escape c.next).mono (fun _ hx => hx.trans (isBehind_next c))
    fun _ hfault => hfault.imp_right fun heq => ⟨heq, h⟩

theorem reads_quotedBlanks (c : Cursor) : Reads c c.quotedBlanks := by
  have hblank := isBehind_advance (c.run fun a => a == ' ' || a == '\t').length c
  rw [quotedBlanks]
  dsimp only
  split
  · rename_i h
    exact ((reads_quotedBreaks _ _).of_isBehind
      ((isBehind_of_lineBreak? h).trans hblank)).bind
      fun _ c' _ => reads_ok (isBehind_refl c')
  · split
    · exact reads_error (.misread .quotedScalar) rfl
    · exact reads_ok hblank

theorem mem_of_head {c : Cursor} {a : Char} (h : c.head = a) (ha : a ≠ endMark) :
    a ∈ c.rest := by
  rw [head] at h
  cases hrest : c.rest with
  | nil => simp_all
  | cons b rest => simp_all

theorem reads_quotedText (double : Bool) (fuel : Nat) (c : Cursor) :
    Reads c (quotedText double fuel c) := by
  induction fuel generalizing c with
  | zero => exact reads_error _ rfl
  | succ fuel ih =>
      have hrest (piece : Text) (c : Cursor) :
          Reads c (quotedText double fuel c >>= fun x => .ok (piece ++ x.1, x.2)) :=
        (ih c).bind fun _ c' _ => reads_ok (isBehind_refl c')
      rw [quotedText]
      split
      · exact (reads_quotedBlanks c).bind fun piece c' _ => hrest piece c'
      · split
        · exact reads_ok (isBehind_next c)
        · split
          · rename_i h
            simp only [Bool.and_eq_true, beq_iff_eq] at h
            exact (reads_escape (mem_of_head h.2 (by decide))).bind
              fun piece c' _ => hrest piece c'
          · split
            · split
              · exact reads_pure_bind (isBehind_advance 2 c) (hrest _ _)
              · exact reads_ok (isBehind_next c)
            · exact reads_pure_bind (isBehind_next c) (hrest _ _)

theorem reads_quotedScalar (double : Bool) (c : Cursor) :
    Reads c.next (c.quotedScalar double) := by
  rw [quotedScalar]
  exact (reads_quotedText double _ c.next).bind fun _ c' _ => reads_ok (isBehind_refl c')

theorem isBehind_plainBreaks (fuel : Nat) (c : Cursor) :
    (plainBreaks fuel c).2.IsBehind c := by
  fun_induction plainBreaks fuel c with
  | case1 => exact isBehind_refl _
  | case2 _ c _ ih => exact ih.trans (isBehind_next c)
  | case3 _ _ _ _ _ h => exact isBehind_of_lineBreak? h
  | case4 _ _ _ _ _ h _ _ _ heq ih =>
      rw [heq] at ih
      exact ih.trans (isBehind_of_lineBreak? h)
  | case5 => exact isBehind_refl _

theorem isBehind_plainGap (c : Cursor) : c.plainGap.2.2.IsBehind c := by
  have hblank := isBehind_advance (c.run (· == ' ')).length c
  rw [plainGap]
  split
  · rename_i b c' h
    have hbreak := (isBehind_of_lineBreak? h).trans hblank
    have hbreaks := (isBehind_plainBreaks (c'.rest.length + 1) c').trans hbreak
    split
    · exact hbreak
    · split
      · rename_i heq
        rwa [heq] at hbreaks
      · rename_i heq
        rwa [heq] at hbreaks
  · exact hblank

theorem isBehind_plainWords (inFlow : Bool) (indent : Int) (fuel : Nat) (gap : List Char)
    (crossed : Bool) (c : Cursor) :
    (plainWords inFlow indent fuel gap crossed c).2.2.IsBehind c := by
  fun_induction plainWords inFlow indent fuel gap crossed c with
  | case1 => exact isBehind_refl _
  | case2 => exact isBehind_refl _
  | case3 _ _ _ c word _ _ _ _ hgap =>
      have h := isBehind_plainGap (advance word.length c)
      rw [hgap] at h
      exact h.trans (isBehind_advance _ c)
  | case4 _ _ _ c word _ _ _ _ hgap _ _ _ _ hrest ih =>
      have h := isBehind_plainGap (advance word.length c)
      rw [hgap] at h
      rw [hrest] at ih
      exact (ih.trans h).trans (isBehind_advance _ c)

theorem plainScalar_eq (inFlow : Bool) (indent : Int) (c : Cursor) :
    c.plainScalar inFlow indent =
      (.scalar (Text.ofChars (plainWords inFlow indent (c.rest.length + 1) [] false c).1) true,
        (plainWords inFlow indent (c.rest.length + 1) [] false c).2) := rfl

/-- A plain scalar that begins with a word has at least one character. -/
theorem isBehind_plainScalar {inFlow : Bool} (indent : Int) {c : Cursor} (hhead : c.head ≠ '#')
    (hword : plainWord inFlow c.rest ≠ []) :
    (c.plainScalar inFlow indent).2.2.IsBehind c.next := by
  obtain ⟨n, hn⟩ := Nat.exists_eq_add_one.2 (List.length_pos_iff.2 hword)
  have hgap := isBehind_plainGap (advance (n + 1) c)
  have hnext : (advance (n + 1) c).IsBehind c.next := isBehind_advance n c.next
  have hbegin : (c.head == '#' || (plainWord inFlow c.rest).isEmpty) = false := by
    simp [hhead, hword]
  rw [plainScalar_eq, plainWords]
  simp only [hbegin, hn, Bool.false_eq_true, if_false]
  split
  · exact hgap.trans hnext
  · exact ((isBehind_plainWords inFlow indent _ _ _ _).trans hgap).trans hnext

end Cursor

/-! ## Tokens -/

namespace Cursor

theorem isDirective_directive (c : Cursor) :
    Meets c.directive (fun x => ∃ d, x.1 = .directive d) fun _ => True := by
  have hrest (x : Directive × Cursor) :
      Meets (do return (Token.directive x.1, ← x.2.restOfLine .directive))
        (fun x => ∃ d, x.1 = .directive d) fun _ => True :=
    Meets.bind_of_forall fun _ => ⟨x.1, rfl⟩
  rw [directive]
  dsimp only
  split
  · trivial
  · split
    · exact Meets.bind_of_forall hrest
    · split
      · exact Meets.bind_of_forall hrest
      · generalize Cursor.skip _ _ = c'
        exact Meets.bind_of_forall hrest

theorem isTag_tag (c : Cursor) :
    Meets c.tag (fun x => ∃ handle suffix, x.1 = .tag handle suffix) fun _ => True := by
  have hend (x : Token × Cursor) (hx : ∃ handle suffix, x.1 = .tag handle suffix) :
      Meets (if isSpaceOrBreak x.2.head = true then pure (x.1, x.2) else throw (.misread .tag) :
        Except Fault (Token × Cursor)) (fun x => ∃ handle suffix, x.1 = .tag handle suffix)
        fun _ => True := by
    split
    · exact hx
    · trivial
  rw [tag]
  split
  · refine Meets.bind_of_forall fun x => ?_
    dsimp only
    split
    · exact hend (.tag none x.1, x.2.next) ⟨_, _, rfl⟩
    · trivial
  · split
    · exact hend (.tag none ['!'], c.next) ⟨_, _, rfl⟩
    · have hshort : Meets c.shorthandTag (fun x => ∃ handle suffix, x.1 = .tag handle suffix)
          fun _ => True := by
        have hsuffix (x : List Char × Cursor) :
            Meets (do
              let y ← tagSuffix .node x.2
              return (Token.tag (some x.1) y.1, y.2))
              (fun x => ∃ handle suffix, x.1 = .tag handle suffix) fun _ => True :=
          Meets.bind_of_forall fun y => ⟨_, _, rfl⟩
        rw [shorthandTag]
        dsimp only
        split
        · exact Meets.bind_of_forall hsuffix
        · exact hsuffix (['!'], c.next)
      exact hshort.bind hend

theorem isScalar_blockScalar (folded : Bool) (indent : Int) (c : Cursor) :
    Meets (c.blockScalar folded indent) (fun x => ∃ text, x.1 = .scalar text false)
      fun _ => True := by
  rw [blockScalar]
  exact Meets.bind_of_forall fun _ => Meets.bind_of_forall fun _ => ⟨_, rfl⟩

theorem isScalar_quotedScalar (double : Bool) (c : Cursor) :
    Meets (c.quotedScalar double) (fun x => ∃ text, x.1 = .scalar text false) fun _ => True := by
  rw [quotedScalar]
  exact Meets.bind_of_forall fun _ => ⟨_, rfl⟩

end Cursor

/-- No tag, and no plain scalar that ends with a line feed. -/
def Token.IsBare : Token → Prop
  | .tag _ _ => False
  | .scalar text true => text.getLast? ≠ some (.char '\n')
  | _ => True

namespace Cursor

theorem isBare_directive (c : Cursor) :
    Meets c.directive (fun x => x.1.IsBare) fun _ => True := by
  refine (isDirective_directive c).mono ?_ fun _ _ => trivial
  rintro ⟨_, _⟩ ⟨d, rfl⟩
  trivial

theorem isBare_blockScalar (folded : Bool) (indent : Int) (c : Cursor) :
    Meets (c.blockScalar folded indent) (fun x => x.1.IsBare) fun _ => True := by
  refine (isScalar_blockScalar folded indent c).mono ?_ fun _ _ => trivial
  rintro ⟨_, _⟩ ⟨text, rfl⟩
  trivial

theorem isBare_quotedScalar (double : Bool) (c : Cursor) :
    Meets (c.quotedScalar double) (fun x => x.1.IsBare) fun _ => True := by
  refine (isScalar_quotedScalar double c).mono ?_ fun _ _ => trivial
  rintro ⟨_, _⟩ ⟨text, rfl⟩
  trivial

theorem not_isSeparator_of_mem_plainWord {inFlow : Bool} {cs : List Char} {a : Char}
    (h : a ∈ plainWord inFlow cs) : isSeparator a = false := by
  induction cs with
  | nil => cases h
  | cons b cs ih =>
      rw [plainWord] at h
      split at h
      · cases h
      · rename_i hb
        rcases List.mem_cons.1 h with rfl | h
        · simp_all
        · exact ih h

/-- The last character of a plain scalar belongs to a word. -/
theorem not_isSeparator_getLast?_plainWords (inFlow : Bool) (indent : Int) (fuel : Nat)
    (gap : List Char) (crossed : Bool) (c : Cursor) :
    ∀ a ∈ (plainWords inFlow indent fuel gap crossed c).1.getLast?, isSeparator a = false := by
  fun_induction plainWords inFlow indent fuel gap crossed c with
  | case1 => simp
  | case2 => simp
  | case3 _ _ _ c word hword =>
      intro a ha
      rw [List.getLast?_append_of_ne_nil _ (by simp_all)] at ha
      exact not_isSeparator_of_mem_plainWord (List.mem_of_getLast? ha)
  | case4 _ _ _ c word hword _ _ _ _ _ rest _ _ hrest ih =>
      rw [hrest] at ih
      intro a ha
      by_cases hnil : rest = []
      · rw [hnil, List.append_nil, List.getLast?_append_of_ne_nil _ (by simp_all)] at ha
        exact not_isSeparator_of_mem_plainWord (List.mem_of_getLast? ha)
      · rw [List.getLast?_append_of_ne_nil _ hnil] at ha
        exact ih a ha

theorem isBare_plainScalar (inFlow : Bool) (indent : Int) (c : Cursor) :
    (c.plainScalar inFlow indent).1.IsBare := by
  rw [plainScalar_eq]
  intro h
  rw [Text.ofChars, List.getLast?_map] at h
  obtain ⟨a, ha, hcode⟩ := Option.map_eq_some_iff.1 h
  cases hcode
  exact absurd (not_isSeparator_getLast?_plainWords inFlow indent _ [] false c _ ha) (by decide)

end Cursor

end FrontLint.Yaml
