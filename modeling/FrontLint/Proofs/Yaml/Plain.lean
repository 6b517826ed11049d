import FrontLint.Proofs.Text.Word
import FrontLint.Yaml.Token.Flow

/-!
# Plain words

Words with single spaces between them are read as one plain scalar, whatever stands behind
them, if that ends a word and the gap there ends the scalar.
-/

namespace FrontLint.Yaml

/-- A character that ends no line and is no byte order mark, so that it takes one column. -/
def isInline (a : Char) : Bool := !isBreakOrEnd a && a != '\uFEFF'

theorem isInline_of_isWord {a : Char} (h : (Code.char a).isWord = true) : isInline a = true := by
  simp [isInline, isBreakOrEnd, endMark, ne_of_isWord h (b := '\x00') (by decide),
    ne_of_isWord h (b := '\r') (by decide), ne_of_isWord h (b := '\n') (by decide),
    ne_of_isWord h (b := '\x85') (by decide +kernel),
    ne_of_isWord h (b := '\u2028') (by decide +kernel),
    ne_of_isWord h (b := '\u2029') (by decide +kernel),
    ne_of_isWord h (b := '\uFEFF') (by decide +kernel)]

theorem isSeparator_of_isWord {a : Char} (h : (Code.char a).isWord = true) :
    isSeparator a = false := by
  have hinline := isInline_of_isWord h
  simp only [isInline, Bool.and_eq_true, Bool.not_eq_true'] at hinline
  simp [isSeparator, isSpaceOrBreak, hinline.1, ne_of_isWord h (b := ' ') (by decide),
    ne_of_isWord h (b := '\t') (by decide)]

theorem isInline_of_isAsciiWord {a : Char} (h : isAsciiWord a = true) : isInline a = true :=
  isInline_of_isWord (isWord_of_isAsciiWord h)

namespace Cursor

variable {a : Char} {front rest : List Char} {index line column : Nat}

theorem next_of_isInline (ha : isInline a = true) :
    next ⟨a :: rest, index, line, column⟩ = ⟨rest, index + 1, line, column + 1⟩ := by
  simp only [isInline, Bool.and_eq_true, Bool.not_eq_true', bne_iff_ne] at ha
  simp [next, isBreak, ha.1, ha.2]

/-- Characters of one line are passed one column at a time. -/
theorem advance_of_isInline (h : ∀ a ∈ front, isInline a = true) :
    advance front.length ⟨front ++ rest, index, line, column⟩ =
      ⟨rest, index + front.length, line, column + front.length⟩ := by
  induction front generalizing index column with
  | nil => rfl
  | cons a front ih =>
      rw [List.length_cons, advance, List.cons_append, next_of_isInline (h a (by simp)),
        ih fun b hb => h b (List.mem_cons_of_mem _ hb)]
      simp only [mk.injEq, true_and]
      omega

theorem lineBreak?_of_isInline (ha : isInline a = true) :
    lineBreak? ⟨a :: rest, index, line, column⟩ = none := by
  simp only [isInline, isBreakOrEnd, Bool.and_eq_true, Bool.not_eq_true', Bool.or_eq_false_iff,
    beq_eq_false_iff_ne] at ha
  simp [lineBreak?, isBreak, isBreakOrEnd, ha]

/-- A word is read to its end if what stands behind it ends a word. -/
theorem plainWord_append {w back : List Char} (hw : ∀ a ∈ w, (Code.char a).isWord = true)
    (hback : plainWord false back = []) : plainWord false (w ++ back) = w := by
  induction w with
  | nil => exact hback
  | cons a w ih =>
      have ha := hw a (by simp)
      simp [plainWord, isSeparator_of_isWord ha, ne_of_isWord ha (b := ':') (by decide),
        ih fun b hb => hw b (List.mem_cons_of_mem _ hb)]

theorem plainGap_of_isInline (ha : isInline a = true) (hspace : a ≠ ' ') :
    plainGap ⟨a :: rest, index, line, column⟩ = ([], false, ⟨a :: rest, index, line, column⟩) := by
  simp [plainGap, run, hspace, advance, lineBreak?_of_isInline ha]

theorem plainGap_space (ha : isInline a = true) (hspace : a ≠ ' ') :
    plainGap ⟨' ' :: a :: rest, index, line, column⟩ =
      ([' '], false, ⟨a :: rest, index + 1, line, column + 1⟩) := by
  have hnext : next ⟨' ' :: a :: rest, index, line, column⟩ =
      ⟨a :: rest, index + 1, line, column + 1⟩ := next_of_isInline (by decide)
  simp [plainGap, run, hspace, advance, hnext, lineBreak?_of_isInline ha]

/-- A line feed before a letter is a gap that ends a line. -/
theorem plainGap_lineFeed (ha : a.isAlpha = true) :
    plainGap ⟨'\n' :: a :: rest, index, line, column⟩ =
      ([' '], true, ⟨a :: rest, index + 1, line + 1, 0⟩) := by
  have hinline := isInline_of_isAsciiWord (isAsciiWord_of_isAlpha ha)
  have hnext : next ⟨'\n' :: a :: rest, index, line, column⟩ =
      ⟨a :: rest, index + 1, line + 1, 0⟩ := by
    simp [next, isBreak, isBreakOrEnd, endMark]
  have hbreak : lineBreak? ⟨'\n' :: a :: rest, index, line, column⟩ =
      some ('\n', ⟨a :: rest, index + 1, line + 1, 0⟩) := by
    rw [← hnext]
    simp [lineBreak?, isBreak, isBreakOrEnd, endMark]
  have hmark : isAtDocumentMark ⟨a :: rest, index + 1, line + 1, 0⟩ = false := by
    simp [isAtDocumentMark, isAtRule, peek, ne_of_isAlpha ha (b := '-') (by decide),
      ne_of_isAlpha ha (b := '.') (by decide)]
  simp [plainGap, run, advance, hbreak, hmark, plainBreaks, head, lineBreak?_of_isInline hinline,
    foldBreaks, ne_of_isAlpha ha (b := ' ') (by decide)]

/-- One word is read, and the gap behind it decides whether the scalar goes on. -/
theorem plainWords_append {indent : Int} {w back next : List Char} {ended : Bool} {after : Cursor}
    (hne : w ≠ []) (hw : ∀ a ∈ w, (Code.char a).isWord = true) (hback : plainWord false back = [])
    (hgap : plainGap ⟨back, index + w.length, line, column + w.length⟩ = (next, ended, after))
    (fuel : Nat) (gap : List Char) (crossed : Bool) :
    plainWords false indent (fuel + 1) gap crossed ⟨w ++ back, index, line, column⟩ =
      if next.isEmpty || after.head == '#' || decide (after.column ≤ indent) then
        (gap ++ w, ended, after)
      else
        let (text, crossed, c) := plainWords false indent fuel next ended after
        (gap ++ w ++ text, crossed, c) := by
  have hhead : (head ⟨w ++ back, index, line, column⟩ == '#') = false := by
    obtain ⟨a, tail, rfl⟩ := List.exists_cons_of_ne_nil hne
    simp [head, ne_of_isWord (hw a (by simp)) (b := '#') (by decide)]
  have hadvance : advance w.length ⟨w ++ back, index, line, column⟩ =
      ⟨back, index + w.length, line, column + w.length⟩ :=
    advance_of_isInline fun a ha => isInline_of_isWord (hw a ha)
  rw [plainWords, plainWord_append hw hback, hadvance, hgap]
  simp [hhead, hne]

/-- A word before a colon is read as one plain scalar. -/
theorem plainScalar_word (indent : Int) (index line column : Nat) {w back : List Char}
    (hne : w ≠ []) (hw : ∀ a ∈ w, (Code.char a).isWord = true)
    (hback : isSeparator (back.headD endMark) = true) :
    plainScalar false indent ⟨w ++ ':' :: back, index, line, column⟩ =
      (.scalar (Text.ofChars w) true, false,
        ⟨':' :: back, index + w.length, line, column + w.length⟩) := by
  have hcolon : plainWord false (':' :: back) = [] := by
    rw [plainWord, endsPlainKey, hback]
    rfl
  have hgap : plainGap ⟨':' :: back, index + w.length, line, column + w.length⟩ =
      ([], false, ⟨':' :: back, index + w.length, line, column + w.length⟩) :=
    plainGap_of_isInline (by decide) (by decide)
  rw [plainScalar, plainWords_append hne hw hcolon hgap]
  rfl

/-- Words are read as one plain scalar if a word ends behind them and the gap there ends the
scalar. -/
theorem plainWords_spaced {indent : Int} {words : List (List Char)} {back next : List Char}
    {ended : Bool} {after : Cursor} (hne : words ≠ [])
    (hw : ∀ w ∈ words, w ≠ [] ∧ ∀ a ∈ w, isAsciiWord a = true)
    (hback : plainWord false back = []) (hindent : indent ≤ column)
    (hgap : plainGap ⟨back, index + (spaced words).length, line,
      column + (spaced words).length⟩ = (next, ended, after))
    (hstop : (next.isEmpty || after.head == '#' || decide (after.column ≤ indent)) = true)
    {fuel : Nat} (hfuel : words.length ≤ fuel) (gap : List Char) (crossed : Bool) :
    plainWords false indent fuel gap crossed ⟨spaced words ++ back, index, line, column⟩ =
      (gap ++ spaced words, ended, after) := by
  induction words generalizing index column fuel gap crossed with
  | nil => exact absurd rfl hne
  | cons w words ih =>
      obtain ⟨hwne, hascii⟩ := hw w (by simp)
      have hwchars (a) (ha : a ∈ w) := isWord_of_isAsciiWord (hascii a ha)
      obtain ⟨fuel, rfl⟩ : ∃ n, fuel = n + 1 := ⟨fuel - 1, by simp at hfuel; omega⟩
      cases words with
      | nil => rw [spaced, plainWords_append hwne hwchars hback hgap, if_pos hstop]
      | cons following rest =>
          obtain ⟨hfollowing, hchars⟩ := hw following (by simp)
          obtain ⟨a, tail, hmem, hspaced⟩ := exists_spaced_eq_cons hfollowing rest
          have ha := hchars a hmem
          have hspace : plainGap ⟨' ' :: (spaced (following :: rest) ++ back),
              index + w.length, line, column + w.length⟩ = ([' '], false,
                ⟨spaced (following :: rest) ++ back, index + w.length + 1, line,
                  column + w.length + 1⟩) := by
            rw [hspaced]
            exact plainGap_space (isInline_of_isAsciiWord ha) (ne_of_isAsciiWord ha (by decide))
          have hgoes : ([' '].isEmpty ||
              head ⟨spaced (following :: rest) ++ back, index + w.length + 1, line,
                column + w.length + 1⟩ == '#' ||
              decide (((column + w.length + 1 : Nat) : Int) ≤ indent)) = false := by
            rw [hspaced]
            simp [head, ne_of_isAsciiWord ha (b := '#') (by decide)]
            omega
          have hgap' : plainGap ⟨back, index + w.length + 1 + (spaced (following :: rest)).length,
              line, column + w.length + 1 + (spaced (following :: rest)).length⟩ =
                (next, ended, after) := by
            simpa [spaced, Nat.add_assoc, Nat.add_comm 1] using hgap
          have hrest := ih (by simp) (fun v hv => hw v (List.mem_cons_of_mem _ hv)) (by omega) hgap'
            (by simpa using hfuel) [' '] false
          rw [spaced, List.append_assoc, List.cons_append,
            plainWords_append hwne hwchars rfl hspace, hgoes, hrest]
          simp

theorem plainScalar_spaced {indent : Int} {words : List (List Char)} {back next : List Char}
    {ended : Bool} {after : Cursor} (hne : words ≠ [])
    (hw : ∀ w ∈ words, w ≠ [] ∧ ∀ a ∈ w, isAsciiWord a = true)
    (hback : plainWord false back = []) (hindent : indent ≤ column)
    (hgap : plainGap ⟨back, index + (spaced words).length, line,
      column + (spaced words).length⟩ = (next, ended, after))
    (hstop : (next.isEmpty || after.head == '#' || decide (after.column ≤ indent)) = true) :
    plainScalar false indent ⟨spaced words ++ back, index, line, column⟩ =
      (.scalar (Text.ofChars (spaced words)) true, ended, after) := by
  have hfuel : words.length ≤ (spaced words ++ back).length + 1 := by
    have := length_le_length_spaced words
    rw [List.length_append]
    omega
  rw [plainScalar, plainWords_spaced hne hw hback hindent hgap hstop hfuel]
  rfl

end Cursor

end FrontLint.Yaml
