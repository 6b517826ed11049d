import FrontLint.Proofs.Text.Utf8
import FrontLint.Proofs.Yaml.Reading
import Mathlib.Data.List.TakeWhile

/-!
# Line ends

A line ends in a line feed, in a carriage return or in both. Two cursors are alike if what
follows them differs in the spelling of line ends only and they stand on the same line and
column: then they look at the same character, but for a carriage return in place of a line feed,
and move on alike. In texts without block scalars one of them may also have a line feed more at
its end, where the other one finds the end mark.
-/

namespace FrontLint.Yaml

theorem isBreak_eq_false_iff {a : Char} :
    isBreak a = false ↔ a ≠ '\r' ∧ a ≠ '\n' ∧ a ≠ '\x85' ∧ a ≠ '\u2028' ∧ a ≠ '\u2029' := by
  by_cases h : a = endMark
  · subst h
    decide
  · simp [isBreak, isBreakOrEnd, h, and_assoc]

/-- The characters that end lines. -/
theorem cases_of_isBreak {a : Char} (h : isBreak a = true) :
    a = '\r' ∨ a = '\n' ∨ a = '\x85' ∨ a = '\u2028' ∨ a = '\u2029' := by
  by_contra hne
  simp only [not_or] at hne
  rw [isBreak_eq_false_iff.2 hne] at h
  cases h

theorem isHexDigit_eq_false (a : Char) (h : isBreak a = true) : isHexDigit a = false := by
  rcases cases_of_isBreak h with rfl | rfl | rfl | rfl | rfl <;> decide

theorem not_isBreak_of_isHexDigit {a : Char} (h : isHexDigit a = true) : isBreak a = false := by
  cases hb : isBreak a with
  | false => rfl
  | true =>
      rw [isHexDigit_eq_false a hb] at h
      cases h

theorem isBreakOrEnd_of_isBreak {a : Char} (ha : isBreak a = true) : isBreakOrEnd a = true := by
  rw [isBreak, Bool.and_eq_true] at ha
  exact ha.1

/-- The same text from a line on, with other spellings of line ends. The lines before each line
are longer in the second text by `surplus` characters. If `extra` holds, the second text may have
a line feed more at its end, and no character begins a block scalar. -/
inductive Respelled (extra : Bool) (surplus : Nat → Nat) : Nat → List Char → List Char → Prop
  | nil {line} : Respelled extra surplus line [] []
  | last {line} (hextra : extra = true) : Respelled extra surplus line [] ['\n']
  | char {line a r r'} (ha : isBreak a = false) (hmark : extra = true → a ≠ '|' ∧ a ≠ '>')
      (tail : Respelled extra surplus line r r') : Respelled extra surplus line (a :: r) (a :: r')
  | same {line a r r'} (ha : isBreak a = true) (hne : a ≠ '\r')
      (hs : surplus (line + 1) = surplus line) (tail : Respelled extra surplus (line + 1) r r') :
      Respelled extra surplus line (a :: r) (a :: r')
  | carriageReturn {line r r'} (hnext : r'.headD endMark ≠ '\n')
      (hs : surplus (line + 1) = surplus line) (tail : Respelled extra surplus (line + 1) r r') :
      Respelled extra surplus line ('\n' :: r) ('\r' :: r')
  | both {line r r'} (hs : surplus (line + 1) = surplus line + 1)
      (tail : Respelled extra surplus (line + 1) r r') :
      Respelled extra surplus line ('\n' :: r) ('\r' :: '\n' :: r')

namespace Respelled

variable {extra : Bool} {surplus surplus' : Nat → Nat} {line : Nat} {r r' : List Char}

theorem congr (h : Respelled extra surplus line r r')
    (hs : ∀ n, line ≤ n → surplus' n = surplus n) : Respelled extra surplus' line r r' := by
  induction h with
  | nil => exact .nil
  | last hextra => exact .last hextra
  | char ha hmark _ ih => exact .char ha hmark (ih hs)
  | same ha hne hstep _ ih =>
      refine .same ha hne ?_ (ih fun n hn => hs n (by omega))
      rw [hs _ (by omega), hs _ (by omega), hstep]
  | carriageReturn hnext hstep _ ih =>
      refine .carriageReturn hnext ?_ (ih fun n hn => hs n (by omega))
      rw [hs _ (by omega), hs _ (by omega), hstep]
  | both hstep _ ih =>
      refine .both ?_ (ih fun n hn => hs n (by omega))
      rw [hs _ (by omega), hs _ (by omega), hstep]

/-- Every text is another spelling of the one in which all line ends are line feeds. -/
theorem exists_unifyLineEnds (r : List Char) (line start : Nat) :
    ∃ surplus, surplus line = start ∧ Respelled false surplus line (unifyLineEnds r) r := by
  -- what is known of the lines behind does not depend on the surplus before this one
  have hbefore {line next : Nat} {r r' : List Char} (start : Nat)
      (h : ∃ surplus, surplus (line + 1) = next ∧ Respelled false surplus (line + 1) r r') :
      ∃ surplus, surplus line = start ∧ surplus (line + 1) = next ∧
        Respelled false surplus (line + 1) r r' := by
    obtain ⟨surplus, hnext, htail⟩ := h
    refine ⟨Function.update surplus line start, by simp, by simp [hnext], htail.congr ?_⟩
    intro n hn
    rw [Function.update_of_ne (by omega)]
  fun_induction unifyLineEnds r generalizing line start with
  | case1 => exact ⟨fun _ => start, rfl, .nil⟩
  | case2 rest ih =>
      obtain ⟨surplus, hstart, hnext, htail⟩ := hbefore start (ih (line + 1) (start + 1))
      exact ⟨surplus, hstart, .both (hnext.trans (by rw [hstart])) htail⟩
  | case3 c rest hnot ih =>
      by_cases hc : c = '\r'
      · subst hc
        rw [if_pos rfl]
        obtain ⟨surplus, hstart, hnext, htail⟩ := hbefore start (ih (line + 1) start)
        refine ⟨surplus, hstart, .carriageReturn ?_ (hnext.trans hstart.symm) htail⟩
        intro hhead
        cases rest with
        | nil => simp [endMark] at hhead
        | cons a rest => exact hnot rest rfl (congrArg (· :: rest) hhead)
      · rw [if_neg hc]
        cases hbreak : isBreak c with
        | false =>
            obtain ⟨surplus, hstart, htail⟩ := ih line start
            exact ⟨surplus, hstart, .char hbreak (fun heq => absurd heq Bool.false_ne_true) htail⟩
        | true =>
            obtain ⟨surplus, hstart, hnext, htail⟩ := hbefore start (ih (line + 1) start)
            exact ⟨surplus, hstart, .same hbreak hc (hnext.trans hstart.symm) htail⟩

/-- A text and the one with a line feed more. -/
theorem append_lineFeed (hr : ∀ a ∈ r, a ≠ '\r' ∧ a ≠ '|' ∧ a ≠ '>') (line : Nat) :
    Respelled true (fun _ => 0) line r (r ++ ['\n']) := by
  induction r generalizing line with
  | nil => exact .last rfl
  | cons a r ih =>
      rw [List.forall_mem_cons] at hr
      cases ha : isBreak a with
      | false => exact .char ha (fun _ => hr.1.2) (ih hr.2 line)
      | true => exact .same ha hr.1.1 rfl (ih hr.2 (line + 1))

theorem length_le (h : Respelled extra surplus line r r') : r.length ≤ r'.length := by
  induction h with
  | nil => exact Nat.le_refl _
  | last => exact Nat.zero_le _
  | char _ _ _ ih => exact Nat.succ_le_succ ih
  | same _ _ _ _ ih => exact Nat.succ_le_succ ih
  | carriageReturn _ _ _ ih => exact Nat.succ_le_succ ih
  | both _ _ ih => exact Nat.succ_le_succ (ih.trans (Nat.le_succ _))

/-- A test of the next character that tells neither the line ends nor, if they may
differ there, the end apart. -/
theorem apply_headD (h : Respelled extra surplus line r r') {α : Type} {p : Char → α}
    (hreturn : p '\n' = p '\r') (hend : extra = true → p '\n' = p endMark) :
    p (r.headD endMark) = p (r'.headD endMark) := by
  cases h with
  | nil => rfl
  | last hextra => exact (hend hextra).symm
  | char => rfl
  | same => rfl
  | carriageReturn => exact hreturn
  | both => exact hreturn

theorem headD_eq (h : Respelled extra surplus line r r')
    (ha : isBreak (r'.headD endMark) = false) : r.headD endMark = r'.headD endMark := by
  cases h with
  | nil => rfl
  | last => exact absurd ha (by decide)
  | char => rfl
  | same => rfl
  | carriageReturn => exact absurd ha (by simp [isBreak, isBreakOrEnd, endMark])
  | both => exact absurd ha (by simp [isBreak, isBreakOrEnd, endMark])

/-- A run that stops at line ends. -/
theorem takeWhile_eq (h : Respelled extra surplus line r r') {p : Char → Bool}
    (hp : ∀ a, isBreak a = true → p a = false) : r.takeWhile p = r'.takeWhile p := by
  induction h with
  | nil => rfl
  | last => simp [hp '\n' (by decide)]
  | char _ _ _ ih => simp only [List.takeWhile_cons, ih]
  | same ha _ _ _ _ => simp [hp _ ha]
  | carriageReturn => simp [hp '\n' (by decide), hp '\r' (by decide)]
  | both => simp [hp '\n' (by decide), hp '\r' (by decide)]

end Respelled

namespace Cursor

/-- Cursors that stand at the same place in two texts, of which the second one may have other
spellings of line ends. -/
structure Alike (extra : Bool) (surplus : Nat → Nat) (c c' : Cursor) : Prop where
  respelled : Respelled extra surplus c.line c.rest c'.rest
  index_eq : c'.index = c.index + surplus c.line
  line_eq : c'.line = c.line
  column_eq : c'.column = c.column
  line_le : c.line ≤ c.index
  surplus_zero : surplus 0 = 0

/-- The second cursor has passed the line feed that the first text has not. -/
def AtEnd (extra : Bool) (c c' : Cursor) : Prop := extra = true ∧ c.rest = [] ∧ c'.rest = []

variable {extra : Bool} {surplus : Nat → Nat} {c c' : Cursor}

theorem exists_alike_start (cs : List Char) :
    ∃ surplus, Alike false surplus (start (unifyLineEnds cs)) (start cs) := by
  obtain ⟨surplus, hstart, h⟩ := Respelled.exists_unifyLineEnds cs 0 0
  exact ⟨surplus, h, by simp [start, hstart], rfl, rfl, Nat.le_refl _, hstart⟩

theorem alike_start_append {cs : List Char} (h : ∀ a ∈ cs, a ≠ '\r' ∧ a ≠ '|' ∧ a ≠ '>') :
    Alike true (fun _ => 0) (start cs) (start (cs ++ ['\n'])) :=
  ⟨Respelled.append_lineFeed h 0, rfl, rfl, rfl, Nat.le_refl _, rfl⟩

theorem peek_eq_head_advance (c : Cursor) (n : Nat) : c.peek n = (advance n c).head := by
  rw [peek, head, rest_advance, List.headD_eq_head?_getD, List.head?_drop,
    List.getD_eq_getElem?_getD]

theorem peek_succ (c : Cursor) (n : Nat) : c.peek (n + 1) = (advance n c.next).head :=
  peek_eq_head_advance c (n + 1)

theorem advance_succ (n : Nat) (c : Cursor) : advance (n + 1) c = (advance n c).next := by
  induction n generalizing c with
  | zero => rfl
  | succ n ih => rw [advance, ih, advance]

theorem next_of_not_isBreak {a : Char} {rest : List Char} (hc : c.rest = a :: rest)
    (ha : isBreak a = false) :
    c.next = ⟨rest, c.index + 1, c.line, if a == '\uFEFF' then c.column else c.column + 1⟩ := by
  rw [next, hc]
  simp [ha]

theorem next_of_isBreak {a : Char} {rest : List Char} (hc : c.rest = a :: rest)
    (ha : isBreak a = true) (hpair : ¬ (a = '\r' ∧ rest.headD endMark = '\n')) :
    c.next = ⟨rest, c.index + 1, c.line + 1, 0⟩ := by
  rw [next, hc]
  have hpair : (a == '\r' && rest.headD endMark == '\n') = false := by
    rw [Bool.and_eq_false_iff, beq_eq_false_iff_ne, beq_eq_false_iff_ne]
    exact not_and_or.1 hpair
  simp only [ha, hpair, Bool.not_false, Bool.and_self, if_true]

theorem next_next_of_pair {rest : List Char} (hc : c.rest = '\r' :: '\n' :: rest) :
    c.next.next = ⟨rest, c.index + 2, c.line + 1, 0⟩ := by
  have hnext : c.next = ⟨'\n' :: rest, c.index + 1, c.line, c.column + 1⟩ := by
    rw [next, hc]
    simp [isBreak, isBreakOrEnd, endMark]
  rw [hnext, next_of_isBreak rfl (by decide) (by simp)]

namespace Alike

theorem length_le (h : Alike extra surplus c c') : c.rest.length ≤ c'.rest.length :=
  h.respelled.length_le

/-- A test of the next character that tells neither the line ends nor, if they may
differ there, the end apart. -/
theorem apply_head (h : Alike extra surplus c c') {α : Type} {p : Char → α}
    (hreturn : p '\n' = p '\r') (hend : extra = true → p '\n' = p endMark) :
    p c.head = p c'.head := h.respelled.apply_headD hreturn hend

theorem head_beq (h : Alike extra surplus c c') {a : Char} (ha : isBreakOrEnd a = false) :
    (c.head == a) = (c'.head == a) := by
  have hne {b : Char} (hb : isBreakOrEnd b = true) : (b == a) = false := by
    rw [beq_eq_false_iff_ne]
    rintro rfl
    simp [hb] at ha
  refine h.apply_head (p := (· == a)) ?_ fun _ => ?_
  · rw [hne (by decide), hne (by decide)]
  · rw [hne (by decide), hne (by decide)]

theorem head_eq (h : Alike extra surplus c c') (ha : isBreak c'.head = false) :
    c.head = c'.head := h.respelled.headD_eq ha

theorem next (h : Alike extra surplus c c') (ha : isBreak c'.head = false) :
    Alike extra surplus c.next c'.next := by
  obtain ⟨hr, hindex, hline, hcolumn, hle, hzero⟩ := h
  generalize hc : c.rest = r at hr
  generalize hc' : c'.rest = r' at hr
  rw [head, hc'] at ha
  cases hr with
  | nil =>
      have hn : c.next = c := by rw [Cursor.next, hc]
      have hn' : c'.next = c' := by rw [Cursor.next, hc']
      rw [hn, hn']
      exact ⟨by rw [hc, hc']; exact .nil, hindex, hline, hcolumn, hle, hzero⟩
  | last => exact absurd ha (by decide)
  | char ha _ tail =>
      rw [next_of_not_isBreak hc ha, next_of_not_isBreak hc' ha]
      exact ⟨tail, by simp only [hindex]; omega, hline, by rw [hcolumn], by dsimp only; omega,
        hzero⟩
  | same ha' => simp [ha'] at ha
  | carriageReturn => exact absurd ha (by simp [isBreak, isBreakOrEnd, endMark])
  | both => exact absurd ha (by simp [isBreak, isBreakOrEnd, endMark])

theorem advance (h : Alike extra surplus c c') {n : Nat}
    (hn : ∀ a ∈ c'.rest.take n, isBreak a = false) :
    Alike extra surplus (advance n c) (advance n c') := by
  induction n generalizing c c' with
  | zero => exact h
  | succ n ih =>
      rw [Cursor.advance, Cursor.advance]
      cases hrest : c'.rest with
      | nil =>
          refine ih (h.next (by rw [head, hrest]; decide)) ?_
          simp [hrest]
      | cons a rest =>
          rw [hrest, List.take_succ_cons] at hn
          refine ih (h.next (by rw [head, hrest]; exact hn a List.mem_cons_self)) ?_
          rw [rest_next, hrest, List.tail_cons]
          exact fun b hb => hn b (List.mem_cons_of_mem a hb)

/-- A run that stops at line ends. -/
theorem run_eq (h : Alike extra surplus c c') {p : Char → Bool}
    (hp : ∀ a, isBreak a = true → p a = false) : c.run p = c'.run p := h.respelled.takeWhile_eq hp

theorem advance_run (h : Alike extra surplus c c') {p : Char → Bool}
    (hp : ∀ a, isBreak a = true → p a = false) :
    Alike extra surplus (Cursor.advance (c.run p).length c)
      (Cursor.advance (c'.run p).length c') := by
  rw [h.run_eq hp]
  refine h.advance fun a ha => ?_
  have htake : c'.rest.take (c'.run p).length = c'.run p :=
    List.prefix_iff_eq_take.1 (List.takeWhile_prefix p) |>.symm
  rw [htake] at ha
  cases hb : isBreak a with
  | false => rfl
  | true => simpa [hp a hb] using List.mem_takeWhile_imp ha

theorem skip (h : Alike extra surplus c c') {p : Char → Bool}
    (hp : ∀ a, isBreak a = true → p a = false) : Alike extra surplus (c.skip p) (c'.skip p) :=
  h.advance_run hp

theorem skipSpaces (h : Alike extra surplus c c') :
    Alike extra surplus c.skipSpaces c'.skipSpaces :=
  h.skip fun a ha => by
    rw [beq_eq_false_iff_ne]
    rintro rfl
    exact absurd ha (by decide)

theorem skipComment (h : Alike extra surplus c c') :
    Alike extra surplus c.skipComment c'.skipComment := by
  rw [Cursor.skipComment, Cursor.skipComment, h.head_beq (by decide)]
  split
  · exact h.skip fun a ha => by simp [isBreakOrEnd_of_isBreak ha]
  · exact h

/-- Where a line ends, it ends in both texts and both breaks are kept in the same form, or it is
the line feed at the end of the second one. -/
theorem lineBreak?_cases (h : Alike extra surplus c c') :
    c.lineBreak? = none ∧ c'.lineBreak? = none ∨
      (∃ b d d', c.lineBreak? = some (b, d) ∧ c'.lineBreak? = some (b, d') ∧
        Alike extra surplus d d') ∨
      c.lineBreak? = none ∧ ∃ d', c'.lineBreak? = some ('\n', d') ∧ AtEnd extra c d' := by
  obtain ⟨hr, hindex, hline, -, hle, hzero⟩ := h
  generalize hc : c.rest = r at hr
  generalize hc' : c'.rest = r' at hr
  cases hr with
  | nil => exact .inl ⟨by rw [lineBreak?, hc], by rw [lineBreak?, hc']⟩
  | last hextra =>
      refine .inr (.inr ⟨by rw [lineBreak?, hc], c'.next, ?_, hextra, hc, ?_⟩)
      · rw [lineBreak?, hc']
        rfl
      · rw [rest_next, hc', List.tail_cons]
  | @char _ a r r' ha _ tail =>
      have hne := isBreak_eq_false_iff.1 ha
      left
      constructor
      · rw [lineBreak?, hc]
        simp [ha, hne]
      · rw [lineBreak?, hc']
        simp [ha, hne]
  | @same _ a r r' ha hne hs tail =>
      refine .inr (.inl ?_)
      have hsame : Alike extra surplus c.next c'.next := by
        rw [next_of_isBreak hc ha (fun h => hne h.1), next_of_isBreak hc' ha (fun h => hne h.1)]
        exact ⟨tail, by simp only [hindex, hs]; omega, by simp only [hline], rfl,
          Nat.succ_le_succ hle, hzero⟩
      rw [lineBreak?, lineBreak?, hc, hc']
      by_cases hkept : (a == '\u2028' || a == '\u2029') = true
      · refine ⟨a, c.next, c'.next, ?_, ?_, hsame⟩ <;> simp [hne, hkept]
      · refine ⟨'\n', c.next, c'.next, ?_, ?_, hsame⟩ <;> simp [hne, hkept, ha]
  | @carriageReturn _ r r' hnext hs tail =>
      refine .inr (.inl ?_)
      have hbreak : isBreak '\r' = true := by decide
      refine ⟨'\n', c.next, c'.next, ?_, ?_, ?_⟩
      · rw [lineBreak?, hc]
        simp [show isBreak '\n' = true by decide]
      · rw [lineBreak?, hc']
        split
        · rename_i heq
          cases heq
          exact absurd rfl hnext
        · rename_i heq
          cases heq
          simp [hbreak]
        · rename_i heq
          cases heq
      · rw [next_of_isBreak hc (by decide) (by simp),
          next_of_isBreak hc' hbreak (by simpa using hnext)]
        exact ⟨tail, by simp only [hindex, hs]; omega, by simp only [hline], rfl,
          Nat.succ_le_succ hle, hzero⟩
  | @both _ r r' hs tail =>
      refine .inr (.inl ?_)
      refine ⟨'\n', c.next, Cursor.advance 2 c', ?_, ?_, ?_⟩
      · rw [lineBreak?, hc]
        simp [show isBreak '\n' = true by decide]
      · rw [lineBreak?, hc']
        rfl
      · rw [next_of_isBreak hc (by decide) (by simp), Cursor.advance, Cursor.advance,
          Cursor.advance, next_next_of_pair hc']
        exact ⟨tail, by simp only [hindex, hs]; omega, by simp only [hline], rfl,
          Nat.succ_le_succ hle, hzero⟩

theorem not_isBreak_of_lineBreak? {c : Cursor} (h : c.lineBreak? = none) :
    isBreak c.head = false := by
  rw [lineBreak?] at h
  cases hrest : c.rest with
  | nil =>
      rw [head, hrest, List.headD_nil]
      decide
  | cons a rest =>
      rw [hrest] at h
      rw [head, hrest, List.headD_cons]
      cases ha : isBreak a with
      | false => rfl
      | true =>
          split at h
          · cases h
          · rename_i heq
            cases heq
            split at h
            · cases h
            · simp at h
          · rename_i heq
            cases heq

/-- No block scalar begins in texts of which the second one may have a line feed more. -/
theorem extra_eq_false (h : Alike extra surplus c c') (ha : c'.head = '|' ∨ c'.head = '>') :
    extra = false := by
  have hr := h.respelled
  rw [head] at ha
  generalize c.rest = r at hr
  generalize c'.rest = r' at hr ha
  cases hr with
  | nil => simp [endMark] at ha
  | last => simp at ha
  | char _ hmark _ =>
      cases extra with
      | false => rfl
      | true => exact absurd ha (not_or.2 (hmark rfl))
  | same hbreak =>
      rcases ha with rfl | rfl
      · exact absurd hbreak (by decide)
      · exact absurd hbreak (by decide)
  | carriageReturn => simp at ha
  | both => simp at ha

/-- A test of a character and then of what follows it. -/
theorem head_and (h : Alike extra surplus c c') {a : Char} (ha : isBreakOrEnd a = false)
    {p : Cursor → Bool} (hp : ∀ d d', Alike extra surplus d d' → p d = p d') :
    (c.head == a && p c.next) = (c'.head == a && p c'.next) := by
  rw [h.head_beq ha]
  cases hhead : c'.head == a with
  | false => rfl
  | true =>
      rw [hp _ _ (h.next (by rw [beq_iff_eq.1 hhead, isBreak, ha, Bool.false_and]))]

theorem isAtRule_eq (h : Alike extra surplus c c') {a : Char} (ha : isBreakOrEnd a = false) :
    c.isAtRule a = c'.isAtRule a := by
  simp only [isAtRule, peek_eq_head_advance, Cursor.advance, Bool.and_assoc]
  refine h.head_and
    (p := fun d => d.head == a && (d.next.head == a && isSeparator d.next.next.head)) ha
    fun d d' hd => ?_
  refine hd.head_and (p := fun d => d.head == a && isSeparator d.next.head) ha fun d d' hd => ?_
  refine hd.head_and (p := fun d => isSeparator d.head) ha fun d d' hd => ?_
  exact hd.apply_head (by decide) fun _ => by decide

theorem isAtDocumentMark_eq (h : Alike extra surplus c c') :
    c.isAtDocumentMark = c'.isAtDocumentMark := by
  rw [isAtDocumentMark, isAtDocumentMark, h.isAtRule_eq (by decide), h.isAtRule_eq (by decide)]

end Alike

end Cursor

end FrontLint.Yaml
