import FrontLint.Proofs.Yaml.AlikeReading

/-!
# Flow scalars and line ends

Quoted and plain scalars are folded alike whichever way their line ends are spelled.
-/

namespace FrontLint.Yaml

theorem length_take_and_all_iff {α : Type} {p : α → Bool} {r : List α} {n : Nat} :
    ((r.take n).length = n ∧ (r.take n).all p = true) ↔ n ≤ (r.takeWhile p).length := by
  induction r generalizing n with
  | nil => cases n <;> simp
  | cons a r ih =>
      cases n with
      | zero => simp
      | succ n =>
          cases ha : p a with
          | false => simp [ha]
          | true => simpa [ha] using ih

theorem take_eq_take_takeWhile {α : Type} {p : α → Bool} {r : List α} {n : Nat}
    (h : n ≤ (r.takeWhile p).length) : r.take n = (r.takeWhile p).take n := by
  conv_lhs => rw [← List.takeWhile_append_dropWhile (p := p) (l := r)]
  exact List.take_append_of_le_length h

theorem isSeparator_of_isBreak {a : Char} (h : isBreak a = true) : isSeparator a = true := by
  rw [isSeparator, isSpaceOrBreak, isBreakOrEnd_of_isBreak h, Bool.or_true, Bool.or_true]

theorem Respelled.plainWord_eq {extra : Bool} {surplus : Nat → Nat} {line : Nat}
    {r r' : List Char} (h : Respelled extra surplus line r r') (inFlow : Bool) :
    Cursor.plainWord inFlow r = Cursor.plainWord inFlow r' := by
  induction h with
  | nil => rfl
  | last => rfl
  | char ha _ tail ih =>
      have hhead := tail.apply_headD (p := Cursor.endsPlainKey inFlow)
        (by cases inFlow <;> decide) fun _ => by cases inFlow <;> decide
      rw [Cursor.plainWord, Cursor.plainWord, hhead, ih]
  | same ha _ _ _ _ =>
      rw [Cursor.plainWord, Cursor.plainWord, isSeparator_of_isBreak ha]
      rfl
  | carriageReturn => rfl
  | both => rfl

namespace Cursor

variable {α : Type} {extra : Bool} {surplus : Nat → Nat} {c c' : Cursor}

/-- The same is read up to the same place, or the ends of both texts are reached. -/
def AlongsideOrAtEnd (extra : Bool) (surplus : Nat → Nat) (x x' : α × Cursor) : Prop :=
  Alongside (Alike extra surplus) x x' ∨ AtEnd extra x.2 x'.2

/-! ## At the end -/

section

variable (h : c.rest = [])
include h

theorem lineBreak?_of_rest_nil : c.lineBreak? = none := by rw [lineBreak?, h]

theorem head_of_rest_nil : c.head = endMark := by rw [head, h, List.headD_nil]

theorem run_of_rest_nil (p : Char → Bool) : c.run p = [] := by rw [run, h, List.takeWhile_nil]

theorem isAtDocumentMark_of_rest_nil : c.isAtDocumentMark = false := by
  simp [isAtDocumentMark, isAtRule, peek, h, endMark]

theorem quotedBreaks_of_rest_nil (fuel : Nat) : c.quotedBreaks fuel = .ok ([], c) := by
  cases fuel with
  | zero => rfl
  | succ fuel =>
      simp [quotedBreaks, isAtDocumentMark_of_rest_nil h, skip, run_of_rest_nil h, advance,
        lineBreak?_of_rest_nil h]
      rfl

theorem quotedText_of_rest_nil (double : Bool) (fuel : Nat) :
    c.quotedText double fuel = .error (.misread .quotedScalar) := by
  cases fuel with
  | zero => rfl
  | succ fuel =>
      have hblanks : c.quotedBlanks = .error (.misread .quotedScalar) := by
        simp [quotedBlanks, run_of_rest_nil h, advance, lineBreak?_of_rest_nil h,
          head_of_rest_nil h]
        rfl
      rw [quotedText, head_of_rest_nil h, if_pos (by decide), hblanks]
      rfl

theorem plainBreaks_of_rest_nil (fuel : Nat) : c.plainBreaks fuel = (some [], c) := by
  cases fuel with
  | zero => rfl
  | succ fuel => simp [plainBreaks, head_of_rest_nil h, lineBreak?_of_rest_nil h, endMark]

theorem plainWords_of_rest_nil (inFlow : Bool) (indent : Int) (fuel : Nat) (gap : List Char)
    (crossed : Bool) : c.plainWords inFlow indent fuel gap crossed = ([], crossed, c) := by
  cases fuel with
  | zero => rfl
  | succ fuel => simp [plainWords, h, plainWord]

end

namespace Alike

/-! ## Quoted scalars -/

theorem blank_eq_false (a : Char) (h : isBreak a = true) : (a == ' ' || a == '\t') = false := by
  rw [beq_eq_false (by decide) a h, beq_eq_false (by decide) a h, Bool.or_false]

theorem quotedBreaks (h : Alike extra surplus c c') (fuel : Nat) :
    Agrees extra (AlongsideOrAtEnd extra surplus) (Cursor.quotedBreaks fuel c)
      (Cursor.quotedBreaks fuel c') := by
  induction fuel generalizing c c' with
  | zero => exact .inl ⟨rfl, h⟩
  | succ fuel ih =>
      have hskip := h.skip blank_eq_false
      rw [Cursor.quotedBreaks, Cursor.quotedBreaks]
      dsimp only
      refine agrees_ite h.isAtDocumentMark_eq (fun _ => .inl rfl) fun _ => ?_
      rcases hskip.lineBreak?_cases with
        ⟨hnone, hnone'⟩ | ⟨b, d, d', hsome, hsome', hd⟩ | ⟨hnone, d', hsome', hend⟩
      · rw [hnone, hnone']
        exact .inl ⟨rfl, hskip⟩
      · rw [hsome, hsome']
        exact (ih hd).bind fun x x' hx => hx.imp_left fun hx => ⟨by rw [hx.1], hx.2⟩
      · rw [hnone, hsome']
        dsimp only
        rw [quotedBreaks_of_rest_nil hend.2.2]
        exact .inr hend

/-- With the bounds that are taken from what is ahead. -/
theorem quotedBreaks_of_length (h : Alike extra surplus c c') :
    Agrees extra (AlongsideOrAtEnd extra surplus) (Cursor.quotedBreaks (c.rest.length + 1) c)
      (Cursor.quotedBreaks (c'.rest.length + 1) c') := by
  rw [quotedBreaks_eq_of_lt (m := c'.rest.length + 1) (Nat.lt_succ_self _)
    (Nat.lt_succ_of_le h.length_le)]
  exact h.quotedBreaks _

/-- What reading inside of a quoted scalar ends in. At the end of the first text it may be a fault
where the second one has a line end. -/
def AgreesInside (extra : Bool) (surplus : Nat → Nat) (r r' : Except Fault (Text × Cursor)) :
    Prop :=
  Agrees extra (AlongsideOrAtEnd extra surplus) r r' ∨
    extra = true ∧ (∃ fault, r = .error fault ∧ fault.isOfBlock = true) ∧
      ∃ x', r' = .ok x' ∧ x'.2.rest = []

/-- No line end is escaped by a letter. -/
theorem escapes_eq_none {a : Char} (h : isBreak a = true) :
    escapes.lookup a = none ∧ escapeWidth? a = none := by
  rcases cases_of_isBreak h with rfl | rfl | rfl | rfl | rfl <;> decide

theorem not_isBreak_of_escape {a : Char}
    (h : (∃ b, escapes.lookup a = some b) ∨ ∃ width, escapeWidth? a = some width) :
    isBreak a = false := by
  cases ha : isBreak a with
  | false => rfl
  | true => simp [escapes_eq_none ha] at h

theorem escape (h : Alike extra surplus c c') :
    AgreesInside extra surplus c.escape c'.escape := by
  have hlookup : escapes.lookup c.head = escapes.lookup c'.head :=
    h.apply_head (p := fun a => escapes.lookup a) (by decide) fun _ => by decide
  have hwidth : escapeWidth? c.head = escapeWidth? c'.head :=
    h.apply_head (by decide) fun _ => by decide
  rw [Cursor.escape, Cursor.escape, hlookup, hwidth]
  split
  · rename_i hsome
    exact .inl (.inl ⟨rfl, h.next (not_isBreak_of_escape (.inl ⟨_, hsome⟩))⟩)
  · rename_i width _ hsome
    have hnext := h.next (not_isBreak_of_escape (.inr ⟨_, hsome⟩))
    have hrun := hnext.respelled.takeWhile_eq isHexDigit_eq_false
    left
    dsimp only
    simp only [length_take_and_all_iff, hrun]
    split
    · rename_i hle
      have htake := take_eq_take_takeWhile hle
      have hsame : c.next.rest.take width = c'.next.rest.take width := by
        rw [take_eq_take_takeWhile (hrun ▸ hle), htake, hrun]
      rw [hsame]
      refine (agrees_refl (R := Eq) (fun _ => rfl) _).bind fun code _ hcode => ?_
      refine .inl ⟨by rw [hcode], ?_⟩
      refine hnext.advance fun a ha => ?_
      rw [htake] at ha
      exact not_isBreak_of_isHexDigit (List.mem_takeWhile_imp (List.mem_of_mem_take ha))
    · exact .inl rfl
  · rcases h.lineBreak?_cases with
      ⟨hnone, hnone'⟩ | ⟨b, d, d', hsome, hsome', hd⟩ | ⟨hnone, d', hsome', hend⟩
    · rw [hnone, hnone']
      exact .inl (.inl rfl)
    · rw [hsome, hsome']
      exact .inl (hd.quotedBreaks_of_length.bind fun x x' hx =>
        hx.imp_left fun hx => ⟨by rw [hx.1], hx.2⟩)
    · rw [hnone, hsome']
      dsimp only
      rw [quotedBreaks_of_rest_nil hend.2.2]
      exact .inr ⟨hend.1, ⟨_, rfl, rfl⟩, _, rfl, hend.2.2⟩

theorem quotedBlanks (h : Alike extra surplus c c') :
    AgreesInside extra surplus c.quotedBlanks c'.quotedBlanks := by
  have hblanks := h.advance_run blank_eq_false
  rw [Cursor.quotedBlanks, Cursor.quotedBlanks]
  dsimp only
  rw [h.run_eq blank_eq_false] at hblanks ⊢
  rcases hblanks.lineBreak?_cases with
    ⟨hnone, hnone'⟩ | ⟨b, d, d', hsome, hsome', hd⟩ | ⟨hnone, d', hsome', hend⟩
  · rw [hnone, hnone']
    have hbreak := not_isBreak_of_lineBreak? hnone'
    exact .inl (agrees_ite (by rw [hblanks.head_eq hbreak]) (fun _ => .inl rfl) fun _ =>
      .inl ⟨rfl, hblanks⟩)
  · rw [hsome, hsome']
    exact .inl (hd.quotedBreaks_of_length.bind fun x x' hx =>
      hx.imp_left fun hx => ⟨by rw [hx.1], hx.2⟩)
  · rw [hnone, hsome']
    dsimp only
    rw [quotedBreaks_of_rest_nil hend.2.2, head_of_rest_nil hend.2.1]
    exact .inr ⟨hend.1, ⟨_, rfl, rfl⟩, _, rfl, hend.2.2⟩

theorem isBreak_of_isSeparator_eq_false {a : Char} (h : isSeparator a = false) :
    isBreak a = false := by
  rw [isSeparator, Bool.or_eq_false_iff, isSpaceOrBreak, Bool.or_eq_false_iff] at h
  rw [isBreak, h.2.2, Bool.false_and]

theorem quotedText (h : Alike extra surplus c c') (double : Bool) (fuel : Nat) :
    Agrees extra (Alongside (Alike extra surplus)) (Cursor.quotedText double fuel c)
      (Cursor.quotedText double fuel c') := by
  induction fuel generalizing c c' with
  | zero => exact .inl rfl
  | succ fuel ih =>
      have hrest (x x' : Text × Cursor) (hx : Alongside (Alike extra surplus) x x') :
          Agrees extra (Alongside (Alike extra surplus))
            (Cursor.quotedText double fuel x.2 >>= fun y => pure (x.1 ++ y.1, y.2))
            (Cursor.quotedText double fuel x'.2 >>= fun y => pure (x'.1 ++ y.1, y.2)) :=
        (ih hx.2).bind fun y y' hy => ⟨by rw [hx.1, hy.1], hy.2⟩
      -- at the end of the text the closing quote is missing
      have hinside {r r' : Except Fault (Text × Cursor)} (hr : AgreesInside extra surplus r r') :
          Agrees extra (Alongside (Alike extra surplus))
            (r >>= fun x => Cursor.quotedText double fuel x.2 >>= fun y =>
              pure (x.1 ++ y.1, y.2))
            (r' >>= fun x => Cursor.quotedText double fuel x.2 >>= fun y =>
              pure (x.1 ++ y.1, y.2)) := by
        rcases hr with hr | ⟨hextra, ⟨fault, rfl, hfault⟩, x', rfl, hend⟩
        · refine hr.bind fun x x' hx => ?_
          rcases hx with hx | hend
          · exact hrest x x' hx
          · rw [quotedText_of_rest_nil hend.2.1, quotedText_of_rest_nil hend.2.2]
            exact .inl rfl
        · simp only [bind, Except.bind, quotedText_of_rest_nil hend]
          exact .inr ⟨hextra, hfault, rfl⟩
      have hquote {a : Char} (ha : isBreakOrEnd a = false) : (c.head == a) = (c'.head == a) :=
        h.head_beq ha
      rw [Cursor.quotedText, Cursor.quotedText]
      refine agrees_ite ?_ (fun _ => hinside h.quotedBlanks) fun hhead => ?_
      · exact h.apply_head (by decide) fun _ => by decide
      have hbreak := isBreak_of_isSeparator_eq_false hhead
      have hnext := h.next hbreak
      refine agrees_ite ?_ (fun _ => ⟨rfl, hnext⟩) fun _ => ?_
      · rw [hquote (by decide)]
      refine agrees_ite ?_ (fun _ => hinside hnext.escape) fun _ => ?_
      · rw [hquote (by decide)]
      refine agrees_ite ?_ (fun _ => ?_) fun _ => ?_
      · rw [hquote (by decide)]
      · rw [peek_succ, peek_succ]
        refine agrees_ite ?_ (fun hdouble => ?_) fun _ => ⟨rfl, hnext⟩
        · exact hnext.head_beq (by decide)
        · have hbehind := hnext.next (by
            rw [show c'.next.head = '\x27' from beq_iff_eq.1 hdouble]
            decide)
          exact hrest ([.char '\x27'], c.next.next) ([.char '\x27'], c'.next.next) ⟨rfl, hbehind⟩
      · refine hrest ([.char c.head], c.next) ([.char c'.head], c'.next) ⟨?_, hnext⟩
        rw [h.head_eq hbreak]

theorem quotedScalar (h : Alike extra surplus c c') (ha : isBreak c'.head = false)
    (double : Bool) :
    Agrees extra (Alongside (Alike extra surplus)) (c.quotedScalar double)
      (c'.quotedScalar double) := by
  have hle := (isBehind_next c).length_le
  have hle' := (isBehind_next c').length_le
  have hlength := h.length_le
  rw [Cursor.quotedScalar, Cursor.quotedScalar,
    quotedText_eq_of_lt (n := c.rest.length + 1) (m := c'.rest.length + 1) (by omega) (by omega)]
  exact ((h.next ha).quotedText double _).bind fun x x' hx => ⟨by rw [hx.1], hx.2⟩

/-! ## Plain scalars -/

theorem not_isBreak_of_mem_plainWord {inFlow : Bool} {r : List Char} {a : Char}
    (h : a ∈ plainWord inFlow r) : isBreak a = false :=
  isBreak_of_isSeparator_eq_false (not_isSeparator_of_mem_plainWord h)

theorem plainBreaks (h : Alike extra surplus c c') (fuel : Nat) :
    AlongsideOrAtEnd extra surplus (Cursor.plainBreaks fuel c) (Cursor.plainBreaks fuel c') := by
  induction fuel generalizing c c' with
  | zero => exact .inl ⟨rfl, h⟩
  | succ fuel ih =>
      rw [Cursor.plainBreaks, Cursor.plainBreaks, h.head_beq (by decide)]
      split
      · rename_i hspace
        exact ih (h.next (by rw [beq_iff_eq.1 hspace]; decide))
      · rcases h.lineBreak?_cases with
          ⟨hnone, hnone'⟩ | ⟨b, d, d', hsome, hsome', hd⟩ | ⟨hnone, d', hsome', hend⟩
        · rw [hnone, hnone']
          exact .inl ⟨rfl, h⟩
        · rw [hsome, hsome']
          dsimp only
          rw [hd.isAtDocumentMark_eq]
          split
          · exact .inl ⟨rfl, hd⟩
          · exact (ih hd).imp_left fun hx => ⟨by rw [hx.1], hx.2⟩
        · rw [hnone, hsome']
          dsimp only
          rw [isAtDocumentMark_of_rest_nil hend.2.2, plainBreaks_of_rest_nil hend.2.2]
          exact .inr hend

theorem plainGap (h : Alike extra surplus c c') :
    (∃ gap x x', c.plainGap = (gap, x) ∧ c'.plainGap = (gap, x') ∧
        Alongside (Alike extra surplus) x x') ∨
      AtEnd extra c.plainGap.2.2 c'.plainGap.2.2 := by
  have hspace := beq_eq_false (b := ' ') (by decide)
  have hblanks := h.advance_run hspace
  rw [Cursor.plainGap, Cursor.plainGap]
  rw [h.run_eq hspace] at hblanks ⊢
  rcases hblanks.lineBreak?_cases with
    ⟨hnone, hnone'⟩ | ⟨b, d, d', hsome, hsome', hd⟩ | ⟨hnone, d', hsome', hend⟩
  · rw [hnone, hnone']
    exact .inl ⟨_, (false, _), (false, _), rfl, rfl, rfl, hblanks⟩
  · rw [hsome, hsome']
    dsimp only
    rw [hd.isAtDocumentMark_eq]
    split
    · exact .inl ⟨[], (true, d), (true, d'), rfl, rfl, rfl, hd⟩
    · have hbreaks := hd.plainBreaks (d'.rest.length + 1)
      rw [← plainBreaks_eq_of_lt (n := d.rest.length + 1) (Nat.lt_succ_self _)
        (Nat.lt_succ_of_le hd.length_le)] at hbreaks
      generalize Cursor.plainBreaks _ d = x at hbreaks ⊢
      generalize Cursor.plainBreaks _ d' = x' at hbreaks ⊢
      obtain ⟨breaks, e⟩ := x
      obtain ⟨breaks', e'⟩ := x'
      rcases hbreaks with ⟨rfl, he⟩ | hend
      · left
        cases breaks with
        | some breaks => exact ⟨foldBreaks b breaks, (true, e), (true, e'), rfl, rfl, rfl, he⟩
        | none => exact ⟨[], (true, e), (true, e'), rfl, rfl, rfl, he⟩
      · right
        cases breaks <;> cases breaks' <;> exact hend
  · rw [hnone, hsome']
    dsimp only
    rw [isAtDocumentMark_of_rest_nil hend.2.2, plainBreaks_of_rest_nil hend.2.2]
    exact .inr hend

theorem plainWords (h : Alike extra surplus c c') (inFlow : Bool) (indent : Int) (fuel : Nat)
    (gap : List Char) (crossed : Bool) :
    ∃ text x x', Cursor.plainWords inFlow indent fuel gap crossed c = (text, x) ∧
      Cursor.plainWords inFlow indent fuel gap crossed c' = (text, x') ∧
      AlongsideOrAtEnd extra surplus x x' := by
  induction fuel generalizing gap crossed c c' with
  | zero => exact ⟨[], (crossed, c), (crossed, c'), rfl, rfl, .inl ⟨rfl, h⟩⟩
  | succ fuel ih =>
      have hword := h.respelled.plainWord_eq inFlow
      rw [Cursor.plainWords, Cursor.plainWords]
      dsimp only
      rw [h.head_beq (by decide), hword]
      split
      · exact ⟨[], (crossed, c), (crossed, c'), rfl, rfl, .inl ⟨rfl, h⟩⟩
      · have hbehind : Alike extra surplus (Cursor.advance (plainWord inFlow c'.rest).length c)
            (Cursor.advance (plainWord inFlow c'.rest).length c') := by
          refine h.advance fun a ha => ?_
          rw [← List.prefix_iff_eq_take.1 (plainWord_isPrefix inFlow c'.rest)] at ha
          exact not_isBreak_of_mem_plainWord ha
        generalize plainWord inFlow c'.rest = word at hbehind ⊢
        rcases hbehind.plainGap with
          ⟨next, ⟨crossing, d⟩, ⟨_, d'⟩, heq, heq', rfl, hd⟩ | hend
        · rw [heq, heq']
          dsimp only at hd ⊢
          rw [hd.head_beq (by decide), hd.column_eq]
          split
          · exact ⟨gap ++ word, (crossing, d), (crossing, d'), rfl, rfl, .inl ⟨rfl, hd⟩⟩
          · obtain ⟨text, x, x', hrest, hrest', hx⟩ := ih hd next crossing
            rw [hrest, hrest']
            exact ⟨_, x, x', rfl, rfl, hx⟩
        -- no word comes behind the end
        · generalize Cursor.plainGap _ = x at hend ⊢
          generalize Cursor.plainGap _ = x' at hend ⊢
          obtain ⟨next, crossing, d⟩ := x
          obtain ⟨next', crossing', d'⟩ := x'
          refine ⟨gap ++ word, (crossing, d), (crossing', d'), ?_, ?_, .inr hend⟩
          · simp [plainWords_of_rest_nil hend.2.1]
          · simp [plainWords_of_rest_nil hend.2.2]

theorem plainScalar (h : Alike extra surplus c c') (inFlow : Bool) (indent : Int) :
    ∃ t x x', c.plainScalar inFlow indent = (t, x) ∧ c'.plainScalar inFlow indent = (t, x') ∧
      AlongsideOrAtEnd extra surplus x x' := by
  obtain ⟨text, x, x', heq, heq', hx⟩ := h.plainWords inFlow indent (c'.rest.length + 1) [] false
  rw [← plainWords_eq_of_lt (n := c.rest.length + 1) (Nat.lt_succ_self _)
    (Nat.lt_succ_of_le h.length_le)] at heq
  exact ⟨.scalar (Text.ofChars text) true, x, x', by simp only [Cursor.plainScalar, heq],
    by simp only [Cursor.plainScalar, heq'], hx⟩

end Alike

end Cursor

end FrontLint.Yaml
