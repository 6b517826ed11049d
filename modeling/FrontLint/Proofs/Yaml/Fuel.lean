import FrontLint.Proofs.Yaml.Supply

/-!
# Bounds of readers

A reader that goes on line by line, or piece by piece, is given a bound that is larger than the
number of characters ahead. Each round passes a character, so the bound is never used up, and
what is read does not depend on it.
-/

namespace FrontLint.Yaml

namespace Cursor

variable {c c' : Cursor} {n m : Nat}

theorem IsBehind.lt (h : c'.IsBehind c.next) (hne : c.rest ≠ []) :
    c'.rest.length < c.rest.length := by
  have hle := h.length_le
  have hpos := List.length_pos_iff.2 hne
  rw [rest_next, List.length_tail] at hle
  omega

theorem rest_ne_nil_of_head {a : Char} (h : c.head = a) (ha : a ≠ endMark) : c.rest ≠ [] :=
  List.ne_nil_of_mem (mem_of_head h ha)

theorem lt_of_lineBreak? {b : Char} (h : c.lineBreak? = some (b, c')) :
    c'.rest.length < c.rest.length := by
  have hne : c.rest ≠ [] := by
    intro hnil
    rw [lineBreak?, hnil] at h
    cases h
  refine IsBehind.lt ?_ hne
  rw [lineBreak?] at h
  split at h
  · cases h
    exact isBehind_next c.next
  · split at h
    · cases h
      exact isBehind_refl _
    · split at h
      · cases h
        exact isBehind_refl _
      · cases h
  · cases h

/-- Where a line ends without a break, the text ends. -/
theorem head_eq_endMark (h : isBreakOrEnd c.head = true) (hnone : c.lineBreak? = none) :
    c.head = endMark := by
  by_contra hend
  have hbreak : isBreak c.head = true := by simp [isBreak, h, hend]
  rw [lineBreak?] at hnone
  split at hnone
  · cases hnone
  · rename_i a rest _ heq
    rw [head, heq, List.headD_cons] at hbreak
    simp [hbreak] at hnone
    split at hnone <;> cases hnone
  · rename_i heq
    exact hend (by rw [head, heq, List.headD_nil])

theorem length_advance_run_lt {p : Char → Bool} (h : c.run p ≠ []) :
    (advance (c.run p).length c).rest.length < c.rest.length := by
  have hpos := List.length_pos_iff.2 h
  have hle : (c.run p).length ≤ c.rest.length := (List.takeWhile_sublist p).length_le
  rw [rest_advance, List.length_drop]
  omega

/-- What stands before an empty run. -/
theorem apply_head_of_run_eq_nil {p : Char → Bool} (h : c.run p = []) (hend : p endMark = false) :
    p c.head = false := by
  rw [run] at h
  rw [head]
  cases hrest : c.rest with
  | nil => exact hend
  | cons a rest =>
      rw [hrest, List.takeWhile_cons] at h
      rw [List.headD_cons]
      cases ha : p a with
      | false => rfl
      | true => simp [ha] at h

theorem run_eq_nil_of_head {p : Char → Bool} (h : p c.head = false) : c.run p = [] := by
  rw [head] at h
  rw [run]
  cases hrest : c.rest with
  | nil => rfl
  | cons a rest =>
      rw [hrest, List.headD_cons] at h
      simp [h]

theorem length_pos_of_escapedBytes {site : TagSite} {bytes : Bytes} {rest : List Char}
    (h : escapedBytes site ('%' :: rest) = .ok bytes) : 0 < bytes.length := by
  rcases rest with _ | ⟨a, _ | ⟨b, rest⟩⟩
  · cases h
  · cases h
  · rw [escapedBytes] at h
    split at h
    · cases hrest : escapedBytes site rest with
      | error fault =>
          rw [hrest] at h
          cases h
      | ok others =>
          rw [hrest] at h
          cases h
          exact Nat.succ_pos _
    · cases h

theorem tagText_eq_of_lt {site : TagSite} (hn : c.rest.length < n) (hm : c.rest.length < m) :
    tagText site n c = tagText site m c := by
  induction n generalizing m c with
  | zero => omega
  | succ n ih =>
      obtain ⟨m, rfl⟩ := Nat.exists_eq_add_one.2 (Nat.zero_lt_of_lt hm)
      rw [tagText, tagText]
      dsimp only
      split
      · rename_i hhead
        have hplain := isBehind_advance (c.run isTagChar).length c
        have hmem := rest_ne_nil_of_head (beq_iff_eq.1 hhead) (by decide)
        cases hbytes : escapedBytes site (advance (c.run isTagChar).length c).rest with
        | error fault => rfl
        | ok bytes =>
            have hpos : 0 < bytes.length := by
              rw [head] at hhead
              cases hrest : (advance (c.run isTagChar).length c).rest with
              | nil => exact absurd hrest hmem
              | cons a rest =>
                  rw [hrest, List.headD_cons, beq_iff_eq] at hhead
                  rw [hrest, hhead] at hbytes
                  exact length_pos_of_escapedBytes hbytes
            have hbehind : (advance (3 * bytes.length)
                (advance (c.run isTagChar).length c)).rest.length < c.rest.length := by
              have hlt := (isBehind_advance (3 * bytes.length - 1)
                (advance (c.run isTagChar).length c).next).lt hmem
              rw [show 3 * bytes.length = 3 * bytes.length - 1 + 1 by omega, advance]
              exact hlt.trans_le hplain.length_le
            simp only [bind, Except.bind]
            rw [ih (m := m) (by omega) (by omega)]
      · rfl

theorem detectIndentation_eq_of_lt {widest : Nat} (hn : c.rest.length < n)
    (hm : c.rest.length < m) : detectIndentation n widest c = detectIndentation m widest c := by
  induction n generalizing m widest c with
  | zero => omega
  | succ n ih =>
      obtain ⟨m, rfl⟩ := Nat.exists_eq_add_one.2 (Nat.zero_lt_of_lt hm)
      rw [detectIndentation, detectIndentation]
      split
      · rename_i hhead
        have hlt := (isBehind_refl c.next).lt (rest_ne_nil_of_head (beq_iff_eq.1 hhead) (by decide))
        exact ih (by omega) (by omega)
      · split
        · rename_i hbreak
          have hlt := lt_of_lineBreak? hbreak
          rw [ih (m := m) (by omega) (by omega)]
        · rfl

theorem isBehind_skipIndentation (indentation : Nat) (c : Cursor) :
    (c.skipIndentation indentation).IsBehind c := isBehind_advance _ c

theorem emptyLines_eq_of_lt {indentation : Nat} (hn : c.rest.length < n)
    (hm : c.rest.length < m) : emptyLines indentation n c = emptyLines indentation m c := by
  induction n generalizing m c with
  | zero => omega
  | succ n ih =>
      obtain ⟨m, rfl⟩ := Nat.exists_eq_add_one.2 (Nat.zero_lt_of_lt hm)
      rw [emptyLines, emptyLines]
      dsimp only
      split
      · rename_i hbreak
        have hlt := lt_of_lineBreak? hbreak
        have hle := (isBehind_skipIndentation indentation c).length_le
        rw [ih (m := m) (by omega) (by omega)]
      · rfl

theorem quotedBreaks_eq_of_lt (hn : c.rest.length < n) (hm : c.rest.length < m) :
    quotedBreaks n c = quotedBreaks m c := by
  induction n generalizing m c with
  | zero => omega
  | succ n ih =>
      obtain ⟨m, rfl⟩ := Nat.exists_eq_add_one.2 (Nat.zero_lt_of_lt hm)
      rw [quotedBreaks, quotedBreaks]
      dsimp only
      split
      · rfl
      · split
        · rename_i hbreak
          have hlt := lt_of_lineBreak? hbreak
          have hle := (isBehind_skip c fun a => a == ' ' || a == '\t').length_le
          rw [ih (m := m) (by omega) (by omega)]
        · rfl

theorem plainBreaks_eq_of_lt (hn : c.rest.length < n) (hm : c.rest.length < m) :
    plainBreaks n c = plainBreaks m c := by
  induction n generalizing m c with
  | zero => omega
  | succ n ih =>
      obtain ⟨m, rfl⟩ := Nat.exists_eq_add_one.2 (Nat.zero_lt_of_lt hm)
      rw [plainBreaks, plainBreaks]
      split
      · rename_i hhead
        have hlt := (isBehind_refl c.next).lt (rest_ne_nil_of_head (beq_iff_eq.1 hhead) (by decide))
        exact ih (by omega) (by omega)
      · split
        · rename_i hbreak
          have hlt := lt_of_lineBreak? hbreak
          rw [ih (m := m) (by omega) (by omega)]
        · rfl

theorem plainWord_isPrefix (inFlow : Bool) (cs : List Char) : plainWord inFlow cs <+: cs := by
  induction cs with
  | nil => exact List.prefix_refl []
  | cons a rest ih =>
      rw [plainWord]
      split
      · exact List.nil_prefix
      · exact (List.prefix_cons_inj a).2 ih

theorem plainWords_eq_of_lt {inFlow crossed : Bool} {indent : Int} {gap : List Char}
    (hn : c.rest.length < n) (hm : c.rest.length < m) :
    plainWords inFlow indent n gap crossed c = plainWords inFlow indent m gap crossed c := by
  induction n generalizing m gap crossed c with
  | zero => omega
  | succ n ih =>
      obtain ⟨m, rfl⟩ := Nat.exists_eq_add_one.2 (Nat.zero_lt_of_lt hm)
      rw [plainWords, plainWords]
      dsimp only
      split
      · rfl
      · rename_i hword
        rw [Bool.or_eq_true, not_or, List.isEmpty_iff] at hword
        have hpos := List.length_pos_iff.2 hword.2
        have hle := (plainWord_isPrefix inFlow c.rest).length_le
        generalize hgap : (advance (plainWord inFlow c.rest).length c).plainGap = gapped
        obtain ⟨next, crossed, c'⟩ := gapped
        have hbehind := (isBehind_plainGap (advance (plainWord inFlow c.rest).length c)).length_le
        rw [hgap, rest_advance, List.length_drop] at hbehind
        dsimp only at hbehind ⊢
        split
        · rfl
        · rw [ih (m := m) (by omega) (by omega)]

/-- One line of a block scalar: its text, its line break, the breaks of the empty lines behind
it, and the place of the next line. -/
def blockLine (indentation : Nat) (c : Cursor) : List Char × List Char × List Char × Cursor :=
  let line := c.run fun a => !isBreakOrEnd a
  let c := advance line.length c
  let (lineEnd, c) :=
    match c.lineBreak? with
    | some (b, c) => ([b], c)
    | none => ([], c)
  let (breaks, c) := c.emptyLines indentation (c.rest.length + 1)
  (line, lineEnd, breaks, c)

theorem blockLines_succ (folded : Bool) (indentation fuel : Nat) (c : Cursor) :
    blockLines folded indentation (fuel + 1) c =
      let (line, lineEnd, breaks, c') := blockLine indentation c
      if c'.isAtBlockLine indentation then
        let joint :=
          if folded && lineEnd == ['\n'] && !c.isAtBlank && !c'.isAtBlank then
            if breaks.isEmpty then [' '] else []
          else lineEnd
        let (text, lineEnd, trailing, c) := blockLines folded indentation fuel c'
        (line ++ joint ++ breaks ++ text, lineEnd, trailing, c)
      else (line, lineEnd, breaks, c') := rfl

theorem emptyLines_of_head (indentation fuel : Nat) (h : c.head = endMark) :
    emptyLines indentation fuel c = ([], c) := by
  have hbreak : c.lineBreak? = none := by
    rw [lineBreak?]
    split
    · rename_i heq
      rw [head, heq, List.headD_cons] at h
      exact absurd h (by decide)
    · rename_i a _ _ heq
      rw [head, heq, List.headD_cons] at h
      subst h
      rfl
    · rfl
  cases fuel with
  | zero => rfl
  | succ fuel =>
      have hspaces : c.run (· == ' ') = [] := run_eq_nil_of_head (by rw [h]; decide)
      have hskip : c.skipIndentation indentation = c := by
        rw [skipIndentation, hspaces, List.length_nil, Nat.min_zero, advance]
      rw [emptyLines]
      simp only [hskip, hbreak]

/-- A line with another one behind it has a character. -/
theorem blockLine_lt (c : Cursor) (indentation : Nat)
    (h : (blockLine indentation c).2.2.2.isAtBlockLine indentation = true) :
    (blockLine indentation c).2.2.2.rest.length < c.rest.length := by
  rw [isAtBlockLine, Bool.and_eq_true, bne_iff_ne] at h
  obtain ⟨-, hhead⟩ := h
  have hadvance := (isBehind_advance (c.run fun a => !isBreakOrEnd a).length c).length_le
  cases hbreak : (advance (c.run fun a => !isBreakOrEnd a).length c).lineBreak? with
  | some found =>
      obtain ⟨b, c'⟩ := found
      have hlt := lt_of_lineBreak? hbreak
      have hle := (isBehind_emptyLines indentation (c'.rest.length + 1) c').length_le
      simp only [blockLine, hbreak]
      omega
  | none =>
      simp only [blockLine, hbreak] at hhead ⊢
      by_cases hline : (c.run fun a => !isBreakOrEnd a) = []
      · have hend := apply_head_of_run_eq_nil hline (by decide)
        rw [hline, List.length_nil, advance] at hbreak hhead
        rw [Bool.not_eq_false'] at hend
        have hend := head_eq_endMark hend hbreak
        rw [emptyLines_of_head _ _ hend] at hhead
        exact absurd hend hhead
      · have hlt := length_advance_run_lt hline
        exact (isBehind_emptyLines _ _ _).length_le.trans_lt hlt

theorem blockLines_eq_of_lt {folded : Bool} {indentation : Nat} (hn : c.rest.length < n)
    (hm : c.rest.length < m) :
    blockLines folded indentation n c = blockLines folded indentation m c := by
  induction n generalizing m c with
  | zero => omega
  | succ n ih =>
      obtain ⟨m, rfl⟩ := Nat.exists_eq_add_one.2 (Nat.zero_lt_of_lt hm)
      rw [blockLines_succ, blockLines_succ]
      have hlt := blockLine_lt c indentation
      generalize blockLine indentation c = line at hlt ⊢
      obtain ⟨line, lineEnd, breaks, c'⟩ := line
      dsimp only at hlt ⊢
      split
      · rename_i hnext
        have hlt := hlt hnext
        rw [ih (m := m) (by omega) (by omega)]
      · rfl

theorem meets_quotedBlanks (h : isSeparator c.head = true) :
    Meets c.quotedBlanks (fun x => x.2.rest.length < c.rest.length) fun _ => True := by
  have hblank := (isBehind_advance (c.run fun a => a == ' ' || a == '\t').length c).length_le
  rw [quotedBlanks]
  dsimp only
  split
  · rename_i b c' hbreak
    have hlt := lt_of_lineBreak? hbreak
    refine Meets.bind ((reads_quotedBreaks (c'.rest.length + 1) c').mono (fun _ h => h)
      fun _ _ => trivial) fun x hx => ?_
    have hle := hx.length_le
    exact (by omega : x.2.rest.length < c.rest.length)
  · rename_i hnone
    split
    · trivial
    · rename_i hend
      by_cases hline : (c.run fun a => a == ' ' || a == '\t') = []
      · have hblank := apply_head_of_run_eq_nil hline (by decide)
        rw [hline, List.length_nil, advance] at hnone hend
        rw [Bool.or_eq_false_iff] at hblank
        have hbreak : isBreakOrEnd c.head = true := by
          simpa [isSeparator, isSpaceOrBreak, hblank] using h
        exact absurd (beq_iff_eq.2 (head_eq_endMark hbreak hnone)) hend
      · exact length_advance_run_lt hline

theorem quotedText_eq_of_lt {double : Bool} (hn : c.rest.length < n) (hm : c.rest.length < m) :
    quotedText double n c = quotedText double m c := by
  induction n generalizing m c with
  | zero => omega
  | succ n ih =>
      obtain ⟨m, rfl⟩ := Nat.exists_eq_add_one.2 (Nat.zero_lt_of_lt hm)
      have hrest {r : Except Fault (Text × Cursor)}
          (hr : Meets r (fun x => x.2.rest.length < c.rest.length) fun _ => True) :
          (r >>= fun x => do
            let y ← quotedText double n x.2
            return (x.1 ++ y.1, y.2)) = r >>= fun x => do
            let y ← quotedText double m x.2
            return (x.1 ++ y.1, y.2) := by
        cases r with
        | error fault => rfl
        | ok x =>
            have hlt : x.2.rest.length < c.rest.length := hr
            simp only [bind, Except.bind]
            rw [ih (m := m) (by omega) (by omega)]
      rw [quotedText, quotedText]
      have hcases (h : isSeparator c.head = false) : c.rest ≠ [] := by
        intro hnil
        rw [head, hnil, List.headD_nil] at h
        exact absurd h (by decide)
      split
      · rename_i hhead
        exact hrest (meets_quotedBlanks hhead)
      · rename_i hhead
        have hne := hcases (Bool.eq_false_iff.2 hhead)
        split
        · rfl
        · split
          · exact hrest ((meets_escape c.next).mono (fun _ hx => hx.lt hne) fun _ _ => trivial)
          · split
            · split
              · exact hrest (r := .ok _) ((isBehind_advance 1 c.next).lt hne)
              · rfl
            · exact hrest (r := .ok _) ((isBehind_refl c.next).lt hne)

end Cursor

namespace TokenStream

namespace State

variable {s : State} {n m : Nat}

theorem skipBlankLines_eq_of_lt (hn : s.cursor.rest.length < n) (hm : s.cursor.rest.length < m) :
    skipBlankLines n s = skipBlankLines m s := by
  induction n generalizing m s with
  | zero => omega
  | succ n ih =>
      obtain ⟨m, rfl⟩ := Nat.exists_eq_add_one.2 (Nat.zero_lt_of_lt hm)
      rw [skipBlankLines, skipBlankLines]
      split
      · rename_i c' hbreak
        have hlt := Cursor.lt_of_lineBreak? hbreak
        have hle := ((Cursor.isBehind_skipComment s.cursor.skipSpaces).trans
          (Cursor.isBehind_skipSpaces s.cursor)).length_le
        have hlength : c'.rest.length < s.cursor.rest.length := by omega
        exact ih (s := { s with cursor := c', keyAllowed := s.keyAllowed || !s.inFlow })
          (show c'.rest.length < n by omega) (show c'.rest.length < m by omega)
      · rfl

/-- A bound is enough if it exceeds the characters ahead by two, and any is at the end. -/
def Suffices (n : Nat) (s : State) : Prop :=
  s.finished = true ∧ 0 < n ∨ s.cursor.rest.length + 2 ≤ n

theorem settle_eq_of_suffices (hn : s.Suffices n) (hm : s.Suffices m) :
    settle n s = settle m s := by
  induction n generalizing m s with
  | zero => rcases hn with h | h <;> omega
  | succ n ih =>
      have hpos : 0 < m := by rcases hm with h | h <;> omega
      obtain ⟨m, rfl⟩ := Nat.exists_eq_add_one.2 hpos
      have hfetch {s : State} (hn : s.cursor.rest.length + 2 ≤ n + 1)
          (hm : s.cursor.rest.length + 2 ≤ m + 1) :
          (s.fetch >>= settle n) = s.fetch >>= settle m := by
        cases hs : s.fetch with
        | error fault => rfl
        | ok s' =>
            have hprogress := ((fetched_fetch s).of_eq_ok hs).progresses
            refine ih ?_ ?_
            · rcases hprogress with ⟨hfinished, -⟩ | ⟨hlt, -⟩
              · exact .inl ⟨hfinished, by omega⟩
              · exact .inr (by omega)
            · rcases hprogress with ⟨hfinished, -⟩ | ⟨hlt, -⟩
              · exact .inl ⟨hfinished, by omega⟩
              · exact .inr (by omega)
      rw [settle, settle]
      split
      · rfl
      · rename_i hs
        have hn : s.cursor.rest.length + 2 ≤ n + 1 := by simpa [Suffices, hs] using hn
        have hm : s.cursor.rest.length + 2 ≤ m + 1 := by simpa [Suffices, hs] using hm
        split
        · exact hfetch hn hm
        · cases hdrop : s.dropStale with
          | error fault => rfl
          | ok s' =>
              have hcursor := ((meets_dropStale s).of_eq_ok hdrop).cursor_eq
              simp only [bind, Except.bind]
              split
              · rw [← hcursor] at hn hm
                exact hfetch hn hm
              · rfl

theorem deliver_eq_of_lt (hn : s.weight < n) (hm : s.weight < m) : deliver n s = deliver m s := by
  induction n generalizing m s with
  | zero => omega
  | succ n ih =>
      obtain ⟨m, rfl⟩ := Nat.exists_eq_add_one.2 (Nat.zero_lt_of_lt hm)
      have hsettle := meets_settle s (.inr (Nat.le_refl (s.cursor.rest.length + 2)))
      rw [deliver, deliver]
      split
      · rfl
      · rename_i s' heq
        have hweight := (hsettle.of_eq_ok heq).weight_le
        split
        · rfl
        · rename_i t rest hwaiting
          have hlt := (weight_tail_lt hwaiting (s'.delivered + 1)).trans_le hweight
          rw [ih (m := m) (by omega) (by omega)]

end State

end TokenStream

end FrontLint.Yaml
