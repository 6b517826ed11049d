import FrontLint.Proofs.Yaml.AlikeFlow
import FrontLint.Proofs.Yaml.Closing

/-!
# Token streams and line ends

The tokens of a block do not depend on the spelling of its line ends. A candidate for a key lies
on the line of the cursor or is dropped, and on one line both texts have the same characters, so
the bound on the length of a key cuts alike. Without block scalars, a line feed at the end does
not matter either, but for which fault is found in a block that has one.
-/

namespace FrontLint.Yaml

/-- A candidate as it stands in the text with other spellings of line ends. -/
def Candidate.shift (surplus : Nat → Nat) (k : Candidate) : Candidate :=
  { k with index := k.index + surplus k.line }

namespace TokenStream

theorem lookup_map_snd {α β γ : Type} [BEq α] (f : β → γ) (l : List (α × β)) (a : α) :
    (l.map fun x => (x.1, f x.2)).lookup a = (l.lookup a).map f := by
  induction l with
  | nil => rfl
  | cons x l ih =>
      obtain ⟨b, y⟩ := x
      rw [List.map_cons, List.lookup_cons, List.lookup_cons, ih]
      cases a == b <;> rfl

namespace State

variable {extra : Bool} {surplus : Nat → Nat} {s s' : State} {c c' : Cursor}

/-- The candidates as they stand in the text with other spellings of line ends. -/
def shifted (surplus : Nat → Nat) (candidates : List (Int × Candidate)) : List (Int × Candidate) :=
  candidates.map fun x => (x.1, x.2.shift surplus)

theorem filter_shifted {p q : Int × Candidate → Bool} {candidates : List (Int × Candidate)}
    (h : ∀ x, p (x.1, x.2.shift surplus) = q x) :
    (shifted surplus candidates).filter p = shifted surplus (candidates.filter q) := by
  rw [shifted, List.filter_map]
  exact congrArg (List.map _) (congrArg (candidates.filter ·) (funext h))

/-- The state at a place in the text with other spellings of line ends. -/
def inText (surplus : Nat → Nat) (c' : Cursor) (s : State) : State :=
  { s with cursor := c', candidates := shifted surplus s.candidates }

/-- States that are the same but for their places in two texts of which the second one may have
other spellings of line ends. -/
def Alike (extra : Bool) (surplus : Nat → Nat) (s s' : State) : Prop :=
  ∃ c', Cursor.Alike extra surplus s.cursor c' ∧ s' = s.inText surplus c'

/-- States before the last tokens of two texts. -/
structure Closing (s s' : State) : Prop where
  isClosing : s.IsClosing
  isClosing' : s'.IsClosing
  finished_eq : s'.finished = s.finished
  waiting_eq : s'.waiting = s.waiting
  endsAlike : s.EndsAlike s'

/-- States at the same place, or both before the last tokens of texts of which the second one has a
line feed more. -/
def Abreast (extra : Bool) (surplus : Nat → Nat) (s s' : State) : Prop :=
  Alike extra surplus s s' ∨ extra = true ∧ Closing s s'

theorem endsAlike_of_shifted (hwaiting : s'.waiting = s.waiting) (hdepth : s'.depth = s.depth)
    (hindents : s'.indents = s.indents)
    (hcandidates : s'.candidates = shifted surplus s.candidates) : s.EndsAlike s' := by
  refine ⟨closed_congr hwaiting hdepth hindents, hdepth, ?_⟩
  rw [Requires, Requires, hcandidates, shifted]
  simp [Candidate.shift]

theorem closing_inText (h : s.IsClosing) (h' : (s.inText surplus c').IsClosing) :
    Closing s (s.inText surplus c') :=
  ⟨h, h', rfl, rfl, endsAlike_of_shifted rfl rfl rfl rfl⟩

theorem abreast_inText (h : Cursor.Abreast extra surplus s.cursor c') :
    Abreast extra surplus s (s.inText surplus c') := by
  rcases h with halike | ⟨hextra, hrest, hrest'⟩
  · exact .inl ⟨c', halike, rfl⟩
  · exact .inr ⟨hextra, closing_inText (isClosing_of_rest_nil hrest)
      (isClosing_of_rest_nil (by exact hrest'))⟩

/-- What an action that does not move on ends in. -/
def Stays (surplus : Nat → Nat) (c' : Cursor) (s t t' : State) : Prop :=
  t.cursor = s.cursor ∧ t' = t.inText surplus c'

theorem inFlow_inText (s : State) : (s.inText surplus c').inFlow = s.inFlow := rfl

theorem isStale_inText (h : Cursor.Alike extra surplus s.cursor c') (k : Candidate) :
    (s.inText surplus c').isStale (k.shift surplus) = s.isStale k := by
  have hline : (s.inText surplus c').cursor.line = s.cursor.line := h.line_eq
  have hindex : (s.inText surplus c').cursor.index = s.cursor.index + surplus s.cursor.line :=
    h.index_eq
  have hshift : (k.shift surplus).index = k.index + surplus k.line := rfl
  have hsame : (k.shift surplus).line = k.line := rfl
  rw [Bool.eq_iff_iff]
  simp only [isStale, Bool.or_eq_true, bne_iff_ne, decide_eq_true_eq, hline, hindex, hshift, hsame]
  by_cases hl : k.line = s.cursor.line
  · simp only [hl, ne_eq, not_true_eq_false, false_or]
    omega
  · simp [hl]

theorem agrees_dropStale (h : Cursor.Alike extra surplus s.cursor c') :
    Agrees extra (Stays surplus c' s) s.dropStale (s.inText surplus c').dropStale := by
  rw [dropStale, dropStale]
  refine agrees_ite ?_ (fun _ => .inl rfl) fun _ => ⟨rfl, ?_⟩
  · rw [inText, shifted, List.any_map]
    refine congrArg (s.candidates.any ·) (funext fun x => ?_)
    exact congrArg (· && x.2.required) (isStale_inText h x.2).symm
  · have hfilter : (s.inText surplus c').candidates.filter
        (fun k => !(s.inText surplus c').isStale k.2) =
          shifted surplus (s.candidates.filter fun k => !s.isStale k.2) :=
      filter_shifted fun x => congrArg (!·) (isStale_inText h x.2)
    exact congrArg (fun k => { s.inText surplus c' with candidates := k }) hfilter

theorem agrees_dropCandidate (s : State) :
    Agrees extra (Stays surplus c' s) s.dropCandidate (s.inText surplus c').dropCandidate := by
  have hlookup : (s.inText surplus c').candidates.lookup (s.inText surplus c').depth =
      (s.candidates.lookup s.depth).map (Candidate.shift surplus) :=
    lookup_map_snd (Candidate.shift surplus) s.candidates s.depth
  rw [dropCandidate, dropCandidate, hlookup]
  cases s.candidates.lookup s.depth with
  | none => exact ⟨rfl, rfl⟩
  | some k =>
      refine agrees_ite rfl (fun _ => .inl rfl) fun _ => ⟨rfl, ?_⟩
      exact congrArg (fun k => { s.inText surplus c' with candidates := k })
        (filter_shifted fun _ => rfl)

theorem agrees_addCandidate (h : Cursor.Alike extra surplus s.cursor c') :
    Agrees extra (Stays surplus c' s) s.addCandidate (s.inText surplus c').addCandidate := by
  have hcursor : (s.inText surplus c').cursor = c' := rfl
  rw [addCandidate, addCandidate, hcursor]
  refine agrees_ite rfl (fun _ => ?_) fun _ => ⟨rfl, rfl⟩
  refine (agrees_dropCandidate s).bind fun t t' ht => ?_
  obtain ⟨ht, rfl⟩ := ht
  have hcursor : (t.inText surplus c').cursor = c' := rfl
  refine ⟨ht, ?_⟩
  rw [hcursor, ht, h.column_eq, h.line_eq, h.index_eq]
  rfl

theorem unwind_inText (s : State) (column : Int) :
    (s.inText surplus c').unwind column = (s.unwind column).inText surplus c' := by
  rw [unwind, unwind, inFlow_inText]
  split <;> rfl

theorem openBlock_inText (s : State) (column : Int) (t : Token) (position : Nat) :
    (s.inText surplus c').openBlock column t position =
      (s.openBlock column t position).inText surplus c' := by
  rw [openBlock, openBlock]
  rw [show (s.inText surplus c').indent = s.indent from rfl]
  split <;> rfl

theorem openBlockHere_inText (h : Cursor.Alike extra surplus s.cursor c') (t : Token) :
    (s.inText surplus c').openBlockHere t = (s.openBlockHere t).inText surplus c' := by
  rw [openBlockHere, openBlockHere, inFlow_inText]
  split
  · rfl
  · rw [show (s.inText surplus c').cursor.column = s.cursor.column from h.column_eq]
    exact openBlock_inText s _ t _

theorem insertKey_inText (s : State) (k : Candidate) :
    (s.inText surplus c').insertKey (k.shift surplus) = (s.insertKey k).inText surplus c' := by
  have hfilter : (s.inText surplus c').candidates.filter
      (fun x => x.1 != (s.inText surplus c').depth) =
        shifted surplus (s.candidates.filter fun x => x.1 != s.depth) :=
    filter_shifted fun _ => rfl
  rw [insertKey, insertKey, inFlow_inText, hfilter]
  split
  · rfl
  · exact openBlock_inText { s with
      candidates := s.candidates.filter fun x => x.1 != s.depth
      waiting := s.waiting.take (k.number - s.delivered) ++
        Token.key :: s.waiting.drop (k.number - s.delivered) } _ _ _

theorem cursor_unwind (s : State) (column : Int) : (s.unwind column).cursor = s.cursor :=
  (extends_unwind s column).cursor_eq

theorem agrees_unwind (s : State) (column : Int) :
    Agrees extra (Stays surplus c' s) (s.unwind column).dropCandidate
      ((s.inText surplus c').unwind column).dropCandidate := by
  rw [unwind_inText]
  exact (agrees_dropCandidate _).mono fun t t' ht => ⟨ht.1.trans (cursor_unwind s column), ht.2⟩

theorem agrees_openBlockHere (h : Cursor.Alike extra surplus s.cursor c') {t : Token}
    (ht : t.IsBare) :
    Agrees extra (Stays surplus c' s) (s.openBlockHere t).dropCandidate
      ((s.inText surplus c').openBlockHere t).dropCandidate := by
  rw [openBlockHere_inText h]
  exact (agrees_dropCandidate _).mono fun u u' hu =>
    ⟨hu.1.trans (extends_openBlockHere s ht).cursor_eq, hu.2⟩

theorem rest_skipBlankLines_of_rest_nil (h : s.cursor.rest = []) (fuel : Nat) :
    (skipBlankLines fuel s).cursor.rest = [] :=
  List.suffix_nil.1 (h ▸ (skips_skipBlankLines fuel s).isBehind.suffix)

/-- Blank lines are skipped in both texts, up to a character of a token or to the end. -/
theorem skipBlankLines_cases (h : Cursor.Alike extra surplus s.cursor c') (fuel : Nat)
    (hfuel : c'.rest.length < fuel) :
    (∃ d', Cursor.Alike extra surplus (skipBlankLines fuel s).cursor d' ∧
        isBreak d'.head = false ∧
        skipBlankLines fuel (s.inText surplus c') = (skipBlankLines fuel s).inText surplus d') ∨
      extra = true ∧ (skipBlankLines fuel s).cursor.rest = [] ∧
        (skipBlankLines fuel (s.inText surplus c')).cursor.rest = [] := by
  induction fuel generalizing s c' with
  | zero => omega
  | succ fuel ih =>
      have hcomment := h.skipSpaces.skipComment
      have hcursor : (s.inText surplus c').cursor = c' := rfl
      rw [skipBlankLines, skipBlankLines, hcursor]
      rcases hcomment.lineBreak?_cases with
        ⟨hnone, hnone'⟩ | ⟨b, d, d', hsome, hsome', hd⟩ | ⟨hnone, d', hsome', hend⟩
      · rw [hnone, hnone']
        exact .inl ⟨_, hcomment, Cursor.Alike.not_isBreak_of_lineBreak? hnone', rfl⟩
      · rw [hsome, hsome']
        have hlt := Cursor.lt_of_lineBreak? hsome'
        have hle := ((Cursor.isBehind_skipComment c'.skipSpaces).trans
          (Cursor.isBehind_skipSpaces c')).length_le
        exact ih (s := { s with cursor := d, keyAllowed := s.keyAllowed || !s.inFlow }) hd
          (by omega)
      · rw [hnone, hsome']
        exact .inr ⟨hend.1, hend.2.1, rest_skipBlankLines_of_rest_nil (by exact hend.2.2) fuel⟩

theorem skipToToken_cases (h : Cursor.Alike extra surplus s.cursor c') :
    (∃ d', Cursor.Alike extra surplus s.skipToToken.cursor d' ∧ isBreak d'.head = false ∧
        (s.inText surplus c').skipToToken = s.skipToToken.inText surplus d') ∨
      extra = true ∧ s.IsClosing ∧ (s.inText surplus c').IsClosing := by
  have hindex : (s.cursor.index == 0) = (c'.index == 0) := by
    rw [Bool.eq_iff_iff, beq_iff_eq, beq_iff_eq, h.index_eq]
    constructor
    · intro hzero
      have hline := h.line_le
      rw [hzero, Nat.le_zero] at hline
      rw [hzero, hline, h.surplus_zero]
    · omega
  have hmark : Cursor.Alike extra surplus
      (if s.cursor.index == 0 && s.cursor.head == '\uFEFF' then s.cursor.next else s.cursor)
      (if c'.index == 0 && c'.head == '\uFEFF' then c'.next else c') := by
    rw [hindex, h.head_beq (by decide)]
    split
    · rename_i hhead
      rw [Bool.and_eq_true, beq_iff_eq, beq_iff_eq] at hhead
      exact h.next (by rw [hhead.2]; decide)
    · exact h
  have hcursor : (s.inText surplus c').cursor = c' := rfl
  rw [IsClosing, IsClosing, skipToToken, skipToToken, hcursor]
  generalize (if s.cursor.index == 0 && s.cursor.head == '\uFEFF' then s.cursor.next
    else s.cursor) = d at hmark ⊢
  generalize (if c'.index == 0 && c'.head == '\uFEFF' then c'.next else c') = d' at hmark ⊢
  rw [skipBlankLines_eq_of_lt (n := d.rest.length + 1) (m := d'.rest.length + 1)
    (Nat.lt_succ_self _) (Nat.lt_succ_of_le hmark.length_le)]
  exact skipBlankLines_cases (s := { s with cursor := d }) hmark _ (Nat.lt_succ_self _)

/-! ## One token -/

theorem Stays.advance {t t' : State} (ht : Stays surplus c' s t t')
    (h : Cursor.Alike extra surplus s.cursor c') {n : Nat}
    (hn : ∀ a ∈ c'.rest.take n, isBreak a = false) :
    Cursor.Alike extra surplus (Cursor.advance n t.cursor) (Cursor.advance n c') := by
  rw [ht.1]
  exact h.advance hn

/-- A token that a reader reads behind the first characters of a state. -/
theorem agrees_read {t t' : State} (read : Cursor → Except Fault (Token × Cursor))
    {allowed : Bool} (ht : Stays surplus c' s t t')
    (hread : Agrees extra (Cursor.Alongside (Cursor.Abreast extra surplus)) (read s.cursor)
      (read c')) :
    Agrees extra (Abreast extra surplus)
      (read t.cursor >>= fun x => pure { t.push x.1 with cursor := x.2, keyAllowed := allowed })
      (read t'.cursor >>= fun x =>
        pure { t'.push x.1 with cursor := x.2, keyAllowed := allowed }) := by
  obtain ⟨ht, rfl⟩ := ht
  have hcursor : (t.inText surplus c').cursor = c' := rfl
  rw [ht, hcursor]
  refine hread.bind fun x x' hx => ?_
  have habreast := abreast_inText
    (s := { t.push x.1 with cursor := x.2, keyAllowed := allowed }) hx.2
  rw [hx.1] at habreast
  rw [hx.1]
  exact habreast

theorem not_isBreak_of_mem_take_one (hhead : isBreak c'.head = false) :
    ∀ a ∈ c'.rest.take 1, isBreak a = false := by
  intro a ha
  rw [Cursor.head] at hhead
  cases hrest : c'.rest with
  | nil => simp [hrest] at ha
  | cons b rest =>
      rw [hrest, List.take_succ_cons, List.take_zero, List.mem_singleton] at ha
      rwa [hrest, List.headD_cons, ← ha] at hhead

section

variable (h : Cursor.Alike extra surplus s.cursor c')
include h

theorem agrees_fetchEnd :
    Agrees extra (Abreast extra surplus) s.fetchEnd (s.inText surplus c').fetchEnd := by
  rw [fetchEnd, fetchEnd]
  refine (agrees_unwind s (-1)).bind fun t t' ht => ?_
  obtain ⟨ht, rfl⟩ := ht
  exact .inl ⟨c', ht ▸ h, rfl⟩

theorem agrees_fetchNodePart {read : Cursor → Except Fault (Token × Cursor)}
    (hread : Agrees extra (Cursor.Alongside (Cursor.Alike extra surplus)) (read s.cursor)
      (read c')) :
    Agrees extra (Abreast extra surplus) (s.fetchNodePart read)
      ((s.inText surplus c').fetchNodePart read) := by
  rw [fetchNodePart, fetchNodePart]
  exact (agrees_addCandidate h).bind fun t t' ht =>
    agrees_read _ ht (hread.mono fun _ _ hx => ⟨hx.1, .inl hx.2⟩)

theorem agrees_fetchDocumentMark (hmark : ∀ a ∈ c'.rest.take 3, isBreak a = false) (u : Token) :
    Agrees extra (Abreast extra surplus) (s.fetchDocumentMark u)
      ((s.inText surplus c').fetchDocumentMark u) := by
  rw [fetchDocumentMark, fetchDocumentMark]
  refine (agrees_unwind s (-1)).bind fun t t' ht => ?_
  have hbehind := ht.advance h hmark
  obtain ⟨-, rfl⟩ := ht
  exact .inl ⟨_, hbehind, rfl⟩

theorem agrees_fetchPlain :
    Agrees extra (Abreast extra surplus) s.fetchPlain (s.inText surplus c').fetchPlain := by
  rw [fetchPlain, fetchPlain]
  refine (agrees_addCandidate h).bind fun t t' ht => ?_
  obtain ⟨ht, rfl⟩ := ht
  obtain ⟨u, ⟨crossed, d⟩, ⟨crossed', d'⟩, heq, heq', hd⟩ := h.plainScalar t.inFlow t.indent
  have hcursor : (t.inText surplus c').cursor = c' := rfl
  have hindent : (t.inText surplus c').indent = t.indent := rfl
  rw [ht, hcursor, inFlow_inText, hindent, heq, heq']
  rcases hd with ⟨rfl, hd⟩ | ⟨hextra, hrest, hrest'⟩
  · exact .inl ⟨d', hd, rfl⟩
  · exact .inr ⟨hextra, isClosing_of_rest_nil (by exact hrest),
      isClosing_of_rest_nil (by exact hrest'), rfl, rfl, endsAlike_of_shifted rfl rfl rfl rfl⟩

variable (hhead : isBreak c'.head = false)
include hhead

theorem agrees_fetchDirective :
    Agrees extra (Abreast extra surplus) s.fetchDirective
      (s.inText surplus c').fetchDirective := by
  rw [fetchDirective, fetchDirective]
  exact (agrees_unwind s (-1)).bind fun t t' ht => agrees_read _ ht (h.directive hhead)

theorem agrees_fetchFlowStart (u : Token) :
    Agrees extra (Abreast extra surplus) (s.fetchFlowStart u)
      ((s.inText surplus c').fetchFlowStart u) := by
  rw [fetchFlowStart, fetchFlowStart]
  refine (agrees_addCandidate h).bind fun t t' ht => ?_
  have hbehind := ht.advance h (not_isBreak_of_mem_take_one hhead)
  obtain ⟨-, rfl⟩ := ht
  exact .inl ⟨_, hbehind, rfl⟩

theorem agrees_fetchFlowEnd (u : Token) :
    Agrees extra (Abreast extra surplus) (s.fetchFlowEnd u)
      ((s.inText surplus c').fetchFlowEnd u) := by
  rw [fetchFlowEnd, fetchFlowEnd]
  refine (agrees_dropCandidate s).bind fun t t' ht => ?_
  have hbehind := ht.advance h (not_isBreak_of_mem_take_one hhead)
  obtain ⟨-, rfl⟩ := ht
  exact .inl ⟨_, hbehind, rfl⟩

theorem agrees_fetchFlowEntry :
    Agrees extra (Abreast extra surplus) s.fetchFlowEntry
      (s.inText surplus c').fetchFlowEntry := by
  rw [fetchFlowEntry, fetchFlowEntry]
  refine (agrees_dropCandidate s).bind fun t t' ht => ?_
  have hbehind := ht.advance h (not_isBreak_of_mem_take_one hhead)
  obtain ⟨-, rfl⟩ := ht
  exact .inl ⟨_, hbehind, rfl⟩

/-- A token that may begin a collection where it stands. -/
theorem agrees_opening {entry : Entry} {t u : Token} (ht : t.IsBare) (allowed : State → Bool)
    (hallowed : ∀ s d', allowed (s.inText surplus d') = allowed s) :
    Agrees extra (Abreast extra surplus)
      (do
        s.requireEntry entry
        let s ← (s.openBlockHere t).dropCandidate
        return { s.take 1 u with keyAllowed := allowed s })
      (do
        (s.inText surplus c').requireEntry entry
        let s ← ((s.inText surplus c').openBlockHere t).dropCandidate
        return { s.take 1 u with keyAllowed := allowed s }) := by
  refine Agrees.bind (R := Eq) (agrees_refl (fun _ => rfl) (s.requireEntry entry)) fun _ _ _ => ?_
  refine (agrees_openBlockHere h ht).bind fun v v' hv => ?_
  have hbehind := hv.advance h (not_isBreak_of_mem_take_one hhead)
  obtain ⟨-, rfl⟩ := hv
  refine .inl ⟨_, hbehind, ?_⟩
  rw [hallowed]
  rfl

theorem agrees_fetchBlockEntry :
    Agrees extra (Abreast extra surplus) s.fetchBlockEntry
      (s.inText surplus c').fetchBlockEntry :=
  agrees_opening h hhead (t := .blockSequenceStart) trivial (fun _ => true) fun _ _ => rfl

theorem agrees_fetchKey :
    Agrees extra (Abreast extra surplus) s.fetchKey (s.inText surplus c').fetchKey :=
  agrees_opening h hhead (t := .blockMappingStart) trivial (fun s => !s.inFlow) fun _ _ => rfl

theorem agrees_fetchValue :
    Agrees extra (Abreast extra surplus) s.fetchValue (s.inText surplus c').fetchValue := by
  have hlookup : (s.inText surplus c').candidates.lookup (s.inText surplus c').depth =
      (s.candidates.lookup s.depth).map (Candidate.shift surplus) :=
    lookup_map_snd (Candidate.shift surplus) s.candidates s.depth
  rw [fetchValue, fetchValue, hlookup]
  cases s.candidates.lookup s.depth with
  | some k =>
      have hcursor : (s.insertKey k).cursor = s.cursor := (extends_insertKey s k).cursor_eq
      have hstay : Stays surplus c' s (s.insertKey k) ((s.insertKey k).inText surplus c') :=
        ⟨hcursor, rfl⟩
      simp only [Option.map_some]
      rw [insertKey_inText]
      exact .inl ⟨_, hstay.advance h (not_isBreak_of_mem_take_one hhead), rfl⟩
  | none =>
      exact agrees_opening h hhead (t := .blockMappingStart) trivial (fun s => !s.inFlow)
        fun _ _ => rfl

/-- A block scalar may be read in texts with the same line feed at their ends only. -/
theorem agrees_fetchBlockScalar (hextra : extra = false) (folded : Bool) :
    Agrees extra (Abreast extra surplus) (s.fetchBlockScalar folded)
      ((s.inText surplus c').fetchBlockScalar folded) := by
  subst hextra
  rw [fetchBlockScalar, fetchBlockScalar]
  refine (agrees_dropCandidate s).bind fun t t' ht => ?_
  have hindent : t'.indent = t.indent := by
    rw [ht.2]
    rfl
  rw [hindent]
  exact agrees_read (fun c => c.blockScalar folded t.indent) ht
    ((h.blockScalar hhead folded t.indent).mono fun _ _ hx => ⟨hx.1, .inl hx.2⟩)

theorem isAtPlain_inText : s.isAtPlain = (s.inText surplus c').isAtPlain := by
  have hcursor : (s.inText surplus c').cursor = c' := rfl
  rw [isAtPlain, isAtPlain, hcursor, inFlow_inText, h.head_eq hhead, Cursor.peek_succ,
    Cursor.peek_succ, Cursor.advance, Cursor.advance,
    (h.next hhead).apply_head (p := isSeparator) (by decide) fun _ => by decide]

end

/-- The three characters of a document mark are looked at before. -/
theorem not_isBreak_of_isAtRule {a : Char} (ha : isBreak a = false) (h : c.isAtRule a = true) :
    ∀ b ∈ c.rest.take 3, isBreak b = false := by
  simp only [Cursor.isAtRule, Bool.and_eq_true, beq_iff_eq, Cursor.peek] at h
  obtain ⟨⟨⟨h0, h1⟩, h2⟩, -⟩ := h
  rcases hrest : c.rest with _ | ⟨x, _ | ⟨y, _ | ⟨z, rest⟩⟩⟩ <;> rw [hrest] at h0 h1 h2 <;>
    simp_all

theorem agrees_fetchToken (h : Cursor.Alike extra surplus s.cursor c')
    (hhead : isBreak c'.head = false) :
    Agrees extra (Abreast extra surplus) s.fetchToken (s.inText surplus c').fetchToken := by
  have hcursor : (s.inText surplus c').cursor = c' := rfl
  have hseparator : isSeparator (s.cursor.peek 1) = isSeparator (c'.peek 1) := by
    rw [Cursor.peek_succ, Cursor.peek_succ, Cursor.advance, Cursor.advance,
      (h.next hhead).apply_head (p := isSeparator) (by decide) fun _ => by decide]
  have hname (part : Part) (make : List Char → Token) :
      Agrees extra (Cursor.Alongside (Cursor.Alike extra surplus))
        (s.cursor.anchorName part >>= fun x => pure (make x.1, x.2))
        (c'.anchorName part >>= fun x => pure (make x.1, x.2)) :=
    (h.anchorName hhead part).bind fun x x' hx => ⟨by rw [hx.1], hx.2⟩
  rw [fetchToken, fetchToken, hcursor, inFlow_inText, hseparator, h.head_eq hhead, h.column_eq]
  dsimp only
  refine agrees_ite rfl (fun _ => agrees_fetchEnd h) fun _ => ?_
  refine agrees_ite rfl (fun _ => agrees_fetchDirective h hhead) fun _ => ?_
  refine agrees_ite (by rw [h.isAtRule_eq (by decide)]) (fun hc => ?_) fun _ => ?_
  · exact agrees_fetchDocumentMark h
      (not_isBreak_of_isAtRule (by decide) (Bool.and_eq_true_iff.1 hc).2) _
  refine agrees_ite (by rw [h.isAtRule_eq (by decide)]) (fun hc => ?_) fun _ => ?_
  · exact agrees_fetchDocumentMark h
      (not_isBreak_of_isAtRule (by decide) (Bool.and_eq_true_iff.1 hc).2) _
  refine agrees_ite rfl (fun _ => agrees_fetchFlowStart h hhead _) fun _ => ?_
  refine agrees_ite rfl (fun _ => agrees_fetchFlowStart h hhead _) fun _ => ?_
  refine agrees_ite rfl (fun _ => agrees_fetchFlowEnd h hhead _) fun _ => ?_
  refine agrees_ite rfl (fun _ => agrees_fetchFlowEnd h hhead _) fun _ => ?_
  refine agrees_ite rfl (fun _ => agrees_fetchFlowEntry h hhead) fun _ => ?_
  refine agrees_ite rfl (fun _ => agrees_fetchBlockEntry h hhead) fun _ => ?_
  refine agrees_ite rfl (fun _ => agrees_fetchKey h hhead) fun _ => ?_
  refine agrees_ite rfl (fun _ => agrees_fetchValue h hhead) fun _ => ?_
  refine agrees_ite rfl (fun _ => agrees_fetchNodePart h (hname .alias .alias)) fun _ => ?_
  refine agrees_ite rfl (fun _ => agrees_fetchNodePart h (hname .anchor .anchor)) fun _ => ?_
  refine agrees_ite rfl (fun _ => agrees_fetchNodePart h (h.tag hhead)) fun _ => ?_
  refine agrees_ite rfl (fun hc => ?_) fun _ => ?_
  · have hmark := beq_iff_eq.1 (Bool.and_eq_true_iff.1 hc).1
    exact agrees_fetchBlockScalar h hhead (h.extra_eq_false (.inl hmark)) false
  refine agrees_ite rfl (fun hc => ?_) fun _ => ?_
  · have hmark := beq_iff_eq.1 (Bool.and_eq_true_iff.1 hc).1
    exact agrees_fetchBlockScalar h hhead (h.extra_eq_false (.inr hmark)) true
  refine agrees_ite rfl (fun _ => agrees_fetchNodePart h (h.quotedScalar hhead false)) fun _ => ?_
  refine agrees_ite rfl (fun _ => agrees_fetchNodePart h (h.quotedScalar hhead true)) fun _ => ?_
  exact agrees_ite (isAtPlain_inText h hhead) (fun _ => agrees_fetchPlain h) fun _ => .inl rfl

/-! ## The whole stream -/

theorem agrees_fetch (h : Alike extra surplus s s')
    (hnot : ¬ (extra = true ∧ s.IsClosing ∧ s'.IsClosing)) :
    Agrees extra (Abreast extra surplus) s.fetch s'.fetch := by
  obtain ⟨c', h, rfl⟩ := h
  obtain ⟨d', hd, hhead, heq⟩ := (skipToToken_cases h).resolve_right hnot
  rw [fetch, fetch, heq]
  refine (agrees_dropStale hd).bind fun t t' ht => ?_
  obtain ⟨ht, rfl⟩ := ht
  have hcolumn : (t.inText surplus d').cursor.column = t.cursor.column := ht ▸ hd.column_eq
  rw [hcolumn, unwind_inText]
  exact agrees_fetchToken (by rw [cursor_unwind, ht]; exact hd) hhead

variable {level : Int} {fuel : Nat}

/-- The same stream, or, if `extra` holds, two that no graph can be made of. -/
def Concurs (extra : Bool) (level : Int) (σ σ' : TokenStream) : Prop :=
  σ = σ' ∨ extra = true ∧ σ.Fails level ∧ σ'.Fails level

theorem concurs_of_closing (hextra : extra = true) (h : Closing s s') (hs : s.IsOpen level)
    (hs' : s'.IsOpen level) (hfuel : s.weight < fuel) (hfuel' : s'.weight < fuel) :
    Concurs extra level (deliver fuel s) (deliver fuel s') := by
  have hends := ends_deliver hs h.isClosing hfuel
  have hends' := (ends_deliver hs' h.isClosing' hfuel').of_endsAlike h.endsAlike
  by_cases hr : s.Requires
  · exact .inr ⟨hextra, hends.fails hr, hends'.fails hr⟩
  · exact .inl ((hends.eq hr).trans (hends'.eq hr).symm)

theorem deliver_congr_of_finished (h : s.finished = true) (h' : s'.finished = true)
    (hwaiting : s'.waiting = s.waiting) (fuel : Nat) : deliver fuel s = deliver fuel s' := by
  induction fuel generalizing s s' with
  | zero => rfl
  | succ fuel ih =>
      rw [deliver_succ_of_finished h, deliver_succ_of_finished h', emit, emit, hwaiting]
      cases s.waiting with
      | nil => rfl
      | cons t rest =>
          dsimp only
          rw [@ih { s with waiting := rest, delivered := s.delivered + 1 }
            { s' with waiting := rest, delivered := s'.delivered + 1 } h h' rfl]

theorem concurs_error {e e' : Fault}
    (h : e = e' ∨ extra = true ∧ e.isOfBlock = true ∧ e'.isOfBlock = true) :
    Concurs extra level ⟨[], some e⟩ ⟨[], some e'⟩ := by
  rcases h with rfl | ⟨hextra, he, he'⟩
  · exact .inl rfl
  · exact .inr ⟨hextra, fails_error he, fails_error he'⟩

/-- The next token is looked for in both texts. -/
theorem concurs_resume (h : Alike extra surplus s s')
    (hnot : ¬ (extra = true ∧ s.IsClosing ∧ s'.IsClosing)) (hs : s.IsOpen level)
    (hs' : s'.IsOpen level)
    (hnext : ∀ t t', Abreast extra surplus t t' → t.IsOpen level → t'.IsOpen level →
      t.weight ≤ s.weight → t'.weight ≤ s'.weight →
      t.cursor.rest.length < s.cursor.rest.length →
      Concurs extra level (deliver fuel t) (deliver fuel t')) :
    Concurs extra level (resume fuel s.fetch) (resume fuel s'.fetch) := by
  rcases (agrees_fetch h hnot).cases with ⟨t, t', hr, hr', habreast⟩ | ⟨e, e', hr, hr', he⟩
  · rw [hr, hr']
    have hsame : t'.finished = t.finished ∧ t'.waiting = t.waiting := by
      rcases habreast with ⟨c', -, rfl⟩ | ⟨-, hclosing⟩
      · exact ⟨rfl, rfl⟩
      · exact ⟨hclosing.finished_eq, hclosing.waiting_eq⟩
    have hfetches := (fetched_fetch s).of_eq_ok hr
    have hfetches' := (fetched_fetch s').of_eq_ok hr'
    rcases hs.fetch.of_eq_ok hr with hfinished | ht
    · exact .inl (deliver_congr_of_finished hfinished (hsame.1.trans hfinished) hsame.2 _)
    rcases hs'.fetch.of_eq_ok hr' with hfinished | ht'
    · exact absurd (hsame.1.symm.trans hfinished) (by simp [ht.unfinished])
    refine hnext t t' habreast ht ht' (hfetches.settles hs.unfinished).weight_le
      (hfetches'.settles hs'.unfinished).weight_le ?_
    rcases hfetches.progresses with ⟨hfinished, -⟩ | ⟨hlt, -⟩
    · exact absurd hfinished (by simp [ht.unfinished])
    · exact hlt
  · rw [hr, hr']
    exact concurs_error he

theorem isUndecided_inText (s : State) : (s.inText surplus c').isUndecided = s.isUndecided := by
  rw [isUndecided, isUndecided, inText, shifted, List.any_map]
  rfl

/-- A token that need not wait is delivered from both texts. -/
theorem concurs_emit (hs : s.IsOpen level) (hwaiting : s'.waiting = s.waiting)
    (hlater : ∀ t rest, s.waiting = t :: rest →
      Concurs extra (level + t.flowChange)
        (deliver fuel { s with waiting := rest, delivered := s.delivered + 1 })
        (deliver fuel { s' with waiting := rest, delivered := s'.delivered + 1 })) :
    Concurs extra level (emit fuel s) (emit fuel s') := by
  rw [emit, emit, hwaiting]
  cases hcons : s.waiting with
  | nil => exact .inl rfl
  | cons t rest =>
      have ht : t ≠ .streamEnd := by
        rintro rfl
        exact hs.streamEnd_not_mem (hcons ▸ List.mem_cons_self)
      dsimp only
      rcases hlater t rest hcons with heq | ⟨hextra, hfails, hfails'⟩
      · exact .inl (by rw [heq])
      · exact .inr ⟨hextra, hfails.cons ht, hfails'.cons ht⟩

theorem concurs_deliver (h : Abreast extra surplus s s') (hs : s.IsOpen level)
    (hs' : s'.IsOpen level) (hfuel : s.weight < fuel) (hfuel' : s'.weight < fuel) :
    Concurs extra level (deliver fuel s) (deliver fuel s') := by
  induction fuel generalizing level s s' with
  | zero => omega
  | succ fuel ih =>
      -- tokens are looked for until one need not wait, each of them further on in the text
      induction hn : s.cursor.rest.length using Nat.strongRecOn generalizing s s' with
      | ind n ihn =>
      rcases h with h | ⟨hextra, hclosing⟩
      · by_cases hnot : extra = true ∧ s.IsClosing ∧ s'.IsClosing
        · obtain ⟨c', -, rfl⟩ := h
          exact concurs_of_closing hnot.1 (closing_inText hnot.2.1 hnot.2.2) hs hs' hfuel hfuel'
        have hresume {t t' : State} (h : Alike extra surplus t t')
            (hcursor : t.cursor = s.cursor) (hcursor' : t'.cursor = s'.cursor)
            (ht : t.IsOpen level) (ht' : t'.IsOpen level) (hweight : t.weight ≤ s.weight)
            (hweight' : t'.weight ≤ s'.weight) :
            Concurs extra level (resume (fuel + 1) t.fetch) (resume (fuel + 1) t'.fetch) := by
          refine concurs_resume h ?_ ht ht' fun u u' hu huopen hu' hle hle' hlt => ?_
          · exact fun hboth => hnot ⟨hboth.1, isClosing_congr hcursor.symm hboth.2.1,
              isClosing_congr hcursor'.symm hboth.2.2⟩
          · exact ihn _ (by rw [← hn, ← hcursor]; exact hlt) hu huopen hu' (by omega) (by omega) rfl
        obtain ⟨c', hc, rfl⟩ := h
        have hwaiting : (s.inText surplus c').waiting = s.waiting := rfl
        rw [deliver_succ hs.unfinished, deliver_succ hs'.unfinished, hwaiting]
        cases s.waiting.isEmpty with
        | true => exact hresume ⟨c', hc, rfl⟩ rfl rfl hs hs' (Nat.le_refl _) (Nat.le_refl _)
        | false =>
            rcases (agrees_dropStale hc).cases with
              ⟨t, t', hr, hr', hcursor, rfl⟩ | ⟨e, e', hr, hr', he⟩
            · have hopen := hs.dropStale.of_eq_ok hr
              have hopen' := hs'.dropStale.of_eq_ok hr'
              have hle := ((meets_dropStale s).of_eq_ok hr).settles.weight_le
              have hle' := ((meets_dropStale _).of_eq_ok hr').settles.weight_le
              have halike : Alike extra surplus t (t.inText surplus c') :=
                ⟨c', hcursor ▸ hc, rfl⟩
              simp only [hr, hr', Bool.false_eq_true, if_false, isUndecided_inText]
              cases t.isUndecided with
              | true => exact hresume halike hcursor rfl hopen hopen' hle hle'
              | false =>
                  refine concurs_emit hopen rfl fun u rest hcons => ?_
                  have hlt := (weight_tail_lt hcons (t.delivered + 1)).trans_le hle
                  have hlt' := (weight_tail_lt (s := t.inText surplus c') hcons
                    ((t.inText surplus c').delivered + 1)).trans_le hle'
                  exact ih (.inl ⟨c', hcursor ▸ hc, rfl⟩) (hopen.tail hcons _)
                    (hopen'.tail hcons _) (hlt.trans_le (Nat.le_of_lt_succ hfuel))
                    (hlt'.trans_le (Nat.le_of_lt_succ hfuel'))
            · rw [hr, hr']
              exact concurs_error he
      · exact concurs_of_closing hextra hclosing hs hs' hfuel hfuel'

end State

theorem concurs_ofChars {extra : Bool} {surplus : Nat → Nat} {cs cs' : List Char}
    (h : Cursor.Alike extra surplus (Cursor.start cs) (Cursor.start cs')) :
    State.Concurs extra 0 (ofChars cs) (ofChars cs') := by
  have hlength : cs.length ≤ cs'.length := h.length_le
  have hweight := weight_start cs
  rw [ofChars, ofChars, State.deliver_eq_of_lt (m := 5 * cs'.length + 8) hweight (by omega)]
  exact State.concurs_deliver (.inl ⟨_, h, rfl⟩) (State.isOpen_start cs) (State.isOpen_start cs')
    (by omega) (weight_start cs')

/-- The tokens of a block do not depend on how its line ends are spelled. -/
theorem ofChars_unifyLineEnds (cs : List Char) : ofChars (unifyLineEnds cs) = ofChars cs := by
  obtain ⟨surplus, hstart⟩ := Cursor.exists_alike_start cs
  rcases concurs_ofChars hstart with heq | ⟨hextra, -⟩
  · exact heq
  · cases hextra

/-- Without block scalars a line feed at the end leaves the tokens as they are, or no graph can be
made of either stream. -/
theorem ofChars_append_lineFeed {cs : List Char} (h : ∀ a ∈ cs, a ≠ '\r' ∧ a ≠ '|' ∧ a ≠ '>') :
    ofChars cs = ofChars (cs ++ ['\n']) ∨
      (ofChars cs).Fails 0 ∧ (ofChars (cs ++ ['\n'])).Fails 0 :=
  (concurs_ofChars (Cursor.alike_start_append h)).imp_right And.right

end TokenStream

end FrontLint.Yaml
