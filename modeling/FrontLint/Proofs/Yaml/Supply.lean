import FrontLint.Proofs.Yaml.Reading
import FrontLint.Yaml.Token.Stream

/-!
# The supply of tokens

Reading one token moves on in the block or ends it. Each character that is passed pays for the
tokens that are put in and for the collections that are opened, so the bounds of the stream are
never used up, and a stream ends before its end only with a fault of a reader.
-/

namespace FrontLint.Yaml.TokenStream

namespace State

variable {s s' s'' : State} {m n : Nat} {t : Token}

/-- The tokens that wait, those that end the open collections, and what the characters ahead
pay for. -/
def load (s : State) : Nat := s.waiting.length + s.indents.length + 5 * s.cursor.rest.length

/-- A state at the same place with at most `n` tokens more, none of which is a tag. -/
structure Extends (n : Nat) (s s' : State) : Prop where
  cursor_eq : s'.cursor = s.cursor
  depth_eq : s'.depth = s.depth
  finished_eq : s'.finished = s.finished
  load_le : s'.load ≤ s.load + n
  isBare : ∀ t ∈ s'.waiting, t ∈ s.waiting ∨ t.IsBare

theorem Extends.trans (h : Extends m s s') (h' : Extends n s' s'') : Extends (m + n) s s'' where
  cursor_eq := h'.cursor_eq.trans h.cursor_eq
  depth_eq := h'.depth_eq.trans h.depth_eq
  finished_eq := h'.finished_eq.trans h.finished_eq
  load_le := by
    have := h.load_le
    have := h'.load_le
    omega
  isBare t ht := (h'.isBare t ht).elim (h.isBare t) .inr

theorem extends_refl (s : State) : Extends 0 s s :=
  ⟨rfl, rfl, rfl, Nat.le_refl _, fun _ ht => .inl ht⟩

theorem extends_candidates (s : State) (candidates : List (Int × Candidate)) :
    Extends 0 s { s with candidates := candidates } :=
  ⟨rfl, rfl, rfl, Nat.le_refl _, fun _ ht => .inl ht⟩

theorem length_unwound (column : Int) (indents : List Int) :
    (unwound column indents).1.length + (unwound column indents).2 = indents.length := by
  fun_induction unwound column indents with
  | case1 => rfl
  | case2 _ _ _ _ _ h ih =>
      rw [h] at ih
      dsimp only at ih ⊢
      rw [List.length_cons]
      omega
  | case3 => simp

theorem extends_unwind (s : State) (column : Int) : Extends 0 s (s.unwind column) := by
  have hlength := length_unwound column s.indents
  rw [unwind]
  split
  · exact extends_refl s
  · refine ⟨rfl, rfl, rfl, ?_, fun t ht => ?_⟩
    · simp only [load, List.length_append, List.length_replicate]
      omega
    · rcases List.mem_append.1 ht with ht | ht
      · exact .inl ht
      · rw [List.eq_of_mem_replicate ht]
        exact .inr trivial

theorem extends_insert (s : State) (candidates : List (Int × Candidate)) (ht : t.IsBare)
    (position : Nat) :
    Extends 1 s { s with
      candidates := candidates
      waiting := s.waiting.take position ++ t :: s.waiting.drop position } := by
  refine ⟨rfl, rfl, rfl, ?_, fun u hu => ?_⟩
  · have := congrArg List.length (List.take_append_drop position s.waiting)
    simp only [load, List.length_append, List.length_cons] at this ⊢
    omega
  · rcases List.mem_append.1 hu with hu | hu
    · exact .inl (List.mem_of_mem_take hu)
    · rcases List.mem_cons.1 hu with rfl | hu
      · exact .inr ht
      · exact .inl (List.mem_of_mem_drop hu)

theorem extends_openBlock (s : State) (column : Int) (ht : t.IsBare) (position : Nat) :
    Extends 2 s (s.openBlock column t position) := by
  rw [openBlock]
  split
  · have h := extends_insert s s.candidates ht position
    refine ⟨rfl, rfl, rfl, ?_, h.isBare⟩
    have := h.load_le
    simp only [load, List.length_cons] at this ⊢
    omega
  · exact ⟨rfl, rfl, rfl, Nat.le_add_right _ 2, fun _ ht => .inl ht⟩

theorem extends_openBlockHere (s : State) (ht : t.IsBare) : Extends 2 s (s.openBlockHere t) := by
  rw [openBlockHere]
  split
  · exact ⟨rfl, rfl, rfl, Nat.le_add_right _ 2, fun _ ht => .inl ht⟩
  · exact extends_openBlock s _ ht _

theorem extends_insertKey (s : State) (k : Candidate) : Extends 3 s (s.insertKey k) := by
  have hkey := extends_insert s (s.candidates.filter (·.1 != s.depth)) (t := .key) trivial
    (k.number - s.delivered)
  rw [insertKey]
  split
  · exact ⟨rfl, rfl, rfl, hkey.load_le.trans (Nat.le_add_right _ 2), hkey.isBare⟩
  · exact hkey.trans (extends_openBlock _ k.column (t := .blockMappingStart) trivial _)

/-! ## One token -/

theorem meets_dropStale (s : State) :
    Meets s.dropStale (Extends 0 s) fun fault => fault.isOfBlock = true := by
  rw [dropStale]
  split
  · rfl
  · exact extends_candidates s _

theorem meets_dropCandidate (s : State) :
    Meets s.dropCandidate (Extends 0 s) fun fault => fault.isOfBlock = true := by
  rw [dropCandidate]
  split
  · split
    · rfl
    · exact extends_candidates s _
  · exact extends_refl s

theorem meets_addCandidate (s : State) :
    Meets s.addCandidate (Extends 0 s) fun fault => fault.isOfBlock = true := by
  rw [addCandidate]
  split
  · exact (meets_dropCandidate s).bind fun s' h => h.trans (extends_candidates s' _)
  · exact extends_refl s

theorem meets_requireEntry (s : State) (entry : Entry) :
    Meets (s.requireEntry entry) (fun _ => True) fun fault => fault.isOfBlock = true := by
  rw [requireEntry]
  split
  · trivial
  · rfl

/-- A token has been read from the text ahead, or its end has been found. -/
structure Fetches (s s' : State) : Prop where
  isBehind : s'.cursor.IsBehind s.cursor
  progresses : s'.finished = true ∧ s'.load ≤ s.load + 1 ∨
    s'.cursor.rest.length < s.cursor.rest.length ∧ s'.load ≤ s.load
  isBare : ∀ t ∈ s'.waiting, t ∈ s.waiting ∨ '!' ∈ s.cursor.rest ∨ t.IsBare

/-- The end of an action that reads a token: four tokens and openings before it are paid for. -/
theorem Extends.fetches (h : Extends n s s') (hn : n ≤ 4) {c : Cursor}
    (hc : c.IsBehind s.cursor.next) (hne : s.cursor.rest ≠ [])
    (ht : '!' ∈ s.cursor.rest ∨ t.IsBare) (hcursor : s''.cursor = c)
    (hwaiting : s''.waiting = s'.waiting ++ [t]) (hindents : s''.indents = s'.indents) :
    Fetches s s'' := by
  have hrest : c.rest.length + 1 ≤ s.cursor.rest.length := by
    have hlength := hc.length_le
    have hpos := List.length_pos_iff.2 hne
    rw [Cursor.rest_next, List.length_tail] at hlength
    omega
  subst hcursor
  refine ⟨hc.trans (Cursor.isBehind_next _), .inr ⟨by omega, ?_⟩, fun u hu => ?_⟩
  · have hload := h.load_le
    have hcursor := h.cursor_eq
    simp only [load, hwaiting, hindents, List.length_append, List.length_singleton, hcursor]
      at hload ⊢
    omega
  · rw [hwaiting] at hu
    rcases List.mem_append.1 hu with hu | hu
    · exact (h.isBare u hu).imp_right .inr
    · rw [List.mem_singleton.1 hu]
      exact .inr ht

theorem Extends.take (h : Extends n s s') (hn : n ≤ 4) (hne : s.cursor.rest ≠ [])
    (ht : t.IsBare) {k : Nat} (hcursor : s''.cursor = Cursor.advance (k + 1) s'.cursor)
    (hwaiting : s''.waiting = s'.waiting ++ [t]) (hindents : s''.indents = s'.indents) :
    Fetches s s'' := by
  refine h.fetches hn ?_ hne (.inr ht) hcursor hwaiting hindents
  rw [h.cursor_eq]
  exact Cursor.isBehind_advance k s.cursor.next

/-- What an action ends in: a token read, or a fault of a reader. -/
def Fetched (s : State) (r : Except Fault State) : Prop :=
  Meets r (Fetches s) (IsReaderFault s.cursor.rest)

theorem fetched_bind {r : Except Fault State} {f : State → Except Fault State}
    (h : Meets r (Extends n s) fun fault => fault.isOfBlock = true)
    (hf : ∀ s', Extends n s s' → Fetched s (f s')) : Fetched s (r >>= f) :=
  Meets.bind (h.mono (fun _ h => h) fun _ h => .inl h) hf

theorem fetched_fetchEnd (s : State) : Fetched s s.fetchEnd := by
  rw [fetchEnd]
  refine fetched_bind (n := 0) ((meets_dropCandidate _).mono
    (fun _ h => (extends_unwind s (-1)).trans h) fun _ h => h) fun s' h => ?_
  refine ⟨?_, .inl ⟨rfl, ?_⟩, fun t ht => ?_⟩
  · exact h.cursor_eq ▸ Cursor.isBehind_refl _
  · have hload := h.load_le
    simp only [load, push, List.length_append, List.length_singleton] at hload ⊢
    omega
  · rcases List.mem_append.1 ht with ht | ht
    · exact (h.isBare t ht).imp_right .inr
    · rw [List.mem_singleton.1 ht]
      exact .inr (.inr trivial)

section

variable (hne : s.cursor.rest ≠ [])
include hne

/-- The end of an action that reads its token with a reader. -/
theorem Extends.fetched_read (h : Extends n s s') (hn : n ≤ 4)
    {r : Except Fault (Token × Cursor)} (hread : Cursor.Reads s.cursor.next r)
    (hbare : Meets r (fun x => '!' ∈ s.cursor.rest ∨ x.1.IsBare) fun _ => True)
    {f : Token × Cursor → State} (hcursor : ∀ x, (f x).cursor = x.2)
    (hwaiting : ∀ x, (f x).waiting = s'.waiting ++ [x.1])
    (hindents : ∀ x, (f x).indents = s'.indents) : Fetched s (r >>= fun x => .ok (f x)) := by
  refine Meets.bind ((Meets.and hread hbare).mono (fun _ h => h) fun _ hfault => ?_) fun x hx => ?_
  · exact hfault.1.of_suffix (Cursor.isBehind_next _).suffix
  · exact h.fetches hn hx.1 hne hx.2 (hcursor x) (hwaiting x) (hindents x)

theorem fetched_fetchDirective : Fetched s s.fetchDirective := by
  rw [fetchDirective]
  refine fetched_bind (n := 0) ((meets_dropCandidate _).mono
    (fun _ h => (extends_unwind s (-1)).trans h) fun _ h => h) fun s' h => ?_
  rw [h.cursor_eq]
  exact h.fetched_read hne (by decide) (Cursor.reads_directive s.cursor)
    ((Cursor.isBare_directive s.cursor).mono (fun _ => .inr) fun _ h => h)
    (fun _ => rfl) (fun _ => rfl) fun _ => rfl

theorem fetched_fetchDocumentMark (ht : t.IsBare) : Fetched s (s.fetchDocumentMark t) := by
  rw [fetchDocumentMark]
  refine fetched_bind (n := 0) ((meets_dropCandidate _).mono
    (fun _ h => (extends_unwind s (-1)).trans h) fun _ h => h) fun s' h => ?_
  exact h.take (by decide) hne ht (k := 2) rfl rfl rfl

theorem fetched_fetchFlowStart (ht : t.IsBare) : Fetched s (s.fetchFlowStart t) := by
  rw [fetchFlowStart]
  exact fetched_bind (meets_addCandidate s) fun s' h =>
    h.take (by decide) hne ht (k := 0) rfl rfl rfl

theorem fetched_fetchFlowEnd (ht : t.IsBare) : Fetched s (s.fetchFlowEnd t) := by
  rw [fetchFlowEnd]
  exact fetched_bind (meets_dropCandidate s) fun s' h =>
    h.take (by decide) hne ht (k := 0) rfl rfl rfl

theorem fetched_fetchFlowEntry : Fetched s s.fetchFlowEntry := by
  rw [fetchFlowEntry]
  exact fetched_bind (meets_dropCandidate s) fun s' h =>
    h.take (by decide) hne (t := .flowEntry) trivial (k := 0) rfl rfl rfl

/-- A token that may begin a collection where it stands. -/
theorem fetched_opening {entry : Entry} {t u : Token} (ht : t.IsBare) (hu : u.IsBare)
    (allowed : State → Bool) :
    Fetched s (do
      s.requireEntry entry
      let s ← (s.openBlockHere t).dropCandidate
      return { s.take 1 u with keyAllowed := allowed s }) := by
  refine Meets.bind ((meets_requireEntry s entry).mono (fun _ h => h) fun _ h => .inl h)
    fun _ _ => ?_
  refine fetched_bind (n := 2) ((meets_dropCandidate _).mono
    (fun _ h => (extends_openBlockHere s ht).trans h) fun _ h => h) fun s' h => ?_
  exact h.take (by decide) hne hu (k := 0) rfl rfl rfl

theorem fetched_fetchBlockEntry : Fetched s s.fetchBlockEntry :=
  fetched_opening hne (t := .blockSequenceStart) (u := .blockEntry) trivial trivial fun _ => true

theorem fetched_fetchKey : Fetched s s.fetchKey :=
  fetched_opening hne (t := .blockMappingStart) (u := .key) trivial trivial fun s => !s.inFlow

theorem fetched_fetchValue : Fetched s s.fetchValue := by
  rw [fetchValue]
  split
  · exact (extends_insertKey s _).take (by decide) hne (t := .value) trivial (k := 0) rfl rfl rfl
  · exact fetched_opening hne (t := .blockMappingStart) (u := .value) trivial trivial
      fun s => !s.inFlow

theorem fetched_fetchNodePart {read : Cursor → Except Fault (Token × Cursor)}
    (hread : Cursor.Reads s.cursor.next (read s.cursor))
    (hbare : Meets (read s.cursor) (fun x => '!' ∈ s.cursor.rest ∨ x.1.IsBare) fun _ => True) :
    Fetched s (s.fetchNodePart read) := by
  rw [fetchNodePart]
  refine fetched_bind (meets_addCandidate s) fun s' h => ?_
  rw [h.cursor_eq]
  exact h.fetched_read hne (by decide) hread hbare (fun _ => rfl) (fun _ => rfl) fun _ => rfl

theorem fetched_anchorName (part : Part) {make : List Char → Token}
    (hmake : ∀ name, (make name).IsBare) :
    Fetched s (s.fetchNodePart fun c => do
      let (name, c) ← c.anchorName part
      return (make name, c)) := by
  refine fetched_fetchNodePart hne ?_ ?_
  · exact (Cursor.reads_anchorName part s.cursor).bind fun _ c' _ =>
      Cursor.reads_ok (Cursor.isBehind_refl c')
  · exact Meets.bind_of_forall fun x => .inr (hmake x.1)

theorem fetched_quotedScalar (double : Bool) :
    Fetched s (s.fetchNodePart (Cursor.quotedScalar double)) :=
  fetched_fetchNodePart hne (Cursor.reads_quotedScalar double s.cursor)
    ((Cursor.isBare_quotedScalar double s.cursor).mono (fun _ => .inr) fun _ h => h)

theorem fetched_fetchBlockScalar (folded : Bool) : Fetched s (s.fetchBlockScalar folded) := by
  rw [fetchBlockScalar]
  refine fetched_bind (meets_dropCandidate s) fun s' h => ?_
  rw [h.cursor_eq]
  exact h.fetched_read hne (by decide) (Cursor.reads_blockScalar folded s'.indent s.cursor)
    ((Cursor.isBare_blockScalar folded s'.indent s.cursor).mono (fun _ => .inr) fun _ h => h)
    (fun _ => rfl) (fun _ => rfl) fun _ => rfl

theorem plainWord_of_isAtPlain (h : s.isAtPlain = true) :
    s.cursor.head ≠ '#' ∧ Cursor.plainWord s.inFlow s.cursor.rest ≠ [] := by
  obtain ⟨a, rest, hrest⟩ := List.exists_cons_of_ne_nil hne
  have hpeek : s.cursor.peek 1 = rest.headD endMark := by
    cases rest <;> simp [Cursor.peek, hrest]
  have hhead : s.cursor.head = a := by rw [Cursor.head, hrest, List.headD_cons]
  rw [isAtPlain, hhead, hpeek, Bool.or_eq_true] at h
  rw [hhead, hrest]
  rcases h with h | h
  · rw [Bool.not_eq_true', Bool.or_eq_false_iff] at h
    have hmark {b : Char} (hb : isIndicator b = true) : a ≠ b := by
      rintro rfl
      simp_all
    refine ⟨hmark (by decide), ?_⟩
    simp [Cursor.plainWord, Cursor.isFlowMark, h.1, hmark (b := ':') (by decide),
      hmark (b := ',') (by decide), hmark (b := '[') (by decide), hmark (b := ']') (by decide),
      hmark (b := '\x7b') (by decide), hmark (b := '\x7d') (by decide),
      hmark (b := '?') (by decide)]
  · simp only [Bool.and_eq_true, Bool.or_eq_true, Bool.not_eq_true', beq_iff_eq] at h
    rcases h with ⟨hnext, rfl | ⟨hflow, rfl | rfl⟩⟩
    · simp [Cursor.plainWord, Cursor.isFlowMark, isSeparator, isSpaceOrBreak, isBreakOrEnd,
        endMark]
    · simp [Cursor.plainWord, hflow, isSeparator, isSpaceOrBreak, isBreakOrEnd, endMark]
    · rw [List.headD_eq_head?_getD] at hnext
      have hcolon : isSeparator ':' = false := by decide
      simp [Cursor.plainWord, Cursor.endsPlainKey, hflow, hcolon, hnext]

theorem fetched_fetchPlain (h : s.isAtPlain = true) : Fetched s s.fetchPlain := by
  obtain ⟨hhead, hword⟩ := plainWord_of_isAtPlain hne h
  rw [fetchPlain]
  refine fetched_bind (meets_addCandidate s) fun s' hs' => ?_
  have hflow : s'.inFlow = s.inFlow := by rw [inFlow, inFlow, hs'.depth_eq]
  rw [hs'.cursor_eq, hflow]
  exact hs'.fetches (by decide) (Cursor.isBehind_plainScalar s'.indent hhead hword) hne
    (.inr (Cursor.isBare_plainScalar _ _ _)) rfl rfl rfl

end

/-- The token that begins a text. -/
theorem fetched_fetchToken (s : State) : Fetched s s.fetchToken := by
  by_cases hend : s.cursor.head = endMark
  · have h : s.fetchToken = s.fetchEnd := by
      rw [fetchToken]
      simp [hend]
    rw [h]
    exact fetched_fetchEnd s
  · have hne : s.cursor.rest ≠ [] := by
      intro h
      exact hend (by rw [Cursor.head, h, List.headD_nil])
    rw [fetchToken]
    refine iteInduction (motive := Fetched s) (fun _ => fetched_fetchEnd s) fun _ => ?_
    refine iteInduction (motive := Fetched s) (fun _ => fetched_fetchDirective hne) fun _ => ?_
    refine iteInduction (motive := Fetched s)
      (fun _ => fetched_fetchDocumentMark hne (t := .documentStart) trivial) fun _ => ?_
    refine iteInduction (motive := Fetched s)
      (fun _ => fetched_fetchDocumentMark hne (t := .documentEnd) trivial) fun _ => ?_
    refine iteInduction (motive := Fetched s)
      (fun _ => fetched_fetchFlowStart hne (t := .flowSequenceStart) trivial) fun _ => ?_
    refine iteInduction (motive := Fetched s)
      (fun _ => fetched_fetchFlowStart hne (t := .flowMappingStart) trivial) fun _ => ?_
    refine iteInduction (motive := Fetched s)
      (fun _ => fetched_fetchFlowEnd hne (t := .flowSequenceEnd) trivial) fun _ => ?_
    refine iteInduction (motive := Fetched s)
      (fun _ => fetched_fetchFlowEnd hne (t := .flowMappingEnd) trivial) fun _ => ?_
    refine iteInduction (motive := Fetched s) (fun _ => fetched_fetchFlowEntry hne) fun _ => ?_
    refine iteInduction (motive := Fetched s) (fun _ => fetched_fetchBlockEntry hne) fun _ => ?_
    refine iteInduction (motive := Fetched s) (fun _ => fetched_fetchKey hne) fun _ => ?_
    refine iteInduction (motive := Fetched s) (fun _ => fetched_fetchValue hne) fun _ => ?_
    refine iteInduction (motive := Fetched s)
      (fun _ => fetched_anchorName hne .alias fun _ => trivial) fun _ => ?_
    refine iteInduction (motive := Fetched s)
      (fun _ => fetched_anchorName hne .anchor fun _ => trivial) fun _ => ?_
    refine iteInduction (motive := Fetched s) (fun h => ?_) fun _ => ?_
    · have hmark : '!' ∈ s.cursor.rest := Cursor.mem_of_head (beq_iff_eq.1 h) (by decide)
      exact fetched_fetchNodePart hne (Cursor.reads_tag s.cursor)
        (Meets.of_forall fun _ => .inl hmark)
    refine iteInduction (motive := Fetched s)
      (fun _ => fetched_fetchBlockScalar hne false) fun _ => ?_
    refine iteInduction (motive := Fetched s)
      (fun _ => fetched_fetchBlockScalar hne true) fun _ => ?_
    refine iteInduction (motive := Fetched s)
      (fun _ => fetched_quotedScalar hne false) fun _ => ?_
    refine iteInduction (motive := Fetched s)
      (fun _ => fetched_quotedScalar hne true) fun _ => ?_
    exact iteInduction (motive := Fetched s) (fetched_fetchPlain hne) fun _ => .inl rfl

/-! ## The whole supply -/

/-- Moving on in the text without a token. -/
structure Skips (s s' : State) : Prop where
  isBehind : s'.cursor.IsBehind s.cursor
  load_le : s'.load ≤ s.load
  isBare : ∀ t ∈ s'.waiting, t ∈ s.waiting ∨ t.IsBare

theorem Extends.skips (h : Extends 0 s s') : Skips s s' :=
  ⟨h.cursor_eq ▸ Cursor.isBehind_refl _, h.load_le, h.isBare⟩

theorem Skips.trans (h : Skips s s') (h' : Skips s' s'') : Skips s s'' where
  isBehind := h'.isBehind.trans h.isBehind
  load_le := h'.load_le.trans h.load_le
  isBare t ht := (h'.isBare t ht).elim (h.isBare t) .inr

theorem skips_cursor {c : Cursor} (h : c.IsBehind s.cursor) (keyAllowed : Bool) :
    Skips s { s with cursor := c, keyAllowed := keyAllowed } := by
  refine ⟨h, ?_, fun _ ht => .inl ht⟩
  have := h.length_le
  simp only [load]
  omega

theorem skips_skipBlankLines (fuel : Nat) (s : State) : Skips s (skipBlankLines fuel s) := by
  have hblank (s : State) : s.cursor.skipSpaces.skipComment.IsBehind s.cursor :=
    (Cursor.isBehind_skipComment _).trans (Cursor.isBehind_skipSpaces _)
  fun_induction skipBlankLines fuel s with
  | case1 s => exact (extends_refl s).skips
  | case2 _ s _ _ _ h ih =>
      exact (skips_cursor ((Cursor.isBehind_of_lineBreak? h).trans (hblank s)) _).trans ih
  | case3 _ s => exact skips_cursor (hblank s) s.keyAllowed

theorem skips_skipToToken (s : State) : Skips s s.skipToToken := by
  rw [skipToToken]
  refine Skips.trans (skips_cursor ?_ s.keyAllowed) (skips_skipBlankLines _ _)
  split
  · exact Cursor.isBehind_next _
  · exact Cursor.isBehind_refl _

theorem Fetches.of_skips (h : Skips s s') (h' : Fetches s' s'') : Fetches s s'' where
  isBehind := h'.isBehind.trans h.isBehind
  progresses := by
    have hlength := h.isBehind.length_le
    have hload := h.load_le
    rcases h'.progresses with ⟨hfinished, hload'⟩ | ⟨hlength', hload'⟩
    · exact .inl ⟨hfinished, by omega⟩
    · exact .inr ⟨by omega, by omega⟩
  isBare t ht := by
    rcases h'.isBare t ht with ht | hmark | ht
    · exact (h.isBare t ht).imp_right .inr
    · exact .inr (.inl (h.isBehind.suffix.mem hmark))
    · exact .inr (.inr ht)

theorem fetched_fetch (s : State) : Fetched s s.fetch := by
  have hskip := skips_skipToToken s
  rw [fetch]
  refine Meets.bind ((meets_dropStale _).mono (fun _ h => h) fun _ h => .inl h) fun s' h => ?_
  have hunwind := (hskip.trans h.skips).trans (extends_unwind s' s'.cursor.column).skips
  exact (fetched_fetchToken _).mono (fun _ hs => hs.of_skips hunwind)
    fun _ hfault => hfault.of_suffix hunwind.isBehind.suffix

/-- What is still to come: the load, and the end of the stream. -/
def weight (s : State) : Nat := s.load + if s.finished then 0 else 1

theorem weight_tail_lt {rest : List Token} (h : s.waiting = t :: rest) (delivered : Nat) :
    { s with waiting := rest, delivered := delivered }.weight < s.weight := by
  simp only [weight, load, h, List.length_cons]
  omega

/-- Reading tokens until one need not wait. -/
structure Settles (s s' : State) : Prop where
  isBehind : s'.cursor.IsBehind s.cursor
  weight_le : s'.weight ≤ s.weight
  isBare : ∀ t ∈ s'.waiting, t ∈ s.waiting ∨ '!' ∈ s.cursor.rest ∨ t.IsBare

theorem settles_refl (s : State) : Settles s s :=
  ⟨Cursor.isBehind_refl _, Nat.le_refl _, fun _ ht => .inl ht⟩

theorem Settles.trans (h : Settles s s') (h' : Settles s' s'') : Settles s s'' where
  isBehind := h'.isBehind.trans h.isBehind
  weight_le := h'.weight_le.trans h.weight_le
  isBare t ht := by
    rcases h'.isBare t ht with ht | hmark | ht
    · exact h.isBare t ht
    · exact .inr (.inl (h.isBehind.suffix.mem hmark))
    · exact .inr (.inr ht)

theorem Extends.settles (h : Extends 0 s s') : Settles s s' := by
  refine ⟨h.skips.isBehind, ?_, fun t ht => (h.isBare t ht).imp_right .inr⟩
  rw [weight, weight, h.finished_eq]
  exact Nat.add_le_add_right h.load_le _

theorem Fetches.settles (h : Fetches s s') (hs : s.finished = false) : Settles s s' := by
  refine ⟨h.isBehind, ?_, h.isBare⟩
  rcases h.progresses with ⟨hfinished, hload⟩ | ⟨-, hload⟩
  · simpa [weight, hfinished, hs] using hload
  · rw [weight, weight, hs]
    exact Nat.add_le_add hload (by split <;> simp)

/-- Each reading of a token passes a character or ends the stream, so the readings come to an
end before the characters do. -/
theorem meets_settle {fuel : Nat} (s : State)
    (h : s.finished = true ∧ 0 < fuel ∨ s.cursor.rest.length + 2 ≤ fuel) :
    Meets (settle fuel s) (Settles s) (IsReaderFault s.cursor.rest) := by
  induction fuel generalizing s with
  | zero => omega
  | succ fuel ih =>
      have hfetch {s : State} (hs : s.finished = false)
          (hlength : s.cursor.rest.length + 2 ≤ fuel + 1) :
          Meets (s.fetch >>= settle fuel) (Settles s) (IsReaderFault s.cursor.rest) := by
        refine Meets.bind (fetched_fetch s) fun s' h' => ?_
        refine (ih s' ?_).mono (fun _ h => (h'.settles hs).trans h)
          fun _ hfault => hfault.of_suffix h'.isBehind.suffix
        rcases h'.progresses with ⟨hfinished, -⟩ | ⟨hprogress, -⟩
        · exact .inl ⟨hfinished, by omega⟩
        · exact .inr (by omega)
      rw [settle]
      split
      · exact settles_refl s
      · rename_i hs
        rw [Bool.not_eq_true] at hs
        have hlength : s.cursor.rest.length + 2 ≤ fuel + 1 := by simpa [hs] using h
        split
        · exact hfetch hs hlength
        · refine Meets.bind ((meets_dropStale s).mono (fun _ h => h) fun _ h => .inl h)
            fun s' h' => ?_
          split
          · rw [← h'.cursor_eq] at hlength ⊢
            exact (hfetch (h'.finished_eq.trans hs) hlength).mono (fun _ h => h'.settles.trans h)
              fun _ hfault => hfault
          · exact h'.settles

/-- The tokens that come, and the fault behind them. -/
theorem deliver_supplies {fuel : Nat} (s : State) (h : s.weight < fuel) :
    (∀ t ∈ (deliver fuel s).tokens, t ∈ s.waiting ∨ '!' ∈ s.cursor.rest ∨ t.IsBare) ∧
      ∀ fault ∈ (deliver fuel s).fault, IsReaderFault s.cursor.rest fault := by
  induction fuel generalizing s with
  | zero => omega
  | succ fuel ih =>
      have hsettle := meets_settle s (.inr (Nat.le_refl (s.cursor.rest.length + 2)))
      rw [deliver]
      split
      · rename_i fault heq
        refine ⟨fun t ht => (List.not_mem_nil ht).elim, ?_⟩
        rintro _ ⟨⟩
        exact hsettle.of_eq_error heq
      · rename_i s' heq
        have hsettles := hsettle.of_eq_ok heq
        split
        · exact ⟨fun t ht => (List.not_mem_nil ht).elim, fun _ h => by cases h⟩
        · rename_i t rest hwaiting
          have hlt := (weight_tail_lt hwaiting (s'.delivered + 1)).trans_le hsettles.weight_le
          obtain ⟨htokens, hfault⟩ := ih _ (hlt.trans_le (Nat.le_of_lt_succ h))
          refine ⟨fun u hu => ?_, fun fault h =>
            (hfault fault h).of_suffix hsettles.isBehind.suffix⟩
          rcases List.mem_cons.1 hu with rfl | hu
          · exact hsettles.isBare u (hwaiting ▸ List.mem_cons_self)
          · rcases htokens u hu with hu | hmark | hu
            · exact hsettles.isBare u (hwaiting ▸ List.mem_cons_of_mem t hu)
            · exact .inr (.inl (hsettles.isBehind.suffix.mem hmark))
            · exact .inr (.inr hu)

end State

variable (cs : List Char)

theorem weight_start : (State.start cs).weight < 5 * cs.length + 8 := by
  simp [State.start, State.weight, State.load, Cursor.start]
  omega

/-- Only a block with an exclamation mark has tags. -/
theorem isBare_of_mem_ofChars {t : Token} (ht : t ∈ (ofChars cs).tokens) :
    '!' ∈ cs ∨ t.IsBare :=
  ((State.deliver_supplies _ (weight_start cs)).1 t ht).elim (fun h => nomatch h) id

/-- The stream of a block breaks off only at a fault of a reader. -/
theorem isReaderFault_of_mem_ofChars {fault : Fault} (h : fault ∈ (ofChars cs).fault) :
    IsReaderFault cs fault :=
  (State.deliver_supplies _ (weight_start cs)).2 fault h

end FrontLint.Yaml.TokenStream
