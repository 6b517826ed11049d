import FrontLint.Proofs.Yaml.FlowLevel
import Mathlib.Data.List.Pairwise

/-!
# Levels of block collections

The tokens that have been read tell how many block collections are open, each indented beyond the
one around it. A key may have begun only where a token began.
-/

namespace FrontLint.Yaml

/-- How far a token raises the depth of block collections. -/
def Token.blockChange : Token → Int
  | .blockSequenceStart | .blockMappingStart => 1
  | .blockEnd => -1
  | _ => 0

/-- How far tokens raise the depth of block collections. -/
def blockLevel (ts : List Token) : Int := (ts.map Token.blockChange).sum

@[simp] theorem blockLevel_nil : blockLevel [] = 0 := rfl

@[simp] theorem blockLevel_cons (t : Token) (ts : List Token) :
    blockLevel (t :: ts) = t.blockChange + blockLevel ts := by
  simp [blockLevel]

@[simp] theorem blockLevel_append (ts us : List Token) :
    blockLevel (ts ++ us) = blockLevel ts + blockLevel us := by
  simp [blockLevel]

theorem blockLevel_replicate_blockEnd (n : Nat) :
    blockLevel (List.replicate n .blockEnd) = -n := by
  simp [blockLevel, Token.blockChange]

theorem blockLevel_insert (t : Token) (ts : List Token) (position : Nat) :
    blockLevel (ts.take position ++ t :: ts.drop position) = t.blockChange + blockLevel ts := by
  have h := congrArg blockLevel (List.take_append_drop position ts)
  rw [blockLevel_append] at h
  rw [blockLevel_append, blockLevel_cons]
  omega

/-- A candidate for a key stands between the origin of a text and the place `c`, or at `c`. -/
def Candidate.IsBefore (k : Candidate) (o c : Cursor) : Prop :=
  ∃ d : Cursor, d.IsBehind o ∧ c.IsBehind d ∧ k.index = d.index ∧ k.line = d.line

/-- A candidate for a key stands between the origin of a text and the place `c`, and not at `c`. -/
def Candidate.IsPassed (k : Candidate) (o c : Cursor) : Prop :=
  ∃ d : Cursor, d.IsBehind o ∧ d.rest ≠ [] ∧ c.IsBehind d.next ∧ k.index = d.index ∧
    k.line = d.line

theorem Candidate.IsPassed.of_isBehind {k : Candidate} {o c c' : Cursor} (h : k.IsPassed o c)
    (hc : c'.IsBehind c) : k.IsPassed o c' := by
  obtain ⟨d, ho, hne, hd, hk⟩ := h
  exact ⟨d, ho, hne, hc.trans hd, hk⟩

theorem Candidate.IsPassed.isBefore {k : Candidate} {o c : Cursor} (h : k.IsPassed o c) :
    k.IsBefore o c := by
  obtain ⟨d, ho, -, hd, hk⟩ := h
  exact ⟨d, ho, hd.trans (Cursor.isBehind_next d), hk⟩

theorem Candidate.IsBefore.isPassed {k : Candidate} {o c c' : Cursor} (h : k.IsBefore o c)
    (hc : c'.IsBehind c) (hlt : c'.rest.length < c.rest.length) : k.IsPassed o c' := by
  obtain ⟨d, ho, hd, hk⟩ := h
  obtain ⟨n, hn⟩ := hc.trans hd
  have hle := hd.length_le
  cases n with
  | zero =>
      rw [hn, Cursor.advance] at hlt
      omega
  | succ n =>
      refine ⟨d, ho, ?_, ⟨n, hn⟩, hk⟩
      intro hnil
      rw [hnil] at hle
      simp only [List.length_nil] at hle
      omega

namespace TokenStream.State

variable {o c : Cursor} {s s' : State} {t : Token}

/-- A state whose open block collections are those that its tokens have begun, and whose candidates
stand at the place `c` in a text or before. -/
structure IsNested (o c : Cursor) (s : State) : Prop where
  isBehind : c.IsBehind o
  pairwise : s.indents.Pairwise (· > ·)
  getLast?_eq : s.indents.getLast? = some (-1)
  level_eq : blockLevel s.waiting + 1 = s.indents.length
  isBefore : ∀ k ∈ s.candidates, k.2.IsBefore o c

theorem isNested_start (cs : List Char) : IsNested (.start cs) (.start cs) (start cs) :=
  ⟨Cursor.isBehind_refl _, List.pairwise_singleton _ _, rfl, rfl, nofun⟩

/-- What an action ends in: the end of the block or a state before it. -/
def StaysNested (o c : Cursor) (r : Except Fault State) : Prop :=
  Meets r (fun s => s.finished = true ∨ s.IsNested o c) fun _ => True

theorem staysNested_fetchEnd (s : State) : StaysNested o c s.fetchEnd := by
  rw [fetchEnd]
  exact Meets.bind_of_forall fun _ => .inl rfl

/-- The columns that are kept are the outermost ones. -/
theorem unwound_isSuffix (column : Int) (indents : List Int) :
    (unwound column indents).1 <:+ indents := by
  fun_induction unwound column indents with
  | case1 => exact List.suffix_refl _
  | case2 i rest hi kept n hrest ih =>
      rw [hrest] at ih
      exact ih.trans (List.suffix_cons i rest)
  | case3 i rest hi => exact List.suffix_refl _

theorem getLast?_unwound {column : Int} (hcolumn : -1 ≤ column) {indents : List Int}
    (h : indents.getLast? = some (-1)) : (unwound column indents).1.getLast? = some (-1) := by
  fun_induction unwound column indents with
  | case1 => exact h
  | case2 i rest hi kept n hrest ih =>
      rw [hrest] at ih
      refine ih ?_
      cases rest with
      | nil =>
          rw [List.getLast?_singleton, Option.some_inj] at h
          omega
      | cons j rest => exact h
  | case3 i rest hi => exact h

namespace IsNested

/-- The end of an action that reads a token. -/
theorem emit (h : s.IsNested o c) (ht : t.blockChange = 0) (hindents : s'.indents = s.indents)
    (hwaiting : s'.waiting = s.waiting ++ [t]) (hcandidates : s'.candidates = s.candidates) :
    s'.IsNested o c where
  isBehind := h.isBehind
  pairwise := hindents ▸ h.pairwise
  getLast?_eq := hindents ▸ h.getLast?_eq
  level_eq := by
    rw [hwaiting, hindents, ← h.level_eq, blockLevel_append, blockLevel_cons, ht, blockLevel_nil]
    omega
  isBefore := hcandidates ▸ h.isBefore

theorem withCandidates (h : s.IsNested o c) {candidates : List (Int × Candidate)}
    (hcandidates : candidates ⊆ s.candidates) : IsNested o c { s with candidates := candidates } :=
  ⟨h.isBehind, h.pairwise, h.getLast?_eq, h.level_eq, fun k hk => h.isBefore k (hcandidates hk)⟩

theorem dropStale (h : s.IsNested o c) :
    Meets s.dropStale (fun s' => s'.IsNested o c) fun _ => True := by
  rw [State.dropStale]
  split
  · trivial
  · exact h.withCandidates (fun _ => List.mem_of_mem_filter)

theorem dropCandidate (h : s.IsNested o c) :
    Meets s.dropCandidate (fun s' => s'.IsNested o c) fun _ => True := by
  rw [State.dropCandidate]
  split
  · split
    · trivial
    · exact h.withCandidates (fun _ => List.mem_of_mem_filter)
  · exact h

theorem addCandidate (h : s.IsNested o s.cursor) :
    Meets s.addCandidate (fun s' => s'.IsNested o s.cursor) fun _ => True := by
  rw [State.addCandidate]
  split
  · have hcursor : Meets s.dropCandidate (fun s' => s'.cursor = s.cursor) fun _ => True :=
      (meets_dropCandidate s).mono (fun _ h => h.cursor_eq) fun _ _ => trivial
    refine ((h.dropCandidate.and hcursor).mono (fun _ h => h) fun _ _ => trivial).bind
      fun s' hs' => ⟨h.isBehind, hs'.1.pairwise, hs'.1.getLast?_eq, hs'.1.level_eq, ?_⟩
    rw [List.forall_mem_cons]
    exact ⟨⟨s.cursor, h.isBehind, Cursor.isBehind_refl _, congrArg Cursor.index hs'.2,
      congrArg Cursor.line hs'.2⟩, hs'.1.isBefore⟩
  · exact h

theorem unwind (h : s.IsNested o c) {column : Int} (hcolumn : -1 ≤ column) :
    (s.unwind column).IsNested o c := by
  rw [State.unwind]
  split
  · exact h
  · have hlength := length_unwound column s.indents
    have hlast := getLast?_unwound hcolumn h.getLast?_eq
    have hsuffix := unwound_isSuffix column s.indents
    generalize unwound column s.indents = kept at hlength hlast hsuffix
    refine ⟨h.isBehind, h.pairwise.sublist hsuffix.sublist, hlast, ?_, h.isBefore⟩
    have hlevel := h.level_eq
    simp only [blockLevel_append, blockLevel_replicate_blockEnd]
    omega

theorem openBlock (h : s.IsNested o c) (column : Int) (ht : t.blockChange = 1) (position : Nat) :
    (s.openBlock column t position).IsNested o c := by
  rw [State.openBlock]
  split
  · rename_i hcolumn
    refine ⟨h.isBehind, List.pairwise_cons.2 ⟨fun i hi => ?_, h.pairwise⟩, ?_, ?_, h.isBefore⟩
    · cases hindents : s.indents with
      | nil =>
          rw [hindents] at hi
          cases hi
      | cons j rest =>
          have hsorted := h.pairwise
          rw [hindents] at hi hsorted
          rw [State.indent, hindents, List.headD_cons] at hcolumn
          rcases List.mem_cons.1 hi with rfl | hi
          · exact hcolumn
          · exact Int.lt_trans ((List.pairwise_cons.1 hsorted).1 i hi) hcolumn
    · rw [List.getLast?_cons, h.getLast?_eq]
      rfl
    · have hlevel := h.level_eq
      simp only [blockLevel_insert, ht, List.length_cons]
      omega
  · exact h

theorem openBlockHere (h : s.IsNested o c) (ht : t.blockChange = 1) :
    (s.openBlockHere t).IsNested o c := by
  rw [State.openBlockHere]
  split
  · exact h
  · exact h.openBlock _ ht _

theorem insertKey (h : s.IsNested o c) (k : Candidate) : (s.insertKey k).IsNested o c := by
  rw [State.insertKey]
  have hkey : IsNested o c { s with
      candidates := s.candidates.filter (·.1 != s.depth)
      waiting := s.waiting.take (k.number - s.delivered) ++
        .key :: s.waiting.drop (k.number - s.delivered) } := by
    refine ⟨h.isBehind, h.pairwise, h.getLast?_eq, ?_,
      fun k hk => h.isBefore k (List.mem_of_mem_filter hk)⟩
    rw [blockLevel_insert, show Token.key.blockChange = 0 from rfl, Int.zero_add]
    exact h.level_eq
  split
  · exact hkey
  · exact hkey.openBlock _ rfl _

/-! ## One token -/

theorem fetchDirective (h : s.IsNested o c) : StaysNested o c s.fetchDirective := by
  rw [State.fetchDirective]
  refine (h.unwind (Int.le_refl (-1))).dropCandidate.bind fun s' hs' => ?_
  refine (Cursor.isDirective_directive s'.cursor).bind fun x hx => ?_
  obtain ⟨_, c⟩ := x
  obtain ⟨d, rfl⟩ := hx
  exact .inr (hs'.emit (t := .directive d) rfl rfl rfl rfl)

theorem fetchDocumentMark (h : s.IsNested o c) (ht : t.blockChange = 0) :
    StaysNested o c (s.fetchDocumentMark t) := by
  rw [State.fetchDocumentMark]
  exact (h.unwind (Int.le_refl (-1))).dropCandidate.bind fun _ hs' =>
    .inr (hs'.emit ht rfl rfl rfl)

theorem fetchFlowStart (h : s.IsNested o s.cursor) (ht : t.blockChange = 0) :
    StaysNested o s.cursor (s.fetchFlowStart t) := by
  rw [State.fetchFlowStart]
  exact h.addCandidate.bind fun _ hs' => .inr (hs'.emit ht rfl rfl rfl)

theorem fetchFlowEnd (h : s.IsNested o c) (ht : t.blockChange = 0) :
    StaysNested o c (s.fetchFlowEnd t) := by
  rw [State.fetchFlowEnd]
  exact h.dropCandidate.bind fun _ hs' => .inr (hs'.emit ht rfl rfl rfl)

theorem fetchFlowEntry (h : s.IsNested o c) : StaysNested o c s.fetchFlowEntry := by
  rw [State.fetchFlowEntry]
  exact h.dropCandidate.bind fun _ hs' => .inr (hs'.emit (t := .flowEntry) rfl rfl rfl rfl)

/-- A token that may begin a collection where it stands. -/
theorem opening (h : s.IsNested o c) {entry : Entry} {t u : Token} (ht : t.blockChange = 1)
    (hu : u.blockChange = 0) (allowed : State → Bool) :
    StaysNested o c (do
      s.requireEntry entry
      let s ← (s.openBlockHere t).dropCandidate
      return { s.take 1 u with keyAllowed := allowed s }) :=
  Meets.bind_of_forall fun _ => (h.openBlockHere ht).dropCandidate.bind fun _ hs' =>
    .inr (hs'.emit hu rfl rfl rfl)

theorem fetchBlockEntry (h : s.IsNested o c) : StaysNested o c s.fetchBlockEntry :=
  h.opening (t := .blockSequenceStart) (u := .blockEntry) rfl rfl fun _ => true

theorem fetchKey (h : s.IsNested o c) : StaysNested o c s.fetchKey :=
  h.opening (t := .blockMappingStart) (u := .key) rfl rfl fun s => !s.inFlow

theorem fetchValue (h : s.IsNested o c) : StaysNested o c s.fetchValue := by
  rw [State.fetchValue]
  split
  · exact .inr ((h.insertKey _).emit (t := .value) rfl rfl rfl rfl)
  · exact h.opening (t := .blockMappingStart) (u := .value) rfl rfl fun s => !s.inFlow

theorem fetchNodePart (h : s.IsNested o s.cursor) {read : Cursor → Except Fault (Token × Cursor)}
    (hread : ∀ c, Meets (read c) (fun x => x.1.blockChange = 0) fun _ => True) :
    StaysNested o s.cursor (s.fetchNodePart read) := by
  rw [State.fetchNodePart]
  refine h.addCandidate.bind fun s' hs' => ?_
  exact (hread s'.cursor).bind fun x hx => .inr (hs'.emit hx rfl rfl rfl)

theorem fetchBlockScalar (h : s.IsNested o c) (folded : Bool) :
    StaysNested o c (s.fetchBlockScalar folded) := by
  rw [State.fetchBlockScalar]
  refine h.dropCandidate.bind fun s' hs' => ?_
  refine (Cursor.isScalar_blockScalar folded s'.indent s'.cursor).bind fun x hx => ?_
  obtain ⟨_, c⟩ := x
  obtain ⟨text, rfl⟩ := hx
  exact .inr (hs'.emit (t := .scalar text false) rfl rfl rfl rfl)

theorem fetchPlain (h : s.IsNested o s.cursor) : StaysNested o s.cursor s.fetchPlain := by
  rw [State.fetchPlain]
  refine h.addCandidate.bind fun s' hs' => ?_
  rw [Cursor.plainScalar_eq]
  exact .inr (hs'.emit (t := .scalar _ true) rfl rfl rfl rfl)

theorem fetchToken (h : s.IsNested o s.cursor) : StaysNested o s.cursor s.fetchToken := by
  have hname (part : Part) {make : List Char → Token}
      (hmake : ∀ name, (make name).blockChange = 0) :
      StaysNested o s.cursor (s.fetchNodePart fun c => do
        let x ← c.anchorName part
        return (make x.1, x.2)) :=
    h.fetchNodePart fun _ => Meets.bind_of_forall fun x => hmake x.1
  have hquoted (double : Bool) :
      StaysNested o s.cursor (s.fetchNodePart (Cursor.quotedScalar double)) :=
    h.fetchNodePart fun c => (Cursor.isScalar_quotedScalar double c).mono
      (by rintro ⟨_, _⟩ ⟨text, rfl⟩; rfl) fun _ h => h
  have htag : StaysNested o s.cursor (s.fetchNodePart Cursor.tag) :=
    h.fetchNodePart fun c => (Cursor.isTag_tag c).mono
      (by rintro ⟨_, _⟩ ⟨handle, suffix, rfl⟩; rfl) fun _ h => h
  rw [State.fetchToken]
  refine iteInduction (motive := StaysNested o s.cursor) (fun _ => staysNested_fetchEnd s)
    fun _ => ?_
  refine iteInduction (motive := StaysNested o s.cursor) (fun _ => h.fetchDirective) fun _ => ?_
  refine iteInduction (motive := StaysNested o s.cursor)
    (fun _ => h.fetchDocumentMark (t := .documentStart) rfl) fun _ => ?_
  refine iteInduction (motive := StaysNested o s.cursor)
    (fun _ => h.fetchDocumentMark (t := .documentEnd) rfl) fun _ => ?_
  refine iteInduction (motive := StaysNested o s.cursor)
    (fun _ => h.fetchFlowStart (t := .flowSequenceStart) rfl) fun _ => ?_
  refine iteInduction (motive := StaysNested o s.cursor)
    (fun _ => h.fetchFlowStart (t := .flowMappingStart) rfl) fun _ => ?_
  refine iteInduction (motive := StaysNested o s.cursor)
    (fun _ => h.fetchFlowEnd (t := .flowSequenceEnd) rfl) fun _ => ?_
  refine iteInduction (motive := StaysNested o s.cursor)
    (fun _ => h.fetchFlowEnd (t := .flowMappingEnd) rfl) fun _ => ?_
  refine iteInduction (motive := StaysNested o s.cursor) (fun _ => h.fetchFlowEntry) fun _ => ?_
  refine iteInduction (motive := StaysNested o s.cursor) (fun _ => h.fetchBlockEntry) fun _ => ?_
  refine iteInduction (motive := StaysNested o s.cursor) (fun _ => h.fetchKey) fun _ => ?_
  refine iteInduction (motive := StaysNested o s.cursor) (fun _ => h.fetchValue) fun _ => ?_
  refine iteInduction (motive := StaysNested o s.cursor) (fun _ => hname .alias fun _ => rfl)
    fun _ => ?_
  refine iteInduction (motive := StaysNested o s.cursor) (fun _ => hname .anchor fun _ => rfl)
    fun _ => ?_
  refine iteInduction (motive := StaysNested o s.cursor) (fun _ => htag) fun _ => ?_
  refine iteInduction (motive := StaysNested o s.cursor) (fun _ => h.fetchBlockScalar false)
    fun _ => ?_
  refine iteInduction (motive := StaysNested o s.cursor) (fun _ => h.fetchBlockScalar true)
    fun _ => ?_
  refine iteInduction (motive := StaysNested o s.cursor) (fun _ => hquoted false) fun _ => ?_
  refine iteInduction (motive := StaysNested o s.cursor) (fun _ => hquoted true) fun _ => ?_
  exact iteInduction (motive := StaysNested o s.cursor) (fun _ => h.fetchPlain) fun _ => trivial

end IsNested

end TokenStream.State

end FrontLint.Yaml
