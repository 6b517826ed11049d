import FrontLint.Proofs.Yaml.Supply
import Mathlib.Algebra.Ring.Int.Defs

/-!
# Levels of flow collections

The tokens that have been read tell how deep in flow collections the reader is. Before the end of
a block each depth has at most one candidate for a key, and only one outside of flow collections
may be required.
-/

namespace FrontLint.Yaml

/-- How far a token raises the depth of flow collections. -/
def Token.flowChange : Token → Int
  | .flowSequenceStart | .flowMappingStart => 1
  | .flowSequenceEnd | .flowMappingEnd => -1
  | _ => 0

/-- How far tokens raise the depth of flow collections. -/
def flowLevel (ts : List Token) : Int := (ts.map Token.flowChange).sum

@[simp] theorem flowLevel_nil : flowLevel [] = 0 := rfl

@[simp] theorem flowLevel_cons (t : Token) (ts : List Token) :
    flowLevel (t :: ts) = t.flowChange + flowLevel ts := by
  simp [flowLevel]

@[simp] theorem flowLevel_append (ts us : List Token) :
    flowLevel (ts ++ us) = flowLevel ts + flowLevel us := by
  simp [flowLevel]

/-- A token that neither begins or ends a flow collection nor ends the stream. -/
def Token.IsInner (t : Token) : Prop := t.flowChange = 0 ∧ t ≠ .streamEnd

namespace TokenStream.State

variable {level : Int} {s s' : State} {t : Token}

/-- A state before the end of a block, where the tokens before those that wait have raised the
depth to `level`. -/
structure IsOpen (level : Int) (s : State) : Prop where
  unfinished : s.finished = false
  depth_eq : s.depth = level + flowLevel s.waiting
  streamEnd_not_mem : .streamEnd ∉ s.waiting
  nodup : (s.candidates.map Prod.fst).Nodup
  depth_of_required : ∀ k ∈ s.candidates, k.2.required = true → k.1 = 0

theorem isOpen_start (cs : List Char) : IsOpen 0 (start cs) :=
  ⟨rfl, rfl, List.not_mem_nil, List.nodup_nil, nofun⟩

/-- What an action ends in: the end of the block or a state before it. -/
def StaysOpen (level : Int) (r : Except Fault State) : Prop :=
  Meets r (fun s => s.finished = true ∨ s.IsOpen level) fun _ => True

theorem staysOpen_fetchEnd (s : State) : StaysOpen level s.fetchEnd := by
  rw [fetchEnd]
  exact Meets.bind_of_forall fun _ => .inl rfl

namespace IsOpen

/-- The end of an action that reads a token. -/
theorem emit (h : s.IsOpen level) (ht : t ≠ .streamEnd) (hfinished : s'.finished = s.finished)
    (hwaiting : s'.waiting = s.waiting ++ [t]) (hdepth : s'.depth = s.depth + t.flowChange)
    (hcandidates : s'.candidates = s.candidates) : s'.IsOpen level where
  unfinished := hfinished.trans h.unfinished
  depth_eq := by
    rw [hdepth, hwaiting, h.depth_eq, flowLevel_append, flowLevel_cons, flowLevel_nil]
    omega
  streamEnd_not_mem := by
    rw [hwaiting, List.mem_append, List.mem_singleton, not_or]
    exact ⟨h.streamEnd_not_mem, ht.symm⟩
  nodup := hcandidates ▸ h.nodup
  depth_of_required := hcandidates ▸ h.depth_of_required

/-- A state with fewer candidates and more tokens that leave the depth as it is. -/
theorem insert (h : s.IsOpen level) (ht : t.IsInner) (position : Nat)
    (hfinished : s'.finished = s.finished) (hdepth : s'.depth = s.depth)
    (hcandidates : s'.candidates.Sublist s.candidates)
    (hwaiting : s'.waiting = s.waiting.take position ++ t :: s.waiting.drop position) :
    s'.IsOpen level where
  unfinished := hfinished.trans h.unfinished
  depth_eq := by
    have hlevel := congrArg flowLevel (List.take_append_drop position s.waiting)
    rw [flowLevel_append] at hlevel
    rw [hdepth, hwaiting, h.depth_eq, flowLevel_append, flowLevel_cons, ht.1]
    omega
  streamEnd_not_mem := by
    rw [hwaiting, List.mem_append, List.mem_cons, not_or, not_or]
    exact ⟨fun hmem => h.streamEnd_not_mem (List.mem_of_mem_take hmem), ht.2.symm,
      fun hmem => h.streamEnd_not_mem (List.mem_of_mem_drop hmem)⟩
  nodup := h.nodup.sublist (hcandidates.map _)
  depth_of_required k hk := h.depth_of_required k (hcandidates.subset hk)

theorem withCandidates (h : s.IsOpen level) {candidates : List (Int × Candidate)}
    (hcandidates : candidates.Sublist s.candidates) :
    IsOpen level { s with candidates := candidates } where
  unfinished := h.unfinished
  depth_eq := h.depth_eq
  streamEnd_not_mem := h.streamEnd_not_mem
  nodup := h.nodup.sublist (hcandidates.map _)
  depth_of_required k hk := h.depth_of_required k (hcandidates.subset hk)

theorem withCursor (h : s.IsOpen level) (c : Cursor) (keyAllowed : Bool) :
    IsOpen level { s with cursor := c, keyAllowed := keyAllowed } :=
  ⟨h.unfinished, h.depth_eq, h.streamEnd_not_mem, h.nodup, h.depth_of_required⟩

/-- The first token that waits need not wait any more. -/
theorem tail (h : s.IsOpen level) {rest : List Token} (hwaiting : s.waiting = t :: rest)
    (delivered : Nat) :
    IsOpen (level + t.flowChange) { s with waiting := rest, delivered := delivered } where
  unfinished := h.unfinished
  depth_eq := by
    have hdepth := h.depth_eq
    rw [hwaiting, flowLevel_cons] at hdepth
    dsimp only
    omega
  streamEnd_not_mem hmem := h.streamEnd_not_mem (hwaiting ▸ List.mem_cons_of_mem t hmem)
  nodup := h.nodup
  depth_of_required := h.depth_of_required

theorem skipToToken (h : s.IsOpen level) : s.skipToToken.IsOpen level := by
  have hblank (fuel : Nat) (s : State) (h : s.IsOpen level) :
      (skipBlankLines fuel s).IsOpen level := by
    fun_induction skipBlankLines fuel s with
    | case1 => exact h
    | case2 _ s _ _ c _ ih => exact ih (h.withCursor c (s.keyAllowed || !s.inFlow))
    | case3 _ s => exact h.withCursor _ s.keyAllowed
  exact hblank _ _ (h.withCursor _ s.keyAllowed)

theorem dropStale (h : s.IsOpen level) :
    Meets s.dropStale (fun s' => s'.IsOpen level) fun _ => True := by
  rw [State.dropStale]
  split
  · trivial
  · exact h.withCandidates List.filter_sublist

/-- Then no candidate is left at the present depth. -/
theorem dropCandidate (h : s.IsOpen level) :
    Meets s.dropCandidate
      (fun s' => s'.IsOpen level ∧ s'.depth = s.depth ∧ ∀ k ∈ s'.candidates, k.1 ≠ s.depth)
      fun _ => True := by
  rw [State.dropCandidate]
  split
  · split
    · trivial
    · refine ⟨h.withCandidates List.filter_sublist, rfl, fun k hk => ?_⟩
      simpa using (List.mem_filter.1 hk).2
  · rename_i hnone
    refine ⟨h, rfl, fun k hk hdepth => ?_⟩
    have := List.lookup_eq_none_iff.1 hnone k hk
    simp [hdepth] at this

theorem addCandidate (h : s.IsOpen level) :
    Meets s.addCandidate (fun s' => s'.IsOpen level) fun _ => True := by
  rw [State.addCandidate]
  split
  · refine h.dropCandidate.bind fun s' hs' => ?_
    obtain ⟨hs', hdepth, hfresh⟩ := hs'
    refine ⟨hs'.unfinished, hs'.depth_eq, hs'.streamEnd_not_mem, ?_, ?_⟩
    · refine List.nodup_cons.2 ⟨?_, hs'.nodup⟩
      simp only [List.mem_map, not_exists, not_and]
      exact fun k hk hkd => hfresh k hk (hkd.trans hdepth)
    · rw [List.forall_mem_cons]
      refine ⟨fun hrequired => ?_, hs'.depth_of_required⟩
      simp only [inFlow, Bool.and_eq_true, Bool.not_eq_true', bne_eq_false_iff_eq] at hrequired
      exact hdepth.trans hrequired.1
  · exact h

theorem unwind (h : s.IsOpen level) (column : Int) : (s.unwind column).IsOpen level := by
  rw [State.unwind]
  split
  · exact h
  · generalize unwound column s.indents = kept
    have hlevel (n : Nat) : flowLevel (List.replicate n .blockEnd) = 0 := by
      simp [flowLevel, Token.flowChange]
    refine ⟨h.unfinished, ?_, ?_, h.nodup, h.depth_of_required⟩
    · rw [h.depth_eq, flowLevel_append, hlevel, Int.add_zero]
    · rw [List.mem_append, not_or]
      exact ⟨h.streamEnd_not_mem, fun hmem => by cases List.eq_of_mem_replicate hmem⟩

theorem openBlock (h : s.IsOpen level) (column : Int) (ht : t.IsInner) (position : Nat) :
    (s.openBlock column t position).IsOpen level := by
  rw [State.openBlock]
  split
  · exact h.insert ht position rfl rfl (List.Sublist.refl _) rfl
  · exact h

theorem openBlockHere (h : s.IsOpen level) (ht : t.IsInner) :
    (s.openBlockHere t).IsOpen level := by
  rw [State.openBlockHere]
  split
  · exact h
  · exact h.openBlock _ ht _

theorem insertKey (h : s.IsOpen level) (k : Candidate) : (s.insertKey k).IsOpen level := by
  rw [State.insertKey]
  have hkey : IsOpen level { s with
      candidates := s.candidates.filter (·.1 != s.depth)
      waiting := s.waiting.take (k.number - s.delivered) ++
        .key :: s.waiting.drop (k.number - s.delivered) } :=
    h.insert (t := .key) ⟨rfl, by simp⟩ _ rfl rfl List.filter_sublist rfl
  split
  · exact hkey
  · exact hkey.openBlock _ (t := .blockMappingStart) ⟨rfl, by simp⟩ _

/-! ## One token -/

/-- The end of an action that reads a token with no part in flow collections. -/
theorem emitInner (h : s.IsOpen level) (ht : t.IsInner) (hfinished : s'.finished = s.finished)
    (hwaiting : s'.waiting = s.waiting ++ [t]) (hdepth : s'.depth = s.depth)
    (hcandidates : s'.candidates = s.candidates) : s'.IsOpen level :=
  h.emit ht.2 hfinished hwaiting (by rw [ht.1, hdepth, Int.add_zero]) hcandidates

theorem fetchDirective (h : s.IsOpen level) : StaysOpen level s.fetchDirective := by
  rw [State.fetchDirective]
  refine (h.unwind (-1)).dropCandidate.bind fun s' hs' => ?_
  refine (Cursor.isDirective_directive s'.cursor).bind fun x hx => ?_
  obtain ⟨_, c⟩ := x
  obtain ⟨d, rfl⟩ := hx
  exact .inr (hs'.1.emitInner (t := .directive d) ⟨rfl, by simp⟩ rfl rfl rfl rfl)

theorem fetchDocumentMark (h : s.IsOpen level) (ht : t.IsInner) :
    StaysOpen level (s.fetchDocumentMark t) := by
  rw [State.fetchDocumentMark]
  refine (h.unwind (-1)).dropCandidate.bind fun s' hs' => ?_
  exact .inr (hs'.1.emitInner ht rfl rfl rfl rfl)

theorem fetchFlowStart (h : s.IsOpen level) (ht : t.flowChange = 1) :
    StaysOpen level (s.fetchFlowStart t) := by
  rw [State.fetchFlowStart]
  refine h.addCandidate.bind fun s' hs' => ?_
  refine .inr (hs'.emit (t := t) ?_ rfl rfl (by rw [ht]) rfl)
  rintro rfl
  cases ht

theorem fetchFlowEnd (h : s.IsOpen level) (ht : t.flowChange = -1) :
    StaysOpen level (s.fetchFlowEnd t) := by
  rw [State.fetchFlowEnd]
  refine h.dropCandidate.bind fun s' hs' => ?_
  refine .inr (hs'.1.emit (t := t) ?_ rfl rfl (by rw [ht]; rfl) rfl)
  rintro rfl
  cases ht

theorem fetchFlowEntry (h : s.IsOpen level) : StaysOpen level s.fetchFlowEntry := by
  rw [State.fetchFlowEntry]
  refine h.dropCandidate.bind fun s' hs' => ?_
  exact .inr (hs'.1.emitInner (t := .flowEntry) ⟨rfl, by simp⟩ rfl rfl rfl rfl)

/-- A token that may begin a collection where it stands. -/
theorem opening (h : s.IsOpen level) {entry : Entry} {t u : Token} (ht : t.IsInner)
    (hu : u.IsInner) (allowed : State → Bool) :
    StaysOpen level (do
      s.requireEntry entry
      let s ← (s.openBlockHere t).dropCandidate
      return { s.take 1 u with keyAllowed := allowed s }) := by
  refine Meets.bind_of_forall fun _ => ?_
  refine (h.openBlockHere ht).dropCandidate.bind fun s' hs' => ?_
  exact .inr (hs'.1.emitInner hu rfl rfl rfl rfl)

theorem fetchBlockEntry (h : s.IsOpen level) : StaysOpen level s.fetchBlockEntry :=
  h.opening (t := .blockSequenceStart) (u := .blockEntry) ⟨rfl, by simp⟩ ⟨rfl, by simp⟩
    fun _ => true

theorem fetchKey (h : s.IsOpen level) : StaysOpen level s.fetchKey :=
  h.opening (t := .blockMappingStart) (u := .key) ⟨rfl, by simp⟩ ⟨rfl, by simp⟩ fun s => !s.inFlow

theorem fetchValue (h : s.IsOpen level) : StaysOpen level s.fetchValue := by
  rw [State.fetchValue]
  split
  · exact .inr ((h.insertKey _).emitInner (t := .value) ⟨rfl, by simp⟩ rfl rfl rfl rfl)
  · exact h.opening (t := .blockMappingStart) (u := .value) ⟨rfl, by simp⟩ ⟨rfl, by simp⟩
      fun s => !s.inFlow

theorem fetchNodePart (h : s.IsOpen level) {read : Cursor → Except Fault (Token × Cursor)}
    (hread : ∀ c, Meets (read c) (fun x => x.1.IsInner) fun _ => True) :
    StaysOpen level (s.fetchNodePart read) := by
  rw [State.fetchNodePart]
  refine h.addCandidate.bind fun s' hs' => ?_
  exact (hread s'.cursor).bind fun x hx => .inr (hs'.emitInner hx rfl rfl rfl rfl)

theorem fetchBlockScalar (h : s.IsOpen level) (folded : Bool) :
    StaysOpen level (s.fetchBlockScalar folded) := by
  rw [State.fetchBlockScalar]
  refine h.dropCandidate.bind fun s' hs' => ?_
  refine (Cursor.isScalar_blockScalar folded s'.indent s'.cursor).bind fun x hx => ?_
  obtain ⟨_, c⟩ := x
  obtain ⟨text, rfl⟩ := hx
  exact .inr (hs'.1.emitInner (t := .scalar text false) ⟨rfl, by simp⟩ rfl rfl rfl rfl)

theorem fetchPlain (h : s.IsOpen level) : StaysOpen level s.fetchPlain := by
  rw [State.fetchPlain]
  refine h.addCandidate.bind fun s' hs' => ?_
  rw [Cursor.plainScalar_eq]
  exact .inr (hs'.emitInner (t := .scalar _ true) ⟨rfl, by simp⟩ rfl rfl rfl rfl)

theorem fetchToken (h : s.IsOpen level) : StaysOpen level s.fetchToken := by
  have hname (part : Part) {make : List Char → Token} (hmake : ∀ name, (make name).IsInner) :
      StaysOpen level (s.fetchNodePart fun c => do
        let x ← c.anchorName part
        return (make x.1, x.2)) :=
    h.fetchNodePart fun _ => Meets.bind_of_forall fun x => hmake x.1
  have hquoted (double : Bool) : StaysOpen level (s.fetchNodePart (Cursor.quotedScalar double)) :=
    h.fetchNodePart fun c => (Cursor.isScalar_quotedScalar double c).mono
      (by rintro ⟨_, _⟩ ⟨text, rfl⟩; exact ⟨rfl, by simp⟩) fun _ h => h
  rw [State.fetchToken]
  refine iteInduction (motive := StaysOpen level) (fun _ => staysOpen_fetchEnd s) fun _ => ?_
  refine iteInduction (motive := StaysOpen level) (fun _ => h.fetchDirective) fun _ => ?_
  refine iteInduction (motive := StaysOpen level)
    (fun _ => h.fetchDocumentMark (t := .documentStart) ⟨rfl, by simp⟩) fun _ => ?_
  refine iteInduction (motive := StaysOpen level)
    (fun _ => h.fetchDocumentMark (t := .documentEnd) ⟨rfl, by simp⟩) fun _ => ?_
  refine iteInduction (motive := StaysOpen level)
    (fun _ => h.fetchFlowStart (t := .flowSequenceStart) rfl) fun _ => ?_
  refine iteInduction (motive := StaysOpen level)
    (fun _ => h.fetchFlowStart (t := .flowMappingStart) rfl) fun _ => ?_
  refine iteInduction (motive := StaysOpen level)
    (fun _ => h.fetchFlowEnd (t := .flowSequenceEnd) rfl) fun _ => ?_
  refine iteInduction (motive := StaysOpen level)
    (fun _ => h.fetchFlowEnd (t := .flowMappingEnd) rfl) fun _ => ?_
  refine iteInduction (motive := StaysOpen level) (fun _ => h.fetchFlowEntry) fun _ => ?_
  refine iteInduction (motive := StaysOpen level) (fun _ => h.fetchBlockEntry) fun _ => ?_
  refine iteInduction (motive := StaysOpen level) (fun _ => h.fetchKey) fun _ => ?_
  refine iteInduction (motive := StaysOpen level) (fun _ => h.fetchValue) fun _ => ?_
  refine iteInduction (motive := StaysOpen level)
    (fun _ => hname .alias fun _ => ⟨rfl, by simp⟩) fun _ => ?_
  refine iteInduction (motive := StaysOpen level)
    (fun _ => hname .anchor fun _ => ⟨rfl, by simp⟩) fun _ => ?_
  refine iteInduction (motive := StaysOpen level) (fun _ => ?_) fun _ => ?_
  · refine h.fetchNodePart fun c => (Cursor.isTag_tag c).mono ?_ fun _ h => h
    rintro ⟨_, _⟩ ⟨handle, suffix, rfl⟩
    exact ⟨rfl, by simp⟩
  refine iteInduction (motive := StaysOpen level) (fun _ => h.fetchBlockScalar false) fun _ => ?_
  refine iteInduction (motive := StaysOpen level) (fun _ => h.fetchBlockScalar true) fun _ => ?_
  refine iteInduction (motive := StaysOpen level) (fun _ => hquoted false) fun _ => ?_
  refine iteInduction (motive := StaysOpen level) (fun _ => hquoted true) fun _ => ?_
  exact iteInduction (motive := StaysOpen level) (fun _ => h.fetchPlain) fun _ => trivial

theorem fetch (h : s.IsOpen level) : StaysOpen level s.fetch := by
  rw [State.fetch]
  exact h.skipToToken.dropStale.bind fun s' hs' => (hs'.unwind _).fetchToken

end IsOpen

end TokenStream.State

end FrontLint.Yaml
