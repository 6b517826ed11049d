import FrontLint.Proofs.Yaml.AlikeStream
import FrontLint.Proofs.Yaml.Moved

/-!
# States behind other tokens

What the reader of tokens does next depends neither on the tokens before those that wait nor on the
characters and lines that have been read: it looks at the text ahead, and at the distances from the
places where a key may have begun.
-/

namespace FrontLint.Yaml

/-- A candidate behind `n` tokens where it was behind `delivered`, with `a` characters and `b`
lines more before it. -/
def Candidate.after (delivered n a b : Nat) (k : Candidate) : Candidate :=
  { k with number := k.number - delivered + n, index := k.index + a, line := k.line + b }

namespace TokenStream.State

/-- The state with the tokens `front` before those that wait, at a place with `a` characters and
`b` lines more before it. -/
def after (front : List Token) (a b : Nat) (s : State) : State :=
  { s with
    cursor := s.cursor.moved a b
    candidates := s.candidates.map fun x => (x.1, x.2.after s.delivered front.length a b)
    waiting := front ++ s.waiting
    delivered := 0 }

variable {front : List Token} {a b : Nat} {s s' : State}

theorem after_after (front' : List Token) (a' b' : Nat) :
    (s.after front a b).after front' a' b' = s.after (front' ++ front) (a + a') (b + b') := by
  simp only [after, Cursor.moved, List.map_map, List.append_assoc, Nat.add_assoc, mk.injEq,
    true_and, and_true]
  refine List.map_congr_left fun x _ => ?_
  simp [Candidate.after, Nat.add_assoc, Nat.add_comm front'.length]

@[simp] theorem inFlow_after : (s.after front a b).inFlow = s.inFlow := rfl

@[simp] theorem indent_after : (s.after front a b).indent = s.indent := rfl

theorem isStale_after (k : Candidate) (n : Nat) :
    (s.after front a b).isStale (k.after s.delivered n a b) = s.isStale k := by
  have hline : (k.line + b != s.cursor.line + b) = (k.line != s.cursor.line) := by
    simp [bne, BEq.beq]
  have hindex : (k.index + a + 1024 < s.cursor.index + a) = (k.index + 1024 < s.cursor.index) := by
    rw [eq_iff_iff]
    omega
  simp only [isStale, after, Candidate.after, Cursor.moved, hline, hindex]

theorem dropStale_after : (s.after front a b).dropStale = s.dropStale.map (after front a b) := by
  have hany : (s.after front a b).candidates.any
        (fun k => (s.after front a b).isStale k.2 && k.2.required) =
      s.candidates.any fun k => s.isStale k.2 && k.2.required := by
    simp only [after, List.any_map]
    congr 1
    funext k
    exact congrArg (· && k.2.required) (isStale_after k.2 front.length)
  have hfilter : (s.after front a b).candidates.filter
        (fun k => !(s.after front a b).isStale k.2) =
      (s.candidates.filter fun k => !s.isStale k.2).map
        fun x => (x.1, x.2.after s.delivered front.length a b) := by
    simp only [after, List.filter_map]
    congr 2
    funext k
    exact congrArg (!·) (isStale_after k.2 front.length)
  rw [dropStale, dropStale, hany, hfilter]
  split <;> rfl

theorem lookup_after (depth : Int) :
    (s.after front a b).candidates.lookup depth =
      (s.candidates.lookup depth).map (Candidate.after s.delivered front.length a b) :=
  lookup_map_snd _ s.candidates depth

theorem filter_after (s : State) (front : List Token) (a b : Nat) (p : Int → Bool) :
    (s.after front a b).candidates.filter (fun x => p x.1) =
      (s.candidates.filter fun x => p x.1).map
        fun x => (x.1, x.2.after s.delivered front.length a b) := by
  simp only [after, List.filter_map]
  rfl

theorem dropCandidate_after :
    (s.after front a b).dropCandidate = s.dropCandidate.map (after front a b) := by
  have hfilter := filter_after s front a b (· != s.depth)
  rw [dropCandidate, dropCandidate, show (s.after front a b).depth = s.depth from rfl,
    lookup_after]
  cases s.candidates.lookup s.depth with
  | none => rfl
  | some k =>
      simp only [Option.map_some]
      rw [hfilter]
      change (if k.required = true then _ else _) = _
      split <;> rfl

theorem addCandidate_after :
    (s.after front a b).addCandidate = s.addCandidate.map (after front a b) := by
  simp only [addCandidate, show (s.after front a b).keyAllowed = s.keyAllowed from rfl,
    dropCandidate_after]
  split
  · cases hdrop : s.dropCandidate with
    | error fault => rfl
    | ok s' =>
        have hnumber : 0 + (front ++ s'.waiting).length =
            s'.delivered + s'.waiting.length - s'.delivered + front.length := by
          rw [List.length_append]
          omega
        simp only [bind, Except.bind, Except.map, pure, Except.pure]
        simp only [after, List.map_cons, Candidate.after, hnumber]
        rfl
  · rfl

@[simp] theorem unwind_after (column : Int) :
    (s.after front a b).unwind column = (s.unwind column).after front a b := by
  rw [unwind, unwind, inFlow_after]
  by_cases h : s.inFlow = true
  · rw [if_pos h, if_pos h]
  · rw [if_neg h, if_neg h]
    simp only [after, List.append_assoc]

theorem openBlock_after (column : Int) (t : Token) (position : Nat) :
    (s.after front a b).openBlock column t (position + front.length) =
      (s.openBlock column t position).after front a b := by
  rw [openBlock, openBlock, indent_after]
  by_cases h : s.indent < column
  · rw [if_pos h, if_pos h]
    simp [after, List.take_append, List.drop_append, List.take_of_length_le]
  · rw [if_neg h, if_neg h]

@[simp] theorem openBlockHere_after (t : Token) :
    (s.after front a b).openBlockHere t = (s.openBlockHere t).after front a b := by
  have h : (s.after front a b).openBlock s.cursor.column t (s.waiting.length + front.length) =
      (s.openBlock s.cursor.column t s.waiting.length).after front a b := openBlock_after _ _ _
  rw [openBlockHere, openBlockHere, inFlow_after]
  split
  · rfl
  · rw [← h]
    congr 1
    simp [after, Nat.add_comm]

@[simp] theorem push_after (t : Token) :
    (s.after front a b).push t = (s.push t).after front a b := by
  simp [push, after]

@[simp] theorem take_after (n : Nat) (t : Token) :
    (s.after front a b).take n t = (s.take n t).after front a b := by
  simp [take, after]

@[simp] theorem requireEntry_after (entry : Entry) :
    (s.after front a b).requireEntry entry = s.requireEntry entry := rfl

theorem insertKey_after (k : Candidate) :
    (s.after front a b).insertKey (k.after s.delivered front.length a b) =
      (s.insertKey k).after front a b := by
  have hfilter := filter_after s front a b (· != s.depth)
  have hkey : { s.after front a b with
        candidates := (s.after front a b).candidates.filter (·.1 != s.depth)
        waiting := (s.after front a b).waiting.take (k.number - s.delivered + front.length) ++
          .key :: (s.after front a b).waiting.drop (k.number - s.delivered + front.length) } =
      after front a b { s with
        candidates := s.candidates.filter (·.1 != s.depth)
        waiting := s.waiting.take (k.number - s.delivered) ++
          .key :: s.waiting.drop (k.number - s.delivered) } := by
    rw [hfilter]
    simp [after, List.take_append, List.drop_append, List.take_of_length_le]
  rw [insertKey, insertKey]
  by_cases h : s.inFlow = true
  · rw [if_pos (by exact h), if_pos (by exact h)]
    exact hkey
  · rw [if_neg (by exact h), if_neg (by exact h)]
    exact (congrArg (fun t => t.openBlock k.column .blockMappingStart
      (k.number - s.delivered + front.length)) hkey).trans (openBlock_after _ _ _)

theorem skipBlankLines_after (fuel : Nat) :
    skipBlankLines fuel (s.after front a b) = (skipBlankLines fuel s).after front a b := by
  induction fuel generalizing s with
  | zero => rfl
  | succ fuel ih =>
      simp only [skipBlankLines, show (s.after front a b).cursor = s.cursor.moved a b from rfl,
        Cursor.skipSpaces_moved, Cursor.skipComment_moved, Cursor.lineBreak?_moved]
      cases s.cursor.skipSpaces.skipComment.lineBreak? with
      | none => rfl
      | some x =>
          exact ih (s := { s with cursor := x.2, keyAllowed := s.keyAllowed || !s.inFlow })

/-- A byte order mark is skipped at the beginning of a text only. -/
theorem skipToToken_after (h : a = 0 ∨ 0 < s.cursor.index) :
    (s.after front a b).skipToToken = s.skipToToken.after front a b := by
  have hindex : ((s.after front a b).cursor.index == 0) = (s.cursor.index == 0) := by
    rw [Bool.eq_iff_iff, beq_iff_eq, beq_iff_eq]
    simp only [after, Cursor.moved]
    omega
  simp only [skipToToken, hindex, show (s.after front a b).cursor.head = s.cursor.head from rfl,
    show (s.after front a b).cursor.next = s.cursor.next.moved a b from Cursor.next_moved]
  split
  · exact skipBlankLines_after (s := { s with cursor := s.cursor.next }) _
  · exact skipBlankLines_after _

/-! ## Tokens -/

/-- An action that goes on from a state with other tokens before those that wait. -/
theorem bind_after {r : Except Fault State} {f g : State → Except Fault State}
    (h : ∀ t, r = .ok t → f (t.after front a b) = (g t).map (after front a b)) :
    r.map (after front a b) >>= f = (r >>= g).map (after front a b) := by
  cases r with
  | error fault => rfl
  | ok t => exact h t rfl

theorem fetchEnd_after : (s.after front a b).fetchEnd = s.fetchEnd.map (after front a b) := by
  rw [fetchEnd, fetchEnd, unwind_after, dropCandidate_after]
  refine bind_after fun t _ => ?_
  simp only [push_after]
  rfl

theorem fetchDirective_after :
    (s.after front a b).fetchDirective = s.fetchDirective.map (after front a b) := by
  rw [fetchDirective, fetchDirective, unwind_after, dropCandidate_after]
  refine bind_after fun t ht => ?_
  have hread : (t.after front a b).cursor.directive = Cursor.alongMoved a b t.cursor.directive :=
    Cursor.directive_moved
  rw [hread]
  cases t.cursor.directive with
  | error fault => rfl
  | ok x =>
      simp only [Except.map, bind, Except.bind, push_after]
      rfl

theorem fetchDocumentMark_after (t : Token) :
    (s.after front a b).fetchDocumentMark t = (s.fetchDocumentMark t).map (after front a b) := by
  rw [fetchDocumentMark, fetchDocumentMark, unwind_after, dropCandidate_after]
  refine bind_after fun u _ => ?_
  simp only [take_after]
  rfl

theorem fetchFlowStart_after (t : Token) :
    (s.after front a b).fetchFlowStart t = (s.fetchFlowStart t).map (after front a b) := by
  rw [fetchFlowStart, fetchFlowStart, addCandidate_after]
  refine bind_after fun u _ => ?_
  simp only [take_after]
  rfl

theorem fetchFlowEnd_after (t : Token) :
    (s.after front a b).fetchFlowEnd t = (s.fetchFlowEnd t).map (after front a b) := by
  rw [fetchFlowEnd, fetchFlowEnd, dropCandidate_after]
  refine bind_after fun u _ => ?_
  simp only [take_after]
  rfl

theorem fetchFlowEntry_after :
    (s.after front a b).fetchFlowEntry = s.fetchFlowEntry.map (after front a b) := by
  rw [fetchFlowEntry, fetchFlowEntry, dropCandidate_after]
  refine bind_after fun u _ => ?_
  simp only [take_after]
  rfl

/-- A token that may begin a collection where it stands. -/
theorem opening_after (entry : Entry) (t u : Token) (allowed : State → Bool)
    (hallowed : ∀ s, allowed (after front a b s) = allowed s) :
    (do
      (s.after front a b).requireEntry entry
      let s ← ((s.after front a b).openBlockHere t).dropCandidate
      return { s.take 1 u with keyAllowed := allowed s }) =
    (do
      s.requireEntry entry
      let s ← (s.openBlockHere t).dropCandidate
      return { s.take 1 u with keyAllowed := allowed s } : Except Fault State).map
        (after front a b) := by
  rw [requireEntry_after, openBlockHere_after, dropCandidate_after]
  cases s.requireEntry entry with
  | error fault => rfl
  | ok _ =>
      refine bind_after fun v _ => ?_
      simp only [take_after, hallowed]
      rfl

theorem fetchBlockEntry_after :
    (s.after front a b).fetchBlockEntry = s.fetchBlockEntry.map (after front a b) :=
  opening_after _ _ _ (fun _ => true) fun _ => rfl

theorem fetchKey_after : (s.after front a b).fetchKey = s.fetchKey.map (after front a b) :=
  opening_after _ _ _ (fun s => !s.inFlow) fun _ => rfl

theorem fetchValue_after : (s.after front a b).fetchValue = s.fetchValue.map (after front a b) := by
  rw [fetchValue, fetchValue, show (s.after front a b).depth = s.depth from rfl, lookup_after]
  cases s.candidates.lookup s.depth with
  | some k =>
      simp only [Option.map_some, insertKey_after, take_after]
      rfl
  | none => exact opening_after _ _ _ (fun s => !s.inFlow) fun _ => rfl

theorem fetchNodePart_after (s : State) (front : List Token)
    (read : Cursor → Except Fault (Token × Cursor))
    (h : ∀ c, read (c.moved a b) = Cursor.alongMoved a b (read c)) :
    (s.after front a b).fetchNodePart read = (s.fetchNodePart read).map (after front a b) := by
  rw [fetchNodePart, fetchNodePart, addCandidate_after]
  refine bind_after fun t _ => ?_
  rw [show (t.after front a b).cursor = t.cursor.moved a b from rfl, h]
  cases read t.cursor with
  | error fault => rfl
  | ok x =>
      simp only [Except.map, bind, Except.bind, push_after]
      rfl

theorem fetchBlockScalar_after (folded : Bool) :
    (s.after front a b).fetchBlockScalar folded =
      (s.fetchBlockScalar folded).map (after front a b) := by
  rw [fetchBlockScalar, fetchBlockScalar, dropCandidate_after]
  refine bind_after fun t _ => ?_
  rw [show (t.after front a b).cursor = t.cursor.moved a b from rfl, indent_after,
    Cursor.blockScalar_moved]
  cases t.cursor.blockScalar folded t.indent with
  | error fault => rfl
  | ok x =>
      simp only [Except.map, bind, Except.bind, push_after]
      rfl

theorem fetchPlain_after : (s.after front a b).fetchPlain = s.fetchPlain.map (after front a b) := by
  rw [fetchPlain, fetchPlain, addCandidate_after]
  refine bind_after fun t _ => ?_
  rw [show (t.after front a b).cursor = t.cursor.moved a b from rfl, inFlow_after, indent_after,
    Cursor.plainScalar_moved]
  obtain ⟨u, crossed, c⟩ := t.cursor.plainScalar t.inFlow t.indent
  simp only [Prod.map, id_eq, push_after]
  rfl

theorem anchorName_after (part : Part) (make : List Char → Token) (c : Cursor) :
    (do
      let (name, c) ← Cursor.anchorName part (c.moved a b)
      return (make name, c)) =
    Cursor.alongMoved a b (do
      let (name, c) ← Cursor.anchorName part c
      return (make name, c)) := by
  rw [Cursor.anchorName_moved]
  cases Cursor.anchorName part c <;> rfl

theorem fetchToken_after : (s.after front a b).fetchToken = s.fetchToken.map (after front a b) := by
  have hhead : (s.after front a b).cursor.head = s.cursor.head := rfl
  have hplain : (s.after front a b).isAtPlain = s.isAtPlain := rfl
  have hcolumn : (s.after front a b).cursor.column = s.cursor.column := rfl
  have hpeek : (s.after front a b).cursor.peek 1 = s.cursor.peek 1 := rfl
  have hrule (x : Char) : (s.after front a b).cursor.isAtRule x = s.cursor.isAtRule x := rfl
  have hname (part : Part) (make : List Char → Token) :=
    fetchNodePart_after (a := a) (b := b) s front
      (fun c => do
        let (name, c) ← c.anchorName part
        return (make name, c)) (anchorName_after part make)
  have htag := fetchNodePart_after (a := a) (b := b) s front Cursor.tag fun _ => Cursor.tag_moved
  have hquoted (double : Bool) := fetchNodePart_after (a := a) (b := b) s front
    (Cursor.quotedScalar double) fun _ => Cursor.quotedScalar_moved _
  simp only [fetchToken, hhead, hplain, hcolumn, hpeek, hrule, inFlow_after, fetchEnd_after,
    fetchDirective_after, fetchDocumentMark_after, fetchFlowStart_after, fetchFlowEnd_after,
    fetchFlowEntry_after, fetchBlockEntry_after, fetchKey_after, fetchValue_after,
    fetchBlockScalar_after, fetchPlain_after, hname, htag, hquoted,
    apply_ite (Except.map (after front a b))]
  rfl

/-- The next token does not depend on the tokens and characters before it. -/
theorem fetch_after (h : a = 0 ∨ 0 < s.cursor.index) :
    (s.after front a b).fetch = s.fetch.map (after front a b) := by
  rw [fetch, fetch, skipToToken_after h, dropStale_after]
  refine bind_after fun t _ => ?_
  rw [show (t.after front a b).cursor.column = t.cursor.column from rfl, unwind_after,
    fetchToken_after]

end TokenStream.State

end FrontLint.Yaml
