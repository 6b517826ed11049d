import FrontLint.Proofs.Yaml.ScalarMapping
import FrontLint.Proofs.Yaml.UnsettledMerges

namespace FrontLint.Yaml

/-! ## Nodes that are made -/

namespace Made

/-- What refers to nodes with numbers greater by `d`. -/
def shift (d : Nat) : Made → Made
  | .scalar v unlike => .scalar v unlike
  | .unfilled => .unfilled
  | .list items => .list (items.map (· + d))
  | .pairs entries => .pairs (shiftEntries d entries)
  | .map entries => .map (shiftEntries d entries)
  | .set elements => .set (elements.map (· + d))

/-- What refers to nodes behind the first one only. -/
def RefersBehind : Made → Prop
  | .scalar _ _ | .unfilled => True
  | .list items | .set items => ∀ i ∈ items, 1 ≤ i
  | .pairs entries | .map entries => ∀ e ∈ entries, 1 ≤ e.1 ∧ 1 ≤ e.2

/-- A scalar that is unlike every other key is not a text. -/
def IsRegular : Made → Prop
  | .scalar v unlike => unlike = true → ∀ key, v.identity? ≠ some (.text key)
  | _ => True

end Made

namespace Construction

variable {n m k d : Nat} {s s' t t' : State} {g h : Graph} {made : Array (Option Made)}
  {entries : List (Nat × Nat)}

/-- What a node has become. -/
def madeAt (made : Array (Option Made)) (n : Nat) : Option Made := (made[n]?).getD none

theorem madeAt_replicate (size n : Nat) : madeAt (Array.replicate size none) n = none := by
  rw [madeAt, Array.getElem?_replicate]
  split <;> rfl

theorem madeAt_setIfInBounds (made : Array (Option Made)) (n k : Nat) (m : Made) :
    madeAt (made.setIfInBounds n (some m)) k =
      if n = k ∧ n < made.size then some m else madeAt made k := by
  rw [madeAt, Array.getElem?_setIfInBounds]
  by_cases h : n = k
  · subst h
    by_cases hn : n < made.size
    · simp [hn]
    · simp [hn, madeAt]
  · simp [h, madeAt]

/-- The tags of collections. -/
def collectionTags : List Tag := [.seq, .map, .set, .omap, .pairs]

/-- What a node is made to where it is met first. -/
inductive Makes (g : Graph) (n : Nat) : Made → Prop where
  | unfilled (h : g.tagOf n ∈ collectionTags) : Makes g n .unfilled
  | scalar (h : g.tagOf n ∉ collectionTags) {v : Value} {unlike : Bool}
      (hv : scalarOf g n = .ok (v, unlike)) : Makes g n (.scalar v unlike)

/-- A state in which a node is made; a collection is to be filled. -/
def State.record (s : State) (n : Nat) (m : Made) : State :=
  { s with
    made := s.made.setIfInBounds n (some m)
    waiting := match m with
      | .unfilled => s.waiting ++ [n]
      | _ => s.waiting }

/-- Making a node that has been met before changes nothing. -/
theorem run_make_of_isSome (h : (madeAt s.made n).isSome = true) :
    (make n).run s = .ok ((), s) := by
  rw [madeAt] at h
  simp only [make, StateT.run_bind, StateT.run_get, pure_bind, h, if_true]
  rfl

theorem make_eq_ok (h : (make n).run s = .ok ((), s')) :
    (madeAt s.made n).isSome = true ∧ s' = s ∨
      madeAt s.made n = none ∧ ∃ m, Makes s.graph n m ∧ s' = s.record n m := by
  cases hmade : madeAt s.made n with
  | some m =>
      rw [run_make_of_isSome (by rw [hmade]; rfl)] at h
      cases h
      exact .inl ⟨rfl, rfl⟩
  | none =>
      refine .inr ⟨rfl, ?_⟩
      rw [make] at h
      obtain ⟨_, _, hget, h⟩ := run_bind_eq_ok h
      cases hget
      rw [madeAt] at hmade
      dsimp only at h
      rw [hmade, if_neg (by simp)] at h
      split at h
      all_goals rename_i htag
      case h_1 | h_2 | h_3 | h_4 | h_5 =>
        cases h
        exact ⟨.unfilled, .unfilled (by simp [htag, collectionTags]), rfl⟩
      case h_6 | h_7 | h_8 | h_9 | h_10 | h_11 | h_12 =>
        obtain ⟨x, _, hx, h⟩ := run_bind_eq_ok h
        obtain ⟨hx, rfl⟩ := run_lift_eq_ok hx
        cases h
        exact ⟨.scalar x.1 x.2, .scalar (by simp [htag, collectionTags]) hx, rfl⟩
      · cases h

/-! ## Scalars -/

/-- The value of a scalar with its text. -/
def scalarWith (tag : Tag) (kind : Kind) (text : Text) : Except Fault (Value × Bool) := do
  match tag with
  | .null => return (.null, false)
  | .bool => return (.bool (← Scalar.bool text), false)
  | .int => return (.int (← Scalar.int text), false)
  | .float =>
    let x ← Scalar.float text
    return (.float x, x == .nan && !Scalar.isNanConstant text)
  | .binary => return (.bytes (← Scalar.binary text), false)
  | .timestamp =>
    if kind == .mapping then throw .timestampOfMapping
    return (← Scalar.timestamp text, false)
  | _ => return (.text text, false)

theorem scalarOf_eq (g : Graph) (n : Nat) :
    scalarOf g n = (textOf g n).bind (scalarWith (g.tagOf n) (g.node n).kind) := rfl

theorem find?_shiftEntries (hg : h.Mirrors 1 d g) (hentries : ∀ e ∈ entries, 1 ≤ e.1 ∧ 1 ≤ e.2)
    (tag : Tag) : ((shiftEntries d entries).find? fun e => g.tagOf e.1 = tag) =
      (entries.find? fun e => h.tagOf e.1 = tag).map (Prod.map (· + d) (· + d)) := by
  induction entries with
  | nil => rfl
  | cons e rest ih =>
      obtain ⟨he, hrest⟩ := List.forall_mem_cons.1 hentries
      rw [shiftEntries_cons, List.find?_cons, List.find?_cons, hg.tagOf he.1, ih hrest]
      split <;> rfl

theorem scalarText_mirrored {fuel fuel' : Nat} {text text' : Text} (hg : h.Mirrors 1 d g)
    (hn : 1 ≤ n) (ht : scalarText h fuel n = .ok text)
    (ht' : scalarText g fuel' (n + d) = .ok text') : text' = text := by
  induction fuel generalizing fuel' n with
  | zero => cases ht
  | succ fuel ih =>
      cases fuel' with
      | zero => cases ht'
      | succ fuel' =>
          have hrefers := hg.refersFrom n hn
          rw [scalarText] at ht ht'
          rw [hg.node n hn] at ht'
          cases hnode : h.node n with
          | scalar tag text =>
              rw [hnode] at ht ht'
              cases ht
              cases ht'
              rfl
          | sequence tag items =>
              rw [hnode] at ht
              cases ht
          | mapping tag entries =>
              rw [hnode] at ht ht' hrefers
              simp only [Node.shift, find?_shiftEntries hg hrefers] at ht ht'
              cases hfind : entries.find? fun e => h.tagOf e.1 = .value with
              | none =>
                  rw [hfind] at ht
                  cases ht
              | some e =>
                  rw [hfind] at ht ht'
                  exact ih (hrefers e (List.mem_of_find?_eq_some hfind)).2 ht ht'

theorem scalarOf_mirrored {x x' : Value × Bool} (hg : h.Mirrors 1 d g) (hn : 1 ≤ n)
    (hx : scalarOf h n = .ok x) (hx' : scalarOf g (n + d) = .ok x') : x' = x := by
  rw [scalarOf_eq] at hx hx'
  cases ht : textOf h n with
  | error e =>
      rw [ht] at hx
      cases hx
  | ok text =>
      cases ht' : textOf g (n + d) with
      | error e =>
          rw [ht'] at hx'
          cases hx'
      | ok text' =>
          rw [ht] at hx
          rw [ht', hg.tagOf hn, hg.kind hn, scalarText_mirrored hg hn ht ht'] at hx'
          exact Except.ok.inj (hx'.symm.trans hx)

/-- A timestamp can be a key. -/
theorem meets_timestamp_isSome (text : Text) :
    Meets (Scalar.timestamp text) (fun v => v.identity?.isSome = true) fun _ => True := by
  rw [Scalar.timestamp]
  split
  · trivial
  · rename_i ts _
    dsimp only
    split
    · cases ts.date.check <;> trivial
    · rename_i p _
      cases Moment.check ⟨ts.date, p.hour, p.minute, p.second, p.microsecond, p.offset⟩ <;> trivial

/-- The value of a scalar can be a key; one that is unlike every other is a number. -/
theorem meets_scalarWith (tag : Tag) (kind : Kind) (text : Text) :
    Meets (scalarWith tag kind text)
      (fun x => x.1.identity?.isSome = true ∧ (x.2 = true → ∃ y, x.1 = .float y))
      fun _ => True := by
  unfold scalarWith
  split
  · exact ⟨rfl, nofun⟩
  · exact Meets.bind_of_forall fun _ => ⟨rfl, nofun⟩
  · exact Meets.bind_of_forall fun _ => ⟨rfl, nofun⟩
  · exact Meets.bind_of_forall fun x => ⟨rfl, fun _ => ⟨x, rfl⟩⟩
  · exact Meets.bind_of_forall fun _ => ⟨rfl, nofun⟩
  · dsimp only
    split
    · trivial
    · exact (meets_timestamp_isSome text).bind fun _ hv => ⟨hv, nofun⟩
  · exact ⟨rfl, nofun⟩

theorem meets_scalarOf_isSome (g : Graph) (n : Nat) :
    Meets (scalarOf g n)
      (fun x => x.1.identity?.isSome = true ∧ (x.2 = true → ∃ y, x.1 = .float y))
      fun _ => True := by
  rw [scalarOf_eq]
  exact Meets.bind_of_forall fun text => meets_scalarWith _ _ text

theorem isRegular_of_scalarOf {v : Value} {unlike : Bool} (hv : scalarOf g n = .ok (v, unlike)) :
    (Made.scalar v unlike).IsRegular := by
  rintro rfl key
  obtain ⟨x, rfl⟩ := ((meets_scalarOf_isSome g n).of_eq_ok hv).2 rfl
  rw [Value.identity?]
  cases x.toInt? <;> nofun

/-! ## Two constructions -/

/-- What two constructions have in common: the nodes of the second one are those of the first one,
behind `offset` others; `back` and `rest` are the entries of the first mapping, and `root` and
`root'` what the first mappings have become. -/
structure Frame where
  offset : Nat
  back : List (Nat × Nat)
  rest : List (Nat × Nat)
  root : Made
  root' : Made
  /-- Whether the entries of the first mapping are made. -/
  filled : Prop

/-- A node that is made, or that there is not. -/
def IsMade (made : Array (Option Made)) (n : Nat) : Prop :=
  made.size ≤ n ∨ (madeAt made n).isSome = true

theorem IsMade.setIfInBounds (h : IsMade made n) (k : Nat) (m : Made) :
    IsMade (made.setIfInBounds k (some m)) n := by
  rw [IsMade, Array.size_setIfInBounds, madeAt_setIfInBounds]
  refine h.imp_right fun h => ?_
  split
  · rfl
  · exact h

/-- Two states in which the same nodes are made, and wait, but for those of the second one that the
first one does not have. -/
structure Abreast (w : Frame) (t s : State) : Prop where
  settled : Graph.Settled w.offset w.back w.rest t.graph s.graph
  size_graph : t.made.size = t.graph.size
  size_eq : s.made.size = t.made.size + w.offset
  made : ∀ n, 1 ≤ n → madeAt s.made (n + w.offset) = (madeAt t.made n).map (Made.shift w.offset)
  refersBehind : ∀ n, 1 ≤ n → ∀ m ∈ madeAt t.made n, m.RefersBehind
  isRegular : ∀ n, ∀ m ∈ madeAt s.made n, m.IsRegular
  waiting : s.waiting.filter (w.offset < ·) = t.waiting.map (· + w.offset)
  zero_notMem : 0 ∉ s.waiting
  root : madeAt t.made 0 = some w.root
  root' : madeAt s.made 0 = some w.root'
  ready : w.filled → ∀ e ∈ w.back, IsMade t.made e.1 ∧ IsMade t.made e.2

variable {w : Frame}

namespace Abreast

/-- A node behind is made to the same in both. -/
theorem setMade (hs : Abreast w t s) (hn : 1 ≤ n) {m : Made} (hm : m.RefersBehind)
    (hregular : (m.shift w.offset).IsRegular) :
    Abreast w { t with made := t.made.setIfInBounds n (some m) }
      { s with made := s.made.setIfInBounds (n + w.offset) (some (m.shift w.offset)) } where
  settled := hs.settled
  size_graph := by rw [Array.size_setIfInBounds, hs.size_graph]
  size_eq := by rw [Array.size_setIfInBounds, Array.size_setIfInBounds, hs.size_eq]
  made k hk := by
    rw [madeAt_setIfInBounds, madeAt_setIfInBounds, hs.size_eq, hs.made k hk]
    by_cases heq : n = k ∧ n < t.made.size
    · rw [if_pos heq, if_pos (by omega)]
      rfl
    · rw [if_neg heq, if_neg (by omega)]
  refersBehind k hk m' hm' := by
    rw [madeAt_setIfInBounds] at hm'
    split at hm'
    · exact Option.some_inj.1 hm' ▸ hm
    · exact hs.refersBehind k hk m' hm'
  isRegular k m' hm' := by
    rw [madeAt_setIfInBounds] at hm'
    split at hm'
    · exact Option.some_inj.1 hm' ▸ hregular
    · exact hs.isRegular k m' hm'
  waiting := hs.waiting
  zero_notMem := hs.zero_notMem
  root := by rw [madeAt_setIfInBounds, if_neg (by omega), hs.root]
  root' := by rw [madeAt_setIfInBounds, if_neg (by omega), hs.root']
  ready hfilled e he :=
    ⟨(hs.ready hfilled e he).1.setIfInBounds n m, (hs.ready hfilled e he).2.setIfInBounds n m⟩

/-- A node that the first one does not have is made. -/
theorem setMade_le (hs : Abreast w t s) (hn : 0 < n) (hnd : n ≤ w.offset) {m : Made}
    (hregular : m.IsRegular) :
    Abreast w t { s with made := s.made.setIfInBounds n (some m) } where
  settled := hs.settled
  size_graph := hs.size_graph
  size_eq := by rw [Array.size_setIfInBounds, hs.size_eq]
  made k hk := by rw [madeAt_setIfInBounds, if_neg (by omega), hs.made k hk]
  refersBehind := hs.refersBehind
  isRegular k m' hm' := by
    rw [madeAt_setIfInBounds] at hm'
    split at hm'
    · exact Option.some_inj.1 hm' ▸ hregular
    · exact hs.isRegular k m' hm'
  waiting := hs.waiting
  zero_notMem := hs.zero_notMem
  root := hs.root
  root' := by rw [madeAt_setIfInBounds, if_neg (by omega), hs.root']
  ready := hs.ready

theorem wait (hs : Abreast w t s) (hn : 1 ≤ n) :
    Abreast w { t with waiting := t.waiting ++ [n] }
      { s with waiting := s.waiting ++ [n + w.offset] } :=
  { hs with
    waiting := by
      rw [List.filter_append, List.map_append, hs.waiting, List.filter_singleton]
      simp [show w.offset < n + w.offset by omega]
    zero_notMem := by
      intro hmem
      rcases List.mem_append.1 hmem with hmem | hmem
      · exact hs.zero_notMem hmem
      · have := List.mem_singleton.1 hmem
        omega }

theorem wait_le (hs : Abreast w t s) (hn : 0 < n) (hnd : n ≤ w.offset) :
    Abreast w t { s with waiting := s.waiting ++ [n] } :=
  { hs with
    waiting := by
      rw [List.filter_append, hs.waiting, List.filter_singleton]
      simp [show ¬ w.offset < n by omega]
    zero_notMem := by
      intro hmem
      rcases List.mem_append.1 hmem with hmem | hmem
      · exact hs.zero_notMem hmem
      · have := List.mem_singleton.1 hmem
        omega }

theorem make (hs : Abreast w t s) (hn : 1 ≤ n)
    (ht' : (Construction.make n).run t = .ok ((), t'))
    (hs' : (Construction.make (n + w.offset)).run s = .ok ((), s')) : Abreast w t' s' := by
  have hmade := hs.made n hn
  rcases make_eq_ok ht' with ⟨hsome, rfl⟩ | ⟨hnone, m, hm, rfl⟩
  · rw [run_make_of_isSome (by rw [hmade, Option.isSome_map, hsome])] at hs'
    cases hs'
    exact hs
  · rcases make_eq_ok hs' with ⟨hsome', rfl⟩ | ⟨-, m', hm', rfl⟩
    · rw [hmade, hnone] at hsome'
      cases hsome'
    · have htag := hs.settled.mirrors.tagOf hn
      cases hm with
      | unfilled h =>
          cases hm' with
          | unfilled => exact (hs.setMade hn (m := .unfilled) trivial trivial).wait hn
          | scalar h' => exact absurd (htag ▸ h) h'
      | scalar h hv =>
          cases hm' with
          | unfilled h' => exact absurd (htag ▸ h') h
          | scalar h' hv' =>
              have heq := scalarOf_mirrored hs.settled.mirrors hn hv hv'
              cases heq
              exact hs.setMade hn (m := .scalar _ _) trivial (isRegular_of_scalarOf hv')

theorem make_le (hs : Abreast w t s) (hn : n ≤ w.offset)
    (hs' : (Construction.make n).run s = .ok ((), s')) : Abreast w t s' := by
  rcases make_eq_ok hs' with ⟨-, rfl⟩ | ⟨hnone, m, hm, rfl⟩
  · exact hs
  · have hpos : 0 < n := by
      refine Nat.pos_of_ne_zero ?_
      rintro rfl
      rw [hs.root'] at hnone
      cases hnone
    cases hm with
    | unfilled => exact (hs.setMade_le hpos hn (m := .unfilled) trivial).wait_le hpos hn
    | scalar _ hv => exact hs.setMade_le hpos hn (isRegular_of_scalarOf hv)

/-- Making a node again changes nothing. -/
theorem make_of_isMade (hs : Abreast w t s) (hn : 1 ≤ n) (hmade : IsMade t.made n)
    (hs' : (Construction.make (n + w.offset)).run s = .ok ((), s')) : s' = s := by
  rcases make_eq_ok hs' with ⟨-, rfl⟩ | ⟨hnone, m, hm, rfl⟩
  · rfl
  · rcases hmade with hle | hsome
    · have hsize := hs.size_eq
      have htag : s.graph.tagOf (n + w.offset) = .null := by
        rw [Graph.tagOf, Graph.node_eq_default]
        · rfl
        · rw [hs.settled.mirrors.size_eq, ← hs.size_graph]
          omega
      cases hm with
      | unfilled h => simp [htag, collectionTags] at h
      | scalar _ _ =>
          change { s with made := s.made.setIfInBounds _ _ } = s
          rw [Array.setIfInBounds_eq_of_size_le (by omega)]
    · rw [hs.made n hn, Option.map_eq_none_iff] at hnone
      rw [hnone] at hsome
      cases hsome

end Abreast

end Construction

end FrontLint.Yaml
