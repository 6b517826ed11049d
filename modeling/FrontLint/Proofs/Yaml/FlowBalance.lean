import FrontLint.Proofs.Yaml.Closing
import FrontLint.Proofs.Yaml.Descent

/-!
# Balanced flow collections

The grammar reads each flow collection from its beginning to its end, and it reads the tokens up
to the end of the stream. So no graph is made of a stream that ends inside of a flow collection.
-/

namespace FrontLint.Yaml

namespace Reader

/-- The token that is seen next: the first one to come, or the end of the stream behind the last
one. -/
def IsAhead (r : Reader) (t : Token) : Prop :=
  r.tokens.head? = some t ∨ r.tokens = [] ∧ r.fault = none ∧ t = .streamEnd

/-- A state with the same tokens to come. -/
def Keeps (r r' : Reader) : Prop := r'.tokens = r.tokens ∧ r'.fault = r.fault

/-- A state behind tokens that raise the depth of flow collections by `k`. -/
def Passes (k : Int) (r r' : Reader) : Prop :=
  r'.fault = r.fault ∧ ∃ front, r.tokens = front ++ r'.tokens ∧ flowLevel front = k

variable {r r' r'' : Reader} {t : Token} {j k : Int}

theorem passes_refl (r : Reader) : Passes 0 r r := ⟨rfl, [], rfl, rfl⟩

theorem Passes.trans (h : Passes j r r') (h' : Passes k r' r'') : Passes (j + k) r r'' := by
  obtain ⟨hfault, front, htokens, rfl⟩ := h
  obtain ⟨hfault', front', htokens', rfl⟩ := h'
  refine ⟨hfault'.trans hfault, front ++ front', ?_, flowLevel_append front front'⟩
  rw [htokens, htokens', List.append_assoc]

theorem Keeps.passes (h : Keeps r r') : Passes 0 r r' := ⟨h.2, [], h.1.symm, rfl⟩

theorem IsAhead.of_keeps (h : r.IsAhead t) (hr : Keeps r r') : r'.IsAhead t := by
  rwa [IsAhead, hr.1, hr.2]

theorem IsAhead.passes (h : r.IsAhead t) :
    Passes t.flowChange r { r with tokens := r.tokens.tail } := by
  refine ⟨rfl, ?_⟩
  rcases h with hhead | ⟨hnil, -, rfl⟩
  · refine ⟨[t], ?_, by simp⟩
    exact (List.cons_head?_tail hhead).symm
  · exact ⟨[], by rw [hnil]; rfl, rfl⟩

end Reader

namespace Grammar

open Reader

variable {α β : Type} {m : Read α} {f : α → Read β} {r r' : Reader} {t : Token} {j k : Int}

/-- An action that ends, if at all, behind tokens that raise the depth of flow collections by
`k`. -/
def Balances (k : Int) (m : Read α) (r : Reader) : Prop :=
  Runs m r (fun _ r' => Passes k r r') fun _ => True

/-- An action that passes no token. -/
def Stands (m : Read α) (r : Reader) : Prop := Runs m r (fun _ r' => Keeps r r') fun _ => True

theorem balances_pure (a : α) : Balances 0 (pure a) r := runs_pure (passes_refl r)

theorem balances_throw (fault : Fault) : Balances k (throw fault : Read α) r := runs_throw trivial

theorem balances_throw_bind (fault : Fault) : Balances k (throw fault >>= f) r :=
  runs_throw_bind trivial

theorem Balances.bind (h : Balances j m r) (hf : ∀ a r', Balances k (f a) r') :
    Balances (j + k) (m >>= f) r :=
  Runs.bind h fun a r' hr => (hf a r').mono (fun _ _ hr' => hr.trans hr') fun _ h => h

theorem Balances.bind_pure (h : Balances k m r) (hf : ∀ a r', Balances 0 (f a) r') :
    Balances k (m >>= f) r := by
  simpa using h.bind hf

theorem Balances.zero_bind (h : Balances 0 m r) (hf : ∀ a r', Balances k (f a) r') :
    Balances k (m >>= f) r := by
  simpa using h.bind hf

theorem Stands.bind (h : Stands m r) (hf : ∀ a r', Keeps r r' → Balances k (f a) r') :
    Balances k (m >>= f) r :=
  Runs.bind h fun a r' hr => (hf a r' hr).mono
    (fun _ _ hr' => by simpa using hr.passes.trans hr') fun _ h => h

theorem Stands.balances (h : Stands m r) : Balances 0 m r :=
  h.mono (fun _ _ hr => hr.passes) fun _ h => h

theorem balances_get {f : Reader → Read β} (h : Balances k (f r) r) :
    Balances k (get >>= f) r := runs_get h

theorem runs_peek (r : Reader) : Runs peek r (fun t r' => r' = r ∧ r.IsAhead t) fun _ => True := by
  rw [peek]
  refine runs_get ?_
  split
  · rename_i htokens
    exact runs_pure ⟨rfl, .inl (by rw [htokens]; rfl)⟩
  · exact runs_throw trivial
  · rename_i htokens hfault
    exact runs_pure ⟨rfl, .inr ⟨htokens, hfault, rfl⟩⟩

theorem balances_peek {f : Token → Read β} (hf : ∀ t, r.IsAhead t → Balances k (f t) r) :
    Balances k (peek >>= f) r :=
  (runs_peek r).bind fun t r' h => by
    obtain ⟨rfl, ht⟩ := h
    exact hf t ht

theorem balances_drop (h : r.IsAhead t) : Balances t.flowChange drop r := runs_modify h.passes

/-- To go on behind the token that is seen next. -/
theorem balances_drop_bind {f : Unit → Read β} (h : r.IsAhead t)
    (hf : ∀ r', Balances (k - t.flowChange) (f ()) r') : Balances k (drop >>= f) r := by
  have hbind := (balances_drop h).bind fun _ r' => hf r'
  rwa [show t.flowChange + (k - t.flowChange) = k by omega] at hbind

/-- To go on behind a token of which the change of the depth is known. -/
theorem balances_accept {p : Token → Bool} {f : Bool → Read β}
    (hp : ∀ t, p t = true → t.flowChange = j) (htrue : ∀ r', Balances (k - j) (f true) r')
    (hfalse : Balances k (f false) r) : Balances k (accept p >>= f) r := by
  rw [accept, bind_assoc]
  refine balances_peek fun t ht => ?_
  split
  · rename_i hpt
    rw [bind_assoc]
    refine balances_drop_bind ht fun r' => ?_
    rw [pure_bind, hp t hpt]
    exact htrue r'
  · rwa [pure_bind]

theorem balances_accept_eq {f : Bool → Read β} (ht : t.flowChange = j)
    (htrue : ∀ r', Balances (k - j) (f true) r') (hfalse : Balances k (f false) r) :
    Balances k (accept (· == t) >>= f) r :=
  balances_accept (fun u hu => by rw [beq_iff_eq.1 hu, ht]) htrue hfalse

theorem flowChange_of_isBlockEntry (t : Token) (h : isBlockEntry t = true) : t.flowChange = 0 := by
  rw [beq_iff_eq.1 h]
  rfl

/-- The comma between two parts of a flow collection. -/
theorem balances_separator (isFirst : Bool) {phrase : Phrase} (hm : ∀ r', Balances k m r') :
    Balances k (do
      if !isFirst then
        if !(← accept (· == .flowEntry)) then throw (.ungrammatical phrase)
      m) r := by
  dsimp only
  split
  · refine balances_accept_eq (j := 0) rfl (fun r' => ?_) ?_
    · rw [Int.sub_zero]
      exact hm r'
    · exact balances_throw_bind _
  · exact hm r

/-! ## Nodes -/

theorem stands_addNode (n : Node) : Stands (addNode n) r :=
  runs_get (runs_set (runs_pure ⟨rfl, rfl⟩))

theorem stands_setNode (i : Nat) (n : Node) : Stands (setNode i n) r := runs_modify ⟨rfl, rfl⟩

theorem stands_emptyNode : Stands emptyNode r := stands_addNode _

theorem stands_beginNode (anchor : Option (List Char)) (n : Node) :
    Stands (beginNode anchor n) r := by
  have hadd := @stands_addNode r n
  cases anchor with
  | none => exact hadd
  | some name =>
      refine runs_get ?_
      split
      · exact runs_throw_bind trivial
      · exact Runs.bind hadd fun i r' hr => runs_modify_bind (runs_pure hr)

theorem balances_anchorPart : Balances 0 anchorPart r := by
  refine balances_peek fun t ht => ?_
  split
  · exact balances_drop_bind ht fun _ => balances_pure _
  · exact balances_pure _

theorem balances_tagPart : Balances 0 tagPart r := by
  refine balances_peek fun t ht => ?_
  split
  · exact balances_drop_bind ht fun _ => balances_pure _
  · exact balances_pure _

theorem balances_properties : Balances 0 properties r := by
  refine balances_anchorPart.bind_pure fun anchor _ => ?_
  split
  · exact balances_tagPart.bind_pure fun _ _ => balances_pure _
  · refine balances_tagPart.bind_pure fun tag _ => ?_
    split
    · exact balances_anchorPart.bind_pure fun _ _ => balances_pure _
    · exact balances_pure _

theorem stands_lift (x : Except Fault α) : Stands (liftM x : Read α) r :=
  runs_lift (Meets.of_forall fun _ => ⟨rfl, rfl⟩)

/-- A collection of which the parts raise the depth as much as the whole does. -/
theorem balances_collection {mk : List α → Node} (anchor : Option (List Char)) {m : Read (List α)}
    (hm : ∀ r', Keeps r r' → Balances k m r') :
    Balances k (do
      let i ← beginNode anchor (mk [])
      setNode i (mk (← m))
      return i) r := by
  refine (stands_beginNode anchor _).bind fun i r' hr => (hm r' hr).bind_pure fun parts r'' => ?_
  exact (stands_setNode i _).bind fun _ _ _ => balances_pure _

/-- What the actions on nodes within a depth do to flow collections. -/
structure Balanced (handles : Handles) (depth : Nat) : Prop where
  node : ∀ place r, Balances 0 (node handles depth place) r
  blockItems : ∀ r, Balances 0 (blockItems handles depth) r
  indentlessEntries : ∀ r, Balances 0 (indentlessEntries handles depth) r
  blockEntries : ∀ r, Balances 0 (blockEntries handles depth) r
  blockPart : ∀ r, Balances 0 (blockPart handles depth) r
  flowItems : ∀ isFirst r, Balances (-1) (flowItems handles depth isFirst) r
  flowPair : ∀ r, r.IsAhead .key → Balances 0 (flowPair handles depth) r
  flowEntries : ∀ isFirst r, Balances (-1) (flowEntries handles depth isFirst) r

namespace Balanced

variable {handles : Handles} {depth : Nat} (h : Balanced handles depth)
include h

/-- A part that may be empty. -/
theorem part (p : Prop) [Decidable p] (place : Place) {f : Nat → Read β}
    (hf : ∀ i r', Balances k (f i) r') :
    Balances k (if p then emptyNode >>= f else Grammar.node handles depth place >>= f) r := by
  split
  · exact stands_emptyNode.bind fun i r' _ => hf i r'
  · exact (h.node place r).zero_bind hf

/-- The value behind a key in a flow collection. -/
theorem flowValue (ends : Token → Bool) {f : Nat → Read β} (hf : ∀ i r', Balances k (f i) r') :
    Balances k (do
      if ← accept (· == .value) then
        let next ← peek
        if ends next then emptyNode >>= f else Grammar.node handles depth .flow >>= f
      else emptyNode >>= f) r := by
  refine balances_accept_eq (j := 0) rfl (fun r' => ?_) ?_
  · rw [Int.sub_zero, if_pos rfl]
    exact balances_peek fun next _ => h.part _ .flow hf
  · rw [if_neg (by decide)]
    exact stands_emptyNode.bind fun i r' _ => hf i r'

theorem node_succ (place : Place) (r : Reader) :
    Balances 0 (Grammar.node handles (depth + 1) place) r := by
  rw [Grammar.node]
  refine balances_peek fun t ht => ?_
  split
  · refine balances_drop_bind ht fun r' => balances_get ?_
    split
    · exact balances_pure _
    · exact balances_throw _
  · refine balances_properties.bind_pure fun p r' => ?_
    refine (stands_lift _).bind fun name r'' _ => balances_peek fun t ht => ?_
    split
    · exact balances_collection p.anchor fun r' _ => h.indentlessEntries r'
    · exact balances_drop_bind ht fun _ => (stands_beginNode p.anchor _).balances
    · exact balances_collection p.anchor fun r' hr =>
        balances_drop_bind (ht.of_keeps hr) fun r' => h.flowItems true r'
    · exact balances_collection p.anchor fun r' hr =>
        balances_drop_bind (ht.of_keeps hr) fun r' => h.flowEntries true r'
    · exact balances_collection p.anchor fun r' hr =>
        balances_drop_bind (ht.of_keeps hr) fun r' => h.blockItems r'
    · exact balances_collection p.anchor fun r' hr =>
        balances_drop_bind (ht.of_keeps hr) fun r' => h.blockItems r'
    · exact balances_collection p.anchor fun r' hr =>
        balances_drop_bind (ht.of_keeps hr) fun r' => h.blockEntries r'
    · exact balances_collection p.anchor fun r' hr =>
        balances_drop_bind (ht.of_keeps hr) fun r' => h.blockEntries r'
    · split
      · exact (stands_beginNode p.anchor _).balances
      · exact balances_throw _

/-- An entry of a block collection. -/
theorem blockItems_succ (r : Reader) :
    Balances 0 (Grammar.blockItems handles (depth + 1)) r := by
  rw [Grammar.blockItems]
  refine balances_accept (j := 0) flowChange_of_isBlockEntry (fun r' => ?_) ?_
  · rw [if_pos rfl]
    refine balances_peek fun next _ => h.part _ .block fun i r' => ?_
    exact (h.blockItems r').bind_pure fun _ _ => balances_pure _
  · rw [if_neg (by decide)]
    refine balances_accept_eq rfl (fun r' => ?_) ?_
    · exact balances_pure _
    · exact balances_throw _

theorem indentlessEntries_succ (r : Reader) :
    Balances 0 (Grammar.indentlessEntries handles (depth + 1)) r := by
  rw [Grammar.indentlessEntries]
  refine balances_accept (j := 0) flowChange_of_isBlockEntry (fun r' => ?_) ?_
  · refine balances_peek fun next _ => h.part _ .block fun i r' => ?_
    exact (h.indentlessEntries r').bind_pure fun _ _ => balances_pure _
  · exact balances_pure _

theorem blockEntries_succ (r : Reader) :
    Balances 0 (Grammar.blockEntries handles (depth + 1)) r := by
  have hrest (i j : Nat) (r : Reader) : Balances 0
      (do return (i, j) :: (← Grammar.blockEntries handles depth)) r :=
    (h.blockEntries r).bind_pure fun _ _ => balances_pure _
  rw [Grammar.blockEntries]
  refine balances_accept_eq rfl (fun r' => ?_) ?_
  · refine (h.blockPart r').bind_pure fun i r' => balances_accept_eq rfl (fun r' => ?_) ?_
    · exact (h.blockPart r').bind_pure fun j r' => hrest i j r'
    · exact stands_emptyNode.bind fun j r' _ => hrest i j r'
  · refine balances_accept_eq rfl (fun r' => ?_) ?_
    · exact balances_pure _
    · exact balances_throw _

theorem blockPart_succ (r : Reader) :
    Balances 0 (Grammar.blockPart handles (depth + 1)) r := by
  rw [Grammar.blockPart]
  refine balances_peek fun t _ => ?_
  split
  · exact stands_emptyNode.balances
  · exact h.node .blockEntry r

theorem flowItems_succ (isFirst : Bool) (r : Reader) :
    Balances (-1) (Grammar.flowItems handles (depth + 1) isFirst) r := by
  rw [Grammar.flowItems]
  refine balances_accept_eq rfl (fun r' => balances_pure _) ?_
  refine balances_separator isFirst fun r' => ?_
  refine balances_peek fun t ht => ?_
  split
  · exact (h.flowPair r' ht).zero_bind fun i r' =>
      (h.flowItems false r').bind_pure fun _ _ => balances_pure _
  · exact balances_drop_bind ht fun r' => balances_pure _
  · exact (h.node .flow r').zero_bind fun i r' =>
      (h.flowItems false r').bind_pure fun _ _ => balances_pure _

theorem flowPair_succ (r : Reader) (hr : r.IsAhead .key) :
    Balances 0 (Grammar.flowPair handles (depth + 1)) r := by
  rw [Grammar.flowPair]
  refine (stands_addNode _).bind fun i r' hkeep => ?_
  refine balances_drop_bind (hr.of_keeps hkeep) fun r' => ?_
  refine balances_peek fun next _ => h.part _ .flow fun k r' => ?_
  refine h.flowValue _ fun v r' => balances_peek fun _ _ => ?_
  exact (stands_setNode i _).bind fun _ _ _ => balances_pure _

theorem flowEntries_succ (isFirst : Bool) (r : Reader) :
    Balances (-1) (Grammar.flowEntries handles (depth + 1) isFirst) r := by
  have hrest (i j : Nat) (r : Reader) : Balances (-1)
      (do return (i, j) :: (← Grammar.flowEntries handles depth false)) r :=
    (h.flowEntries false r).bind_pure fun _ _ => balances_pure _
  rw [Grammar.flowEntries]
  refine balances_accept_eq rfl (fun r' => balances_pure _) ?_
  refine balances_separator isFirst fun r' => ?_
  refine balances_peek fun t ht => ?_
  split
  · refine balances_drop_bind ht fun r' => ?_
    refine balances_peek fun next _ => h.part _ .flow fun i r' => ?_
    exact h.flowValue _ fun j r' => hrest i j r'
  · exact balances_drop_bind ht fun r' => balances_pure _
  · refine (h.node .flow r').zero_bind fun i r' => balances_peek fun _ _ => ?_
    exact stands_emptyNode.bind fun j r' _ => hrest i j r'

end Balanced

theorem balanced (handles : Handles) (depth : Nat) : Balanced handles depth := by
  induction depth with
  | zero => constructor <;> intros <;> exact balances_throw _
  | succ depth ih =>
      exact {
        node := ih.node_succ
        blockItems := ih.blockItems_succ
        indentlessEntries := ih.indentlessEntries_succ
        blockEntries := ih.blockEntries_succ
        blockPart := ih.blockPart_succ
        flowItems := ih.flowItems_succ
        flowPair := ih.flowPair_succ
        flowEntries := ih.flowEntries_succ }

/-! ## Documents -/

theorem balances_directives (fuel : Nat) (versioned : Bool) (handles : Handles) (r : Reader) :
    Balances 0 (directives fuel versioned handles) r := by
  induction fuel generalizing versioned handles r with
  | zero => exact balances_pure _
  | succ fuel ih =>
      rw [directives]
      refine balances_peek fun t ht => ?_
      split
      · refine balances_drop_bind ht fun r' => ?_
        dsimp only
        split
        · exact balances_throw_bind _
        · split
          · exact balances_throw_bind _
          · exact ih true handles r'
      · refine balances_drop_bind ht fun r' => ?_
        dsimp only
        split
        · exact balances_throw_bind _
        · exact ih versioned _ r'
      · exact balances_drop_bind ht fun r' => ih versioned handles r'
      · exact balances_pure _

theorem balances_skipDocumentEnds (fuel : Nat) (r : Reader) :
    Balances 0 (skipDocumentEnds fuel) r := by
  induction fuel generalizing r with
  | zero => exact balances_pure _
  | succ fuel ih => exact balances_accept_eq (j := 0) rfl (fun r' => ih r') (balances_pure _)

theorem balances_documentStart? (fuel : Nat) (r : Reader) :
    Balances 0 (documentStart? fuel) r := by
  rw [documentStart?]
  refine (balances_skipDocumentEnds fuel r).zero_bind fun _ r' => balances_peek fun t _ => ?_
  split
  · exact balances_pure _
  · refine (balances_directives fuel false [] r').zero_bind fun handles r' => ?_
    refine balances_peek fun t ht => ?_
    split
    · rename_i hstart
      refine balances_drop_bind ht fun r' => ?_
      rw [beq_iff_eq.1 hstart]
      exact balances_pure _
    · exact balances_throw _

theorem balances_documentContent (handles : Handles) (fuel : Nat) (r : Reader) :
    Balances 0 (documentContent handles fuel) r := by
  rw [documentContent]
  refine balances_peek fun t _ => ?_
  split
  · exact stands_emptyNode.balances
  · exact (balanced handles fuel).node .block r

/-- Behind the first document there is no other one. -/
theorem balances_secondDocument (fuel : Nat) (root : Option Nat) (r : Reader) :
    Balances 0 (do
      if root.isSome then
        let _ ← accept (· == .documentEnd)
        if (← documentStart? fuel).isSome then throw .secondDocument
      return root) r := by
  have hsecond (r : Reader) : Balances 0 (do
      if (← documentStart? fuel).isSome then throw .secondDocument
      return root) r :=
    (balances_documentStart? fuel r).zero_bind fun second r' => by
      dsimp only
      split
      · exact balances_throw_bind _
      · exact balances_pure _
  dsimp only
  split
  · exact balances_accept_eq (j := 0) rfl (fun r' => hsecond r') (hsecond r)
  · exact balances_pure _

theorem balances_root? (fuel : Nat) (r : Reader) : Balances 0 (root? fuel) r := by
  have hrest (root : Option Nat) := balances_secondDocument fuel root
  have hsome {m : Read Nat} {r : Reader} (hm : Balances 0 m r) : Balances 0 (some <$> m) r :=
    hm.bind_pure fun _ _ => balances_pure _
  rw [root?]
  refine balances_peek fun t _ => ?_
  dsimp only
  split
  · refine (balances_documentStart? fuel r).zero_bind fun handles? r' => ?_
    split
    · exact (hsome (balances_documentContent _ fuel r')).zero_bind fun root r' => hrest root r'
    · exact hrest none r'
  · exact (hsome ((balanced defaultHandles fuel).node .block r)).zero_bind
      fun root r' => hrest root r'

/-! ## The end of the stream -/

/-- Without a document the end of the stream is ahead. -/
theorem runs_documentStart? (fuel : Nat) (r : Reader) :
    Runs (documentStart? fuel) r (fun handles r' => handles = none → r'.IsAhead .streamEnd)
      fun _ => True := by
  rw [documentStart?]
  refine Runs.bind (balances_skipDocumentEnds fuel r) fun _ r' _ => ?_
  refine (runs_peek r').bind fun t r'' h => ?_
  obtain ⟨rfl, ht⟩ := h
  split
  · rename_i hend
    exact runs_pure fun _ => beq_iff_eq.1 hend ▸ ht
  · refine Runs.bind (balances_directives fuel false [] r'') fun handles r' _ => ?_
    refine (runs_peek r').bind fun t r'' h => ?_
    obtain ⟨rfl, ht⟩ := h
    split
    · exact Runs.bind (balances_drop ht) fun _ _ _ => runs_pure fun hnone => by cases hnone
    · exact runs_throw trivial

theorem runs_secondDocument (fuel : Nat) (root : Option Nat) (r : Reader)
    (h : root = none → r.IsAhead .streamEnd) :
    Runs (do
      if root.isSome then
        let _ ← accept (· == .documentEnd)
        if (← documentStart? fuel).isSome then throw .secondDocument
      return root : Read (Option Nat)) r (fun _ r' => r'.IsAhead .streamEnd) fun _ => True := by
  have haccept (r : Reader) : Runs (accept (· == .documentEnd)) r (fun _ _ => True)
      fun _ => True := Meets.of_forall fun _ => trivial
  dsimp only
  split
  · refine Runs.bind (haccept r) fun _ r' _ => ?_
    refine Runs.bind (runs_documentStart? fuel r') fun second r'' hr => ?_
    split
    · exact runs_throw_bind trivial
    · rename_i hnone
      exact runs_pure (hr (by simpa using hnone))
  · rename_i hnone
    exact runs_pure (h (by simpa using hnone))

theorem runs_root? (fuel : Nat) (r : Reader) :
    Runs (root? fuel) r (fun _ r' => r'.IsAhead .streamEnd) fun _ => True := by
  have hsome {m : Read Nat} {r : Reader} (hm : Balances 0 m r) :
      Runs (some <$> m) r (fun root _ => root ≠ none) fun _ => True :=
    Runs.bind hm fun i _ _ => runs_pure (Option.some_ne_none i)
  rw [root?]
  refine (runs_peek r).bind fun t r' h => ?_
  obtain ⟨rfl, -⟩ := h
  dsimp only
  split
  · refine Runs.bind (runs_documentStart? fuel r') fun handles? r'' hr => ?_
    split
    · refine Runs.bind (hsome (balances_documentContent _ fuel r'')) fun root r' hroot => ?_
      exact runs_secondDocument fuel root r' fun h => absurd h hroot
    · exact runs_secondDocument fuel none r'' fun _ => hr rfl
  · refine Runs.bind (hsome ((balanced defaultHandles fuel).node .block r')) fun root r' hroot => ?_
    exact runs_secondDocument fuel root r' fun h => absurd h hroot

end Grammar

/-- A reader that balances flow collections does not come to the end of such a stream. -/
theorem TokenStream.Fails.not_isAhead {σ : TokenStream} (h : σ.Fails 0) {r r' : Reader}
    (htokens : r.tokens = σ.tokens) (hfault : r.fault = σ.fault) (hpasses : r.Passes 0 r') :
    ¬ r'.IsAhead .streamEnd := by
  obtain ⟨hfault', front, hfront, hlevel⟩ := hpasses
  rw [htokens] at hfront
  cases h with
  | fault hsome _ hnot =>
      rintro (hhead | ⟨-, hnone, -⟩)
      · obtain ⟨rest, hrest⟩ := List.head?_eq_some_iff.1 hhead
        rw [hfront, hrest] at hnot
        exact hnot (List.mem_append_right front List.mem_cons_self)
      · rw [hfault', hfault, hsome] at hnone
        cases hnone
  | @unbalanced before _ htokens' hnot hlevel' =>
      rw [htokens'] at hfront
      rw [Int.zero_add] at hlevel'
      rintro (hhead | ⟨hnil, -, -⟩)
      · obtain ⟨rest, hrest⟩ := List.head?_eq_some_iff.1 hhead
        rw [hrest] at hfront
        obtain rfl : before = front := by
          rcases List.append_eq_append_iff.1 hfront with ⟨mid, hmid, hback⟩ | ⟨mid, hmid, hback⟩
          · cases mid with
            | nil => exact (hmid.trans (List.append_nil _)).symm
            | cons t mid => simp at hback
          · cases mid with
            | nil => exact hmid.trans (List.append_nil _)
            | cons t mid =>
                cases hback
                exact absurd (hmid ▸ List.mem_append_right front List.mem_cons_self) hnot
        exact hlevel' hlevel
      · rw [hnil, List.append_nil] at hfront
        rw [← hfront, flowLevel_append] at hlevel
        exact hlevel' (by simpa [Token.flowChange] using hlevel)

/-- No graph can be made of a stream that breaks off or ends inside of a flow collection. -/
theorem Graph.meets_ofTokens_of_fails {σ : TokenStream} (h : σ.Fails 0) :
    Meets (ofTokens σ) (fun _ => False) fun fault => fault.isOfBlock = true := by
  have hfault : ∀ fault ∈ σ.fault, IsReaderFault [] fault := by
    intro fault hmem
    cases h with
    | fault hfault hblock =>
        rw [hfault, Option.mem_some_iff] at hmem
        exact .inl (hmem ▸ hblock)
    | unbalanced hfault =>
        rw [hfault] at hmem
        cases hmem
  have hroot : Runs (Grammar.root? (4 * σ.tokens.length + 8)) ⟨σ.tokens, σ.fault, #[], []⟩
      (fun _ _ => False) fun fault => fault.isOfBlock = true := by
    have hyields : Grammar.Yields True [] (Grammar.root? (4 * σ.tokens.length + 8))
        fun _ => True := Grammar.yields_root? _
    have hfaults := hyields ⟨σ.tokens, σ.fault, #[], []⟩ ⟨fun _ _ => .inl trivial, hfault, by simp⟩
    have hbalances := Grammar.balances_root? (4 * σ.tokens.length + 8)
      ⟨σ.tokens, σ.fault, #[], []⟩
    have hends := Grammar.runs_root? (4 * σ.tokens.length + 8) ⟨σ.tokens, σ.fault, #[], []⟩
    refine (hfaults.and (hbalances.and hends)).mono ?_ ?_
    · exact fun x hx => h.not_isAhead rfl rfl hx.2.1 hx.2.2
    · exact fun fault hfault => hfault.1.resolve_right fun h => List.not_mem_nil h.2
  exact Meets.bind hroot fun _ h => h

end FrontLint.Yaml
