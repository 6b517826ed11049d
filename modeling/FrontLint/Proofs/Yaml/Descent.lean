import FrontLint.Proofs.Yaml.Supply
import FrontLint.Yaml.Graph.Grammar

/-!
# Descent

Every action of the grammar keeps to the faults of readers. The nodes of a block without tags
have the tags that the schema gives to their texts.
-/

namespace FrontLint.Yaml

/-- A collection with its standard tag, or a scalar whose tag follows from its text. -/
def Node.IsBare : Node → Prop
  | .scalar tag text => tag = .str ∨ tag = Schema.tagOf text ∧ text.getLast? ≠ some (.char '\n')
  | .sequence tag _ => tag = .seq
  | .mapping tag _ => tag = .map

namespace Grammar

variable {tagged : Prop} {text : List Char} {α β : Type}

/-- The parts of a state in a block that may have tags only if `tagged` holds. -/
structure Admits (tagged : Prop) (text : List Char) (r : Reader) : Prop where
  tokens : ∀ t ∈ r.tokens, tagged ∨ t.IsBare
  fault : ∀ fault ∈ r.fault, IsReaderFault text fault
  nodes : ∀ n ∈ r.nodes, tagged ∨ n.IsBare

/-- An action that ends in an admitted state with a result that satisfies `post`, or in a fault of
a reader. -/
def Yields (tagged : Prop) (text : List Char) (m : Read α) (post : α → Prop) : Prop :=
  ∀ r, Admits tagged text r →
    Runs m r (fun a r' => post a ∧ Admits tagged text r') (IsReaderFault text)

variable {m : Read α} {f : α → Read β} {post : α → Prop} {post' : β → Prop}

theorem Yields.bind (h : Yields tagged text m post)
    (hf : ∀ a, post a → Yields tagged text (f a) post') : Yields tagged text (m >>= f) post' :=
  fun r hr => (h r hr).bind fun a r' ha => hf a ha.1 r' ha.2

theorem yields_pure {a : α} (h : post a) : Yields tagged text (pure a) post :=
  fun _ hr => runs_pure ⟨h, hr⟩

theorem yields_throw {fault : Fault} (h : fault.isOfBlock = true) :
    Yields tagged text (throw fault : Read α) post :=
  fun _ _ => runs_throw (.inl h)

theorem yields_lift {x : Except Fault α} (h : Meets x post fun fault => fault.isOfBlock = true) :
    Yields tagged text (liftM x : Read α) post :=
  fun _ hr => runs_lift (Meets.mono h (fun _ ha => ⟨ha, hr⟩) fun _ h => .inl h)

theorem yields_throw_bind {fault : Fault} (h : fault.isOfBlock = true) :
    Yields tagged text (throw fault >>= f) post' :=
  fun _ _ => runs_throw_bind (.inl h)

theorem yields_get {f : Reader → Read β} (h : ∀ r, Yields tagged text (f r) post') :
    Yields tagged text (get >>= f) post' := fun r hr => runs_get (h r r hr)

theorem yields_peek : Yields tagged text peek fun t => tagged ∨ t.IsBare := by
  intro r hr
  rw [peek]
  refine runs_get ?_
  split
  · rename_i h
    exact runs_pure ⟨hr.tokens _ (h ▸ List.mem_cons_self), hr⟩
  · rename_i h
    exact runs_throw (hr.fault _ h)
  · exact runs_pure ⟨.inr trivial, hr⟩

theorem yields_drop : Yields tagged text drop fun _ => True :=
  fun _ hr => runs_modify
    ⟨trivial, fun t ht => hr.tokens t (List.mem_of_mem_tail ht), hr.fault, hr.nodes⟩

theorem yields_accept (p : Token → Bool) : Yields tagged text (accept p) fun _ => True := by
  refine yields_peek.bind fun t _ => ?_
  split
  · exact yields_drop.bind fun _ _ => yields_pure trivial
  · exact yields_pure trivial

theorem yields_addNode {n : Node} (hn : tagged ∨ n.IsBare) :
    Yields tagged text (addNode n) fun _ => True := by
  intro r hr
  refine runs_get (runs_set (runs_pure ⟨trivial, ?_⟩))
  refine ⟨hr.tokens, hr.fault, fun n' hn' => ?_⟩
  rcases Array.mem_push.1 hn' with hn' | rfl
  · exact hr.nodes n' hn'
  · exact hn

theorem yields_setNode {n : Node} (hn : tagged ∨ n.IsBare) (i : Nat) :
    Yields tagged text (setNode i n) fun _ => True := by
  refine fun r hr => runs_modify ⟨trivial, hr.tokens, hr.fault, fun n' hn' => ?_⟩
  rcases Array.mem_or_eq_of_mem_setIfInBounds hn' with hn' | rfl
  · exact hr.nodes n' hn'
  · exact hn

theorem yields_anchorPart : Yields tagged text anchorPart fun _ => True := by
  refine yields_peek.bind fun t _ => ?_
  split
  · exact yields_drop.bind fun _ _ => yields_pure trivial
  · exact yields_pure trivial

theorem yields_tagPart : Yields tagged text tagPart fun tag => tagged ∨ tag = none := by
  refine yields_peek.bind fun t ht => ?_
  split
  · exact yields_drop.bind fun _ _ => yields_pure (ht.imp_right False.elim)
  · exact yields_pure (.inr rfl)

theorem yields_properties : Yields tagged text properties fun p => tagged ∨ p.tag = none := by
  refine yields_anchorPart.bind fun anchor _ => ?_
  split
  · exact yields_tagPart.bind fun tag htag => yields_pure htag
  · refine yields_tagPart.bind fun tag htag => ?_
    split
    · exact yields_anchorPart.bind fun _ _ => yields_pure (htag.imp_right fun h => nomatch h)
    · exact yields_pure (.inr rfl)

theorem isBare_collection (standard : Tag) {name : Option (List Char)} (h : tagged ∨ name = none) :
    tagged ∨ collectionTag standard name = standard := by
  rcases h with h | rfl
  · exact .inl h
  · exact .inr rfl

theorem isBare_scalar {name : Option (List Char)} {t : Text} {plain : Bool}
    (h : tagged ∨ name = none) (ht : tagged ∨ (Token.scalar t plain).IsBare) :
    tagged ∨ (Node.scalar (scalarTag name t plain) t).IsBare := by
  rcases h with h | rfl
  · exact .inl h
  · cases plain with
    | true => exact ht.imp_right fun ht => .inr ⟨rfl, ht⟩
    | false => exact .inr (.inl rfl)

theorem isBare_empty : (Node.scalar .null []).IsBare := .inr ⟨by decide, by decide⟩

theorem yields_emptyNode : Yields tagged text emptyNode fun _ => True :=
  yields_addNode (.inr isBare_empty)

theorem yields_beginNode {n : Node} (hn : tagged ∨ n.IsBare) (anchor : Option (List Char)) :
    Yields tagged text (beginNode anchor n) fun _ => True := by
  cases anchor with
  | none => exact yields_addNode hn
  | some name =>
      refine yields_get fun r => ?_
      split
      · exact yields_throw_bind rfl
      · refine (yields_addNode hn).bind fun i _ => ?_
        have hmodify : Yields tagged text
            (modify fun r => { r with anchors := (name, i) :: r.anchors } : Read PUnit)
            fun _ => True :=
          fun r hr => runs_modify ⟨trivial, hr.tokens, hr.fault, hr.nodes⟩
        exact hmodify.bind fun _ _ => yields_pure trivial

/-- A collection has its number before its parts are read. -/
theorem yields_collection {mk : List α → Node} (hmk : ∀ parts, tagged ∨ (mk parts).IsBare)
    (anchor : Option (List Char)) {m : Read (List α)} (hm : Yields tagged text m fun _ => True) :
    Yields tagged text (do
      let i ← beginNode anchor (mk [])
      setNode i (mk (← m))
      return i) fun _ => True :=
  (yields_beginNode (hmk []) anchor).bind fun i _ => hm.bind fun parts _ =>
    (yields_setNode (hmk parts) i).bind fun _ _ => yields_pure trivial

theorem yields_tagName (handles : Handles) {tag : Option (Option (List Char) × List Char)}
    (h : tagged ∨ tag = none) :
    Yields tagged text (liftM (tag.mapM (tagName handles) : Except Fault _) : Read _)
      fun name => tagged ∨ name = none := by
  refine yields_lift ?_
  rcases tag with _ | ⟨_ | handle, suffix⟩
  · exact .inr rfl
  · exact h.imp_right fun h => nomatch h
  · have hname : Meets (tagName handles (some handle, suffix)) (fun _ => True)
        fun fault => fault.isOfBlock = true := by
      rw [tagName]
      split
      · trivial
      · rfl
    exact Meets.bind hname fun _ _ => h.imp_right fun h => nomatch h

theorem isOfBlock_misfit (place : Place) : place.misfit.isOfBlock = true := by
  cases place <;> rfl

/-- The comma between two parts of a flow collection. -/
theorem yields_separator (isFirst : Bool) {phrase : Phrase} {m : Read α}
    (hm : Yields tagged text m post) :
    Yields tagged text (do
      if !isFirst then
        if !(← accept (· == .flowEntry)) then throw (.ungrammatical phrase)
      m) post := by
  dsimp only
  split
  · refine (yields_accept _).bind fun b _ => ?_
    split
    · exact yields_throw_bind rfl
    · exact hm
  · exact hm

/-- What the actions on nodes within a depth yield. -/
structure Descends (tagged : Prop) (text : List Char) (handles : Handles) (depth : Nat) :
    Prop where
  node : ∀ place, Yields tagged text (node handles depth place) fun _ => True
  blockItems : Yields tagged text (blockItems handles depth) fun _ => True
  indentlessEntries : Yields tagged text (indentlessEntries handles depth) fun _ => True
  blockEntries : Yields tagged text (blockEntries handles depth) fun _ => True
  blockPart : Yields tagged text (blockPart handles depth) fun _ => True
  flowItems : ∀ isFirst, Yields tagged text (flowItems handles depth isFirst) fun _ => True
  flowPair : Yields tagged text (flowPair handles depth) fun _ => True
  flowEntries : ∀ isFirst, Yields tagged text (flowEntries handles depth isFirst) fun _ => True

namespace Descends

variable {handles : Handles} {depth : Nat} (h : Descends tagged text handles depth)
include h

/-- A part that may be empty. -/
theorem part (p : Prop) [Decidable p] (place : Place) {f : Nat → Read β}
    (hf : ∀ i, Yields tagged text (f i) post') :
    Yields tagged text (if p then emptyNode >>= f else Grammar.node handles depth place >>= f)
      post' :=
  iteInduction (motive := fun m => Yields tagged text m post')
    (fun _ => yields_emptyNode.bind fun i _ => hf i)
    fun _ => (h.node place).bind fun i _ => hf i

/-- The value behind a key in a flow collection. -/
theorem flowValue (ends : Token → Bool) {f : Nat → Read β}
    (hf : ∀ i, Yields tagged text (f i) post') :
    Yields tagged text (do
      if ← accept (· == .value) then
        let next ← peek
        if ends next then emptyNode >>= f else Grammar.node handles depth .flow >>= f
      else emptyNode >>= f) post' := by
  refine (yields_accept _).bind fun b _ => ?_
  split
  · exact yields_peek.bind fun next _ => h.part _ .flow hf
  · exact yields_emptyNode.bind fun i _ => hf i

theorem node_succ (place : Place) :
    Yields tagged text (Grammar.node handles (depth + 1) place) fun _ => True := by
  rw [Grammar.node]
  refine yields_peek.bind fun t _ => ?_
  split
  · refine yields_drop.bind fun _ _ => yields_get fun r => ?_
    split
    · exact yields_pure trivial
    · exact yields_throw rfl
  · refine yields_properties.bind fun p hp => (yields_tagName handles hp).bind fun name hname => ?_
    have hsequence (parts : List Nat) := isBare_collection .seq hname
    have hmapping (parts : List (Nat × Nat)) := isBare_collection .map hname
    refine yields_peek.bind fun t ht => ?_
    split
    · exact yields_collection hsequence p.anchor h.indentlessEntries
    · exact yields_drop.bind fun _ _ => yields_beginNode (isBare_scalar hname ht) p.anchor
    · exact yields_collection hsequence p.anchor (yields_drop.bind fun _ _ => h.flowItems true)
    · exact yields_collection hmapping p.anchor (yields_drop.bind fun _ _ => h.flowEntries true)
    · exact yields_collection hsequence p.anchor (yields_drop.bind fun _ _ => h.blockItems)
    · exact yields_collection hsequence p.anchor (yields_drop.bind fun _ _ => h.blockItems)
    · exact yields_collection hmapping p.anchor (yields_drop.bind fun _ _ => h.blockEntries)
    · exact yields_collection hmapping p.anchor (yields_drop.bind fun _ _ => h.blockEntries)
    · split
      · exact yields_beginNode (isBare_scalar hname (.inr (by simp [Token.IsBare]))) p.anchor
      · exact yields_throw (isOfBlock_misfit _)

theorem blockItems_succ :
    Yields tagged text (Grammar.blockItems handles (depth + 1)) fun _ => True := by
  rw [Grammar.blockItems]
  refine (yields_accept _).bind fun b _ => ?_
  split
  · refine yields_peek.bind fun next _ => h.part _ .block fun i => ?_
    exact h.blockItems.bind fun _ _ => yields_pure trivial
  · refine (yields_accept _).bind fun b _ => ?_
    split
    · exact yields_pure trivial
    · exact yields_throw rfl

theorem indentlessEntries_succ :
    Yields tagged text (Grammar.indentlessEntries handles (depth + 1)) fun _ => True := by
  rw [Grammar.indentlessEntries]
  refine (yields_accept _).bind fun b _ => ?_
  split
  · refine yields_peek.bind fun next _ => h.part _ .block fun i => ?_
    exact h.indentlessEntries.bind fun _ _ => yields_pure trivial
  · exact yields_pure trivial

theorem blockEntries_succ :
    Yields tagged text (Grammar.blockEntries handles (depth + 1)) fun _ => True := by
  have hrest (k v : Nat) : Yields tagged text
      (do return (k, v) :: (← Grammar.blockEntries handles depth)) fun _ => True :=
    h.blockEntries.bind fun _ _ => yields_pure trivial
  rw [Grammar.blockEntries]
  refine (yields_accept _).bind fun b _ => ?_
  split
  · refine h.blockPart.bind fun k _ => (yields_accept _).bind fun b _ => ?_
    split
    · exact h.blockPart.bind fun v _ => hrest k v
    · exact yields_emptyNode.bind fun v _ => hrest k v
  · refine (yields_accept _).bind fun b _ => ?_
    split
    · exact yields_pure trivial
    · exact yields_throw rfl

theorem blockPart_succ :
    Yields tagged text (Grammar.blockPart handles (depth + 1)) fun _ => True := by
  rw [Grammar.blockPart]
  refine yields_peek.bind fun t _ => ?_
  split
  · exact yields_emptyNode
  · exact h.node .blockEntry

theorem flowItems_succ (isFirst : Bool) :
    Yields tagged text (Grammar.flowItems handles (depth + 1) isFirst) fun _ => True := by
  rw [Grammar.flowItems]
  refine (yields_accept _).bind fun b _ => ?_
  split
  · exact yields_pure trivial
  · refine yields_separator isFirst ?_
    refine yields_peek.bind fun t _ => ?_
    split
    · exact h.flowPair.bind fun i _ => (h.flowItems false).bind fun _ _ => yields_pure trivial
    · exact yields_drop.bind fun _ _ => yields_pure trivial
    · exact (h.node .flow).bind fun i _ =>
        (h.flowItems false).bind fun _ _ => yields_pure trivial

theorem flowPair_succ :
    Yields tagged text (Grammar.flowPair handles (depth + 1)) fun _ => True := by
  have hrest (i k v : Nat) : Yields tagged text (do
      let _ ← peek
      setNode i (.mapping .map [(k, v)])
      return i) fun _ => True :=
    yields_peek.bind fun _ _ =>
      (yields_setNode (n := .mapping .map _) (.inr rfl) i).bind fun _ _ => yields_pure trivial
  rw [Grammar.flowPair]
  refine (yields_addNode (n := .mapping .map []) (.inr rfl)).bind fun i _ => ?_
  refine yields_drop.bind fun _ _ => yields_peek.bind fun next _ => h.part _ .flow fun k => ?_
  exact h.flowValue _ fun v => hrest i k v

theorem flowEntries_succ (isFirst : Bool) :
    Yields tagged text (Grammar.flowEntries handles (depth + 1) isFirst) fun _ => True := by
  have hrest (k v : Nat) : Yields tagged text
      (do return (k, v) :: (← Grammar.flowEntries handles depth false)) fun _ => True :=
    (h.flowEntries false).bind fun _ _ => yields_pure trivial
  rw [Grammar.flowEntries]
  refine (yields_accept _).bind fun b _ => ?_
  split
  · exact yields_pure trivial
  · refine yields_separator isFirst ?_
    refine yields_peek.bind fun t _ => ?_
    split
    · refine yields_drop.bind fun _ _ => yields_peek.bind fun next _ => h.part _ .flow fun k => ?_
      exact h.flowValue _ fun v => hrest k v
    · exact yields_drop.bind fun _ _ => yields_pure trivial
    · exact (h.node .flow).bind fun k _ => yields_peek.bind fun _ _ =>
        yields_emptyNode.bind fun v _ => hrest k v

end Descends

/-- Beyond the depth there is a fault of the block, as for any token that does not fit. -/
theorem descends (tagged : Prop) (text : List Char) (handles : Handles) (depth : Nat) :
    Descends tagged text handles depth := by
  induction depth with
  | zero =>
      constructor
      case node => exact fun place => yields_throw (isOfBlock_misfit place)
      all_goals intros; exact yields_throw rfl
  | succ depth ih =>
      exact {
        node := ih.node_succ
        blockItems := ih.blockItems_succ
        indentlessEntries := ih.indentlessEntries_succ
        blockEntries := ih.blockEntries_succ
        blockPart := ih.blockPart_succ
        flowItems := ih.flowItems_succ
        flowPair := ih.flowPair_succ
        flowEntries := ih.flowEntries_succ }

/-! ## Documents -/

theorem yields_directives (fuel : Nat) (versioned : Bool) (handles : Handles) :
    Yields tagged text (directives fuel versioned handles) fun _ => True := by
  induction fuel generalizing versioned handles with
  | zero => exact yields_pure trivial
  | succ fuel ih =>
      rw [directives]
      refine yields_peek.bind fun t _ => ?_
      split
      · refine yields_drop.bind fun _ _ => ?_
        dsimp only
        split
        · exact yields_throw_bind rfl
        · split
          · exact yields_throw_bind rfl
          · exact ih true handles
      · refine yields_drop.bind fun _ _ => ?_
        dsimp only
        split
        · exact yields_throw_bind rfl
        · exact ih versioned _
      · exact yields_drop.bind fun _ _ => ih versioned handles
      · exact yields_pure trivial

theorem yields_skipDocumentEnds (fuel : Nat) :
    Yields tagged text (skipDocumentEnds fuel) fun _ => True := by
  induction fuel with
  | zero => exact yields_pure trivial
  | succ fuel ih =>
      refine (yields_accept _).bind fun b _ => ?_
      split
      · exact ih
      · exact yields_pure trivial

theorem yields_documentStart? (fuel : Nat) :
    Yields tagged text (documentStart? fuel) fun _ => True := by
  rw [documentStart?]
  refine (yields_skipDocumentEnds fuel).bind fun _ _ => yields_peek.bind fun t _ => ?_
  split
  · exact yields_pure trivial
  · refine (yields_directives fuel false []).bind fun handles _ => yields_peek.bind fun t _ => ?_
    split
    · exact yields_drop.bind fun _ _ => yields_pure trivial
    · exact yields_throw rfl

theorem yields_documentContent (handles : Handles) (fuel : Nat) :
    Yields tagged text (documentContent handles fuel) fun _ => True := by
  rw [documentContent]
  refine yields_peek.bind fun t _ => ?_
  split
  · exact yields_emptyNode
  · exact (descends tagged text handles fuel).node .block

/-- Behind the first document there is no other one. -/
theorem yields_secondDocument (fuel : Nat) (root : Option Nat) :
    Yields tagged text (do
      if root.isSome then
        let _ ← accept (· == .documentEnd)
        if (← documentStart? fuel).isSome then throw .secondDocument
      return root) fun _ => True := by
  dsimp only
  split
  · refine (yields_accept _).bind fun _ _ => (yields_documentStart? fuel).bind fun second _ => ?_
    split
    · exact yields_throw_bind rfl
    · exact yields_pure trivial
  · exact yields_pure trivial

theorem yields_root? (fuel : Nat) : Yields tagged text (root? fuel) fun _ => True := by
  have hrest (root : Option Nat) := @yields_secondDocument tagged text fuel root
  have hsome {m : Read Nat} (hm : Yields tagged text m fun _ => True) :
      Yields tagged text (some <$> m) fun _ => True :=
    hm.bind fun _ _ => yields_pure trivial
  rw [root?]
  refine yields_peek.bind fun t _ => ?_
  dsimp only
  split
  · refine (yields_documentStart? fuel).bind fun handles? _ => ?_
    split
    · exact (hsome (yields_documentContent _ fuel)).bind fun root _ => hrest root
    · exact hrest none
  · exact (hsome ((descends tagged text defaultHandles fuel).node .block)).bind
      fun root _ => hrest root

end Grammar

/-- The graph of the tokens of a block, and the faults that it may have instead. -/
theorem Graph.meets_ofTokens {tagged : Prop} {text : List Char} {s : TokenStream}
    (htokens : ∀ t ∈ s.tokens, tagged ∨ t.IsBare)
    (hfault : ∀ fault ∈ s.fault, IsReaderFault text fault) :
    Meets (Graph.ofTokens s) (fun x => ∀ n ∈ x.1, tagged ∨ n.IsBare) (IsReaderFault text) := by
  have hroot : Grammar.Yields tagged text (Grammar.root? (4 * s.tokens.length + 8))
      fun _ => True := Grammar.yields_root? _
  exact Meets.bind (hroot ⟨s.tokens, s.fault, #[], []⟩ ⟨htokens, hfault, by simp⟩)
    fun x hx => hx.2.nodes

end FrontLint.Yaml
