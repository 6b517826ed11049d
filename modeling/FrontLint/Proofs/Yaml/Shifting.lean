import FrontLint.Proofs.Yaml.AlikeStream
import FrontLint.Proofs.Yaml.FlowBalance
import FrontLint.Proofs.Yaml.Merging
import Mathlib.Data.List.InsertIdx

/-!
# Nodes behind other nodes

What is read does not depend on the nodes that have been read before, if no alias refers to them:
the numbers of the nodes are greater by the number of those before.
-/

namespace FrontLint.Yaml

/-! ## Graphs -/

/-- The entries with numbers greater by `d`. -/
def shiftEntries (d : Nat) (entries : List (Nat × Nat)) : List (Nat × Nat) :=
  entries.map (Prod.map (· + d) (· + d))

section

variable (d : Nat) (es es' : List (Nat × Nat))

@[simp] theorem shiftEntries_nil : shiftEntries d [] = [] := rfl

@[simp] theorem shiftEntries_cons (e : Nat × Nat) :
    shiftEntries d (e :: es) = (e.1 + d, e.2 + d) :: shiftEntries d es := rfl

@[simp] theorem shiftEntries_append :
    shiftEntries d (es ++ es') = shiftEntries d es ++ shiftEntries d es' := List.map_append

@[simp] theorem length_shiftEntries : (shiftEntries d es).length = es.length := List.length_map _

@[simp] theorem getElem?_shiftEntries (i : Nat) :
    (shiftEntries d es)[i]? = es[i]?.map (Prod.map (· + d) (· + d)) := List.getElem?_map

@[simp] theorem drop_shiftEntries (i : Nat) :
    (shiftEntries d es).drop i = shiftEntries d (es.drop i) := (List.map_drop ..).symm

@[simp] theorem eraseIdx_shiftEntries (i : Nat) :
    (shiftEntries d es).eraseIdx i = shiftEntries d (es.eraseIdx i) :=
  List.eraseIdx_map _ _ _

end

namespace Node

/-- The node that refers to nodes with numbers greater by `d`. -/
def shift (d : Nat) : Node → Node
  | .scalar tag text => .scalar tag text
  | .sequence tag items => .sequence tag (items.map (· + d))
  | .mapping tag entries => .mapping tag (shiftEntries d entries)

/-- A node that refers to nodes from `b` on only. -/
def RefersFrom (b : Nat) : Node → Prop
  | .scalar _ _ => True
  | .sequence _ items => ∀ i ∈ items, b ≤ i
  | .mapping _ entries => ∀ e ∈ entries, b ≤ e.1 ∧ b ≤ e.2

theorem RefersFrom.mono {b b' : Nat} {node : Node} (h : node.RefersFrom b) (hb : b' ≤ b) :
    node.RefersFrom b' := by
  cases node with
  | scalar => trivial
  | sequence => exact fun i hi => hb.trans (h i hi)
  | mapping => exact fun e he => ⟨hb.trans (h e he).1, hb.trans (h e he).2⟩

end Node

namespace Graph

variable {g g' : Graph} {b d : Nat} {node : Node}

theorem node_eq_default {n : Nat} (h : g.size ≤ n) : g.node n = default := by
  rw [Graph.node, Array.getElem?_eq_none h, Option.getD_none]

theorem node_push (g : Graph) (node : Node) (n : Nat) :
    Graph.node (g.push node) n = if n = g.size then node else g.node n := by
  rw [Graph.node, Array.getElem?_push]
  split
  · rfl
  · rfl

/-- Two graphs whose nodes from some number on are the same, but for numbers that are greater by
`d` in the second one. -/
structure Mirrors (b d : Nat) (g g' : Graph) : Prop where
  size_le : b ≤ g.size
  size_eq : g'.size = g.size + d
  node : ∀ n, b ≤ n → g'.node (n + d) = (g.node n).shift d
  refersFrom : ∀ n, b ≤ n → (g.node n).RefersFrom b

/-- One node more is the same. -/
theorem Mirrors.of_succ (h : Mirrors (b + 1) d g g') (hnode : g'.node (b + d) = (g.node b).shift d)
    (hrefers : (g.node b).RefersFrom b) : Mirrors b d g g' where
  size_le := (Nat.le_succ b).trans h.size_le
  size_eq := h.size_eq
  node n hn := by
    rcases hn.eq_or_lt with rfl | hlt
    · exact hnode
    · exact h.node n hlt
  refersFrom n hn := by
    rcases hn.eq_or_lt with rfl | hlt
    · exact hrefers
    · exact (h.refersFrom n hlt).mono (Nat.le_succ b)

/-- Nodes in front may be changed. -/
theorem Mirrors.setIfInBounds_left {m : Nat} (h : Mirrors b d g g') (hm : m < b) :
    Mirrors b d (g.setIfInBounds m node) g' where
  size_le := by rw [Array.size_setIfInBounds]; exact h.size_le
  size_eq := by rw [Array.size_setIfInBounds, h.size_eq]
  node n hn := by rw [node_setIfInBounds, if_neg (by omega), h.node n hn]
  refersFrom n hn := by
    rw [node_setIfInBounds, if_neg (by omega)]
    exact h.refersFrom n hn

theorem Mirrors.setIfInBounds_right {m : Nat} (h : Mirrors b d g g') (hm : m < b + d) :
    Mirrors b d g (g'.setIfInBounds m node) where
  size_le := h.size_le
  size_eq := by rw [Array.size_setIfInBounds, h.size_eq]
  node n hn := by rw [node_setIfInBounds, if_neg (by omega), h.node n hn]
  refersFrom := h.refersFrom

theorem Mirrors.push (h : Mirrors b d g g') (hnode : node.RefersFrom b) :
    Mirrors b d (g.push node) (g'.push (node.shift d)) where
  size_le := by rw [Array.size_push]; exact h.size_le.trans (Nat.le_succ _)
  size_eq := by rw [Array.size_push, Array.size_push, h.size_eq]; omega
  node n hn := by
    rw [node_push, node_push, h.size_eq, h.node n hn]
    by_cases heq : n = g.size
    · rw [if_pos heq, if_pos (by omega)]
    · rw [if_neg heq, if_neg (by omega)]
  refersFrom n hn := by
    rw [node_push]
    split
    · exact hnode
    · exact h.refersFrom n hn

theorem Mirrors.setIfInBounds (h : Mirrors b d g g') (hnode : node.RefersFrom b) (m : Nat) :
    Mirrors b d (g.setIfInBounds m node) (g'.setIfInBounds (m + d) (node.shift d)) where
  size_le := by rw [Array.size_setIfInBounds]; exact h.size_le
  size_eq := by rw [Array.size_setIfInBounds, Array.size_setIfInBounds, h.size_eq]
  node n hn := by
    rw [node_setIfInBounds, node_setIfInBounds, h.size_eq, h.node n hn]
    by_cases heq : m = n ∧ m < g.size
    · rw [if_pos heq, if_pos (by omega)]
    · rw [if_neg heq, if_neg (by omega)]
  refersFrom n hn := by
    rw [node_setIfInBounds]
    split
    · exact hnode
    · exact h.refersFrom n hn

end Graph

/-! ## Readers -/

namespace Reader

/-- What two readers have read before they come to the same tokens: the nodes of each, and the
anchors of the second one. The first one has no anchors that count, and less nodes by `offset`. -/
structure Frame where
  nodes : Graph
  nodes' : Graph
  anchors' : List (List Char × Nat)
  size : Nat
  offset : Nat

/-- Two readers that have read the same since. -/
structure Follows (w : Frame) (r r' : Reader) : Prop where
  tokens_eq : r'.tokens = r.tokens
  fault_eq : r'.fault = r.fault
  mirrors : r.nodes.Mirrors w.size w.offset r'.nodes
  nodes_eq : ∀ n < w.size, r.nodes.node n = w.nodes.node n
  nodes'_eq : ∀ n < w.size + w.offset, r'.nodes.node n = w.nodes'.node n
  anchors_eq : r'.anchors = r.anchors.map (fun a => (a.1, a.2 + w.offset)) ++ w.anchors'
  anchors_le : ∀ a ∈ r.anchors, w.size ≤ a.2

/-- Two readers that have read nothing yet but what they have. -/
theorem follows_of_size_eq {nodes nodes' : Graph} {d : Nat} (h : nodes'.size = nodes.size + d)
    (tokens : List Token) (fault : Option Fault) (anchors : List (List Char × Nat)) :
    Follows ⟨nodes, nodes', anchors, nodes.size, d⟩ ⟨tokens, fault, nodes, []⟩
      ⟨tokens, fault, nodes', anchors⟩ where
  tokens_eq := rfl
  fault_eq := rfl
  mirrors := {
    size_le := Nat.le_refl _
    size_eq := h
    node := fun n hn => by
      rw [Graph.node_eq_default (h.trans_le (Nat.add_le_add_right hn d)),
        Graph.node_eq_default hn]
      rfl
    refersFrom := fun n hn => by
      rw [Graph.node_eq_default hn]
      trivial }
  nodes_eq _ _ := rfl
  nodes'_eq _ _ := rfl
  anchors_eq := rfl
  anchors_le := nofun

end Reader

namespace Grammar

open Reader

variable {α α' β β' : Type} {w : Frame} {m : Read α} {m' : Read α'} {f : α → Read β}
  {f' : α' → Read β'} {R : α → α' → Prop} {S : β → β' → Prop}

/-- Two actions that, where both succeed, go from such readers to such readers, with results that
are related by `R`. -/
def Agree (w : Frame) (R : α → α' → Prop) (m : Read α) (m' : Read α') : Prop :=
  ∀ r r', Follows w r r' → ∀ a s, m.run r = .ok (a, s) →
    ∀ a' s', m'.run r' = .ok (a', s') → R a a' ∧ Follows w s s'

theorem Agree.bind (h : Agree w R m m')
    (hf : ∀ a a', R a a' → Agree w S (f a) (f' a')) :
    Agree w S (m >>= f) (m' >>= f') := by
  intro r r' hr b s hb b' s' hb'
  obtain ⟨a, r₁, ha, hb⟩ := run_bind_eq_ok hb
  obtain ⟨a', r₁', ha', hb'⟩ := run_bind_eq_ok hb'
  obtain ⟨hR, hr₁⟩ := h r r' hr a r₁ ha a' r₁' ha'
  exact hf a a' hR r₁ r₁' hr₁ b s hb b' s' hb'

theorem agree_pure {a : α} {a' : α'} (h : R a a') :
    Agree w R (pure a) (pure a') := by
  intro r r' hr b s hb b' s' hb'
  cases hb
  cases hb'
  exact ⟨h, hr⟩

theorem agree_throw (fault : Fault) (m' : Read α') :
    Agree w R (throw fault : Read α) m' :=
  fun _ _ _ _ _ ha => nomatch ha

theorem agree_throw_right (m : Read α) (fault : Fault) :
    Agree w R m (throw fault : Read α') :=
  fun _ _ _ _ _ _ _ _ ha' => nomatch ha'

theorem agree_throw_bind (fault : Fault) (m' : Read β') :
    Agree w S (throw fault >>= f) m' :=
  fun _ _ _ _ _ ha => nomatch ha

theorem agree_lift (x : Except Fault α) :
    Agree w Eq (liftM x : Read α) (liftM x) := by
  intro r r' hr a s ha a' s' ha'
  cases x with
  | error fault => cases ha
  | ok a =>
      cases ha
      cases ha'
      exact ⟨rfl, hr⟩

theorem agree_peek : Agree w Eq peek peek := by
  intro r r' hr a s ha a' s' ha'
  obtain ⟨tokens, fault, nodes, anchors⟩ := r
  obtain ⟨tokens', fault', nodes', anchors'⟩ := r'
  obtain rfl := hr.tokens_eq
  obtain rfl := hr.fault_eq
  cases tokens' with
  | cons t tokens =>
      cases ha
      cases ha'
      exact ⟨rfl, hr⟩
  | nil =>
      cases fault' with
      | some fault => cases ha
      | none =>
          cases ha
          cases ha'
          exact ⟨rfl, hr⟩

theorem agree_drop : Agree w Eq drop drop := by
  intro r r' hr a s ha a' s' ha'
  cases ha
  cases ha'
  exact ⟨rfl, congrArg List.tail hr.tokens_eq, hr.fault_eq, hr.mirrors, hr.nodes_eq, hr.nodes'_eq,
    hr.anchors_eq, hr.anchors_le⟩

/-- Both look at the same token. -/
theorem agree_peek_bind {f : Token → Read β} {f' : Token → Read β'}
    (hf : ∀ t, Agree w S (f t) (f' t)) :
    Agree w S (peek >>= f) (peek >>= f') :=
  agree_peek.bind fun t _ h => h ▸ hf t

theorem agree_drop_bind {f : Unit → Read β} {f' : Unit → Read β'}
    (hf : Agree w S (f ()) (f' ())) :
    Agree w S (drop >>= f) (drop >>= f') :=
  agree_drop.bind fun _ _ _ => hf

theorem agree_accept (p : Token → Bool) : Agree w Eq (accept p) (accept p) := by
  refine agree_peek_bind fun t => ?_
  split
  · exact agree_drop_bind (agree_pure rfl)
  · exact agree_pure rfl

theorem agree_accept_bind {p : Token → Bool} {f : Bool → Read β} {f' : Bool → Read β'}
    (hf : ∀ b, Agree w S (f b) (f' b)) :
    Agree w S (accept p >>= f) (accept p >>= f') :=
  (agree_accept p).bind fun b _ h => h ▸ hf b

theorem agree_properties : Agree w Eq properties properties := by
  have hanchor : Agree w Eq anchorPart anchorPart := by
    refine agree_peek_bind fun t => ?_
    split
    · exact agree_drop_bind (agree_pure rfl)
    · exact agree_pure rfl
  have htag : Agree w Eq tagPart tagPart := by
    refine agree_peek_bind fun t => ?_
    split
    · exact agree_drop_bind (agree_pure rfl)
    · exact agree_pure rfl
  refine hanchor.bind fun anchor _ h => h ▸ ?_
  split
  · exact htag.bind fun _ _ h => h ▸ agree_pure rfl
  · refine htag.bind fun tag _ h => h ▸ ?_
    split
    · exact hanchor.bind fun _ _ h => h ▸ agree_pure rfl
    · exact agree_pure rfl

/-! ## Nodes -/

/-- The number of a node behind the first one, and its number behind other nodes. -/
def ShiftsIndex (w : Frame) (i i' : Nat) : Prop := w.size ≤ i ∧ i' = i + w.offset

def ShiftsItems (w : Frame) (is is' : List Nat) : Prop :=
  (∀ i ∈ is, w.size ≤ i) ∧ is' = is.map (· + w.offset)

def ShiftsEntries (w : Frame) (es es' : List (Nat × Nat)) : Prop :=
  (∀ e ∈ es, w.size ≤ e.1 ∧ w.size ≤ e.2) ∧ es' = shiftEntries w.offset es

theorem agree_addNode {n : Node} (hn : n.RefersFrom w.size) :
    Agree w (ShiftsIndex w) (addNode n) (addNode (n.shift w.offset)) := by
  intro r r' hr a s ha a' s' ha'
  cases ha
  cases ha'
  have hle := hr.mirrors.size_le
  have hsize := hr.mirrors.size_eq
  refine ⟨⟨hle, hsize⟩, hr.tokens_eq, hr.fault_eq, hr.mirrors.push hn, fun k hk => ?_,
    fun k hk => ?_, hr.anchors_eq, hr.anchors_le⟩
  · rw [Graph.node_push, if_neg (by omega), hr.nodes_eq k hk]
  · rw [Graph.node_push, if_neg (by omega), hr.nodes'_eq k hk]

theorem agree_setNode {n : Node} {i : Nat} (hn : n.RefersFrom w.size) (hi : w.size ≤ i) :
    Agree w Eq (setNode i n) (setNode (i + w.offset) (n.shift w.offset)) := by
  intro r r' hr a s ha a' s' ha'
  cases ha
  cases ha'
  refine ⟨rfl, hr.tokens_eq, hr.fault_eq, hr.mirrors.setIfInBounds hn i, fun k hk => ?_,
    fun k hk => ?_, hr.anchors_eq, hr.anchors_le⟩
  · rw [Graph.node_setIfInBounds, if_neg (by omega), hr.nodes_eq k hk]
  · rw [Graph.node_setIfInBounds, if_neg (by omega), hr.nodes'_eq k hk]

theorem agree_emptyNode : Agree w (ShiftsIndex w) emptyNode emptyNode :=
  agree_addNode (n := .scalar .null []) trivial

theorem agree_beginNode {n : Node} (hn : n.RefersFrom w.size) (anchor : Option (List Char)) :
    Agree w (ShiftsIndex w) (beginNode anchor n) (beginNode anchor (n.shift w.offset)) := by
  cases anchor with
  | none => exact agree_addNode hn
  | some name =>
      intro r r' hr a s ha a' s' ha'
      obtain ⟨_, _, hget, ha⟩ := run_bind_eq_ok ha
      obtain ⟨_, _, hget', ha'⟩ := run_bind_eq_ok ha'
      cases hget
      cases hget'
      dsimp only at ha ha'
      split at ha
      · cases ha
      · split at ha'
        · cases ha'
        · refine Agree.bind (S := ShiftsIndex w) (agree_addNode hn) (fun i i' hi => ?_) r r' hr
            a s ha a' s' ha'
          obtain ⟨hi, rfl⟩ := hi
          refine Agree.bind (R := Eq) ?_ fun _ _ _ => agree_pure ⟨hi, rfl⟩
          intro r r' hr a s ha a' s' ha'
          cases ha
          cases ha'
          exact ⟨rfl, hr.tokens_eq, hr.fault_eq, hr.mirrors, hr.nodes_eq, hr.nodes'_eq,
            congrArg (List.cons (name, i + w.offset)) hr.anchors_eq,
            List.forall_mem_cons.2 ⟨hi, hr.anchors_le⟩⟩

theorem agree_collection (mk mk' : List α → Node)
    {P : List α → List α → Prop} (hnil : (mk []).RefersFrom w.size)
    (hnil' : mk' [] = (mk []).shift w.offset)
    (hmk : ∀ parts parts', P parts parts' →
      (mk parts).RefersFrom w.size ∧ mk' parts' = (mk parts).shift w.offset)
    (anchor : Option (List Char)) {m m' : Read (List α)} (hm : Agree w P m m') :
    Agree w (ShiftsIndex w)
      (do
        let i ← beginNode anchor (mk [])
        setNode i (mk (← m))
        return i)
      (do
        let i ← beginNode anchor (mk' [])
        setNode i (mk' (← m'))
        return i) := by
  rw [hnil']
  refine (agree_beginNode hnil anchor).bind fun i i' hi => ?_
  obtain ⟨hi, rfl⟩ := hi
  refine hm.bind fun parts parts' hparts => ?_
  obtain ⟨havoids, heq⟩ := hmk parts parts' hparts
  rw [heq]
  exact (agree_setNode havoids hi).bind fun _ _ _ => agree_pure ⟨hi, rfl⟩

/-- One more item. -/
theorem agree_cons_items {i i' : Nat} (hi : ShiftsIndex w i i') {m m' : Read (List Nat)}
    (hm : Agree w (ShiftsItems w) m m') :
    Agree w (ShiftsItems w) (do return i :: (← m)) (do return i' :: (← m')) := by
  obtain ⟨hi, rfl⟩ := hi
  refine hm.bind fun is is' his => agree_pure ?_
  obtain ⟨his, rfl⟩ := his
  exact ⟨List.forall_mem_cons.2 ⟨hi, his⟩, rfl⟩

/-- One more entry. -/
theorem agree_cons_entries {i i' j j' : Nat} (hi : ShiftsIndex w i i') (hj : ShiftsIndex w j j')
    {m m' : Read (List (Nat × Nat))} (hm : Agree w (ShiftsEntries w) m m') :
    Agree w (ShiftsEntries w) (do return (i, j) :: (← m))
      (do return (i', j') :: (← m')) := by
  obtain ⟨hi, rfl⟩ := hi
  obtain ⟨hj, rfl⟩ := hj
  refine hm.bind fun es es' hes => agree_pure ?_
  obtain ⟨hes, rfl⟩ := hes
  exact ⟨List.forall_mem_cons.2 ⟨⟨hi, hj⟩, hes⟩, rfl⟩

theorem agree_sequence (tag : Tag) (anchor : Option (List Char)) {m m' : Read (List Nat)}
    (hm : Agree w (ShiftsItems w) m m') :
    Agree w (ShiftsIndex w)
      (do
        let i ← beginNode anchor (.sequence tag [])
        setNode i (.sequence tag (← m))
        return i)
      (do
        let i ← beginNode anchor (.sequence tag [])
        setNode i (.sequence tag (← m'))
        return i) :=
  agree_collection (Node.sequence tag) (Node.sequence tag) nofun rfl
    (fun _ _ h => ⟨h.1, congrArg _ h.2⟩) anchor hm

theorem agree_mapping (tag : Tag) (anchor : Option (List Char)) {m m' : Read (List (Nat × Nat))}
    (hm : Agree w (ShiftsEntries w) m m') :
    Agree w (ShiftsIndex w)
      (do
        let i ← beginNode anchor (.mapping tag [])
        setNode i (.mapping tag (← m))
        return i)
      (do
        let i ← beginNode anchor (.mapping tag [])
        setNode i (.mapping tag (← m'))
        return i) :=
  agree_collection (Node.mapping tag) (Node.mapping tag) nofun rfl
    (fun _ _ h => ⟨h.1, congrArg _ h.2⟩) anchor hm

/-- An alias that is known in both refers to the same node. -/
theorem agree_alias (name : List Char) :
    Agree w (ShiftsIndex w)
      (do
        match (← get).anchors.lookup name with
        | some i => return i
        | none => throw (.undefinedAlias name))
      (do
        match (← get).anchors.lookup name with
        | some i => return i
        | none => throw (.undefinedAlias name)) := by
  intro r r' hr a s ha a' s' ha'
  obtain ⟨_, _, hget, ha⟩ := run_bind_eq_ok ha
  obtain ⟨_, _, hget', ha'⟩ := run_bind_eq_ok ha'
  cases hget
  cases hget'
  have hlookup := congrArg (List.lookup name) hr.anchors_eq
  rw [List.lookup_append, TokenStream.lookup_map_snd (· + w.offset)] at hlookup
  cases hfound : r.anchors.lookup name with
  | none =>
      rw [hfound] at ha
      cases ha
  | some i =>
      rw [hfound] at ha hlookup
      rw [hlookup] at ha'
      cases ha
      cases ha'
      obtain ⟨l, l', hanchors, -⟩ := List.lookup_eq_some_iff.1 hfound
      exact ⟨⟨hr.anchors_le _ (hanchors ▸ List.mem_append_right l List.mem_cons_self), rfl⟩, hr⟩

/-- The comma between two parts of a flow collection. -/
theorem agree_separator (isFirst : Bool) {phrase : Phrase} {m : Read α} {m' : Read α'}
    (hm : Agree w R m m') :
    Agree w R
      (do
        if !isFirst then
          if !(← accept (· == .flowEntry)) then throw (.ungrammatical phrase)
        m)
      (do
        if !isFirst then
          if !(← accept (· == .flowEntry)) then throw (.ungrammatical phrase)
        m') := by
  dsimp only
  split
  · refine agree_accept_bind fun b => ?_
    split
    · exact agree_throw_bind _ _
    · exact hm
  · exact hm

/-- What the actions on nodes within a depth read behind other nodes, at any depth. -/
structure ReadsOn (w : Frame) (handles : Handles) (depth : Nat) : Prop where
  node : ∀ depth' place, Agree w (ShiftsIndex w) (node handles depth place)
    (node handles depth' place)
  blockItems : ∀ depth', Agree w (ShiftsItems w) (blockItems handles depth)
    (blockItems handles depth')
  indentlessEntries : ∀ depth', Agree w (ShiftsItems w)
    (indentlessEntries handles depth) (indentlessEntries handles depth')
  blockEntries : ∀ depth', Agree w (ShiftsEntries w) (blockEntries handles depth)
    (blockEntries handles depth')
  blockPart : ∀ depth', Agree w (ShiftsIndex w) (blockPart handles depth)
    (blockPart handles depth')
  flowItems : ∀ depth' isFirst, Agree w (ShiftsItems w)
    (flowItems handles depth isFirst) (flowItems handles depth' isFirst)
  flowPair : ∀ depth', Agree w (ShiftsIndex w) (flowPair handles depth)
    (flowPair handles depth')
  flowEntries : ∀ depth' isFirst, Agree w (ShiftsEntries w)
    (flowEntries handles depth isFirst) (flowEntries handles depth' isFirst)

namespace ReadsOn

variable {handles : Handles} {depth : Nat} (h : ReadsOn w handles depth)
include h

/-- A part that may be empty. -/
theorem part (p : Prop) [Decidable p] (depth' : Nat) (place : Place) {f : Nat → Read β}
    {f' : Nat → Read β'} (hf : ∀ i i', ShiftsIndex w i i' → Agree w S (f i) (f' i')) :
    Agree w S
      (if p then emptyNode >>= f else Grammar.node handles depth place >>= f)
      (if p then emptyNode >>= f' else Grammar.node handles depth' place >>= f') := by
  split
  · exact agree_emptyNode.bind hf
  · exact (h.node depth' place).bind hf

/-- The value behind a key in a flow collection. -/
theorem flowValue (ends : Token → Bool) (depth' : Nat) {f : Nat → Read β} {f' : Nat → Read β'}
    (hf : ∀ i i', ShiftsIndex w i i' → Agree w S (f i) (f' i')) :
    Agree w S
      (do
        if ← accept (· == .value) then
          let next ← peek
          if ends next then emptyNode >>= f else Grammar.node handles depth .flow >>= f
        else emptyNode >>= f)
      (do
        if ← accept (· == .value) then
          let next ← peek
          if ends next then emptyNode >>= f' else Grammar.node handles depth' .flow >>= f'
        else emptyNode >>= f') := by
  refine agree_accept_bind fun b => ?_
  split
  · exact agree_peek_bind fun next => h.part _ depth' .flow hf
  · exact agree_emptyNode.bind hf

theorem node_succ (depth' : Nat) (place : Place) :
    Agree w (ShiftsIndex w) (Grammar.node handles (depth + 1) place)
      (Grammar.node handles (depth' + 1) place) := by
  rw [Grammar.node, Grammar.node]
  refine agree_peek_bind fun t => ?_
  split
  · exact agree_drop_bind (agree_alias _)
  · refine agree_properties.bind fun p _ hp => hp ▸ (agree_lift _).bind fun name _ hname =>
      hname ▸ agree_peek_bind fun t => ?_
    split
    · exact agree_sequence _ p.anchor (h.indentlessEntries depth')
    · exact agree_drop_bind (agree_beginNode (n := .scalar _ _) trivial p.anchor)
    · exact agree_sequence _ p.anchor (agree_drop_bind (h.flowItems depth' true))
    · exact agree_mapping _ p.anchor (agree_drop_bind (h.flowEntries depth' true))
    · exact agree_sequence _ p.anchor (agree_drop_bind (h.blockItems depth'))
    · exact agree_sequence _ p.anchor (agree_drop_bind (h.blockItems depth'))
    · exact agree_mapping _ p.anchor (agree_drop_bind (h.blockEntries depth'))
    · exact agree_mapping _ p.anchor (agree_drop_bind (h.blockEntries depth'))
    · split
      · exact agree_beginNode (n := .scalar _ _) trivial p.anchor
      · exact agree_throw _ _

theorem blockItems_succ (depth' : Nat) :
    Agree w (ShiftsItems w) (Grammar.blockItems handles (depth + 1))
      (Grammar.blockItems handles (depth' + 1)) := by
  rw [Grammar.blockItems, Grammar.blockItems]
  refine agree_accept_bind fun b => ?_
  split
  · exact agree_peek_bind fun next => h.part _ depth' .block fun i i' hi =>
      agree_cons_items hi (h.blockItems depth')
  · refine agree_accept_bind fun b => ?_
    split
    · exact agree_pure ⟨List.forall_mem_nil _, rfl⟩
    · exact agree_throw _ _

theorem indentlessEntries_succ (depth' : Nat) :
    Agree w (ShiftsItems w) (Grammar.indentlessEntries handles (depth + 1))
      (Grammar.indentlessEntries handles (depth' + 1)) := by
  rw [Grammar.indentlessEntries, Grammar.indentlessEntries]
  refine agree_accept_bind fun b => ?_
  split
  · exact agree_peek_bind fun next => h.part _ depth' .block fun i i' hi =>
      agree_cons_items hi (h.indentlessEntries depth')
  · exact agree_pure ⟨List.forall_mem_nil _, rfl⟩

theorem blockEntries_succ (depth' : Nat) :
    Agree w (ShiftsEntries w) (Grammar.blockEntries handles (depth + 1))
      (Grammar.blockEntries handles (depth' + 1)) := by
  rw [Grammar.blockEntries, Grammar.blockEntries]
  refine agree_accept_bind fun b => ?_
  split
  · refine (h.blockPart depth').bind fun i i' hi => agree_accept_bind fun b => ?_
    split
    · exact (h.blockPart depth').bind fun j j' hj =>
        agree_cons_entries hi hj (h.blockEntries depth')
    · exact agree_emptyNode.bind fun j j' hj =>
        agree_cons_entries hi hj (h.blockEntries depth')
  · refine agree_accept_bind fun b => ?_
    split
    · exact agree_pure ⟨List.forall_mem_nil _, rfl⟩
    · exact agree_throw _ _

theorem blockPart_succ (depth' : Nat) :
    Agree w (ShiftsIndex w) (Grammar.blockPart handles (depth + 1))
      (Grammar.blockPart handles (depth' + 1)) := by
  rw [Grammar.blockPart, Grammar.blockPart]
  refine agree_peek_bind fun t => ?_
  split
  · exact agree_emptyNode
  · exact h.node depth' .blockEntry

theorem flowItems_succ (depth' : Nat) (isFirst : Bool) :
    Agree w (ShiftsItems w) (Grammar.flowItems handles (depth + 1) isFirst)
      (Grammar.flowItems handles (depth' + 1) isFirst) := by
  rw [Grammar.flowItems, Grammar.flowItems]
  refine agree_accept_bind fun b => ?_
  split
  · exact agree_pure ⟨List.forall_mem_nil _, rfl⟩
  · refine agree_separator isFirst (agree_peek_bind fun t => ?_)
    split
    · exact (h.flowPair depth').bind fun i i' hi => agree_cons_items hi (h.flowItems depth' false)
    · exact agree_drop_bind (agree_pure ⟨List.forall_mem_nil _, rfl⟩)
    · exact (h.node depth' .flow).bind fun i i' hi =>
        agree_cons_items hi (h.flowItems depth' false)

theorem flowPair_succ (depth' : Nat) :
    Agree w (ShiftsIndex w) (Grammar.flowPair handles (depth + 1))
      (Grammar.flowPair handles (depth' + 1)) := by
  rw [Grammar.flowPair, Grammar.flowPair]
  refine (agree_addNode (n := .mapping .map []) (List.forall_mem_nil _)).bind fun i i' hi => ?_
  obtain ⟨hi, rfl⟩ := hi
  refine agree_drop_bind (agree_peek_bind fun next => h.part _ depth' .flow fun k k' hk => ?_)
  refine h.flowValue _ depth' fun v v' hv => agree_peek_bind fun _ => ?_
  obtain ⟨hk, rfl⟩ := hk
  obtain ⟨hv, rfl⟩ := hv
  exact (agree_setNode (n := .mapping .map [(k, v)])
    (List.forall_mem_singleton.2 ⟨hk, hv⟩) hi).bind fun _ _ _ => agree_pure ⟨hi, rfl⟩

theorem flowEntries_succ (depth' : Nat) (isFirst : Bool) :
    Agree w (ShiftsEntries w) (Grammar.flowEntries handles (depth + 1) isFirst)
      (Grammar.flowEntries handles (depth' + 1) isFirst) := by
  rw [Grammar.flowEntries, Grammar.flowEntries]
  refine agree_accept_bind fun b => ?_
  split
  · exact agree_pure ⟨List.forall_mem_nil _, rfl⟩
  · refine agree_separator isFirst (agree_peek_bind fun t => ?_)
    split
    · refine agree_drop_bind (agree_peek_bind fun next =>
        h.part _ depth' .flow fun i i' hi => h.flowValue _ depth' fun j j' hj => ?_)
      exact agree_cons_entries hi hj (h.flowEntries depth' false)
    · exact agree_drop_bind (agree_pure ⟨List.forall_mem_nil _, rfl⟩)
    · refine (h.node depth' .flow).bind fun i i' hi => agree_peek_bind fun _ =>
        agree_emptyNode.bind fun j j' hj => ?_
      exact agree_cons_entries hi hj (h.flowEntries depth' false)

end ReadsOn

theorem readsOn (w : Frame) (handles : Handles) (depth : Nat) : ReadsOn w handles depth := by
  induction depth with
  | zero => constructor <;> intros <;> exact agree_throw _ _
  | succ depth ih =>
      constructor
      · rintro (_ | depth') place
        · exact agree_throw_right _ _
        · exact ih.node_succ depth' place
      · rintro (_ | depth')
        · exact agree_throw_right _ _
        · exact ih.blockItems_succ depth'
      · rintro (_ | depth')
        · exact agree_throw_right _ _
        · exact ih.indentlessEntries_succ depth'
      · rintro (_ | depth')
        · exact agree_throw_right _ _
        · exact ih.blockEntries_succ depth'
      · rintro (_ | depth')
        · exact agree_throw_right _ _
        · exact ih.blockPart_succ depth'
      · rintro (_ | depth') isFirst
        · exact agree_throw_right _ _
        · exact ih.flowItems_succ depth' isFirst
      · rintro (_ | depth')
        · exact agree_throw_right _ _
        · exact ih.flowPair_succ depth'
      · rintro (_ | depth') isFirst
        · exact agree_throw_right _ _
        · exact ih.flowEntries_succ depth' isFirst

end Grammar

end FrontLint.Yaml
