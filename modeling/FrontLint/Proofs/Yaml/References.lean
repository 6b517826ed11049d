import FrontLint.Proofs.Yaml.FlowBalance

/-!
# References

A collection refers to nodes that have been read before its end: a node is added before anything
refers to it, and an alias refers to a node that has an anchor already.
-/

namespace FrontLint.Yaml

/-- A node that refers to nodes below `n` only. -/
def Node.RefersBelow (n : Nat) : Node → Prop
  | .scalar _ _ => True
  | .sequence _ items => ∀ i ∈ items, i < n
  | .mapping _ entries => ∀ e ∈ entries, e.1 < n ∧ e.2 < n

theorem Node.RefersBelow.mono {n n' : Nat} {node : Node} (h : node.RefersBelow n) (hn : n ≤ n') :
    node.RefersBelow n' := by
  cases node with
  | scalar => trivial
  | sequence => exact fun i hi => (h i hi).trans_le hn
  | mapping => exact fun e he => ⟨(h e he).1.trans_le hn, (h e he).2.trans_le hn⟩

namespace Node

variable (n : Nat) (tag : Tag)

@[simp] theorem refersBelow_scalar (text : Text) : (scalar tag text).RefersBelow n := trivial

@[simp] theorem refersBelow_sequence_nil : (sequence tag []).RefersBelow n := nofun

@[simp] theorem refersBelow_mapping_nil : (mapping tag []).RefersBelow n := nofun

end Node

/-- A state in which nodes and anchors refer to nodes that there are. -/
structure Reader.IsClosed (r : Reader) : Prop where
  nodes : ∀ node ∈ r.nodes, node.RefersBelow r.nodes.size
  anchors : ∀ a ∈ r.anchors, a.2 < r.nodes.size

theorem Reader.IsClosed.of_eq {r r' : Reader} (hr : r.IsClosed) (hnodes : r'.nodes = r.nodes)
    (hanchors : r'.anchors = r.anchors) : r'.IsClosed where
  nodes := hnodes ▸ hr.nodes
  anchors := by
    rw [hnodes, hanchors]
    exact hr.anchors

namespace Grammar

open Reader

variable {α β : Type} {m : Read α} {f : α → Read β} {r r' : Reader} {n n' : Nat}
  {post : α → Nat → Prop} {post' : β → Nat → Prop}

/-- An action that goes from a closed state with at least `n` nodes to one with a result that
satisfies `post` for the number of its nodes. -/
def Closes (n : Nat) (m : Read α) (post : α → Nat → Prop) : Prop :=
  ∀ r, r.IsClosed → n ≤ r.nodes.size →
    Runs m r (fun a r' => r'.IsClosed ∧ r.nodes.size ≤ r'.nodes.size ∧ post a r'.nodes.size)
      fun _ => True

theorem Closes.bind (h : Closes n m post)
    (hf : ∀ a n', n ≤ n' → post a n' → Closes n' (f a) post') : Closes n (m >>= f) post' := by
  intro r hr hn
  refine (h r hr hn).bind fun a r' ha => ?_
  refine (hf a r'.nodes.size (hn.trans ha.2.1) ha.2.2 r' ha.1 (Nat.le_refl _)).mono
    (fun _ _ hb => ⟨hb.1, ha.2.1.trans hb.2.1, hb.2.2⟩) fun _ h => h

theorem closes_pure {a : α} (h : ∀ k, n ≤ k → post a k) : Closes n (pure a) post :=
  fun _ hr hn => runs_pure ⟨hr, Nat.le_refl _, h _ hn⟩

theorem closes_throw (fault : Fault) : Closes n (throw fault : Read α) post :=
  fun _ _ _ => runs_throw trivial

theorem closes_throw_bind (fault : Fault) : Closes n (throw fault >>= f) post' :=
  fun _ _ _ => runs_throw_bind trivial

/-- A reading that changes neither nodes nor anchors. -/
def Inspects (m : Read α) : Prop :=
  ∀ r, Runs m r (fun _ r' => r'.nodes = r.nodes ∧ r'.anchors = r.anchors) fun _ => True

theorem Inspects.bind (h : Inspects m) (hf : ∀ a, Closes n (f a) post') :
    Closes n (m >>= f) post' := by
  intro r hr hn
  refine Runs.bind (h r) fun a r' ha => ?_
  have hr' : r'.IsClosed := hr.of_eq ha.1 ha.2
  rw [← ha.1] at hn ⊢
  exact hf a r' hr' hn

theorem Inspects.trans {f : α → Read β} (h : Inspects m) (hf : ∀ a, Inspects (f a)) :
    Inspects (m >>= f) :=
  fun r => Runs.bind (h r) fun a r' ha => (hf a r').mono
    (fun _ _ hb => ⟨hb.1.trans ha.1, hb.2.trans ha.2⟩) fun _ h => h

theorem inspects_pure (a : α) : Inspects (pure a) := fun _ => runs_pure ⟨rfl, rfl⟩

theorem inspects_throw (fault : Fault) : Inspects (throw fault : Read α) :=
  fun _ => runs_throw trivial

theorem inspects_throw_bind (fault : Fault) : Inspects (throw fault >>= f) :=
  fun _ => runs_throw_bind trivial

theorem inspects_lift (x : Except Fault α) : Inspects (liftM x : Read α) :=
  fun _ => runs_lift (Meets.of_forall fun _ => ⟨rfl, rfl⟩)

theorem inspects_peek : Inspects peek := fun r =>
  (runs_peek r).mono (fun _ _ h => by rw [h.1]; exact ⟨rfl, rfl⟩) fun _ h => h

theorem inspects_drop : Inspects drop := fun _ => runs_modify ⟨rfl, rfl⟩

theorem inspects_accept (p : Token → Bool) : Inspects (accept p) := by
  refine inspects_peek.trans fun t => ?_
  split
  · exact inspects_drop.trans fun _ => inspects_pure _
  · exact inspects_pure _

theorem inspects_anchorPart : Inspects anchorPart := by
  refine inspects_peek.trans fun t => ?_
  split
  · exact inspects_drop.trans fun _ => inspects_pure _
  · exact inspects_pure _

theorem inspects_tagPart : Inspects tagPart := by
  refine inspects_peek.trans fun t => ?_
  split
  · exact inspects_drop.trans fun _ => inspects_pure _
  · exact inspects_pure _

theorem inspects_properties : Inspects properties := by
  refine inspects_anchorPart.trans fun anchor => ?_
  split
  · exact inspects_tagPart.trans fun _ => inspects_pure _
  · refine inspects_tagPart.trans fun tag => ?_
    split
    · exact inspects_anchorPart.trans fun _ => inspects_pure _
    · exact inspects_pure _

/-! ## Nodes -/

theorem closes_addNode {node : Node} (h : node.RefersBelow n) :
    Closes n (addNode node) fun i k => i < k := by
  intro r hr hn
  refine runs_get (runs_set (runs_pure ?_))
  refine ⟨⟨fun node' hnode' => ?_, fun a ha => ?_⟩, ?_, ?_⟩
  · rw [Array.size_push]
    rcases Array.mem_push.1 hnode' with hnode' | rfl
    · exact (hr.nodes _ hnode').mono (Nat.le_succ _)
    · exact h.mono (hn.trans (Nat.le_succ _))
  · rw [Array.size_push]
    exact (hr.anchors a ha).trans (Nat.lt_succ_self _)
  · rw [Array.size_push]
    exact Nat.le_succ _
  · rw [Array.size_push]
    exact Nat.lt_succ_self _

theorem closes_setNode {node : Node} (h : node.RefersBelow n) (i : Nat) :
    Closes n (setNode i node) fun _ _ => True := by
  refine fun r hr hn => runs_modify ⟨⟨fun node' hnode' => ?_, fun a ha => ?_⟩, ?_, trivial⟩
  · rw [Array.size_setIfInBounds]
    rcases Array.mem_or_eq_of_mem_setIfInBounds hnode' with hnode' | rfl
    · exact hr.nodes _ hnode'
    · exact h.mono hn
  · rw [Array.size_setIfInBounds]
    exact hr.anchors a ha
  · rw [Array.size_setIfInBounds]

theorem closes_emptyNode : Closes n emptyNode fun i k => i < k := closes_addNode trivial

theorem closes_beginNode {node : Node} (h : node.RefersBelow n) (anchor : Option (List Char)) :
    Closes n (beginNode anchor node) fun i k => i < k := by
  cases anchor with
  | none => exact closes_addNode h
  | some name =>
      refine fun r hr hn => runs_get ?_
      split
      · exact runs_throw_bind trivial
      · refine Closes.bind (closes_addNode h) (fun i n' _ hi => ?_) r hr hn
        have hmodify : Closes n' (modify fun r => { r with anchors := (name, i) :: r.anchors })
            fun _ k => i < k := by
          refine fun r hr hn => runs_modify ⟨⟨hr.nodes, ?_⟩, Nat.le_refl _, hi.trans_le hn⟩
          exact List.forall_mem_cons.2 ⟨hi.trans_le hn, hr.anchors⟩
        exact hmodify.bind fun _ k _ hi => closes_pure fun _ hk => hi.trans_le hk

/-- A collection has its number before its parts are read. -/
theorem closes_collection {mk : List α → Node} (hnil : ∀ k, (mk []).RefersBelow k)
    (anchor : Option (List Char)) {m : Read (List α)}
    (hm : ∀ n', n ≤ n' → Closes n' m fun parts k => (mk parts).RefersBelow k) :
    Closes n (do
      let i ← beginNode anchor (mk [])
      setNode i (mk (← m))
      return i) fun i k => i < k := by
  refine (closes_beginNode (hnil n) anchor).bind fun i n' hn hi => (hm n' hn).bind
    fun parts k hk hparts => (closes_setNode hparts i).bind fun _ k' hk' _ => ?_
  exact closes_pure fun _ h => hi.trans_le (hk.trans (hk'.trans h))

/-- One more item. -/
theorem closes_cons_items {i : Nat} {m : Read (List Nat)} (hi : i < n)
    (hm : Closes n m fun is k => ∀ i ∈ is, i < k) :
    Closes n (do return i :: (← m)) fun is k => ∀ i ∈ is, i < k :=
  hm.bind fun _ _ hn his => closes_pure fun _ hk => List.forall_mem_cons.2
    ⟨hi.trans_le (hn.trans hk), fun j hj => (his j hj).trans_le hk⟩

/-- One more entry. -/
theorem closes_cons_entries {i j : Nat} {m : Read (List (Nat × Nat))} (hi : i < n) (hj : j < n)
    (hm : Closes n m fun es k => ∀ e ∈ es, e.1 < k ∧ e.2 < k) :
    Closes n (do return (i, j) :: (← m)) fun es k => ∀ e ∈ es, e.1 < k ∧ e.2 < k :=
  hm.bind fun _ _ hn hes => closes_pure fun _ hk => List.forall_mem_cons.2
    ⟨⟨hi.trans_le (hn.trans hk), hj.trans_le (hn.trans hk)⟩,
      fun e he => ⟨(hes e he).1.trans_le hk, (hes e he).2.trans_le hk⟩⟩

/-- The comma between two parts of a flow collection. -/
theorem closes_separator (isFirst : Bool) {phrase : Phrase} {m : Read α} (hm : Closes n m post) :
    Closes n (do
      if !isFirst then
        if !(← accept (· == .flowEntry)) then throw (.ungrammatical phrase)
      m) post := by
  dsimp only
  split
  · refine (inspects_accept _).bind fun b => ?_
    split
    · exact closes_throw_bind _
    · exact hm
  · exact hm

/-- What the actions on nodes within a depth refer to. -/
structure Refers (handles : Handles) (depth : Nat) : Prop where
  node : ∀ n place, Closes n (node handles depth place) fun i k => i < k
  blockItems : ∀ n, Closes n (blockItems handles depth) fun is k => ∀ i ∈ is, i < k
  indentlessEntries : ∀ n, Closes n (indentlessEntries handles depth) fun is k => ∀ i ∈ is, i < k
  blockEntries : ∀ n, Closes n (blockEntries handles depth)
    fun es k => ∀ e ∈ es, e.1 < k ∧ e.2 < k
  blockPart : ∀ n, Closes n (blockPart handles depth) fun i k => i < k
  flowItems : ∀ n isFirst, Closes n (flowItems handles depth isFirst) fun is k => ∀ i ∈ is, i < k
  flowPair : ∀ n, Closes n (flowPair handles depth) fun i k => i < k
  flowEntries : ∀ n isFirst, Closes n (flowEntries handles depth isFirst)
    fun es k => ∀ e ∈ es, e.1 < k ∧ e.2 < k

namespace Refers

variable {handles : Handles} {depth : Nat} (h : Refers handles depth)
include h

/-- A part that may be empty. -/
theorem part (p : Prop) [Decidable p] (place : Place) {f : Nat → Read β}
    (hf : ∀ i n', n ≤ n' → i < n' → Closes n' (f i) post') :
    Closes n (if p then emptyNode >>= f else Grammar.node handles depth place >>= f) post' := by
  split
  · exact closes_emptyNode.bind hf
  · exact (h.node n place).bind hf

/-- The value behind a key in a flow collection. -/
theorem flowValue (ends : Token → Bool) {f : Nat → Read β}
    (hf : ∀ i n', n ≤ n' → i < n' → Closes n' (f i) post') :
    Closes n (do
      if ← accept (· == .value) then
        let next ← peek
        if ends next then emptyNode >>= f else Grammar.node handles depth .flow >>= f
      else emptyNode >>= f) post' := by
  refine (inspects_accept _).bind fun b => ?_
  split
  · exact inspects_peek.bind fun next => h.part _ .flow hf
  · exact closes_emptyNode.bind hf

theorem node_succ (n : Nat) (place : Place) :
    Closes n (Grammar.node handles (depth + 1) place) fun i k => i < k := by
  rw [Grammar.node]
  refine inspects_peek.bind fun t => ?_
  split
  · refine inspects_drop.bind fun _ r hr hn => runs_get ?_
    split
    · rename_i i hlookup
      obtain ⟨l, l', hanchors, -⟩ := List.lookup_eq_some_iff.1 hlookup
      have hmem := hanchors.symm ▸ List.mem_append_right l List.mem_cons_self
      exact runs_pure ⟨hr, Nat.le_refl _, hr.anchors _ hmem⟩
    · exact runs_throw trivial
  · refine inspects_properties.bind fun p => (inspects_lift _).bind fun name =>
      inspects_peek.bind fun t => ?_
    split
    · exact closes_collection (fun _ => by simp) p.anchor fun n' _ => h.indentlessEntries n'
    · exact inspects_drop.bind fun _ => closes_beginNode (by simp) p.anchor
    · exact closes_collection (fun _ => by simp) p.anchor fun n' _ =>
        inspects_drop.bind fun _ => h.flowItems n' true
    · exact closes_collection (fun _ => by simp) p.anchor fun n' _ =>
        inspects_drop.bind fun _ => h.flowEntries n' true
    · exact closes_collection (fun _ => by simp) p.anchor fun n' _ =>
        inspects_drop.bind fun _ => h.blockItems n'
    · exact closes_collection (fun _ => by simp) p.anchor fun n' _ =>
        inspects_drop.bind fun _ => h.blockItems n'
    · exact closes_collection (fun _ => by simp) p.anchor fun n' _ =>
        inspects_drop.bind fun _ => h.blockEntries n'
    · exact closes_collection (fun _ => by simp) p.anchor fun n' _ =>
        inspects_drop.bind fun _ => h.blockEntries n'
    · split
      · exact closes_beginNode (by simp) p.anchor
      · exact closes_throw _

theorem blockItems_succ (n : Nat) :
    Closes n (Grammar.blockItems handles (depth + 1)) fun is k => ∀ i ∈ is, i < k := by
  rw [Grammar.blockItems]
  refine (inspects_accept _).bind fun b => ?_
  split
  · exact inspects_peek.bind fun next => h.part _ .block fun i n' _ hi =>
      closes_cons_items hi (h.blockItems n')
  · refine (inspects_accept _).bind fun b => ?_
    split
    · exact closes_pure fun _ _ => List.forall_mem_nil _
    · exact closes_throw _

theorem indentlessEntries_succ (n : Nat) :
    Closes n (Grammar.indentlessEntries handles (depth + 1)) fun is k => ∀ i ∈ is, i < k := by
  rw [Grammar.indentlessEntries]
  refine (inspects_accept _).bind fun b => ?_
  split
  · exact inspects_peek.bind fun next => h.part _ .block fun i n' _ hi =>
      closes_cons_items hi (h.indentlessEntries n')
  · exact closes_pure fun _ _ => List.forall_mem_nil _

theorem blockEntries_succ (n : Nat) :
    Closes n (Grammar.blockEntries handles (depth + 1))
      fun es k => ∀ e ∈ es, e.1 < k ∧ e.2 < k := by
  rw [Grammar.blockEntries]
  refine (inspects_accept _).bind fun b => ?_
  split
  · refine (h.blockPart n).bind fun i n' _ hi => (inspects_accept _).bind fun b => ?_
    split
    · exact (h.blockPart n').bind fun j k hk hj =>
        closes_cons_entries (hi.trans_le hk) hj (h.blockEntries k)
    · exact closes_emptyNode.bind fun j k hk hj =>
        closes_cons_entries (hi.trans_le hk) hj (h.blockEntries k)
  · refine (inspects_accept _).bind fun b => ?_
    split
    · exact closes_pure fun _ _ => List.forall_mem_nil _
    · exact closes_throw _

theorem blockPart_succ (n : Nat) :
    Closes n (Grammar.blockPart handles (depth + 1)) fun i k => i < k := by
  rw [Grammar.blockPart]
  refine inspects_peek.bind fun t => ?_
  split
  · exact closes_emptyNode
  · exact h.node n .blockEntry

theorem flowItems_succ (n : Nat) (isFirst : Bool) :
    Closes n (Grammar.flowItems handles (depth + 1) isFirst) fun is k => ∀ i ∈ is, i < k := by
  rw [Grammar.flowItems]
  refine (inspects_accept _).bind fun b => ?_
  split
  · exact closes_pure fun _ _ => List.forall_mem_nil _
  · refine closes_separator isFirst (inspects_peek.bind fun t => ?_)
    split
    · exact (h.flowPair n).bind fun i n' _ hi => closes_cons_items hi (h.flowItems n' false)
    · exact inspects_drop.bind fun _ => closes_pure fun _ _ => List.forall_mem_nil _
    · exact (h.node n .flow).bind fun i n' _ hi => closes_cons_items hi (h.flowItems n' false)

theorem flowPair_succ (n : Nat) :
    Closes n (Grammar.flowPair handles (depth + 1)) fun i k => i < k := by
  rw [Grammar.flowPair]
  refine (closes_addNode (by simp)).bind fun i n' _ hi => inspects_drop.bind fun _ => ?_
  refine inspects_peek.bind fun next => h.part _ .flow fun k n₁ hn₁ hk => ?_
  refine h.flowValue _ fun v n₂ hn₂ hv => inspects_peek.bind fun _ => ?_
  refine (closes_setNode ?_ i).bind fun _ n₃ hn₃ _ => closes_pure fun _ hn₄ => by omega
  exact List.forall_mem_singleton.2 ⟨hk.trans_le hn₂, hv⟩

theorem flowEntries_succ (n : Nat) (isFirst : Bool) :
    Closes n (Grammar.flowEntries handles (depth + 1) isFirst)
      fun es k => ∀ e ∈ es, e.1 < k ∧ e.2 < k := by
  rw [Grammar.flowEntries]
  refine (inspects_accept _).bind fun b => ?_
  split
  · exact closes_pure fun _ _ => List.forall_mem_nil _
  · refine closes_separator isFirst (inspects_peek.bind fun t => ?_)
    split
    · refine inspects_drop.bind fun _ => inspects_peek.bind fun next =>
        h.part _ .flow fun i n₁ _ hi => h.flowValue _ fun j n₂ hn₂ hj => ?_
      exact closes_cons_entries (hi.trans_le hn₂) hj (h.flowEntries n₂ false)
    · exact inspects_drop.bind fun _ => closes_pure fun _ _ => List.forall_mem_nil _
    · refine (h.node n .flow).bind fun i n₁ _ hi => inspects_peek.bind fun _ =>
        closes_emptyNode.bind fun j n₂ hn₂ hj => ?_
      exact closes_cons_entries (hi.trans_le hn₂) hj (h.flowEntries n₂ false)

end Refers

theorem refers (handles : Handles) (depth : Nat) : Refers handles depth := by
  induction depth with
  | zero => constructor <;> intros <;> exact closes_throw _
  | succ depth ih =>
      exact {
        node := ih.node_succ
        blockItems := ih.blockItems_succ
        indentlessEntries := ih.indentlessEntries_succ
        blockEntries := ih.blockEntries_succ
        blockPart := ih.blockPart_succ
        flowItems := ih.flowItems_succ
        flowPair := ih.flowPair_succ
        flowEntries := ih.flowEntries_succ }

end Grammar

end FrontLint.Yaml
