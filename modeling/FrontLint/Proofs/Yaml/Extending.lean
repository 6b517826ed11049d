import FrontLint.Proofs.Yaml.EntryTokens
import FrontLint.Proofs.Yaml.FlatGraph
import FrontLint.Proofs.Yaml.Resumption
import FrontLint.Proofs.Yaml.Shifting

/-!
# Graphs that extend another

The graph of a block that resumes with the tokens of another block extends the graph of that
block: its first node has the entries of the other first node behind some of its own, and all the
other nodes of the other graph, moved by the same offset.
-/

namespace FrontLint.Yaml

/-- A graph whose first node is a mapping with some entries in front of those of another graph's
first node, and whose nodes up to `d` are not parts of the others. -/
structure Graph.Extends (d : Nat) (front back : List (Nat × Nat)) (g g' : Graph) : Prop where
  mirrors : g.Mirrors 1 d g'
  root : g.node 0 = .mapping .map back
  root' : ∃ tag, g'.node 0 = .mapping tag (front ++ shiftEntries d back)
  front_le : ∀ e ∈ front, e.1 ≤ d ∧ e.2 ≤ d
  back_pos : ∀ e ∈ back, 1 ≤ e.1 ∧ 1 ≤ e.2
  refersBelow : ∀ n, 0 < n → n ≤ d → (g'.node n).RefersBelow (d + 1)

open TokenStream.State (keyTokens)

namespace Grammar

open Reader

variable {us : List Token} {handles : Handles} {depth : Nat} {key : List Char}
  {es : List (Nat × Nat)} {r' : Reader} {fault : Option Fault} {nodes : Graph}
  {anchors : List (List Char × Nat)}

/-- A plain key is the next node. -/
theorem run_blockEntries_keyTokens
    (h : (blockEntries handles depth).run ⟨keyTokens key ++ us, fault, nodes, anchors⟩ =
      .ok (es, r')) :
    ∃ depth' v rest r₁,
      (blockPart handles depth').run ⟨us, fault, nodes.push
        (.scalar (Schema.tagOf (Text.ofChars key)) (Text.ofChars key)), anchors⟩ = .ok (v, r₁) ∧
      (blockEntries handles depth').run r₁ = .ok (rest, r') ∧ es = (nodes.size, v) :: rest := by
  match depth with
  | 0 | 1 | 2 => cases h
  | depth + 3 =>
      have hentry : (blockEntries handles (depth + 3)).run
          ⟨keyTokens key ++ us, fault, nodes, anchors⟩ = (do
            let v ← blockPart handles (depth + 2)
            return (nodes.size, v) :: (← blockEntries handles (depth + 2)) : Read _).run ⟨us, fault,
              nodes.push (.scalar (Schema.tagOf (Text.ofChars key)) (Text.ofChars key)),
              anchors⟩ := rfl
      rw [hentry] at h
      obtain ⟨v, r₁, hv, h⟩ := run_bind_eq_ok h
      obtain ⟨rest, r₂, hrest, h⟩ := run_bind_eq_ok h
      cases h
      exact ⟨depth + 2, v, rest, r₁, hv, hrest, rfl⟩

/-- A block that is one mapping. -/
theorem run_root?_blockMapping {fuel : Nat} {root : Option Nat}
    (h : (root? fuel).run ⟨.blockMappingStart :: us, fault, #[], []⟩ = .ok (root, r')) :
    root = some 0 ∧ ∃ depth es r₁,
      (blockEntries defaultHandles depth).run ⟨us, fault, #[.mapping .map []], []⟩ = .ok (es, r₁) ∧
        r'.nodes = r₁.nodes.setIfInBounds 0 (.mapping .map es) := by
  have hroot : (root? fuel).run ⟨.blockMappingStart :: us, fault, #[], []⟩ =
      ((some <$> node defaultHandles fuel .block) >>= checkEnd fuel).run
        ⟨.blockMappingStart :: us, fault, #[], []⟩ := rfl
  rw [hroot] at h
  obtain ⟨i, r₁, hi, hend⟩ := run_bind_eq_ok h
  rw [map_eq_pure_bind] at hi
  obtain ⟨n, r₂, hnode, hi⟩ := run_bind_eq_ok hi
  cases hi
  cases fuel with
  | zero => cases hnode
  | succ depth =>
      rw [run_node_mapping] at hnode
      cases hentries : (blockEntries defaultHandles depth).run
          ⟨us, fault, #[].push (.mapping .map []), []⟩ with
      | error e =>
          rw [hentries] at hnode
          cases hnode
      | ok x =>
          rw [hentries] at hnode
          cases hnode
          have hroot := (runs_checkEnd _ _ _).of_eq_ok hend
          have hnodes := (Runs.of_eq_ok (inspects_checkEnd _ _ _) hend).1
          exact ⟨hroot, depth, x.1, x.2, hentries, hnodes⟩

/-- The rest of a mapping from a plain key on, read behind a first node only and behind others. -/
theorem shifts_blockEntries {depth' d : Nat} {root : Node} {es' : List (Nat × Nat)} {s s' : Reader}
    (h : (blockEntries handles depth).run ⟨keyTokens key ++ us, fault, #[root], []⟩ = .ok (es, s))
    (h' : (blockEntries handles depth').run ⟨keyTokens key ++ us, fault, nodes, anchors⟩ =
      .ok (es', s')) (hsize : nodes.size = d + 1) :
    (∃ v rest, es = (1, v) :: rest) ∧ (∀ e ∈ es, 1 ≤ e.1 ∧ 1 ≤ e.2) ∧ es' = shiftEntries d es ∧
      s.nodes.Mirrors 1 d s'.nodes ∧ (∀ n ≤ d, s'.nodes.node n = nodes.node n) ∧
      s.nodes.node 1 = .scalar (Schema.tagOf (Text.ofChars key)) (Text.ofChars key) := by
  obtain ⟨_, v, rest, _, hv, hrest, rfl⟩ := run_blockEntries_keyTokens h
  obtain ⟨_, v', rest', _, hv', hrest', rfl⟩ := run_blockEntries_keyTokens h'
  generalize hkey : Node.scalar (Schema.tagOf (Text.ofChars key)) (Text.ofChars key) = node at *
  have hpush : (nodes.push node).size = (#[root].push node).size + d := by
    simp only [Array.size_push, List.size_toArray, List.length_singleton]
    omega
  have hstart := follows_of_size_eq hpush us fault anchors
  obtain ⟨⟨hv, rfl⟩, hmid⟩ := (readsOn _ handles _).blockPart _ _ _ hstart _ _ hv _ _ hv'
  obtain ⟨⟨hrest, rfl⟩, hend⟩ := (readsOn _ handles _).blockEntries _ _ _ hmid _ _ hrest _ _ hrest'
  have hnode : s.nodes.node 1 = node := hend.nodes_eq 1 (Nat.lt_succ_self 1)
  have hnode' (n : Nat) (hn : n < 2 + d) : s'.nodes.node n = Graph.node (nodes.push node) n :=
    hend.nodes'_eq n hn
  have hentries : ∀ e ∈ (1, v) :: rest, 1 ≤ e.1 ∧ 1 ≤ e.2 := by
    refine List.forall_mem_cons.2 ⟨⟨Nat.le_refl 1, (Nat.le_succ 1).trans hv⟩, fun e he => ?_⟩
    exact ⟨(Nat.le_succ 1).trans (hrest e he).1, (Nat.le_succ 1).trans (hrest e he).2⟩
  have hmirrors : s.nodes.Mirrors (1 + 1) d s'.nodes := hend.mirrors
  refine ⟨⟨v, rest, rfl⟩, hentries, ?_, hmirrors.of_succ ?_ ?_, fun n hn => ?_, hnode⟩
  · rw [show nodes.size = 1 + d by omega]
    rfl
  · rw [hnode, hnode' _ (by omega), Graph.node_push, if_pos (by omega), ← hkey]
    rfl
  · rw [hnode, ← hkey]
    trivial
  · rw [hnode' n (by omega), Graph.node_push, if_neg (by omega)]

/-- The rest of a mapping behind a plain key, read in a block of its own. -/
theorem extends_of_resumesRoot {fuel : Nat} {root : Option Nat} {g : Graph}
    (hresumes : ResumesRoot (keyTokens key ++ us) fault (some 0) g)
    (hroot : (root? fuel).run ⟨.blockMappingStart :: (keyTokens key ++ us), fault, #[], []⟩ =
      .ok (root, r')) :
    root = some 0 ∧ ∃ d front v back, r'.nodes.Extends d front ((1, v) :: back) g ∧
      r'.nodes.node 1 = .scalar (Schema.tagOf (Text.ofChars key)) (Text.ofChars key) := by
  obtain ⟨rfl, depth, es, r₁, hentries, hnodes⟩ := run_root?_blockMapping hroot
  obtain ⟨-, tag, r₀, entries, s₁, hsize, hfault, ⟨depth', s, front, back, hs, hfront, hrun, rfl⟩,
    rfl⟩ := hresumes 0 rfl
  have hfault := hs.fault_eq.trans hfault
  have htokens := hs.tokens_eq
  obtain ⟨d, hd⟩ : ∃ d, s.nodes.size = d + 1 := ⟨s.nodes.size - 1, by
    have := hs.size_le
    omega⟩
  have hclosed := hs.isClosed.nodes
  obtain ⟨tokens, _, nodes, anchors⟩ := s
  dsimp only at hd hfault htokens hfront hclosed
  obtain rfl := hfault
  obtain rfl := htokens
  obtain ⟨⟨v, rest, rfl⟩, hpos, rfl, hmirrors, hkeep, hkey⟩ := shifts_blockEntries hentries hrun hd
  rw [hnodes]
  rw [hd] at hfront hclosed
  refine ⟨rfl, d, front, v, rest, ⟨?_, ?_, ⟨tag, ?_⟩, ?_, hpos, ?_⟩, ?_⟩
  · exact (hmirrors.setIfInBounds_left Nat.zero_lt_one).setIfInBounds_right (by omega)
  · rw [Graph.node_setIfInBounds, if_pos ⟨rfl, hmirrors.size_le⟩]
  · have hsize' := hmirrors.size_eq
    have hle := hmirrors.size_le
    rw [Graph.node_setIfInBounds, if_pos ⟨rfl, by omega⟩]
  · exact fun e he => ⟨Nat.le_of_lt_succ (hfront e he).1, Nat.le_of_lt_succ (hfront e he).2⟩
  · intro n hn hnd
    rw [Graph.node_setIfInBounds, if_neg (by omega), hkeep n hnd]
    have : n < nodes.size := by omega
    rw [Graph.node, Array.getElem?_eq_getElem this, Option.getD_some]
    exact hclosed _ (Array.getElem_mem this)
  · rw [Graph.node_setIfInBounds, if_neg (by omega), hkey]

end Grammar

end FrontLint.Yaml
