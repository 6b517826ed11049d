import FrontLint.Proofs.Yaml.FlatTokens
import FrontLint.Yaml.Graph.Grammar

/-!
# Graphs of flat blocks

The graph of a flat block has a mapping for its first node, and behind it the key and the
value of each entry in turn.
-/

namespace FrontLint

namespace FlatEntry

/-- The nodes of an entry. -/
def nodes (e : FlatEntry) : List Yaml.Node :=
  [.scalar (Yaml.Schema.tagOf (Text.ofChars e.key)) (Text.ofChars e.key),
    .scalar (Yaml.Schema.tagOf (Text.ofChars e.value)) (Text.ofChars e.value)]

/-- The numbers of the keys and of the values of entries whose nodes begin at a number. -/
def numbers : Nat → List FlatEntry → List (Nat × Nat)
  | _, [] => []
  | n, _ :: rest => (n, n + 1) :: numbers (n + 2) rest

end FlatEntry

namespace Yaml.Grammar

variable {t : Token} {ts : List Token} {fault : Option Fault} {g : Graph}
  {anchors : List (List Char × Nat)}

theorem run_peek : peek.run ⟨t :: ts, fault, g, anchors⟩ = .ok (t, ⟨t :: ts, fault, g, anchors⟩) :=
  rfl

/-- One entry of a mapping with scalars for its key and its value. -/
theorem run_blockEntries_key (handles : Handles) (depth : Nat) (key value : Text) :
    (blockEntries handles (depth + 3)).run
        ⟨.key :: .scalar key true :: .value :: .scalar value true :: ts, fault, g, anchors⟩ =
      ((blockEntries handles (depth + 2)).run ⟨ts, fault,
        (g.push (.scalar (Schema.tagOf key) key)).push (.scalar (Schema.tagOf value) value),
        anchors⟩).map fun r => ((g.size, g.size + 1) :: r.1, r.2) := by
  have hentry : (blockEntries handles (depth + 3)).run
      ⟨.key :: .scalar key true :: .value :: .scalar value true :: ts, fault, g, anchors⟩ =
      (do return (g.size, (g.push (.scalar (Schema.tagOf key) key)).size) ::
          (← blockEntries handles (depth + 2)) : Read _).run ⟨ts, fault,
          (g.push (.scalar (Schema.tagOf key) key)).push (.scalar (Schema.tagOf value) value),
          anchors⟩ := rfl
  rw [hentry, StateT.run_bind]
  cases (blockEntries handles (depth + 2)).run _ with
  | error e => rfl
  | ok r =>
      rw [Array.size_push]
      rfl

/-- The entries of a flat mapping become their nodes, in order. -/
theorem run_blockEntries (handles : Handles) (entries : List FlatEntry) (depth : Nat) :
    (blockEntries handles (depth + 3 + entries.length)).run
        ⟨entries.flatMap FlatEntry.tokens ++ .blockEnd :: ts, fault, g, anchors⟩ =
      .ok (FlatEntry.numbers g.size entries,
        ⟨ts, fault, g ++ (entries.flatMap FlatEntry.nodes).toArray, anchors⟩) := by
  induction entries generalizing g with
  | nil =>
      have hend : (blockEntries handles (depth + 3)).run
          ⟨.blockEnd :: ts, fault, g, anchors⟩ = .ok ([], ⟨ts, fault, g, anchors⟩) := rfl
      simpa [FlatEntry.numbers] using hend
  | cons e rest ih =>
      have hdepth : depth + 3 + (e :: rest).length = depth + 1 + rest.length + 3 := by
        simp only [List.length_cons]
        omega
      have hrest := ih (g := (g.push (.scalar (Schema.tagOf (Text.ofChars e.key))
        (Text.ofChars e.key))).push (.scalar (Schema.tagOf (Text.ofChars e.value))
          (Text.ofChars e.value)))
      rw [show depth + 3 + rest.length = depth + 1 + rest.length + 2 by omega] at hrest
      rw [hdepth, List.flatMap_cons, FlatEntry.tokens, List.append_assoc]
      simp only [List.cons_append, List.nil_append]
      rw [run_blockEntries_key, hrest]
      simp [Except.map, FlatEntry.numbers, FlatEntry.nodes]

theorem run_node_mapping (handles : Handles) (depth : Nat) :
    (node handles (depth + 1) .block).run ⟨.blockMappingStart :: ts, fault, g, anchors⟩ =
      ((blockEntries handles depth).run ⟨ts, fault, g.push (.mapping .map []), anchors⟩).map
        fun r => (g.size,
          { r.2 with nodes := r.2.nodes.setIfInBounds g.size (.mapping .map r.1) }) := by
  have hnode : (node handles (depth + 1) .block).run
      ⟨.blockMappingStart :: ts, fault, g, anchors⟩ =
      (do
        setNode g.size (.mapping .map (← blockEntries handles depth))
        return g.size : Read _).run ⟨ts, fault, g.push (.mapping .map []), anchors⟩ := rfl
  rw [hnode, StateT.run_bind]
  cases (blockEntries handles depth).run _ with
  | error e => rfl
  | ok r => rfl

/-- A block that is one mapping has it for its first node. -/
theorem run_root?_mapping (depth : Nat) {r : Nat × Reader} {us : List Token}
    (h : (node defaultHandles (depth + 1) .block).run
      ⟨.blockMappingStart :: ts, fault, g, anchors⟩ = .ok r)
    (hr : r.2.tokens = .streamEnd :: us) :
    (root? (depth + 1)).run ⟨.blockMappingStart :: ts, fault, g, anchors⟩ =
      .ok (some r.1, r.2) := by
  obtain ⟨i, tokens, fault', g', anchors'⟩ := r
  cases hr
  rw [root?, StateT.run_bind, run_peek]
  have hstart : (isDirective Token.blockMappingStart ||
      Token.blockMappingStart == Token.documentStart ||
        Token.blockMappingStart == Token.streamEnd) = false := rfl
  simp only [bind, Except.bind, hstart, Bool.false_eq_true, if_false, StateT.run, StateT.bind,
    Functor.map, StateT.map] at h ⊢
  rw [h]
  rfl

end Yaml.Grammar

namespace Yaml.Graph

/-- The graph of a flat block. -/
def ofEntries (entries : List FlatEntry) : Graph :=
  #[.mapping .map (FlatEntry.numbers 1 entries)] ++ (entries.flatMap FlatEntry.nodes).toArray

theorem ofTokens_flat (entries : List FlatEntry) :
    ofTokens ⟨.blockMappingStart :: (entries.flatMap FlatEntry.tokens ++ [.blockEnd, .streamEnd]),
      none⟩ = .ok (ofEntries entries, some 0) := by
  have hfuel : ∃ depth, 4 * (Token.blockMappingStart ::
      (entries.flatMap FlatEntry.tokens ++ [.blockEnd, .streamEnd])).length + 8 =
        depth + 3 + entries.length + 1 := by
    have hlength : (entries.flatMap FlatEntry.tokens).length = 4 * entries.length := by
      induction entries with
      | nil => rfl
      | cons e rest ih => simp [FlatEntry.tokens, ih]; omega
    exact ⟨15 * entries.length + 16, by simp [hlength]; omega⟩
  obtain ⟨depth, hdepth⟩ := hfuel
  have hnode : (Grammar.node defaultHandles (depth + 3 + entries.length + 1) .block).run
      ⟨.blockMappingStart :: (entries.flatMap FlatEntry.tokens ++ [.blockEnd, .streamEnd]), none,
        #[], []⟩ = _ :=
    Grammar.run_node_mapping defaultHandles (depth + 3 + entries.length)
  have hpush : Array.push #[] (Node.mapping .map []) = #[.mapping .map []] := rfl
  rw [hpush, Grammar.run_blockEntries] at hnode
  have hroot := Grammar.run_root?_mapping _ hnode rfl
  rw [ofTokens, hdepth, hroot]
  simp [bind, Except.bind, pure, Except.pure, ofEntries]

end Yaml.Graph

end FrontLint
