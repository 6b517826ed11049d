import FrontLint.Document.Block
import FrontLint.Proofs.Yaml.Readout

/-!
# Unreadable blocks

Reading the fields of a block always comes to an end. It ends in fields, in a fault of the block,
or in one of the faults that arise where a text is taken apart without a check: an escape of more
than 31 bits, places in base sixty that become too large, and values that need a written tag.
-/

namespace FrontLint

namespace Yaml

/-- The faults of a text that are not of the block. All but one need a backslash or an exclamation
mark. -/
inductive Fault.Escapes (t : Text) : Fault → Prop where
  | codePointSize (h : .char '\\' ∈ t) : Escapes t .codePointSize
  | numberSize : Escapes t .numberSize
  | needsTag {fault : Fault} (h : .char '!' ∈ t) (hfault : fault.NeedsTag) : Escapes t fault

theorem meets_blockChars (t : Text) :
    Meets (blockChars t) (fun cs => t = Text.ofChars cs) fun fault => fault.isOfBlock = true := by
  induction t with
  | nil => exact rfl
  | cons c rest ih =>
      cases c with
      | half h => exact rfl
      | char a =>
          rw [blockChars]
          split
          · cases hrest : blockChars rest with
            | ok cs => exact congrArg (Code.char a :: ·) (ih.of_eq_ok hrest)
            | error fault => exact ih.of_eq_error hrest
          · exact rfl

theorem IsReaderFault.escapes {cs : List Char} {fault : Fault} (h : IsReaderFault cs fault) :
    fault.isOfBlock = true ∨ fault.Escapes (Text.ofChars cs) := by
  rcases h with h | ⟨rfl, h⟩
  · exact .inl h
  · exact .inr (.codePointSize (List.mem_map_of_mem h))

theorem IsValueFault.escapes {cs : List Char} {fault : Fault}
    (h : IsValueFault ('!' ∈ cs) fault) :
    fault.isOfBlock = true ∨ fault.Escapes (Text.ofChars cs) := by
  rcases h with h | rfl | ⟨hmark, h⟩
  · exact .inl h
  · exact .inr .numberSize
  · exact .inr (.needsTag (List.mem_map_of_mem hmark) h)

/-- The value of a text, and the faults that it may have instead. -/
theorem meets_valueOfText (t : Text) :
    Meets (valueOfText t) (fun _ => True) fun fault =>
      fault.isOfBlock = true ∨ fault.Escapes t := by
  rw [valueOfText]
  refine Meets.bind ((meets_blockChars t).mono (fun _ h => h) fun _ h => .inl h) ?_
  rintro cs rfl
  have hgraph : Meets (Graph.ofTokens (TokenStream.ofChars cs))
      (fun x => ∀ n ∈ x.1, '!' ∈ cs ∨ n.IsBare) (IsReaderFault cs) :=
    Graph.meets_ofTokens (fun _ => TokenStream.isBare_of_mem_ofChars cs)
      fun _ => TokenStream.isReaderFault_of_mem_ofChars cs
  refine Meets.bind (hgraph.mono (fun _ h => h) fun _ h => h.escapes) fun x hx => ?_
  obtain ⟨g, root⟩ := x
  cases root with
  | none => trivial
  | some n =>
      have hbare (k : Nat) : '!' ∈ cs ∨ (g.node k).IsBare := by
        rw [Graph.node]
        cases hk : g[k]? with
        | none => exact .inr Grammar.isBare_empty
        | some node => exact hx node (Array.mem_of_getElem? hk)
      exact Meets.bind ((Graph.meets_value n hbare).mono (fun _ h => h) fun _ h => h.escapes)
        fun _ _ => trivial

example :
    Meets (valueOfText (Text.ofChars "!!bool maybe".toList)) (fun _ => False)
      fun fault => fault = .notTruthValue (Text.ofChars "maybe".toList) := by
  decide +kernel

end Yaml

namespace Fields

theorem exists_ofValue (value : Option Value) : ∃ fields, (ofValue value).result = .ok fields := by
  rw [ofValue.eq_def]
  split <;> exact ⟨_, rfl⟩

/-- A block has fields, or a fault of the block, or one of the faults that escape. -/
theorem ofLines_ends (lines : List Text) (closing : Int) :
    (∃ fields, (ofLines lines 0 closing).result = .ok fields) ∨
      ∃ fault, (ofLines lines 0 closing).result = .error fault ∧
        (fault.isOfBlock = true ∨ fault.Escapes (joinLines (interiorLines lines closing))) := by
  have hvalue := Yaml.meets_valueOfText (joinLines (interiorLines lines closing))
  have hresult : (ofLines lines 0 closing).result =
      (Yaml.valueOfText (joinLines (interiorLines lines closing))).bind
        fun value => (ofValue value).result := by
    rw [ofLines, if_neg (by simp), Noted.result_bind, Noted.result_ofExcept]
  rw [hresult]
  cases h : Yaml.valueOfText (joinLines (interiorLines lines closing)) with
  | ok value => exact .inl (exists_ofValue value)
  | error fault => exact .inr ⟨fault, rfl, hvalue.of_eq_error h⟩

end Fields

end FrontLint
