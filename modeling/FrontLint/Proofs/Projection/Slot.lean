import FrontLint.Projection
import Mathlib.Data.List.Basic

/-!
# Slots

A key has a slot if its field has a text that fits on one line and the key stands on a line.
The text of a slot is not empty and holds no line feed.
-/

namespace FrontLint

variable [HashSeed]

theorem Fields.lineText?_eq_some {fields : Fields} {key text : Text}
    (h : (fields.lineText? key).result = .ok (some text)) : text ≠ [] ∧ lineFeed ∉ text := by
  simp only [lineText?] at h
  split at h
  · cases h
  · split at h
    · cases h
    · obtain ⟨found, hfound, h⟩ := Noted.result_bind_eq_ok_iff.1 h
      split at h
      · cases h
      · rename_i full
        split at h
        · cases h
        · rename_i hfeed
          simp only [Noted.result_pure, Except.ok.injEq, Option.ite_none_left_eq_some,
            Option.some.injEq] at h
          obtain ⟨hne, rfl⟩ := h
          exact ⟨by simpa using hne, by simpa using hfeed⟩

namespace Projection

/-- The slot of a key: the text of its field, and the line on which the key stands. -/
def Slot (fields : Fields) (index : KeyIndex) (key : Text) (i : Int) (text : Text) : Prop :=
  (fields.lineText? key).result = .ok (some text) ∧ index.line? key = some i

/-- The slot for the body: that of the description, or that of the summary if the
description has none. -/
def BodySlot (fields : Fields) (index : KeyIndex) (key : Text) (i : Int) (text : Text) : Prop :=
  (key = descriptionField ∧ Slot fields index descriptionField i text) ∨
    (key = summaryField ∧ (∀ j u, ¬ Slot fields index descriptionField j u) ∧
      Slot fields index summaryField i text)

theorem Slot.unique {fields : Fields} {index : KeyIndex} {key text text' : Text} {i j : Int}
    (h : Slot fields index key i text) (h' : Slot fields index key j text') :
    i = j ∧ text = text' := by
  obtain ⟨ht, hi⟩ := h
  obtain ⟨ht', hi'⟩ := h'
  rw [ht] at ht'
  rw [hi] at hi'
  simp_all

theorem slot?_result (block : Block) (index : KeyIndex) (key : Text) :
    (slot? block index key).result =
      ((block.fields.lineText? key).result.mapError .numeral).map fun text =>
        text.bind fun t => (index.line? key).map fun i => (i, t) := by
  rw [slot?, Noted.result_bind, Noted.result_mapFault]
  rfl

theorem slot?_eq_ok_some_iff {block : Block} {index : KeyIndex} {key text : Text} {i : Int} :
    (slot? block index key).result = .ok (some (i, text)) ↔
      Slot block.fields index key i text := by
  rw [slot?, Noted.result_bind_eq_ok_iff, Slot, Noted.result_mapFault]
  cases (block.fields.lineText? key).result with
  | error e => simp [Except.mapError]
  | ok found =>
      cases found with
      | none => simp [Except.mapError]
      | some t =>
          cases index.line? key with
          | none => simp [Except.mapError]
          | some j =>
              simp only [Except.mapError, Except.ok.injEq, exists_eq_left', Option.bind_some,
                Option.map_some, Noted.result_pure, Option.some.injEq, Prod.mk.injEq]
              exact and_comm

theorem not_slot_of_slot?_eq_none {block : Block} {index : KeyIndex} {key : Text}
    (h : (slot? block index key).result = .ok none) (i : Int) (text : Text) :
    ¬ Slot block.fields index key i text := by
  intro hs
  rw [slot?_eq_ok_some_iff.2 hs] at h
  cases h

/-- Only the text of a number can keep a key from being looked up. -/
theorem slot?_ne_lineOutside (block : Block) (index : KeyIndex) (key : Text) :
    (slot? block index key).result ≠ .error .lineOutside ∧
      (slot? block index key).result ≠ .error .lineMissing := by
  rw [slot?_result]
  cases (block.fields.lineText? key).result <;> simp [Except.mapError, Except.map]

end Projection

end FrontLint
