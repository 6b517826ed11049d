import FrontLint.Proofs.Projection.Flat

/-!
# Prose fields

Prose is not skipped. A document whose title has a text with something to read in it, or whose
body has, and which declares that field on a line of its own, has a projection with the text on
that line. A description without a text or without a line leaves its place to the summary; a
description of blanks keeps it.
-/

namespace FrontLint

namespace Projection

section

variable [HashSeed]

/-- The texts that a projection asks for are found: those of the title and of the description,
and that of the summary unless the description has a slot. -/
structure HasTexts (fields : Fields) (index : KeyIndex) : Prop where
  title : ∃ found, (fields.lineText? titleField).result = .ok found
  description : ∃ found, (fields.lineText? descriptionField).result = .ok found
  summary : (∀ i text, ¬ Slot fields index descriptionField i text) →
    ∃ found, (fields.lineText? summaryField).result = .ok found

theorem exists_slot? {block : Block} (index : KeyIndex) {key : Text}
    (h : ∃ found, (block.fields.lineText? key).result = .ok found) :
    ∃ slot, (slot? block index key).result = .ok slot := by
  obtain ⟨found, hfound⟩ := h
  rw [slot?, Noted.result_bind, Noted.result_mapFault, hfound]
  exact ⟨_, rfl⟩

section Block

variable {block : Block} {index : KeyIndex} {closing : Nat}

theorem exists_placeBody (hopening : block.opening = 0) (hin : index.IsInside closing)
    {lines : List Text} (hlen : lines.length = closing + 2) (h : HasTexts block.fields index) :
    ∃ filled, (placeBody block index bodyFields lines).result = .ok filled := by
  obtain ⟨slot, hslot⟩ := exists_slot? index h.description
  rw [bodyFields, placeBody_cons_result hopening hin hlen, hslot]
  cases slot with
  | some slot => exact ⟨_, rfl⟩
  | none =>
      obtain ⟨summary, hsummary⟩ := exists_slot? index (h.summary (not_slot_of_slot?_eq_none hslot))
      simp only [Except.bind, Option.isSome_none, Bool.false_eq_true, if_false]
      rw [placeBody_cons_result hopening hin hlen, hsummary]
      cases summary with
      | some summary => exact ⟨_, rfl⟩
      | none => exact ⟨lines, rfl⟩

/-- A block is laid out if the texts are found. -/
theorem exists_ofBlock (hopening : block.opening = 0) (hclosing : block.closing = closing)
    (hin : index.IsInside closing) (h : HasTexts block.fields index) :
    ∃ p, (ofBlock block index).result = .ok p := by
  have hlen : (blankLines block).length = closing + 2 := by
    rw [blankLines, Block.lineCount, hopening, hclosing, List.length_replicate]
    omega
  obtain ⟨title, htitle⟩ := exists_slot? index h.title
  have hlines := placeTitle_result hopening hin hlen
  rw [htitle] at hlines
  have hlen' : (fill (blankLines block) headingMark title).length = closing + 2 := by
    rw [length_fill, hlen]
  obtain ⟨filled, hfilled⟩ := exists_placeBody hopening hin hlen' h
  refine ⟨⟨filled⟩, ?_⟩
  rw [ofBlock, Noted.result_bind_eq_ok_iff]
  refine ⟨_, hlines, ?_⟩
  rw [Noted.result_bind_eq_ok_iff]
  exact ⟨filled, hfilled, rfl⟩

end Block

end

theorem isBlank_eq_false_of_mem {p : Projection} {line : Text} (hline : line ∈ p.lines)
    (h : line.isBlank = false) : p.isBlank = false := by
  rw [isBlank, text, isBlank_joinLines]
  by_contra hall
  rw [Bool.not_eq_false, List.all_eq_true] at hall
  rw [hall line hline] at h
  cases h

theorem isBlank_headingMark_append (text : Text) : (headingMark ++ text).isBlank = false := rfl

section

variable [HashSeed]

/-- A description that has no value, an empty one, no text or no line has no slot. -/
theorem not_slot_description {fields : Fields} {index : KeyIndex}
    (h : fields.get? descriptionField = none ∨
      (∃ v, fields.get? descriptionField = some v ∧ v.isVoid = true) ∨
      (fields.lineText? descriptionField).result = .ok none ∨
      index.line? descriptionField = none) (i : Int) (text : Text) :
    ¬ Slot fields index descriptionField i text := by
  rintro ⟨htext, hline⟩
  rcases h with h | ⟨v, h, hvoid⟩ | h | h
  · rw [Fields.lineText?_of_none h] at htext
    cases htext
  · rw [Fields.lineText?_of_isVoid h hvoid] at htext
    cases htext
  · rw [h] at htext
    cases htext
  · rw [h] at hline
    cases hline

/-- The document has a projection with a text on a line. -/
def Shows (document : Text) (i : Int) (line : Text) : Prop :=
  ∃ p, (ofText? document).result = .ok (some p) ∧ lineAt? p.lines i = some line

/-- The index of a located block is found. If the texts of its fields are, the document has a
projection that shows the title, and one that shows the body if its text is not blank; the body
is that of the summary wherever the description has no slot. -/
theorem ofText?_showsProse {document : Text} {block : Block}
    (hblock : (Block.ofText? document).result = .ok (some block)) :
    ∃ index, KeyIndex.ofLines? (splitLines document) block.opening block.closing = some index ∧
      (HasTexts block.fields index →
        (∀ i text, Slot block.fields index titleField i text →
          Shows document i (headingMark ++ text)) ∧
        (∀ key i text, BodySlot block.fields index key i text → text.isBlank = false →
          Shows document i text) ∧
        ∀ i text, Slot block.fields index summaryField i text → text.isBlank = false →
          (block.fields.get? descriptionField = none ∨
            (∃ v, block.fields.get? descriptionField = some v ∧ v.isVoid = true) ∨
            (block.fields.lineText? descriptionField).result = .ok none ∨
            index.line? descriptionField = none) →
          Shows document i text) := by
  obtain ⟨closing, hspan, hopening, hclosing, -, -⟩ := Block.ofLines?_eq_ok_some_iff.1 hblock
  have hle := Nat.le_of_lt (Span.closing_lt_length hspan)
  obtain ⟨index, hindex⟩ := Option.isSome_iff_exists.1 (KeyIndex.ofLines?_isSome 0 closing hle)
  have hin := KeyIndex.isInside_of_ofLines? hindex
  have hblockIndex : KeyIndex.ofLines? (splitLines document) block.opening block.closing =
      some index := by
    rw [hopening, hclosing]
    exact hindex
  refine ⟨index, hblockIndex, fun htexts => ?_⟩
  obtain ⟨p, hp⟩ := exists_ofBlock hopening hclosing hin htexts
  -- a line of the layout that is not blank keeps the projection, and is found in it
  have hshows : ∀ (i : Nat) (line : Text), p.lines[i]? = some line → line.isBlank = false →
      Shows document i line := by
    intro i line hline hblank
    have hkept := isBlank_eq_false_of_mem (List.mem_of_getElem? hline) hblank
    exact ⟨p, ofText?_eq_ok_some_iff.2 ⟨block, index, hblock, hblockIndex, hp, hkept⟩, by simpa⟩
  have hbody : ∀ key i text, BodySlot block.fields index key i text → text.isBlank = false →
      Shows document i text := by
    intro key i text hslot hblank
    have hne := (Fields.lineText?_eq_some hslot.slot.1.1).1
    obtain ⟨n, rfl, -, -⟩ := hin.between key i hslot.slot.1.2
    exact hshows n text ((getElem?_ofBlock_eq_some_iff hopening hclosing hin hp hne).2
      (.inr ⟨key, hslot⟩)) hblank
  refine ⟨?_, hbody, ?_⟩
  · intro i text hslot
    obtain ⟨n, rfl, -, -⟩ := hin.between titleField i hslot.2
    have hne : headingMark ++ text ≠ [] := by simp [headingMark]
    exact hshows n _ ((getElem?_ofBlock_eq_some_iff hopening hclosing hin hp hne).2
      (.inl ⟨text, hslot, rfl⟩)) (isBlank_headingMark_append text)
  · intro i text hslot hblank hdescription
    exact hbody summaryField i text
      (.inr ⟨rfl, not_slot_description hdescription, hslot⟩) hblank

/-- What the block of a document gives for the three fields: their texts and their lines. -/
def slotsOf? (document : Text) : Option (List (Option (Option Text) × Option Int)) := do
  let block ← (Block.ofText? document).result.toOption.join
  let index ← KeyIndex.ofLines? (splitLines document) block.opening block.closing
  return [titleField, descriptionField, summaryField].map fun key =>
    ((block.fields.lineText? key).result.toOption, index.line? key)

theorem exists_of_slotsOf? {document : Text} {slots : List (Option (Option Text) × Option Int)}
    (h : slotsOf? document = some slots) :
    ∃ block index, (Block.ofText? document).result = .ok (some block) ∧
      KeyIndex.ofLines? (splitLines document) block.opening block.closing = some index ∧
      slots = [titleField, descriptionField, summaryField].map fun key =>
        ((block.fields.lineText? key).result.toOption, index.line? key) := by
  simp only [slotsOf?, Option.bind_eq_bind, Option.bind_eq_some_iff] at h
  obtain ⟨block, hblock, index, hindex, hslots⟩ := h
  rw [Option.join_eq_some_iff] at hblock
  exact ⟨block, index, Noted.eq_ok_of_toOption hblock, hindex, (Option.some.inj hslots).symm⟩

end

/-- A document with an empty description and a summary. -/
def emptyDescription : Text :=
  joinLines ([['-', '-', '-'],
    ['d', 'e', 's', 'c', 'r', 'i', 'p', 't', 'i', 'o', 'n', ':'],
    ['s', 'u', 'm', 'm', 'a', 'r', 'y', ':', ' ', 'S'], ['-', '-', '-']].map Text.ofChars)

open HashSeed

/-- The summary is shown. -/
theorem showsProse_emptyDescription :
    (∃ block index, (Block.ofText? emptyDescription).result = .ok (some block) ∧
      Slot block.fields index summaryField 2 [.char 'S']) ∧
    Shows emptyDescription 2 [.char 'S'] := by
  obtain ⟨block, index, hblock, hindex, hslots⟩ := exists_of_slotsOf?
    (show slotsOf? emptyDescription = some [(some none, none), (some none, some 1),
      (some (some [.char 'S']), some 2)] by decide +kernel)
  simp only [List.map_cons, List.map_nil, List.cons.injEq, Prod.mk.injEq, and_true] at hslots
  obtain ⟨⟨htitle, -⟩, ⟨hdescription, -⟩, hsummary, hline⟩ := hslots
  have hslot : Slot block.fields index summaryField 2 [.char 'S'] :=
    ⟨Noted.eq_ok_of_toOption hsummary.symm, hline.symm⟩
  obtain ⟨found, hfound, hshows⟩ := ofText?_showsProse hblock
  obtain rfl : index = found := Option.some.inj (hindex.symm.trans hfound)
  have htexts : HasTexts block.fields index :=
    ⟨⟨_, Noted.eq_ok_of_toOption htitle.symm⟩, ⟨_, Noted.eq_ok_of_toOption hdescription.symm⟩,
      fun _ => ⟨_, hslot.1⟩⟩
  refine ⟨⟨block, index, hblock, hslot⟩, (hshows htexts).2.2 2 _ hslot (by decide) ?_⟩
  exact .inr (.inr (.inl (Noted.eq_ok_of_toOption hdescription.symm)))

/-- A document with a description of blanks and a summary. -/
def blankDescription : Text :=
  joinLines ([['-', '-', '-'],
    ['d', 'e', 's', 'c', 'r', 'i', 'p', 't', 'i', 'o', 'n', ':', ' ', '\x22', ' ', '\x22'],
    ['s', 'u', 'm', 'm', 'a', 'r', 'y', ':', ' ', 'S'], ['-', '-', '-']].map Text.ofChars)

/-- The description of blanks hides the summary, and the document is skipped. -/
theorem not_shows_blankDescription :
    ∃ block index, (Block.ofText? blankDescription).result = .ok (some block) ∧
      KeyIndex.ofLines? (splitLines blankDescription) block.opening block.closing = some index ∧
      HasTexts block.fields index ∧
      Slot block.fields index descriptionField 1 [.char ' '] ∧
      Slot block.fields index summaryField 2 [.char 'S'] ∧
      (ofText? blankDescription).result = .ok none := by
  obtain ⟨block, index, hblock, hindex, hslots⟩ := exists_of_slotsOf?
    (show slotsOf? blankDescription = some [(some none, none), (some (some [.char ' ']), some 1),
      (some (some [.char 'S']), some 2)] by decide +kernel)
  simp only [List.map_cons, List.map_nil, List.cons.injEq, Prod.mk.injEq, and_true] at hslots
  obtain ⟨⟨htitle, -⟩, ⟨hdescription, hdescriptionLine⟩, hsummary, hsummaryLine⟩ := hslots
  have hslot : Slot block.fields index summaryField 2 [.char 'S'] :=
    ⟨Noted.eq_ok_of_toOption hsummary.symm, hsummaryLine.symm⟩
  refine ⟨block, index, hblock, hindex, ⟨⟨_, Noted.eq_ok_of_toOption htitle.symm⟩,
    ⟨_, Noted.eq_ok_of_toOption hdescription.symm⟩, fun _ => ⟨_, hslot.1⟩⟩,
    ⟨Noted.eq_ok_of_toOption hdescription.symm, hdescriptionLine.symm⟩, hslot, ?_⟩
  exact Noted.eq_ok_of_toOption (by decide +kernel)

end Projection

end FrontLint
