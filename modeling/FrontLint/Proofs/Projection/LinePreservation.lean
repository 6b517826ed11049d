import FrontLint.Proofs.Document.Block
import FrontLint.Proofs.Document.KeyIndex
import FrontLint.Proofs.Projection.Layout
import FrontLint.Proofs.Projection.Outcome

/-!
# Line preservation

A projection has one line for each line of the block and one more. Every line is empty but
that of the title's slot and that of the body's slot, and each slot is on the line of the
document that declares its key. No line is looked up or placed out of range.

## Implementation notes

The index is made from the lines and the fields are made from the value of the block, so
nothing ties one to the other but the keys. All that is used of the index is that its keys
stand inside of the block and apart from each other.
-/

namespace FrontLint

theorem KeyIndex.isInside_of_ofLines? {lines : List Text} {closing : Nat} {index : KeyIndex}
    (h : KeyIndex.ofLines? lines 0 closing = some index) : index.IsInside closing := by
  have h' : KeyIndex.ofLines? lines ((0 : Nat) : Int) closing = some index := h
  constructor
  · intro key i hi
    obtain ⟨n, rfl, hpos, hn, _⟩ := (line?_eq_some_iff h').1 hi
    exact ⟨n, rfl, hpos, hn⟩
  · intro key other i hi hi'
    exact eq_of_line?_eq_some h' hi hi'

namespace Projection

section

variable [HashSeed]

/-- What ties a projection to the lines of a document whose block ends on line `closing`. -/
structure PreservesLines (lines : List Text) (closing : Nat) (fields : Fields)
    (index : KeyIndex) (p : Projection) : Prop where
  length_lines : p.lines.length = closing + 2
  lineFeed_not_mem : ∀ line ∈ p.lines, lineFeed ∉ line
  splitLines_text : splitLines p.text = p.lines
  /-- The lines that are not empty are those of the title's slot and of the body's slot. -/
  filled_iff : ∀ (i : Nat) (line : Text), line ≠ [] →
    (p.lines[i]? = some line ↔
      (∃ text, Slot fields index titleField i text ∧ line = headingMark ++ text) ∨
        ∃ key, BodySlot fields index key i line)
  /-- A slot is on an inner line of the block that begins with its key and a colon. -/
  declared : ∀ key i text,
    (key = titleField ∧ Slot fields index titleField i text ∨
      BodySlot fields index key i text) →
    ∃ n : Nat, i = n ∧ 0 < n ∧ n < closing ∧ ∃ line, lines[n]? = some line ∧
      (line.head?.map Code.isBlank).getD false = false ∧ key ++ [colon] <+: line
  title_ne_body : ∀ key i j text body, Slot fields index titleField i text →
    BodySlot fields index key j body → i ≠ j
  /-- Beside a description the line of the summary stays empty. -/
  summary_blank : ∀ i j text summary, Slot fields index descriptionField i text →
    Slot fields index summaryField j summary → ∃ n : Nat, j = n ∧ p.lines[n]? = some []

theorem BodySlot.slot {fields : Fields} {index : KeyIndex} {key text : Text} {i : Int}
    (h : BodySlot fields index key i text) :
    Slot fields index key i text ∧ (key = descriptionField ∨ key = summaryField) := by
  rcases h with ⟨rfl, hs⟩ | ⟨rfl, _, hs⟩
  · exact ⟨hs, Or.inl rfl⟩
  · exact ⟨hs, Or.inr rfl⟩

theorem BodySlot.key_ne_title {fields : Fields} {index : KeyIndex} {key text : Text} {i : Int}
    (h : BodySlot fields index key i text) : key ≠ titleField := by
  rcases h.slot.2 with rfl | rfl
  · decide
  · decide

theorem BodySlot.unique {fields : Fields} {index : KeyIndex} {key other text text' : Text}
    {i j : Int} (h : BodySlot fields index key i text) (h' : BodySlot fields index other j text') :
    i = j ∧ text = text' := by
  rcases h with ⟨_, hs⟩ | ⟨_, hno, hs⟩
  · rcases h' with ⟨_, hs'⟩ | ⟨_, hno', _⟩
    · exact hs.unique hs'
    · exact absurd hs (hno' i text)
  · rcases h' with ⟨_, hs'⟩ | ⟨_, _, hs'⟩
    · exact absurd hs' (hno j text')
    · exact hs.unique hs'

end

section Block

variable [HashSeed] {block : Block} {index : KeyIndex} {closing : Nat} {p : Projection}

/-- The slots of the title and of the body are on different lines. -/
theorem Slot.ne_of_bodySlot (hin : index.IsInside closing) {fields : Fields}
    {key text body : Text} {i j : Int} (h : Slot fields index titleField i text)
    (h' : BodySlot fields index key j body) : i ≠ j := by
  rintro rfl
  exact h'.key_ne_title (hin.apart key titleField i h'.slot.1.2 h.2)

/-- A line of a projection that is not empty is that of the title's slot or of the body's. -/
theorem getElem?_ofBlock_eq_some_iff (hopening : block.opening = 0)
    (hclosing : block.closing = closing) (hin : index.IsInside closing)
    (h : (ofBlock block index).result = .ok p) {i : Nat} {line : Text} (hne : line ≠ []) :
    p.lines[i]? = some line ↔
      (∃ text, Slot block.fields index titleField i text ∧ line = headingMark ++ text) ∨
        ∃ key, BodySlot block.fields index key i line := by
  obtain ⟨title, body, hlines, htitle, hbody⟩ := ofBlock_eq_ok hopening hclosing hin h
  have hlen : (List.replicate (closing + 2) ([] : Text)).length = closing + 2 := by simp
  have hinTitle : ∀ j text, title = some (j, text) →
      ∃ n : Nat, j = n ∧ n < (List.replicate (closing + 2) ([] : Text)).length :=
    fun j text ht => lt_length_of_slot hin hlen ((htitle j text).1 ht)
  have hinBody : ∀ j text, body = some (j, text) →
      ∃ n : Nat, j = n ∧
        n < (fill (List.replicate (closing + 2) []) headingMark title).length := by
    intro j text hb
    obtain ⟨key, hkey⟩ := (hbody j text).1 hb
    rw [length_fill]
    exact lt_length_of_slot hin hlen hkey.slot.1
  have hblank : (List.replicate (closing + 2) ([] : Text))[i]? ≠ some line := by
    rw [List.getElem?_replicate]
    split <;> simp [Ne.symm hne]
  rw [hlines, getElem?_fill_eq_some_iff hinBody, getElem?_fill_eq_some_iff hinTitle]
  simp only [htitle, hbody, hblank, and_false, or_false, List.nil_append, exists_eq_right', ne_eq]
  constructor
  · rintro (hkey | ⟨_, htext⟩)
    · exact Or.inr hkey
    · exact Or.inl htext
  · rintro (⟨text, hslot, hline⟩ | hkey)
    · refine Or.inr ⟨?_, text, hslot, hline⟩
      rintro other ⟨key, hkey⟩
      exact hslot.ne_of_bodySlot hin hkey rfl
    · exact Or.inl hkey

theorem length_lines_ofBlock (hopening : block.opening = 0) (hclosing : block.closing = closing)
    (hin : index.IsInside closing) (h : (ofBlock block index).result = .ok p) :
    p.lines.length = closing + 2 := by
  obtain ⟨title, body, hlines, _⟩ := ofBlock_eq_ok hopening hclosing hin h
  rw [hlines, length_fill, length_fill, List.length_replicate]

theorem lineFeed_not_mem_lines (hopening : block.opening = 0)
    (hclosing : block.closing = closing) (hin : index.IsInside closing)
    (h : (ofBlock block index).result = .ok p) {line : Text} (hline : line ∈ p.lines) :
    lineFeed ∉ line := by
  by_cases hne : line = []
  · simp [hne]
  · obtain ⟨i, hi⟩ := List.mem_iff_getElem?.1 hline
    rcases (getElem?_ofBlock_eq_some_iff hopening hclosing hin h hne).1 hi with
      ⟨text, hslot, rfl⟩ | ⟨key, hkey⟩
    · have hmark : lineFeed ∉ headingMark := by decide
      have htext := (Fields.lineText?_eq_some hslot.1).2
      simp [hmark, htext]
    · exact (Fields.lineText?_eq_some hkey.slot.1.1).2

/-- The line of a number is an inner line of the block that begins with the key and a colon. -/
theorem exists_line_of_slot {lines : List Text} {fields : Fields}
    (hindex : KeyIndex.ofLines? lines 0 closing = some index) {key text : Text} {i : Int}
    (h : Slot fields index key i text) :
    ∃ n : Nat, i = n ∧ 0 < n ∧ n < closing ∧ ∃ line, lines[n]? = some line ∧
      (line.head?.map Code.isBlank).getD false = false ∧ key ++ [colon] <+: line := by
  have hindex' : KeyIndex.ofLines? lines ((0 : Nat) : Int) closing = some index := hindex
  obtain ⟨n, hi, hpos, hn, hdeclares, _⟩ := (KeyIndex.line?_eq_some_iff hindex').1 h.2
  obtain ⟨line, hline, hkey⟩ := KeyIndex.declares_iff.1 hdeclares
  obtain ⟨hhead, _, _, hprefix⟩ := isPrefix_of_declaredKey? hkey
  exact ⟨n, hi, hpos, hn, line, hline, hhead, hprefix⟩

/-- Beside the slot of a description, that of a summary is left empty. -/
theorem getElem?_summary (hopening : block.opening = 0) (hclosing : block.closing = closing)
    (hin : index.IsInside closing) (h : (ofBlock block index).result = .ok p) {i j : Int}
    {text summary : Text} (hd : Slot block.fields index descriptionField i text)
    (hs : Slot block.fields index summaryField j summary) :
    ∃ n : Nat, j = n ∧ p.lines[n]? = some [] := by
  obtain ⟨n, rfl, hn⟩ :=
    lt_length_of_slot hin (length_lines_ofBlock hopening hclosing hin h) hs
  refine ⟨n, rfl, ?_⟩
  by_contra hline
  have hne : p.lines[n] ≠ [] := by
    intro hnil
    exact hline (by rw [List.getElem?_eq_getElem hn, hnil])
  have hsome : p.lines[n]? = some p.lines[n] := List.getElem?_eq_getElem hn
  rcases (getElem?_ofBlock_eq_some_iff hopening hclosing hin h hne).1 hsome with
    ⟨title, htitle, _⟩ | ⟨key, hkey⟩
  · have := hin.apart summaryField titleField n hs.2 htitle.2
    exact absurd this (by decide)
  · have hbody : BodySlot block.fields index descriptionField i text := Or.inl ⟨rfl, hd⟩
    obtain ⟨rfl, _⟩ := hbody.unique hkey
    have := hin.apart descriptionField summaryField n hd.2 hs.2
    exact absurd this (by decide)

theorem ofBlock_preservesLines {lines : List Text} (hopening : block.opening = 0)
    (hclosing : block.closing = closing)
    (hindex : KeyIndex.ofLines? lines 0 closing = some index)
    (h : (ofBlock block index).result = .ok p) :
    p.PreservesLines lines closing block.fields index := by
  have hin := KeyIndex.isInside_of_ofLines? hindex
  have hlen := length_lines_ofBlock hopening hclosing hin h
  have hfeed : ∀ line ∈ p.lines, lineFeed ∉ line := fun _ hline =>
    lineFeed_not_mem_lines hopening hclosing hin h hline
  constructor
  case length_lines => exact hlen
  case lineFeed_not_mem => exact hfeed
  case splitLines_text =>
    apply splitLines_joinLines
    · intro hnil
      simp [hnil] at hlen
    · exact hfeed
  case filled_iff =>
    intro i line hne
    exact getElem?_ofBlock_eq_some_iff hopening hclosing hin h hne
  case declared =>
    rintro key i text (⟨rfl, hslot⟩ | hbody)
    · exact exists_line_of_slot hindex hslot
    · exact exists_line_of_slot hindex hbody.slot.1
  case title_ne_body =>
    intro key i j text body hslot hbody
    exact hslot.ne_of_bodySlot hin hbody
  case summary_blank =>
    intro i j text summary hd hs
    exact getElem?_summary hopening hclosing hin h hd hs

end Block

section

variable [HashSeed]

/-- No line is looked up or placed out of range. -/
theorem ofText?_ne_lineMissing (document : Text) :
    (ofText? document).result ≠ .error .lineMissing ∧
      (ofText? document).result ≠ .error .lineOutside := by
  have hno : ∀ e, e = Fault.lineMissing ∨ e = Fault.lineOutside →
      (ofText? document).result ≠ .error e := by
    intro e he h
    rcases ofText?_eq_error h with ⟨fault, rfl⟩ | ⟨block, hblock, hindex⟩
    · simp at he
    · obtain ⟨closing, hspan, hopening, hclosing, _⟩ := Block.ofLines?_eq_ok_some_iff.1 hblock
      rw [hopening, hclosing] at hindex
      rcases hindex with hnone | ⟨index, hsome, hfault⟩
      · have hle := Nat.le_of_lt (Span.closing_lt_length hspan)
        have hsome := KeyIndex.ofLines?_isSome 0 closing hle
        simp [hnone] at hsome
      · have hin := KeyIndex.isInside_of_ofLines? hsome
        have houtside := ofBlock_ne_lineOutside hopening hclosing hin
        rcases he with rfl | rfl
        · exact houtside.2 hfault
        · exact houtside.1 hfault
  exact ⟨hno _ (Or.inl rfl), hno _ (Or.inr rfl)⟩

theorem preservesLines_of_ofText? {document : Text} {p : Projection}
    (h : (ofText? document).result = .ok (some p)) :
    ∃ closing block index, (Block.ofLines? (splitLines document)).result = .ok (some block) ∧
      KeyIndex.ofLines? (splitLines document) block.opening block.closing = some index ∧
      p.PreservesLines (splitLines document) closing block.fields index := by
  obtain ⟨block, index, hblock, hindex, hp, -⟩ := ofText?_eq_ok_some_iff.1 h
  obtain ⟨closing, -, hopening, hclosing, -⟩ := Block.ofLines?_eq_ok_some_iff.1 hblock
  refine ⟨closing, block, index, hblock, hindex, ?_⟩
  rw [hopening, hclosing] at hindex
  exact ofBlock_preservesLines hopening hclosing hindex hp

/-- The projection of a document preserves the lines of its block, and on the way to it no
line is looked up or placed out of range. -/
theorem ofText?_preservesLines (document : Text) :
    ((ofText? document).result ≠ .error .lineMissing ∧
      (ofText? document).result ≠ .error .lineOutside) ∧
    ∀ p, (ofText? document).result = .ok (some p) →
      ∃ closing fields index, Span.find? (splitLines document) = some ⟨0, closing⟩ ∧
        (Fields.ofLines (splitLines document) 0 closing).result = .ok fields ∧
        KeyIndex.ofLines? (splitLines document) 0 closing = some index ∧
        p.PreservesLines (splitLines document) closing fields index := by
  refine ⟨ofText?_ne_lineMissing document, ?_⟩
  intro p h
  obtain ⟨block, index, hblock, hindex, hp, _⟩ := ofText?_eq_ok_some_iff.1 h
  obtain ⟨closing, hspan, hopening, hclosing, _, hfields⟩ := Block.ofLines?_eq_ok_some_iff.1 hblock
  rw [hopening, hclosing] at hindex
  exact ⟨closing, block.fields, index, hspan, hfields, hindex,
    ofBlock_preservesLines hopening hclosing hindex hp⟩

end

/-- A document with a title, a summary and a description, in this order. -/
def threeFields : Text :=
  joinLines ([['-', '-', '-'], ['t', 'i', 't', 'l', 'e', ':', ' ', 'T'],
    ['s', 'u', 'm', 'm', 'a', 'r', 'y', ':', ' ', 'S'],
    ['d', 'e', 's', 'c', 'r', 'i', 'p', 't', 'i', 'o', 'n', ':', ' ', 'D'],
    ['-', '-', '-'], ['B']].map Text.ofChars)

open HashSeed

theorem preservesLines_threeFields :
    (ofText? threeFields).result =
        .ok (some ⟨[[], Text.ofChars ['#', ' ', 'T'], [], Text.ofChars ['D'], [], []]⟩) ∧
      ∃ closing fields index, Span.find? (splitLines threeFields) = some ⟨0, closing⟩ ∧
        (Fields.ofLines (splitLines threeFields) 0 closing).result = .ok fields ∧
        KeyIndex.ofLines? (splitLines threeFields) 0 closing = some index ∧
        PreservesLines (splitLines threeFields) closing fields index
          ⟨[[], Text.ofChars ['#', ' ', 'T'], [], Text.ofChars ['D'], [], []]⟩ := by
  have h : (ofText? threeFields).result =
      .ok (some ⟨[[], Text.ofChars ['#', ' ', 'T'], [], Text.ofChars ['D'], [], []]⟩) :=
    Noted.eq_ok_of_toOption (by decide +kernel)
  exact ⟨h, (ofText?_preservesLines threeFields).2 _ h⟩

end Projection

end FrontLint
