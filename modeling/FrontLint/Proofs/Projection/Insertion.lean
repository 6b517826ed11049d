import FrontLint.Proofs.Document.Block
import FrontLint.Proofs.Document.Insertion
import FrontLint.Proofs.Projection.Flat

/-!
# Projections of documents with an inserted line

A line that is inserted into a block, is no delimiter, declares no key and leaves the fields as
they are moves what stands on the lines behind it down by one in the projection, where its own
line is empty. Nothing else of the projection changes, and it is missing only if it was.
-/

namespace FrontLint

/-- Two lists of entries, in whatever order, are the same fields. -/
structure Fields.Same (fields fields' : Fields) : Prop where
  get?_eq : ∀ key, fields'.get? key = fields.get? key
  eq_nil_iff : fields' = [] ↔ fields = []

theorem Fields.Same.refl (fields : Fields) : fields.Same fields := ⟨fun _ => rfl, Iff.rfl⟩

/-- The text of a field depends on the value of its key only. -/
theorem Fields.Same.lineText?_eq [HashSeed] {fields fields' : Fields} (h : fields.Same fields')
    (key : Text) :
    fields'.lineText? key = fields.lineText? key := by
  simp only [lineText?, h.get?_eq]

theorem set_insertIdx_shift {α : Type*} (l : List α) (a b : α) (p i : Nat) :
    (l.insertIdx p a).set (shift p i) b = (l.set i b).insertIdx p a := by
  apply List.ext_getElem?
  intro j
  rcases eq_or_exists_shift_eq p j with rfl | ⟨k, rfl⟩
  · rw [List.getElem?_set_ne (shift_ne _ _), List.getElem?_insertIdx_self,
      List.getElem?_insertIdx_self, List.length_set]
  · rw [getElem?_insertIdx_shift, List.getElem?_set', List.getElem?_set', getElem?_insertIdx_shift]
    simp only [shift_inj]

theorem replicate_insertIdx {α : Type*} {n p : Nat} (h : p ≤ n) (a : α) :
    (List.replicate n a).insertIdx p a = List.replicate (n + 1) a := by
  rw [List.eq_replicate_iff]
  constructor
  · rw [List.length_insertIdx_of_le_length (by simpa using h), List.length_replicate]
  · intro b hb
    rcases List.eq_or_mem_of_mem_insertIdx hb with rfl | hmem
    · rfl
    · exact List.eq_of_mem_replicate hmem

theorem KeyIndex.HasMoved.isInside {p closing : Nat} {index index' : KeyIndex}
    (h : index.HasMoved p index') (hin : index.IsInside closing) :
    index'.IsInside (closing + 1) := by
  have hshift : ∀ key i, index'.line? key = some i →
      ∃ n : Nat, index.line? key = some (n : Int) ∧ 0 < n ∧ n < closing ∧ i = shift p n := by
    intro key i hi
    rw [h key, Option.map_eq_some_iff] at hi
    obtain ⟨j, hj, rfl⟩ := hi
    obtain ⟨n, rfl, hpos, hn⟩ := hin.between key j hj
    exact ⟨n, hj, hpos, hn, rfl⟩
  constructor
  case between =>
    intro key i hi
    obtain ⟨n, -, hpos, hn, rfl⟩ := hshift key i hi
    exact ⟨shift p n, rfl, Nat.lt_of_lt_of_le hpos (le_shift p n),
      Nat.lt_of_le_of_lt (shift_le p n) (by omega)⟩
  case apart =>
    intro key other i hi hi'
    obtain ⟨n, hn, -, -, rfl⟩ := hshift key i hi
    obtain ⟨m, hm, -, -, heq⟩ := hshift other _ hi'
    obtain rfl : n = m := shift_inj.1 (by exact_mod_cast heq)
    exact hin.apart key other n hn hm

namespace Projection

/-- A slot on the line to which its line has moved. -/
def moved (p : Nat) (slot : Int × Text) : Int × Text := (shift p slot.1.toNat, slot.2)

theorem fill_insertIdx (lines : List Text) (mark : Text) (p : Nat) (slot : Option (Int × Text)) :
    fill (lines.insertIdx p []) mark (slot.map (moved p)) =
      (fill lines mark slot).insertIdx p [] := by
  cases slot with
  | none => rfl
  | some slot => exact set_insertIdx_shift lines [] (mark ++ slot.2) p slot.1.toNat

theorem isBlank_insertIdx {lines : List Text} {p : Nat} (hp : p ≤ lines.length) :
    (Projection.mk (lines.insertIdx p [])).isBlank = (Projection.mk lines).isBlank := by
  simp only [isBlank, text, isBlank_joinLines]
  rw [(List.perm_insertIdx [] lines hp).all_eq]
  rfl

section

variable [HashSeed] {closing p : Nat} {fields fields' : Fields} {index index' : KeyIndex}
  {lines : List Text}

theorem slot?_moved (hsame : fields.Same fields') (hmoved : index.HasMoved p index')
    (key : Text) :
    (slot? ⟨0, (closing + 1 : Nat), fields'⟩ index' key).result =
      (slot? ⟨0, closing, fields⟩ index key).result.map (Option.map (moved p)) := by
  rw [slot?_result, slot?_result, hsame.lineText?_eq, hmoved key]
  cases (fields.lineText? key).result with
  | error e => rfl
  | ok text =>
      cases text with
      | none => rfl
      | some t => cases index.line? key <;> rfl

theorem placeTitle_moved (hsame : fields.Same fields') (hmoved : index.HasMoved p index')
    (hin : index.IsInside closing) (hp : p ≤ closing) (hlen : lines.length = closing + 2) :
    (placeTitle ⟨0, (closing + 1 : Nat), fields'⟩ index' (lines.insertIdx p [])).result =
      (placeTitle ⟨0, closing, fields⟩ index lines).result.map (·.insertIdx p []) := by
  have hlen' : (lines.insertIdx p []).length = closing + 1 + 2 := by
    rw [List.length_insertIdx_of_le_length (by omega), hlen]
  rw [placeTitle_result rfl (hmoved.isInside hin) hlen', placeTitle_result rfl hin hlen,
    slot?_moved hsame hmoved]
  cases (slot? ⟨0, closing, fields⟩ index titleField).result with
  | error e => rfl
  | ok slot => exact congrArg Except.ok (fill_insertIdx lines headingMark p slot)

theorem placeBody_moved (hsame : fields.Same fields') (hmoved : index.HasMoved p index')
    (hin : index.IsInside closing) (hp : p ≤ closing) (hlen : lines.length = closing + 2)
    (keys : List Text) :
    (placeBody ⟨0, (closing + 1 : Nat), fields'⟩ index' keys (lines.insertIdx p [])).result =
      (placeBody ⟨0, closing, fields⟩ index keys lines).result.map (·.insertIdx p []) := by
  have hlen' : (lines.insertIdx p []).length = closing + 1 + 2 := by
    rw [List.length_insertIdx_of_le_length (by omega), hlen]
  induction keys with
  | nil => rfl
  | cons key rest ih =>
      rw [placeBody_cons_result rfl (hmoved.isInside hin) hlen', placeBody_cons_result rfl hin hlen,
        slot?_moved hsame hmoved]
      cases (slot? ⟨0, closing, fields⟩ index key).result with
      | error e => rfl
      | ok slot =>
          -- the other keys are looked at only if this one has no slot, here as there
          cases slot with
          | none => exact ih
          | some slot => exact congrArg Except.ok (fill_insertIdx lines [] p (some slot))

/-- A longer block is laid out as the shorter one is, with an empty line inserted. -/
theorem ofBlock_moved (hsame : fields.Same fields') (hmoved : index.HasMoved p index')
    (hin : index.IsInside closing) (hp : p ≤ closing) :
    (ofBlock ⟨0, (closing + 1 : Nat), fields'⟩ index').result =
      (ofBlock ⟨0, closing, fields⟩ index).result.map fun q => ⟨q.lines.insertIdx p []⟩ := by
  have hblank : blankLines ⟨0, (closing + 1 : Nat), fields'⟩ =
      (blankLines ⟨0, closing, fields⟩).insertIdx p [] := by
    rw [blankLines_eq rfl rfl, blankLines_eq rfl rfl, replicate_insertIdx (by omega)]
  have hlen : (blankLines ⟨0, closing, fields⟩).length = closing + 2 := by
    rw [blankLines_eq rfl rfl, List.length_replicate]
  rw [ofBlock_result, ofBlock_result, hblank, placeTitle_moved hsame hmoved hin hp hlen]
  cases htitle : (placeTitle ⟨0, closing, fields⟩ index
      (blankLines ⟨0, closing, fields⟩)).result with
  | error e => rfl
  | ok lines =>
      have hlines : lines.length = closing + 2 := by
        rw [length_of_placeTitle rfl hin hlen htitle, hlen]
      simp only [Except.map, Except.bind, placeBody_moved hsame hmoved hin hp hlines]
      cases (placeBody ⟨0, closing, fields⟩ index bodyFields lines).result <;> rfl

/-- What is left out for being blank is left out with an empty line more. -/
theorem map_ofBlock_moved (hsame : fields.Same fields') (hmoved : index.HasMoved p index')
    (hin : index.IsInside closing) (hp : p ≤ closing) :
    ((ofBlock ⟨0, (closing + 1 : Nat), fields'⟩ index').result.map fun q =>
        if q.isBlank then none else some q) =
      ((ofBlock ⟨0, closing, fields⟩ index).result.map fun q =>
        if q.isBlank then none else some q).map
          (Option.map fun q => Projection.mk (q.lines.insertIdx p [])) := by
  rw [ofBlock_moved hsame hmoved hin hp]
  cases hofBlock : (ofBlock ⟨0, closing, fields⟩ index).result with
  | error e => rfl
  | ok q =>
      have hq : p ≤ q.lines.length := by
        rw [length_lines_ofBlock rfl rfl hin hofBlock]
        omega
      simp only [Except.map, isBlank_insertIdx hq]
      cases q.isBlank <;> rfl

end

/-- A document whose block gets one line more, which declares no key and leaves the fields as
they are, has the projection that it had, with an empty line inserted; or none, if it had none;
or the fault that it had. -/
theorem ofText?_insertIdx [HashSeed] {document line : Text} {closing p : Nat}
    {fields fields' : Fields}
    (hspan : Span.find? (splitLines document) = some ⟨0, closing⟩) (hpos : 0 < p)
    (hp : p ≤ closing) (hline : IsInert line)
    (hfields : (Fields.ofLines (splitLines document) 0 closing).result = .ok fields)
    (hfields' : (Fields.ofLines ((splitLines document).insertIdx p line) 0
      (closing + 1 : Nat)).result = .ok fields')
    (hsame : fields.Same fields') :
    (ofText? (joinLines ((splitLines document).insertIdx p line))).result =
      (ofText? document).result.map
        (Option.map fun q => Projection.mk (q.lines.insertIdx p [])) := by
  have hlines := splitLines_joinLines_insertIdx document hline.lineFeed_not_mem p
  have hspan' : Span.find? ((splitLines document).insertIdx p line) = some ⟨0, closing + 1⟩ := by
    rw [Span.find?_insertIdx hspan hline, shift_of_lt hpos, shift_of_le hp]
  have hblock : (Block.ofLines? (splitLines document)).result =
      .ok (if fields = [] then none else some ⟨0, closing, fields⟩) :=
    Block.ofLines?_result hspan hfields
  have hblock' : (Block.ofLines? ((splitLines document).insertIdx p line)).result =
      .ok (if fields' = [] then none else some ⟨0, (closing + 1 : Nat), fields'⟩) :=
    Block.ofLines?_result hspan' hfields'
  rw [← hlines] at hblock'
  -- without fields there is no block in either document, else there is one in both
  by_cases hnil : fields = []
  · rw [if_pos hnil] at hblock
    rw [if_pos (hsame.eq_nil_iff.2 hnil)] at hblock'
    rw [ofText?_of_block_none hblock, ofText?_of_block_none hblock']
    rfl
  · rw [if_neg hnil] at hblock
    rw [if_neg fun h => hnil (hsame.eq_nil_iff.1 h)] at hblock'
    obtain ⟨index, index', hindex, hindex', hmoved⟩ :=
      KeyIndex.exists_ofLines?_insertIdx (Span.closing_lt_length hspan) hpos hp hline
    rw [← hlines] at hindex'
    calc (ofText? (joinLines ((splitLines document).insertIdx p line))).result
      _ = (ofBlock ⟨0, (closing + 1 : Nat), fields'⟩ index').result.map fun q =>
            if q.isBlank then none else some q := ofText?_of_block_some hblock' hindex'
      _ = ((ofBlock ⟨0, closing, fields⟩ index).result.map fun q =>
            if q.isBlank then none else some q).map
              (Option.map fun q => Projection.mk (q.lines.insertIdx p [])) :=
          map_ofBlock_moved hsame hmoved (KeyIndex.isInside_of_ofLines? hindex) hp
      _ = (ofText? document).result.map
            (Option.map fun q => Projection.mk (q.lines.insertIdx p [])) := by
          rw [ofText?_of_block_some hblock hindex]

end Projection

/-- The keys and texts of fields that have no other values. -/
def Fields.texts? : Fields → Option (List (Text × Text))
  | [] => some []
  | (.text key, .text value) :: rest => (texts? rest).map ((key, value) :: ·)
  | _ => none

/-- The fields with texts as their keys and values. -/
def Fields.ofTexts (texts : List (Text × Text)) : Fields :=
  texts.map fun entry => (.text entry.1, .text entry.2)

theorem Fields.eq_ofTexts_of_texts? {fields : Fields} {texts : List (Text × Text)}
    (h : fields.texts? = some texts) : fields = ofTexts texts := by
  fun_induction texts? fields generalizing texts with
  | case1 =>
      cases h
      rfl
  | case2 key value rest ih =>
      obtain ⟨texts, hrest, rfl⟩ := Option.map_eq_some_iff.1 h
      rw [ih hrest]
      rfl
  | case3 => cases h

theorem Fields.eq_ok_ofTexts {r : Except ε Fields} {texts : List (Text × Text)}
    (h : r.toOption.bind texts? = some texts) : r = .ok (ofTexts texts) := by
  obtain ⟨fields, hr, htexts⟩ := Option.bind_eq_some_iff.1 h
  rw [Noted.eq_ok_of_toOption hr, eq_ofTexts_of_texts? htexts]

namespace Projection

/-- A line that looks like a title behind the mark of a comment. -/
def commentedTitle : Text :=
  Text.ofChars ['#', ' ', 't', 'i', 't', 'l', 'e', ':', ' ', 'X']

def threeTexts : List (Text × Text) :=
  [(titleField, [.char 'T']), (summaryField, [.char 'S']), (descriptionField, [.char 'D'])]

open HashSeed

/-- The comment stands behind the title, and the description moves down. -/
theorem ofText?_insertIdx_commentedTitle :
    Span.find? (splitLines threeFields) = some ⟨0, 4⟩ ∧ IsInert commentedTitle ∧
      (Fields.ofLines (splitLines threeFields) 0 (4 : Nat)).result =
        .ok (.ofTexts threeTexts) ∧
      (Fields.ofLines ((splitLines threeFields).insertIdx 2 commentedTitle) 0
        (4 + 1 : Nat)).result = .ok (.ofTexts threeTexts) ∧
      (ofText? (joinLines ((splitLines threeFields).insertIdx 2 commentedTitle))).result =
        .ok (some ⟨[[], Text.ofChars ['#', ' ', 'T'], [], [], Text.ofChars ['D'], [], []]⟩) := by
  have hspan : Span.find? (splitLines threeFields) = some ⟨0, 4⟩ := by decide
  have hline : IsInert commentedTitle := by decide
  have hfields : (Fields.ofLines (splitLines threeFields) 0 (4 : Nat)).result =
      .ok (.ofTexts threeTexts) := Fields.eq_ok_ofTexts (by decide +kernel)
  have hfields' : (Fields.ofLines ((splitLines threeFields).insertIdx 2 commentedTitle) 0
      (4 + 1 : Nat)).result = .ok (.ofTexts threeTexts) :=
    Fields.eq_ok_ofTexts (by decide +kernel)
  refine ⟨hspan, hline, hfields, hfields', ?_⟩
  have hdocument : (ofText? threeFields).result =
      .ok (some ⟨[[], Text.ofChars ['#', ' ', 'T'], [], Text.ofChars ['D'], [], []]⟩) :=
    Noted.eq_ok_of_toOption (by decide +kernel)
  rw [ofText?_insertIdx hspan (by decide) (by decide) hline hfields hfields' (.refl _), hdocument]
  rfl

end Projection

end FrontLint
