import FrontLint.Proofs.Projection.Slot

/-!
# Layout

A projection is blank but for the line of the title's slot and that of the body's slot. When
the keys of an index stand inside of the block, each on a line of its own, every slot finds
its line.
-/

namespace FrontLint

/-- The keys of an index stand strictly between the first line of a block and its last one,
no two on the same line. -/
structure KeyIndex.IsInside (index : KeyIndex) (closing : Nat) : Prop where
  between : ∀ key i, index.line? key = some i → ∃ n : Nat, i = n ∧ 0 < n ∧ n < closing
  apart : ∀ key other i, index.line? key = some i → index.line? other = some i → key = other

namespace Projection

theorem blankLines_eq {block : Block} {closing : Nat} (hopening : block.opening = 0)
    (hclosing : block.closing = closing) :
    blankLines block = List.replicate (closing + 2) [] := by
  rw [blankLines, Block.lineCount, hopening, hclosing]
  congr 1

theorem place_zero {lines : List Text} {n : Nat} (h : n < lines.length) (line : Text) :
    place 0 n line lines = pure (lines.set n line) := by
  simp [place, setLine?, h]

/-- The lines with the text of a slot, if there is one, on its line. -/
def fill (lines : List Text) (mark : Text) (slot : Option (Int × Text)) : List Text :=
  match slot with
  | some (i, text) => lines.set i.toNat (mark ++ text)
  | none => lines

@[simp] theorem length_fill (lines : List Text) (mark : Text) (slot : Option (Int × Text)) :
    (fill lines mark slot).length = lines.length := by
  cases slot <;> simp [fill]

variable {block : Block} {index : KeyIndex} {closing : Nat} {lines : List Text}

section

variable [HashSeed]

theorem lt_length_of_slot (hin : index.IsInside closing) (hlen : lines.length = closing + 2)
    {fields : Fields} {key text : Text} {i : Int} (h : Slot fields index key i text) :
    ∃ n : Nat, i = n ∧ n < lines.length := by
  obtain ⟨n, hi, _, hn⟩ := hin.between key i h.2
  exact ⟨n, hi, by omega⟩

theorem placeTitle_result (hopening : block.opening = 0) (hin : index.IsInside closing)
    (hlen : lines.length = closing + 2) :
    (placeTitle block index lines).result =
      (slot? block index titleField).result.map (fill lines headingMark) := by
  rw [placeTitle, Noted.result_bind]
  cases hs : (slot? block index titleField).result with
  | error e => rfl
  | ok slot =>
      cases slot with
      | none => rfl
      | some slot =>
          obtain ⟨i, text⟩ := slot
          obtain ⟨n, rfl, hn⟩ := lt_length_of_slot hin hlen (slot?_eq_ok_some_iff.1 hs)
          simp [Except.bind, Except.map, fill, hopening, place_zero hn]

theorem length_of_placeTitle (hopening : block.opening = 0) (hin : index.IsInside closing)
    (hlen : lines.length = closing + 2) {filled : List Text}
    (h : (placeTitle block index lines).result = .ok filled) : filled.length = lines.length := by
  rw [placeTitle_result hopening hin hlen] at h
  cases hs : (slot? block index titleField).result with
  | error e => simp [hs, Except.map] at h
  | ok slot =>
      simp only [hs, Except.map, Except.ok.injEq] at h
      rw [← h, length_fill]

theorem placeBody_cons_result (hopening : block.opening = 0) (hin : index.IsInside closing)
    (hlen : lines.length = closing + 2) (key : Text) (rest : List Text) :
    (placeBody block index (key :: rest) lines).result =
      (slot? block index key).result.bind fun slot =>
        if slot.isSome then .ok (fill lines [] slot)
        else (placeBody block index rest lines).result := by
  rw [placeBody, Noted.result_bind]
  cases hs : (slot? block index key).result with
  | error e => rfl
  | ok slot =>
      cases slot with
      | none => rfl
      | some slot =>
          obtain ⟨i, text⟩ := slot
          obtain ⟨n, rfl, hn⟩ := lt_length_of_slot hin hlen (slot?_eq_ok_some_iff.1 hs)
          simp [Except.bind, fill, hopening, place_zero hn]

/-- The body is that of the body's slot, if there is one. -/
theorem exists_of_placeBody (hopening : block.opening = 0) (hin : index.IsInside closing)
    (hlen : lines.length = closing + 2) {filled : List Text}
    (h : (placeBody block index bodyFields lines).result = .ok filled) :
    ∃ slot, filled = fill lines [] slot ∧
      ∀ i text, slot = some (i, text) ↔ ∃ key, BodySlot block.fields index key i text := by
  rw [bodyFields, placeBody_cons_result hopening hin hlen] at h
  cases hd : (slot? block index descriptionField).result with
  | error e => simp [hd, Except.bind] at h
  | ok slot =>
      simp only [hd, Except.bind] at h
      cases slot with
      | some slot =>
          obtain ⟨i, text⟩ := slot
          have hslot := slot?_eq_ok_some_iff.1 hd
          refine ⟨some (i, text), by simpa using h.symm, ?_⟩
          intro j u
          constructor
          · intro heq
            cases heq
            exact ⟨descriptionField, Or.inl ⟨rfl, hslot⟩⟩
          · rintro ⟨key, ⟨_, hs⟩ | ⟨_, hno, _⟩⟩
            · obtain ⟨rfl, rfl⟩ := hslot.unique hs
              rfl
            · exact absurd hslot (hno i text)
      | none =>
          have hno := not_slot_of_slot?_eq_none hd
          simp only [Option.isSome_none, Bool.false_eq_true, if_false] at h
          rw [placeBody_cons_result hopening hin hlen] at h
          cases hs : (slot? block index summaryField).result with
          | error e => simp [hs, Except.bind] at h
          | ok slot =>
              simp only [hs, Except.bind] at h
              refine ⟨slot, ?_, ?_⟩
              · cases slot with
                | none => simpa [placeBody, fill] using h.symm
                | some slot => simpa using h.symm
              · intro j u
                constructor
                · rintro rfl
                  exact ⟨summaryField, Or.inr ⟨rfl, hno, slot?_eq_ok_some_iff.1 hs⟩⟩
                · rintro ⟨key, ⟨_, hd'⟩ | ⟨_, _, hs'⟩⟩
                  · exact absurd hd' (hno j u)
                  · rw [slot?_eq_ok_some_iff.2 hs'] at hs
                    exact (Except.ok.inj hs).symm

/-- A block is laid out in two steps, from blank lines. -/
theorem ofBlock_result (block : Block) (index : KeyIndex) :
    (ofBlock block index).result =
      (placeTitle block index (blankLines block)).result.bind fun lines =>
        (placeBody block index bodyFields lines).result.map Projection.mk := by
  rw [ofBlock, Noted.result_bind]
  congr 1
  funext lines
  rw [Noted.result_bind]
  rfl

/-- The lines of a projection: blank ones, then the title, then the body. -/
theorem ofBlock_eq_ok (hopening : block.opening = 0) (hclosing : block.closing = closing)
    (hin : index.IsInside closing) {p : Projection} (h : (ofBlock block index).result = .ok p) :
    ∃ title body,
      p.lines = fill (fill (List.replicate (closing + 2) []) headingMark title) [] body ∧
      (∀ i text, title = some (i, text) ↔ Slot block.fields index titleField i text) ∧
      ∀ i text, body = some (i, text) ↔ ∃ key, BodySlot block.fields index key i text := by
  rw [ofBlock, blankLines_eq hopening hclosing] at h
  obtain ⟨lines, htitle, h⟩ := Noted.result_bind_eq_ok_iff.1 h
  obtain ⟨filled, hbody, h⟩ := Noted.result_bind_eq_ok_iff.1 h
  have hp : p = ⟨filled⟩ := (Except.ok.inj h).symm
  rw [placeTitle_result hopening hin (by simp)] at htitle
  cases hs : (slot? block index titleField).result with
  | error e => simp [hs, Except.map] at htitle
  | ok title =>
      simp only [hs, Except.map, Except.ok.injEq] at htitle
      subst htitle
      obtain ⟨body, hfilled, hslot⟩ := exists_of_placeBody hopening hin (by simp) hbody
      refine ⟨title, body, by rw [hp, hfilled], ?_, hslot⟩
      intro i text
      rw [← slot?_eq_ok_some_iff, hs, Except.ok.injEq]

end

/-- A line of filled lines is that of the slot, or the line that was there before. -/
theorem getElem?_fill_eq_some_iff {mark line : Text} {slot : Option (Int × Text)} {i : Nat}
    (hslot : ∀ j text, slot = some (j, text) → ∃ n : Nat, j = n ∧ n < lines.length) :
    (fill lines mark slot)[i]? = some line ↔
      (∃ text, slot = some ((i : Int), text) ∧ line = mark ++ text) ∨
        (∀ text, slot ≠ some ((i : Int), text)) ∧ lines[i]? = some line := by
  cases slot with
  | none => simp [fill]
  | some slot =>
      obtain ⟨j, text⟩ := slot
      obtain ⟨n, rfl, hn⟩ := hslot j text rfl
      by_cases hni : n = i
      · subst hni
        simp [fill, hn, eq_comm]
      · have hcast : ¬ (n : Int) = i := by exact_mod_cast hni
        simp [fill, hcast, List.getElem?_set_ne hni]

variable [HashSeed]

theorem exists_of_placeBody_eq_error (hopening : block.opening = 0) (hin : index.IsInside closing)
    {keys : List Text} (hlen : lines.length = closing + 2) {e : Fault}
    (h : (placeBody block index keys lines).result = .error e) :
    ∃ key ∈ keys, (slot? block index key).result = .error e := by
  induction keys with
  | nil => cases h
  | cons key rest ih =>
      rw [placeBody_cons_result hopening hin hlen] at h
      cases hs : (slot? block index key).result with
      | error e' =>
          rw [hs] at h
          cases h
          exact ⟨key, by simp, hs⟩
      | ok slot =>
          simp only [hs, Except.bind] at h
          split at h
          · cases h
          · obtain ⟨other, hother, hfault⟩ := ih h
            exact ⟨other, List.mem_cons_of_mem _ hother, hfault⟩

/-- A block that is not laid out has a field of which the text is not found. -/
theorem exists_of_ofBlock_eq_error (hopening : block.opening = 0)
    (hclosing : block.closing = closing) (hin : index.IsInside closing) {e : Fault}
    (h : (ofBlock block index).result = .error e) :
    ∃ key ∈ titleField :: bodyFields, (slot? block index key).result = .error e := by
  have hlen : (blankLines block).length = closing + 2 := by
    rw [blankLines_eq hopening hclosing, List.length_replicate]
  rw [ofBlock, Noted.result_bind_eq_error_iff] at h
  rcases h with h | ⟨lines, hlines, h⟩
  · rw [placeTitle_result hopening hin hlen] at h
    cases hs : (slot? block index titleField).result with
    | error e' =>
        rw [hs] at h
        cases h
        exact ⟨titleField, by simp, hs⟩
    | ok slot => simp [hs, Except.map] at h
  · rcases Noted.result_bind_eq_error_iff.1 h with h | ⟨filled, _, h⟩
    · have hlen' : lines.length = closing + 2 := by
        rw [length_of_placeTitle hopening hin hlen hlines, hlen]
      obtain ⟨key, hkey, hfault⟩ := exists_of_placeBody_eq_error hopening hin hlen' h
      exact ⟨key, List.mem_cons_of_mem _ hkey, hfault⟩
    · cases h

/-- Only the text of a number can keep a block from being laid out. -/
theorem ofBlock_ne_lineOutside (hopening : block.opening = 0) (hclosing : block.closing = closing)
    (hin : index.IsInside closing) :
    (ofBlock block index).result ≠ .error .lineOutside ∧
      (ofBlock block index).result ≠ .error .lineMissing := by
  constructor
  · intro h
    obtain ⟨key, -, hkey⟩ := exists_of_ofBlock_eq_error hopening hclosing hin h
    exact (slot?_ne_lineOutside block index key).1 hkey
  · intro h
    obtain ⟨key, -, hkey⟩ := exists_of_ofBlock_eq_error hopening hclosing hin h
    exact (slot?_ne_lineOutside block index key).2 hkey

end Projection

end FrontLint
