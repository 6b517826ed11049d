import FrontLint.Proofs.Document.KeyIndex
import FrontLint.Proofs.Document.Span
import Mathlib.Data.List.InsertIdx

/-!
# Inserted lines

A line that is inserted moves those from its place on down by one. If it is no delimiter and
declares no key, the first two delimiters and the keys of the index stand on the lines to which
their lines have moved.
-/

namespace FrontLint

/-- The number of a line once another line is inserted at a place. -/
def shift (p i : Nat) : Nat := if i < p then i else i + 1

theorem shift_of_lt {p i : Nat} (h : i < p) : shift p i = i := if_pos h

theorem shift_of_le {p i : Nat} (h : p ≤ i) : shift p i = i + 1 := if_neg (Nat.not_lt.2 h)

theorem shift_lt_shift_iff {p i j : Nat} : shift p i < shift p j ↔ i < j := by
  simp only [shift]
  split <;> split <;> omega

theorem shift_inj {p i j : Nat} : shift p i = shift p j ↔ i = j := by
  simp only [shift]
  split <;> split <;> omega

theorem le_shift (p i : Nat) : i ≤ shift p i := by
  simp only [shift]
  split <;> omega

theorem shift_le (p i : Nat) : shift p i ≤ i + 1 := by
  simp only [shift]
  split <;> omega

theorem shift_ne (p i : Nat) : shift p i ≠ p := by
  simp only [shift]
  split <;> omega

/-- A line is the inserted one or was there before. -/
theorem eq_or_exists_shift_eq (p j : Nat) : j = p ∨ ∃ i, shift p i = j := by
  rcases Nat.lt_trichotomy j p with hlt | heq | hgt
  · exact .inr ⟨j, shift_of_lt hlt⟩
  · exact .inl heq
  · refine .inr ⟨j - 1, ?_⟩
    rw [shift_of_le (by omega)]
    omega

theorem getElem?_insertIdx_shift {α : Type*} (l : List α) (a : α) (p i : Nat) :
    (l.insertIdx p a)[shift p i]? = l[i]? := by
  by_cases hlt : i < p
  · rw [shift_of_lt hlt, List.getElem?_insertIdx_of_lt hlt]
  · rw [shift_of_le (Nat.not_lt.1 hlt), List.getElem?_insertIdx_of_gt (by omega)]
    rfl

/-- A line of its own that is no delimiter and declares no key. -/
structure IsInert (line : Text) : Prop where
  lineFeed_not_mem : lineFeed ∉ line
  isDelimiter_eq : isDelimiter line = false
  declaredKey?_eq : declaredKey? line = none

instance (line : Text) : Decidable (IsInert line) :=
  decidable_of_iff (lineFeed ∉ line ∧ isDelimiter line = false ∧ declaredKey? line = none)
    ⟨fun h => ⟨h.1, h.2.1, h.2.2⟩,
      fun h => ⟨h.lineFeed_not_mem, h.isDelimiter_eq, h.declaredKey?_eq⟩⟩

theorem splitLines_joinLines_insertIdx (document : Text) {line : Text} (h : lineFeed ∉ line)
    (p : Nat) : splitLines (joinLines ((splitLines document).insertIdx p line)) =
      (splitLines document).insertIdx p line := by
  apply splitLines_joinLines
  · intro hnil
    have hsub := List.subset_insertIdx (splitLines document) p line
    rw [hnil] at hsub
    exact splitLines_ne_nil document (List.eq_nil_of_subset_nil hsub)
  · intro other hother
    rcases List.eq_or_mem_of_mem_insertIdx hother with rfl | hmem
    · exact h
    · exact not_mem_of_mem_splitLines hmem

section

variable {lines : List Text} {line : Text} {p : Nat}

theorem isDelimiterAt_insertIdx_shift (lines : List Text) (line : Text) (p i : Nat) :
    isDelimiterAt (lines.insertIdx p line) (shift p i) = isDelimiterAt lines i := by
  rw [isDelimiterAt, getElem?_insertIdx_shift, isDelimiterAt]

theorem isDelimiterAt_insertIdx_self (h : IsInert line) :
    isDelimiterAt (lines.insertIdx p line) p = false := by
  rw [isDelimiterAt, List.getElem?_insertIdx_self]
  split
  · exact h.isDelimiter_eq
  · rfl

/-- The first two delimiters move with their lines. -/
theorem Span.find?_insertIdx {span : Span} (hspan : Span.find? lines = some span)
    (h : IsInert line) :
    Span.find? (lines.insertIdx p line) =
      some ⟨shift p span.opening, shift p span.closing⟩ := by
  obtain ⟨hlt, hopening, hclosing, hother⟩ := Span.find?_eq_some_iff.1 hspan
  refine Span.find?_eq_some_iff.2 ⟨shift_lt_shift_iff.2 hlt, ?_, ?_, ?_⟩
  · rw [isDelimiterAt_insertIdx_shift]
    exact hopening
  · rw [isDelimiterAt_insertIdx_shift]
    exact hclosing
  · intro j hj hne
    rcases eq_or_exists_shift_eq p j with rfl | ⟨i, rfl⟩
    · exact isDelimiterAt_insertIdx_self h
    · rw [isDelimiterAt_insertIdx_shift]
      exact hother i (shift_lt_shift_iff.1 hj) fun heq => hne (heq ▸ rfl)

namespace KeyIndex

/-- The keys of an index stand on the lines to which those of another one have moved. -/
def HasMoved (index : KeyIndex) (p : Nat) (index' : KeyIndex) : Prop :=
  ∀ key, index'.line? key = (index.line? key).map fun i => (shift p i.toNat : Int)

theorem declares_insertIdx_shift (lines : List Text) (line key : Text) (p i : Nat) :
    declares (lines.insertIdx p line) key (shift p i) = declares lines key i := by
  rw [declares, getElem?_insertIdx_shift, declares]

theorem declares_insertIdx_self (h : IsInert line) (key : Text) :
    declares (lines.insertIdx p line) key p = false := by
  rw [declares, List.getElem?_insertIdx_self]
  split
  · rw [Option.bind_some, h.declaredKey?_eq]
    rfl
  · rfl

/-- A line that has moved is the last one of a key, if it was that before. -/
theorem isLast_insertIdx_iff (h : IsInert line) {key : Text} {closing n : Nat} :
    (∀ m, shift p n < m → m < shift p closing →
        declares (lines.insertIdx p line) key m = false) ↔
      ∀ m, n < m → m < closing → declares lines key m = false := by
  constructor
  · intro hlast m hnm hm
    rw [← declares_insertIdx_shift lines line key p]
    exact hlast _ (shift_lt_shift_iff.2 hnm) (shift_lt_shift_iff.2 hm)
  · intro hlast j hnj hj
    rcases eq_or_exists_shift_eq p j with rfl | ⟨m, rfl⟩
    · exact declares_insertIdx_self h key
    · rw [declares_insertIdx_shift]
      exact hlast m (shift_lt_shift_iff.1 hnj) (shift_lt_shift_iff.1 hj)

/-- The keys of an index move with their lines. -/
theorem hasMoved_insertIdx {opening closing : Nat} {index index' : KeyIndex}
    (hindex : ofLines? lines opening closing = some index)
    (hindex' : ofLines? (lines.insertIdx p line) (shift p opening : Nat) (shift p closing : Nat) =
      some index') (h : IsInert line) : index.HasMoved p index' := by
  intro key
  ext j
  rw [line?_eq_some_iff hindex', Option.map_eq_some_iff]
  constructor
  · rintro ⟨m, rfl, hopening, hclosing, hkey, hlast⟩
    rcases eq_or_exists_shift_eq p m with rfl | ⟨n, rfl⟩
    · rw [declares_insertIdx_self h] at hkey
      cases hkey
    · rw [declares_insertIdx_shift] at hkey
      exact ⟨n, (line?_eq_some_iff hindex).2 ⟨n, rfl, shift_lt_shift_iff.1 hopening,
        shift_lt_shift_iff.1 hclosing, hkey, (isLast_insertIdx_iff h).1 hlast⟩, rfl⟩
  · rintro ⟨i, hi, rfl⟩
    obtain ⟨n, rfl, hopening, hclosing, hkey, hlast⟩ := (line?_eq_some_iff hindex).1 hi
    refine ⟨shift p n, rfl, shift_lt_shift_iff.2 hopening, shift_lt_shift_iff.2 hclosing, ?_,
      (isLast_insertIdx_iff h).2 hlast⟩
    rw [declares_insertIdx_shift]
    exact hkey

/-- A block with an inserted line has the index of the block, moved. -/
theorem exists_ofLines?_insertIdx {closing : Nat} (hlt : closing < lines.length) (hpos : 0 < p)
    (hp : p ≤ closing) (h : IsInert line) :
    ∃ index index', ofLines? lines 0 closing = some index ∧
      ofLines? (lines.insertIdx p line) 0 (closing + 1 : Nat) = some index' ∧
      index.HasMoved p index' := by
  obtain ⟨index, hindex⟩ :=
    Option.isSome_iff_exists.1 (ofLines?_isSome 0 closing (Nat.le_of_lt hlt))
  have hlength : closing + 1 ≤ (lines.insertIdx p line).length := by
    rw [List.length_insertIdx_of_le_length (by omega)]
    omega
  obtain ⟨index', hindex'⟩ := Option.isSome_iff_exists.1 (ofLines?_isSome 0 (closing + 1) hlength)
  refine ⟨index, index', hindex, hindex', hasMoved_insertIdx hindex ?_ h⟩
  rw [shift_of_lt hpos, shift_of_le hp]
  exact hindex'

end KeyIndex

end

end FrontLint
