import FrontLint.Document.KeyIndex
import FrontLint.Proofs.Text.Blank

/-!
# The lines of the keys

A key of the index stands on the last line between the two ends of the block that declares
it. A line that declares a key begins with the key and a colon, without a blank in front.
-/

namespace FrontLint

theorem takeWhile_append_isPrefix {p : Code → Bool} {t : Text} {c : Code}
    (h : t[(t.takeWhile p).length]? = some c) : t.takeWhile p ++ [c] <+: t := by
  have ht : t.takeWhile p ++ t.dropWhile p = t := List.takeWhile_append_dropWhile
  generalize t.takeWhile p = front at h ht ⊢
  rw [← ht, List.getElem?_append_right (Nat.le_refl _), Nat.sub_self] at h
  obtain ⟨back, hback⟩ : ∃ back, t.dropWhile p = c :: back := by
    cases hd : t.dropWhile p with
    | nil => simp [hd] at h
    | cons d back => exact ⟨back, by simpa [hd] using h⟩
  exact ⟨back, by rw [← ht, hback, List.append_assoc, List.singleton_append]⟩

/-- A line that does not begin with a blank and, without the blanks at its end, begins with a
key, a run of word characters, and a colon. -/
structure Declares (line key : Text) : Prop where
  isBlank_head : ∀ c ∈ line.head?, c.isBlank = false
  key_ne_nil : key ≠ []
  isWord_of_mem : ∀ c ∈ key, c.isWord = true
  isPrefix : key ++ [colon] <+: line.stripEnd

theorem isBlank_head_iff {line : Text} :
    (line.head?.map Code.isBlank).getD false = false ↔ ∀ c ∈ line.head?, c.isBlank = false := by
  cases line <;> simp

/-- The longest run of word characters is the only one with a colon behind it. -/
theorem declaredKey?_eq_some_iff {line key : Text} :
    declaredKey? line = some key ↔ Declares line key := by
  simp only [declaredKey?, Option.ite_none_left_eq_some, Option.ite_none_right_eq_some,
    Bool.not_eq_true, isBlank_head_iff, Option.some.injEq]
  constructor
  · rintro ⟨hhead, ⟨hne, hcolon⟩, rfl⟩
    exact ⟨hhead, hne, List.all_eq_true.1 List.all_takeWhile, takeWhile_append_isPrefix hcolon⟩
  · rintro ⟨hhead, hne, hword, back, hback⟩
    have hkey : line.stripEnd.takeWhile Code.isWord = key := by
      rw [← hback, List.append_assoc, List.takeWhile_append_of_pos hword,
        List.singleton_append, List.takeWhile_cons_of_neg (by decide), List.append_nil]
    have hcolon : line.stripEnd[key.length]? = some colon := by
      rw [← hback]
      simp
    exact ⟨hhead, by rw [hkey]; exact ⟨hne, hcolon⟩, hkey⟩

/-- A line that declares a key is not indented and begins with the key, a run of word
characters, and a colon. -/
theorem isPrefix_of_declaredKey? {line key : Text} (h : declaredKey? line = some key) :
    (line.head?.map Code.isBlank).getD false = false ∧ key ≠ [] ∧ key.all Code.isWord = true ∧
      key ++ [colon] <+: line := by
  obtain ⟨hhead, hne, hword, hprefix⟩ := declaredKey?_eq_some_iff.1 h
  exact ⟨isBlank_head_iff.2 hhead, hne, List.all_eq_true.2 hword,
    hprefix.trans (isPrefix_dropEndWhile Code.isBlank line)⟩

namespace KeyIndex

/-- Whether the line of a number declares a key. -/
def declares (lines : List Text) (key : Text) (i : Nat) : Bool :=
  lines[i]?.bind declaredKey? == some key

theorem declares_iff {lines : List Text} {key : Text} {i : Nat} :
    declares lines key i = true ↔ ∃ line, lines[i]? = some line ∧ declaredKey? line = some key := by
  simp [declares, Option.bind_eq_some_iff]

/-- A line declares one key at most. -/
theorem declares_inj {lines : List Text} {key other : Text} {i : Nat}
    (h : declares lines key i = true) (h' : declares lines other i = true) : key = other := by
  simp only [declares, beq_iff_eq] at h h'
  exact Option.some.inj (h.symm.trans h')

/-- Let the key that a line declares, if it does, stand on it. -/
def addLine (index : KeyIndex) (line : Text) (i : Int) : KeyIndex :=
  match declaredKey? line with
  | some key => index.declare key i
  | none => index

theorem line?_addLine (index : KeyIndex) (line : Text) (i : Int) (key : Text) :
    (index.addLine line i).line? key =
      if declaredKey? line = some key then some i else index.line? key := by
  cases h : declaredKey? line with
  | none => simp [addLine, h]
  | some k => simp [addLine, h, line?_declare, eq_comm]

theorem ofNumbers?_append (lines : List Text) (front back : List Int) (index : KeyIndex) :
    ofNumbers? lines (front ++ back) index =
      (ofNumbers? lines front index).bind (ofNumbers? lines back) := by
  induction front generalizing index with
  | nil => rfl
  | cons i front ih =>
      simp only [List.cons_append, ofNumbers?]
      cases lineAt? lines i with
      | none => rfl
      | some line =>
          simp only [Option.bind_eq_bind, Option.bind_some]
          cases declaredKey? line with
          | none => exact ih index
          | some key => exact ih _

theorem ofNumbers?_singleton (lines : List Text) (i : Int) (index : KeyIndex) :
    ofNumbers? lines [i] index = (lineAt? lines i).map fun line => index.addLine line i := by
  simp only [ofNumbers?, addLine]
  cases lineAt? lines i with
  | none => rfl
  | some line => cases h : declaredKey? line <;> simp [h]

theorem interior_of_le {opening closing : Nat} (h : closing ≤ opening + 1) :
    interior opening closing = [] := by
  have : ((closing : Int) - opening - 1).toNat = 0 := by omega
  simp [interior, this]

theorem interior_succ {opening closing : Nat} (h : opening < closing) :
    interior opening (closing + 1 : Nat) = interior opening closing ++ [(closing : Int)] := by
  have hn : (((closing + 1 : Nat) : Int) - opening - 1).toNat =
      ((closing : Int) - opening - 1).toNat + 1 := by omega
  have hlast : (opening : Int) + 1 + (((closing : Int) - opening - 1).toNat : Nat) = closing := by
    omega
  simp only [interior, hn, List.range_succ, List.map_append, List.map_cons, List.map_nil, hlast]

/-- One more line of the block is one more line in the index. -/
theorem ofLines?_succ (lines : List Text) {opening closing : Nat} (h : opening < closing) :
    ofLines? lines opening (closing + 1 : Nat) =
      (ofLines? lines opening closing).bind fun index =>
        lines[closing]?.map fun line => index.addLine line closing := by
  simp only [ofLines?, interior_succ h, ofNumbers?_append]
  cases ofNumbers? lines (interior opening closing) [] with
  | none => rfl
  | some index => simp [ofNumbers?_singleton]

/-- A block inside of the document has an index. -/
theorem ofLines?_isSome {lines : List Text} (opening closing : Nat)
    (h : closing ≤ lines.length) : (ofLines? lines opening closing).isSome = true := by
  induction closing with
  | zero =>
      rw [ofLines?, interior_of_le (by omega)]
      rfl
  | succ closing ih =>
      by_cases hlt : opening < closing
      · obtain ⟨index, hindex⟩ := Option.isSome_iff_exists.1 (ih (by omega))
        have hline : closing < lines.length := by omega
        rw [ofLines?_succ lines hlt]
        simp [hindex, hline]
      · rw [ofLines?, interior_of_le (by omega)]
        rfl

/-- What holds of an empty index and is kept by every line of a block holds of its index. -/
theorem ofLines?_induction {lines : List Text} {opening : Nat} {motive : Nat → KeyIndex → Prop}
    (empty : ∀ closing, closing ≤ opening + 1 → motive closing [])
    (line : ∀ closing index line, opening < closing →
      ofLines? lines opening closing = some index → lines[closing]? = some line →
      motive closing index → motive (closing + 1) (index.addLine line closing))
    {closing : Nat} {index : KeyIndex} (h : ofLines? lines opening closing = some index) :
    motive closing index := by
  induction closing generalizing index with
  | zero =>
      rw [ofLines?, interior_of_le (by omega)] at h
      cases h
      exact empty 0 (by omega)
  | succ closing ih =>
      by_cases hlt : opening < closing
      · rw [ofLines?_succ lines hlt, Option.bind_eq_some_iff] at h
        obtain ⟨before, hbefore, h⟩ := h
        obtain ⟨last, hlast, rfl⟩ := Option.map_eq_some_iff.1 h
        exact line closing before last hlt hbefore hlast (ih hbefore)
      · rw [ofLines?, interior_of_le (by omega)] at h
        cases h
        exact empty _ (by omega)

/-- A key stands on the last line that declares it. -/
theorem line?_eq_some_iff {lines : List Text} {opening closing : Nat} {index : KeyIndex}
    (h : ofLines? lines opening closing = some index) {key : Text} {i : Int} :
    index.line? key = some i ↔
      ∃ n : Nat, i = n ∧ opening < n ∧ n < closing ∧ declares lines key n = true ∧
        ∀ m, n < m → m < closing → declares lines key m = false := by
  refine ofLines?_induction (motive := fun closing index => index.line? key = some i ↔
    ∃ n : Nat, i = n ∧ opening < n ∧ n < closing ∧ declares lines key n = true ∧
      ∀ m, n < m → m < closing → declares lines key m = false) ?_ ?_ h
  · intro closing hle
    constructor
    · intro hi
      cases hi
    · rintro ⟨n, _, ho, hn, _⟩
      omega
  · intro closing index line hlt _ hline ih
    rw [line?_addLine]
    by_cases hd : declaredKey? line = some key
    · have hdecl : declares lines key closing = true := declares_iff.2 ⟨line, hline, hd⟩
      rw [if_pos hd]
      constructor
      · intro hi
        cases hi
        exact ⟨closing, rfl, hlt, by omega, hdecl, fun m _ _ => by omega⟩
      · rintro ⟨n, rfl, _, hn, _, hlast⟩
        by_cases hnc : n = closing
        · rw [hnc]
        · have := hlast closing (by omega) (by omega)
          rw [hdecl] at this
          cases this
    · have hdecl : declares lines key closing = false := by
        simp [declares, hline, hd]
      rw [if_neg hd, ih]
      constructor
      · rintro ⟨n, rfl, ho, hn, hkey, hlast⟩
        refine ⟨n, rfl, ho, by omega, hkey, ?_⟩
        intro m hm hmc
        by_cases hmc' : m = closing
        · rwa [hmc']
        · exact hlast m hm (by omega)
      · rintro ⟨n, rfl, ho, hn, hkey, hlast⟩
        have hne : n ≠ closing := by
          rintro rfl
          rw [hdecl] at hkey
          cases hkey
        exact ⟨n, rfl, ho, by omega, hkey, fun m hm hmc => hlast m hm (by omega)⟩

/-- Two keys do not stand on one line. -/
theorem eq_of_line?_eq_some {lines : List Text} {opening closing : Nat} {index : KeyIndex}
    (h : ofLines? lines opening closing = some index) {key other : Text} {i : Int}
    (hkey : index.line? key = some i) (hother : index.line? other = some i) : key = other := by
  obtain ⟨n, rfl, _, _, hn, _⟩ := (line?_eq_some_iff h).1 hkey
  obtain ⟨m, hm, _, _, hm', _⟩ := (line?_eq_some_iff h).1 hother
  obtain rfl : n = m := by exact_mod_cast hm
  exact declares_inj hn hm'

end KeyIndex

end FrontLint
