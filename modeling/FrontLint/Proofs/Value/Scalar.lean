import FrontLint.Document.Lines
import FrontLint.Value.Text
import Mathlib.Data.List.Basic

/-!
# Texts of scalars

The text of a whole number, a float, a date or a moment is one line: there is something in it,
and no line feed. All of them are made of digits, marks between them and fixed words.
-/

namespace FrontLint

/-- Characters without a line feed, and at least one of them. -/
structure IsLine (cs : List Char) : Prop where
  ne_nil : cs ≠ []
  lineFeed_not_mem : '\n' ∉ cs

instance (cs : List Char) : Decidable (IsLine cs) :=
  decidable_of_iff (cs ≠ [] ∧ '\n' ∉ cs)
    ⟨fun h => ⟨h.1, h.2⟩, fun h => ⟨h.ne_nil, h.lineFeed_not_mem⟩⟩

theorem IsLine.append {cs rest : List Char} (h : IsLine cs) (hrest : '\n' ∉ rest) :
    IsLine (cs ++ rest) :=
  ⟨by simp [h.ne_nil], by simp [h.lineFeed_not_mem, hrest]⟩

@[simp] theorem lineFeed_not_mem_toDigits (n : Nat) : '\n' ∉ Nat.toDigits 10 n := by
  intro h
  have hdigit := Nat.isDigit_of_mem_toDigits (by decide) (by decide) h
  revert hdigit
  decide

theorem isLine_int (n : Int) : IsLine (toString n).toList := by
  cases n with
  | ofNat n =>
      have htext : (toString (Int.ofNat n)).toList = Nat.toDigits 10 n := by
        rw [show toString (Int.ofNat n) = n.repr from rfl, Nat.toList_repr]
      rw [htext]
      exact ⟨Nat.toDigits_ne_nil, lineFeed_not_mem_toDigits n⟩
  | negSucc n =>
      have htext : (toString (Int.negSucc n)).toList = '-' :: Nat.toDigits 10 (n + 1) := by
        rw [show toString (Int.negSucc n) = "-" ++ (n + 1).repr from rfl, String.toList_append,
          Nat.toList_repr]
        rfl
      rw [htext]
      exact ⟨by simp, by simp⟩

/-! ## Dates and moments -/

@[simp] theorem lineFeed_not_mem_padded (width n : Nat) : '\n' ∉ (padded width n).toList := by
  simp [padded]

theorem Date.isLine_text (d : Date) : IsLine d.text.toList := by
  have htext : d.text =
      padded 4 d.year ++ "-" ++ padded 2 d.month ++ "-" ++ padded 2 d.day := rfl
  rw [htext]
  exact ⟨by simp, by simp⟩

theorem lineFeed_not_mem_offsetText (minutes : Int) : '\n' ∉ (offsetText minutes).toList := by
  have htext : offsetText minutes = (if minutes < 0 then "-" else "+") ++
      padded 2 (minutes.natAbs / 60) ++ ":" ++ padded 2 (minutes.natAbs % 60) := rfl
  rw [htext]
  split <;> simp

theorem Moment.isLine_text (m : Moment) : IsLine m.text.toList := by
  have htext : m.text = m.date.text ++ " " ++ padded 2 m.hour ++ ":" ++ padded 2 m.minute ++
      ":" ++ padded 2 m.second ++
      (if m.microsecond = 0 then "" else "." ++ padded 6 m.microsecond) ++
      (m.offset.map offsetText).getD "" := rfl
  have hdate := m.date.isLine_text.lineFeed_not_mem
  have hoffset : '\n' ∉ ((m.offset.map offsetText).getD "").toList := by
    cases m.offset with
    | none => decide
    | some minutes => exact lineFeed_not_mem_offsetText minutes
  rw [htext]
  constructor
  case ne_nil => simp
  case lineFeed_not_mem => split <;> simp [hdate, hoffset]

/-! ## Floats -/

namespace FloatText

theorem lineFeed_not_mem_ofScaled (k : Nat) (grid : Int) :
    '\n' ∉ (Digits.ofScaled k grid).digits := by
  intro h
  rw [Digits.ofScaled, dropEndZeros, List.mem_reverse] at h
  have hmem := (List.dropWhile_suffix _).subset h
  exact lineFeed_not_mem_toDigits k (List.mem_reverse.1 hmem)

theorem exists_shortest_eq (significand : Nat) (exponent : Int) :
    ∃ k grid, shortest significand exponent = Digits.ofScaled k grid := by
  unfold shortest
  generalize Binary64.fraction significand exponent = fraction
  obtain ⟨num, den⟩ := fraction
  dsimp only
  split
  · exact ⟨_, _, rfl⟩
  · exact ⟨_, _, rfl⟩

theorem lineFeed_not_mem_shortest (significand : Nat) (exponent : Int) :
    '\n' ∉ (shortest significand exponent).digits := by
  obtain ⟨k, grid, h⟩ := exists_shortest_eq significand exponent
  rw [h]
  exact lineFeed_not_mem_ofScaled k grid

variable {digits : List Char}

theorem isLine_positional (h : '\n' ∉ digits) (pointed : Bool) (exponent : Int) :
    IsLine (positional pointed digits exponent) := by
  unfold positional
  split
  · exact ⟨by simp, by simp [h]⟩
  · dsimp only
    generalize hcount : exponent.natAbs + 1 = count
    have hdrop : '\n' ∉ digits.drop count := fun hm => h (List.mem_of_mem_drop hm)
    have hwhole : IsLine (digits.take count ++ List.replicate (count - digits.length) '0') := by
      constructor
      case ne_nil =>
        intro hnil
        have hlength := congrArg List.length hnil
        rw [List.length_append, List.length_take, List.length_replicate, List.length_nil] at hlength
        omega
      case lineFeed_not_mem =>
        have htake : '\n' ∉ digits.take count := fun hm => h (List.mem_of_mem_take hm)
        simp [htake]
    split
    · split
      · exact hwhole.append (by decide)
      · exact hwhole
    · exact hwhole.append (by simp [hdrop])

theorem isLine_scientific (h : '\n' ∉ digits) (exponent : Int) :
    IsLine (scientific digits exponent) := by
  unfold scientific
  dsimp only
  split
  · constructor
    case ne_nil => simp
    case lineFeed_not_mem => split <;> simp_all
  · constructor
    case ne_nil => simp
    case lineFeed_not_mem => split <;> simp_all

theorem Layout.isLine_text (layout : Layout) {digitsOf : Nat → Int → Digits}
    (h : ∀ m e, '\n' ∉ (digitsOf m e).digits) (x : Binary64) :
    IsLine (layout.text digitsOf x).toList := by
  cases x with
  | nan => exact (by decide : IsLine "nan".toList)
  | infinite negative =>
      cases negative with
      | true => exact (by decide : IsLine "-inf".toList)
      | false => exact (by decide : IsLine "inf".toList)
  | finite negative significand exponent =>
      have hbody : IsLine (if significand = 0 then positional layout.pointed ['0'] 0
          else layout.write (digitsOf significand exponent)) := by
        split
        · exact isLine_positional (by decide) layout.pointed 0
        · rw [Layout.write]
          split
          · exact isLine_positional (h significand exponent) layout.pointed _
          · exact isLine_scientific (h significand exponent) _
      rw [Layout.text, String.toList_ofList]
      split
      · exact ⟨by simp, by simp [hbody.lineFeed_not_mem]⟩
      · exact hbody

end FloatText

theorem Binary64.isLine_shortestText (x : Binary64) : IsLine x.shortestText.toList :=
  FloatText.valueLayout.isLine_text FloatText.lineFeed_not_mem_shortest x

end FrontLint
