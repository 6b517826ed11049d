/-!
# Texts

A text is a list of code points. An escape in a metadata block can write half of a
surrogate pair alone, so a code point is a character or such a half.
-/

namespace FrontLint

/-- A code point: a character, or half of a surrogate pair, counted from U+D800. -/
inductive Code where
  | char (c : Char)
  | half (offset : Fin 0x800)
deriving DecidableEq

instance : Inhabited Code := ⟨.char ' '⟩

/-- Whether a number lies in one of the closed ranges. -/
def inRanges (ranges : List (Nat × Nat)) (n : Nat) : Bool :=
  ranges.any fun r => r.1 ≤ n && n ≤ r.2

namespace Code

def point : Code → Nat
  | .char c => c.toNat
  | .half h => 0xD800 + h.val

/-- The code point of a number below 0x110000; larger numbers give the replacement
character. -/
def ofPoint (n : Nat) : Code :=
  if h : 0xD800 ≤ n ∧ n < 0xE000 then .half ⟨n - 0xD800, by omega⟩
  else if n < 0x110000 then .char (Char.ofNat n)
  else .char '\uFFFD'

def char? : Code → Option Char
  | .char c => some c
  | .half _ => none

@[simp] theorem point_char (c : Char) : (Code.char c).point = c.toNat := rfl

@[simp] theorem char?_char (c : Char) : (Code.char c).char? = some c := rfl

end Code

abbrev Text := List Code

namespace Text

def ofChars (cs : List Char) : Text := cs.map .char

def ofString (s : String) : Text := ofChars s.toList

/-- The characters of a text; a surrogate half reads as the replacement character. -/
def toChars (t : Text) : List Char := t.map fun c => c.char?.getD '\uFFFD'

def toString (t : Text) : String := String.ofList t.toChars

/-- The characters of a text that holds no surrogate half. -/
def chars? (t : Text) : Option (List Char) := t.mapM Code.char?

instance : Coe String Text := ⟨ofString⟩

@[simp] theorem ofChars_nil : ofChars [] = [] := rfl

@[simp] theorem ofChars_cons (c : Char) (cs : List Char) :
    ofChars (c :: cs) = .char c :: ofChars cs := rfl

@[simp] theorem ofChars_append (a b : List Char) :
    ofChars (a ++ b) = ofChars a ++ ofChars b := by
  simp [ofChars]

@[simp] theorem toChars_ofChars (cs : List Char) : (ofChars cs).toChars = cs := by
  induction cs with
  | nil => rfl
  | cons c cs ih => simp_all [ofChars, toChars]

theorem ofChars_inj {cs ds : List Char} : ofChars cs = ofChars ds ↔ cs = ds := by
  constructor
  · intro h
    rw [← toChars_ofChars cs, h, toChars_ofChars]
  · rintro rfl
    rfl

@[simp] theorem toString_ofString (s : String) : (ofString s).toString = s := by
  simp [ofString, toString]

theorem chars?_eq_some_iff {t : Text} {cs : List Char} :
    t.chars? = some cs ↔ t = ofChars cs := by
  induction t generalizing cs with
  | nil => cases cs <;> simp [chars?]
  | cons c t ih =>
    simp only [chars?] at ih ⊢
    cases c with
    | char a =>
      cases h : t.mapM Code.char? with
      | none =>
        cases cs with
        | nil => simp [List.mapM_cons, h]
        | cons b cs => simpa [List.mapM_cons, h] using fun _ e => by simpa [h] using ih.2 e
      | some ds =>
        have := ih.1 h
        cases cs with
        | nil => simp [List.mapM_cons, h]
        | cons b cs => simp [List.mapM_cons, h, ← ih]
    | half h => cases cs <;> simp [List.mapM_cons, Code.char?]

end Text

end FrontLint
