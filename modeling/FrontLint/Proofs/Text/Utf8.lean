import FrontLint.Text.Utf8
import Mathlib.Data.List.Basic

/-!
# Encoding and decoding

Decoding the bytes of characters gives the characters back, one piece for each. The byte of
a line feed occurs in the bytes of no other character, so lines can be split before or after
encoding. Only a carriage return is changed when line ends are read.
-/

namespace FrontLint

namespace Utf8

theorem toNat_tailByte (n : Nat) : (tailByte n).toNat = 0x80 + n % 64 := by
  rw [tailByte, UInt8.toNat_ofNat']
  omega

theorem toNat_ofNat_of_lt {n : Nat} (h : n < 256) : (UInt8.ofNat n).toNat = n := by
  rw [UInt8.toNat_ofNat']
  omega

/-- A byte in the range of a pending character is taken into it. -/
theorem piecesAfter_some {p : Pending} {b : UInt8} (rest : Bytes)
    (h : p.low ≤ b.toNat ∧ b.toNat ≤ p.high) :
    piecesAfter (some p) (b :: rest) =
      if p.missing = 1 then
        .char (Char.ofNat (p.bits * 64 + (b.toNat - 0x80))) :: piecesAfter none rest
      else
        piecesAfter (some ⟨p.first, p.count + 1, p.missing - 1,
          p.bits * 64 + (b.toNat - 0x80), 0x80, 0xBF⟩) rest := by
  rw [piecesAfter, if_pos h]

theorem piecesAfter_none_ok {b : UInt8} {p : Pending} (rest : Bytes) (h : begin? b = .ok p) :
    piecesAfter none (b :: rest) = piecesAfter (some p) rest := by
  rw [piecesAfter, h]

theorem toNat_lt_or (c : Char) : c.toNat < 0xD800 ∨ (0xDFFF < c.toNat ∧ c.toNat < 0x110000) :=
  c.valid

/-- The bytes of a character are read as one piece. -/
theorem piecesAfter_encodeChar (c : Char) (rest : Bytes) :
    piecesAfter none (encodeChar c ++ rest) = .char c :: piecesAfter none rest := by
  have hvalid := toNat_lt_or c
  have hself : Char.ofNat c.toNat = c := Char.ofNat_toNat c
  simp only [encodeChar]
  generalize hn : c.toNat = n at hvalid hself ⊢
  split
  · rename_i h1
    have hb : (UInt8.ofNat n).toNat = n := toNat_ofNat_of_lt (by omega)
    have hbegin : begin? (UInt8.ofNat n) = .error (.char c) := by
      rw [begin?, hb, if_pos h1, hself]
    rw [List.singleton_append, piecesAfter, hbegin]
  · rename_i h1
    split
    · rename_i h2
      have hb : (UInt8.ofNat (0xC0 + n / 64)).toNat = 0xC0 + n / 64 :=
        toNat_ofNat_of_lt (by omega)
      have hbegin : begin? (UInt8.ofNat (0xC0 + n / 64)) =
          .ok ⟨UInt8.ofNat (0xC0 + n / 64), 1, 1, n / 64, 0x80, 0xBF⟩ := by
        simp only [begin?, hb]
        rw [if_neg (by omega), if_neg (by omega), if_pos (by omega), Nat.add_sub_cancel_left]
      have hbits : n / 64 * 64 + (0x80 + n % 64 - 0x80) = n := by omega
      simp only [List.cons_append, List.nil_append]
      rw [piecesAfter_none_ok _ hbegin, piecesAfter_some _ (by simp only [toNat_tailByte]; omega)]
      simp only [toNat_tailByte, if_true, hbits, hself]
    · rename_i h2
      split
      · rename_i h3
        have hb : (UInt8.ofNat (0xE0 + n / 4096)).toNat = 0xE0 + n / 4096 :=
          toNat_ofNat_of_lt (by omega)
        have hbegin : begin? (UInt8.ofNat (0xE0 + n / 4096)) =
            .ok ⟨UInt8.ofNat (0xE0 + n / 4096), 1, 2, n / 4096,
              if 0xE0 + n / 4096 = 0xE0 then 0xA0 else 0x80,
              if 0xE0 + n / 4096 = 0xED then 0x9F else 0xBF⟩ := by
          simp only [begin?, hb]
          rw [if_neg (by omega), if_neg (by omega), if_neg (by omega), if_pos (by omega),
            Nat.add_sub_cancel_left]
        have hrange : (if 0xE0 + n / 4096 = 0xE0 then 0xA0 else 0x80) ≤ 0x80 + n / 64 % 64 ∧
            0x80 + n / 64 % 64 ≤ (if 0xE0 + n / 4096 = 0xED then 0x9F else 0xBF) := by
          constructor <;> split <;> omega
        have hbits : (n / 4096 * 64 + (0x80 + n / 64 % 64 - 0x80)) * 64 +
            (0x80 + n % 64 - 0x80) = n := by omega
        simp only [List.cons_append, List.nil_append]
        rw [piecesAfter_none_ok _ hbegin,
          piecesAfter_some _ (by simpa only [toNat_tailByte] using hrange),
          if_neg (by simp), piecesAfter_some _ (by simp only [toNat_tailByte]; omega)]
        simp only [toNat_tailByte, Nat.add_one_sub_one, if_true, hbits, hself]
      · rename_i h3
        have hb : (UInt8.ofNat (0xF0 + n / 262144)).toNat = 0xF0 + n / 262144 :=
          toNat_ofNat_of_lt (by omega)
        have hbegin : begin? (UInt8.ofNat (0xF0 + n / 262144)) =
            .ok ⟨UInt8.ofNat (0xF0 + n / 262144), 1, 3, n / 262144,
              if 0xF0 + n / 262144 = 0xF0 then 0x90 else 0x80,
              if 0xF0 + n / 262144 = 0xF4 then 0x8F else 0xBF⟩ := by
          simp only [begin?, hb]
          rw [if_neg (by omega), if_neg (by omega), if_neg (by omega), if_neg (by omega),
            if_pos (by omega), Nat.add_sub_cancel_left]
        have hrange : (if 0xF0 + n / 262144 = 0xF0 then 0x90 else 0x80) ≤ 0x80 + n / 4096 % 64 ∧
            0x80 + n / 4096 % 64 ≤ (if 0xF0 + n / 262144 = 0xF4 then 0x8F else 0xBF) := by
          constructor <;> split <;> omega
        have hbits : ((n / 262144 * 64 + (0x80 + n / 4096 % 64 - 0x80)) * 64 +
            (0x80 + n / 64 % 64 - 0x80)) * 64 + (0x80 + n % 64 - 0x80) = n := by omega
        simp only [List.cons_append, List.nil_append]
        rw [piecesAfter_none_ok _ hbegin,
          piecesAfter_some _ (by simpa only [toNat_tailByte] using hrange),
          if_neg (by simp), piecesAfter_some _ (by simp only [toNat_tailByte]; omega),
          if_neg (by simp), piecesAfter_some _ (by simp only [toNat_tailByte]; omega)]
        simp only [toNat_tailByte, Nat.add_one_sub_one, if_true, hbits, hself]

theorem pieces_encodeChars (cs : List Char) : pieces (encodeChars cs) = cs.map .char := by
  induction cs with
  | nil => rfl
  | cons c cs ih =>
      rw [pieces, encodeChars, List.flatMap_cons, piecesAfter_encodeChar]
      exact congrArg _ ih

@[simp] theorem decodeLossy_encodeChars (cs : List Char) : decodeLossy (encodeChars cs) = cs := by
  rw [decodeLossy, pieces_encodeChars, List.map_map]
  exact List.map_id cs

theorem charsOfPieces_map_char (position : Nat) (cs : List Char) :
    charsOfPieces position (cs.map .char) = .ok cs := by
  induction cs generalizing position with
  | nil => rfl
  | cons c cs ih =>
      rw [List.map_cons, charsOfPieces, ih]
      rfl

@[simp] theorem decode_encodeChars (cs : List Char) : decode (encodeChars cs) = .ok cs := by
  rw [decode, pieces_encodeChars, charsOfPieces_map_char]

@[simp] theorem encodeChars_nil : encodeChars [] = [] := rfl

@[simp] theorem encodeChars_cons (c : Char) (cs : List Char) :
    encodeChars (c :: cs) = encodeChar c ++ encodeChars cs := rfl

@[simp] theorem encodeChars_append (a b : List Char) :
    encodeChars (a ++ b) = encodeChars a ++ encodeChars b := by
  simp [encodeChars]

/-- The byte that ends a line. -/
def lineFeedByte : UInt8 := 10

theorem encodeChar_lineFeed : encodeChar '\n' = [lineFeedByte] := by decide

theorem lineFeedByte_not_mem_encodeChar {c : Char} (h : c ≠ '\n') :
    lineFeedByte ∉ encodeChar c := by
  have hne : c.toNat ≠ 10 := by
    intro hn
    apply h
    rw [← Char.ofNat_toNat c, hn]
  have hlt : c.toNat < 0x110000 := by
    rcases toNat_lt_or c with hlow | hhigh <;> omega
  have hbyte : ∀ n, n < 256 → n ≠ 10 → lineFeedByte ≠ UInt8.ofNat n := by
    intro n hn hten heq
    apply hten
    rw [← toNat_ofNat_of_lt hn, ← heq]
    rfl
  have htail : ∀ n, lineFeedByte ≠ tailByte n := fun n => hbyte _ (by omega) (by omega)
  simp only [encodeChar]
  split
  · have hfirst := hbyte c.toNat (by omega) hne
    simp [hfirst]
  · split
    · have hfirst := hbyte (0xC0 + c.toNat / 64) (by omega) (by omega)
      simp only [List.mem_cons, List.not_mem_nil, hfirst, htail, or_self, not_false_eq_true]
    · split
      · have hfirst := hbyte (0xE0 + c.toNat / 4096) (by omega) (by omega)
        simp only [List.mem_cons, List.not_mem_nil, hfirst, htail, or_self, not_false_eq_true]
      · have hfirst := hbyte (0xF0 + c.toNat / 262144) (by omega) (by omega)
        simp only [List.mem_cons, List.not_mem_nil, hfirst, htail, or_self, not_false_eq_true]

theorem lineFeedByte_not_mem_encodeChars {cs : List Char} (h : '\n' ∉ cs) :
    lineFeedByte ∉ encodeChars cs := by
  intro hm
  obtain ⟨c, hc, hbyte⟩ := List.mem_flatMap.1 hm
  refine lineFeedByte_not_mem_encodeChar ?_ hbyte
  rintro rfl
  exact h hc

theorem encodeChars_eq_nil_iff {cs : List Char} : encodeChars cs = [] ↔ cs = [] := by
  constructor
  · intro h
    have hd := congrArg decodeLossy h
    rw [decodeLossy_encodeChars] at hd
    exact hd
  · rintro rfl
    rfl

theorem encode_eq_ok {t : Text} {content : Bytes} (h : encode t = .ok content) :
    content = encodeChars t.toChars := by
  rw [encode] at h
  split at h
  · cases h
  · cases h
    rfl

theorem eq_ofChars_of_firstHalves? {position : Nat} {t : Text}
    (h : firstHalves? position t = none) : t = Text.ofChars t.toChars := by
  induction t generalizing position with
  | nil => rfl
  | cons c t ih =>
      cases c with
      | char a =>
          rw [firstHalves?] at h
          exact congrArg (Code.char a :: ·) (ih h)
      | half offset => cases h

/-- What can be encoded has characters only. -/
theorem eq_ofChars_of_encode {t : Text} {content : Bytes} (h : encode t = .ok content) :
    t = Text.ofChars t.toChars := by
  rw [encode] at h
  split at h
  · cases h
  · rename_i hnone
    exact eq_ofChars_of_firstHalves? hnone

end Utf8

theorem unifyLineEnds_of_not_mem {cs : List Char} (h : '\r' ∉ cs) : unifyLineEnds cs = cs := by
  induction cs with
  | nil => rfl
  | cons c cs ih =>
      simp only [List.mem_cons, not_or] at h
      have hc : c ≠ '\r' := Ne.symm h.1
      rw [unifyLineEnds, if_neg hc, ih h.2]
      intro rest hr
      exact absurd hr hc

theorem carriageReturn_not_mem_unifyLineEnds (cs : List Char) : '\r' ∉ unifyLineEnds cs := by
  fun_induction unifyLineEnds cs with
  | case1 => simp
  | case2 rest ih => simp [ih]
  | case3 c rest hnot ih =>
      by_cases hc : c = '\r'
      · simp [hc, ih]
      · simp [hc, ih, Ne.symm hc]

/-- Reading line ends changes a text exactly if there is a carriage return in it. -/
theorem unifyLineEnds_eq_self_iff {cs : List Char} : unifyLineEnds cs = cs ↔ '\r' ∉ cs := by
  constructor
  · intro h
    rw [← h]
    exact carriageReturn_not_mem_unifyLineEnds cs
  · exact unifyLineEnds_of_not_mem

end FrontLint
