import FrontLint.Text.Blank
import FrontLint.Text.Word

/-!
# Words

Letters and word characters differ from every mark, and words stand with single spaces between
them.
-/

namespace FrontLint

theorem ne_of_isAlpha {a b : Char} (ha : a.isAlpha = true) (hb : b.isAlpha = false) : a ≠ b := by
  rintro rfl
  rw [ha] at hb
  cases hb

theorem ne_of_isAsciiWord {a b : Char} (ha : isAsciiWord a = true)
    (hb : isAsciiWord b = false) : a ≠ b := by
  rintro rfl
  rw [ha] at hb
  cases hb

theorem isAsciiWord_of_isAlpha {a : Char} (h : a.isAlpha = true) : isAsciiWord a = true := by
  simp [isAsciiWord, Char.isAlphanum, h]

theorem isAlpha_iff {a : Char} : a.isAlpha = true ↔
    65 ≤ a.toNat ∧ a.toNat ≤ 90 ∨ 97 ≤ a.toNat ∧ a.toNat ≤ 122 := by
  change (decide ('A'.val ≤ a.val ∧ a.val ≤ 'Z'.val) ||
    (decide ('a'.val ≤ a.val) && decide (a.val ≤ 'z'.val))) = true ↔ _
  rw [Bool.or_eq_true, Bool.and_eq_true, decide_eq_true_eq, decide_eq_true_eq, decide_eq_true_eq]
  rfl

theorem isDigit_iff {a : Char} : a.isDigit = true ↔ 48 ≤ a.toNat ∧ a.toNat ≤ 57 := by
  change (decide ('0'.val ≤ a.val) && decide (a.val ≤ '9'.val)) = true ↔ _
  rw [Bool.and_eq_true, decide_eq_true_eq, decide_eq_true_eq]
  rfl

/-- Word characters of ASCII lie between the digit zero and the last letter. -/
theorem toNat_of_isAsciiWord {a : Char} (h : isAsciiWord a = true) :
    48 ≤ a.toNat ∧ a.toNat ≤ 122 := by
  rw [isAsciiWord, Bool.or_eq_true, beq_iff_eq] at h
  rcases h with h | rfl
  · rcases Bool.or_eq_true_iff.1 h with h | h
    · have := isAlpha_iff.1 h
      omega
    · have := isDigit_iff.1 h
      omega
  · decide

theorem ne_of_isWord {a b : Char} (ha : (Code.char a).isWord = true)
    (hb : (Code.char b).isWord = false) : a ≠ b := by
  rintro rfl
  rw [ha] at hb
  cases hb

theorem isWord_of_isAsciiWord {a : Char} (h : isAsciiWord a = true) :
    (Code.char a).isWord = true := by
  have := toNat_of_isAsciiWord h
  rw [Code.isWord, if_pos (by omega), h]

theorem isBlank_of_isAsciiWord {a : Char} (h : isAsciiWord a = true) :
    (Code.char a).isBlank = false := by
  obtain ⟨hlo, hhi⟩ := toNat_of_isAsciiWord h
  have hapart : ∀ r ∈ blankRanges, r.2 < 48 ∨ 122 < r.1 := by decide
  rw [Code.isBlank, inRanges, List.any_eq_false]
  intro r hr
  rw [Code.point_char, Bool.and_eq_true, decide_eq_true_eq, decide_eq_true_eq]
  have := hapart r hr
  omega

/-- Words with a space between each and the next. -/
def spaced : List (List Char) → List Char
  | [] => []
  | [w] => w
  | w :: next :: rest => w ++ ' ' :: spaced (next :: rest)

theorem spaced_cons (w : List Char) {words : List (List Char)} (h : words ≠ []) :
    spaced (w :: words) = w ++ ' ' :: spaced words := by
  cases words with
  | nil => exact absurd rfl h
  | cons next rest => rfl

theorem exists_spaced_eq_cons {w : List Char} (hne : w ≠ []) (words : List (List Char)) :
    ∃ a tail, a ∈ w ∧ spaced (w :: words) = a :: tail := by
  obtain ⟨a, rest, rfl⟩ := List.exists_cons_of_ne_nil hne
  cases words with
  | nil => exact ⟨a, rest, by simp, rfl⟩
  | cons next words => exact ⟨a, rest ++ ' ' :: spaced (next :: words), by simp, rfl⟩

theorem length_le_length_spaced (words : List (List Char)) :
    words.length ≤ (spaced words).length + 1 := by
  induction words with
  | nil => simp
  | cons w rest ih =>
      cases rest with
      | nil => simp
      | cons next rest =>
          rw [spaced_cons _ (by simp), List.length_append, List.length_cons, List.length_cons]
          exact Nat.succ_le_succ (Nat.le_trans ih (Nat.le_add_left _ _))

theorem mem_spaced {words : List (List Char)} {c : Char} (h : c ∈ spaced words) :
    c = ' ' ∨ ∃ w ∈ words, c ∈ w := by
  induction words with
  | nil => cases h
  | cons w rest ih =>
      cases rest with
      | nil => exact .inr ⟨w, by simp, h⟩
      | cons next rest =>
          rw [spaced_cons _ (by simp), List.mem_append, List.mem_cons] at h
          rcases h with h | h | h
          · exact .inr ⟨w, by simp, h⟩
          · exact .inl h
          · rcases ih h with h | ⟨v, hv, hc⟩
            · exact .inl h
            · exact .inr ⟨v, List.mem_cons_of_mem _ hv, hc⟩

end FrontLint
