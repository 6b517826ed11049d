import FrontLint.Document.Block
import FrontLint.Proofs.Document.KeyIndex
import FrontLint.Proofs.Document.Span
import FrontLint.Proofs.Text.Word
import Mathlib.Data.List.Induction

/-!
# Flat blocks

A flat block has one entry on each line: a key of ASCII letters, digits and underscores, and
two or more words of letters. Whatever the body behind it, the block ends behind its last
entry, and a key stands on the line of the last entry that has it.
-/

namespace FrontLint

/-- An entry of a flat block. -/
structure FlatEntry where
  key : List Char
  words : List (List Char)
  isAlpha_head : ∃ c rest, key = c :: rest ∧ c.isAlpha = true
  isAsciiWord_of_mem : ∀ c ∈ key, isAsciiWord c = true
  length_key_le : key.length ≤ 128
  two_le_length : 2 ≤ words.length
  word_ne_nil : ∀ w ∈ words, w ≠ []
  isAlpha_of_mem : ∀ w ∈ words, ∀ c ∈ w, c.isAlpha = true

namespace FlatEntry

variable (e : FlatEntry)

def value : List Char := spaced e.words

/-- The characters of the line of an entry. -/
def chars : List Char := e.key ++ ':' :: ' ' :: e.value

def line : Text := Text.ofChars e.chars

theorem value_eq : ∃ first next rest, e.words = first :: next :: rest ∧
    e.value = first ++ ' ' :: spaced (next :: rest) := by
  match hw : e.words with
  | [] => exact absurd e.two_le_length (by simp [hw])
  | [w] => exact absurd e.two_le_length (by simp [hw])
  | first :: next :: rest => exact ⟨first, next, rest, rfl, by rw [value, hw, spaced]⟩

theorem mem_value {c : Char} (h : c ∈ e.value) : c = ' ' ∨ c.isAlpha = true := by
  rcases mem_spaced h with h | ⟨w, hw, hc⟩
  · exact .inl h
  · exact .inr (e.isAlpha_of_mem w hw c hc)

/-- The characters of an entry are spaces, colons and word characters. -/
theorem mem_chars {c : Char} (h : c ∈ e.chars) :
    c = ' ' ∨ c = ':' ∨ isAsciiWord c = true := by
  simp only [chars, List.mem_append, List.mem_cons] at h
  rcases h with h | h | h | h
  · exact .inr (.inr (e.isAsciiWord_of_mem c h))
  · exact .inr (.inl h)
  · exact .inl h
  · rcases e.mem_value h with h | h
    · exact .inl h
    · exact .inr (.inr (isAsciiWord_of_isAlpha h))

theorem not_mem_key : '\n' ∉ e.key := fun h =>
  ne_of_isAsciiWord (e.isAsciiWord_of_mem _ h) (by decide) rfl

theorem not_mem_value : '\n' ∉ e.value := fun h => by
  rcases e.mem_value h with h | h
  · exact absurd h (by decide)
  · exact absurd h (by decide)

theorem key_ne_nil : e.key ≠ [] := by
  obtain ⟨c, rest, hkey, -⟩ := e.isAlpha_head
  simp [hkey]

theorem words_ne_nil : e.words ≠ [] := by
  have := e.two_le_length
  exact List.ne_nil_of_length_pos (by omega)

/-- An entry begins with a letter. -/
theorem chars_eq_cons : ∃ a tail, e.chars = a :: tail ∧ a.isAlpha = true := by
  obtain ⟨a, rest, hkey, ha⟩ := e.isAlpha_head
  exact ⟨a, rest ++ ':' :: ' ' :: e.value, by simp [chars, hkey], ha⟩

/-- A value begins with a letter. -/
theorem value_eq_cons : ∃ a tail, e.value = a :: tail ∧ a.isAlpha = true := by
  obtain ⟨first, next, rest, hwords, -⟩ := e.value_eq
  have hmem : first ∈ e.words := by simp [hwords]
  obtain ⟨a, tail, ha, hspaced⟩ := exists_spaced_eq_cons (e.word_ne_nil first hmem) (next :: rest)
  exact ⟨a, tail, by rw [value, hwords, hspaced], e.isAlpha_of_mem first hmem a ha⟩

end FlatEntry

/-- The characters of entries, each on a line of its own behind a line feed. -/
def flatRest : List FlatEntry → List Char
  | [] => []
  | e :: rest => '\n' :: (e.chars ++ flatRest rest)

theorem length_le_length_flatRest (rest : List FlatEntry) :
    rest.length ≤ (flatRest rest).length := by
  induction rest with
  | nil => simp
  | cons e rest ih =>
      simp only [flatRest, List.length_cons, List.length_append]
      omega

/-- The characters of a flat block. -/
def flatBlock : List FlatEntry → List Char
  | [] => []
  | e :: rest => e.chars ++ flatRest rest

theorem mem_flatBlock {entries : List FlatEntry} {c : Char} (h : c ∈ flatBlock entries) :
    c = '\n' ∨ ∃ e ∈ entries, c ∈ e.chars := by
  have hrest : ∀ rest, c ∈ flatRest rest → c = '\n' ∨ ∃ e ∈ rest, c ∈ e.chars := by
    intro rest hc
    induction rest with
    | nil => cases hc
    | cons e rest ih =>
        rw [flatRest, List.mem_cons, List.mem_append] at hc
        rcases hc with hc | hc | hc
        · exact .inl hc
        · exact .inr ⟨e, by simp, hc⟩
        · rcases ih hc with hc | ⟨f, hf, hc⟩
          · exact .inl hc
          · exact .inr ⟨f, List.mem_cons_of_mem _ hf, hc⟩
  cases entries with
  | nil => cases h
  | cons e rest =>
      rcases List.mem_append.1 h with h | h
      · exact .inr ⟨e, by simp, h⟩
      · rcases hrest rest h with h | ⟨f, hf, h⟩
        · exact .inl h
        · exact .inr ⟨f, List.mem_cons_of_mem _ hf, h⟩

theorem joinLines_flatBlock (entries : List FlatEntry) :
    joinLines (entries.map FlatEntry.line) = Text.ofChars (flatBlock entries) := by
  have hrest : ∀ e rest, joinLines ((e :: rest).map FlatEntry.line) =
      Text.ofChars (e.chars ++ flatRest rest) := by
    intro e rest
    induction rest generalizing e with
    | nil => simp [joinLines, flatRest, FlatEntry.line]
    | cons next rest ih =>
        rw [List.map_cons, joinLines_cons _ (by simp), ih, flatRest]
        simp [FlatEntry.line, lineFeed]
  cases entries with
  | nil => rfl
  | cons e rest => exact hrest e rest

/-- The document with a flat block of entries and a body. -/
def flatDocument (entries : List FlatEntry) (body : Text) : Text :=
  joinLines (hyphens :: entries.map FlatEntry.line ++ [hyphens, body])

/-- The lines in front of a text without line feeds are split off it. -/
theorem splitLines_joinLines_concat {lines : List Text} (h : ∀ line ∈ lines, lineFeed ∉ line)
    (body : Text) : splitLines (joinLines (lines ++ [body])) = lines ++ splitLines body := by
  induction lines with
  | nil => rfl
  | cons line rest ih =>
      rw [List.cons_append, joinLines_cons _ (by simp), splitLines_append _ _ (h line (by simp)),
        ih fun l hl => h l (List.mem_cons_of_mem _ hl), List.cons_append]

theorem FlatEntry.not_mem_line (e : FlatEntry) {c : Char} (hc : c ≠ ' ') (hcolon : c ≠ ':')
    (hword : isAsciiWord c = false) : Code.char c ∉ e.line := by
  intro h
  obtain ⟨d, hd, heq⟩ := List.mem_map.1 h
  cases heq
  rcases e.mem_chars hd with h | h | h
  · exact hc h
  · exact hcolon h
  · rw [hword] at h
    cases h

theorem splitLines_flatDocument (entries : List FlatEntry) (body : Text) :
    splitLines (flatDocument entries body) =
      hyphens :: entries.map FlatEntry.line ++ hyphens :: splitLines body := by
  have hlines : ∀ line ∈ hyphens :: entries.map FlatEntry.line ++ [hyphens],
      lineFeed ∉ line := by
    intro line hline
    simp only [List.mem_append, List.mem_cons, List.mem_map, List.not_mem_nil, or_false] at hline
    rcases hline with (rfl | ⟨e, -, rfl⟩) | rfl
    · decide
    · exact e.not_mem_line (by decide) (by decide) (by decide)
    · decide
  simpa [flatDocument] using splitLines_joinLines_concat hlines body

/-- No line of an entry is a delimiter. -/
theorem FlatEntry.isDelimiter_line (e : FlatEntry) : isDelimiter e.line = false := by
  rw [isDelimiter, decide_eq_false_iff_not]
  intro h
  have hmem : Code.char '-' ∈ e.line.strip.dropWhile (· = byteOrderMark) := by
    rw [h]
    decide
  have hstrip :=
    (isPrefix_dropEndWhile Code.isBlank _).subset ((List.dropWhile_suffix _).subset hmem)
  exact e.not_mem_line (by decide) (by decide) (by decide) ((List.dropWhile_suffix _).subset hstrip)

section Lines

variable {entries : List FlatEntry} {body : Text}

theorem getElem?_entryLine {i : Nat} (hi : i < entries.length) :
    (splitLines (flatDocument entries body))[i + 1]? = entries[i]?.map FlatEntry.line := by
  rw [splitLines_flatDocument, List.cons_append, List.getElem?_cons_succ,
    List.getElem?_append_left (by simpa using hi), List.getElem?_map]

theorem getElem?_closingLine :
    (splitLines (flatDocument entries body))[entries.length + 1]? = some hyphens := by
  rw [splitLines_flatDocument, List.cons_append, List.getElem?_cons_succ,
    List.getElem?_append_right (by simp)]
  simp

/-- A flat block ends behind its last entry, whatever the body. -/
theorem find?_flatDocument (entries : List FlatEntry) (body : Text) :
    Span.find? (splitLines (flatDocument entries body)) = some ⟨0, entries.length + 1⟩ := by
  refine Span.find?_eq_some_iff.2 ⟨by simp, ?_, ?_, ?_⟩
  · rw [isDelimiterAt, splitLines_flatDocument, List.cons_append, List.getElem?_cons_zero]
    decide
  · rw [isDelimiterAt, getElem?_closingLine]
    decide
  · intro i hi hne
    obtain ⟨j, rfl⟩ : ∃ j, i = j + 1 := ⟨i - 1, by simp at hne; omega⟩
    have hj : j < entries.length := by simpa using hi
    rw [isDelimiterAt, getElem?_entryLine hj, List.getElem?_eq_getElem hj]
    simp [FlatEntry.isDelimiter_line]

theorem interiorLines_flatDocument (entries : List FlatEntry) (body : Text) :
    interiorLines (splitLines (flatDocument entries body)) (entries.length + 1 : Nat) =
      entries.map FlatEntry.line := by
  have hcount : ¬ ((entries.length + 1 : Nat) : Int) < 0 := by omega
  rw [interiorLines, if_neg hcount, splitLines_flatDocument, Int.toNat_natCast]
  simp

end Lines

/-! ## Keys -/

/-- The line of an entry declares its key. -/
theorem FlatEntry.declaredKey?_line (e : FlatEntry) :
    declaredKey? e.line = some (Text.ofChars e.key) := by
  have hline : e.line = Text.ofChars e.key ++ colon :: Text.ofChars (' ' :: e.value) := by
    simp [line, chars, colon]
  rw [declaredKey?_eq_some_iff]
  constructor
  case isBlank_head =>
    obtain ⟨a, tail, hkey, ha⟩ := e.isAlpha_head
    rw [hline, hkey]
    rintro _ ⟨⟩
    exact isBlank_of_isAsciiWord (isAsciiWord_of_isAlpha ha)
  case key_ne_nil => simpa [Text.ofChars] using e.key_ne_nil
  case isWord_of_mem =>
    intro c hc
    obtain ⟨a, ha, rfl⟩ := List.mem_map.1 hc
    have hlt := (toNat_of_isAsciiWord (e.isAsciiWord_of_mem a ha)).2
    rw [Code.isWord, if_pos (Nat.lt_of_le_of_lt hlt (by decide)), e.isAsciiWord_of_mem a ha]
  case isPrefix =>
    rw [hline, Text.stripEnd, dropEndWhile_append (by decide)]
    exact ⟨_, by rw [List.append_assoc, List.singleton_append]⟩

/-- The entry at a position is the last one with a key. -/
structure IsLastEntry (entries : List FlatEntry) (key : Text) (j : Nat) (e : FlatEntry) :
    Prop where
  getElem?_eq : entries[j]? = some e
  key_eq : Text.ofChars e.key = key
  key_ne : ∀ k other, j < k → entries[k]? = some other → Text.ofChars other.key ≠ key

namespace IsLastEntry

variable {entries : List FlatEntry} {key : Text} {j : Nat} {e : FlatEntry}

theorem lt_length (h : IsLastEntry entries key j e) : j < entries.length :=
  (List.getElem?_eq_some_iff.1 h.getElem?_eq).1

theorem mem (h : IsLastEntry entries key j e) : e ∈ entries := List.mem_of_getElem? h.getElem?_eq

theorem unique (h : IsLastEntry entries key j e) {k : Nat} {other : FlatEntry}
    (h' : IsLastEntry entries key k other) : j = k ∧ e = other := by
  obtain rfl : j = k := by
    rcases Nat.lt_trichotomy j k with hlt | heq | hgt
    · exact absurd h'.key_eq (h.key_ne k other hlt h'.getElem?_eq)
    · exact heq
    · exact absurd h.key_eq (h'.key_ne j e hgt h.getElem?_eq)
  exact ⟨rfl, Option.some.inj (h.getElem?_eq.symm.trans h'.getElem?_eq)⟩

theorem concat_self {entries : List FlatEntry} (h : Text.ofChars e.key = key) :
    IsLastEntry (entries ++ [e]) key entries.length e := by
  refine ⟨by simp, h, fun k other hk hother => ?_⟩
  rw [List.getElem?_eq_none (by simp; omega)] at hother
  cases hother

theorem concat_iff {last : FlatEntry} (h : Text.ofChars last.key ≠ key) :
    IsLastEntry (entries ++ [last]) key j e ↔ IsLastEntry entries key j e := by
  constructor
  · intro hlast
    have hj : j < entries.length := by
      have hlt := hlast.lt_length
      rw [List.length_append, List.length_singleton] at hlt
      by_contra hge
      have hat := hlast.getElem?_eq
      rw [show j = entries.length by omega, List.getElem?_concat_length] at hat
      cases hat
      exact h hlast.key_eq
    refine ⟨by rw [← List.getElem?_append_left hj, hlast.getElem?_eq], hlast.key_eq, ?_⟩
    intro k other hk hother
    have hklt := (List.getElem?_eq_some_iff.1 hother).1
    exact hlast.key_ne k other hk (by rw [List.getElem?_append_left hklt, hother])
  · intro hlast
    refine ⟨by rw [List.getElem?_append_left hlast.lt_length, hlast.getElem?_eq], hlast.key_eq, ?_⟩
    intro k other hk hother
    by_cases hklt : k < entries.length
    · exact hlast.key_ne k other hk (by rwa [List.getElem?_append_left hklt] at hother)
    · rw [List.getElem?_append_right (by omega)] at hother
      rw [List.mem_singleton.1 (List.mem_of_getElem? hother)]
      exact h

/-- The last entry with a key is found from the end. -/
theorem find?_reverse_eq_some_iff :
    (entries.reverse.find? fun e => Text.ofChars e.key = key) = some e ↔
      ∃ j, IsLastEntry entries key j e := by
  induction entries using List.reverseRecOn with
  | nil => simpa using fun j h => by simpa using h.lt_length
  | append_singleton entries last ih =>
      rw [List.reverse_append, List.reverse_singleton, List.singleton_append]
      by_cases hkey : Text.ofChars last.key = key
      · rw [List.find?_cons_of_pos (by simpa using hkey)]
        constructor
        · intro h
          cases h
          exact ⟨_, concat_self hkey⟩
        · rintro ⟨j, hj⟩
          by_cases hlast : j = entries.length
          · have hat := hj.getElem?_eq
            rwa [hlast, List.getElem?_concat_length] at hat
          · have hlt := hj.lt_length
            rw [List.length_append, List.length_singleton] at hlt
            exact absurd hkey (hj.key_ne entries.length last (by omega) List.getElem?_concat_length)
      · rw [List.find?_cons_of_neg (by simpa using hkey), ih]
        exact exists_congr fun j => (concat_iff hkey).symm

theorem exists_of_mem (he : e ∈ entries) (hkey : Text.ofChars e.key = key) :
    ∃ j last, IsLastEntry entries key j last := by
  cases hfind : entries.reverse.find? fun e => Text.ofChars e.key = key with
  | none => exact absurd hkey (by simpa using List.find?_eq_none.1 hfind e (by simpa using he))
  | some last =>
      obtain ⟨j, hj⟩ := find?_reverse_eq_some_iff.1 hfind
      exact ⟨j, last, hj⟩

end IsLastEntry

/-- A key stands on the line of the last entry that has it. -/
theorem line?_flatDocument {entries : List FlatEntry} {body : Text} {index : KeyIndex}
    (h : KeyIndex.ofLines? (splitLines (flatDocument entries body)) (0 : Nat)
      (entries.length + 1 : Nat) = some index) {key : Text} {i : Int} :
    index.line? key = some i ↔ ∃ j e, i = (j + 1 : Nat) ∧ IsLastEntry entries key j e := by
  have hdeclares : ∀ j < entries.length,
      (KeyIndex.declares (splitLines (flatDocument entries body)) key (j + 1) = true ↔
        ∃ e, entries[j]? = some e ∧ Text.ofChars e.key = key) := by
    intro j hj
    rw [KeyIndex.declares, getElem?_entryLine hj, List.getElem?_eq_getElem hj]
    simp [FlatEntry.declaredKey?_line]
  rw [KeyIndex.line?_eq_some_iff h]
  constructor
  · rintro ⟨n, rfl, hpos, hn, hkey, hlater⟩
    obtain ⟨j, rfl⟩ : ∃ j, n = j + 1 := ⟨n - 1, by omega⟩
    obtain ⟨e, he, hekey⟩ := (hdeclares j (by omega)).1 hkey
    refine ⟨j, e, rfl, he, hekey, fun k other hk hother hother' => ?_⟩
    have hlt := (List.getElem?_eq_some_iff.1 hother).1
    have hdecl := (hdeclares k hlt).2 ⟨other, hother, hother'⟩
    rw [hlater (k + 1) (by omega) (by omega)] at hdecl
    cases hdecl
  · rintro ⟨j, e, rfl, hj⟩
    have hlt := hj.lt_length
    refine ⟨j + 1, rfl, by omega, by omega, (hdeclares j hlt).2 ⟨e, hj.getElem?_eq, hj.key_eq⟩, ?_⟩
    intro m hm hmlt
    obtain ⟨k, rfl⟩ : ∃ k, m = k + 1 := ⟨m - 1, by omega⟩
    by_contra hdecl
    rw [Bool.not_eq_false, hdeclares k (by omega)] at hdecl
    obtain ⟨other, hother, hother'⟩ := hdecl
    exact hj.key_ne k other (by omega) hother hother'

end FrontLint
