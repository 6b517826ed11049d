import FrontLint.Proofs.Projection.FieldText
import FrontLint.Proofs.Projection.LinePreservation
import FrontLint.Proofs.Yaml.FlatValue

/-!
# Projections of flat documents

The projection of a document with a flat block has the last title as a heading and the last
description, or without one the last summary, each on the line of its entry. All its other
lines are empty, and without such an entry there is no projection.
-/

namespace FrontLint

namespace Projection

/-- The keys of prose fields. -/
def proseFields : List Text := titleField :: bodyFields

theorem tagOf_of_mem_proseFields {key : Text} (h : key ∈ proseFields) :
    Yaml.Schema.tagOf key = .str := by
  have hall : ∀ key ∈ proseFields, Yaml.Schema.tagOf key = .str := by decide
  exact hall key h

/-- The last entry for the body: that of the description, or that of the summary if no entry
is a description. -/
def IsBodyEntry (entries : List FlatEntry) (j : Nat) (e : FlatEntry) : Prop :=
  IsLastEntry entries descriptionField j e ∨
    (∀ other ∈ entries, Text.ofChars other.key ≠ descriptionField) ∧
      IsLastEntry entries summaryField j e

/-- A projection is that of a flat block: its lines are empty but for those of the last title
and of the body. -/
structure IsOfEntries (entries : List FlatEntry) (p : Projection) : Prop where
  length_lines : p.lines.length = entries.length + 3
  title : ∀ j e, IsLastEntry entries titleField j e →
    p.lines[j + 1]? = some (headingMark ++ Text.ofChars e.value)
  body : ∀ j e, IsBodyEntry entries j e → p.lines[j + 1]? = some (Text.ofChars e.value)
  blank : ∀ i < entries.length + 3,
    (∀ j e, i = j + 1 → ¬ IsLastEntry entries titleField j e ∧ ¬ IsBodyEntry entries j e) →
      p.lines[i]? = some []

end Projection

theorem isBlank_joinLines (lines : List Text) :
    (joinLines lines).isBlank = lines.all Text.isBlank := by
  induction lines with
  | nil => rfl
  | cons line rest ih =>
      cases rest with
      | nil => simp [joinLines]
      | cons next rest =>
          have hfeed : lineFeed.isBlank = true := by decide
          rw [joinLines_cons _ (by simp), List.all_cons, ← ih]
          simp [Text.isBlank, hfeed]

namespace FlatEntry

variable (e : FlatEntry)

theorem valueText_ne_nil : Text.ofChars e.value ≠ [] := by
  obtain ⟨a, tail, hvalue, -⟩ := e.value_eq_cons
  simp [hvalue]

theorem lineFeed_not_mem_value : lineFeed ∉ Text.ofChars e.value := by
  intro h
  obtain ⟨a, ha, heq⟩ := List.mem_map.1 h
  cases heq
  exact e.not_mem_value ha

theorem isBlank_value : (Text.ofChars e.value).isBlank = false := by
  obtain ⟨a, tail, hvalue, ha⟩ := e.value_eq_cons
  simp [hvalue, Text.isBlank, isBlank_of_isAsciiWord (isAsciiWord_of_isAlpha ha)]

/-- The text of a prose field is the value of the last entry with its key. -/
theorem lineText?_fields [HashSeed] (entries : List FlatEntry) {key : Text}
    (hkey : Yaml.Schema.tagOf key = .str) :
    ∃ found, ((fields entries).lineText? key).result = .ok found ∧
      ∀ text, found = some text ↔
        ∃ j e, IsLastEntry entries key j e ∧ text = Text.ofChars e.value := by
  have hvalue : ∀ v, (fields entries).get? key = some v ↔
      ∃ j e, IsLastEntry entries key j e ∧ v = .text (Text.ofChars e.value) :=
    fun _ => get?_fields hkey
  cases hget : (fields entries).get? key with
  | none =>
      refine ⟨none, congrArg Noted.result (Fields.lineText?_of_none hget), fun text => ⟨nofun, ?_⟩⟩
      rintro ⟨j, e, hj, -⟩
      have hsome := (hvalue _).2 ⟨j, e, hj, rfl⟩
      rw [hget] at hsome
      cases hsome
  | some v =>
      obtain ⟨j, e, hj, rfl⟩ := (hvalue v).1 hget
      have hline := Fields.lineText?_of_text hget e.valueText_ne_nil e.lineFeed_not_mem_value
      refine ⟨some (Text.ofChars e.value), congrArg Noted.result hline, fun text => ⟨?_, ?_⟩⟩
      · rintro ⟨⟩
        exact ⟨j, e, hj, rfl⟩
      · rintro ⟨k, last, hk, rfl⟩
        have hsame := (hvalue _).2 ⟨k, last, hk, rfl⟩
        rw [hget] at hsame
        exact congrArg some (Value.text.inj (Option.some.inj hsame))

end FlatEntry

/-- The block of a flat document has the fields of its entries. -/
theorem Block.ofLines?_flatDocument {entries : List FlatEntry} (hne : entries ≠ [])
    (body : Text) : (ofLines? (splitLines (flatDocument entries body))).result =
      .ok (some ⟨0, (entries.length + 1 : Nat), FlatEntry.fields entries⟩) := by
  refine ofLines?_eq_ok_some_iff.2 ⟨_, find?_flatDocument entries body, rfl, rfl,
    FlatEntry.fields_ne_nil hne, ?_⟩
  have hzero : ¬ (0 : Int) ≠ 0 := by simp
  rw [Fields.ofLines, if_neg hzero, interiorLines_flatDocument, joinLines_flatBlock,
    Yaml.valueOfText_flatBlock hne]
  rfl

namespace Projection

variable {entries : List FlatEntry} {body : Text} {index : KeyIndex}

section

variable [HashSeed]

/-- The slot of a prose field is on the line of the last entry with its key. -/
theorem slot_flat_iff (hindex : KeyIndex.ofLines? (splitLines (flatDocument entries body)) (0 : Nat)
      (entries.length + 1 : Nat) = some index) {key text : Text} {i : Int}
    (hkey : Yaml.Schema.tagOf key = .str) :
    Slot (FlatEntry.fields entries) index key i text ↔
      ∃ j e, i = (j + 1 : Nat) ∧ IsLastEntry entries key j e ∧ text = Text.ofChars e.value := by
  obtain ⟨found, hfound, htext⟩ := FlatEntry.lineText?_fields entries hkey
  rw [Slot, hfound, Except.ok.injEq, htext, line?_flatDocument hindex]
  constructor
  · rintro ⟨⟨j, e, hj, rfl⟩, k, last, rfl, hk⟩
    obtain ⟨rfl, rfl⟩ := hj.unique hk
    exact ⟨j, e, rfl, hj, rfl⟩
  · rintro ⟨j, e, rfl, hj, rfl⟩
    exact ⟨⟨j, e, hj, rfl⟩, j, e, rfl, hj⟩

/-- The slot for the body is on the line of the last entry for it. -/
theorem bodySlot_flat_iff
    (hindex : KeyIndex.ofLines? (splitLines (flatDocument entries body)) (0 : Nat)
      (entries.length + 1 : Nat) = some index) {text : Text} {i : Int} :
    (∃ key, BodySlot (FlatEntry.fields entries) index key i text) ↔
      ∃ j e, i = (j + 1 : Nat) ∧ IsBodyEntry entries j e ∧ text = Text.ofChars e.value := by
  have hdescription : Yaml.Schema.tagOf descriptionField = .str := by decide
  have hsummary : Yaml.Schema.tagOf summaryField = .str := by decide
  simp only [BodySlot, slot_flat_iff hindex hdescription, slot_flat_iff hindex hsummary]
  constructor
  · rintro ⟨key, ⟨rfl, j, e, rfl, hj, rfl⟩ | ⟨rfl, hno, j, e, rfl, hj, rfl⟩⟩
    · exact ⟨j, e, rfl, .inl hj, rfl⟩
    · refine ⟨j, e, rfl, .inr ⟨fun other hother hkey => ?_, hj⟩, rfl⟩
      obtain ⟨k, last, hk⟩ := IsLastEntry.exists_of_mem hother hkey
      exact hno _ _ ⟨k, last, rfl, hk, rfl⟩
  · rintro ⟨j, e, rfl, hj | ⟨hno, hj⟩, rfl⟩
    · exact ⟨descriptionField, .inl ⟨rfl, j, e, rfl, hj, rfl⟩⟩
    · refine ⟨summaryField, .inr ⟨rfl, ?_, j, e, rfl, hj, rfl⟩⟩
      rintro k u ⟨m, last, rfl, hm, rfl⟩
      exact hno last hm.mem hm.key_eq

/-- A flat block is laid out on the lines of its entries. -/
theorem exists_ofBlock_flat
    (hindex : KeyIndex.ofLines? (splitLines (flatDocument entries body)) (0 : Nat)
      (entries.length + 1 : Nat) = some index) :
    ∃ p, (ofBlock ⟨0, (entries.length + 1 : Nat), FlatEntry.fields entries⟩ index).result = .ok p ∧
      p.IsOfEntries entries := by
  have hin := KeyIndex.isInside_of_ofLines? hindex
  cases hresult :
      (ofBlock ⟨0, (entries.length + 1 : Nat), FlatEntry.fields entries⟩ index).result with
  | error fault =>
      obtain ⟨key, hkey, hfault⟩ := exists_of_ofBlock_eq_error rfl rfl hin hresult
      obtain ⟨found, hfound, -⟩ :=
        FlatEntry.lineText?_fields entries (tagOf_of_mem_proseFields hkey)
      rw [slot?, Noted.result_bind, Noted.result_mapFault, hfound] at hfault
      cases hfault
  | ok p =>
      refine ⟨p, rfl, ?_⟩
      have hlength := length_lines_ofBlock rfl rfl hin hresult
      have htitle : Yaml.Schema.tagOf titleField = .str := by decide
      have hlines := fun (i : Nat) (line : Text) (hne : line ≠ []) =>
        getElem?_ofBlock_eq_some_iff rfl rfl hin hresult (i := i) hne
      simp only [slot_flat_iff hindex htitle, bodySlot_flat_iff hindex] at hlines
      constructor
      case length_lines => exact hlength
      case title =>
        intro j e hj
        refine (hlines (j + 1) _ (by simp [headingMark])).2 (.inl ⟨_, ⟨j, e, ?_, hj, rfl⟩, rfl⟩)
        rfl
      case body =>
        intro j e hj
        exact (hlines (j + 1) _ e.valueText_ne_nil).2 (.inr ⟨j, e, rfl, hj, rfl⟩)
      case blank =>
        intro i hi hno
        rw [← show p.lines.length = entries.length + 3 from hlength] at hi
        rw [List.getElem?_eq_getElem hi, Option.some.injEq]
        by_contra hne
        rcases (hlines i _ hne).1 (List.getElem?_eq_getElem hi) with
          ⟨text, ⟨j, e, hij, hj, -⟩, -⟩ | ⟨j, e, hij, hj, -⟩
        · exact (hno j e (by exact_mod_cast hij)).1 hj
        · exact (hno j e (by exact_mod_cast hij)).2 hj

end

/-- If some key is that of a prose field, there is an entry for the title or for the body. -/
theorem exists_lastEntry_of_mem {e : FlatEntry} (he : e ∈ entries)
    (hkey : Text.ofChars e.key ∈ proseFields) :
    ∃ j last, IsLastEntry entries titleField j last ∨ IsBodyEntry entries j last := by
  simp only [proseFields, bodyFields, List.mem_cons, List.not_mem_nil, or_false] at hkey
  by_cases hdescription : ∃ other ∈ entries, Text.ofChars other.key = descriptionField
  · obtain ⟨other, hother, hd⟩ := hdescription
    obtain ⟨j, last, hj⟩ := IsLastEntry.exists_of_mem hother hd
    exact ⟨j, last, .inr (.inl hj)⟩
  · have hno : ∀ other ∈ entries, Text.ofChars other.key ≠ descriptionField :=
      fun other hother hd => hdescription ⟨other, hother, hd⟩
    rcases hkey with hkey | hkey | hkey
    · obtain ⟨j, last, hj⟩ := IsLastEntry.exists_of_mem he hkey
      exact ⟨j, last, .inl hj⟩
    · exact absurd hkey (hno e he)
    · obtain ⟨j, last, hj⟩ := IsLastEntry.exists_of_mem he hkey
      exact ⟨j, last, .inr (.inr ⟨hno, hj⟩)⟩

/-- A projection of entries is blank if no key is that of a prose field. -/
theorem IsOfEntries.isBlank_iff {p : Projection} (h : p.IsOfEntries entries) :
    p.isBlank = true ↔ ∀ e ∈ entries, Text.ofChars e.key ∉ proseFields := by
  rw [isBlank, text, isBlank_joinLines, List.all_eq_true]
  constructor
  · intro hblank e he hmem
    obtain ⟨j, last, hj | hj⟩ := exists_lastEntry_of_mem he hmem
    · have hlast := hblank _ (List.mem_of_getElem? (h.title j last hj))
      rw [Text.isBlank, List.all_append, Bool.and_eq_true] at hlast
      exact absurd hlast.1 (by decide)
    · have hlast := hblank _ (List.mem_of_getElem? (h.body j last hj))
      rw [last.isBlank_value] at hlast
      cases hlast
  · intro hno line hline
    obtain ⟨i, hi⟩ := List.mem_iff_getElem?.1 hline
    have hlt := (List.getElem?_eq_some_iff.1 hi).1
    rw [h.length_lines] at hlt
    have hnone : ∀ key ∈ proseFields, ∀ j e, ¬ IsLastEntry entries key j e := fun key hkey j e hj =>
      hno e hj.mem (hj.key_eq ▸ hkey)
    have hempty := h.blank i hlt fun j e _ => by
      refine ⟨hnone titleField (by decide) j e, ?_⟩
      rintro (hj | ⟨-, hj⟩)
      · exact hnone descriptionField (by decide) j e hj
      · exact hnone summaryField (by decide) j e hj
    rw [hi, Option.some.injEq] at hempty
    rw [hempty]
    rfl

/-- The projection of a document with a flat block. -/
theorem ofText?_flatDocument [HashSeed] {entries : List FlatEntry} (hne : entries ≠ [])
    (body : Text) :
    ((∀ e ∈ entries, Text.ofChars e.key ∉ proseFields) →
      (ofText? (flatDocument entries body)).result = .ok none) ∧
    ((∃ e ∈ entries, Text.ofChars e.key ∈ proseFields) →
      ∃ p, (ofText? (flatDocument entries body)).result = .ok (some p) ∧
        p.IsOfEntries entries) := by
  have hblock := Block.ofLines?_flatDocument hne body
  obtain ⟨index, hindex⟩ := Option.isSome_iff_exists.1
    (KeyIndex.ofLines?_isSome 0 (entries.length + 1)
      (Nat.le_of_lt (Span.closing_lt_length (find?_flatDocument entries body))))
  obtain ⟨p, hp, hentries⟩ := exists_ofBlock_flat hindex
  have hresult : (ofText? (flatDocument entries body)).result =
      .ok (if p.isBlank then none else some p) := by
    have hindexed : (indexOf (splitLines (flatDocument entries body))
        ⟨0, (entries.length + 1 : Nat), FlatEntry.fields entries⟩).result = .ok index := by
      rw [indexOf_result, show ((0 : Int)) = ((0 : Nat) : Int) from rfl, hindex]
    simp only [ofText?, Noted.result_bind, Noted.result_mapFault, hblock, Except.mapError,
      Except.bind, hindexed, hp, Noted.result_pure]
  rw [hresult]
  constructor
  · intro hno
    rw [if_pos (hentries.isBlank_iff.2 hno)]
  · rintro ⟨e, he, hkey⟩
    refine ⟨p, ?_, hentries⟩
    rw [if_neg fun hblank => hentries.isBlank_iff.1 hblank e he hkey]

/-- An entry for a title. -/
def titleEntry : FlatEntry where
  key := ['t', 'i', 't', 'l', 'e']
  words := [['A', 'n'], ['o', 'd', 'e']]
  isAlpha_head := ⟨'t', _, rfl, by decide⟩
  isAsciiWord_of_mem := List.all_eq_true.1 (by decide)
  length_key_le := by decide
  two_le_length := by decide
  word_ne_nil := by decide
  isAlpha_of_mem w hw := List.all_eq_true.1
    ((List.all_eq_true (p := fun w => w.all Char.isAlpha)).1 (by decide) w hw)

/-- An entry with a key that is read as a truth value. -/
def truthEntry : FlatEntry where
  key := ['Y', 'e', 's']
  words := [['n', 'o'], ['o', 'n', 'e']]
  isAlpha_head := ⟨'Y', _, rfl, by decide⟩
  isAsciiWord_of_mem := List.all_eq_true.1 (by decide)
  length_key_le := by decide
  two_le_length := by decide
  word_ne_nil := by decide
  isAlpha_of_mem w hw := List.all_eq_true.1
    ((List.all_eq_true (p := fun w => w.all Char.isAlpha)).1 (by decide) w hw)

open HashSeed

theorem ofText?_flatDocument_titled :
    (ofText? (flatDocument [truthEntry] hyphens)).result = .ok none ∧
      ∃ p, (ofText? (flatDocument [titleEntry, truthEntry, titleEntry] hyphens)).result =
          .ok (some p) ∧
        p.IsOfEntries [titleEntry, truthEntry, titleEntry] := by
  refine ⟨(ofText?_flatDocument (by simp) hyphens).1 (by decide), ?_⟩
  exact (ofText?_flatDocument (by simp) hyphens).2 ⟨titleEntry, by simp, by decide⟩

end Projection

end FrontLint
