import FrontLint.Proofs.Files.Leads
import Mathlib.Data.List.Induction

/-!
# Well-formed file trees

In a well-formed tree every entry stands in a directory. So nothing lies below a free
location, and removing a location just filled gives back the tree before.
-/

namespace FrontLint

namespace FileTree

structure WellFormed (t : FileTree) : Prop where
  parent_of_mem : ∀ e ∈ t.entries,
    e.1 ≠ [] ∧ t.find? e.1.dropLast = some .directory
  current : t.find? t.current = some .directory

instance (t : FileTree) : Decidable t.WellFormed :=
  decidable_of_iff
    ((∀ e ∈ t.entries, e.1 ≠ [] ∧ t.find? e.1.dropLast = some .directory) ∧
      t.find? t.current = some .directory)
    ⟨fun h => ⟨h.1, h.2⟩, fun h => ⟨h.parent_of_mem, h.current⟩⟩

theorem mem_of_find?_eq_some {t : FileTree} {location : Location} {entry : Entry}
    (hne : location ≠ []) (h : t.find? location = some entry) :
    (location, entry) ∈ t.entries := by
  rw [find?, if_neg hne] at h
  obtain ⟨before, after, hs, -⟩ := List.lookup_eq_some_iff.1 h
  simp [hs]

theorem exists_mem_of_mem {t : FileTree} {e : Location × Entry} (h : e ∈ t.entries) :
    ∃ entry, t.entries.lookup e.1 = some entry := by
  cases hl : t.entries.lookup e.1 with
  | some entry => exact ⟨entry, rfl⟩
  | none =>
      have hne := List.lookup_eq_none_iff.1 hl e h
      simp at hne

theorem find?_dropLast {t : FileTree} (hw : t.WellFormed) {location : Location} {entry : Entry}
    (h : t.find? location = some entry) : t.find? location.dropLast = some .directory := by
  by_cases hne : location = []
  · simp [hne]
  · exact (hw.parent_of_mem _ (mem_of_find?_eq_some hne h)).2

/-- Above an entry there are directories only. -/
theorem find?_eq_directory_of_isPrefix {t : FileTree} (hw : t.WellFormed)
    {above location : Location} {entry : Entry} (h : t.find? location = some entry)
    (hp : above <+: location) (hne : above ≠ location) :
    t.find? above = some .directory := by
  induction location using List.reverseRecOn generalizing entry with
  | nil => exact absurd (List.prefix_nil.1 hp) hne
  | append_singleton front name ih =>
      have hfront := find?_dropLast hw h
      rw [List.dropLast_concat] at hfront
      have hpf : above <+: front := (List.prefix_concat_iff.1 hp).resolve_left hne
      by_cases he : above = front
      · rw [he]
        exact hfront
      · exact ih hfront hpf he

/-- No entry lies at or below a location that is free. -/
theorem not_isPrefix_of_mem {t : FileTree} (hw : t.WellFormed) {free : Location}
    (hf : t.find? free = none) {e : Location × Entry} (he : e ∈ t.entries) : ¬ free <+: e.1 := by
  intro hp
  obtain ⟨entry, hl⟩ := exists_mem_of_mem he
  have hfind : t.find? e.1 = some entry := by
    rw [find?, if_neg (hw.parent_of_mem e he).1]
    exact hl
  by_cases hq : free = e.1
  · rw [hq, hfind] at hf
    cases hf
  · rw [find?_eq_directory_of_isPrefix hw hfind hp hq] at hf
    cases hf

theorem mem_put {t : FileTree} {location : Location} {entry : Entry} {e : Location × Entry}
    (h : e ∈ (t.put location entry).entries) : e = (location, entry) ∨ e ∈ t.entries := by
  simp only [put] at h
  split at h
  · obtain ⟨old, hold, he⟩ := List.mem_map.1 h
    split at he
    · exact .inl he.symm
    · exact .inr (he ▸ hold)
  · rcases List.mem_append.1 h with h | h
    · exact .inr h
    · exact .inl (List.mem_singleton.1 h)

@[simp] theorem current_put (t : FileTree) (location : Location) (entry : Entry) :
    (t.put location entry).current = t.current := rfl

@[simp] theorem current_removeBelow (t : FileTree) (location : Location) :
    (t.removeBelow location).current = t.current := rfl

/-- What a directory gets, in the place of nothing or of a file, leaves a tree well-formed. -/
theorem WellFormed.put {t : FileTree} (hw : t.WellFormed) {directory : Location}
    {name : FileName} {entry : Entry} (hd : t.find? directory = some .directory)
    (hf : t.find? (directory ++ [name]) ≠ some .directory) :
    (t.put (directory ++ [name]) entry).WellFormed := by
  have hne : directory ++ [name] ≠ [] := by simp
  have hkeep : ∀ location, t.find? location = some .directory →
      (t.put (directory ++ [name]) entry).find? location = some .directory := by
    intro location hl
    rw [find?_put t hne, if_neg]
    · exact hl
    · rintro rfl
      exact hf hl
  constructor
  case current => exact hkeep _ hw.current
  case parent_of_mem =>
    intro e he
    rcases mem_put he with rfl | he
    · refine ⟨hne, hkeep _ ?_⟩
      rw [List.dropLast_concat]
      exact hd
    · exact ⟨(hw.parent_of_mem e he).1, hkeep _ (hw.parent_of_mem e he).2⟩

/-- Removing all below a place undoes a change below it. -/
theorem removeBelow_put (t : FileTree) {place location : Location} (entry : Entry)
    (h : place <+: location) :
    (t.put location entry).removeBelow place = t.removeBelow place := by
  have hp : place.isPrefixOf location = true := List.isPrefixOf_iff_prefix.2 h
  have hmap : ∀ entries : List (Location × Entry),
      (entries.map fun e => if e.1 = location then (location, entry) else e).filter
          (fun e => !place.isPrefixOf e.1) =
        entries.filter fun e => !place.isPrefixOf e.1 := by
    intro entries
    induction entries with
    | nil => rfl
    | cons e rest ih =>
        by_cases he : e.1 = location
        · simp [he, hp, ih]
        · simp [he, List.filter_cons, ih]
  simp only [removeBelow, put]
  split
  · rw [hmap]
  · simp [hp]

/-- Removing all below a free location of a well-formed tree removes nothing. -/
theorem removeBelow_of_find?_eq_none {t : FileTree} (hw : t.WellFormed) {free : Location}
    (hf : t.find? free = none) : t.removeBelow free = t := by
  have hall : (t.entries.filter fun e => !free.isPrefixOf e.1) = t.entries := by
    rw [List.filter_eq_self]
    intro e he
    have hnot : ¬ free.isPrefixOf e.1 = true := fun hp =>
      not_isPrefix_of_mem hw hf he (List.isPrefixOf_iff_prefix.1 hp)
    rw [Bool.not_eq_true] at hnot
    rw [hnot, Bool.not_false]
  simp only [removeBelow, hall]

theorem Leads.find?_eq_directory {t : FileTree} (hw : t.WellFormed) {links left : Nat}
    {directory place : Location} {names : List FileName}
    (h : t.Leads links directory names left place)
    (hd : t.find? directory = some .directory) : t.find? place = some .directory := by
  induction h with
  | done => exact hd
  | here _ ih => exact ih hd
  | above _ ih => exact ih (find?_dropLast hw hd)
  | down _ hn _ ih => exact ih hn
  | @link _ _ _ _ _ _ target _ _ _ ih =>
      apply ih
      rw [startOf]
      split
      · exact find?_nil t
      · exact hd

theorem WellFormed.origin {t : FileTree} (hw : t.WellFormed) (p : Path) :
    t.find? (t.origin p) = some .directory := by
  rw [FileTree.origin]
  split
  · exact find?_nil t
  · exact hw.current

/-- A tree with more directories, each behind the entries that are there. -/
def withDirectories (t : FileTree) (made : List Location) : FileTree :=
  { t with entries := t.entries ++ made.map fun location => (location, .directory) }

@[simp] theorem withDirectories_nil (t : FileTree) : t.withDirectories [] = t := by
  simp [withDirectories]

theorem put_directory_of_find?_eq_none {t : FileTree} {location : Location} (hne : location ≠ [])
    (h : t.find? location = none) : t.put location .directory = t.withDirectories [location] := by
  rw [find?, if_neg hne] at h
  simp [put, h, withDirectories]

theorem withDirectories_append (t : FileTree) (made more : List Location) :
    t.withDirectories (made ++ more) = (t.withDirectories made).withDirectories more := by
  simp [withDirectories]

/-- More directories leave the entries that are there. -/
theorem find?_withDirectories {t : FileTree} (made : List Location) {location : Location}
    {entry : Entry} (h : t.find? location = some entry) :
    (t.withDirectories made).find? location = some entry := by
  rw [find?] at h ⊢
  split
  · rename_i hne
    rwa [if_pos hne] at h
  · rename_i hne
    rw [if_neg hne] at h
    simp [withDirectories, List.lookup_append, h]

end FileTree

end FrontLint
