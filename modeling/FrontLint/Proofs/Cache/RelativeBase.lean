import FrontLint.Proofs.Cache.Overlap

/-!
# Relative base directories

The path of a projection is that of the root with names behind it. Seen from an absolute base
directory these names hold no two dots. Seen from a relative one they can: in a relative path
two dots stay in front of all other names when it is normalised, and only as many of the
names in front are dropped as the base directory has, or one if the place of the document does
not start with the base directory.
-/

namespace FrontLint

namespace Path

/-- A path that is another one with names behind it, none of them two dots. -/
def IsWithin (root p : Path) : Prop :=
  ∃ names, p = ⟨root.anchor, root.names ++ names⟩ ∧ FileName.above ∉ names

/-- Names of which the nearest hold no two dots and all others are two dots. -/
private def IsDescent (above : List FileName) : Prop :=
  ∃ rest count, above = rest ++ List.replicate count FileName.above ∧ FileName.above ∉ rest

private theorem isDescent_descend {absolute : Bool} {above : List FileName}
    (h : IsDescent above) (name : FileName) : IsDescent (descend absolute above name) := by
  obtain ⟨rest, count, rfl, hrest⟩ := h
  by_cases hname : name = FileName.above
  · subst hname
    cases rest with
    | nil =>
        cases count with
        | zero => cases absolute with
          | true => exact ⟨[], 0, rfl, by simp⟩
          | false => exact ⟨[], 1, rfl, by simp⟩
        | succ count =>
            refine ⟨[], count + 2, ?_, by simp⟩
            simp [descend, List.replicate_succ]
    | cons nearest rest =>
        rw [List.mem_cons, not_or] at hrest
        refine ⟨rest, count, ?_, hrest.2⟩
        simp [descend, Ne.symm hrest.1]
  · refine ⟨name :: rest, count, ?_, ?_⟩
    · simp [descend, hname]
    · simp [hrest, Ne.symm hname]

private theorem isDescent_foldl_descend (absolute : Bool) (names : List FileName)
    {above : List FileName} (h : IsDescent above) :
    IsDescent (names.foldl (descend absolute) above) := by
  induction names generalizing above with
  | nil => exact h
  | cons name rest ih => exact ih (isDescent_descend h name)

/-- Normal names begin with two dots some times and hold them nowhere else. -/
theorem exists_normalNames_eq (absolute : Bool) (names : List FileName) :
    ∃ count rest, normalNames absolute names = List.replicate count FileName.above ++ rest ∧
      FileName.above ∉ rest := by
  obtain ⟨rest, count, h, hrest⟩ :=
    isDescent_foldl_descend absolute names
      (⟨[], 0, rfl, by simp⟩ : IsDescent [])
  refine ⟨count, rest.reverse, ?_, by simpa using hrest⟩
  rw [normalNames, h, List.reverse_append, List.reverse_replicate]

/-- Two dots are among the last normal names if there are more of them than names left out. -/
theorem above_mem_drop_normalNames_iff {absolute : Bool} {names : List FileName} {n : Nat} :
    FileName.above ∈ (normalNames absolute names).drop n ↔
      n < (normalNames absolute names).count FileName.above := by
  obtain ⟨count, rest, h, hrest⟩ := exists_normalNames_eq absolute names
  have hdrop : FileName.above ∉ rest.drop (n - count) := fun hm => hrest (List.mem_of_mem_drop hm)
  rw [h, List.count_append, List.count_replicate_self, List.count_eq_zero.2 hrest,
    List.drop_append, List.drop_replicate, List.mem_append, List.length_replicate]
  simp only [hdrop, or_false, List.mem_replicate, and_true]
  omega

end Path

namespace Cache

variable {c : Cache} {source : Path}

/-- The number of names that a document seen from a relative base directory loses in front:
those of the base directory, or the first one if it does not lie below. -/
def dropped (c : Cache) (source : Path) : Nat :=
  if (c.base.below? (c.placeOf source)).isSome then c.base.names.length else 1

theorem namesFor_eq_drop (h : (c.placeOf source).isAbsolute = false) :
    c.namesFor source = (c.placeOf source).names.drop (c.dropped source) := by
  rw [namesFor_eq, dropped]
  cases hb : c.base.below? (c.placeOf source) with
  | none => simp [Path.namesAfterFirst, h]
  | some rest =>
      rw [Path.below?_eq_some_iff] at hb
      simp [hb]

theorem isAbsolute_placeOf (c : Cache) (source : Path) :
    (c.placeOf source).isAbsolute = (c.base.isAbsolute || source.isAbsolute) := by
  cases source with
  | mk anchor names => cases anchor <;> simp [placeOf, Path.join, Path.normal, Path.isAbsolute]

theorem above_mem_namesFor_iff :
    FileName.above ∈ c.namesFor source ↔
      c.base.isAbsolute = false ∧ source.isAbsolute = false ∧
        c.dropped source < (c.placeOf source).names.count FileName.above := by
  cases hplace : (c.placeOf source).isAbsolute with
  | true =>
      have habs := hplace
      rw [isAbsolute_placeOf, Bool.or_eq_true] at habs
      have hnot : FileName.above ∉ c.namesFor source := by
        intro hm
        have hnames := mem_of_mem_namesFor hm
        have hjoin : (c.base.join source).isAbsolute = true := hplace
        simp only [Path.normal, hjoin] at hnames
        exact Path.above_not_mem_normalNames _ hnames
      simp only [hnot, false_iff]
      rintro ⟨hbase, hsource, -⟩
      rcases habs with h | h
      · rw [hbase] at h
        cases h
      · rw [hsource] at h
        cases h
  | false =>
      rw [namesFor_eq_drop hplace]
      rw [isAbsolute_placeOf, Bool.or_eq_false_iff] at hplace
      simp only [hplace.1, hplace.2, true_and]
      exact Path.above_mem_drop_normalNames_iff

/-- A projection is written at or below the root, as its path spells it, unless the base
directory and the document's path are both relative and the document's place starts with more
two dots than names of it are dropped. -/
theorem pathFor_isWithin_iff (c : Cache) (source : Path) :
    ((c.root.IsWithin (c.pathFor source)) ↔
      c.base.isAbsolute = true ∨ source.isAbsolute = true ∨
        (c.placeOf source).names.count FileName.above ≤ c.dropped source) ∧
    ∀ (p : Projection) (t : FileTree) (target : Path),
      (c.write source p t).1 = .ok target → target = c.pathFor source := by
  constructor
  · have hwithin : c.root.IsWithin (c.pathFor source) ↔ FileName.above ∉ c.namesFor source := by
      constructor
      · rintro ⟨names, hnames, habove⟩
        obtain rfl : c.namesFor source = names := by simpa [pathFor] using hnames
        exact habove
      · intro habove
        exact ⟨c.namesFor source, rfl, habove⟩
    rw [hwithin, above_mem_namesFor_iff, not_and_or, not_and_or, Bool.not_eq_false,
      Bool.not_eq_false, Nat.not_lt]
  · intro p t target hwrite
    rw [write] at hwrite
    split at hwrite
    · cases hwrite
    · split at hwrite
      · split at hwrite
        · cases hwrite
        · exact (Except.ok.inj hwrite).symm
      · split at hwrite <;> cases hwrite

/-- Seen from the current directory, a document in the directory above it is projected beside
the root. -/
theorem not_isWithin_currentBase :
    let c : Cache := ⟨⟨.slash, [['r']]⟩, ⟨.relative, []⟩⟩
    let source : Path := ⟨.relative, [['.', '.'], ['y']]⟩
    c.pathFor source = ⟨.slash, [['r'], ['.', '.'], ['y']]⟩ ∧
      ¬ c.root.IsWithin (c.pathFor source) := by
  refine ⟨by decide, ?_⟩
  rw [(pathFor_isWithin_iff _ _).1]
  decide

end Cache

end FrontLint
