import FrontLint.Proofs.Cache.RelativeBase
import FrontLint.Proofs.Files.PathJoin

/-!
# Base directories as they are given

The place of a document is normalised together with the base directory, and then looked for
below the base directory as it was given. A document named by a relative path without two dots
is found there exactly if the base directory was given in its normal form. It is then kept under
its own names; otherwise the normal names of the base directory stand in front of them, without
the first one if they are relative.
-/

namespace FrontLint

namespace Path

theorem length_foldl_descend_le (absolute : Bool) (names above : List FileName) :
    (names.foldl (descend absolute) above).length ≤ names.length + above.length := by
  induction names generalizing above with
  | nil => simp
  | cons name rest ih =>
      have hstep : (descend absolute above name).length ≤ above.length + 1 := by
        rw [descend.eq_def]
        split
        · cases above with
          | nil => cases absolute <;> simp
          | cons nearest above =>
              simp only
              split <;> simp only [List.length_cons] <;> omega
        · simp
      have hrest := ih (descend absolute above name)
      rw [List.foldl_cons, List.length_cons]
      omega

theorem length_normalNames_le (absolute : Bool) (names : List FileName) :
    (normalNames absolute names).length ≤ names.length := by
  rw [normalNames, List.length_reverse]
  exact length_foldl_descend_le absolute names []

/-- In a relative path two dots in front stay. -/
theorem normalNames_replicate_above (count : Nat) :
    normalNames false (List.replicate count FileName.above) =
      List.replicate count FileName.above := by
  have hfold : ∀ n, (List.replicate count FileName.above).foldl (descend false)
      (List.replicate n FileName.above) = List.replicate (count + n) FileName.above := by
    intro n
    induction count generalizing n with
    | zero => simp
    | succ count ih =>
        have hstep : descend false (List.replicate n FileName.above) FileName.above =
            List.replicate (n + 1) FileName.above := by
          cases n <;> simp [descend, List.replicate_succ]
        rw [List.replicate_succ, List.foldl_cons, hstep, ih]
        congr 1
        omega
  simpa [normalNames] using congrArg List.reverse (hfold 0)

theorem normalNames_normalNames (absolute : Bool) (names : List FileName) :
    normalNames absolute (normalNames absolute names) = normalNames absolute names := by
  cases absolute with
  | true => exact normalNames_of_not_mem true (above_not_mem_normalNames names)
  | false =>
      obtain ⟨count, rest, h, hrest⟩ := exists_normalNames_eq false names
      rw [h, normalNames_append false _ hrest, normalNames_replicate_above]

/-- Names are found in front of their normal ones only if they are normal. -/
theorem isPrefix_normalNames_append_iff {absolute : Bool} {names rest : List FileName}
    (h : FileName.above ∉ rest) :
    names <+: normalNames absolute names ++ rest ↔ normalNames absolute names = names := by
  constructor
  · intro hprefix
    rcases List.prefix_or_prefix_of_prefix hprefix (List.prefix_append _ rest) with hle | hle
    · exact (hle.eq_of_length_le (length_normalNames_le absolute names)).symm
    · obtain ⟨more, hmore⟩ := hle
      -- the names behind the normal ones are the first of the rest, so none of them is two dots
      have hrest : more <+: rest := by
        rw [← List.prefix_append_right_inj (normalNames absolute names), hmore]
        exact hprefix
      have habove : FileName.above ∉ more := fun hm => h (hrest.subset hm)
      calc normalNames absolute names
          = normalNames absolute (normalNames absolute names ++ more) := by rw [hmore]
        _ = normalNames absolute names ++ more := by
          rw [normalNames_append absolute _ habove, normalNames_normalNames]
        _ = names := hmore
  · intro hnormal
    rw [hnormal]
    exact List.prefix_append _ _

/-- Names without two dots stay behind a path that is normalised. -/
theorem normal_join (base : Path) {source : Path} (hrel : source.isAbsolute = false)
    (habove : FileName.above ∉ source.names) :
    (base.join source).normal = base.normal.join source := by
  have hanchor := anchor_of_isAbsolute_eq_false hrel
  rw [join_of_relative _ hanchor, join_of_relative _ hanchor, normal, normal,
    normalNames_append _ _ habove]
  rfl

/-- A path is found below a base only if the base is normal. -/
theorem below?_normal_join (base : Path) {source : Path} (hrel : source.isAbsolute = false)
    (habove : FileName.above ∉ source.names) :
    base.below? (base.normal.join source) =
      if base.normal = base then some source.names else none := by
  rw [join_of_relative _ (anchor_of_isAbsolute_eq_false hrel)]
  split
  · rename_i hnormal
    rw [hnormal]
    exact below?_eq_some_iff.2 rfl
  · rename_i hnormal
    rw [below?, if_neg]
    rintro ⟨-, hprefix⟩
    have hnames := (isPrefix_normalNames_append_iff habove).1 hprefix
    exact hnormal (by rw [normal, hnames])

end Path

namespace Cache

/-- The names under which a document is kept that is named by a relative path without two
dots. -/
theorem namesFor_of_not_mem (c : Cache) {source : Path} (hrel : source.isAbsolute = false)
    (habove : FileName.above ∉ source.names) :
    c.namesFor source =
      if c.base.normal = c.base then source.names
      else (c.base.normal.join source).namesAfterFirst := by
  rw [namesFor_eq, placeOf, Path.normal_join _ hrel habove, Path.below?_normal_join _ hrel habove]
  split <;> rfl

theorem namesAfterFirst_join_eq_iff (base : Path) {source : Path}
    (hrel : source.isAbsolute = false) (hne : source.names ≠ []) :
    (base.join source).namesAfterFirst = source.names ↔
      base.names.length = if base.isAbsolute then 0 else 1 := by
  rw [Path.join_of_relative _ (Path.anchor_of_isAbsolute_eq_false hrel), Path.namesAfterFirst]
  have hpos : 0 < source.names.length := List.length_pos_iff.2 hne
  cases habs : base.isAbsolute with
  | true =>
      have hjoin : Path.isAbsolute ⟨base.anchor, base.names ++ source.names⟩ = true := habs
      simp [hjoin]
  | false =>
      have hjoin : Path.isAbsolute ⟨base.anchor, base.names ++ source.names⟩ = false := habs
      rw [hjoin]
      simp only [Bool.false_eq_true, if_false]
      constructor
      · intro h
        have hlength := congrArg List.length h
        rw [List.length_drop, List.length_append] at hlength
        omega
      · intro h
        rw [← h, List.drop_left]

/-- A document named by a relative path without two dots is mirrored below the root exactly if
the base directory is normal, or if no more of its normal names are left than fall away. Behind
the root of the cache the path of its projection holds its own names, or the normal names of the
base directory and then its own. -/
theorem pathFor_eq_join_iff (c : Cache) {source : Path} (hrel : source.isAbsolute = false)
    (habove : FileName.above ∉ source.names) (hne : source.names ≠ []) :
    (c.pathFor source = c.root.join source ↔
      c.base.normal = c.base ∨
        c.base.normal.names.length = if c.base.isAbsolute then 0 else 1) ∧
    c.root.below? (c.pathFor source) =
      some (if c.base.normal = c.base then source.names
        else (c.base.normal.join source).namesAfterFirst) := by
  have hnames := namesFor_of_not_mem c hrel habove
  constructor
  · have hpath : c.pathFor source = c.root.join source ↔ c.namesFor source = source.names := by
      rw [Path.join_of_relative _ (Path.anchor_of_isAbsolute_eq_false hrel), pathFor]
      simp
    rw [hpath, hnames]
    by_cases hnormal : c.base.normal = c.base
    · simp [hnormal]
    · simp only [hnormal, if_false, false_or]
      exact namesAfterFirst_join_eq_iff c.base.normal hrel hne
  · rw [← hnames]
    exact Path.below?_eq_some_iff.2 rfl

/-- Below a base directory that was given with two dots a document is kept under its place from
the top. -/
theorem pathFor_ne_join_aboveInBase :
    let c : Cache := ⟨⟨.slash, [['r']]⟩, ⟨.slash, [['p'], ['.', '.'], ['q']]⟩⟩
    let source : Path := ⟨.relative, [['a']]⟩
    (source.isAbsolute = false ∧ FileName.above ∉ source.names ∧ source.names ≠ []) ∧
      c.pathFor source = ⟨.slash, [['r'], ['q'], ['a']]⟩ ∧
      c.pathFor source ≠ c.root.join source := by
  refine ⟨by decide, by decide, ?_⟩
  rw [ne_eq, (pathFor_eq_join_iff _ (by decide) (by decide) (by decide)).1]
  decide

end Cache

end FrontLint
