import FrontLint.Cache
import FrontLint.Proofs.Files.Within

/-!
# The place of a document in a cache

Below an absolute base directory the names under which a document is kept hold no two dots,
wherever the document lies. So its place is below the root.
-/

namespace FrontLint

namespace Path

theorem mem_descend {absolute : Bool} {above : List FileName} {first name : FileName}
    (h : name ∈ descend absolute above first) : name = first ∨ name ∈ above := by
  by_cases hfirst : first = FileName.above
  · cases above with
    | nil => cases absolute <;> simp_all [descend]
    | cons nearest above =>
        by_cases hn : nearest = FileName.above
        · simpa [descend, hfirst, hn] using h
        · rw [descend, if_pos hfirst] at h
          simp only [if_neg hn] at h
          exact .inr (List.mem_cons_of_mem _ h)
  · simpa [descend, hfirst] using h

theorem mem_foldl_descend {absolute : Bool} {names above : List FileName} {name : FileName}
    (h : name ∈ names.foldl (descend absolute) above) : name ∈ names ∨ name ∈ above := by
  induction names generalizing above with
  | nil => exact .inr h
  | cons first rest ih =>
      rcases ih h with h | h
      · exact .inl (List.mem_cons_of_mem _ h)
      · refine (mem_descend h).imp_left ?_
        rintro rfl
        exact List.mem_cons_self

theorem mem_of_mem_normalNames {absolute : Bool} {names : List FileName} {name : FileName}
    (h : name ∈ normalNames absolute names) : name ∈ names := by
  rw [normalNames, List.mem_reverse] at h
  rcases mem_foldl_descend h with h | h
  · exact h
  · simp at h

theorem above_not_mem_descend {above : List FileName} (h : FileName.above ∉ above)
    (first : FileName) : FileName.above ∉ descend true above first := by
  by_cases hfirst : first = FileName.above
  · cases above with
    | nil => simp [descend, hfirst]
    | cons nearest above =>
        have hne : nearest ≠ FileName.above := by
          rintro rfl
          exact h List.mem_cons_self
        rw [descend, if_pos hfirst]
        simp only [if_neg hne]
        exact fun hm => h (List.mem_cons_of_mem _ hm)
  · simp only [descend, if_neg hfirst, List.mem_cons, not_or]
    exact ⟨Ne.symm hfirst, h⟩

theorem above_not_mem_foldl_descend {names above : List FileName}
    (h : FileName.above ∉ above) : FileName.above ∉ names.foldl (descend true) above := by
  induction names generalizing above with
  | nil => exact h
  | cons first rest ih => exact ih (above_not_mem_descend h first)

/-- An absolute path can be normalised to names without two dots. -/
theorem above_not_mem_normalNames (names : List FileName) :
    FileName.above ∉ normalNames true names := by
  rw [normalNames, List.mem_reverse]
  exact above_not_mem_foldl_descend (by simp)

theorem isAbsolute_join {p q : Path} (h : p.isAbsolute = true) :
    (p.join q).isAbsolute = true := by
  cases q with
  | mk anchor names =>
      cases anchor with
      | relative => exact h
      | slash => rfl
      | twoSlashes => rfl

theorem isRead_join {p q : Path} (hp : p.IsRead) (hq : q.IsRead) : (p.join q).IsRead := by
  cases q with
  | mk anchor names =>
      cases anchor with
      | relative =>
          intro name h
          exact (List.mem_append.1 h).elim (hp name) (hq name)
      | slash => exact hq
      | twoSlashes => exact hq

end Path

namespace Cache

variable {c : Cache} {source : Path}

theorem mem_of_mem_namesFor {name : FileName} (h : name ∈ c.namesFor source) :
    name ∈ (c.base.join source).normal.names := by
  rw [namesFor] at h
  cases hb : c.base.below? (c.base.join source).normal with
  | none =>
      rw [hb, Option.getD_none, Path.namesAfterFirst] at h
      split at h
      · exact h
      · exact List.mem_of_mem_drop h
  | some rest =>
      rw [hb, Option.getD_some] at h
      rw [Path.below?_eq_some_iff.1 hb]
      exact List.mem_append_right _ h

/-- Every document has its place at or below the root. -/
theorem isPlain_of_mem_namesFor (hbase : c.base.isAbsolute = true) (hb : c.base.IsRead)
    (hs : source.IsRead) {name : FileName} (h : name ∈ c.namesFor source) : name.IsPlain := by
  have hm := mem_of_mem_namesFor h
  have habs : (c.base.join source).isAbsolute = true := Path.isAbsolute_join hbase
  simp only [Path.normal, habs] at hm
  constructor
  case isRead => exact Path.isRead_join hb hs name (Path.mem_of_mem_normalNames hm)
  case ne_above =>
    rintro rfl
    exact Path.above_not_mem_normalNames _ hm

end Cache

end FrontLint
