import FrontLint.Proofs.Cache.Creation
import FrontLint.Proofs.Text.Utf8

/-!
# Projections in a cache

A document below the base directory, named by a relative path without two dots, has its
projection under the same names below the root. Writing the projection of a document adds
this file to those below the root and changes no other one.
-/

namespace FrontLint

namespace FileTree

/-- The target of the link at a location. -/
def linkAt? (t : FileTree) (location : Location) : Option (List Char) :=
  match t.find? location with
  | some (.link target) => some target
  | _ => none

theorem linkAt?_eq_some_iff {t : FileTree} {location : Location} {target : List Char} :
    t.linkAt? location = some target ↔ t.find? location = some (.link target) := by
  rw [linkAt?]
  cases t.find? location with
  | none => simp
  | some entry => cases entry <;> simp

theorem resolveNames_cons (t : FileTree) (onLink : Location → List FileName → Location)
    (directory : Location) (name : FileName) (rest : List FileName) :
    t.resolveNames onLink directory (name :: rest) =
      if name = FileName.here then t.resolveNames onLink directory rest
      else if name = FileName.above then t.resolveNames onLink directory.dropLast rest
      else
        match t.linkAt? (directory ++ [name]) with
        | some target => onLink (startOf directory target) (stepsOf target ++ rest)
        | none => t.resolveNames onLink (directory ++ [name]) rest := by
  rw [resolveNames, linkAt?]
  cases t.find? (directory ++ [name]) with
  | none => rfl
  | some entry => cases entry <;> rfl

variable {t t' : FileTree}

theorem resolveNames_eq (h : ∀ location, t'.linkAt? location = t.linkAt? location)
    (onLink : Location → List FileName → Location) (directory : Location)
    (names : List FileName) :
    t'.resolveNames onLink directory names = t.resolveNames onLink directory names := by
  induction names generalizing directory with
  | nil => rfl
  | cons name rest ih => simp only [resolveNames_cons, h, ih]

/-- Where a path resolves to depends on the links of the tree only. -/
theorem resolve_eq (hcur : t'.current = t.current)
    (h : ∀ location, t'.linkAt? location = t.linkAt? location) (p : Path) :
    t'.resolve p = t.resolve p := by
  have hlinks : ∀ links directory names,
      t'.resolveLinks links directory names = t.resolveLinks links directory names := by
    intro links
    induction links with
    | zero =>
        intro directory names
        exact resolveNames_eq h _ directory names
    | succ links ih =>
        intro directory names
        have hon : t'.resolveLinks links = t.resolveLinks links := by
          funext directory names
          exact ih directory names
        rw [resolveLinks, resolveLinks, hon]
        exact resolveNames_eq h _ directory names
  simp only [resolve, hcur, hlinks]

end FileTree

namespace Cache

theorem namesFor_of_relative {c : Cache} (habs : c.base.isAbsolute = true)
    (hnormal : c.base.normal = c.base) {source : Path} (hrel : source.isAbsolute = false)
    (habove : FileName.above ∉ source.names) : c.namesFor source = source.names := by
  have hjoin : c.base.join source = ⟨c.base.anchor, c.base.names ++ source.names⟩ := by
    cases source with
    | mk anchor names =>
        cases anchor with
        | relative => rfl
        | slash => cases hrel
        | twoSlashes => cases hrel
  have hbase : FileName.above ∉ c.base.names := by
    have hnames : Path.normalNames true c.base.names = c.base.names := by
      have hn := congrArg Path.names hnormal
      rwa [Path.normal, habs] at hn
    rw [← hnames]
    exact Path.above_not_mem_normalNames _
  have hplace : (c.base.join source).normal = ⟨c.base.anchor, c.base.names ++ source.names⟩ := by
    rw [hjoin, Path.normal, Path.normalNames_of_not_mem]
    simp [hbase, habove]
  have hbelow : c.base.below? ⟨c.base.anchor, c.base.names ++ source.names⟩ = some source.names :=
    Path.below?_eq_some_iff.2 rfl
  rw [namesFor, hplace, hbelow, Option.getD_some]

namespace Confined

variable {c : Cache} {place : Location} {outer t t' : FileTree}

theorem find?_eq_outer (h : Confined c place outer t) {location : Location}
    (hp : ¬ place <+: location) : t.find? location = outer.find? location := by
  rw [← h.removeBelow_eq, FileTree.find?_removeBelow t h.namesDirectory.ne_nil, if_neg hp]

theorem linkAt?_eq (h : Confined c place outer t) (h' : Confined c place outer t')
    (location : Location) : t'.linkAt? location = t.linkAt? location := by
  by_cases hp : place <+: location
  · have hnone : ∀ t : FileTree, t.LinkFree place → t.linkAt? location = none := by
      intro t hfree
      rw [Option.eq_none_iff_forall_ne_some]
      intro target hl
      exact hfree location target hp (FileTree.linkAt?_eq_some_iff.1 hl)
    rw [hnone t h.linkFree, hnone t' h'.linkFree]
  · rw [FileTree.linkAt?, FileTree.linkAt?, h.find?_eq_outer hp, h'.find?_eq_outer hp]

theorem current_eq (h : Confined c place outer t) : t.current = outer.current := by
  rw [← h.removeBelow_eq]
  rfl

/-- What is written below the root does not change where a path resolves to. -/
theorem resolve_eq (h : Confined c place outer t) (h' : Confined c place outer t') (p : Path) :
    t'.resolve p = t.resolve p :=
  FileTree.resolve_eq (h'.current_eq.trans h.current_eq.symm) (h.linkAt?_eq h') p

/-- Nothing that is there when the root is empty goes away. -/
theorem extends_of_emptyAt (h : Confined c place outer t) (hempty : t.EmptyAt place)
    (h' : Confined c place outer t') : t.Extends t' := by
  constructor
  case current => exact h'.current_eq.trans h.current_eq.symm
  case find? =>
    intro location entry hf
    by_cases hp : place <+: location
    · have hne : location ≠ [] := by
        rintro rfl
        exact h.namesDirectory.ne_nil (List.prefix_nil.1 hp)
      have heq := hempty _ (FileTree.mem_of_find?_eq_some hne hf) hp
      obtain ⟨rfl, rfl⟩ := Prod.mk.injEq .. ▸ heq
      exact h'.namesDirectory.isDirectory
    · rw [h'.find?_eq_outer hp, ← h.find?_eq_outer hp]
      exact hf

end Confined

/-- A written projection is encoded and put where nothing or an older file was. -/
theorem write_eq_ok {c : Cache} {source target : Path} {p : Projection} {t : FileTree}
    (h : (c.write source p t).1 = .ok target) :
    (c.prepared source t).write (c.pathFor source).text (Utf8.encodeChars p.text.toChars) =
      .ok (c.write source p t).2 := by
  rw [write, prepared] at *
  split at h
  · cases h
  · rename_i he
    rw [he]
    simp only at h ⊢
    split at h
    · rename_i content hcontent
      obtain rfl := Utf8.encode_eq_ok hcontent
      split at h
      · cases h
      · rename_i hw
        exact hw
    · split at h <;> cases h

/-- A projection that is written has characters only, and its place is the document's. -/
theorem target_of_write {c : Cache} {source target : Path} {p : Projection} {t : FileTree}
    (h : (c.write source p t).1 = .ok target) :
    target = c.pathFor source ∧ p.text = Text.ofChars p.text.toChars := by
  rw [write] at h
  split at h
  · cases h
  · split at h
    · rename_i content hcontent
      split at h
      · cases h
      · cases h
        exact ⟨rfl, Utf8.eq_ofChars_of_encode hcontent⟩
    · split at h <;> cases h

/-- When a document's fault stops only the document, no file was written. -/
theorem write_eq_error {c : Cache} {source : Path} {p : Projection} {t : FileTree}
    {fault : Fault} (h : (c.write source p t).1 = .error fault)
    (hdoc : fault.isOfDocument = true) : (c.write source p t).2 = c.prepared source t := by
  rw [write, prepared] at *
  split at h
  · rename_i he
    rw [he]
  · rename_i he
    rw [he]
    simp only at h ⊢
    split at h
    · split at h
      · rfl
      · cases h
    · split at h
      · rfl
      · cases h
        cases hdoc

section

variable [HashSeed] {c : Cache} {t : FileTree} {file : List Char}

theorem process_of_ok_none (h : (c.project file t).result = .ok none) :
    (c.process file t).1.result = .ok none ∧ (c.process file t).2 = t := by
  simp only [process, h, and_self]

theorem process_of_error {fault : Fault} (h : (c.project file t).result = .error fault) :
    (c.process file t).1.result = .error fault ∧ (c.process file t).2 = t := by
  simp only [process, h, and_self]

theorem process_of_ok_some {p : Projection} (h : (c.project file t).result = .ok (some p)) :
    (c.process file t).1.result = (c.write (.ofText file) p t).1.map some ∧
      (c.process file t).2 = (c.write (.ofText file) p t).2 := by
  simp only [process, h, and_self]

end

end Cache

end FrontLint
