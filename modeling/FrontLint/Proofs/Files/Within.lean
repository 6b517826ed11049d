import FrontLint.Proofs.Files.Operation

/-!
# Trees below a root

A path whose last name is no link names its directory or its file. Below such a directory
without links, names other than dots lead straight down, so an operation on a path behind the
root reaches the location that the names spell and no other one.
-/

namespace FrontLint

/-- A name that leads to no directory above. -/
structure FileName.IsPlain (name : FileName) : Prop where
  isRead : name.IsRead
  ne_above : name ≠ FileName.above

instance (name : FileName) : Decidable name.IsPlain :=
  decidable_of_iff (name.IsRead ∧ name ≠ FileName.above)
    ⟨fun h => ⟨h.1, h.2⟩, fun h => ⟨h.isRead, h.ne_above⟩⟩

namespace FileTree

section

variable {t : FileTree} {location : Location}

/-- What is put over nothing or over a file leaves every directory and every link. -/
theorem find?_put_of_replaceable (hne : location ≠ [])
    (hold : t.find? location = none ∨ ∃ old, t.find? location = some (.file old))
    {entry found : Entry} (hkind : ∀ content, found ≠ .file content) {other : Location}
    (h : t.find? other = some found) : (t.put location entry).find? other = some found := by
  rw [find?_put t hne, if_neg]
  · exact h
  · rintro rfl
    rcases hold with hnone | ⟨old, hfile⟩
    · rw [hnone] at h
      cases h
    · rw [hfile] at h
      exact hkind old (Option.some.inj h).symm

theorem Leads.put_of_replaceable {links left : Nat} {directory place : Location}
    {names : List FileName} (h : t.Leads links directory names left place)
    (hne : location ≠ [])
    (hold : t.find? location = none ∨ ∃ old, t.find? location = some (.file old))
    (entry : Entry) : (t.put location entry).Leads links directory names left place :=
  h.mono (fun _ => find?_put_of_replaceable hne hold (by simp))
    fun _ _ => find?_put_of_replaceable hne hold (by simp)

end

/-- A path leads to a directory by its last name, which is no link. -/
structure NamesDirectory (t : FileTree) (p : Path) (place : Location) : Prop where
  exists_leads : ∃ front name left parent, p.names = front ++ [name] ∧
    place = parent ++ [name] ∧ name.IsDownward ∧
    t.Leads maxLinks (t.origin p) front left parent
  isDirectory : t.find? place = some .directory

namespace NamesDirectory

variable {t t' : FileTree} {p : Path} {place : Location}

theorem ne_nil (h : t.NamesDirectory p place) : place ≠ [] := by
  obtain ⟨front, name, left, parent, -, rfl, -⟩ := h.exists_leads
  simp

theorem leads (h : t.NamesDirectory p place) :
    ∃ left, t.Leads maxLinks (t.origin p) p.names left place := by
  obtain ⟨front, name, left, parent, hp, rfl, hn, hl⟩ := h.exists_leads
  rw [hp]
  exact ⟨left, hl.append (.down hn h.isDirectory .done)⟩

theorem locate (h : t.NamesDirectory p place) (last : Bool) (hr : p.IsRead)
    (ht : Takes p.text) : t.locate last p.text = .found place .directory := by
  obtain ⟨front, name, left, parent, hp, rfl, hn, hl⟩ := h.exists_leads
  rw [locate_text_of_takes t last hr ht, hp, hl.follow_append (.inl (by simp)),
    follow_directory hn h.isDirectory, follow_nil]

theorem mono (h : t.NamesDirectory p place) (hcur : t'.current = t.current)
    (hdir : ∀ location, t.find? location = some .directory →
      t'.find? location = some .directory)
    (hlink : ∀ location target, t.find? location = some (.link target) →
      t'.find? location = some (.link target)) : t'.NamesDirectory p place := by
  obtain ⟨front, name, left, parent, hp, hplace, hn, hl⟩ := h.exists_leads
  have horigin : t'.origin p = t.origin p := by simp only [origin, hcur]
  constructor
  case isDirectory => exact hdir _ h.isDirectory
  case exists_leads =>
    rw [horigin]
    exact ⟨front, name, left, parent, hp, hplace, hn, hl.mono hdir hlink⟩

end NamesDirectory

/-- A path leads to a file by its last name, which is no link. -/
structure NamesFile (t : FileTree) (p : Path) (location : Location) (content : Bytes) :
    Prop where
  exists_leads : ∃ front name left parent, p.names = front ++ [name] ∧
    location = parent ++ [name] ∧ name.IsDownward ∧
    t.Leads maxLinks (t.origin p) front left parent
  isFile : t.find? location = some (.file content)

namespace NamesFile

variable {t t' : FileTree} {p : Path} {location : Location} {content : Bytes}

theorem read (h : t.NamesFile p location content) (hr : p.IsRead) (ht : Takes p.text) :
    t.read p.text = .ok content := by
  obtain ⟨front, name, left, parent, hp, rfl, hn, hl⟩ := h.exists_leads
  have hlocate : t.locate true p.text = .found (parent ++ [name]) (.file content) := by
    rw [locate_text_of_takes t true hr ht, hp, hl.follow_append (.inl (by simp)),
      follow_file hn h.isFile, if_pos rfl]
  have hnul : ¬ p.text.contains '\x00' = true := by simpa using ht.nul_not_mem
  rw [FileTree.read, if_neg hnul, hlocate]

/-- What is put over nothing or over another file leaves a file where it is. -/
theorem put (h : t.NamesFile p location content) {other : Location} {entry : Entry}
    (hne : other ≠ []) (hother : other ≠ location)
    (hold : t.find? other = none ∨ ∃ old, t.find? other = some (.file old)) :
    (t.put other entry).NamesFile p location content := by
  obtain ⟨front, name, left, parent, hp, hplace, hn, hl⟩ := h.exists_leads
  constructor
  case exists_leads =>
    exact ⟨front, name, left, parent, hp, hplace, hn, hl.put_of_replaceable hne hold entry⟩
  case isFile =>
    rw [find?_put t hne, if_neg (Ne.symm hother)]
    exact h.isFile

end NamesFile

/-- Nothing at or below a place is a link. -/
def LinkFree (t : FileTree) (place : Location) : Prop :=
  ∀ location target, place <+: location → t.find? location ≠ some (.link target)

end FileTree

/-- Whether a place, if any, is a location. -/
def Place.IsAt (t : FileTree) (location : Location) : Place → Prop
  | .found place entry => place = location ∧ t.find? location = some entry
  | .free directory name => directory ++ [name] = location ∧ t.find? location = none
  | .refused _ => True

namespace FileTree

section

variable {t : FileTree} {place : Location}

/-- Without links and dots, names lead to the location that they spell. -/
theorem follow_isAt (hlinks : t.LinkFree place) (hd : t.find? place = some .directory)
    {names : List FileName} (hplain : ∀ name ∈ names, name.IsPlain) (last : Bool)
    (links : Nat) : (t.follow last links place names).IsAt t (place ++ names) := by
  induction names generalizing place with
  | nil =>
      rw [follow_nil, List.append_nil]
      exact ⟨rfl, hd⟩
  | cons name rest ih =>
      have hname := hplain name (by simp)
      rcases FileName.cases name with rfl | rfl | ⟨hh, ha, hl⟩ | hn
      · exact absurd rfl hname.isRead.ne_here
      · exact absurd rfl hname.ne_above
      · rw [follow_tooLong hh ha hl]
        trivial
      · cases hf : t.find? (place ++ [name]) with
        | none =>
            rw [follow_missing hn hf]
            split
            · rename_i hr
              rw [hr]
              exact ⟨rfl, hf⟩
            · trivial
        | some entry =>
            cases entry with
            | directory =>
                rw [follow_directory hn hf, List.append_cons place name rest]
                refine ih (fun location target hp => hlinks location target ?_) hf
                  fun other hother => hplain other (by simp [hother])
                exact (List.prefix_append _ _).trans hp
            | file content =>
                rw [follow_file hn hf]
                split
                · rename_i hr
                  rw [hr]
                  exact ⟨rfl, hf⟩
                · trivial
            | link target =>
                exact absurd hf (hlinks _ _ (List.prefix_append _ _))

/-- Without links and dots, names that lead somewhere lead straight down to their last one. -/
theorem leads_of_follow (hlinks : t.LinkFree place) {names : List FileName}
    (hplain : ∀ name ∈ names, name.IsPlain) (hne : names ≠ []) {last : Bool} {links : Nat}
    (h : ∀ cause, t.follow last links place names ≠ .refused cause) :
    ∃ front name, names = front ++ [name] ∧ name.IsDownward ∧
      t.Leads links place front links (place ++ front) := by
  induction names generalizing place with
  | nil => exact absurd rfl hne
  | cons name rest ih =>
      have hname := hplain name (by simp)
      have hdown : name.IsDownward := by
        rcases FileName.cases name with rfl | rfl | ⟨hh, ha, hl⟩ | hn
        · exact absurd rfl hname.isRead.ne_here
        · exact absurd rfl hname.ne_above
        · exact absurd (follow_tooLong hh ha hl) (h .nameTooLong)
        · exact hn
      by_cases hrest : rest = []
      · subst hrest
        exact ⟨[], name, rfl, hdown, by simpa using .done⟩
      · have hdirectory : t.find? (place ++ [name]) = some .directory := by
          cases hf : t.find? (place ++ [name]) with
          | none => exact absurd (by rw [follow_missing hdown hf, if_neg hrest]) (h .missing)
          | some entry =>
              cases entry with
              | directory => rfl
              | file content =>
                  exact absurd (by rw [follow_file hdown hf, if_neg hrest]) (h .notDirectory)
              | link target => exact absurd hf (hlinks _ _ (List.prefix_append _ _))
        rw [follow_directory hdown hdirectory] at h
        obtain ⟨front, final, hsplit, hfinal, hleads⟩ :=
          ih (fun location target hp => hlinks location target
              ((List.prefix_append _ _).trans hp))
            (fun other hother => hplain other (by simp [hother])) hrest h
        refine ⟨name :: front, final, by rw [hsplit, List.cons_append], hfinal, ?_⟩
        rw [List.append_cons place name front]
        exact .down hdown hdirectory hleads

/-- What stands below a place that a path names, behind that path. -/
theorem follow_isAt_of_namesDirectory {p : Path} (h : t.NamesDirectory p place)
    (hlinks : t.LinkFree place) {names : List FileName}
    (hplain : ∀ name ∈ names, name.IsPlain) {last : Bool} (hl : names ≠ [] ∨ last = true) :
    (t.follow last maxLinks (t.origin p) (p.names ++ names)).IsAt t (place ++ names) := by
  obtain ⟨left, hleads⟩ := h.leads
  rw [hleads.follow_append hl]
  exact follow_isAt hlinks h.isDirectory hplain last left

end

end FileTree

end FrontLint
