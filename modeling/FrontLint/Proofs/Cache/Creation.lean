import FrontLint.Proofs.Cache.Confined
import FrontLint.Proofs.Files.Contents

/-!
# Creation of a cache

Making a cache makes the directory chosen for caches, with those above it that are missing,
and in it a root that was not there. Nothing else changes, and the new cache is confined to
its root. What the cache is asked to do from then on is an action, which takes a file tree and
leaves one, so actions can be done one after another.
-/

namespace FrontLint

namespace FileTree

/-- Directories on the way of a path that were missing in a tree and are made in another
one, which has nothing else. -/
structure MakesDirectories (p : Path) (before : FileTree) (made : List Location)
    (after : FileTree) : Prop where
  eq_withDirectories : after = before.withDirectories made
  missing : ∀ location ∈ made, before.find? location = none
  leads : ∀ location ∈ made, ∃ names, names <+: p.names ∧
    Takes (Path.mk p.anchor names).text ∧
    ∃ left, after.Leads maxLinks (after.origin p) names left location

theorem find?_eq_none_of_isPrefix {t : FileTree} (hw : t.WellFormed) {free location : Location}
    (hf : t.find? free = none) (hp : free <+: location) : t.find? location = none := by
  have hne : location ≠ [] := by
    rintro rfl
    rw [List.prefix_nil.1 hp, find?_nil] at hf
    cases hf
  cases hl : t.find? location with
  | none => rfl
  | some entry => exact absurd hp (not_isPrefix_of_mem hw hf (mem_of_find?_eq_some hne hl))

/-- Links and directories stay when a directory is put at a free location. -/
theorem find?_put_of_find?_eq_none {t : FileTree} {location other : Location} {entry : Entry}
    {old : Entry} (hne : location ≠ []) (hf : t.find? location = none)
    (h : t.find? other = some old) : (t.put location entry).find? other = some old := by
  rw [find?_put t hne, if_neg]
  · exact h
  · rintro rfl
    rw [hf] at h
    cases h

theorem Leads.put {t : FileTree} {links left : Nat} {directory place location : Location}
    {names : List FileName} (h : t.Leads links directory names left place)
    (hne : location ≠ []) (hf : t.find? location = none) (entry : Entry) :
    (t.put location entry).Leads links directory names left place :=
  h.mono (fun _ => find?_put_of_find?_eq_none hne hf)
    fun _ _ => find?_put_of_find?_eq_none hne hf

section

variable {before after next : FileTree} {p : Path} {made : List Location}

theorem MakesDirectories.refl (p : Path) (t : FileTree) : MakesDirectories p t [] t := by
  constructor
  case eq_withDirectories => exact (withDirectories_nil t).symm
  case missing => simp
  case leads => simp

/-- One more directory of the path is made at a location that was missing from the start. -/
theorem MakesDirectories.makeDirectory (h : MakesDirectories p before made after)
    (hw : after.WellFormed) (hr : p.IsRead) {names : List FileName} (hn : names <+: p.names)
    (hm : after.makeDirectory (Path.mk p.anchor names).text = .ok next) :
    next.WellFormed ∧ ∃ location, MakesDirectories p before (made ++ [location]) next := by
  have hread : (Path.mk p.anchor names).IsRead := fun name hname => hr name (hn.subset hname)
  obtain ⟨parent, name, hfollow, rfl⟩ := makeDirectory_text hread hm
  obtain ⟨front, left, rfl, hleads, hdown, hfree⟩ := LeadsToFree.of_follow hfollow
  have hne : parent ++ [name] ≠ [] := by simp
  have hparent := hleads.find?_eq_directory hw (hw.origin _)
  refine ⟨hw.put hparent (by simp [hfree]), parent ++ [name], ?_⟩
  constructor
  case eq_withDirectories =>
    rw [put_directory_of_find?_eq_none hne hfree, h.eq_withDirectories,
      withDirectories_append]
  case missing =>
    intro location hl
    rcases List.mem_append.1 hl with hl | hl
    · exact h.missing location hl
    · obtain rfl := List.mem_singleton.1 hl
      cases hb : before.find? (parent ++ [name]) with
      | none => rfl
      | some entry =>
          rw [h.eq_withDirectories, find?_withDirectories made hb] at hfree
          cases hfree
  case leads =>
    intro location hl
    rcases List.mem_append.1 hl with hl | hl
    · obtain ⟨names, hnames, ht, left, hleads⟩ := h.leads location hl
      exact ⟨names, hnames, ht, left, hleads.put hne hfree .directory⟩
    · obtain rfl := List.mem_singleton.1 hl
      refine ⟨front ++ [name], hn, takes_of_makeDirectory hm, left, ?_⟩
      refine (hleads.put hne hfree .directory).append (.down hdown ?_ .done)
      rw [find?_put _ hne, if_pos rfl]

theorem makesDirectories_ensurePath (hw : before.WellFormed) (hr : p.IsRead) :
    (before.ensurePath p).2.WellFormed ∧
      ∃ made, MakesDirectories p before made (before.ensurePath p).2 := by
  refine ensurePath_keeps p (P := fun t => t.WellFormed ∧ ∃ made, MakesDirectories p before made t)
    ?_ ⟨hw, [], .refl p before⟩
  rintro t t' front hfront ⟨hwt, made, hmade⟩ hm
  obtain ⟨hwt', location, hnext⟩ := hmade.makeDirectory hwt hr hfront hm
  exact ⟨hwt', _, hnext⟩

/-- The directories that were made are those to which the path leads on its way. -/
theorem MakesDirectories.locate (h : MakesDirectories p before made after) (hr : p.IsRead)
    {location : Location} (hl : location ∈ made) : ∃ names, names <+: p.names ∧
      after.locate true (Path.mk p.anchor names).text = .found location .directory := by
  obtain ⟨names, hnames, ht, left, hleads⟩ := h.leads location hl
  have hread : (Path.mk p.anchor names).IsRead := fun name hname => hr name (hnames.subset hname)
  refine ⟨names, hnames, ?_⟩
  rw [locate_text_of_takes after true hread ht]
  exact hleads.follow_eq

end

end FileTree

namespace Cache

variable {directory base : Path} {name : FileName} {t : FileTree} {c : Cache}

theorem create_eq_ok (h : (create directory base name t).1.result = .ok c) :
    c = ⟨.ofText (Glob.attach directory.text name), base⟩ ∧
      (t.ensurePath directory).2.makeDirectory (Glob.attach directory.text name) =
        .ok (create directory base name t).2 := by
  rw [create] at h ⊢
  split at h
  · cases h
  · rename_i he
    rw [he]
    simp only at h ⊢
    split at h
    · cases h
    · rename_i hm
      rw [hm]
      cases h
      exact ⟨rfl, rfl⟩

theorem create_eq_error {fault : Fault}
    (h : (create directory base name t).1.result = .error fault) :
    (create directory base name t).2 = (t.ensurePath directory).2 := by
  rw [create] at h ⊢
  split at h
  · rename_i he
    rw [he]
  · rename_i he
    rw [he]
    simp only at h ⊢
    split at h
    · rfl
    · cases h

/-- A name under which a root can be made in a directory to which a path leads. -/
structure RootFree (directory : Path) (name : FileName) (t : FileTree) (parent : Location) :
    Prop where
  takes : FileTree.Takes (Glob.attach directory.text name)
  isDownward : name.IsDownward
  exists_leads : ∃ left,
    t.Leads FileTree.maxLinks (t.origin directory) directory.names left parent
  isDirectory : t.find? parent = some .directory
  free : t.find? (parent ++ [name]) = none

namespace RootFree

variable {parent : Location}

theorem locate (h : RootFree directory name t parent) (hd : directory.IsRead)
    (hname : name.IsPlain) :
    t.locate false (Glob.attach directory.text name) = .free parent name := by
  obtain ⟨left, hleads⟩ := h.exists_leads
  rw [FileTree.locate_attach t false hd hname.isRead h.takes,
    hleads.follow_append (.inl (by simp)), FileTree.follow_missing h.isDownward h.free, if_pos rfl]

theorem locate_child (h : RootFree directory name t parent) (hd : directory.IsRead)
    (hname : name.IsPlain) (last : Bool) :
    t.locate last (directory.child name).text = .free parent name := by
  obtain ⟨left, hleads⟩ := h.exists_leads
  have hfollow := @FileTree.Leads.follow_append _ _ _ _ _ _ hleads last [name] (.inl (by simp))
  rw [FileTree.follow_missing h.isDownward h.free, if_pos rfl] at hfollow
  rw [FileTree.locate_text_of_takes t last (Path.isRead_child hd hname.isRead)
    (FileTree.takes_child hd hname.isRead h.takes)]
  exact hfollow

theorem entryAt?_child (h : RootFree directory name t parent) (hd : directory.IsRead)
    (hname : name.IsPlain) (last : Bool) :
    t.entryAt? last (directory.child name).text = none := by
  have ht := FileTree.takes_child hd hname.isRead h.takes
  rw [FileTree.entryAt?, if_neg (by simpa using ht.nul_not_mem), h.locate_child hd hname]

/-- With a directory under such a name, the path of the root leads to it. -/
theorem namesDirectory (h : RootFree directory name t parent) :
    (t.put (parent ++ [name]) .directory).NamesDirectory (directory.child name)
      (parent ++ [name]) := by
  obtain ⟨left, hleads⟩ := h.exists_leads
  have hne : parent ++ [name] ≠ [] := by simp
  constructor
  case exists_leads =>
    exact ⟨directory.names, name, left, parent, rfl, rfl, h.isDownward,
      hleads.put hne h.free .directory⟩
  case isDirectory => rw [FileTree.find?_put _ hne, if_pos rfl]

/-- Under such a name a root is made. -/
theorem create_eq (h : RootFree directory name (t.ensurePath directory).2 parent)
    (base : Path) (hd : directory.IsRead) (hname : name.IsPlain)
    (hok : (t.ensurePath directory).1 = .ok ()) :
    (create directory base name t).1.result = .ok ⟨directory.child name, base⟩ ∧
      (create directory base name t).2 =
        (t.ensurePath directory).2.put (parent ++ [name]) .directory := by
  have hm : (t.ensurePath directory).2.makeDirectory (Glob.attach directory.text name) =
      .ok ((t.ensurePath directory).2.put (parent ++ [name]) .directory) :=
    (FileTree.makeDirectory_eq_ok_iff h.takes).2
      ⟨parent, name, h.locate hd hname, h.isDirectory, rfl⟩
  rw [create]
  cases hens : t.ensurePath directory with
  | mk result made =>
      rw [hens] at hok hm
      cases hok
      simp only [hm, Path.ofText_attach hd hname.isRead]
      exact ⟨trivial, trivial⟩

end RootFree

/-- A root is made only under such a name. -/
theorem exists_rootFree (hd : directory.IsRead) (hname : name.IsPlain)
    (h : (create directory base name t).1.result = .ok c) :
    c = ⟨directory.child name, base⟩ ∧ (t.ensurePath directory).1 = .ok () ∧
      ∃ parent, RootFree directory name (t.ensurePath directory).2 parent ∧
        (create directory base name t).2 =
          (t.ensurePath directory).2.put (parent ++ [name]) .directory := by
  have hok : (t.ensurePath directory).1 = .ok () := by
    rw [create] at h
    cases hens : t.ensurePath directory with
    | mk result made =>
        rw [hens] at h
        cases result with
        | ok done => rfl
        | error fault => cases h
  obtain ⟨rfl, hm⟩ := create_eq_ok h
  have ht := FileTree.takes_of_makeDirectory hm
  obtain ⟨parent, last, hl, hparent, hafter⟩ := (FileTree.makeDirectory_eq_ok_iff ht).1 hm
  rw [FileTree.locate_attach _ false hd hname.isRead ht] at hl
  obtain ⟨front, left, hs, hleads, hdown, hfree⟩ := FileTree.LeadsToFree.of_follow hl
  obtain ⟨rfl, hlast⟩ := List.append_inj' hs rfl
  obtain rfl := List.singleton_inj.1 hlast
  rw [Path.ofText_attach hd hname.isRead]
  exact ⟨rfl, hok, parent, ⟨ht, hdown, ⟨left, hleads⟩, hparent, hfree⟩, hafter⟩

/-- A root that was made is there. -/
theorem isNamed_create (hd : directory.IsRead) (hname : name.IsPlain)
    (h : (create directory base name t).1.result = .ok c) :
    (create directory base name t).2.isNamed c.root.text = true := by
  obtain ⟨rfl, -, parent, hroot, hafter⟩ := exists_rootFree hd hname h
  have ht := FileTree.takes_child hd hname.isRead hroot.takes
  rw [hafter, FileTree.isNamed, FileTree.entryAt?, if_neg (by simpa using ht.nul_not_mem),
    hroot.namesDirectory.locate false (Path.isRead_child hd hname.isRead) ht]
  rfl

/-- A new cache is confined to an empty root to which no path led before. -/
theorem confined_create (hw : t.WellFormed) (hd : directory.IsRead) (hname : name.IsPlain)
    (hb : base.IsRead) (habs : base.isAbsolute = true)
    (h : (create directory base name t).1.result = .ok c) :
    (t.ensurePath directory).2.isNamed c.root.text = false ∧
      ∃ place, Confined c place (t.ensurePath directory).2 (create directory base name t).2 ∧
        (create directory base name t).2.EmptyAt place := by
  obtain ⟨rfl, -, parent, hroot, hafter⟩ := exists_rootFree hd hname h
  have hfree := hroot.free
  have hmade := (FileTree.makesDirectories_ensurePath hw hd).1
  have hne : parent ++ [name] ≠ [] := by simp
  have hread := Path.isRead_child hd hname.isRead
  have hchild := FileTree.takes_child hd hname.isRead hroot.takes
  rw [hafter]
  refine ⟨?_, parent ++ [name], ?_, ?_⟩
  · rw [FileTree.isNamed, hroot.entryAt?_child hd hname]
    rfl
  · constructor
    case isRead => exact hread
    case takes => exact hchild
    case base_isRead => exact hb
    case base_isAbsolute => exact habs
    case namesDirectory => exact hroot.namesDirectory
    case linkFree =>
      intro location target hp
      rw [FileTree.find?_put _ hne]
      split
      · simp
      · rw [FileTree.find?_eq_none_of_isPrefix hmade hfree hp]
        simp
    case removeBelow_eq =>
      rw [FileTree.removeBelow_put _ _ (List.prefix_refl _)]
      exact FileTree.removeBelow_of_find?_eq_none hmade hfree
  · intro e he hp
    rcases FileTree.mem_put he with rfl | he
    · rfl
    · exact absurd hp (FileTree.not_isPrefix_of_mem hmade hfree he)

end Cache

/-! ## What a cache is asked to do -/

namespace Cache

variable [HashSeed]

/-- What a cache is asked to do. -/
inductive Action where
  | write (source : Path) (p : Projection)
  | process (file : List Char)
  | remove

inductive Answer where
  | written (result : Except Fault Path)
  | processed (result : Noted Fault (Option Path))
  | removed (notes : List Note)

def act (c : Cache) (t : FileTree) : Action → Answer × FileTree
  | .write source p => (c.write source p t).map .written id
  | .process file => (c.process file t).map .processed id
  | .remove => (c.remove t).map .removed id

/-- What an action asks the cache to write on a tree, if anything. -/
def request? (c : Cache) (t : FileTree) : Action → Option (Path × Projection)
  | .write source p => some (source, p)
  | .process file =>
    match (c.project file t).result with
    | .ok (some p) => some (.ofText file, p)
    | _ => none
  | .remove => none

/-- The answers to actions done one after another, each with the tree after it. -/
def history (c : Cache) : List Action → FileTree → List (Answer × FileTree)
  | [], _ => []
  | action :: rest, t => c.act t action :: history c rest (c.act t action).2

end Cache

end FrontLint
