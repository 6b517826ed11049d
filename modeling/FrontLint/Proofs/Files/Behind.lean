import FrontLint.Proofs.Files.Within

/-!
# Paths behind a directory

Below a directory without links a path leads down as long as there are directories. At the
first name that is none it ends: at a free name, at a file, or, with more names behind, with a
refusal. So a directory with those above it can be made exactly if no file is on the way.
-/

namespace FrontLint

theorem slashed_isPrefix_append (front more : List FileName) :
    slashed front <+: slashed (front ++ more) := by
  induction front with
  | nil => exact List.nil_prefix
  | cons name rest ih =>
      cases rest with
      | cons next rest =>
          rw [List.cons_append, slashed_cons name (by simp), slashed_cons name (by simp)]
          exact (List.prefix_append_right_inj _).2 (List.cons_prefix_cons.2 ⟨rfl, ih⟩)
      | nil =>
          cases more with
          | nil => exact List.prefix_refl _
          | cons next more => exact List.prefix_append name ('/' :: slashed (next :: more))

theorem not_concat_isPrefix {α : Type} (front : List α) (last : α) :
    ¬ front ++ [last] <+: front := by
  intro hp
  have hlen := hp.length_le
  rw [List.length_append, List.length_singleton] at hlen
  omega

/-- The path of names behind a path. -/
def Path.behind (p : Path) (names : List FileName) : Path := ⟨p.anchor, p.names ++ names⟩

namespace Path

@[simp] theorem behind_nil (p : Path) : p.behind [] = p := by simp [behind]

theorem behind_append (p : Path) (front more : List FileName) :
    p.behind (front ++ more) = (p.behind front).behind more := by simp [behind]

theorem isRead_behind {p : Path} (h : p.IsRead) {names : List FileName}
    (hplain : ∀ name ∈ names, name.IsPlain) : (p.behind names).IsRead := by
  intro name hname
  rcases List.mem_append.1 hname with hname | hname
  · exact h name hname
  · exact (hplain name hname).isRead

theorem parent_behind_concat (p : Path) (front : List FileName) (name : FileName) :
    (p.behind (front ++ [name])).parent = p.behind front := by
  rw [parent, behind, behind, ← List.append_assoc, List.dropLast_concat]

end Path

namespace FileTree

/-- A path is taken if one behind it is. -/
theorem Takes.of_behind {p : Path} {names : List FileName} (h : Takes (p.behind names).text) :
    Takes p.text := by
  cases p with
  | mk anchor front =>
      by_cases hdot : anchor = .relative ∧ front = []
      · obtain ⟨rfl, rfl⟩ := hdot
        exact ⟨by decide, by decide⟩
      · refine h.of_isPrefix ?_
        have htext : ∀ names, (Path.mk anchor (front ++ names)).text =
            anchor.text ++ slashed (front ++ names) := by
          intro names
          cases anchor with
          | slash => rfl
          | twoSlashes => rfl
          | relative =>
              cases front with
              | nil => exact absurd ⟨rfl, rfl⟩ hdot
              | cons first rest => rfl
        have hfront := htext []
        rw [List.append_nil] at hfront
        rw [Path.behind, htext, hfront]
        exact (List.prefix_append_right_inj _).2 (slashed_isPrefix_append front names)

section

variable {t : FileTree} {place : Location} {front rest : List FileName} {name : FileName}

/-- Directories on the whole way of names. -/
def DirectoriesTo (t : FileTree) (place : Location) (names : List FileName) : Prop :=
  ∀ above, above <+: names → t.find? (place ++ above) = some .directory

theorem DirectoriesTo.leads (h : t.DirectoriesTo place front)
    (hdown : ∀ name ∈ front, name.IsDownward) (links : Nat) :
    t.Leads links place front links (place ++ front) := by
  induction front generalizing place with
  | nil =>
      rw [List.append_nil]
      exact .done
  | cons name rest ih =>
      have hnext : t.DirectoriesTo (place ++ [name]) rest := by
        intro above habove
        rw [List.append_assoc]
        exact h (name :: above) (List.cons_prefix_cons.2 ⟨rfl, habove⟩)
      rw [List.append_cons place name rest]
      exact .down (hdown name (by simp)) (h [name] (by simp))
        (ih hnext fun other hother => hdown other (by simp [hother]))

/-- Directories stand on the whole way, or up to a first name that is none. -/
theorem exists_directoriesTo (hd : t.find? place = some .directory) (names : List FileName) :
    t.DirectoriesTo place names ∨ ∃ front name rest, names = front ++ name :: rest ∧
      t.DirectoriesTo place front ∧ t.find? (place ++ (front ++ [name])) ≠ some .directory := by
  induction names using List.reverseRecOn with
  | nil =>
      left
      intro above habove
      rw [List.prefix_nil.1 habove, List.append_nil]
      exact hd
  | append_singleton names last ih =>
      rcases ih with hall | ⟨front, name, rest, rfl, hfront, hne⟩
      · by_cases hlast : t.find? (place ++ (names ++ [last])) = some .directory
        · left
          intro above habove
          rcases List.prefix_concat_iff.1 habove with rfl | habove
          · exact hlast
          · exact hall above habove
        · exact .inr ⟨names, last, [], rfl, hall, hlast⟩
      · exact .inr ⟨front, name, rest ++ [last], by simp, hfront, hne⟩

theorem DirectoriesTo.follow_missing (h : t.DirectoriesTo place front)
    (hdown : ∀ other ∈ front ++ name :: rest, other.IsDownward)
    (hnone : t.find? (place ++ (front ++ [name])) = none) (last : Bool) (links : Nat) :
    t.follow last links place (front ++ name :: rest) =
      if rest = [] then .free (place ++ front) name else .refused .missing := by
  rw [← List.append_assoc] at hnone
  rw [(h.leads (fun other hother => hdown other (by simp [hother])) links).follow_append
    (.inl (by simp)), FileTree.follow_missing (hdown name (by simp)) hnone]

theorem DirectoriesTo.follow_file (h : t.DirectoriesTo place front)
    (hdown : ∀ other ∈ front ++ name :: rest, other.IsDownward) {content : Bytes}
    (hfile : t.find? (place ++ (front ++ [name])) = some (.file content)) (last : Bool)
    (links : Nat) :
    t.follow last links place (front ++ name :: rest) =
      if rest = [] then .found (place ++ (front ++ [name])) (.file content)
      else .refused .notDirectory := by
  rw [← List.append_assoc] at hfile ⊢
  rw [(h.leads (fun other hother => hdown other (by simp [hother])) links).follow_append
    (.inl (by simp)), FileTree.follow_file (hdown name (by simp)) hfile]

end

/-! ## Making directories -/

section

variable {t made : FileTree} {p : Path} {fault : FileFault} {name : FileName}

theorem ensurePath_of_ok (h : t.makeDirectory p.text = .ok made) :
    t.ensurePath p = (.ok (), made) := by
  apply ensureNames_of_ok
  rw [List.reverse_reverse]
  exact h

theorem ensurePath_of_error (h : t.makeDirectory p.text = .error fault)
    (hstop : ¬ fault.IsMissing) : t.ensurePath p = (t.excuse p.text fault, t) := by
  have hnames : (Path.mk p.anchor p.names.reverse.reverse).text = p.text := by
    rw [List.reverse_reverse]
  rw [ensurePath, ensureNames_of_error (hnames ▸ h) (.inl hstop), hnames]

/-- The directory above is made first if it is missing. -/
theorem ensurePath_child_of_missing (h : t.makeDirectory (p.child name).text = .error fault)
    (hmissing : fault.IsMissing) {above : FileTree} (habove : t.ensurePath p = (.ok (), above))
    (hmade : above.makeDirectory (p.child name).text = .ok made) :
    t.ensurePath (p.child name) = (.ok (), made) := by
  have hreverse : (p.child name).names.reverse = name :: p.names.reverse := by simp [Path.child]
  have hnames : (Path.mk p.anchor (name :: p.names.reverse).reverse).text =
      (p.child name).text := by
    simp [Path.child]
  have hens := ensureNames_of_missing (hnames ▸ h) hmissing
  rw [ensurePath] at habove
  simp only [habove, hnames, ensureDirectory, hmade] at hens
  rw [ensurePath, hreverse]
  exact hens

end

section

variable {t : FileTree} {p : Path} {place : Location} {front names : List FileName}
  {name : FileName}

/-- Above a directory that a path names there is one already. -/
theorem NamesDirectory.ensurePath_parent (h : t.NamesDirectory p place) (hr : p.IsRead)
    (ht : Takes p.text) : t.ensurePath p.parent = (.ok (), t) := by
  obtain ⟨front, name, left, parent, hnames, -, -, hleads⟩ := h.exists_leads
  have hparent : p.parent = ⟨p.anchor, front⟩ := by
    rw [Path.parent, hnames, List.dropLast_concat]
  have hbehind : p = p.parent.behind [name] := by
    rw [hparent, Path.behind, ← hnames]
  have hread : p.parent.IsRead := fun name hname => hr name (List.dropLast_subset _ hname)
  have hleads' : t.Leads maxLinks (t.origin p.parent) p.parent.names left parent := by
    rw [hparent]
    exact hleads
  rw [hbehind] at ht
  exact ensurePath_of_leads hread ht.of_behind hleads'

/-- Above what stands below a place there are directories only. -/
def ClosedBelow (t : FileTree) (place : Location) : Prop :=
  ∀ above names entry, t.find? (place ++ names) = some entry → above <+: names →
    above ≠ names → t.find? (place ++ above) = some .directory

/-- A path that leads to a directory, below which there are no links, and names that lead
down from there. -/
structure Reaches (t : FileTree) (p : Path) (place : Location) (names : List FileName) :
    Prop where
  isRead : p.IsRead
  namesDirectory : t.NamesDirectory p place
  linkFree : t.LinkFree place
  closedBelow : t.ClosedBelow place
  isPlain : ∀ name ∈ names, name.IsPlain
  isDownward : ∀ name ∈ names, name.IsDownward
  takes : Takes (p.behind names).text

namespace Reaches

theorem above {more : List FileName} (h : t.Reaches p place (names ++ more)) :
    t.Reaches p place names := by
  constructor
  case isRead => exact h.isRead
  case namesDirectory => exact h.namesDirectory
  case linkFree => exact h.linkFree
  case closedBelow => exact h.closedBelow
  case isPlain => exact fun name hname => h.isPlain name (by simp [hname])
  case isDownward => exact fun name hname => h.isDownward name (by simp [hname])
  case takes =>
    have ht := h.takes
    rw [Path.behind_append] at ht
    exact ht.of_behind

theorem directoriesTo (h : t.Reaches p place names)
    (hd : t.find? (place ++ names) = some .directory) : t.DirectoriesTo place names := by
  intro above habove
  by_cases heq : above = names
  · rw [heq]
    exact hd
  · exact h.closedBelow above names _ hd habove heq

theorem locate (h : t.Reaches p place names) (hne : names ≠ []) :
    ∃ left, ∀ last, t.locate last (p.behind names).text = t.follow last left place names := by
  obtain ⟨left, hleads⟩ := h.namesDirectory.leads
  refine ⟨left, fun last => ?_⟩
  rw [locate_text_of_takes t last (Path.isRead_behind h.isRead h.isPlain) h.takes]
  exact hleads.follow_append (.inl hne)

theorem nul_not_mem (h : t.Reaches p place names) :
    ¬ (p.behind names).text.contains '\x00' = true := by
  simpa using h.takes.nul_not_mem

theorem leads (h : t.Reaches p place names) (hd : t.find? (place ++ names) = some .directory) :
    ∃ left, t.Leads maxLinks (t.origin (p.behind names)) (p.behind names).names left
      (place ++ names) := by
  obtain ⟨left, hleads⟩ := h.namesDirectory.leads
  exact ⟨left, hleads.append ((h.directoriesTo hd).leads h.isDownward left)⟩

/-- A directory is there, and is not made again. -/
theorem ensurePath_of_directory (h : t.Reaches p place names)
    (hd : t.find? (place ++ names) = some .directory) :
    t.ensurePath (p.behind names) = (.ok (), t) := by
  obtain ⟨left, hleads⟩ := h.leads hd
  exact ensurePath_of_leads (Path.isRead_behind h.isRead h.isPlain) h.takes hleads

/-- No file is written in the place of a directory. -/
theorem write_of_directory (h : t.Reaches p place names)
    (hd : t.find? (place ++ names) = some .directory) (content : Bytes) :
    t.write (p.behind names).text content =
      .error (.refused .isDirectory (p.behind names).text) := by
  obtain ⟨left, hleads⟩ := h.leads hd
  rw [FileTree.write, if_neg h.nul_not_mem,
    locate_text_of_takes t true (Path.isRead_behind h.isRead h.isPlain) h.takes, hleads.follow_eq]

/-- In a directory a file is written at a free name, or in the place of another one. -/
theorem write (h : t.Reaches p place (front ++ [name]))
    (hd : t.find? (place ++ front) = some .directory)
    (hlast : t.find? (place ++ (front ++ [name])) ≠ some .directory) (content : Bytes) :
    t.write (p.behind (front ++ [name])).text content =
      .ok (t.put (place ++ (front ++ [name])) (.file content)) := by
  have hfront := h.above.directoriesTo hd
  obtain ⟨left, hlocate⟩ := h.locate (by simp)
  rw [FileTree.write, if_neg h.nul_not_mem, hlocate]
  cases hf : t.find? (place ++ (front ++ [name])) with
  | none =>
      rw [hfront.follow_missing h.isDownward hf, if_pos rfl, ← List.append_assoc]
      exact add_of_find?_eq hd
  | some entry =>
      cases entry with
      | directory => exact absurd hf hlast
      | link target => exact absurd hf (h.linkFree _ target (List.prefix_append _ _))
      | file old => rw [hfront.follow_file h.isDownward hf, if_pos rfl]

/-- The way down ends at the last name, at a free one, or at a file. -/
theorem way_cases (h : t.Reaches p place names) : t.DirectoriesTo place names ∨
    ∃ front name rest, names = front ++ name :: rest ∧ t.DirectoriesTo place front ∧
      (t.find? (place ++ (front ++ [name])) = none ∨
        ∃ content, t.find? (place ++ (front ++ [name])) = some (.file content)) := by
  refine (exists_directoriesTo h.namesDirectory.isDirectory names).imp_right ?_
  rintro ⟨front, name, rest, hs, hfront, hne⟩
  refine ⟨front, name, rest, hs, hfront, ?_⟩
  cases hf : t.find? (place ++ (front ++ [name])) with
  | none => exact .inl rfl
  | some entry =>
      cases entry with
      | directory => exact absurd hf hne
      | file content => exact .inr ⟨content, rfl⟩
      | link target => exact absurd hf (h.linkFree _ target (List.prefix_append _ _))

theorem makeDirectory_of_missing {rest : List FileName}
    (h : t.Reaches p place (front ++ name :: rest)) (hfront : t.DirectoriesTo place front)
    (hnone : t.find? (place ++ (front ++ [name])) = none) (hrest : rest ≠ []) :
    t.makeDirectory (p.behind (front ++ name :: rest)).text =
      .error (.refused .missing (p.behind (front ++ name :: rest)).text) := by
  obtain ⟨left, hlocate⟩ := h.locate (by simp)
  rw [FileTree.makeDirectory, if_neg h.nul_not_mem, hlocate,
    hfront.follow_missing h.isDownward hnone false left, if_neg hrest]

theorem ensurePath_of_file_on_way {rest : List FileName}
    (h : t.Reaches p place (front ++ name :: rest)) (hfront : t.DirectoriesTo place front)
    {content : Bytes} (hfile : t.find? (place ++ (front ++ [name])) = some (.file content)) :
    ∃ cause, t.ensurePath (p.behind (front ++ name :: rest)) =
      (.error (.refused cause (p.behind (front ++ name :: rest)).text), t) := by
  obtain ⟨left, hlocate⟩ := h.locate (by simp)
  have hfollow := fun last => hfront.follow_file h.isDownward hfile last left
  have hmake : ∃ cause, cause ≠ .missing ∧
      t.makeDirectory (p.behind (front ++ name :: rest)).text =
        .error (.refused cause (p.behind (front ++ name :: rest)).text) := by
    rw [FileTree.makeDirectory, if_neg h.nul_not_mem, hlocate, hfollow]
    by_cases hrest : rest = []
    · rw [if_pos hrest]
      exact ⟨.alreadyThere, by simp, rfl⟩
    · rw [if_neg hrest]
      exact ⟨.notDirectory, by simp, rfl⟩
  have hnot : t.isDirectory (p.behind (front ++ name :: rest)).text = false := by
    rw [isDirectory, entryAt?, if_neg h.nul_not_mem, hlocate, hfollow]
    by_cases hrest : rest = []
    · rw [if_pos hrest]
    · rw [if_neg hrest]
  obtain ⟨cause, hcause, hmake⟩ := hmake
  refine ⟨cause, ?_⟩
  rw [ensurePath_of_error hmake (by simpa [FileFault.IsMissing] using hcause), excuse, hnot]
  rfl

/-- In a directory a free name can be made a directory. -/
theorem makeDirectory (h : t.Reaches p place (front ++ [name]))
    (hd : t.find? (place ++ front) = some .directory)
    (hnone : t.find? (place ++ (front ++ [name])) = none) :
    t.makeDirectory (p.behind (front ++ [name])).text =
      .ok (t.put (place ++ (front ++ [name])) .directory) := by
  obtain ⟨left, hlocate⟩ := h.locate (by simp)
  have hfollow := (h.above.directoriesTo hd).follow_missing h.isDownward hnone false left
  rw [if_pos rfl] at hfollow
  rw [FileTree.makeDirectory, if_neg h.nul_not_mem, hlocate, hfollow, ← List.append_assoc]
  exact add_of_find?_eq hd

theorem find?_put_below {t : FileTree} {place : Location} (names : List FileName) {entry : Entry}
    (hne : names ≠ []) (other : List FileName) :
    (t.put (place ++ names) entry).find? (place ++ other) =
      if other = names then some entry else t.find? (place ++ other) := by
  have hplace : place ++ names ≠ [] := by simp [hne]
  rw [find?_put t hplace]
  by_cases h : other = names
  · rw [h, if_pos rfl, if_pos rfl]
  · rw [if_neg (by simpa using h), if_neg h]

/-- What is there after a directory and those above it were made. -/
structure Ensured (p : Path) (place : Location) (names : List FileName) (t made : FileTree) :
    Prop where
  namesDirectory : made.NamesDirectory p place
  linkFree : made.LinkFree place
  find? : ∀ other, made.find? (place ++ other) =
    if other <+: names then some .directory else t.find? (place ++ other)

/-- The last directory is made when all those above it are there. -/
theorem Ensured.concat {above : FileTree} (h : Ensured p place front t above)
    (hnone : t.find? (place ++ (front ++ [name])) = none) :
    Ensured p place (front ++ [name]) t (above.put (place ++ (front ++ [name])) .directory) := by
  have hfree : above.find? (place ++ (front ++ [name])) = none := by
    rw [h.find?, if_neg (not_concat_isPrefix front name)]
    exact hnone
  have hne : place ++ (front ++ [name]) ≠ [] := by simp
  constructor
  case namesDirectory =>
    exact h.namesDirectory.mono (current_put _ _ _)
      (fun _ => find?_put_of_replaceable hne (.inl hfree) (by simp))
      (fun _ _ => find?_put_of_replaceable hne (.inl hfree) (by simp))
  case linkFree =>
    intro location target hp
    rw [FileTree.find?_put _ hne]
    split
    · simp
    · exact h.linkFree location target hp
  case find? =>
    intro other
    rw [find?_put_below _ (by simp), h.find?]
    by_cases hlast : other = front ++ [name]
    · simp [hlast]
    · simp [hlast, List.prefix_concat_iff]

theorem Ensured.reaches {made : FileTree} (he : Ensured p place front t made)
    (h : t.Reaches p place names) : made.Reaches p place names := by
  constructor
  case isRead => exact h.isRead
  case namesDirectory => exact he.namesDirectory
  case linkFree => exact he.linkFree
  case isPlain => exact h.isPlain
  case isDownward => exact h.isDownward
  case takes => exact h.takes
  case closedBelow =>
    intro above names entry hentry habove hne
    rw [he.find?] at hentry ⊢
    split
    · rfl
    · rename_i hnot
      rw [if_neg fun hp => hnot (habove.trans hp)] at hentry
      exact h.closedBelow above names entry hentry habove hne

/-- Without a file on the way a directory and those above it are made. -/
theorem exists_ensurePath (h : t.Reaches p place names)
    (hfile : ∀ above, above <+: names → ∀ content,
      t.find? (place ++ above) ≠ some (.file content)) :
    ∃ made, t.ensurePath (p.behind names) = (.ok (), made) ∧ Ensured p place names t made := by
  have hthere : ∀ names, t.Reaches p place names → t.find? (place ++ names) = some .directory →
      ∃ made, t.ensurePath (p.behind names) = (.ok (), made) ∧ Ensured p place names t made := by
    intro names h hd
    refine ⟨t, h.ensurePath_of_directory hd, h.namesDirectory, h.linkFree, fun other => ?_⟩
    split
    · rename_i hother
      exact h.directoriesTo hd other hother
    · rfl
  induction names using List.reverseRecOn with
  | nil =>
      refine hthere [] h ?_
      rw [List.append_nil]
      exact h.namesDirectory.isDirectory
  | append_singleton front name ih =>
      have habove := h.above
      obtain ⟨above, hens, hensured⟩ := ih habove fun above hp =>
        hfile above (hp.trans (List.prefix_append _ _))
      cases hlast : t.find? (place ++ (front ++ [name])) with
      | some entry =>
          cases entry with
          | directory => exact hthere _ h hlast
          | file content => exact absurd hlast (hfile _ (List.prefix_refl _) content)
          | link target => exact absurd hlast (h.linkFree _ target (List.prefix_append _ _))
      | none =>
          refine ⟨_, ?_, hensured.concat hlast⟩
          rcases habove.way_cases with hall | ⟨done, next, rest, rfl, hdone, hnext⟩
          · have hfront := hall front (List.prefix_refl _)
            obtain rfl : t = above := by
              rw [habove.ensurePath_of_directory hfront] at hens
              exact congrArg Prod.snd hens
            exact ensurePath_of_ok (h.makeDirectory hfront hlast)
          · have hs : done ++ next :: rest ++ [name] = done ++ [next] ++ (rest ++ [name]) := by
              simp
            have hnone := hnext.resolve_right fun ⟨content, hf⟩ =>
              hfile (done ++ [next]) (hs ▸ List.prefix_append _ _) content hf
            have hall : done ++ next :: rest ++ [name] = done ++ next :: (rest ++ [name]) := by simp
            have hmissing := (hall ▸ h).makeDirectory_of_missing hdone hnone (by simp)
            rw [← hall, Path.behind_append] at hmissing
            have hfront := hensured.find? (done ++ next :: rest)
            rw [if_pos (List.prefix_refl _)] at hfront
            have hfree := hensured.find? (done ++ next :: rest ++ [name])
            rw [if_neg (not_concat_isPrefix _ name), hlast] at hfree
            have hmade := (hensured.reaches h).makeDirectory hfront hfree
            rw [Path.behind_append] at hmade ⊢
            exact ensurePath_child_of_missing hmissing ⟨_, rfl⟩ hens hmade

/-- A file on the way stops the making of a directory, and nothing is made. -/
theorem ensurePath_of_file (h : t.Reaches p place names) {above : List FileName}
    {content : Bytes} (habove : above <+: names)
    (hfile : t.find? (place ++ above) = some (.file content)) :
    ∃ cause, t.ensurePath (p.behind names) =
      (.error (.refused cause (p.behind names).text), t) := by
  rcases h.way_cases with hall | ⟨front, name, rest, rfl, hfront, hnone | ⟨old, hold⟩⟩
  · rw [hall above habove] at hfile
    cases hfile
  · -- above the file there are directories only
    have hs : front ++ name :: rest = front ++ [name] ++ rest := by simp
    rw [hs] at habove
    rcases List.prefix_or_prefix_of_prefix habove (List.prefix_append (front ++ [name]) rest) with
      hp | hp
    · rcases List.prefix_concat_iff.1 hp with rfl | hp
      · rw [hnone] at hfile
        cases hfile
      · rw [hfront above hp] at hfile
        cases hfile
    · by_cases heq : front ++ [name] = above
      · rw [← heq, hnone] at hfile
        cases hfile
      · rw [h.closedBelow _ _ _ hfile hp heq] at hnone
        cases hnone
  · exact h.ensurePath_of_file_on_way hfront hold

end Reaches

end

end FileTree

end FrontLint
