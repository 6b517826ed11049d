import FrontLint.Proofs.Files.Operation

/-!
# Locations that a path consults

Following a path looks at the locations on its way and at no other ones, so in two trees with
the same entries there it leads to the same place. A file that is written to a path is what
the path then leads to. A path that consults nothing at or below a place does not depend on
what is there: an operation on it gives the same answer without the place, and leaves the same
tree but for the place.

## Implementation notes

A link under the last name is consulted beyond its own location even by operations that do not
follow it. This makes the relation larger than needed and independent of the operation.
-/

namespace FrontLint

/-- Whether a place is the location of a file or of a free name. -/
def Place.IsWritable (location : Location) : Place → Prop
  | .found place (.file _) => place = location
  | .free directory name => directory ++ [name] = location
  | _ => False

namespace FileTree

/-- Following names from a directory looks at a location, if links on the way are followed. -/
inductive Consults (t : FileTree) : Nat → Location → List FileName → Location → Prop where
  | here {links : Nat} {directory location : Location} {names : List FileName} :
      Consults t links directory names location →
      Consults t links directory (FileName.here :: names) location
  | above {links : Nat} {directory location : Location} {names : List FileName} :
      Consults t links directory.dropLast names location →
      Consults t links directory (FileName.above :: names) location
  | name {links : Nat} {directory : Location} {name : FileName} {names : List FileName} :
      name.IsDownward → Consults t links directory (name :: names) (directory ++ [name])
  | down {links : Nat} {directory location : Location} {name : FileName}
      {names : List FileName} :
      name.IsDownward → t.find? (directory ++ [name]) = some .directory →
      Consults t links (directory ++ [name]) names location →
      Consults t links directory (name :: names) location
  | link {links : Nat} {directory location : Location} {name : FileName}
      {names : List FileName} {target : List Char} :
      name.IsDownward → t.find? (directory ++ [name]) = some (.link target) →
      Consults t links (startOf directory target) (stepsOf target ++ names) location →
      Consults t (links + 1) directory (name :: names) location

/-- Following names by their first one: it is a dot, two dots or too long, or it leads down to
nothing, to a directory, to a file or to a link, which takes one from the number of links. -/
@[elab_as_elim]
theorem follow_induction (t : FileTree) {motive : Nat → Location → List FileName → Prop}
    (nil : ∀ links directory, motive links directory [])
    (here : ∀ links directory rest, motive links directory rest →
      motive links directory (FileName.here :: rest))
    (above : ∀ links directory rest, motive links directory.dropLast rest →
      motive links directory (FileName.above :: rest))
    (tooLong : ∀ links directory name rest, name ≠ FileName.here → name ≠ FileName.above →
      maxNameBytes < (Utf8.encodeChars name).length → motive links directory (name :: rest))
    (missing : ∀ links directory name rest, name.IsDownward →
      t.find? (directory ++ [name]) = none → motive links directory (name :: rest))
    (directory : ∀ links parent name rest, name.IsDownward →
      t.find? (parent ++ [name]) = some .directory → motive links (parent ++ [name]) rest →
      motive links parent (name :: rest))
    (file : ∀ links directory name rest content, name.IsDownward →
      t.find? (directory ++ [name]) = some (.file content) →
      motive links directory (name :: rest))
    (link : ∀ links directory name rest target, name.IsDownward →
      t.find? (directory ++ [name]) = some (.link target) →
      (∀ fewer, links = fewer + 1 →
        motive fewer (startOf directory target) (stepsOf target ++ rest)) →
      motive links directory (name :: rest))
    (links : Nat) (start : Location) (names : List FileName) : motive links start names := by
  induction links using Nat.strongRecOn generalizing start names with
  | ind links ihl =>
      induction names generalizing start with
      | nil => exact nil links start
      | cons name rest ih =>
          rcases FileName.cases name with rfl | rfl | ⟨hh, ha, hl⟩ | hn
          · exact here links start rest (ih start)
          · exact above links start rest (ih start.dropLast)
          · exact tooLong links start name rest hh ha hl
          · cases hf : t.find? (start ++ [name]) with
            | none => exact missing links start name rest hn hf
            | some entry =>
                cases entry with
                | directory => exact directory links start name rest hn hf (ih _)
                | file content => exact file links start name rest content hn hf
                | link target =>
                    refine link links start name rest target hn hf fun fewer hfewer => ?_
                    exact ihl fewer (by omega) _ _

/-- Where names lead depends on the locations that they consult only. -/
theorem follow_congr {t t' : FileTree} {last : Bool} {links : Nat} {directory : Location}
    {names : List FileName}
    (h : ∀ location, t.Consults links directory names location →
      t'.find? location = t.find? location) :
    t'.follow last links directory names = t.follow last links directory names := by
  induction links, directory, names using follow_induction t with
  | nil => simp
  | here links directory rest ih =>
      rw [follow_here, follow_here]
      exact ih fun location hc => h location (.here hc)
  | above links directory rest ih =>
      rw [follow_above, follow_above]
      exact ih fun location hc => h location (.above hc)
  | tooLong links directory name rest hh ha hl =>
      rw [follow_tooLong hh ha hl, follow_tooLong hh ha hl]
  | missing links directory name rest hn hf =>
      rw [follow_missing hn hf, follow_missing hn ((h _ (.name hn)).trans hf)]
  | directory links parent name rest hn hf ih =>
      rw [follow_directory hn hf, follow_directory hn ((h _ (.name hn)).trans hf)]
      exact ih fun location hc => h location (.down hn hf hc)
  | file links directory name rest content hn hf =>
      rw [follow_file hn hf, follow_file hn ((h _ (.name hn)).trans hf)]
  | link links directory name rest target hn hf ih =>
      have hf' := (h _ (.name hn)).trans hf
      by_cases hr : rest ≠ [] ∨ last = true
      · cases links with
        | zero => rw [follow_noLinks hn hf hr, follow_noLinks hn hf' hr]
        | succ links =>
            rw [follow_link hn hf hr, follow_link hn hf' hr]
            exact ih links rfl fun location hc => h location (.link hn hf hc)
      · obtain ⟨rfl, rfl⟩ : rest = [] ∧ last = false := by simpa using hr
        rw [follow_lastLink hn hf, follow_lastLink hn hf']

/-- The locations that names consult are the same in a tree with the same entries there. -/
theorem Consults.of_congr {t t' : FileTree} {links : Nat} {directory location : Location}
    {names : List FileName}
    (h : ∀ location, t.Consults links directory names location →
      t'.find? location = t.find? location)
    (hc : t'.Consults links directory names location) :
    t.Consults links directory names location := by
  induction hc with
  | here _ ih => exact .here (ih fun location hl => h location (.here hl))
  | above _ ih => exact .above (ih fun location hl => h location (.above hl))
  | name hn => exact .name hn
  | down hn hd _ ih =>
      have hd' := (h _ (.name hn)).symm.trans hd
      exact .down hn hd' (ih fun location hl => h location (.down hn hd' hl))
  | link hn hl _ ih =>
      have hl' := (h _ (.name hn)).symm.trans hl
      exact .link hn hl' (ih fun location hc => h location (.link hn hl' hc))

/-- Names consult what more names behind them do. -/
theorem Consults.append {t : FileTree} {links : Nat} {directory location : Location}
    {names : List FileName} (h : t.Consults links directory names location)
    (more : List FileName) : t.Consults links directory (names ++ more) location := by
  induction h with
  | here _ ih => exact .here ih
  | above _ ih => exact .above ih
  | name hn => exact .name hn
  | down hn hd _ ih => exact .down hn hd ih
  | link hn hl _ ih =>
      rw [List.append_assoc] at ih
      exact .link hn hl ih

theorem consults_here {t : FileTree} {links : Nat} {directory location : Location}
    {names : List FileName} :
    t.Consults links directory (FileName.here :: names) location ↔
      t.Consults links directory names location := by
  constructor
  · intro h
    cases h with
    | here h => exact h
    | name hn => exact absurd rfl hn.ne_here
    | down hn => exact absurd rfl hn.ne_here
    | link hn => exact absurd rfl hn.ne_here
  · exact .here

theorem consults_above {t : FileTree} {links : Nat} {directory location : Location}
    {names : List FileName} :
    t.Consults links directory (FileName.above :: names) location ↔
      t.Consults links directory.dropLast names location := by
  constructor
  · intro h
    cases h with
    | above h => exact h
    | name hn => exact absurd rfl hn.ne_above
    | down hn => exact absurd rfl hn.ne_above
    | link hn => exact absurd rfl hn.ne_above
  · exact .above

theorem not_consults_nil {t : FileTree} {links : Nat} {directory location : Location} :
    ¬ t.Consults links directory [] location := by
  rintro ⟨⟩

/-- Names that lead to a directory in a tree consult directories and links of that tree only,
in a larger tree as well; names behind them consult more from that directory on. -/
theorem Leads.consults_append {t t' : FileTree} {links left : Nat}
    {directory place location : Location} {names more : List FileName}
    (h : t.Leads links directory names left place)
    (hkeep : ∀ location entry, t.find? location = some entry → t'.find? location = some entry)
    (hc : t'.Consults links directory (names ++ more) location) :
    (∃ entry, t.find? location = some entry ∧ ∀ content, entry ≠ .file content) ∨
      t'.Consults left place more location := by
  induction h with
  | done => exact .inr hc
  | here _ ih => exact ih (consults_here.1 hc)
  | above _ ih => exact ih (consults_above.1 hc)
  | down hn hd _ ih =>
      cases hc with
      | here => exact absurd rfl hn.ne_here
      | above => exact absurd rfl hn.ne_above
      | name => exact .inl ⟨_, hd, by simp⟩
      | down _ _ hc => exact ih hc
      | link _ hl =>
          rw [hkeep _ _ hd] at hl
          cases hl
  | link hn hl _ ih =>
      cases hc with
      | here => exact absurd rfl hn.ne_here
      | above => exact absurd rfl hn.ne_above
      | name => exact .inl ⟨_, hl, by simp⟩
      | down _ hd =>
          rw [hkeep _ _ hl] at hd
          cases hd
      | link _ hl' hc =>
          rw [hkeep _ _ hl] at hl'
          cases hl'
          rw [List.append_eq, ← List.append_assoc] at hc
          exact ih hc

/-- A location that names lead to as a file's or as a free one is consulted, and it is what
they lead to it as. -/
theorem consults_of_isWritable {t : FileTree} {last : Bool} {links : Nat}
    {directory location : Location} {names : List FileName}
    (h : (t.follow last links directory names).IsWritable location) :
    t.Consults links directory names location ∧
      (t.find? location = none ∨ ∃ content, t.find? location = some (.file content)) := by
  induction links, directory, names using follow_induction t with
  | nil =>
      rw [follow_nil] at h
      cases h
  | here links directory rest ih =>
      rw [follow_here] at h
      exact (ih h).imp_left .here
  | above links directory rest ih =>
      rw [follow_above] at h
      exact (ih h).imp_left .above
  | tooLong links directory name rest hh ha hl =>
      rw [follow_tooLong hh ha hl] at h
      cases h
  | missing links directory name rest hn hf =>
      rw [follow_missing hn hf] at h
      split at h
      · obtain rfl : directory ++ [name] = location := h
        exact ⟨.name hn, .inl hf⟩
      · cases h
  | directory links parent name rest hn hf ih =>
      rw [follow_directory hn hf] at h
      exact (ih h).imp_left (.down hn hf)
  | file links directory name rest content hn hf =>
      rw [follow_file hn hf] at h
      split at h
      · obtain rfl : directory ++ [name] = location := h
        exact ⟨.name hn, .inr ⟨content, hf⟩⟩
      · cases h
  | link links directory name rest target hn hf ih =>
      by_cases hr : rest ≠ [] ∨ last = true
      · cases links with
        | zero =>
            rw [follow_noLinks hn hf hr] at h
            cases h
        | succ links =>
            rw [follow_link hn hf hr] at h
            exact (ih links rfl h).imp_left (.link hn hf)
      · obtain ⟨rfl, rfl⟩ : rest = [] ∧ last = false := by simpa using hr
        rw [follow_lastLink hn hf] at h
        cases h

/-- A file that is put where names lead to a file or to a free name is what they lead to. -/
theorem follow_put_of_isWritable {t : FileTree} {last : Bool} {links : Nat}
    {directory location : Location} {names : List FileName} (content : Bytes)
    (h : (t.follow last links directory names).IsWritable location) :
    (t.put location (.file content)).follow last links directory names =
      .found location (.file content) := by
  have hne : location ≠ [] := by
    intro hnil
    rcases (consults_of_isWritable h).2 with hnone | ⟨old, hold⟩
    · simp [hnil] at hnone
    · simp [hnil] at hold
  have hself : (t.put location (.file content)).find? location = some (.file content) := by
    rw [find?_put t hne, if_pos rfl]
  -- On the way there are directories and links, and they stay.
  have hkeep : ∀ other entry, t.find? other = some entry → (∀ old, entry ≠ .file old) →
      (t.put location (.file content)).find? other = some entry := by
    intro other entry hfound hentry
    rw [find?_put t hne, if_neg, hfound]
    rintro rfl
    rcases (consults_of_isWritable h).2 with hnone | ⟨old, hold⟩
    · simp [hnone] at hfound
    · rw [hold] at hfound
      exact hentry old (Option.some.inj hfound).symm
  induction links, directory, names using follow_induction t with
  | nil =>
      rw [follow_nil] at h
      cases h
  | here links directory rest ih =>
      rw [follow_here] at h ⊢
      exact ih h
  | above links directory rest ih =>
      rw [follow_above] at h ⊢
      exact ih h
  | tooLong links directory name rest hh ha hl =>
      rw [follow_tooLong hh ha hl] at h
      cases h
  | missing links directory name rest hn hf =>
      rw [follow_missing hn hf] at h
      split at h
      · rename_i hr
        obtain rfl : directory ++ [name] = location := h
        rw [follow_file hn hself, if_pos hr]
      · cases h
  | directory links parent name rest hn hf ih =>
      rw [follow_directory hn hf] at h
      rw [follow_directory hn (hkeep _ _ hf (by simp))]
      exact ih h
  | file links directory name rest old hn hf =>
      rw [follow_file hn hf] at h
      split at h
      · rename_i hr
        obtain rfl : directory ++ [name] = location := h
        rw [follow_file hn hself, if_pos hr]
      · cases h
  | link links directory name rest target hn hf ih =>
      have hf' := hkeep _ _ hf (by simp)
      by_cases hr : rest ≠ [] ∨ last = true
      · cases links with
        | zero =>
            rw [follow_noLinks hn hf hr] at h
            cases h
        | succ links =>
            rw [follow_link hn hf hr] at h
            rw [follow_link hn hf' hr]
            exact ih links rfl h
      · obtain ⟨rfl, rfl⟩ : rest = [] ∧ last = false := by simpa using hr
        rw [follow_lastLink hn hf] at h
        cases h

/-- The text of a path consults what its names do. -/
theorem consults_text {t : FileTree} {p : Path} (h : p.IsRead) {location : Location} :
    t.Consults maxLinks (startOf t.current p.text) (stepsOf p.text) location ↔
      t.Consults maxLinks (t.origin p) p.names location := by
  rw [startOf_text t h, stepsOf_text h]
  split
  · rename_i hn
    rw [hn]
    exact consults_here
  · rfl

/-- Following a path does not look at a place or below it. -/
def Avoids (t : FileTree) (path : List Char) (place : Location) : Prop :=
  ∀ location, t.Consults maxLinks (startOf t.current path) (stepsOf path) location →
    ¬ place <+: location

theorem put_removeBelow_of_not_isPrefix (t : FileTree) {place location : Location}
    (h : ¬ place <+: location) (entry : Entry) :
    (t.put location entry).removeBelow place = (t.removeBelow place).put location entry := by
  have hnot : place.isPrefixOf location = false := by
    rw [Bool.eq_false_iff]
    exact fun hp => h (List.isPrefixOf_iff_prefix.1 hp)
  have hlookup : (t.entries.filter fun e => !place.isPrefixOf e.1).lookup location =
      t.entries.lookup location := by
    rw [lookup_filter_key (fun k => !place.isPrefixOf k) t.entries location, hnot]
    rfl
  have hmap : ∀ entries : List (Location × Entry),
      (entries.map fun e => if e.1 = location then (location, entry) else e).filter
          (fun e => !place.isPrefixOf e.1) =
        (entries.filter fun e => !place.isPrefixOf e.1).map
          fun e => if e.1 = location then (location, entry) else e := by
    intro entries
    induction entries with
    | nil => rfl
    | cons e rest ih =>
        by_cases he : e.1 = location
        · simp [he, hnot, ih]
        · cases hp : place.isPrefixOf e.1 <;> simp [he, hp, ih]
  simp only [removeBelow, put, hlookup]
  split
  · rw [hmap]
  · simp [hnot]

theorem removeBelow_comm (t : FileTree) (place other : Location) :
    (t.removeBelow place).removeBelow other = (t.removeBelow other).removeBelow place := by
  simp only [removeBelow, List.filter_filter, Bool.and_comm]

section Avoids

variable {t : FileTree} {place : Location} {path : List Char}

theorem locate_removeBelow (h : t.Avoids path place) (hne : place ≠ []) (last : Bool) :
    (t.removeBelow place).locate last path = t.locate last path := by
  have hfollow : (t.removeBelow place).follow last maxLinks (startOf t.current path)
      (stepsOf path) = t.follow last maxLinks (startOf t.current path) (stepsOf path) := by
    apply follow_congr
    intro location hc
    rw [find?_removeBelow t hne, if_neg (h location hc)]
  rw [locate, locate, current_removeBelow, hfollow]

theorem consults_of_isWritable_locate {last : Bool} {location : Location}
    (hl : (t.locate last path).IsWritable location) :
    t.Consults maxLinks (startOf t.current path) (stepsOf path) location ∧
      (t.find? location = none ∨ ∃ content, t.find? location = some (.file content)) := by
  rw [locate] at hl
  split at hl
  · cases hl
  · split at hl
    · cases hl
    · exact consults_of_isWritable hl

theorem locate_put_of_isWritable {last : Bool} {location : Location} (content : Bytes)
    (h : (t.locate last path).IsWritable location) :
    (t.put location (.file content)).locate last path = .found location (.file content) := by
  rw [locate] at h ⊢
  split at h
  · cases h
  · rename_i hempty
    split at h
    · cases h
    · rename_i hlong
      rw [if_neg hempty, if_neg hlong]
      exact follow_put_of_isWritable content h

/-- What was written is what is read. -/
theorem read_write {t' : FileTree} {content : Bytes} (h : t.write path content = .ok t') :
    t'.read path = .ok content := by
  obtain ⟨ht, location, rfl, hplace⟩ := write_eq_ok h
  have hwritable : (t.locate true path).IsWritable location := by
    rcases hplace with ⟨old, hl⟩ | ⟨directory, name, hl, rfl⟩
    · rw [hl]
      rfl
    · rw [hl]
      rfl
  have hnul : ¬ path.contains '\x00' = true := by simpa using ht.nul_not_mem
  rw [read, if_neg hnul, locate_put_of_isWritable content hwritable]

theorem not_isPrefix_of_isWritable (h : t.Avoids path place) (last : Bool) {location : Location}
    (hl : (t.locate last path).IsWritable location) : ¬ place <+: location :=
  h location (consults_of_isWritable_locate hl).1

theorem entryAt?_removeBelow (h : t.Avoids path place) (hne : place ≠ []) (last : Bool) :
    (t.removeBelow place).entryAt? last path = t.entryAt? last path := by
  rw [entryAt?, entryAt?, locate_removeBelow h hne]

theorem isDirectory_removeBelow (h : t.Avoids path place) (hne : place ≠ []) :
    (t.removeBelow place).isDirectory path = t.isDirectory path := by
  rw [isDirectory, isDirectory, entryAt?_removeBelow h hne]

theorem isThere_removeBelow (h : t.Avoids path place) (hne : place ≠ []) :
    (t.removeBelow place).isThere path = t.isThere path := by
  rw [isThere, isThere, entryAt?_removeBelow h hne]

theorem read_removeBelow (h : t.Avoids path place) (hne : place ≠ []) :
    (t.removeBelow place).read path = t.read path := by
  rw [read, read, locate_removeBelow h hne]

theorem add_removeBelow (hne : place ≠ []) {directory : Location} {name : FileName}
    (h : ¬ place <+: directory ++ [name]) (path : List Char) (entry : Entry) :
    (t.removeBelow place).add path directory name entry =
      (t.add path directory name entry).map (·.removeBelow place) := by
  have hnot : ¬ place <+: directory := fun hp => h (hp.trans (List.prefix_append _ _))
  rw [add, add, find?_removeBelow t hne, if_neg hnot]
  split
  · exact congrArg Except.ok (put_removeBelow_of_not_isPrefix t h entry).symm
  · rfl

theorem makeDirectory_removeBelow (h : t.Avoids path place) (hne : place ≠ []) :
    (t.removeBelow place).makeDirectory path =
      (t.makeDirectory path).map (·.removeBelow place) := by
  rw [makeDirectory, makeDirectory, locate_removeBelow h hne]
  split
  · rfl
  · cases hl : t.locate false path with
    | found location entry => rfl
    | refused cause => rfl
    | free directory name =>
        have hnot : ¬ place <+: directory ++ [name] := by
          apply not_isPrefix_of_isWritable h false
          rw [hl]
          rfl
        exact add_removeBelow hne hnot path .directory

theorem write_removeBelow (h : t.Avoids path place) (hne : place ≠ []) (content : Bytes) :
    (t.removeBelow place).write path content =
      (t.write path content).map (·.removeBelow place) := by
  rw [write, write, locate_removeBelow h hne]
  split
  · rfl
  · have hnot : ∀ location, (t.locate true path).IsWritable location → ¬ place <+: location :=
      fun _ => not_isPrefix_of_isWritable h true
    cases hl : t.locate true path with
    | refused cause => rfl
    | free directory name =>
        rw [hl] at hnot
        exact add_removeBelow hne (hnot _ rfl) path (.file content)
    | found location entry =>
        rw [hl] at hnot
        cases entry with
        | directory => rfl
        | link target => rfl
        | file old => simp only [Except.map, put_removeBelow_of_not_isPrefix t (hnot _ rfl)]

theorem removeDirectory_removeBelow (h : t.Avoids path place) (hne : place ≠ []) :
    (t.removeBelow place).removeDirectory path = (t.removeDirectory path).removeBelow place := by
  rw [removeDirectory, removeDirectory, locate_removeBelow h hne]
  cases t.locate false path with
  | refused cause => rfl
  | free directory name => rfl
  | found location entry =>
      cases entry with
      | directory => exact removeBelow_comm t place location
      | file content => rfl
      | link target => rfl

theorem ensureDirectory_removeBelow (h : t.Avoids path place) (hne : place ≠ []) :
    (t.removeBelow place).ensureDirectory path =
      (t.ensureDirectory path).map (·.removeBelow place) := by
  rw [ensureDirectory, ensureDirectory, makeDirectory_removeBelow h hne,
    isDirectory_removeBelow h hne]
  cases hm : t.makeDirectory path with
  | ok made => rfl
  | error fault =>
      cases fault with
      | nulInPath => rfl
      | refused cause blamed =>
          simp only [Except.map]
          split <;> rfl

theorem excuse_removeBelow (h : t.Avoids path place) (hne : place ≠ []) (fault : FileFault) :
    (t.removeBelow place).excuse path fault = t.excuse path fault := by
  cases fault with
  | nulInPath => rfl
  | refused cause blamed => rw [excuse, excuse, isDirectory_removeBelow h hne]

end Avoids

/-- Making directories gives the same answer without a place, if no path of one of them comes
to see it. -/
theorem ensureNames_removeBelow {P : FileTree → Prop} {place : Location} (hne : place ≠ [])
    (anchor : Anchor) (names : List FileName)
    (hstep : ∀ t t' front, front <+: names.reverse → P t →
      t.makeDirectory (Path.mk anchor front).text = .ok t' → P t')
    (havoid : ∀ t front, front <+: names.reverse → P t →
      t.Avoids (Path.mk anchor front).text place)
    {t : FileTree} (h : P t) :
    ensureNames anchor names (t.removeBelow place) =
      ((ensureNames anchor names t).1, (ensureNames anchor names t).2.removeBelow place) := by
  induction names generalizing t with
  | nil =>
      have hself := havoid t _ (List.prefix_refl _) h
      have hmake := makeDirectory_removeBelow hself hne
      cases hm : t.makeDirectory (Path.mk anchor [].reverse).text with
      | ok made =>
          rw [hm] at hmake
          rw [ensureNames_of_ok hm, ensureNames_of_ok hmake]
      | error fault =>
          rw [hm] at hmake
          rw [ensureNames_of_error hm (.inr rfl), ensureNames_of_error hmake (.inr rfl),
            excuse_removeBelow hself hne]
  | cons name above ih =>
      have hself := havoid t _ (List.prefix_refl _) h
      have hmake := makeDirectory_removeBelow hself hne
      have hshorter : ∀ front, front <+: above.reverse → front <+: (name :: above).reverse := by
        intro front hfront
        rw [List.reverse_cons]
        exact hfront.trans (List.prefix_append _ _)
      have hstep' : ∀ t t' front, front <+: above.reverse → P t →
          t.makeDirectory (Path.mk anchor front).text = .ok t' → P t' :=
        fun t t' front hfront => hstep t t' front (hshorter front hfront)
      cases hm : t.makeDirectory (Path.mk anchor (name :: above).reverse).text with
      | ok made =>
          rw [hm] at hmake
          rw [ensureNames_of_ok hm, ensureNames_of_ok hmake]
      | error fault =>
          rw [hm] at hmake
          by_cases hmissing : fault.IsMissing
          · have hmade : P (ensureNames anchor above t).2 := ensureNames_keeps anchor above hstep' h
            have hlast := ensureDirectory_removeBelow
              (havoid _ _ (List.prefix_refl _) hmade) hne
            rw [ensureNames_of_missing hm hmissing, ensureNames_of_missing hmake hmissing,
              ih hstep' (fun t front hfront => havoid t front (hshorter front hfront)) h]
            cases he : (ensureNames anchor above t).1 with
            | error fault => simp only
            | ok done =>
                simp only [hlast]
                cases (ensureNames anchor above t).2.ensureDirectory
                  (Path.mk anchor (name :: above).reverse).text <;> rfl
          · rw [ensureNames_of_error hm (.inl hmissing), ensureNames_of_error hmake (.inl hmissing),
              excuse_removeBelow hself hne]

theorem ensurePath_removeBelow {P : FileTree → Prop} {place : Location} (hne : place ≠ [])
    (p : Path)
    (hstep : ∀ t t' front, front <+: p.names → P t →
      t.makeDirectory (Path.mk p.anchor front).text = .ok t' → P t')
    (havoid : ∀ t front, front <+: p.names → P t →
      t.Avoids (Path.mk p.anchor front).text place)
    {t : FileTree} (h : P t) :
    (t.removeBelow place).ensurePath p =
      ((t.ensurePath p).1, (t.ensurePath p).2.removeBelow place) := by
  refine ensureNames_removeBelow hne p.anchor p.names.reverse (fun t t' front hp => ?_)
    (fun t front hp => ?_) h
  · rw [List.reverse_reverse] at hp
    exact hstep t t' front hp
  · rw [List.reverse_reverse] at hp
    exact havoid t front hp

end FileTree

end FrontLint
