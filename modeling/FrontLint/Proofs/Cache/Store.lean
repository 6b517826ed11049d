import FrontLint.Proofs.Cache.Creation
import FrontLint.Proofs.Files.Behind
import FrontLint.Proofs.Text.Utf8
import Mathlib.Data.Finmap

/-!
# A cache as a store of texts

A cache behaves as a finite map from the names of documents to the texts of their projections.
A text is kept under names unless they are none, or other names of the map lie above or below
them; otherwise nothing changes. What lies below the root is the map: its texts are the files,
and what is above them are the directories.

## Implementation notes

The map is kept beside the tree, as the relation `Holds`. That no key lies above another one is
not part of it: a location holds a file or a directory, and not both.
-/

namespace FrontLint

/-- Names that are the beginning of other ones, but not all of them. -/
def IsAbove (above names : List FileName) : Prop := above <+: names ∧ above ≠ names

instance (above names : List FileName) : Decidable (IsAbove above names) :=
  inferInstanceAs (Decidable (_ ∧ _))

theorem IsAbove.trans {first second third : List FileName} (h : IsAbove first second)
    (h' : IsAbove second third) : IsAbove first third := by
  refine ⟨h.1.trans h'.1, ?_⟩
  rintro rfl
  exact h.2 (h.1.eq_of_length_le h'.1.length_le)

theorem isAbove_concat_iff {above front : List FileName} {name : FileName} :
    IsAbove above (front ++ [name]) ↔ above <+: front := by
  constructor
  · rintro ⟨hp, hne⟩
    exact (List.prefix_concat_iff.1 hp).resolve_left hne
  · intro hp
    refine ⟨hp.trans (List.prefix_append _ _), ?_⟩
    rintro rfl
    exact not_concat_isPrefix front name hp

/-- The texts that a cache keeps, by the names under which it keeps them. -/
abbrev Store := Finmap fun _ : List FileName => Text

namespace Store

/-- A text can be kept under these names. -/
structure Accepts (m : Store) (names : List FileName) : Prop where
  ne_nil : names ≠ []
  not_isAbove : ∀ key ∈ m.keys, ¬ IsAbove key names
  not_above : ∀ key ∈ m.keys, ¬ IsAbove names key

instance (m : Store) (names : List FileName) : Decidable (m.Accepts names) :=
  decidable_of_iff
    (names ≠ [] ∧ (∀ key ∈ m.keys, ¬ IsAbove key names) ∧ ∀ key ∈ m.keys, ¬ IsAbove names key)
    ⟨fun h => ⟨h.1, h.2.1, h.2.2⟩, fun h => ⟨h.ne_nil, h.not_isAbove, h.not_above⟩⟩

/-- The files below a place are the texts of a store, and the directories are what lies above
them. -/
structure Holds (m : Store) (t : FileTree) (place : Location) : Prop where
  file_iff : ∀ names content, t.find? (place ++ names) = some (.file content) ↔
    ∃ text, m.lookup names = some text ∧ content = Utf8.encodeChars text.toChars
  directory_iff : ∀ names, names ≠ [] → (t.find? (place ++ names) = some .directory ↔
    ∃ key ∈ m.keys, IsAbove names key)

theorem mem_keys_of_lookup {m : Store} {names : List FileName} {text : Text}
    (h : m.lookup names = some text) : names ∈ m.keys :=
  Finmap.mem_keys.2 (Finmap.mem_of_lookup_eq_some h)

end Store

namespace Cache

open FileTree

/-- A request that meets no fault but that of a file or a directory in its way: the path for
the projection is taken, none of its names is too long, and the text can be encoded. -/
structure Fits (c : Cache) (request : Path × Projection) : Prop where
  isRead : request.1.IsRead
  takes : Takes (c.pathFor request.1).text
  length_le : ∀ name ∈ c.namesFor request.1, (Utf8.encodeChars name).length ≤ maxNameBytes
  encodes : ∃ content, Utf8.encode request.2.text = .ok content

section

variable {c : Cache} {place : Location} {outer t : FileTree} {m : Store} {source : Path}
  {p : Projection}

theorem closedBelow_of_holds (hc : c.Confined place outer t) (h : m.Holds t place) :
    t.ClosedBelow place := by
  intro above names entry hentry habove hne
  by_cases hnil : above = []
  · rw [hnil, List.append_nil]
    exact hc.namesDirectory.isDirectory
  · rw [h.directory_iff above hnil]
    cases entry with
    | file content =>
        obtain ⟨text, htext, -⟩ := (h.file_iff names content).1 hentry
        exact ⟨names, Store.mem_keys_of_lookup htext, habove, hne⟩
    | directory =>
        have hnames : names ≠ [] := by
          rintro rfl
          exact hnil (List.prefix_nil.1 habove)
        obtain ⟨key, hkey, hbelow⟩ := (h.directory_iff names hnames).1 hentry
        exact ⟨key, hkey, IsAbove.trans ⟨habove, hne⟩ hbelow⟩
    | link target => exact absurd hentry (hc.linkFree _ target (List.prefix_append _ _))

/-- The way to the place of a fitting request. -/
theorem reaches_of_fits (hc : c.Confined place outer t) (h : m.Holds t place)
    (hf : c.Fits (source, p)) : t.Reaches c.root place (c.namesFor source) := by
  have hplain : ∀ name ∈ c.namesFor source, name.IsPlain := fun name =>
    isPlain_of_mem_namesFor hc.base_isAbsolute hc.base_isRead hf.isRead
  constructor
  case isRead => exact hc.isRead
  case namesDirectory => exact hc.namesDirectory
  case linkFree => exact hc.linkFree
  case closedBelow => exact closedBelow_of_holds hc h
  case isPlain => exact hplain
  case isDownward =>
    intro name hname
    have hname' := hplain name hname
    exact ⟨hname'.isRead.ne_here, hname'.ne_above, hf.length_le name hname⟩
  case takes => exact hf.takes

theorem pathFor_eq_behind (c : Cache) (source : Path) :
    c.pathFor source = c.root.behind (c.namesFor source) := rfl

/-- A store keeps one more text where a file is put in the directories made for it. -/
theorem holds_insert {made : FileTree} {front : List FileName} {name : FileName} {text : Text}
    (h : m.Holds t place) (ha : m.Accepts (front ++ [name]))
    (hmade : Reaches.Ensured c.root place front t made) :
    Store.Holds (m.insert (front ++ [name]) text)
      (made.put (place ++ (front ++ [name])) (.file (Utf8.encodeChars text.toChars))) place := by
  have hfind : ∀ names, (made.put (place ++ (front ++ [name]))
      (.file (Utf8.encodeChars text.toChars))).find? (place ++ names) =
        if names = front ++ [name] then some (.file (Utf8.encodeChars text.toChars))
        else if names <+: front then some .directory else t.find? (place ++ names) := by
    intro names
    rw [Reaches.find?_put_below _ (by simp), hmade.find?]
  constructor
  case file_iff =>
    intro names content
    rw [hfind]
    by_cases hlast : names = front ++ [name]
    · subst hlast
      simp [eq_comm]
    · rw [if_neg hlast, Finmap.lookup_insert_of_ne _ hlast]
      by_cases hfront : names <+: front
      · -- names on the way are no key
        rw [if_pos hfront]
        simp only [Option.some.injEq, reduceCtorEq, false_iff, not_exists, not_and]
        intro other hother
        exact absurd (isAbove_concat_iff.2 hfront)
          (ha.not_isAbove names (Store.mem_keys_of_lookup hother))
      · rw [if_neg hfront]
        exact h.file_iff names content
  case directory_iff =>
    intro names hne
    rw [hfind]
    have hkeys : (∃ key ∈ (m.insert (front ++ [name]) text).keys, IsAbove names key) ↔
        names <+: front ∨ ∃ key ∈ m.keys, IsAbove names key := by
      constructor
      · rintro ⟨key, hkey, hbelow⟩
        rcases Finmap.mem_insert.1 (Finmap.mem_keys.1 hkey) with rfl | hkey
        · exact .inl (isAbove_concat_iff.1 hbelow)
        · exact .inr ⟨key, Finmap.mem_keys.2 hkey, hbelow⟩
      · rintro (hfront | ⟨key, hkey, hbelow⟩)
        · exact ⟨front ++ [name], Finmap.mem_keys.2 (Finmap.mem_insert.2 (.inl rfl)),
            isAbove_concat_iff.2 hfront⟩
        · exact ⟨key, Finmap.mem_keys.2 (Finmap.mem_insert.2 (.inr (Finmap.mem_keys.1 hkey))),
            hbelow⟩
    rw [hkeys]
    by_cases hlast : names = front ++ [name]
    · rw [if_pos hlast, hlast]
      simp only [Option.some.injEq, reduceCtorEq, false_iff, not_or, not_exists, not_and]
      exact ⟨not_concat_isPrefix front name, ha.not_above⟩
    · rw [if_neg hlast]
      by_cases hfront : names <+: front
      · simp [hfront]
      · rw [if_neg hfront, h.directory_iff names hne]
        simp [hfront]

/-- An accepted text is written, and kept. -/
theorem write_of_accepts (hc : c.Confined place outer t) (h : m.Holds t place)
    (hf : c.Fits (source, p)) (ha : m.Accepts (c.namesFor source)) :
    (c.write source p t).1 = .ok (c.pathFor source) ∧
      Store.Holds (m.insert (c.namesFor source) p.text) (c.write source p t).2 place := by
  have hreach := reaches_of_fits hc h hf
  obtain ⟨front, name, hnames⟩ : ∃ front name, c.namesFor source = front ++ [name] :=
    ⟨_, _, (List.dropLast_append_getLast ha.ne_nil).symm⟩
  rw [hnames] at hreach ha ⊢
  have hfile : ∀ above, above <+: front → ∀ content,
      t.find? (place ++ above) ≠ some (.file content) := by
    intro above habove content hfound
    obtain ⟨text, htext, -⟩ := (h.file_iff above content).1 hfound
    exact ha.not_isAbove above (Store.mem_keys_of_lookup htext) (isAbove_concat_iff.2 habove)
  obtain ⟨made, hens, hmade⟩ := hreach.above.exists_ensurePath hfile
  obtain ⟨content, hcontent⟩ := hf.encodes
  obtain rfl := Utf8.encode_eq_ok hcontent
  have hwrite : made.write (c.root.behind (front ++ [name])).text
      (Utf8.encodeChars p.text.toChars) =
        .ok (made.put (place ++ (front ++ [name])) (.file (Utf8.encodeChars p.text.toChars))) := by
    refine (hmade.reaches hreach).write ?_ ?_ _
    · rw [hmade.find?, if_pos (List.prefix_refl _)]
    · rw [hmade.find?, if_neg (not_concat_isPrefix front name),
        Ne, h.directory_iff _ ha.ne_nil]
      rintro ⟨key, hkey, hbelow⟩
      exact ha.not_above key hkey hbelow
  have heq : c.write source p t = (.ok (c.pathFor source),
      made.put (place ++ (front ++ [name])) (.file (Utf8.encodeChars p.text.toChars))) := by
    simp only [write, pathFor_eq_behind, hnames, Path.parent_behind_concat, hens, hcontent, hwrite]
  rw [heq]
  exact ⟨rfl, holds_insert h ha hmade⟩

/-- A text that is not accepted is refused, and nothing changes. -/
theorem write_of_not_accepts (hc : c.Confined place outer t) (h : m.Holds t place)
    (hf : c.Fits (source, p)) (ha : ¬ m.Accepts (c.namesFor source)) :
    ∃ fault, c.write source p t = (.error (.cache (.notWritten (c.pathFor source) fault)), t) := by
  have hreach := reaches_of_fits hc h hf
  obtain ⟨content, hcontent⟩ := hf.encodes
  -- a directory stands at the place itself, if no file stands on the way to it
  have hdirectory : t.find? (place ++ c.namesFor source) = some .directory →
      t.ensurePath (c.pathFor source).parent = (.ok (), t) →
      ∃ fault, c.write source p t =
        (.error (.cache (.notWritten (c.pathFor source) fault)), t) := by
    intro hd hens
    have hwrite := hreach.write_of_directory hd content
    rw [← pathFor_eq_behind] at hwrite
    refine ⟨.refused .isDirectory (c.pathFor source).text, ?_⟩
    simp only [write, hens, hcontent, hwrite, CacheFault.ofFile]
  by_cases hnil : c.namesFor source = []
  · refine hdirectory ?_ ?_
    · rw [hnil, List.append_nil]
      exact hc.namesDirectory.isDirectory
    · rw [pathFor_eq_behind, hnil, Path.behind_nil]
      exact hc.namesDirectory.ensurePath_parent hc.isRead hc.takes
  · obtain ⟨front, name, hnames⟩ : ∃ front name, c.namesFor source = front ++ [name] :=
      ⟨_, _, (List.dropLast_append_getLast hnil).symm⟩
    have hparent : (c.pathFor source).parent = c.root.behind front := by
      rw [pathFor_eq_behind, hnames, Path.parent_behind_concat]
    rw [hnames] at hreach ha hdirectory
    rw [hparent] at hdirectory
    by_cases hfile : ∃ key ∈ m.keys, key <+: front
    · obtain ⟨key, hkey, hfront⟩ := hfile
      obtain ⟨text, htext⟩ := Finmap.mem_iff.1 (Finmap.mem_keys.1 hkey)
      obtain ⟨cause, hens⟩ :=
        hreach.above.ensurePath_of_file hfront ((h.file_iff key _).2 ⟨text, htext, rfl⟩)
      refine ⟨.refused cause (c.root.behind front).text, ?_⟩
      simp only [write, hparent, hens, CacheFault.ofFile]
    · have hbelow : ∃ key ∈ m.keys, IsAbove (front ++ [name]) key := by
        by_contra hnone
        refine ha ⟨by simp, fun key hkey habove => hfile ⟨key, hkey, isAbove_concat_iff.1 habove⟩,
          fun key hkey habove => hnone ⟨key, hkey, habove⟩⟩
      have hd := (h.directory_iff (front ++ [name]) (by simp)).2 hbelow
      exact hdirectory hd (hreach.above.ensurePath_of_directory
        (hreach.directoriesTo hd front (List.prefix_append _ _)))

end

/-! ## Runs -/

section

variable [HashSeed]

/-- What an action that writes or processes a document answers, and the store after it. -/
inductive StoreStep (c : Cache) (t : FileTree) (m : Store) : Action → Answer → Store → Prop
  | kept {source : Path} {p : Projection} :
      m.Accepts (c.namesFor source) →
      StoreStep c t m (.write source p) (.written (.ok (c.pathFor source)))
        (m.insert (c.namesFor source) p.text)
  | refused {source : Path} {p : Projection} {fault : FileFault} :
      ¬ m.Accepts (c.namesFor source) →
      StoreStep c t m (.write source p)
        (.written (.error (.cache (.notWritten (c.pathFor source) fault)))) m
  | processed {file : List Char} {p : Projection} {notes : List Note} :
      c.project file t = ⟨notes, .ok (some p)⟩ → m.Accepts (c.namesFor (.ofText file)) →
      StoreStep c t m (.process file)
        (.processed ⟨notes, .ok (some (c.pathFor (.ofText file)))⟩)
        (m.insert (c.namesFor (.ofText file)) p.text)
  | notProcessed {file : List Char} {p : Projection} {notes : List Note} {fault : FileFault} :
      c.project file t = ⟨notes, .ok (some p)⟩ → ¬ m.Accepts (c.namesFor (.ofText file)) →
      StoreStep c t m (.process file)
        (.processed ⟨notes, .error (.cache (.notWritten (c.pathFor (.ofText file)) fault))⟩) m
  | skipped {file : List Char} {notes : List Note} :
      c.project file t = ⟨notes, .ok none⟩ →
      StoreStep c t m (.process file) (.processed ⟨notes, .ok none⟩) m
  | failed {file : List Char} {notes : List Note} {fault : Fault} :
      c.project file t = ⟨notes, .error fault⟩ →
      StoreStep c t m (.process file) (.processed ⟨notes, .error fault⟩) m

/-- Actions one after another, with the store beside the tree after each of them. -/
inductive StoreRun (c : Cache) (place : Location) :
    FileTree → Store → List Action → FileTree → Store → Prop
  | done {t : FileTree} {m : Store} : m.Holds t place → StoreRun c place t m [] t m
  | step {t t' : FileTree} {m m' m'' : Store} {action : Action} {rest : List Action} :
      m.Holds t place → StoreStep c t m action (c.act t action).1 m' →
      StoreRun c place (c.act t action).2 m' rest t' m'' →
      StoreRun c place t m (action :: rest) t' m''

/-- Actions that write or process a document and ask for nothing but what fits. -/
def AllFit (c : Cache) : List Action → FileTree → Prop
  | [], _ => True
  | action :: rest, t => action ≠ .remove ∧ (∀ request ∈ c.request? t action, c.Fits request) ∧
      AllFit c rest (c.act t action).2

end

section

variable [HashSeed] {c : Cache} {place : Location} {outer t : FileTree} {m : Store}

/-- Writing a projection on a tree that holds a store. -/
theorem exists_storeStep_write (hc : c.Confined place outer t) (h : m.Holds t place)
    {source : Path} {p : Projection} (hf : c.Fits (source, p)) :
    ∃ m', StoreStep c t m (.write source p) (.written (c.write source p t).1) m' ∧
      Store.Holds m' (c.write source p t).2 place := by
  by_cases ha : m.Accepts (c.namesFor source)
  · obtain ⟨hok, hholds⟩ := write_of_accepts hc h hf ha
    refine ⟨_, ?_, hholds⟩
    rw [hok]
    exact .kept ha
  · obtain ⟨fault, heq⟩ := write_of_not_accepts hc h hf ha
    rw [heq]
    exact ⟨m, .refused ha, h⟩

/-- Processing a document is writing its projection, if there is one. -/
theorem exists_storeStep_process (hc : c.Confined place outer t) (h : m.Holds t place)
    {file : List Char}
    (hf : ∀ p, (c.project file t).result = .ok (some p) → c.Fits (.ofText file, p)) :
    ∃ m', StoreStep c t m (.process file) (.processed (c.process file t).1) m' ∧
      Store.Holds m' (c.process file t).2 place := by
  cases hproject : c.project file t with
  | mk notes result =>
      simp only [process, hproject]
      cases result with
      | error fault => exact ⟨m, .failed hproject, h⟩
      | ok found =>
          cases found with
          | none => exact ⟨m, .skipped hproject, h⟩
          | some p =>
              have hfits := hf p (by rw [hproject])
              by_cases ha : m.Accepts (c.namesFor (.ofText file))
              · obtain ⟨hok, hholds⟩ := write_of_accepts hc h hfits ha
                refine ⟨m.insert (c.namesFor (.ofText file)) p.text, ?_, hholds⟩
                simp only [hok, Except.map]
                exact .processed hproject ha
              · obtain ⟨fault, heq⟩ := write_of_not_accepts hc h hfits ha
                simp only [heq, Except.map]
                exact ⟨m, .notProcessed hproject ha, h⟩

/-- An action on a tree that holds a store leaves a tree that holds the store after it. -/
theorem exists_storeStep (hc : c.Confined place outer t) (h : m.Holds t place) {action : Action}
    (hne : action ≠ .remove) (hf : ∀ request ∈ c.request? t action, c.Fits request) :
    ∃ m', StoreStep c t m action (c.act t action).1 m' ∧
      Store.Holds m' (c.act t action).2 place ∧ c.Confined place outer (c.act t action).2 := by
  cases action with
  | remove => exact absurd rfl hne
  | write source p =>
      have hfits : c.Fits (source, p) := hf _ rfl
      obtain ⟨m', hstep, hholds⟩ := exists_storeStep_write hc h hfits
      exact ⟨m', hstep, hholds, hc.cacheWrite hfits.isRead p⟩
  | process file =>
      have hfits : ∀ p, (c.project file t).result = .ok (some p) → c.Fits (.ofText file, p) :=
        fun p hp => hf _ (by simp [request?, hp])
      obtain ⟨m', hstep, hholds⟩ := exists_storeStep_process hc h hfits
      exact ⟨m', hstep, hholds, hc.process file⟩

/-- Actions that fit run on the store as on the tree. -/
theorem exists_storeRun (hc : c.Confined place outer t) (h : m.Holds t place)
    {actions : List Action} (hf : c.AllFit actions t) :
    ∃ t' m', StoreRun c place t m actions t' m' ∧ c.Confined place outer t' := by
  induction actions generalizing t m with
  | nil => exact ⟨t, m, .done h, hc⟩
  | cons action rest ih =>
      obtain ⟨hne, hfits, hrest⟩ := hf
      obtain ⟨m', hstep, hholds, hconfined⟩ := exists_storeStep hc h hne hfits
      obtain ⟨t', m'', hrun, hend⟩ := ih hconfined hholds hrest
      exact ⟨t', m'', .step h hstep hrun, hend⟩

end

/-- A new root holds the empty store. -/
theorem holds_empty {place : Location} {t : FileTree} (hne : place ≠ []) (h : t.EmptyAt place) :
    Store.Holds ∅ t place := by
  have honly : ∀ names entry, t.find? (place ++ names) = some entry →
      names = [] ∧ entry = .directory := by
    intro names entry hf
    have heq := h _ (mem_of_find?_eq_some (by simp [hne]) hf) (List.prefix_append _ _)
    simpa using heq
  constructor
  case file_iff =>
    intro names content
    constructor
    · intro hf
      cases (honly names _ hf).2
    · rintro ⟨text, htext, -⟩
      simp at htext
  case directory_iff =>
    intro names hnames
    constructor
    · exact fun hf => absurd (honly names _ hf).1 hnames
    · rintro ⟨key, hkey, -⟩
      simp at hkey

/-- From its creation on a cache is a store that is empty at first: each action answers as the
store says, and after each of them the tree holds the store. Removing the root then gives back
the tree without it, and doing so again changes nothing. -/
theorem exists_storeRun_of_create [HashSeed] {directory base : Path} {name : FileName}
    {before : FileTree}
    {c : Cache} {actions : List Action} (hw : before.WellFormed) (hd : directory.IsRead)
    (hname : name.IsPlain) (hb : base.IsRead) (habs : base.isAbsolute = true)
    (h : (create directory base name before).1.result = .ok c)
    (hf : c.AllFit actions (create directory base name before).2) :
    ∃ place, (create directory base name before).2.locate true c.root.text =
        .found place .directory ∧
      ∃ t m, StoreRun c place (create directory base name before).2 ∅ actions t m ∧
        c.remove t = ([.rootRemoved c.root.toString], (before.ensurePath directory).2) ∧
        (before.ensurePath directory).2.isNamed c.root.text = false ∧
        c.remove (before.ensurePath directory).2 = ([], (before.ensurePath directory).2) := by
  obtain ⟨hgone, place, hconfined, hempty⟩ := confined_create hw hd hname hb habs h
  obtain ⟨rfl, -, parent, hroot, -⟩ := exists_rootFree hd hname h
  obtain ⟨t, m, hrun, hend⟩ :=
    exists_storeRun hconfined (holds_empty hconfined.namesDirectory.ne_nil hempty) hf
  refine ⟨place, hconfined.namesDirectory.locate true hconfined.isRead hconfined.takes, t, m,
    hrun, ?_, hgone, ?_⟩
  · exact Prod.ext hend.notes_remove hend.remove
  · rw [remove, FileTree.isThere, hroot.entryAt?_child hd hname]
    rfl

open HashSeed

/-- An empty document is processed, and then four are written: one, one whose place would be
below that, one with a place of its own, and the base directory itself. -/
theorem exists_storeRun_of_create_conflicts :
    let before : FileTree := ⟨[([['p']], .directory), ([['p'], ['t']], .file [])], []⟩
    let c : Cache := ⟨⟨.slash, [['c'], ['7']]⟩, ⟨.slash, [['p']]⟩⟩
    let p : Projection := ⟨[Text.ofChars ['A']]⟩
    let actions : List Action :=
      [.process ['t'], .write ⟨.relative, [['t']]⟩ p, .write ⟨.relative, [['t'], ['b']]⟩ p,
        .write ⟨.slash, [['q'], ['b']]⟩ p, .write ⟨.relative, []⟩ p]
    let empty := (create ⟨.slash, [['c']]⟩ c.base ['7'] before).2
    let outer := before.put [['c']] .directory
    ∃ place, empty.locate true c.root.text = .found place .directory ∧
      ∃ t m, StoreRun c place empty ∅ actions t m ∧
        c.remove t = ([.rootRemoved c.root.toString], outer) ∧
        outer.isNamed c.root.text = false ∧ c.remove outer = ([], outer) := by
  intro before c p actions empty outer
  have houter : (before.ensurePath ⟨.slash, [['c']]⟩).2 = outer := by decide +kernel
  have hproject : (c.project ['t'] empty).result = .ok none :=
    Noted.eq_ok_of_toOption (by decide +kernel)
  have hfits : ∀ source ∈ [(⟨.relative, [['t']]⟩ : Path), ⟨.relative, [['t'], ['b']]⟩,
      ⟨.slash, [['q'], ['b']]⟩, ⟨.relative, []⟩], c.Fits (source, p) := by
    intro source hsource
    constructor
    case isRead =>
      revert source
      decide
    case takes =>
      constructor <;>
      · revert source
        decide
    case length_le =>
      revert source
      decide
    case encodes => exact ⟨[65], rfl⟩
  have hall : c.AllFit actions empty := by
    simp only [actions, AllFit, request?, hproject]
    simp [hfits]
  rw [← houter]
  exact exists_storeRun_of_create (by decide) (by decide) (by decide) (by decide) (by decide)
    (Noted.eq_ok_of_toOption (by decide +kernel)) hall

end Cache

end FrontLint
