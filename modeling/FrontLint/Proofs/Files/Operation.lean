import FrontLint.Proofs.Files.WellFormed

/-!
# File operations on paths

What an operation on the text of a path does, in terms of where the names of the path lead.
Making a directory and those above it is making them one by one, so what each step keeps is
kept by all of them together.
-/

namespace FrontLint

/-- A name on the way of a path, other than the last one, is free. -/
def FileFault.IsMissing (fault : FileFault) : Prop :=
  ∃ blamed, fault = .refused .missing blamed

/-- A text that an operation takes for a path. -/
structure FileTree.Takes (path : List Char) : Prop where
  nul_not_mem : '\x00' ∉ path
  length_lt : (Utf8.encodeChars path).length < FileTree.pathBytesBound

namespace FileTree

theorem follow_steps (t : FileTree) (last : Bool) (links : Nat) (directory : Location)
    (names : List FileName) :
    t.follow last links directory (if names = [] then [FileName.here] else names) =
      t.follow last links directory names := by
  split
  · rename_i hn
    rw [hn, follow_here]
  · rfl

/-- Where the text of a path leads is where its names lead, unless it is too long. -/
theorem locate_text (t : FileTree) (last : Bool) {p : Path} (h : p.IsRead) :
    t.locate last p.text =
      if pathBytesBound ≤ (Utf8.encodeChars p.text).length then .refused .nameTooLong
      else t.follow last maxLinks (t.origin p) p.names := by
  have hne : p.text.isEmpty = false := by simpa using Path.text_ne_nil h
  rw [locate, hne, startOf_text t h, stepsOf_text h, follow_steps]
  rfl

theorem locate_text_of_takes (t : FileTree) (last : Bool) {p : Path} (h : p.IsRead)
    (ht : Takes p.text) :
    t.locate last p.text = t.follow last maxLinks (t.origin p) p.names := by
  rw [locate_text t last h, if_neg (Nat.not_le.2 ht.length_lt)]

theorem stepsOf_dot_slash {name : FileName} (hn : name.IsRead) :
    stepsOf ('.' :: '/' :: name) = [FileName.here, name] := by
  have hname : name.splitOn '/' = [name] := List.splitOn_eq_singleton hn.slash_not_mem
  have hsplit : ('.' :: '/' :: name).splitOn '/' = [FileName.here, name] := by
    rw [show '.' :: '/' :: name = FileName.here ++ '/' :: name from rfl,
      List.splitOn_append_cons_self_of_not_mem (by decide), hname]
  have hlast : ('.' :: '/' :: name).getLast? ≠ some '/' := by
    obtain ⟨c, tail, hc⟩ := List.exists_cons_of_ne_nil hn.ne_nil
    rw [show '.' :: '/' :: name = ['.', '/'] ++ name from rfl,
      List.getLast?_append_of_ne_nil _ hn.ne_nil]
    exact fun h => hn.slash_not_mem (List.mem_of_getLast? h)
  rw [stepsOf, hsplit, if_neg hlast]
  simp [FileName.here, hn.ne_nil]

/-- A name put behind the text of a path is followed from the directory of the path. -/
theorem locate_attach (t : FileTree) (last : Bool) {p : Path} (h : p.IsRead) {name : FileName}
    (hn : name.IsRead) (ht : Takes (Glob.attach p.text name)) :
    t.locate last (Glob.attach p.text name) =
      t.follow last maxLinks (t.origin p) (p.names ++ [name]) := by
  rw [Path.attach_text h hn] at ht ⊢
  split
  · rename_i hp
    rw [if_pos hp] at ht
    subst hp
    rw [locate, if_neg (by simp), if_neg (Nat.not_le.2 ht.length_lt), stepsOf_dot_slash hn]
    simp [startOf, origin, Path.isAbsolute]
  · rename_i hp
    rw [if_neg hp] at ht
    exact locate_text_of_takes t last (Path.isRead_child h hn) ht

theorem takes_child {p : Path} (h : p.IsRead) {name : FileName} (hn : name.IsRead)
    (ht : Takes (Glob.attach p.text name)) : Takes (p.child name).text := by
  rw [Path.attach_text h hn] at ht
  split at ht
  · rename_i hp
    subst hp
    have htext : ((Path.mk .relative []).child name).text = name := rfl
    rw [htext]
    constructor
    · intro hm
      exact ht.nul_not_mem (by simp [hm])
    · have hlen := ht.length_lt
      simp only [Utf8.encodeChars, List.flatMap_cons, List.length_append] at hlen
      rw [Utf8.encodeChars]
      omega
  · exact ht

theorem Takes.of_isPrefix {front path : List Char} (h : Takes path) (hp : front <+: path) :
    Takes front := by
  obtain ⟨tail, rfl⟩ := hp
  constructor
  · exact fun hm => h.nul_not_mem (List.mem_append_left _ hm)
  · have hlen := h.length_lt
    rw [Utf8.encodeChars, List.flatMap_append, List.length_append] at hlen
    rw [Utf8.encodeChars]
    omega

theorem takes_of_takes_attach {path : List Char} {name : FileName} (hn : name.IsRead)
    (ht : Takes (Glob.attach path name)) : Takes path := by
  refine ht.of_isPrefix ?_
  rw [Glob.attach, if_neg fun hhead => hn.slash_not_mem (List.mem_of_head? hhead)]
  split <;> exact List.prefix_append _ _

/-- A text that is no path leads nowhere. -/
theorem locate_of_not_takes (t : FileTree) (last : Bool) {path : List Char}
    (hnul : '\x00' ∉ path) (h : ¬ Takes path) :
    ∃ cause, t.locate last path = .refused cause := by
  have hlong : pathBytesBound ≤ (Utf8.encodeChars path).length := by
    rw [← Nat.not_lt]
    exact fun hlt => h ⟨hnul, hlt⟩
  by_cases hempty : path.isEmpty = true
  · exact ⟨.missing, by simp [locate, hempty]⟩
  · exact ⟨.nameTooLong, by simp [locate, hempty, hlong]⟩

section makeDirectory

variable {t t' : FileTree} {path : List Char} {directory : Location} {name : FileName}
  {entry : Entry}

theorem add_of_find?_eq (h : t.find? directory = some .directory) :
    t.add path directory name entry = .ok (t.put (directory ++ [name]) entry) := if_pos h

theorem add_eq_ok_iff : t.add path directory name entry = .ok t' ↔
    t.find? directory = some .directory ∧ t' = t.put (directory ++ [name]) entry := by
  rw [add]
  split
  · rename_i h
    simp [h, eq_comm]
  · rename_i h
    simp [h]

theorem takes_of_makeDirectory (h : t.makeDirectory path = .ok t') : Takes path := by
  rw [makeDirectory] at h
  split at h
  · cases h
  · rename_i hnul
    by_contra ht
    obtain ⟨cause, hl⟩ := t.locate_of_not_takes false (by simpa using hnul) ht
    simp [hl] at h

theorem makeDirectory_eq_ok_iff (ht : Takes path) :
    t.makeDirectory path = .ok t' ↔
      ∃ directory name, t.locate false path = .free directory name ∧
        t.find? directory = some .directory ∧ t' = t.put (directory ++ [name]) .directory := by
  have hnul : ¬ path.contains '\x00' = true := by simpa using ht.nul_not_mem
  rw [makeDirectory, if_neg hnul]
  cases t.locate false path with
  | found location entry => simp
  | free directory name => simp [add_eq_ok_iff]
  | refused cause => simp

/-- A directory is made at a free name, and only there. -/
theorem makeDirectory_text {p : Path} (h : p.IsRead) (hm : t.makeDirectory p.text = .ok t') :
    ∃ directory name,
      t.follow false maxLinks (t.origin p) p.names = .free directory name ∧
        t' = t.put (directory ++ [name]) .directory := by
  have ht := takes_of_makeDirectory hm
  obtain ⟨directory, name, hl, -, rfl⟩ := (makeDirectory_eq_ok_iff ht).1 hm
  rw [locate_text_of_takes t false h ht] at hl
  exact ⟨directory, name, hl, rfl⟩

end makeDirectory

/-- A file is written in place of an older one or at a free name. -/
theorem write_eq_ok {t t' : FileTree} {path : List Char} {content : Bytes}
    (h : t.write path content = .ok t') :
    Takes path ∧ ∃ location, t' = t.put location (.file content) ∧
      ((∃ old, t.locate true path = .found location (.file old)) ∨
        ∃ directory name, t.locate true path = .free directory name ∧
          location = directory ++ [name]) := by
  rw [write] at h
  split at h
  · cases h
  · rename_i hnul
    have ht : Takes path := by
      by_contra ht
      obtain ⟨cause, hl⟩ := t.locate_of_not_takes true (by simpa using hnul) ht
      simp [hl] at h
    refine ⟨ht, ?_⟩
    cases hl : t.locate true path with
    | refused cause => simp [hl] at h
    | free directory name =>
        rw [hl] at h
        obtain ⟨-, rfl⟩ := add_eq_ok_iff.1 h
        exact ⟨_, rfl, .inr ⟨directory, name, rfl, rfl⟩⟩
    | found location entry =>
        cases entry with
        | directory => simp [hl] at h
        | link target => simp [hl] at h
        | file old =>
            rw [hl] at h
            cases h
            exact ⟨location, rfl, .inl ⟨old, rfl⟩⟩

/-- An ensured directory is one that was there or one just made. -/
theorem ensureDirectory_eq_ok {t t' : FileTree} {path : List Char}
    (h : t.ensureDirectory path = .ok t') : t' = t ∨ t.makeDirectory path = .ok t' := by
  rw [ensureDirectory] at h
  split at h
  · split at h
    · cases h
      exact .inl rfl
    · cases h
  · exact .inr h

/-- A directory that could not be made but is there counts as made. -/
def excuse (t : FileTree) (path : List Char) : FileFault → Except FileFault Unit
  | .refused cause blamed =>
    if t.isDirectory path then .ok () else .error (.refused cause blamed)
  | .nulInPath => .error .nulInPath

section ensureNames

variable {t made : FileTree} {anchor : Anchor} {names above : List FileName} {name : FileName}
  {fault : FileFault}

theorem ensureNames_of_ok (h : t.makeDirectory (Path.mk anchor names.reverse).text = .ok made) :
    ensureNames anchor names t = (.ok (), made) := by
  unfold ensureNames
  simp only [h]

/-- For a directory on whose way another one is missing, those above it are made first. -/
theorem ensureNames_of_missing
    (h : t.makeDirectory (Path.mk anchor (name :: above).reverse).text = .error fault)
    (hmissing : fault.IsMissing) :
    ensureNames anchor (name :: above) t =
      match (ensureNames anchor above t).1 with
      | .error fault => (.error fault, (ensureNames anchor above t).2)
      | .ok _ =>
        match (ensureNames anchor above t).2.ensureDirectory
            (Path.mk anchor (name :: above).reverse).text with
        | .error fault => (.error fault, (ensureNames anchor above t).2)
        | .ok made => (.ok (), made) := by
  obtain ⟨blamed, rfl⟩ := hmissing
  conv_lhs => unfold ensureNames
  simp only [h]
  cases ensureNames anchor above t with
  | mk result left =>
      cases result with
      | error fault => rfl
      | ok done =>
          simp only
          split <;> rename_i hd <;> rw [hd]

theorem ensureNames_of_error
    (h : t.makeDirectory (Path.mk anchor names.reverse).text = .error fault)
    (hstop : ¬ fault.IsMissing ∨ names = []) :
    ensureNames anchor names t =
      (t.excuse (Path.mk anchor names.reverse).text fault, t) := by
  unfold ensureNames
  simp only [h]
  cases fault with
  | nulInPath => rfl
  | refused cause blamed =>
      cases names with
      | nil => cases cause <;> rfl
      | cons name above =>
          have hcause : cause ≠ .missing := by
            rintro rfl
            rcases hstop with hstop | hstop
            · exact hstop ⟨blamed, rfl⟩
            · cases hstop
          cases cause <;> first | rfl | exact absurd rfl hcause

end ensureNames

/-- A directory that is there is not made again. -/
theorem ensurePath_of_leads {t : FileTree} {p : Path} (h : p.IsRead) (ht : Takes p.text)
    {left : Nat} {place : Location} (hl : t.Leads maxLinks (t.origin p) p.names left place) :
    t.ensurePath p = (.ok (), t) := by
  have hnul : ¬ p.text.contains '\x00' = true := by simpa using ht.nul_not_mem
  have hmake : t.makeDirectory p.text = .error (.refused .alreadyThere p.text) := by
    obtain ⟨location, entry, hfound⟩ := hl.exists_follow_eq_found false
    rw [makeDirectory, if_neg hnul, locate_text_of_takes t false h ht, hfound]
  have hthere : t.isDirectory p.text = true := by
    rw [isDirectory, entryAt?, if_neg hnul, locate_text_of_takes t true h ht, hl.follow_eq]
  have hnames : (Path.mk p.anchor p.names.reverse.reverse).text = p.text := by
    rw [List.reverse_reverse]
  rw [← hnames] at hmake
  rw [ensurePath, ensureNames_of_error hmake (.inl (by simp [FileFault.IsMissing])), hnames,
    excuse, if_pos hthere]

/-- What making any one of the directories keeps is kept by making them all. -/
theorem ensureNames_keeps {P : FileTree → Prop} (anchor : Anchor) (names : List FileName)
    (hstep : ∀ t t' front, front <+: names.reverse → P t →
      t.makeDirectory (Path.mk anchor front).text = .ok t' → P t')
    {t : FileTree} (h : P t) : P (ensureNames anchor names t).2 := by
  induction names generalizing t with
  | nil =>
      unfold ensureNames
      simp only
      split
      · rename_i hm
        exact hstep _ _ _ (List.prefix_refl _) h hm
      all_goals first | exact h | simp_all
  | cons name above ih =>
      have habove : P (ensureNames anchor above t).2 := by
        refine ih (fun t t' front hp => hstep t t' front ?_) h
        rw [List.reverse_cons]
        exact hp.trans (List.prefix_append _ _)
      unfold ensureNames
      simp only
      split
      · rename_i hm
        exact hstep _ _ _ (List.prefix_refl _) h hm
      · rename_i hcons
        obtain ⟨-, rfl⟩ := List.cons_eq_cons.1 hcons
        split
        · rename_i made hens
          rw [hens] at habove
          split
          · rename_i made' hd
            rcases ensureDirectory_eq_ok hd with rfl | hm
            · exact habove
            · exact hstep _ _ _ (List.prefix_refl _) habove hm
          · exact habove
        · exact habove
      · exact h
      · exact h

theorem ensurePath_keeps {P : FileTree → Prop} (p : Path)
    (hstep : ∀ t t' front, front <+: p.names → P t →
      t.makeDirectory (Path.mk p.anchor front).text = .ok t' → P t')
    {t : FileTree} (h : P t) : P (t.ensurePath p).2 := by
  refine ensureNames_keeps p.anchor p.names.reverse (fun t t' front hp => ?_) h
  rw [List.reverse_reverse] at hp
  exact hstep t t' front hp

end FileTree

end FrontLint
