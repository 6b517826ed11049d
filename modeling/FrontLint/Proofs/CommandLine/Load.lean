import FrontLint.CommandLine.Session
import FrontLint.Proofs.Cache.Place

/-!
# Loaded settings

The directory of the system for temporary files is the first usable one among its candidates,
and it is looked for before anything else. The limit in the environment is read next; if it is no
duration, the call ends with that, whatever its flags say.
-/

namespace FrontLint

namespace Environment

/-- The variable for the limit of the linter is not set, or empty, or a duration. -/
def HasReadableTimeout (env : Environment) : Prop :=
  ∀ value, env.value? "VALE_FRONTMATTER_TIMEOUT" = some value →
    ∃ limit, Timeout.read (Text.ofString value) = .ok limit

/-- The variable for the limit of the linter is set and no duration. -/
def HasBadTimeout (env : Environment) (reason : TimeoutFault) : Prop :=
  ∃ value, env.value? "VALE_FRONTMATTER_TIMEOUT" = some value ∧
    Timeout.read (Text.ofString value) = .error reason

end Environment

namespace TempDir

variable {env : Environment} {t : FileTree} {directory : Path}

/-- The directory that is found is the first candidate in which a file can be made. -/
theorem exists_of_firstUsable {tried : List (List Char)}
    (h : firstUsable t tried = .ok (some directory)) :
    ∃ front candidate back, tried = front ++ candidate :: back ∧
      absolute? t candidate = some directory ∧ isUsable t directory.text = true ∧
      ∀ other ∈ front, ∃ place, absolute? t other = some place ∧
        isUsable t place.text = false := by
  induction tried with
  | nil => cases h
  | cons candidate rest ih =>
      rw [firstUsable] at h
      cases hplace : absolute? t candidate with
      | none =>
          rw [hplace] at h
          cases h
      | some place =>
          rw [hplace] at h
          cases husable : isUsable t place.text with
          | true =>
              simp only [husable, if_true, Except.ok.injEq, Option.some.injEq] at h
              subst h
              exact ⟨[], candidate, rest, rfl, hplace, husable, List.forall_mem_nil _⟩
          | false =>
              simp only [husable, Bool.false_eq_true, if_false] at h
              obtain ⟨front, found, back, rfl, hfound, hmade, hfront⟩ := ih h
              refine ⟨candidate :: front, found, back, rfl, hfound, hmade, ?_⟩
              exact List.forall_mem_cons.2 ⟨⟨place, hplace, husable⟩, hfront⟩

theorem firstUsable_of_find (h : find env t = .ok directory) :
    firstUsable t (candidates env t) = .ok (some directory) := by
  rw [find] at h
  split at h
  · rename_i found hfound
    rw [hfound, Except.ok.inj h]
  · cases h
  · cases h

theorem eq_currentMissing_of_firstUsable {tried : List (List Char)} {fault : SettingsFault}
    (h : firstUsable t tried = .error fault) : fault = .currentMissing := by
  induction tried with
  | nil => cases h
  | cons candidate rest ih =>
      rw [firstUsable] at h
      split at h
      · exact (Except.error.inj h).symm
      · split at h
        · cases h
        · exact ih h

/-- No directory is found if no candidate is usable, or if one is named from a current directory
that is gone. -/
theorem find_eq_error {fault : SettingsFault} (h : find env t = .error fault) :
    fault = .noTempDir (candidates env t) ∨ fault = .currentMissing := by
  rw [find] at h
  split at h
  · cases h
  · exact .inl (Except.error.inj h).symm
  · rename_i other hother
    obtain rfl := Except.error.inj h
    exact .inr (eq_currentMissing_of_firstUsable hother)

/-- Candidates become paths as they are read from texts. -/
theorem isRead_of_find (hcurrent : (Path.mk .slash t.current).IsRead)
    (h : find env t = .ok directory) : directory.IsRead := by
  obtain ⟨front, candidate, back, -, hplace, -, -⟩ :=
    exists_of_firstUsable (firstUsable_of_find h)
  have hcandidate := Path.isRead_ofText candidate
  have hnormal : ∀ {p : Path}, p.IsRead → p.normal.IsRead :=
    fun hp name hname => hp name (Path.mem_of_mem_normalNames hname)
  rw [absolute?] at hplace
  split at hplace
  · rw [← Option.some.inj hplace]
    exact hnormal hcandidate
  · rw [FileTree.currentPath?] at hplace
    split at hplace
    · rw [← Option.some.inj hplace]
      exact hnormal (Path.isRead_join hcurrent hcandidate)
    · cases hplace

/-- Which directory is found depends on the variables that name one, and on no others. -/
theorem find_congr {env' : Environment} (h : ∀ name ∈ ["TMPDIR", "TEMP", "TMP"],
    env.value? name = env'.value? name) : find env t = find env' t := by
  have hcandidates : candidates env t = candidates env' t := by
    rw [candidates, candidates, List.filterMap_congr h]
  rw [find, find, hcandidates]

end TempDir

namespace Settings

variable {env : Environment} {homes : Homes} {t : FileTree} {systemDir : Path}
  {fault : SettingsFault}

/-- The settings under an environment with a limit and a directory read from it. -/
def loaded (env : Environment) (systemDir : Path) (timeout : Option Binary64) (tempDir : Path) :
    Settings :=
  ⟨(env.value? "VALE_FRONTMATTER_LINTER").getD (default systemDir).linter, timeout, tempDir,
    (default systemDir).defaultPattern⟩

theorem loadTimeout_of_hasReadableTimeout (h : env.HasReadableTimeout)
    (standard : Option Binary64) : ∃ timeout, loadTimeout env standard = .ok timeout := by
  cases hvalue : env.value? "VALE_FRONTMATTER_TIMEOUT" with
  | none => exact ⟨standard, by rw [loadTimeout, hvalue]⟩
  | some value =>
      obtain ⟨limit, hlimit⟩ := h value hvalue
      exact ⟨limit, by rw [loadTimeout, hvalue]; simp only [hlimit]; rfl⟩

theorem loadTimeout_of_hasBadTimeout {reason : TimeoutFault} (h : env.HasBadTimeout reason)
    (standard : Option Binary64) : loadTimeout env standard = .error (.timeout reason) := by
  obtain ⟨value, hvalue, hreason⟩ := h
  rw [loadTimeout, hvalue]
  simp only [hreason]
  rfl

theorem load_of_find_error (h : TempDir.find env t = .error fault) :
    load env homes t = .error fault := by
  simp only [load, h, bind, Except.bind]

/-- A limit that is no duration is the fault of the settings, if there is a directory for
temporary files. -/
theorem load_of_hasBadTimeout {reason : TimeoutFault}
    (hfind : TempDir.find env t = .ok systemDir) (h : env.HasBadTimeout reason) :
    load env homes t = .error (.timeout reason) := by
  simp only [load, hfind, loadTimeout_of_hasBadTimeout h, bind, Except.bind]

theorem load_of_loadTempDir_error {timeout : Option Binary64}
    (hfind : TempDir.find env t = .ok systemDir)
    (htimeout : loadTimeout env (default systemDir).timeout = .ok timeout)
    (h : loadTempDir env homes (default systemDir).tempDir = .error fault) :
    load env homes t = .error fault := by
  simp only [load, hfind, htimeout, h, bind, Except.bind]

theorem load_of_ok {timeout : Option Binary64} {tempDir : Path}
    (hfind : TempDir.find env t = .ok systemDir)
    (htimeout : loadTimeout env (default systemDir).timeout = .ok timeout)
    (h : loadTempDir env homes (default systemDir).tempDir = .ok tempDir) :
    load env homes t = .ok (loaded env systemDir timeout tempDir) := by
  simp only [load, hfind, htimeout, h, bind, Except.bind, pure, Except.pure, loaded]

theorem isRead_home? {user : FileName} {home : Path} (h : home? env homes user = some home) :
    home.IsRead := by
  rw [home?] at h
  split at h
  · cases h
  · simp only at h
    split at h
    · cases h
    · rw [← Option.some.inj h]
      exact Path.isRead_ofText _

theorem isRead_expandHome {p q : Path} (hp : p.IsRead) (h : expandHome env homes p = .ok q) :
    q.IsRead := by
  rw [expandHome] at h
  split at h
  · rename_i user rest _ hnames
    split at h
    · rename_i home hhome
      rw [← Except.ok.inj h]
      intro name hname
      rcases List.mem_append.1 hname with hname | hname
      · exact isRead_home? hhome name hname
      · exact hp name (hnames ▸ List.mem_cons_of_mem _ hname)
    · cases h
  · rw [← Except.ok.inj h]
    exact hp

theorem isRead_loadTempDir {standard tempDir : Path} (hstandard : standard.IsRead)
    (h : loadTempDir env homes standard = .ok tempDir) : tempDir.IsRead := by
  rw [loadTempDir] at h
  split at h
  · exact isRead_expandHome (Path.isRead_ofText _) h
  · rw [← Except.ok.inj h]
    exact hstandard

/-- The directory for caches is read from a text in all settings. -/
theorem isRead_tempDir_of_load {s : Settings} (hcurrent : (Path.mk .slash t.current).IsRead)
    (h : load env homes t = .ok s) : s.tempDir.IsRead := by
  rw [load] at h
  cases hfind : TempDir.find env t with
  | error fault => simp [hfind, bind, Except.bind] at h
  | ok systemDir =>
      cases htimeout : loadTimeout env (default systemDir).timeout with
      | error fault => simp [hfind, htimeout, bind, Except.bind] at h
      | ok timeout =>
          cases htemp : loadTempDir env homes (default systemDir).tempDir with
          | error fault => simp [hfind, htimeout, htemp, bind, Except.bind] at h
          | ok tempDir =>
              simp only [hfind, htimeout, htemp, bind, Except.bind, pure, Except.pure,
                Except.ok.injEq] at h
              rw [← h]
              refine isRead_loadTempDir (fun name hname => ?_) htemp
              rcases List.mem_append.1 hname with hname | hname
              · exact TempDir.isRead_of_find hcurrent hfind name hname
              · obtain rfl := List.mem_singleton.1 hname
                decide +kernel

end Settings

namespace Session

variable [HashSeed] {argv : List String} {a : Arguments} {s : Surroundings}

theorem run_of_load {settings : Settings} (hread : Arguments.read argv = .ok a)
    (h : Settings.load s.environment s.homes s.files = .ok settings) :
    run argv s = lint a settings s := by
  simp only [run, hread, h]

/-- Without a directory for temporary files a call ends before the limit is read. -/
theorem run_of_find_error {fault : SettingsFault} (hread : Arguments.read argv = .ok a)
    (h : TempDir.find s.environment s.files = .error fault) :
    run argv s = broken s.files [] := by
  have hload : Settings.load s.environment s.homes s.files = .error fault :=
    Settings.load_of_find_error h
  rcases TempDir.find_eq_error h with rfl | rfl
  · simp only [run, hread, hload]
  · simp only [run, hread, hload]

/-- The fault of the limit ends a call with arguments of any kind. -/
theorem run_of_hasBadTimeout {systemDir : Path} {reason : TimeoutFault}
    (hread : Arguments.read argv = .ok a)
    (hfind : TempDir.find s.environment s.files = .ok systemDir)
    (h : s.environment.HasBadTimeout reason) :
    run argv s = early s.files 1 [] s!"Error: {(SettingsFault.timeout reason).message}\n" := by
  simp only [run, hread, Settings.load_of_hasBadTimeout hfind h]

end Session

end FrontLint
