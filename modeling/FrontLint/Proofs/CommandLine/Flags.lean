import FrontLint.Proofs.CommandLine.Load

/-!
# Flags in place of variables

A call with a limit and a linter as flags does the same whatever the environment says about
them, unless what it says about the limit is no duration. Then it does nothing, and that does not
depend on its flags.
-/

namespace FrontLint

/-- Two environments with the same variables, those that flags replace left out of account. -/
def Environment.AgreesBesideFlags (env env' : Environment) : Prop :=
  ∀ name, name ≠ "VALE_FRONTMATTER_TIMEOUT" → name ≠ "VALE_FRONTMATTER_LINTER" →
    env.lookup name = env'.lookup name

/-- Arguments with a limit and a linter. -/
structure Arguments.ReplacesVariables (a : Arguments) : Prop where
  timeout : a.timeout ≠ .none
  linter : ∃ program, a.linter = some program ∧ program ≠ ""

namespace Settings

variable {env env' : Environment}

theorem expandHome_congr (h : env.lookup "HOME" = env'.lookup "HOME") (homes : Homes) (p : Path) :
    expandHome env homes p = expandHome env' homes p := by
  have hhome : ∀ user, home? env homes user = home? env' homes user := by
    intro user
    simp only [home?, homeText?, h]
  simp only [expandHome, hhome]

/-- The directory for caches does not depend on the variables that flags replace. -/
theorem loadTempDir_congr (h : env.AgreesBesideFlags env') (homes : Homes) (standard : Path) :
    loadTempDir env homes standard = loadTempDir env' homes standard := by
  have hhome := h "HOME" (by decide) (by decide)
  have hdir := h "VALE_FRONTMATTER_TEMP_DIR" (by decide) (by decide)
  simp only [loadTempDir, Environment.value?, hdir, expandHome_congr hhome]

/-- Nor does the directory of the system for temporary files. -/
theorem tempDirFind_congr (h : env.AgreesBesideFlags env') (t : FileTree) :
    TempDir.find env t = TempDir.find env' t := by
  apply TempDir.find_congr
  intro name hname
  have hbeside : name ≠ "VALE_FRONTMATTER_TIMEOUT" ∧ name ≠ "VALE_FRONTMATTER_LINTER" := by
    revert name
    decide
  rw [Environment.value?, Environment.value?, h name hbeside.1 hbeside.2]

end Settings

namespace Session

variable {argv : List String} {a : Arguments} {env env' : Environment}

/-- With a limit and a linter as flags nothing of the loaded ones is left. -/
theorem withFlags_loaded (ha : a.ReplacesVariables) (env env' : Environment) (systemDir : Path)
    (timeout timeout' : Option Binary64) (tempDir : Path) :
    withFlags (.loaded env systemDir timeout tempDir) a =
      withFlags (.loaded env' systemDir timeout' tempDir) a := by
  obtain ⟨program, hprogram, hne⟩ := ha.linter
  obtain ⟨limit, hlimit⟩ := Option.ne_none_iff_exists'.1 ha.timeout
  have hkept : a.linter.filter (· ≠ "") = some program := by
    rw [hprogram, Option.filter_some_pos (by simpa using hne)]
  simp only [withFlags, Settings.loaded, hkept, hlimit, Option.getD_some]

section

variable [HashSeed]

/-- A call looks at the settings with its flags and, of the environment, at nothing more. -/
theorem lint_congr {settings settings' : Settings} (s : Surroundings)
    (hsettings : withFlags settings a = withFlags settings' a) :
    lint a settings { s with environment := env } =
      lint a settings' { s with environment := env' } := by
  simp only [lint, hsettings]
  rfl

/-- With limits that can be read, a call with a limit and a linter as flags is the same in two
environments that agree beside them. -/
theorem run_congr (hread : Arguments.read argv = .ok a) (ha : a.ReplacesVariables)
    (s : Surroundings) (henv : env.AgreesBesideFlags env') (htimeout : env.HasReadableTimeout)
    (htimeout' : env'.HasReadableTimeout) :
    run argv { s with environment := env } = run argv { s with environment := env' } := by
  have hfind' := Settings.tempDirFind_congr henv s.files
  cases hfind : TempDir.find env s.files with
  | error fault =>
      rw [hfind] at hfind'
      rw [run_of_find_error hread hfind, run_of_find_error hread hfind'.symm]
  | ok systemDir =>
      rw [hfind] at hfind'
      obtain ⟨limit, hlimit⟩ := Settings.loadTimeout_of_hasReadableTimeout htimeout
        (Settings.default systemDir).timeout
      obtain ⟨limit', hlimit'⟩ := Settings.loadTimeout_of_hasReadableTimeout htimeout'
        (Settings.default systemDir).timeout
      have hdir := Settings.loadTempDir_congr henv s.homes (Settings.default systemDir).tempDir
      cases htemp : Settings.loadTempDir env s.homes (Settings.default systemDir).tempDir with
      | error fault =>
          have hload := Settings.load_of_loadTempDir_error hfind hlimit htemp
          have hload' :=
            Settings.load_of_loadTempDir_error hfind'.symm hlimit' (hdir.symm.trans htemp)
          simp only [run, hread, hload, hload']
          cases fault <;> rfl
      | ok tempDir =>
          have hload := Settings.load_of_ok hfind hlimit htemp
          have hload' := Settings.load_of_ok hfind'.symm hlimit' (hdir.symm.trans htemp)
          rw [run_of_load hread hload, run_of_load hread hload']
          exact lint_congr s (withFlags_loaded ha env env' systemDir limit limit' tempDir)

/-- Flags stand in place of what the environment says: two environments that differ in the
replaced variables only, with limits that can be read, give the same call in every respect. A
limit that cannot be read ends a call with status 1 before anything else happens, whatever its
flags are: with the message that says so or, if there is no directory for temporary files either,
with that fault. -/
theorem run_of_replacesVariables (hread : Arguments.read argv = .ok a) (s : Surroundings) :
    (a.ReplacesVariables → ∀ env env' : Environment, env.AgreesBesideFlags env' →
      env.HasReadableTimeout → env'.HasReadableTimeout →
        run argv { s with environment := env } = run argv { s with environment := env' }) ∧
    ∀ (env : Environment) (reason : TimeoutFault), env.HasBadTimeout reason →
      (∀ systemDir, TempDir.find env s.files = .ok systemDir →
        run argv { s with environment := env } =
          early s.files 1 [] s!"Error: {(SettingsFault.timeout reason).message}\n") ∧
      ∀ fault, TempDir.find env s.files = .error fault →
        run argv { s with environment := env } = broken s.files [] := by
  refine ⟨fun ha env env' henv => run_congr hread ha s henv, fun env reason hbad => ⟨?_, ?_⟩⟩
  · intro systemDir hfind
    exact run_of_hasBadTimeout hread hfind hbad
  · intro fault hfind
    exact run_of_find_error hread hfind

end

/-- A tree with a document `a` that has a title. -/
def flagTree : FileTree :=
  ⟨[([['w']], .directory),
    ([['w'], ['a']], .file (Utf8.encodeChars
      ['-', '-', '-', '\n', 't', 'i', 't', 'l', 'e', ':', ' ', 'b', '\n', '-', '-', '-']))],
    [['w']]⟩

def flagWords : List String := ["--timeout", "20", "--linter", "l", "a"]

/-- A linter that ends with status 7. -/
def flagSurroundings (env : Environment) : Surroundings where
  environment := env
  homes := fun _ => none
  linter := fun _ _ => .exited 7 []
  files := flagTree
  rootName := ['x']
  console := .plain
  stdout := .plain

theorem agreesBesideFlags_timeout (value : String) :
    Environment.AgreesBesideFlags [] [("VALE_FRONTMATTER_TIMEOUT", value)] := by
  intro name htimeout _
  rw [List.lookup_nil, List.lookup_cons, beq_false_of_ne htimeout, List.lookup_nil]

theorem exists_read_flagWords :
    ∃ a, Arguments.read flagWords = .ok a ∧ a.ReplacesVariables := by
  have hread : (Arguments.read flagWords).toOption.isSome = true := by decide +kernel
  have htimeout : (Arguments.read flagWords).toOption.bind Arguments.timeout ≠ none := by
    decide +kernel
  have hlinter : (Arguments.read flagWords).toOption.bind Arguments.linter = some "l" := by
    decide +kernel
  obtain ⟨a, ha⟩ := Option.isSome_iff_exists.1 hread
  rw [ha] at htimeout hlinter
  exact ⟨a, Noted.eq_ok_of_toOption ha, htimeout, "l", hlinter, by decide⟩

open HashSeed

/-- A limit of five seconds in the environment makes no difference beside one of twenty as a
flag, and the limit `bad` is an error, with these flags and with none. -/
theorem run_replaced_five :
    run flagWords (flagSurroundings []) =
        run flagWords (flagSurroundings [("VALE_FRONTMATTER_TIMEOUT", "5")]) ∧
      (∃ errors, run flagWords (flagSurroundings [("VALE_FRONTMATTER_TIMEOUT", "bad")]) =
        early flagTree 1 [] errors) ∧
      ∃ errors, run [] (flagSurroundings [("VALE_FRONTMATTER_TIMEOUT", "bad")]) =
        early flagTree 1 [] errors := by
  obtain ⟨a, hread, ha⟩ := exists_read_flagWords
  have hnone : (Arguments.read []).toOption.isSome = true := by decide +kernel
  obtain ⟨a', ha'⟩ := Option.isSome_iff_exists.1 hnone
  have hread' := Noted.eq_ok_of_toOption ha'
  have hbad : (Timeout.read (Text.ofString "bad")).toOption = none := by decide +kernel
  obtain ⟨reason, hreason⟩ : ∃ reason, Timeout.read (Text.ofString "bad") = .error reason := by
    cases hresult : Timeout.read (Text.ofString "bad") with
    | ok limit =>
        rw [hresult] at hbad
        cases hbad
    | error reason => exact ⟨reason, rfl⟩
  have henv : Environment.HasBadTimeout [("VALE_FRONTMATTER_TIMEOUT", "bad")] reason :=
    ⟨"bad", by decide +kernel, hreason⟩
  have hfind : TempDir.find [("VALE_FRONTMATTER_TIMEOUT", "bad")] flagTree =
      .ok ⟨.slash, [['w']]⟩ := Noted.eq_ok_of_toOption (by decide +kernel)
  have hflags := ((run_of_replacesVariables hread (flagSurroundings [])).2 _ reason henv).1 _ hfind
  have hplain :=
    ((run_of_replacesVariables hread' (flagSurroundings [])).2 _ reason henv).1 _ hfind
  refine ⟨?_, ⟨_, hflags⟩, ⟨_, hplain⟩⟩
  have hfive : (Timeout.read (Text.ofString "5")).toOption.isSome = true := by decide +kernel
  obtain ⟨limit, hlimit⟩ := Option.isSome_iff_exists.1 hfive
  refine (run_of_replacesVariables hread (flagSurroundings [])).1 ha _ _
    (agreesBesideFlags_timeout "5") (fun value hvalue => ?_) (fun value hvalue => ?_)
  · cases hvalue
  · have hfound : Environment.value? [("VALE_FRONTMATTER_TIMEOUT", "5")]
        "VALE_FRONTMATTER_TIMEOUT" = some "5" := by decide +kernel
    rw [hfound] at hvalue
    obtain rfl := Option.some.inj hvalue
    exact ⟨limit, Noted.eq_ok_of_toOption hlimit⟩

/-- The limit `bad` in the environment ends the call with status 1, although a limit is given
as a flag. -/
theorem not_run_replaced_bad :
    ∃ a, Arguments.read flagWords = .ok a ∧ a.ReplacesVariables ∧
      Environment.AgreesBesideFlags [] [("VALE_FRONTMATTER_TIMEOUT", "bad")] ∧
      (run flagWords (flagSurroundings [])).status = 7 ∧
      (run flagWords (flagSurroundings [("VALE_FRONTMATTER_TIMEOUT", "bad")])).status = 1 := by
  obtain ⟨a, hread, ha⟩ := exists_read_flagWords
  exact ⟨a, hread, ha, agreesBesideFlags_timeout "bad", by decide +kernel, by decide +kernel⟩

end Session

end FrontLint
