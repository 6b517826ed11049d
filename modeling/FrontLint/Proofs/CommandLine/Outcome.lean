import FrontLint.Proofs.CommandLine.Load
import FrontLint.Proofs.Run.Accounting
import FrontLint.Proofs.Run.Counting
import FrontLint.Proofs.Run.NoTrace

/-!
# How a call ends

A call with arguments that can be read ends in one of a few ways: there are no settings, the
standard output does not take what the call says, its run ends before the linter or with a fault
of the linter, or there is a report. Each of them has its status, and only a report puts the
linter's output on the output of the call. From a current directory that is there no call leaves
the root of its cache behind; from one that is gone each call leaves the root that it has made.

## Implementation notes

The ways are told apart by what the call is given: the environment, the files, and how the
linter ends. A linter is missing if the system says that there is no such file, and is not
executable if the system says that this is not permitted. Any other fault of its start is not
handled, such as that of a path which goes on behind a file.
-/

namespace FrontLint

/-- The status that an ending of the linter without a result gives a call. -/
inductive Ending.FailsWith : Ending → Nat → Prop
  | notFound {path : List Char} : FailsWith (.refused (.refused .missing path)) 127
  | notRunnable {path : List Char} : FailsWith (.refused (.refused .notPermitted path)) 127
  | notStarted {fault : FileFault} (hfound : ∀ path, fault ≠ .refused .missing path)
      (hrunnable : ∀ path, fault ≠ .refused .notPermitted path) : FailsWith (.refused fault) 1
  | timedOut : FailsWith .timedOut 124
  | interrupted : FailsWith .interrupted 130
  | terminated : FailsWith .terminated 143

theorem Ending.failsWith_or_endsWith (ending : Ending) :
    (∃ status, ending.FailsWith status) ∨ ∃ status output, ending.EndsWith status output := by
  cases ending with
  | refused fault =>
      left
      cases fault with
      | nulInPath => exact ⟨_, .notStarted (fun _ h => by cases h) fun _ h => by cases h⟩
      | refused cause path =>
          by_cases hfound : cause = .missing
          · subst hfound
            exact ⟨_, .notFound⟩
          · by_cases hrunnable : cause = .notPermitted
            · subst hrunnable
              exact ⟨_, .notRunnable⟩
            · refine ⟨_, .notStarted (fun other h => ?_) fun other h => ?_⟩
              · exact hfound (FileFault.refused.inj h).1
              · exact hrunnable (FileFault.refused.inj h).1
  | timedOut => exact .inl ⟨_, .timedOut⟩
  | interrupted => exact .inl ⟨_, .interrupted⟩
  | terminated => exact .inl ⟨_, .terminated⟩
  | exited status output => exact .inr ⟨_, _, .exited⟩
  | killed signal output => exact .inr ⟨_, _, .killed⟩

namespace Session

/-- A call comes to its run: the settings are loaded, and with the flags in place they are
announced. -/
structure Announces (a : Arguments) (s : Surroundings) (settings : Settings) : Prop where
  exists_loaded : ∃ loaded, Settings.load s.environment s.homes s.files = .ok loaded ∧
    settings = withFlags loaded a
  all_taken : (announce s.stdout settings a).2 = true

section

variable [HashSeed]

/-- A call gives a report, with the status and the output of the linter. -/
inductive Returns (a : Arguments) (s : Surroundings) : Nat → List Char → Prop
  | nothingProjected {settings : Settings} {base : Path} {cache : Cache} {p : Progress}
      (h : Announces a s settings) (hbase : s.files.currentPath? = some base)
      (hprepares : Run.Prepares (request a settings s base) s.rootName s.files cache p)
      (hzero : p.report.processed = 0) : Returns a s 0 []
  | linted {settings : Settings} {base : Path} {cache : Cache} {p : Progress} {status : Nat}
      {output : Bytes} (h : Announces a s settings) (hbase : s.files.currentPath? = some base)
      (hprepares : Run.Prepares (request a settings s base) s.rootName s.files cache p)
      (hpos : 0 < p.report.processed)
      (hends : (s.linter (.lint settings.linter a.filter cache.root) p.files).EndsWith status
        output) :
      Returns a s status (Output.relocate p.files cache.root (Run.outputText output))

/-- The ways in which a call ends, with its status and what comes out of a report. -/
inductive Ends (a : Arguments) (s : Surroundings) : Nat → Option (List Char) → Prop
  | badTimeout {reason : TimeoutFault} (h : s.environment.HasBadTimeout reason) : Ends a s 1 none
  | notLoaded {fault : SettingsFault}
      (h : Settings.load s.environment s.homes s.files = .error fault) : Ends a s 1 none
  | notAnnounced {loaded : Settings}
      (hload : Settings.load s.environment s.homes s.files = .ok loaded)
      (h : (announce s.stdout (withFlags loaded a) a).2 = false) : Ends a s 1 none
  | stranded {settings : Settings} (h : Announces a s settings)
      (hgone : s.files.currentPath? = none) : Ends a s 1 none
  | failed {settings : Settings} {base : Path} {fault : Fault} (h : Announces a s settings)
      (hbase : s.files.currentPath? = some base)
      (hfails : Run.Fails (request a settings s base) s.rootName s.files fault) : Ends a s 1 none
  | linterFailed {settings : Settings} {base : Path} {cache : Cache} {p : Progress}
      {status : Nat} (h : Announces a s settings) (hbase : s.files.currentPath? = some base)
      (hprepares : Run.Prepares (request a settings s base) s.rootName s.files cache p)
      (hpos : 0 < p.report.processed)
      (hends : (s.linter (.lint settings.linter a.filter cache.root) p.files).FailsWith status) :
      Ends a s status none
  | shown {status : Nat} {text shown : List Char} (h : Returns a s status text)
      (hshown : s.stdout text = some shown) : Ends a s status (some shown)
  | notShown {status : Nat} {text : List Char} (h : Returns a s status text)
      (hshown : s.stdout text = none) : Ends a s 1 none

/-- What a call says itself: what it announces, and the lines for its documents. -/
def said (a : Arguments) (s : Surroundings) : List Char :=
  match Settings.load s.environment s.homes s.files with
  | .error _ => []
  | .ok loaded =>
    match announce s.stdout (withFlags loaded a) a with
    | (announced, true) => announced ++ (outcome a (withFlags loaded a) s).printed.flatten
    | (announced, false) => announced

/-- A call ends with a status, and with a text behind what it says itself. -/
structure Shows (argv : List String) (a : Arguments) (s : Surroundings) (status : Nat)
    (text : Option (List Char)) : Prop where
  status : (run argv s).status = status
  output : (run argv s).output = said a s ++ text.getD []

/-- A call has changed nothing, or nothing but that the directory for caches is there, and the
root that it has made is gone. -/
def LeavesNoRoot (argv : List String) (a : Arguments) (s : Surroundings) (base : Path) : Prop :=
  (run argv s).files = s.files ∨
    ∃ settings, Announces a s settings ∧
      (run argv s).files = (s.files.ensurePath settings.tempDir).2 ∧
      ∀ cache, (Run.creation (request a settings s base) s.rootName s.files).1.result =
        .ok cache → (run argv s).files.isNamed cache.root.text = false

/-- The root that a call has made is still there. -/
def LeavesRoot (argv : List String) (a : Arguments) (s : Surroundings) : Prop :=
  ∀ settings cache, Announces a s settings →
    (Cache.create settings.tempDir ⟨.slash, s.files.current⟩ s.rootName s.files).1.result =
      .ok cache → (run argv s).files.isNamed cache.root.text = true

end

variable {argv : List String} {a : Arguments} {s : Surroundings} {settings : Settings}
  {status : Nat} {text : Option (List Char)}

section ofOutcome

variable (a : Arguments) {stdout : Stream} (announced : List Char) {outcome : Outcome}
  {fault : Fault} {report : Report}

theorem files_ofOutcome (stdout : Stream) (outcome : Outcome) :
    (ofOutcome a stdout announced outcome).files = outcome.files := by
  simp only [ofOutcome]
  split
  · split <;> rfl
  · rfl

theorem ofOutcome_of_error (stdout : Stream) (h : outcome.result = .error fault) :
    (ofOutcome a stdout announced outcome).status = statusOf fault ∧
      (ofOutcome a stdout announced outcome).output = announced ++ outcome.printed.flatten := by
  simp only [ofOutcome, h, and_self]

theorem ofOutcome_of_shown {shown : List Char} (h : outcome.result = .ok report)
    (hshown : stdout report.output = some shown) :
    (ofOutcome a stdout announced outcome).status = report.status ∧
      (ofOutcome a stdout announced outcome).output =
        announced ++ outcome.printed.flatten ++ shown := by
  simp only [ofOutcome, h, hshown, and_self]

theorem ofOutcome_of_not_shown (h : outcome.result = .ok report)
    (hshown : stdout report.output = none) :
    (ofOutcome a stdout announced outcome).status = 1 ∧
      (ofOutcome a stdout announced outcome).output = announced ++ outcome.printed.flatten := by
  simp only [ofOutcome, h, hshown, and_self]

end ofOutcome

theorem statusOf_ofFile (blame : FileFault → CacheFault) (cause : FileFault) :
    statusOf (CacheFault.ofFile blame cause) = 1 := by
  cases cause <;> rfl

theorem statusOf_of_failsWith {settings : Settings} {cache : Cache} {p : Progress}
    {ending : Ending} (h : ending.FailsWith status) :
    ∃ fault, Run.complete settings cache p ending = .error fault ∧ statusOf fault = status := by
  cases h with
  | notFound => exact ⟨_, rfl, rfl⟩
  | notRunnable => exact ⟨_, rfl, rfl⟩
  | @notStarted fault hfound hrunnable =>
      have hstart : Run.startFault settings.linter fault = .file fault := by
        rw [Run.startFault]
        · exact hfound
        · exact hrunnable
      exact ⟨.file fault, by simp only [Run.complete, Run.statusAndOutput, hstart], rfl⟩
  | timedOut => exact ⟨_, rfl, rfl⟩
  | interrupted => exact ⟨_, rfl, rfl⟩
  | terminated => exact ⟨_, rfl, rfl⟩

theorem Announces.isRead_tempDir (h : Announces a s settings)
    (hcurrent : (Path.mk .slash s.files.current).IsRead) : settings.tempDir.IsRead := by
  obtain ⟨⟨loaded, hload, rfl⟩, -⟩ := h
  have hloaded : loaded.tempDir.IsRead := Settings.isRead_tempDir_of_load hcurrent hload
  exact hloaded

/-- A run that is told no base directory ends with a fault where the current one is gone. -/
theorem exists_stranded (tempDir : Path) (name : FileName) (files : FileTree) :
    ∃ fault, (Run.stranded tempDir name files).result = .error fault ∧ statusOf fault = 1 := by
  rw [Run.stranded]
  simp only
  split
  · rename_i fault hfault
    obtain ⟨blame, cause, rfl⟩ := Cache.exists_ofFile_of_create hfault
    exact ⟨_, rfl, statusOf_ofFile blame cause⟩
  · exact ⟨.currentMissing, rfl, rfl⟩

section

variable [HashSeed]

/-- A call that comes to its run shows how the run ends, behind what the call says. -/
theorem run_of_announces (hread : Arguments.read argv = .ok a) (h : Announces a s settings) :
    run argv s =
        ofOutcome a s.stdout (announce s.stdout settings a).1 (outcome a settings s) ∧
      said a s = (announce s.stdout settings a).1 ++ (outcome a settings s).printed.flatten := by
  obtain ⟨⟨loaded, hload, rfl⟩, hall⟩ := h
  rw [run_of_load hread hload, lint, said, hload]
  cases hannounce : announce s.stdout (withFlags loaded a) a with
  | mk announced all =>
      rw [hannounce] at hall
      cases hall
      simp only [hannounce, and_self]

/-- Without settings a call says nothing and ends with status 1. -/
theorem shows_of_load_error (hread : Arguments.read argv = .ok a) {fault : SettingsFault}
    (h : Settings.load s.environment s.homes s.files = .error fault) : Shows argv a s 1 none := by
  have hsaid : said a s = [] := by rw [said, h]
  have hrun : (run argv s).status = 1 ∧ (run argv s).output = [] := by
    cases fault <;> simp only [run, hread, h] <;> exact ⟨rfl, rfl⟩
  exact ⟨hrun.1, by rw [hrun.2, hsaid]; rfl⟩

theorem shows_of_error (hread : Arguments.read argv = .ok a) (h : Announces a s settings)
    {fault : Fault} (hfault : (outcome a settings s).result = .error fault) :
    Shows argv a s (statusOf fault) none := by
  obtain ⟨hrun, hsaid⟩ := run_of_announces hread h
  obtain ⟨hstatus, houtput⟩ :=
    ofOutcome_of_error a (announce s.stdout settings a).1 s.stdout hfault
  refine ⟨by rw [hrun, hstatus], ?_⟩
  rw [hrun, houtput, hsaid]
  exact (List.append_nil _).symm

theorem outcome_of_current {base : Path} (hbase : s.files.currentPath? = some base) :
    outcome a settings s =
      Run.lint (request a settings s base) s.linter s.rootName s.files := by
  simp only [outcome, hbase]

theorem outcome_of_gone (hgone : s.files.currentPath? = none) :
    outcome a settings s = Run.stranded settings.tempDir s.rootName s.files := by
  simp only [outcome, hgone]

theorem statusOf_of_fails {request : Request} {name : FileName} {before : FileTree}
    {fault : Fault} (h : Run.Fails request name before fault) : statusOf fault = 1 := by
  rcases h.cases with ⟨cause, rfl | ⟨blame, rfl⟩⟩ | hstops | ⟨reason, rfl⟩
  · rfl
  · exact statusOf_ofFile blame cause
  · cases hstops <;> rfl
  · rfl

theorem Returns.exists_report {output : List Char} (h : Returns a s status output) :
    ∃ settings report, Announces a s settings ∧ (outcome a settings s).result = .ok report ∧
      report.status = status ∧ report.output = output := by
  cases h with
  | @nothingProjected settings base cache p h hbase hprepares hzero =>
      obtain ⟨documents, -, htake⟩ := hprepares.exists_taken
      obtain ⟨-, hstatus, houtput⟩ := Progress.unlinted_of_takeAll htake
      refine ⟨settings, p.report, h, ?_, hstatus, houtput⟩
      rw [outcome_of_current hbase]
      exact ((Run.lint_of_prepares s.linter hprepares).1 hzero).1
  | @linted settings base cache p status output h hbase hprepares hpos hends =>
      refine ⟨settings, { p.report with
        status := status
        output := Output.relocate p.files cache.root (Run.outputText output)
        linted := true }, h, ?_, rfl, rfl⟩
      rw [outcome_of_current hbase, ((Run.lint_of_prepares s.linter hprepares).2 hpos).1]
      exact Run.complete_eq_ok_iff.2 ⟨status, output, hends, rfl⟩

/-- Each way in which a call ends has its status, and the linter's text comes out of a report
only. -/
theorem Ends.shows (hread : Arguments.read argv = .ok a) (h : Ends a s status text) :
    Shows argv a s status text := by
  cases h with
  | badTimeout h =>
      cases hfind : TempDir.find s.environment s.files with
      | error fault => exact shows_of_load_error hread (Settings.load_of_find_error hfind)
      | ok systemDir =>
          exact shows_of_load_error hread (Settings.load_of_hasBadTimeout hfind h)
  | notLoaded h => exact shows_of_load_error hread h
  | @notAnnounced loaded hload h =>
      have hrun := run_of_load hread hload
      cases hannounce : announce s.stdout (withFlags loaded a) a with
      | mk announced all =>
          rw [hannounce] at h
          cases h
          rw [lint] at hrun
          simp only [hannounce] at hrun
          have hsaid : said a s = announced := by
            rw [said, hload]
            simp only [hannounce]
          refine ⟨by rw [hrun]; rfl, ?_⟩
          rw [hrun, hsaid]
          exact (List.append_nil _).symm
  | @stranded settings h hgone =>
      obtain ⟨fault, hfault, hstatus⟩ := exists_stranded settings.tempDir s.rootName s.files
      rw [← outcome_of_gone (a := a) hgone] at hfault
      exact hstatus ▸ shows_of_error hread h hfault
  | failed h hbase hfails =>
      rw [← statusOf_of_fails hfails]
      apply shows_of_error hread h
      rw [outcome_of_current hbase]
      exact (Run.lint_of_fails s.linter hfails).1
  | linterFailed h hbase hprepares hpos hends =>
      obtain ⟨fault, hfault, hstatus⟩ := statusOf_of_failsWith hends
      refine hstatus ▸ shows_of_error hread h ?_
      rw [outcome_of_current hbase, ((Run.lint_of_prepares s.linter hprepares).2 hpos).1]
      exact hfault
  | shown h hshown =>
      obtain ⟨settings, report, hannounces, hresult, rfl, rfl⟩ := h.exists_report
      obtain ⟨hrun, hsaid⟩ := run_of_announces hread hannounces
      obtain ⟨hstatus, houtput⟩ :=
        ofOutcome_of_shown a (announce s.stdout settings a).1 hresult hshown
      exact ⟨by rw [hrun, hstatus], by rw [hrun, houtput, hsaid]; rfl⟩
  | notShown h hshown =>
      obtain ⟨settings, report, hannounces, hresult, rfl, rfl⟩ := h.exists_report
      obtain ⟨hrun, hsaid⟩ := run_of_announces hread hannounces
      obtain ⟨hstatus, houtput⟩ :=
        ofOutcome_of_not_shown a (announce s.stdout settings a).1 hresult hshown
      refine ⟨by rw [hrun, hstatus], ?_⟩
      rw [hrun, houtput, hsaid]
      exact (List.append_nil _).symm

theorem exists_ends (a : Arguments) (s : Surroundings) : ∃ status text, Ends a s status text := by
  cases hload : Settings.load s.environment s.homes s.files with
  | error fault => exact ⟨_, _, .notLoaded hload⟩
  | ok loaded =>
      cases hall : (announce s.stdout (withFlags loaded a) a).2 with
      | false => exact ⟨_, _, .notAnnounced hload hall⟩
      | true =>
          have hannounces : Announces a s (withFlags loaded a) := ⟨⟨loaded, hload, rfl⟩, hall⟩
          cases hbase : s.files.currentPath? with
          | none => exact ⟨_, _, .stranded hannounces hbase⟩
          | some base =>
              rcases Run.fails_or_prepares (request a (withFlags loaded a) s base) s.rootName
                s.files with ⟨fault, hfails⟩ | ⟨cache, p, hprepares⟩
              · exact ⟨_, _, .failed hannounces hbase hfails⟩
              · have hshown : ∀ status output, Returns a s status output →
                    ∃ status text, Ends a s status text := by
                  intro status output hreturns
                  cases hout : s.stdout output with
                  | none => exact ⟨_, _, .notShown hreturns hout⟩
                  | some shown => exact ⟨_, _, .shown hreturns hout⟩
                rcases Nat.eq_zero_or_pos p.report.processed with hzero | hpos
                · exact hshown _ _ (.nothingProjected hannounces hbase hprepares hzero)
                · rcases Ending.failsWith_or_endsWith (s.linter
                      (.lint (withFlags loaded a).linter a.filter cache.root) p.files) with
                    ⟨status, hends⟩ | ⟨status, output, hends⟩
                  · exact ⟨status, none, .linterFailed hannounces hbase hprepares hpos hends⟩
                  · exact hshown _ _ (.linted hannounces hbase hprepares hpos hends)

/-- What a call says itself does not depend on its linter. -/
theorem said_congr (a : Arguments) (s : Surroundings) (linter : Linter) :
    said a { s with linter := linter } = said a s := by
  have hprinted : ∀ settings, (outcome a settings { s with linter := linter }).printed =
      (outcome a settings s).printed := by
    intro settings
    simp only [outcome]
    split
    · exact Run.printed_lint_eq _ _ _ _ _
    · rfl
  simp only [said, hprinted]

theorem said_of_not_verbose (hquiet : a.verbose = false) : said a s = [] := by
  have hannounce : ∀ settings, announce s.stdout settings a = ([], true) := by
    intro settings
    rw [announce, announcement, hquiet]
    rfl
  have hprinted : ∀ settings, (outcome a settings s).printed = [] := by
    intro settings
    rw [outcome]
    split
    · exact Run.printed_lint_of_not_verbose _ _ _ _ hquiet
    · rw [Run.stranded]
      simp only
      split <;> rfl
  rw [said]
  split
  · rfl
  · rename_i loaded _
    simp only [hannounce, hprinted, List.flatten_nil, List.append_nil]

/-- Without a run a call changes no file. -/
theorem files_run_of_not_announces (hread : Arguments.read argv = .ok a)
    (h : ∀ settings, ¬ Announces a s settings) : (run argv s).files = s.files := by
  cases hload : Settings.load s.environment s.homes s.files with
  | error fault => cases fault <;> simp only [run, hread, hload] <;> rfl
  | ok loaded =>
      rw [run_of_load hread hload, lint]
      cases hannounce : announce s.stdout (withFlags loaded a) a with
      | mk announced all =>
          cases all with
          | true => exact absurd ⟨⟨loaded, hload, rfl⟩, by rw [hannounce]⟩ (h (withFlags loaded a))
          | false => simp only; rfl

theorem leavesNoRoot (hread : Arguments.read argv = .ok a) (hw : s.files.WellFormed)
    (hcurrent : (Path.mk .slash s.files.current).IsRead) (hname : s.rootName.IsPlain)
    {base : Path} (hbase : s.files.currentPath? = some base) : LeavesNoRoot argv a s base := by
  by_cases h : ∃ settings, Announces a s settings
  · obtain ⟨settings, hannounces⟩ := h
    have htemp := hannounces.isRead_tempDir hcurrent
    have hplace : base = ⟨.slash, s.files.current⟩ := by
      rw [FileTree.currentPath?, if_pos hw.current] at hbase
      exact (Option.some.inj hbase).symm
    have hreadBase : base.IsRead := hplace ▸ hcurrent
    have habs : base.isAbsolute = true := by rw [hplace]; rfl
    obtain ⟨hfiles, hgone⟩ := Run.files_lint (request a settings s base) s.linter hw htemp
      hreadBase habs hname
    have hrun : (run argv s).files =
        (Run.lint (request a settings s base) s.linter s.rootName s.files).files := by
      rw [(run_of_announces hread hannounces).1, files_ofOutcome, outcome_of_current hbase]
    rw [← hrun] at hfiles hgone
    exact .inr ⟨settings, hannounces, hfiles, hgone⟩
  · exact .inl (files_run_of_not_announces hread (not_exists.1 h))

theorem leavesRoot (hread : Arguments.read argv = .ok a)
    (hcurrent : (Path.mk .slash s.files.current).IsRead) (hname : s.rootName.IsPlain)
    (hgone : s.files.currentPath? = none) : LeavesRoot argv a s := by
  intro settings cache hannounces hcreated
  have htemp := hannounces.isRead_tempDir hcurrent
  have hfiles : (Run.stranded settings.tempDir s.rootName s.files).files =
      (Cache.create settings.tempDir ⟨.slash, s.files.current⟩ s.rootName s.files).2 := by
    simp only [Run.stranded, hcreated]
  rw [(run_of_announces hread hannounces).1, files_ofOutcome, outcome_of_gone hgone, hfiles]
  exact Cache.isNamed_create htemp hname hcreated

/-- How a call ends: whatever its environment, its files, its linter and its streams, it ends in
one of the ways, and in each of them with its status and, behind what it says itself, with what
comes out of a report. What it says does not depend on the linter and is nothing if the call is
not verbose. From a current directory that is there the root of the cache is gone at the end; from
one that is gone it stays. -/
theorem run_ends (hread : Arguments.read argv = .ok a)
    (hentries : ∀ e ∈ s.files.entries, e.1 ≠ [] ∧ s.files.find? e.1.dropLast = some .directory)
    (hcurrent : (Path.mk .slash s.files.current).IsRead) (hname : s.rootName.IsPlain) :
    (∃ status text, Ends a s status text) ∧
      (∃ front, (a.verbose = false → front = []) ∧ ∀ linter status text,
        Ends a { s with linter := linter } status text →
          (run argv { s with linter := linter }).status = status ∧
            (run argv { s with linter := linter }).output = front ++ text.getD []) ∧
      (∀ base, s.files.currentPath? = some base → LeavesNoRoot argv a s base) ∧
      (s.files.currentPath? = none → LeavesRoot argv a s) := by
  refine ⟨exists_ends a s, ⟨said a s, said_of_not_verbose, ?_⟩, ?_, ?_⟩
  · intro linter status text h
    have hshows := h.shows hread
    rw [← said_congr a s linter]
    exact ⟨hshows.status, hshows.output⟩
  · intro base hbase
    have hthere : s.files.find? s.files.current = some .directory := by
      by_contra hnot
      rw [FileTree.currentPath?, if_neg hnot] at hbase
      cases hbase
    exact leavesNoRoot hread ⟨hentries, hthere⟩ hcurrent hname hbase
  · exact leavesRoot hread hcurrent hname

end

/-- A call in a directory with a document `a` that has a title. Its linter names `a` below the
root of the cache and dies of signal 9. -/
def dyingSurroundings : Surroundings where
  environment := [("VALE_FRONTMATTER_TEMP_DIR", "/t")]
  homes := fun _ => none
  linter := fun _ _ => .killed 9 (Utf8.encodeChars ['/', 't', '/', 'x', '/', 'a', '\n'])
  files := ⟨[([['w']], .directory),
    ([['w'], ['a']], .file (Utf8.encodeChars
      ['-', '-', '-', '\n', 't', 'i', 't', 'l', 'e', ':', ' ', 'b', '\n', '-', '-', '-'])),
    ([['t', 'm', 'p']], .directory)], [['w']]⟩
  rootName := ['x']
  console := .plain
  stdout := .plain

/-- The same call in a directory that was removed. -/
def goneSurroundings : Surroundings :=
  { dyingSurroundings with files := { dyingSurroundings.files with current := [['g']] } }

open HashSeed

theorem run_ends_killed :
    ∃ a, Arguments.read ["a"] = .ok a ∧ (run ["a"] dyingSurroundings).status = 137 ∧
      (run ["a"] dyingSurroundings).output = ['a', '\n'] ∧
      (∃ status text, Ends a dyingSurroundings status text) ∧
      LeavesNoRoot ["a"] a dyingSurroundings ⟨.slash, [['w']]⟩ ∧
      (run ["a"] goneSurroundings).status = 1 ∧ LeavesRoot ["a"] a goneSurroundings := by
  have hsome : (Arguments.read ["a"]).toOption.isSome = true := by decide +kernel
  obtain ⟨a, ha⟩ := Option.isSome_iff_exists.1 hsome
  have hread := Noted.eq_ok_of_toOption ha
  obtain ⟨hends, -, hthere, -⟩ := run_ends (s := dyingSurroundings) hread (by decide +kernel)
    (by decide +kernel) (by decide +kernel)
  obtain ⟨-, -, -, hgone⟩ := run_ends (s := goneSurroundings) hread (by decide +kernel)
    (by decide +kernel) (by decide +kernel)
  exact ⟨a, hread, by decide +kernel, by decide +kernel, hends, hthere _ (by decide +kernel),
    by decide +kernel, hgone (by decide +kernel)⟩

end Session

end FrontLint
