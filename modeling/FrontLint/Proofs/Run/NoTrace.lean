import FrontLint.Proofs.Cache.Creation
import FrontLint.Proofs.Run.Stages

/-!
# Runs leave no trace

However a run ends, the tree behind it is the tree before it, with the directory for caches
made if it was missing. While the linter runs, the tree differs from that below the cache
root only.
-/

namespace FrontLint

/-- A run has changed nothing but that the directory for caches is there. -/
structure Outcome.LeavesNoTrace (request : Request) (name : FileName) (before : FileTree)
    (outcome : Outcome) : Prop where
  /-- The tree has what it had and, behind that, directories to which the path of the
  directory for caches leads on its way and which were missing. -/
  files : ∃ made, outcome.files = before.withDirectories made ∧ ∀ location ∈ made,
    before.find? location = none ∧ ∃ names, names <+: request.settings.tempDir.names ∧
      outcome.files.locate true (Path.mk request.settings.tempDir.anchor names).text =
        .found location .directory
  rootGone : ∀ cache,
    (Cache.create request.settings.tempDir request.base name before).1.result = .ok cache →
      outcome.files.isNamed cache.root.text = false
  /-- What the linter was called on is a directory, without which its tree is the tree left
  behind. -/
  calls : ∀ call ∈ outcome.calls, ∃ root place,
    call.1 = Command.lint request.settings.linter request.filter root ∧
      call.2.locate true root.text = .found place .directory ∧
      call.2.removeBelow place = outcome.files

namespace Run

variable {request : Request} {cache : Cache} {place : Location} {outer files : FileTree}

section

variable [HashSeed]

/-- However the work in a cache ends, its tree is confined to the root, and so is the tree
on which the linter was called. -/
theorem confined_inCache (request : Request) (linter : Linter)
    (h : cache.Confined place outer files) :
    cache.Confined place outer (inCache request linter cache files).files ∧
      ∀ call ∈ (inCache request linter cache files).calls,
        call.1 = Command.lint request.settings.linter request.filter cache.root ∧
          cache.Confined place outer call.2 := by
  rw [inCache]
  simp only
  split
  · exact ⟨h, by simp⟩
  · rename_i documents _
    have hall : cache.Confined place outer
        (Progress.takeAll cache request.reporting documents (.start files)).1.files :=
      Progress.takeAll_keeps (P := cache.Confined place outer) (fun file t ht => ht.process file)
        documents h
    split
    · rename_i ht
      rw [ht] at hall
      exact ⟨hall, by simp⟩
    · rename_i ht
      rw [ht] at hall
      split
      · exact ⟨hall, by simp⟩
      · refine ⟨hall, ?_⟩
        intro call hcall
        obtain rfl := List.mem_singleton.1 hcall
        exact ⟨rfl, hall⟩

/-- However a run ends, the tree is the one before it with the directory for caches made. -/
theorem files_lint (request : Request) (linter : Linter) {name : FileName} {before : FileTree}
    (hw : before.WellFormed) (htemp : request.settings.tempDir.IsRead)
    (hbase : request.base.IsRead) (habs : request.base.isAbsolute = true)
    (hname : name.IsPlain) :
    (lint request linter name before).files =
        (before.ensurePath request.settings.tempDir).2 ∧
      ∀ cache, (creation request name before).1.result = .ok cache →
        (lint request linter name before).files.isNamed cache.root.text = false := by
  simp only [lint]
  split
  · rename_i fault hcreate
    refine ⟨Cache.create_eq_error hcreate, fun cache hcache => ?_⟩
    rw [creation, hcreate] at hcache
    cases hcache
  · rename_i made hcreate
    obtain ⟨hgone, place, hconfined, -⟩ :=
      Cache.confined_create hw htemp hname hbase habs hcreate
    have hleft := (confined_inCache request linter hconfined).1.remove
    refine ⟨hleft, fun cache hcache => ?_⟩
    rw [creation, hcreate] at hcache
    obtain rfl := Except.ok.inj hcache
    simp only [hleft]
    exact hgone

/-- A run leaves no trace, whether it gives a report or any fault, and however its linter
ends. The name of the cache root is any plain name. -/
theorem lint_leavesNoTrace (linter : Linter) {name : FileName} {before : FileTree}
    (hw : before.WellFormed) (htemp : request.settings.tempDir.IsRead)
    (hbase : request.base.IsRead) (habs : request.base.isAbsolute = true)
    (hname : name.IsPlain) :
    (lint request linter name before).LeavesNoTrace request name before := by
  obtain ⟨hleft, hgone⟩ := files_lint request linter hw htemp hbase habs hname
  constructor
  case files =>
    obtain ⟨-, made, hmade⟩ := FileTree.makesDirectories_ensurePath hw htemp
    rw [hleft]
    exact ⟨made, hmade.eq_withDirectories,
      fun location hl => ⟨hmade.missing location hl, hmade.locate htemp hl⟩⟩
  case rootGone => exact hgone
  case calls =>
    intro call hcall
    cases hcreated : (creation request name before).1.result with
    | error fault =>
        rw [(lint_of_fails linter (.creation hcreated)).2] at hcall
        cases hcall
    | ok cache =>
        obtain ⟨-, place, hconfined, -⟩ :=
          Cache.confined_create hw htemp hname hbase habs hcreated
        rw [(lint_of_created linter hcreated).2.1] at hcall
        obtain ⟨hcommand, hseen⟩ := (confined_inCache request linter hconfined).2 call hcall
        refine ⟨cache.root, place, hcommand, ?_, ?_⟩
        · exact hseen.namesDirectory.locate true hseen.isRead hseen.takes
        · rw [hleft]
          exact hseen.removeBelow_eq

end

open HashSeed

/-- The user interrupts the linter after one document was projected to a directory for
caches that had to be made. -/
theorem leavesNoTrace_interrupted :
    let tree : FileTree :=
      ⟨[([['w']], .directory), ([['w'], ['t']], .file [45, 45, 45, 10, 116, 105, 116, 108,
        101, 58, 32, 97, 10, 45, 45, 45])], []⟩
    let request : Request :=
      ⟨⟨"vale", none, ⟨.slash, [['c'], ['d']]⟩, "t"⟩, [], none, false, ⟨.slash, [['w']]⟩, .plain⟩
    (lint request (fun _ _ => .interrupted) ['7'] tree).LeavesNoTrace request ['7'] tree :=
  lint_leavesNoTrace _ (by decide) (by decide) (by decide) (by decide) (by decide)

end Run

end FrontLint
