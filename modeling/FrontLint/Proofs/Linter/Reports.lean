import FrontLint.Linter
import FrontLint.Projection
import FrontLint.Proofs.Files.Contents
import FrontLint.Proofs.Text.Utf8

/-!
# Reports of a linter

A reporting linter prints one line for each line that is not empty of each file below the
directory it is called on: the path of the file, the number of the line, and the line. On a
tree of projections these are the projections' lines behind the root.

## Implementation notes

The linter sees and prints bytes. It may print its lines in any order, so the order is left
to a permutation.
-/

namespace FrontLint

/-- A path, a number and a line, as a report has them. -/
def reportStart (path : List Char) (number : Nat) : List Char :=
  path ++ ':' :: (Nat.toDigits 10 number ++ [':'])

namespace Linter

/-- The reports of a file: one for each line that is not empty, with its number from one. -/
def reportsOf (root : List Char) (file : List FileName × Bytes) : List Bytes :=
  (file.2.splitOn Utf8.lineFeedByte).zipIdx.filterMap fun line =>
    if line.1 = [] then none
    else some (Utf8.encodeChars (root ++ '/' :: reportStart (slashed file.1) (line.2 + 1)) ++
      line.1)

/-- A linter that, whenever it ends with an output, has printed the reports of the files
below its last argument, in any order, and nothing else. -/
def Reports (linter : Linter) : Prop :=
  ∀ command t word place status output,
    command.arguments.getLast? = some word →
    t.locate true word.toList = .found place .directory →
    linter command t = .exited status output ∨ linter command t = .killed status output →
    ∃ lines : List Bytes, lines.Perm ((t.filesBelow place).flatMap (reportsOf word.toList)) ∧
      output = lines.flatMap fun line => line ++ [Utf8.lineFeedByte]

/-- A linter that prints its reports in the order of the tree. -/
def printing (status : Nat) : Linter := fun command t =>
  match command.arguments.getLast? with
  | none => .exited status []
  | some word =>
    match t.locate true word.toList with
    | .found place .directory =>
      .exited status (((t.filesBelow place).flatMap (reportsOf word.toList)).flatMap
        fun line => line ++ [Utf8.lineFeedByte])
    | _ => .exited status []

theorem reports_printing (status : Nat) : Reports (printing status) := by
  unfold Reports
  intro command t word place status' output hword hplace hend
  have hrun : printing status command t =
      .exited status (((t.filesBelow place).flatMap (reportsOf word.toList)).flatMap
        fun line => line ++ [Utf8.lineFeedByte]) := by
    simp only [printing, hword, hplace]
  rw [hrun] at hend
  rcases hend with hend | hend
  · cases hend
    exact ⟨_, List.Perm.refl _, rfl⟩
  · cases hend

end Linter

namespace Text

@[simp] theorem toChars_append (a b : Text) : (a ++ b).toChars = a.toChars ++ b.toChars := by
  simp [toChars]

theorem lineFeed_mem_of_mem_toChars {t : Text} (h : '\n' ∈ t.toChars) : lineFeed ∈ t := by
  obtain ⟨code, hcode, hc⟩ := List.mem_map.1 h
  cases code with
  | half offset =>
      rw [show (Code.half offset).char?.getD '\uFFFD' = '\uFFFD' from rfl] at hc
      exact absurd hc (by decide)
  | char c =>
      obtain rfl : c = '\n' := hc
      exact hcode

theorem toChars_eq_nil_iff {t : Text} : t.toChars = [] ↔ t = [] := by
  simp [toChars]

/-- Splitting the bytes of joined lines gives the bytes of the lines. -/
theorem splitOn_encodeChars_joinLines {lines : List Text} (hne : lines ≠ [])
    (h : ∀ line ∈ lines, lineFeed ∉ line) :
    (Utf8.encodeChars (joinLines lines).toChars).splitOn Utf8.lineFeedByte =
      lines.map fun line => Utf8.encodeChars line.toChars := by
  have hbyte : ∀ line ∈ lines, Utf8.lineFeedByte ∉ Utf8.encodeChars line.toChars := by
    intro line hline
    apply Utf8.lineFeedByte_not_mem_encodeChars
    exact fun hm => h line hline (lineFeed_mem_of_mem_toChars hm)
  induction lines with
  | nil => exact absurd rfl hne
  | cons line rest ih =>
      cases rest with
      | nil => exact List.splitOn_eq_singleton (hbyte line List.mem_cons_self)
      | cons next rest =>
          have hrest := ih (by simp) (fun other hother => h other (List.mem_cons_of_mem _ hother))
            fun other hother => hbyte other (List.mem_cons_of_mem _ hother)
          have hfeed : Utf8.encodeChars (toChars (lineFeed :: joinLines (next :: rest))) =
              Utf8.lineFeedByte :: Utf8.encodeChars (joinLines (next :: rest)).toChars := by
            change Utf8.encodeChars ('\n' :: (joinLines (next :: rest)).toChars) = _
            rw [Utf8.encodeChars_cons, Utf8.encodeChar_lineFeed, List.singleton_append]
          rw [joinLines_cons line (by simp), toChars_append, Utf8.encodeChars_append, hfeed,
            List.splitOn_append_cons_self_of_not_mem (hbyte line List.mem_cons_self), hrest]
          rfl

end Text

namespace Projection

/-- The reports of a projection under a path, its lines being counted from zero. -/
def reports (p : Projection) (path : List Char) : List (List Char) :=
  p.lines.zipIdx.filterMap fun line =>
    if line.1 = [] then none else some (reportStart path (line.2 + 1) ++ Text.toChars line.1)

theorem mem_reports_iff {p : Projection} {path report : List Char} :
    report ∈ p.reports path ↔ ∃ (i : Nat) (line : Text), p.lines[i]? = some line ∧ line ≠ [] ∧
      report = reportStart path (i + 1) ++ line.toChars := by
  simp only [reports, List.mem_filterMap, Prod.exists, List.mem_zipIdx_iff_getElem?,
    Option.ite_none_left_eq_some, Option.some.injEq]
  constructor
  · rintro ⟨line, i, hline, hne, rfl⟩
    exact ⟨i, line, hline, hne, rfl⟩
  · rintro ⟨i, line, hline, hne, rfl⟩
    exact ⟨line, i, hline, hne, rfl⟩

/-- What a linter reports of the bytes of a projection are the projection's reports behind
the root. -/
theorem reportsOf_encodeChars {p : Projection} (hne : p.lines ≠ [])
    (h : ∀ line ∈ p.lines, lineFeed ∉ line) (root : List Char) (names : List FileName) :
    Linter.reportsOf root (names, Utf8.encodeChars p.text.toChars) =
      (p.reports (slashed names)).map fun report => Utf8.encodeChars (root ++ '/' :: report) := by
  rw [Linter.reportsOf, text, Text.splitOn_encodeChars_joinLines hne h, reports,
    List.map_filterMap, List.zipIdx_map, List.filterMap_map]
  congr 1
  funext line
  by_cases hl : line.1 = []
  · simp [hl, Utf8.encodeChars_eq_nil_iff, Text.toChars_eq_nil_iff]
  · have hbytes : Utf8.encodeChars line.1.toChars ≠ [] := by
      simpa [Utf8.encodeChars_eq_nil_iff, Text.toChars_eq_nil_iff] using hl
    simp [hl, hbytes]

end Projection

end FrontLint
