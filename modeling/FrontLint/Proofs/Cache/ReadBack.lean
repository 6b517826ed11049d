import FrontLint.Proofs.Cache.Mirror
import FrontLint.Proofs.Document.LineEnds
import FrontLint.Proofs.Files.Consults
import FrontLint.Proofs.Projection.LinePreservation

/-!
# Reading projections back

A written projection is its text in UTF-8, so the lines between its line feeds are those of the
projection. To read a file as text, each kind of line end is made a line feed. That keeps the
lines of a projection without carriage returns, and of no other one.
-/

namespace FrontLint

theorem carriageReturn_mem_ofChars {cs : List Char} :
    carriageReturn ∈ Text.ofChars cs ↔ '\r' ∈ cs := by
  simp [Text.ofChars, carriageReturn]

namespace Cache

/-- A file with the text of a projection is read as the lines of the projection if none of them
has a carriage return, and only then. -/
theorem splitLines_unifyLineEnds_iff {p : Projection} {cs : List Char}
    (hlines : splitLines p.text = p.lines) (htext : p.text = Text.ofChars cs) :
    splitLines (Text.ofChars (unifyLineEnds cs)) = p.lines ↔
      ∀ line ∈ p.lines, carriageReturn ∉ line := by
  have hmem : carriageReturn ∈ p.text ↔ ∃ line ∈ p.lines, carriageReturn ∈ line :=
    mem_joinLines_iff (by decide)
  have hsame : splitLines (Text.ofChars (unifyLineEnds cs)) = p.lines ↔
      unifyLineEnds cs = cs := by
    constructor
    · intro h
      have hjoin := congrArg joinLines h
      rw [joinLines_splitLines, ← Projection.text, htext] at hjoin
      exact Text.ofChars_inj.1 hjoin
    · intro h
      rw [h, ← htext, hlines]
  calc splitLines (Text.ofChars (unifyLineEnds cs)) = p.lines
    _ ↔ unifyLineEnds cs = cs := hsame
    _ ↔ '\r' ∉ cs := unifyLineEnds_eq_self_iff
    _ ↔ carriageReturn ∉ p.text := by rw [htext, carriageReturn_mem_ofChars]
    _ ↔ ∀ line ∈ p.lines, carriageReturn ∉ line := by simp [hmem]

/-- The projection of a document, once it is written, is what its path reads: the file has the
text of the projection in UTF-8, and its lines are those of the projection. Where each kind of
line end is read as a line feed, they are so exactly if no line has a carriage return. -/
theorem readText_write [HashSeed] {document : Text} {p : Projection} {c : Cache}
    {source target : Path}
    {t : FileTree} (hp : (Projection.ofText? document).result = .ok (some p))
    (hw : (c.write source p t).1 = .ok target) :
    (∃ content chars, (c.write source p t).2.read target.text = .ok content ∧
      Utf8.decode content = .ok chars ∧ splitLines (Text.ofChars chars) = p.lines) ∧
    ∃ text, (c.write source p t).2.readText target.text = .ok text ∧
      (splitLines text = p.lines ↔ ∀ line ∈ p.lines, carriageReturn ∉ line) := by
  obtain ⟨closing, block, index, -, -, hpreserves⟩ := Projection.preservesLines_of_ofText? hp
  have hlines := hpreserves.splitLines_text
  obtain ⟨rfl, htext⟩ := target_of_write hw
  have hread : (c.write source p t).2.read (c.pathFor source).text =
      .ok (Utf8.encodeChars p.text.toChars) := FileTree.read_write (write_eq_ok hw)
  refine ⟨⟨_, _, hread, Utf8.decode_encodeChars _, by rw [← htext, hlines]⟩, ?_⟩
  refine ⟨_, ?_, splitLines_unifyLineEnds_iff hlines htext⟩
  simp only [FileTree.readText, hread, Utf8.decode_encodeChars]

/-- A document with a title of two letters and an escape between them. -/
def escapedTitle (escape : Char) : Text :=
  joinLines ([['-', '-', '-'],
    ['t', 'i', 't', 'l', 'e', ':', ' ', '"', 'a', '\\', escape, 'b', '"'],
    ['-', '-', '-']].map Text.ofChars)

/-- Its projection, if the escape stands for a character. -/
def headedBy (c : Char) : Projection := ⟨[[], Text.ofChars ['#', ' ', 'a', c, 'b'], [], []]⟩

/-- A cache of documents in one directory below another one. -/
def besideCache : Cache := ⟨⟨.slash, [['c']]⟩, ⟨.slash, [['d']]⟩⟩

def besideTree : FileTree := ⟨[([['d']], .directory)], [['d']]⟩

def besideSource : Path := ⟨.relative, [['a']]⟩

def besideTarget : Path := ⟨.slash, [['c'], ['a']]⟩

open HashSeed

/-- A line separator in the title is read back as it was written. -/
theorem readText_write_lineSeparator :
    (Projection.ofText? (escapedTitle 'L')).result = .ok (some (headedBy '\u2028')) ∧
      (besideCache.write besideSource (headedBy '\u2028') besideTree).1 = .ok besideTarget ∧
      ∃ text, (besideCache.write besideSource (headedBy '\u2028') besideTree).2.readText
        besideTarget.text = .ok text ∧ splitLines text = (headedBy '\u2028').lines := by
  have hp : (Projection.ofText? (escapedTitle 'L')).result = .ok (some (headedBy '\u2028')) :=
    Noted.eq_ok_of_toOption (by decide +kernel)
  have hw : (besideCache.write besideSource (headedBy '\u2028') besideTree).1 = .ok besideTarget :=
    Noted.eq_ok_of_toOption (by decide +kernel)
  obtain ⟨-, text, htext, hlines⟩ := readText_write hp hw
  exact ⟨hp, hw, text, htext, hlines.2 (by decide)⟩

/-- A carriage return in the title is read back as the end of a line. -/
theorem splitLines_readText_carriageReturn :
    (Projection.ofText? (escapedTitle 'r')).result = .ok (some (headedBy '\r')) ∧
      (besideCache.write besideSource (headedBy '\r') besideTree).1 = .ok besideTarget ∧
      ∃ text, (besideCache.write besideSource (headedBy '\r') besideTree).2.readText
        besideTarget.text = .ok text ∧ splitLines text ≠ (headedBy '\r').lines := by
  refine ⟨Noted.eq_ok_of_toOption (by decide +kernel), Noted.eq_ok_of_toOption (by decide +kernel),
    Text.ofChars ['\n', '#', ' ', 'a', '\n', 'b', '\n', '\n'], ?_, by decide⟩
  exact Noted.eq_ok_of_toOption (by decide +kernel)

end Cache

end FrontLint
