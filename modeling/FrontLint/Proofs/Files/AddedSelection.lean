import FrontLint.Proofs.Cache.Place
import FrontLint.Proofs.Files.AddedMatches
import FrontLint.Proofs.Files.Selection
import Mathlib.Data.List.Nodup

/-!
# Selections with one more file

A file that is matched under one spelling only is inserted into the selection; the files before
and behind it stay, in the same order.
-/

namespace FrontLint

/-- A text by which a file is opened from a directory. -/
structure FileTree.Spells (t : FileTree) (base : Path) (f : Location) (file : List Char) :
    Prop where
  nul_not_mem : '\x00' ∉ (base.join (.ofText file)).text
  leads : ∃ content, t.locate true (base.join (.ofText file)).text = .found f (.file content)

namespace Selection

/-- A file is matched by patterns, under no other spelling than one, be that too long to be
opened. -/
structure MatchedAs (t : FileTree) (base : Path) (patterns : List (List Char)) (f : Location)
    (file : List Char) : Prop where
  spells : t.Spells base f file
  matched : ∃ pattern ∈ patterns, ∃ found,
    Glob.matchesOf t base.text pattern = .ok found ∧ file ∈ found
  unique : ∀ pattern ∈ patterns, ∀ found, Glob.matchesOf t base.text pattern = .ok found →
    ∀ x ∈ found, t.Designates f (base.join (.ofText x)).text → x = file

/-- Add the regular ones of the matches of a pattern. -/
abbrev addMatches (t : FileTree) (base : Path) :
    List (List Char) → List Char → Except FileFault (List (List Char)) :=
  addListed (Glob.matchesOf t base.text) (isRegular t base)

end Selection

namespace FileTree

namespace PlainFile

open Selection

variable {t : FileTree} {f : Location} {content : Bytes} {base : Path} {file : List Char}
  {pattern : List Char} {patterns chosen chosen' next : List (List Char)}

theorem designates_text (hb : base.IsRead) (x : List Char) :
    t.Designates f (Glob.within base.text x) ↔ t.Designates f (base.join (.ofText x)).text := by
  refine designates_congr ?_
  rw [Path.ofText_within, Path.ofText_text hb,
    Path.ofText_text (Path.isRead_join hb (Path.isRead_ofText x))]

theorem spells_iff (h : t.PlainFile f content) {x : List Char} :
    t.Spells base f x ↔
      isRegular t base x = .ok true ∧ t.Designates f (base.join (.ofText x)).text := by
  constructor
  · rintro ⟨hnul, content, hl⟩
    exact ⟨isFile_eq_ok_true_iff.2 ⟨hnul, f, content, hl⟩, designates_of_locate h.linkFree hl⟩
  · rintro ⟨hfile, hd⟩
    obtain ⟨hnul, location, old, hl⟩ := isFile_eq_ok_true_iff.1 hfile
    refine ⟨hnul, content, ?_⟩
    refine (h.locate_of_touches (h.touches_of_designates hd) true).resolve_right ?_
    rintro ⟨cause, hrefused⟩
    rw [hl] at hrefused
    cases hrefused

theorem read_of_spells (h : t.PlainFile f content) {x : List Char} (hs : t.Spells base f x) :
    t.read (base.join (.ofText x)).text = .ok content := by
  obtain ⟨old, hl⟩ := hs.leads
  rw [read, if_neg (by simpa using hs.nul_not_mem)]
  have ht := h.touches_of_designates (h.spells_iff.1 hs).2
  rcases h.locate_of_touches ht true with hfound | ⟨cause, hrefused⟩
  · rw [hfound]
  · rw [hrefused] at hl
    cases hl

theorem isRegular_removeBelow (h : t.PlainFile f content) (hb : base.IsRead) {x : List Char}
    (hx : ¬ t.Designates f (base.join (.ofText x)).text) :
    isRegular (t.removeBelow f) base x = isRegular t base x :=
  h.isFile_removeBelow (Path.isRead_join hb (Path.isRead_ofText x)) hx

theorem isRegular_iff (h : t.PlainFile f content) (hb : base.IsRead) {x : List Char} :
    isRegular (t.removeBelow f) base x = .ok true ↔
      isRegular t base x = .ok true ∧ ¬ t.Spells base f x := by
  rw [h.spells_iff]
  by_cases hx : t.Designates f (base.join (.ofText x)).text
  · refine iff_of_false (fun hregular => ?_) (fun hregular => hregular.2 ⟨hregular.1, hx⟩)
    obtain ⟨-, location, old, hl⟩ := isFile_eq_ok_true_iff.1 hregular
    exact h.locate_removeBelow_of_touches (h.touches_of_designates hx) true location _ hl
  · rw [h.isRegular_removeBelow hb hx]
    simp [hx]

/-- With one more file, a pattern adds that file and what it added. -/
theorem exists_addMatches (h : t.PlainFile f content) (hw : t.WellFormed) (hp : t.ProperNames)
    (hb : base.IsRead) (hspells : t.Spells base f file)
    (hunique : ∀ found, Glob.matchesOf t base.text pattern = .ok found →
      ∀ x ∈ found, t.Designates f (base.join (.ofText x)).text → x = file)
    (hchosen : chosen'.filter (· ≠ file) = chosen) (hnodup : chosen'.Nodup)
    (hold : addMatches (t.removeBelow f) base chosen pattern = .ok next) :
    ∃ next', addMatches t base chosen' pattern = .ok next' ∧
      next'.filter (· ≠ file) = next ∧ next'.Nodup ∧ chosen' ⊆ next' ∧
      ∀ found, Glob.matchesOf t base.text pattern = .ok found → file ∈ found → file ∈ next' := by
  obtain ⟨found, hfound, hadd⟩ := addListed_eq_ok_iff.1 hold
  obtain ⟨found', hfound', hsub, hnew⟩ := h.exists_matchesOf hw hp hfound
  have hregularFile : isRegular t base file = .ok true := (h.spells_iff.1 hspells).1
  -- a match other than the file was there before, and leads where it led
  have hother : ∀ x ∈ found', x ≠ file → x ∈ found ∧
      isRegular (t.removeBelow f) base x = isRegular t base x := by
    intro x hx hne
    have hd : ¬ t.Designates f (base.join (.ofText x)).text :=
      fun hd => hne (hunique found' hfound' x hx hd)
    refine ⟨?_, h.isRegular_removeBelow hb hd⟩
    by_contra hold
    exact hd ((designates_text hb x).1 (hnew x hx hold))
  have hmem_chosen : ∀ x, x ∈ chosen ↔ x ∈ chosen' ∧ x ≠ file := by
    intro x
    rw [← hchosen, List.mem_filter, decide_eq_true_iff]
  have hanswer : ∀ x ∈ ordered found', x ∉ chosen' → ∃ answer, isRegular t base x = .ok answer := by
    intro x hx hnot
    by_cases hne : x = file
    · exact ⟨true, hne ▸ hregularFile⟩
    · obtain ⟨hin, heq⟩ := hother x (mem_ordered.1 hx) hne
      rw [← heq]
      exact exists_foldlM_add_iff.1 ⟨next, hadd⟩ x (mem_ordered.2 hin)
        fun hc => hnot ((hmem_chosen x).1 hc).1
  obtain ⟨next', hadd'⟩ := exists_foldlM_add_iff.2 hanswer
  obtain ⟨fresh, rfl, hin, hnodupFresh, hmem⟩ := exists_foldlM_add hadd
  obtain ⟨fresh', rfl, hin', hnodupFresh', hmem'⟩ := exists_foldlM_add hadd'
  have hsame : ∀ x, x ∈ fresh'.filter (· ≠ file) ↔ x ∈ fresh := by
    intro x
    rw [List.mem_filter, hmem, hmem', mem_ordered, mem_ordered, hmem_chosen, decide_eq_true_iff]
    constructor
    · rintro ⟨⟨hx, hregular, hnot⟩, hne⟩
      obtain ⟨hin, heq⟩ := hother x hx hne
      exact ⟨hin, heq.trans hregular, fun hc => hnot hc.1⟩
    · rintro ⟨hx, hregular, hnot⟩
      obtain ⟨hregular, hapart⟩ := (h.isRegular_iff hb).1 hregular
      have hne : x ≠ file := by
        rintro rfl
        exact hapart hspells
      exact ⟨⟨hsub hx, hregular, fun hc => hnot ⟨hc, hne⟩⟩, hne⟩
  have hfresh : fresh'.filter (· ≠ file) = fresh := by
    have hnodupFilter : (fresh'.filter (· ≠ file)).Nodup := hnodupFresh'.filter _
    exact List.Perm.eq_of_pairwise (fun _ _ _ _ => le_antisymm)
      ((pairwise_ordered found').sublist (List.filter_sublist.trans hin'))
      ((pairwise_ordered found).sublist hin)
      ((List.perm_ext_iff_of_nodup hnodupFilter hnodupFresh).2 hsame)
  refine ⟨_, addListed_eq_ok_iff.2 ⟨found', hfound', hadd'⟩, ?_, ?_, ?_, ?_⟩
  · rw [List.filter_append, hchosen, hfresh]
  · exact hnodup.append hnodupFresh' fun x hx hx' => ((hmem' x).1 hx').2.2 hx
  · exact List.subset_append_left _ _
  · intro found'' hfound'' hf
    rw [hfound'] at hfound''
    cases hfound''
    by_cases hc : file ∈ chosen'
    · exact List.mem_append_left _ hc
    · exact List.mem_append_right _ ((hmem' file).2
        ⟨mem_ordered.2 hf, hregularFile, hc⟩)

theorem exists_foldlM_addMatches (h : t.PlainFile f content) (hw : t.WellFormed)
    (hp : t.ProperNames) (hb : base.IsRead) (hspells : t.Spells base f file)
    (hunique : ∀ pattern ∈ patterns, ∀ found, Glob.matchesOf t base.text pattern = .ok found →
      ∀ x ∈ found, t.Designates f (base.join (.ofText x)).text → x = file)
    (hchosen : chosen'.filter (· ≠ file) = chosen) (hnodup : chosen'.Nodup)
    (hold : patterns.foldlM (addMatches (t.removeBelow f) base) chosen = .ok next) :
    ∃ next', patterns.foldlM (addMatches t base) chosen' = .ok next' ∧
      next'.filter (· ≠ file) = next ∧ next'.Nodup ∧ chosen' ⊆ next' ∧
      ∀ pattern ∈ patterns, ∀ found, Glob.matchesOf t base.text pattern = .ok found →
        file ∈ found → file ∈ next' := by
  induction patterns generalizing chosen chosen' with
  | nil =>
      cases hold
      exact ⟨chosen', rfl, hchosen, hnodup, List.Subset.refl _, by simp⟩
  | cons pattern rest ih =>
      obtain ⟨middle, hstep, hold⟩ := foldlM_cons_eq_ok_iff.1 hold
      obtain ⟨middle', hstep', hmiddle, hnodup', hsub, hfirst⟩ :=
        h.exists_addMatches hw hp hb hspells (hunique pattern List.mem_cons_self) hchosen hnodup
          hstep
      obtain ⟨next', hnew, hnext, hnodup'', hsub', hrest⟩ :=
        ih (fun other ho => hunique other (List.mem_cons_of_mem _ ho)) hmiddle hnodup' hold
      refine ⟨next', foldlM_cons_eq_ok_iff.2 ⟨middle', hstep', hnew⟩, hnext, hnodup'',
        List.Subset.trans hsub hsub', fun other ho found hfound hf => ?_⟩
      rcases List.mem_cons.1 ho with rfl | ho
      · exact hsub' (hfirst found hfound hf)
      · exact hrest other ho found hfound hf

/-- With one more file, matched under one spelling, the selection is what it was with that file
inserted. -/
theorem exists_ofPatterns (h : t.PlainFile f content) (hw : t.WellFormed) (hp : t.ProperNames)
    (hb : base.IsRead) (hm : MatchedAs t base patterns f file) {documents : List (List Char)}
    (hold : ofPatterns (t.removeBelow f) base patterns = .ok documents) :
    ∃ front back, documents = front ++ back ∧
      ofPatterns t base patterns = .ok (front ++ file :: back) := by
  rw [ofPatterns_eq_ofListings] at hold ⊢
  obtain ⟨all, hall, hfilter, hnodup, -, hmem⟩ :=
    h.exists_foldlM_addMatches hw hp hb hm.spells hm.unique List.filter_nil List.nodup_nil hold
  obtain ⟨pattern, hpattern, found, hfound, hf⟩ := hm.matched
  obtain ⟨front, back, rfl⟩ := List.append_of_mem (hmem pattern hpattern found hfound hf)
  refine ⟨front, back, ?_, hall⟩
  have hnot := (List.nodup_cons.1 (List.nodup_middle.1 hnodup)).1
  rw [List.mem_append, not_or] at hnot
  have hkeep : ∀ l : List (List Char), file ∉ l → l.filter (· ≠ file) = l := by
    intro l hl
    rw [List.filter_eq_self]
    intro x hx
    rw [decide_eq_true_iff]
    exact fun heq => hl (heq ▸ hx)
  rw [← hfilter, List.filter_append, List.filter_cons_of_neg (by simp), hkeep front hnot.1,
    hkeep back hnot.2]

end PlainFile

end FileTree

end FrontLint
