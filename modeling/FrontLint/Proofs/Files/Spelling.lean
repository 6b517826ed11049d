import FrontLint.Note
import FrontLint.Proofs.Files.Matches
import FrontLint.Proofs.Files.Selection
import Mathlib

/-!
# Spellings of matches

A match keeps the spelling of its pattern, and a selection tells files apart by the texts of the
matches. So one file can be selected under several texts: with and without a dot, with two
slashes for one, from the directory and from the top. Texts that are written as their paths are
have one spelling only, and patterns that are written so match such texts.
-/

namespace FrontLint

/-- The text of a path, with nothing for the path of a dot. -/
def Path.stem (p : Path) : List Char := p.anchor.text ++ slashed p.names

namespace Path

theorem text_eq_stem {p : Path} (h : p ≠ ⟨.relative, []⟩) : p.text = p.stem := by
  cases p with
  | mk anchor names =>
      cases anchor with
      | relative =>
          cases names with
          | nil => exact absurd rfl h
          | cons name rest => rfl
      | slash => rfl
      | twoSlashes => rfl

theorem stem_eq_nil_iff {p : Path} (h : p.IsRead) : p.stem = [] ↔ p = ⟨.relative, []⟩ := by
  constructor
  · intro hs
    by_contra hne
    exact text_ne_nil h ((text_eq_stem hne).trans hs)
  · rintro rfl
    rfl

theorem splitOn_text {p : Path} (h : p.IsRead) (hne : p.names ≠ []) :
    ∃ lead, p.text.splitOn '/' = lead ++ p.names ∧ (∀ name ∈ lead, name = []) ∧
      lead.flatMap (fun n => n ++ ['/']) = p.anchor.text := by
  have hsplit : (slashed p.names).splitOn '/' = p.names :=
    splitOn_slashed hne fun name hname => (h name hname).slash_not_mem
  rw [text_eq_stem (fun hp => hne (by rw [hp])), stem]
  cases p.anchor with
  | relative => exact ⟨[], hsplit, by simp, rfl⟩
  | slash =>
      refine ⟨[[]], ?_, by simp, rfl⟩
      rw [Anchor.text, List.singleton_append, splitOn_slash_cons, hsplit]
      rfl
  | twoSlashes =>
      refine ⟨[[], []], ?_, by simp, rfl⟩
      rw [Anchor.text, List.cons_append, List.singleton_append, splitOn_slash_cons,
        splitOn_slash_cons, hsplit]
      rfl

end Path

theorem slashed_append {front back : List FileName} (hf : front ≠ []) (hb : back ≠ []) :
    slashed (front ++ back) = slashed front ++ '/' :: slashed back := by
  induction front with
  | nil => exact absurd rfl hf
  | cons name rest ih =>
      cases rest with
      | nil => exact slashed_cons name hb
      | cons next rest =>
          rw [List.cons_append, slashed_cons name (by simp), slashed_cons name (by simp),
            ih (by simp), List.append_assoc, List.cons_append]

theorem flatMap_slash {names : List FileName} (h : names ≠ []) :
    names.flatMap (fun n => n ++ ['/']) = slashed names ++ ['/'] := by
  induction names with
  | nil => exact absurd rfl h
  | cons name rest ih =>
      cases rest with
      | nil => simp [slashed]
      | cons next rest =>
          rw [List.flatMap_cons, ih (by simp), slashed_cons name (by simp)]
          simp

/-- A segment whose name, if it is one, is plain. -/
def Segment.IsPlain (segment : Segment) : Prop :=
  ∀ name, segment = .name name → name.IsPlain

namespace Glob

theorem dropSlashes_of_getLast? {a : List Char} (hne : a ≠ []) (h : a.getLast? ≠ some '/') :
    dropSlashes (a ++ ['/']) = a := by
  obtain ⟨front, last, rfl⟩ := List.eq_nil_or_concat a |>.resolve_left hne
  have hlast : last ≠ '/' := by simpa using h
  simp [dropSlashes, hlast]

theorem dropSlashes_anchor (anchor : Anchor) : dropSlashes anchor.text = anchor.text := by
  cases anchor <;> decide

theorem drop_length_takeWhile {α : Type} (q : α → Bool) (l : List α) :
    l.drop (l.takeWhile q).length = l.dropWhile q := by
  induction l with
  | nil => rfl
  | cons x l ih => cases hx : q x <;> simp [hx, ih]

/-- What a glob starts from, and its segments, if it is written as its path is. -/
theorem ofText_text {p : Path} (h : p.IsRead) (hne : p.names ≠ []) :
    ofText p.text =
      ⟨Path.stem ⟨p.anchor, p.names.takeWhile fun n => !Wildcard.occurIn n⟩,
        (p.names.dropWhile fun n => !Wildcard.occurIn n).map segmentOf⟩ := by
  obtain ⟨lead, hsplit, hlead, hanchor⟩ := Path.splitOn_text h hne
  have hplain : (lead ++ p.names).takeWhile (fun n => !Wildcard.occurIn n) =
      lead ++ p.names.takeWhile fun n => !Wildcard.occurIn n := by
    refine List.takeWhile_append_of_pos fun name hname => ?_
    rw [hlead name hname]
    rfl
  have hrest : (lead ++ p.names).drop
      (lead ++ p.names.takeWhile fun n => !Wildcard.occurIn n).length =
        p.names.dropWhile fun n => !Wildcard.occurIn n := by
    rw [List.length_append, List.drop_append, List.drop_eq_nil_of_le (Nat.le_add_right ..),
      List.nil_append, Nat.add_sub_cancel_left, drop_length_takeWhile]
  have hnames : segmentNames (p.names.dropWhile fun n => !Wildcard.occurIn n) =
      p.names.dropWhile fun n => !Wildcard.occurIn n := by
    have hread (name : FileName) (hn : name ∈ p.names.dropWhile fun n => !Wildcard.occurIn n) :
        name ≠ [] := (h name ((List.dropWhile_sublist _).mem hn)).ne_nil
    have hkeep : (p.names.dropWhile fun n => !Wildcard.occurIn n).filter (· ≠ []) =
        p.names.dropWhile fun n => !Wildcard.occurIn n :=
      List.filter_eq_self.2 fun name hn => by simpa using hread name hn
    rw [segmentNames, hkeep, if_neg, List.append_nil]
    exact fun hlast => hread [] (List.mem_of_getLast? hlast) rfl
  rw [ofText, hsplit]
  simp only [hplain, hrest, hnames, List.flatMap_append, hanchor]
  congr 1
  by_cases hp : p.names.takeWhile (fun n => !Wildcard.occurIn n) = []
  · rw [hp, List.flatMap_nil, List.append_nil, dropSlashes_anchor, Path.stem, slashed,
      List.append_nil]
  · have hread : ∀ name ∈ p.names.takeWhile (fun n => !Wildcard.occurIn n),
        FileName.IsRead name :=
      fun name hn => h name ((List.takeWhile_sublist _).mem hn)
    have hslashed := slashed_ne_nil hp fun name hn => (hread name hn).ne_nil
    rw [flatMap_slash hp, ← List.append_assoc, Path.stem]
    refine dropSlashes_of_getLast? (by simp [hslashed]) ?_
    rw [List.getLast?_append_of_ne_nil _ hslashed]
    exact getLast?_slashed hp hread

/-- A match written as its path is. -/
def IsNeat (anchor : Anchor) (x : List Char) : Prop :=
  ∃ names, (∀ name ∈ names, FileName.IsPlain name) ∧ x = Path.stem ⟨anchor, names⟩

/-- A match written as its path is, but for a slash that two stars put at its end. -/
def IsNearlyNeat (anchor : Anchor) (x : List Char) : Prop :=
  ∃ y, IsNeat anchor y ∧ (x = y ∨ x = attach y [])

variable {t : FileTree} {anchor : Anchor} {directories : Bool} {depth : Nat}
  {path root : List Char} {names found : List (List Char)}

theorem IsNeat.isNearlyNeat {x : List Char} (h : IsNeat anchor x) : IsNearlyNeat anchor x :=
  ⟨x, h, .inl rfl⟩

theorem attach_attach_nil (a b : List Char) : attach (attach a []) b = attach a b := by
  by_cases hb : b.head? = some '/'
  · rw [attach, if_pos hb, attach, if_pos hb]
  · by_cases ha : a.isEmpty || a.getLast? = some '/'
    · rw [show attach a [] = a by rw [attach, if_neg (by simp), if_pos ha, List.append_nil]]
    · have hnil : attach a [] = a ++ ['/'] := by rw [attach, if_neg (by simp), if_neg ha]
      rw [hnil, attach, attach, if_neg hb, if_neg hb, if_neg ha, if_pos (by simp),
        List.append_assoc, List.singleton_append]

/-- Names behind a match that is written as its path is. -/
theorem IsNeat.attach_slashed {x : List Char} (h : IsNeat anchor x) {more : List FileName}
    (hne : more ≠ []) (hmore : ∀ name ∈ more, FileName.IsPlain name) :
    IsNeat anchor (Glob.attach x (slashed more)) := by
  obtain ⟨names, hnames, rfl⟩ := h
  refine ⟨names ++ more, fun name hn => (List.mem_append.1 hn).elim (hnames name) (hmore name), ?_⟩
  have hhead : (slashed more).head? ≠ some '/' :=
    head?_slashed fun name hn => (hmore name hn).isRead
  rw [Glob.attach, if_neg hhead]
  by_cases hn : names = []
  · subst hn
    cases anchor <;> simp [Anchor.text, Path.stem, slashed]
  · have hslashed := slashed_ne_nil hn fun name h => (hnames name h).isRead.ne_nil
    have hlast := getLast?_slashed hn fun name h => (hnames name h).isRead
    rw [if_neg, Path.stem, Path.stem, slashed_append hn hne, List.append_assoc]
    rw [Path.stem, List.getLast?_append_of_ne_nil _ hslashed]
    simp [hslashed, hlast]

theorem IsNearlyNeat.attach_slashed {x : List Char} (h : IsNearlyNeat anchor x)
    {more : List FileName} (hne : more ≠ []) (hmore : ∀ name ∈ more, FileName.IsPlain name) :
    IsNeat anchor (Glob.attach x (slashed more)) := by
  obtain ⟨y, hy, rfl | rfl⟩ := h
  · exact hy.attach_slashed hne hmore
  · rw [attach_attach_nil]
    exact hy.attach_slashed hne hmore

theorem IsNearlyNeat.attach_nil {x : List Char} (h : IsNearlyNeat anchor x) :
    IsNearlyNeat anchor (Glob.attach x []) := by
  obtain ⟨y, hy, rfl | rfl⟩ := h
  · exact ⟨x, hy, .inr rfl⟩
  · rw [attach_attach_nil]
    exact ⟨y, hy, .inr rfl⟩

/-- What lies below a directory is found under plain names. -/
theorem exists_slashed_of_mem_below (hp : t.ProperNames)
    (h : below t directories depth path = .ok found) {x : List Char} (hx : x ∈ found) :
    ∃ more : List FileName, more ≠ [] ∧ (∀ name ∈ more, name.IsPlain) ∧ x = slashed more := by
  induction depth generalizing path found x with
  | zero =>
      cases h
      cases hx
  | succ depth ih =>
      obtain ⟨names, hlist, -⟩ := below_succ_eq_ok_iff.1 h
      obtain ⟨name, hn, -, inner, hinner, hx⟩ := (mem_of_below_succ h hlist x).1 hx
      have hname := (isProper_of_mem_listing hp hlist hn).isPlain
      rcases hx with rfl | ⟨y, hy, rfl⟩
      · exact ⟨[x], by simp, by simpa using hname, rfl⟩
      · obtain ⟨more, hne, hmore, rfl⟩ := ih hinner hy
        refine ⟨name :: more, by simp, List.forall_mem_cons.2 ⟨hname, hmore⟩, ?_⟩
        have hslashed := slashed_ne_nil hne fun name h => (hmore name h).isRead.ne_nil
        have hhead := head?_slashed fun name h => (hmore name h).isRead
        have hlast : name.getLast? ≠ some '/' := fun hlast =>
          hname.isRead.slash_not_mem (List.mem_of_getLast? hlast)
        rw [slashed_cons name hne, within, if_neg (by simpa using hname.isRead.ne_nil),
          if_neg (by simpa using hslashed), attach, if_neg hhead,
          if_neg (by simp [hname.isRead.ne_nil, hlast])]

/-- What a segment of a plain name matches: plain names, or nothing behind two stars. -/
theorem exists_slashed_of_mem_segmentMatches (hp : t.ProperNames) {segment : Segment}
    (hs : segment.IsPlain) (h : segmentMatches t directories path segment = .ok names)
    {x : List Char} (hx : x ∈ names) :
    (∃ more : List FileName, more ≠ [] ∧ (∀ name ∈ more, name.IsPlain) ∧ x = slashed more) ∨
      segment = .depth ∧ x = [] := by
  cases segment with
  | name name =>
      have hname : name.IsPlain := hs name rfl
      rw [segmentMatches] at h
      · cases h
        split at hx
        · exact .inl ⟨[x], by simp, by simpa [List.mem_singleton.1 hx] using hname, rfl⟩
        · cases hx
      · exact hname.isRead.ne_nil
  | depth =>
      rw [segmentMatches] at h
      simp only [bind_eq_ok_iff, pure_eq_ok_iff] at h
      obtain ⟨found, hbelow, rfl⟩ := h
      rcases List.mem_cons.1 hx with rfl | hx
      · exact .inr ⟨rfl, rfl⟩
      · exact .inl (exists_slashed_of_mem_below hp hbelow hx)
  | pattern wildcards dotted =>
      rw [segmentMatches] at h
      simp only [bind_eq_ok_iff, pure_eq_ok_iff] at h
      obtain ⟨all, hlist, rfl⟩ := h
      have hname := (isProper_of_mem_listing hp hlist (List.mem_of_mem_filter hx)).isPlain
      exact .inl ⟨[x], by simp, by simpa using hname, rfl⟩

/-- One segment keeps the matches nearly as their paths are written; only two stars may put a
slash at an end. The induction carries this to the last segment. -/
theorem isNeat_of_mem_extend (hp : t.ProperNames) {segments : List Segment}
    {result : List (List Char)} (h : extend t root segments found = .ok result)
    (hs : ∀ segment ∈ segments, segment.IsPlain)
    (hlast : ∃ last, segments.getLast? = some last ∧ last ≠ .depth)
    (hfound : ∀ x ∈ found, IsNearlyNeat anchor x) : ∀ x ∈ result, IsNeat anchor x := by
  induction segments generalizing found with
  | nil =>
      obtain ⟨last, hlast, -⟩ := hlast
      cases hlast
  | cons segment rest ih =>
      obtain ⟨parts, hparts, h⟩ := extend_cons_eq_ok_iff.1 h
      obtain ⟨hsegment, hrest⟩ := List.forall_mem_cons.1 hs
      obtain ⟨last, hlast, hdepth⟩ := hlast
      have hstep (x : List Char) (hx : x ∈ parts.flatten) :
          IsNearlyNeat anchor x ∧ (segment ≠ .depth → IsNeat anchor x) := by
        obtain ⟨path, hpath, names, hnames, name, hn, rfl⟩ :=
          (mem_of_mapM_segmentMatches hparts x).1 hx
        rcases exists_slashed_of_mem_segmentMatches hp hsegment hnames hn with
          ⟨more, hne, hmore, rfl⟩ | ⟨hd, rfl⟩
        · have hneat := (hfound path hpath).attach_slashed hne hmore
          exact ⟨hneat.isNearlyNeat, fun _ => hneat⟩
        · exact ⟨(hfound path hpath).attach_nil, fun hne => absurd hd hne⟩
      cases rest with
      | nil =>
          obtain rfl : segment = last := by simpa using hlast
          cases h
          exact fun x hx => (hstep x hx).2 hdepth
      | cons next rest =>
          rw [List.getLast?_cons_cons] at hlast
          exact ih h hrest ⟨last, hlast, hdepth⟩ fun x hx => (hstep x hx).1

end Glob

namespace Selection

/-- A text written as its path is, without two dots in it. -/
structure IsSpelled (x : List Char) : Prop where
  text_ofText : (Path.ofText x).text = x
  above_not_mem : FileName.above ∉ (Path.ofText x).names

theorem isSpelled_iff {x : List Char} :
    IsSpelled x ↔ (Path.ofText x).text = x ∧ FileName.above ∉ (Path.ofText x).names :=
  ⟨fun h => ⟨h.1, h.2⟩, fun h => ⟨h.1, h.2⟩⟩

/-- What a match denotes: its path seen from the directory and normalised. -/
def place (base : Path) (x : List Char) : Path := (base.join (Path.ofText x)).normal

variable {t : FileTree} {base : Path} {patterns files : List (List Char)} {x y : List Char}

theorem IsSpelled.isPlain (h : IsSpelled x) {name : FileName}
    (hn : name ∈ (Path.ofText x).names) : name.IsPlain :=
  ⟨Path.isRead_ofText x name hn, fun heq => h.above_not_mem (heq ▸ hn)⟩

/-- Two spelled texts that denote the same file are the same, if both are seen from the directory
or both from the top. -/
theorem IsSpelled.eq_of_place_eq (hx : IsSpelled x) (hy : IsSpelled y)
    (hkind : (Path.ofText x).isAbsolute = (Path.ofText y).isAbsolute)
    (h : place base x = place base y) : x = y := by
  have hpath : Path.ofText x = Path.ofText y := by
    cases habsolute : (Path.ofText x).isAbsolute with
    | true =>
        rw [place, place, Path.join_of_isAbsolute _ habsolute,
          Path.join_of_isAbsolute _ (hkind ▸ habsolute), Path.normal, Path.normal,
          Path.normalNames_of_not_mem _ hx.above_not_mem,
          Path.normalNames_of_not_mem _ hy.above_not_mem] at h
        exact h
    | false =>
        have hxr := Path.anchor_of_isAbsolute_eq_false habsolute
        have hyr := Path.anchor_of_isAbsolute_eq_false (hkind ▸ habsolute)
        rw [place, place, Path.join_of_relative _ hxr, Path.join_of_relative _ hyr, Path.normal,
          Path.normal, Path.normalNames_append _ _ hx.above_not_mem,
          Path.normalNames_append _ _ hy.above_not_mem] at h
        have hnames := List.append_cancel_left (Path.mk.inj h).2
        calc Path.ofText x = ⟨.relative, (Path.ofText x).names⟩ := by rw [← hxr]
          _ = ⟨.relative, (Path.ofText y).names⟩ := by rw [hnames]
          _ = Path.ofText y := by rw [← hyr]
  rw [← hx.text_ofText, hpath, hy.text_ofText]

theorem isSpelled_of_isNeat {anchor : Anchor} (h : Glob.IsNeat anchor x) (hne : x ≠ []) :
    IsSpelled x ∧ (Path.ofText x).anchor = anchor := by
  obtain ⟨names, hnames, rfl⟩ := h
  have hread : (Path.mk anchor names).IsRead := fun name hn => (hnames name hn).isRead
  have htext : (Path.mk anchor names).stem = (Path.mk anchor names).text :=
    (Path.text_eq_stem fun heq => hne ((Path.stem_eq_nil_iff hread).2 heq)).symm
  rw [htext]
  have hof := Path.ofText_text hread
  refine ⟨⟨congrArg Path.text hof, fun hmem => ?_⟩, congrArg Path.anchor hof⟩
  rw [hof] at hmem
  exact (hnames _ hmem).ne_above rfl

theorem isPlain_segmentOf {name : FileName} (h : name.IsPlain) :
    (Glob.segmentOf name).IsPlain := by
  intro other hother
  rw [Glob.segmentOf] at hother
  split at hother
  · cases hother
  · split at hother
    · cases hother
    · cases hother
      exact h

theorem segmentOf_eq_depth_iff {name : FileName} :
    Glob.segmentOf name = .depth ↔ name = ['*', '*'] := by
  rw [Glob.segmentOf]
  split
  · simpa
  · split <;> simpa

/-- Where a wildcard occurs in the text of a path, one of its names has it. -/
theorem exists_occurIn_of_text {p : Path} (h : Wildcard.occurIn p.text = true) :
    ∃ name ∈ p.names, Wildcard.occurIn name = true := by
  have hne : p ≠ ⟨.relative, []⟩ := by
    rintro rfl
    cases h
  rw [Path.text_eq_stem hne, Path.stem, Wildcard.occurIn, List.any_eq_true] at h
  obtain ⟨c, hc, hwild⟩ := h
  rcases List.mem_append.1 hc with hc | hc
  · have hslash : c = '/' := by
      cases hanchor : p.anchor <;> simp_all [Anchor.text]
    subst hslash
    simp at hwild
  · rcases mem_of_mem_slashed hc with rfl | ⟨name, hname, hc⟩
    · simp at hwild
    · exact ⟨name, hname, List.any_eq_true.2 ⟨c, hc, hwild⟩⟩

/-- A spelled pattern matches spelled texts, unless it ends in two stars. -/
theorem isSpelled_of_mem_matchesOf (hp : t.ProperNames) {root pattern : List Char}
    {found : List (List Char)} (hpattern : IsSpelled pattern)
    (hlast : (Path.ofText pattern).names.getLast? ≠ some ['*', '*'])
    (h : Glob.matchesOf t root pattern = .ok found) (hx : x ∈ found) :
    IsSpelled x ∧ (Path.ofText x).anchor = (Path.ofText pattern).anchor := by
  obtain ⟨all, hall, hmem⟩ := Glob.mem_of_matchesOf hp h
  obtain ⟨hx, hne⟩ := (hmem x).1 hx
  rw [Glob.allMatches] at hall
  split at hall
  · rename_i hwild
    generalize hpath : Path.ofText pattern = p at *
    have htext : p.text = pattern := hpath ▸ hpattern.text_ofText
    have hplain : ∀ name ∈ p.names, FileName.IsPlain name := fun name hn =>
      hpattern.isPlain (hpath ▸ hn)
    obtain ⟨wild, hmem, hoccur⟩ := exists_occurIn_of_text (htext ▸ hwild)
    rw [← htext, Glob.ofText_text (fun name hn => (hplain name hn).isRead)
      (List.ne_nil_of_mem hmem)] at hall
    refine isSpelled_of_isNeat (Glob.isNeat_of_mem_extend hp hall ?_ ?_ ?_ x hx) hne
    · intro segment hsegment
      obtain ⟨name, hn, rfl⟩ := List.mem_map.1 hsegment
      exact isPlain_segmentOf (hplain name ((List.dropWhile_sublist _).mem hn))
    · have hrest : p.names.dropWhile (fun n => !Wildcard.occurIn n) ≠ [] := by
        intro hnil
        have hnone := List.dropWhile_eq_nil_iff.1 hnil wild hmem
        simp [hoccur] at hnone
      obtain ⟨front, last, heq⟩ := List.eq_nil_or_concat _ |>.resolve_left hrest
      refine ⟨Glob.segmentOf last, by simp [heq], fun hdepth => hlast ?_⟩
      rw [← segmentOf_eq_depth_iff.1 hdepth]
      have hsuffix := List.dropWhile_suffix (l := p.names) fun n => !Wildcard.occurIn n
      rw [heq] at hsuffix
      obtain ⟨before, hbefore⟩ := hsuffix
      rw [← hbefore]
      simp
    · intro y hy
      rw [List.mem_singleton.1 hy]
      exact Glob.IsNeat.isNearlyNeat
        ⟨_, fun name hn => hplain name ((List.takeWhile_sublist _).mem hn), rfl⟩
  · split at hall
    · cases hall
      cases hx
    · cases hall
      have hplain : Glob.plainMatches t root pattern = [pattern] ∨
          Glob.plainMatches t root pattern = [] := ite_eq_or_eq _ _ _
      rcases hplain with heq | heq
      · rw [heq, List.mem_singleton] at hx
        subst hx
        exact ⟨hpattern, rfl⟩
      · rw [heq] at hx
        cases hx

/-- No file is selected under two spelled texts that are both seen from the directory or both
from the top. So no file is selected twice by spelled patterns of one kind that do not end in two
stars. -/
theorem ofPatterns_listedOnce (hp : t.ProperNames)
    (h : ofPatterns t base patterns = .ok files) :
    (files.Pairwise fun x y => IsSpelled x → IsSpelled y →
      (Path.ofText x).isAbsolute = (Path.ofText y).isAbsolute → place base x ≠ place base y) ∧
    ∀ absolute, (∀ pattern ∈ patterns, IsSpelled pattern ∧
        (Path.ofText pattern).isAbsolute = absolute ∧
        (Path.ofText pattern).names.getLast? ≠ some ['*', '*']) →
      files.Pairwise fun x y => place base x ≠ place base y := by
  have hpairwise : files.Pairwise fun x y => IsSpelled x → IsSpelled y →
      (Path.ofText x).isAbsolute = (Path.ofText y).isAbsolute → place base x ≠ place base y :=
    (nodup_ofPatterns h).imp fun hne hx hy hkind heq => hne (hx.eq_of_place_eq hy hkind heq)
  refine ⟨hpairwise, fun absolute hpatterns => ?_⟩
  have hspelled (x : List Char) (hx : x ∈ files) :
      IsSpelled x ∧ (Path.ofText x).isAbsolute = absolute := by
    obtain ⟨-, pattern, hpattern, found, hfound, hmem⟩ := (mem_ofPatterns_iff h).1 hx
    obtain ⟨hs, hkind, hlast⟩ := hpatterns pattern hpattern
    obtain ⟨hx, hanchor⟩ := isSpelled_of_mem_matchesOf hp hs hlast hfound hmem
    exact ⟨hx, by rw [← hkind, Path.isAbsolute, Path.isAbsolute, hanchor]⟩
  refine hpairwise.imp_of_mem fun {x y} hx hy hne => ?_
  obtain ⟨hxs, hxk⟩ := hspelled x hx
  obtain ⟨hys, hyk⟩ := hspelled y hy
  exact hne hxs hys (hxk.trans hyk.symm)

/-- Two files in the directory `d`, one of them in a directory below. -/
def nestedTree : FileTree :=
  ⟨[([['d']], .directory), ([['d'], ['e']], .directory), ([['d'], ['e'], ['a']], .file []),
    ([['d'], ['b']], .file [])], [['d']]⟩

/-- A file that two patterns match, and one that a third one matches under another text. -/
theorem ofPatterns_listedOnce_nestedTree :
    nestedTree.ProperNames ∧
      ofPatterns nestedTree ⟨.slash, [['d']]⟩
          ["**/*".toList, "e/a".toList, "./b".toList] =
        .ok ["b".toList, "e/a".toList, "./b".toList] ∧
      ofPatterns nestedTree ⟨.slash, [['d']]⟩ ["**/*".toList, "e/a".toList] =
        .ok ["b".toList, "e/a".toList] ∧
      ["b".toList, "e/a".toList].Pairwise
        fun x y => place ⟨.slash, [['d']]⟩ x ≠ place ⟨.slash, [['d']]⟩ y := by
  have hfiles : ofPatterns nestedTree ⟨.slash, [['d']]⟩ ["**/*".toList, "e/a".toList] =
      .ok ["b".toList, "e/a".toList] := Noted.eq_ok_of_toOption (by cbv)
  refine ⟨by decide, Noted.eq_ok_of_toOption (by cbv), hfiles, ?_⟩
  refine (ofPatterns_listedOnce (by decide) hfiles).2 false ?_
  simp only [isSpelled_iff]
  decide

end Selection

end FrontLint
