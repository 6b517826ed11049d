import FrontLint.Proofs.Files.Matches

/-!
# Matches with one more file

With one more file a pattern matches what it matched without it, and beyond that only paths that
designate the file. This holds of a listing, of all below a directory, of a segment and so, segment
by segment, of a pattern. Behind a path that designates the file itself every match designates it
too.
-/

namespace FrontLint

def Segment.SlashFree : Segment → Prop
  | .name text => '/' ∉ text
  | _ => True

theorem Glob.slashFree_of_mem_segments {text : List Char} {segment : Segment}
    (h : segment ∈ (Glob.ofText text).segments) : segment.SlashFree := by
  obtain ⟨name, hn, rfl⟩ := List.mem_map.1 h
  have hslash : '/' ∉ name := by
    rcases List.mem_append.1 hn with hn | hn
    · exact slash_not_mem_of_mem_splitOn (List.mem_of_mem_drop (List.mem_of_mem_filter hn))
    · split at hn
      · rw [List.mem_singleton.1 hn]
        exact List.not_mem_nil
      · cases hn
  rw [segmentOf]
  split
  · trivial
  · split
    · trivial
    · exact hslash

namespace FileTree

/-- What is matched behind a path because of a file. -/
structure DesignatesBehind (t : FileTree) (f : Location) (path x : List Char) : Prop where
  designates : t.Designates f (Glob.within path x)
  nul_not_mem_path : '\x00' ∉ path
  nul_not_mem : '\x00' ∉ x

/-- What is matched behind a path with a file, `new`, and without it, `old`. -/
structure Gains (t : FileTree) (f : Location) (path : List Char) (old new : List (List Char)) :
    Prop where
  subset : old ⊆ new
  designates_of_new : ∀ x ∈ new, x ∉ old → t.DesignatesBehind f path x

/-- Paths found from a directory with a file, and without it. -/
structure GainsFrom (t : FileTree) (f : Location) (root : List Char)
    (old new : List (List Char)) : Prop where
  subset : old ⊆ new
  designates_of_new : ∀ x ∈ new, x ∉ old →
    t.Designates f (Glob.within root x) ∧ '\x00' ∉ Glob.within root x

theorem Gains.refl (t : FileTree) (f : Location) (path : List Char) (l : List (List Char)) :
    t.Gains f path l l :=
  ⟨fun _ h => h, fun _ h hnot => absurd h hnot⟩

theorem GainsFrom.refl (t : FileTree) (f : Location) (root : List Char) (l : List (List Char)) :
    t.GainsFrom f root l l :=
  ⟨fun _ h => h, fun _ h hnot => absurd h hnot⟩

namespace PlainFile

open Glob

variable {t : FileTree} {f : Location} {content : Bytes} {path x root : List Char}
  {directories : Bool} {depth : Nat} {segment : Segment} {old new names : List (List Char)}

theorem locate_ne_directory_of_touches (h : t.PlainFile f content) (ht : t.Touches f path)
    (last : Bool) (directory : Location) : t.locate last path ≠ .found directory .directory := by
  intro hl
  rcases h.locate_of_touches ht last with hf | ⟨cause, hf⟩ <;>
  · rw [hl] at hf
    cases hf

/-! ## Listings -/

theorem listing_of_touches (h : t.PlainFile f content) (ht : t.Touches f path)
    (hlist : listing t directories path = .ok names) : names = [] := by
  rw [List.eq_nil_iff_forall_not_mem]
  intro name hn
  obtain ⟨directory, hl, -⟩ := ((mem_of_listing hlist).2 name).1 hn
  exact h.locate_ne_directory_of_touches ht true directory hl

theorem exists_listing (h : t.PlainFile f content) (hw : t.WellFormed) (hp : t.ProperNames)
    (hold : listing (t.removeBelow f) directories path = .ok old) :
    ∃ new, listing t directories path = .ok new ∧ t.Gains f path old new := by
  obtain ⟨hnul, hmem⟩ := mem_of_listing hold
  obtain ⟨new, hnew⟩ := Glob.exists_listing t directories hnul
  have hmem' := (mem_of_listing hnew).2
  refine ⟨new, hnew, fun name hn => ?_, fun name hn hnot => ?_⟩
  · obtain ⟨directory, hl, hname, hd⟩ := (hmem name).1 hn
    have ht : ¬ t.Touches f path := fun ht =>
      h.locate_removeBelow_of_touches ht true directory .directory hl
    rw [locate_removeBelow (h.avoids ht) h.ne_nil] at hl
    rw [h.isDirectory_removeBelow] at hd
    exact (hmem' name).2 ⟨directory, hl, (h.mem_namesIn_removeBelow_iff hw).1 hname |>.1, hd⟩
  · obtain ⟨directory, hl, hname, hd⟩ := (hmem' name).1 hn
    have ht : ¬ t.Touches f path := fun ht => h.locate_ne_directory_of_touches ht true directory hl
    have hproper := hp.of_mem_namesIn hname
    -- a name that is not the file's was there before
    have hf : directory ++ [name] = f := by
      by_contra hne
      refine hnot ((hmem name).2 ⟨directory, ?_, ?_, ?_⟩)
      · rwa [locate_removeBelow (h.avoids ht) h.ne_nil]
      · exact (h.mem_namesIn_removeBelow_iff hw).2 ⟨hname, hne⟩
      · rwa [h.isDirectory_removeBelow]
    exact ⟨h.designates_within hf.symm hproper hl, hnul, hproper.nul_not_mem⟩

/-! ## All below a directory -/

theorem below_of_touches (h : t.PlainFile f content) (ht : t.Touches f path)
    (hnul : '\x00' ∉ path) : below t directories depth path = .ok [] := by
  cases depth with
  | zero => rfl
  | succ depth =>
      obtain ⟨names, hlist⟩ := Glob.exists_listing t directories hnul
      have hnames := h.listing_of_touches ht hlist
      subst hnames
      exact below_succ_eq_ok_iff.2 ⟨[], hlist, [], rfl, rfl⟩

theorem exists_below (h : t.PlainFile f content) (hw : t.WellFormed) (hp : t.ProperNames)
    (hold : below (t.removeBelow f) directories depth path = .ok old) :
    ∃ new, below t directories depth path = .ok new ∧ t.Gains f path old new := by
  induction depth generalizing path old with
  | zero =>
      cases hold
      exact ⟨[], rfl, .refl _ _ _ _⟩
  | succ depth ih =>
      obtain ⟨oldNames, hlist, -⟩ := below_succ_eq_ok_iff.1 hold
      obtain ⟨newNames, hlist', hgain⟩ := h.exists_listing hw hp hlist
      have hnul := (mem_of_listing hlist).1
      have hproper : ∀ name ∈ newNames, name.IsProper := fun name =>
        isProper_of_mem_listing hp hlist'
      have hdeep := (exists_below_succ_iff hlist).1 ⟨old, hold⟩
      -- below a name that is new there is nothing
      have hfresh : ∀ name ∈ newNames, name ∉ oldNames →
          below t directories depth (within path name) = .ok [] := by
        intro name hn hnot
        obtain ⟨hd, -, hname⟩ := hgain.designates_of_new name hn hnot
        refine h.below_of_touches (h.touches_of_designates hd) fun hmem => ?_
        rcases mem_of_mem_within hmem with hmem | hmem | hmem
        · exact hnul hmem
        · exact hname hmem
        · cases hmem
      obtain ⟨new, hnew⟩ := (exists_below_succ_iff hlist').2 fun name hn hd => by
        by_cases ho : name ∈ oldNames
        · obtain ⟨inner, hinner⟩ := hdeep name ho hd
          obtain ⟨inner', hinner', -⟩ := ih hinner
          exact ⟨inner', hinner'⟩
        · exact ⟨[], hfresh name hn ho⟩
      refine ⟨new, hnew, fun x hx => ?_, fun x hx hnot => ?_⟩
      · obtain ⟨name, hn, hd, inner, hinner, hx⟩ := (mem_of_below_succ hold hlist x).1 hx
        obtain ⟨inner', hinner', hsub, -⟩ := ih hinner
        exact (mem_of_below_succ hnew hlist' x).2 ⟨name, hgain.subset hn, hd, inner', hinner',
          hx.imp_right fun ⟨y, hy, hxy⟩ => ⟨y, hsub hy, hxy⟩⟩
      · obtain ⟨name, hn, hd, inner, hinner, hx⟩ := (mem_of_below_succ hnew hlist' x).1 hx
        by_cases ho : name ∈ oldNames
        · obtain ⟨inner', hinner'⟩ := hdeep name ho hd
          obtain ⟨_, hinner'', hinside⟩ := ih hinner'
          rw [hinner] at hinner''
          cases hinner''
          have hback : ∀ z, (z = name ∨ ∃ y ∈ inner', z = within name y) → z ∈ old :=
            fun z hz => (mem_of_below_succ hold hlist z).2 ⟨name, ho, hd, inner', hinner', hz⟩
          obtain rfl | ⟨y, hy, rfl⟩ := hx
          · exact absurd (hback x (.inl rfl)) hnot
          · obtain ⟨hd, -, hy⟩ := hinside.designates_of_new y hy fun hy' =>
              hnot (hback _ (.inr ⟨y, hy', rfl⟩))
            have heq : Path.ofText (within (within path name) y) =
                .ofText (within path (within name y)) := by
              simp only [Path.ofText_within, Path.join_assoc]
            refine ⟨(designates_congr heq).1 hd, hnul, fun hmem => ?_⟩
            rcases mem_of_mem_within hmem with hmem | hmem | hmem
            · exact (hproper name hn).nul_not_mem hmem
            · exact hy hmem
            · cases hmem
        · rw [hfresh name hn ho] at hinner
          cases hinner
          obtain rfl | ⟨y, hy, -⟩ := hx
          · exact hgain.designates_of_new x hn ho
          · cases hy

/-! ## Segments -/

theorem isDirectory_of_touches (h : t.PlainFile f content) (ht : t.Touches f path) :
    t.isDirectory path = false := by
  rw [← h.isDirectory_removeBelow, FileTree.isDirectory, h.entryAt?_removeBelow_of_touches ht]

theorem exists_segmentMatches_of_designates (h : t.PlainFile f content)
    (hd : t.Designates f path) (hnul : '\x00' ∉ path) (hs : segment.SlashFree) :
    ∃ names, segmentMatches t directories path segment = .ok names ∧
      ∀ name ∈ names, t.DesignatesBehind f path name := by
  have ht := h.touches_of_designates hd
  cases segment with
  | name name =>
      cases name with
      | nil =>
          refine ⟨_, rfl, ?_⟩
          rw [h.isDirectory_of_touches ht]
          simp
      | cons c rest =>
          refine ⟨_, segmentMatches.eq_2 t directories path (c :: rest) (by simp), fun x hx => ?_⟩
          split at hx
          · rename_i hnamed
            rw [List.mem_singleton.1 hx]
            have hhead : (c :: rest).head? ≠ some '/' := fun hhead =>
              hs (List.mem_of_head? hhead)
            have hlonger := h.touches_of_join ht hhead (Path.ofText_within path (c :: rest))
            exact ⟨h.designates_of_isNamed hlonger hnamed, hnul,
              fun hmem => nul_not_mem_of_isNamed hnamed (mem_within_of_mem_right hmem)⟩
          · cases hx
  | depth =>
      refine ⟨[[]], ?_, ?_⟩
      · rw [segmentMatches, h.below_of_touches ht hnul]
        rfl
      · rw [List.forall_mem_singleton]
        have heq : Path.ofText (within path []) = .ofText path := by
          rw [Path.ofText_within, Path.ofText_nil, Path.join_of_relative _ rfl, List.append_nil]
        exact ⟨(designates_congr heq).2 hd, hnul, List.not_mem_nil⟩
  | pattern wildcards dotted =>
      obtain ⟨names, hlist⟩ := Glob.exists_listing t directories hnul
      have hnames := h.listing_of_touches ht hlist
      subst hnames
      refine ⟨[], ?_, by simp⟩
      rw [segmentMatches, hlist]
      rfl

theorem exists_segmentMatches (h : t.PlainFile f content) (hw : t.WellFormed)
    (hp : t.ProperNames) (hs : segment.SlashFree)
    (hold : segmentMatches (t.removeBelow f) directories path segment = .ok old) :
    ∃ new, segmentMatches t directories path segment = .ok new ∧ t.Gains f path old new := by
  cases segment with
  | name name =>
      cases name with
      | nil =>
          rw [segmentMatches, h.isDirectory_removeBelow] at hold
          exact ⟨old, hold, .refl _ _ _ _⟩
      | cons c rest =>
          rw [segmentMatches.eq_2 _ _ _ _ (by simp)] at hold
          cases hold
          refine ⟨_, segmentMatches.eq_2 t directories path (c :: rest) (by simp),
            fun x hx => ?_, fun x hx hnot => ?_⟩
          · split at hx
            · rename_i hnamed
              rwa [if_pos ((h.isNamed_iff _).1 hnamed).1]
            · cases hx
          · split at hx
            · rename_i hnamed
              rw [List.mem_singleton.1 hx] at hnot ⊢
              have hnul := nul_not_mem_of_isNamed hnamed
              have hhead : (c :: rest).head? ≠ some '/' := fun hhead =>
                hs (List.mem_of_head? hhead)
              refine ⟨h.designates_of_isNamed ?_ hnamed,
                fun hmem => hnul (mem_within_of_mem_left hhead hmem),
                fun hmem => hnul (mem_within_of_mem_right hmem)⟩
              by_contra ht
              rw [if_pos ((h.isNamed_iff _).2 ⟨hnamed, ht⟩)] at hnot
              exact hnot List.mem_cons_self
            · cases hx
  | depth =>
      simp only [segmentMatches, bind_eq_ok_iff, pure_eq_ok_iff] at hold
      obtain ⟨found, hbelow, rfl⟩ := hold
      obtain ⟨found', hbelow', hgain⟩ := h.exists_below hw hp hbelow
      refine ⟨[] :: found', ?_, List.cons_subset_cons _ hgain.subset, fun x hx hnot => ?_⟩
      · simp only [segmentMatches, hbelow']
        rfl
      · rcases List.mem_cons.1 hx with rfl | hx
        · exact absurd List.mem_cons_self hnot
        · exact hgain.designates_of_new x hx fun hx' => hnot (List.mem_cons_of_mem _ hx')
  | pattern wildcards dotted =>
      simp only [segmentMatches, bind_eq_ok_iff, pure_eq_ok_iff] at hold
      obtain ⟨found, hlist, rfl⟩ := hold
      obtain ⟨found', hlist', hgain⟩ := h.exists_listing hw hp hlist
      refine ⟨found'.filter fun n => (dotted || !isDotted n) && Wildcard.matchesAll wildcards n,
        ?_, fun x hx => ?_, fun x hx hnot => ?_⟩
      · simp only [segmentMatches, hlist']
        rfl
      · obtain ⟨hx, hmatch⟩ := List.mem_filter.1 hx
        exact List.mem_filter.2 ⟨hgain.subset hx, hmatch⟩
      · obtain ⟨hx, hmatch⟩ := List.mem_filter.1 hx
        exact hgain.designates_of_new x hx fun hx' => hnot (List.mem_filter.2 ⟨hx', hmatch⟩)

/-! ## Patterns -/

theorem designates_of_designatesBehind {name : List Char}
    (hn : t.DesignatesBehind f (within root path) name) :
    t.Designates f (within root (attach path name)) ∧
      '\x00' ∉ within root (attach path name) := by
  have heq : Path.ofText (within (within root path) name) =
      .ofText (within root (attach path name)) := by
    simp only [Path.ofText_within, Path.ofText_attach_eq_join, Path.join_assoc]
  refine ⟨(designates_congr heq).1 hn.designates, fun hmem => ?_⟩
  rcases mem_of_mem_within_attach hmem with hmem | hmem | hmem
  · exact hn.nul_not_mem_path hmem
  · exact hn.nul_not_mem hmem
  · cases hmem

theorem exists_extend (h : t.PlainFile f content) (hw : t.WellFormed) (hp : t.ProperNames)
    {segments : List Segment} (hs : ∀ segment ∈ segments, segment.SlashFree)
    {result : List (List Char)} (hgain : t.GainsFrom f root old new)
    (hold : extend (t.removeBelow f) root segments old = .ok result) :
    ∃ result', extend t root segments new = .ok result' ∧ t.GainsFrom f root result result' := by
  induction segments generalizing old new with
  | nil =>
      cases hold
      exact ⟨new, rfl, hgain⟩
  | cons segment rest ih =>
      obtain ⟨parts, hparts, hold⟩ := extend_cons_eq_ok_iff.1 hold
      have hseg := hs segment List.mem_cons_self
      have hok := exists_mapM_segmentMatches_iff.1 ⟨parts, hparts⟩
      have hfresh : ∀ path ∈ new, path ∉ old → ∃ names,
          segmentMatches t (!rest.isEmpty) (within root path) segment = .ok names ∧
            ∀ name ∈ names, t.DesignatesBehind f (within root path) name := fun path hpath hnot =>
        have hd := hgain.designates_of_new path hpath hnot
        h.exists_segmentMatches_of_designates hd.1 hd.2 hseg
      obtain ⟨parts', hparts'⟩ := exists_mapM_segmentMatches_iff.2 fun path hpath => by
        by_cases ho : path ∈ old
        · obtain ⟨names, hnames⟩ := hok path ho
          obtain ⟨names', hnames', -⟩ := h.exists_segmentMatches hw hp hseg hnames
          exact ⟨names', hnames'⟩
        · obtain ⟨names, hnames, -⟩ := hfresh path hpath ho
          exact ⟨names, hnames⟩
      have hgain' : t.GainsFrom f root parts.flatten parts'.flatten := by
        refine ⟨fun x hx => ?_, fun x hx hnot => ?_⟩
        · obtain ⟨path, hpath, names, hnames, name, hn, hx⟩ :=
            (mem_of_mapM_segmentMatches hparts x).1 hx
          obtain ⟨names', hnames', hsub, -⟩ := h.exists_segmentMatches hw hp hseg hnames
          exact (mem_of_mapM_segmentMatches hparts' x).2
            ⟨path, hgain.subset hpath, names', hnames', name, hsub hn, hx⟩
        · obtain ⟨path, hpath, names, hnames, name, hn, rfl⟩ :=
            (mem_of_mapM_segmentMatches hparts' x).1 hx
          apply designates_of_designatesBehind
          by_cases ho : path ∈ old
          · obtain ⟨names', hnames'⟩ := hok path ho
            obtain ⟨_, hnames'', hgain'⟩ := h.exists_segmentMatches hw hp hseg hnames'
            rw [hnames] at hnames''
            cases hnames''
            exact hgain'.designates_of_new name hn fun hn' => hnot
              ((mem_of_mapM_segmentMatches hparts _).2 ⟨path, ho, names', hnames', name, hn', rfl⟩)
          · obtain ⟨_, hnames', hbehind⟩ := hfresh path hpath ho
            rw [hnames] at hnames'
            cases hnames'
            exact hbehind name hn
      obtain ⟨result', hnew, hresult⟩ :=
        ih (fun segment hmem => hs segment (List.mem_cons_of_mem _ hmem)) hgain' hold
      exact ⟨result', extend_cons_eq_ok_iff.2 ⟨parts', hparts', hnew⟩, hresult⟩

theorem gainsFrom_plainMatches (h : t.PlainFile f content) (root text : List Char) :
    t.GainsFrom f root (plainMatches (t.removeBelow f) root text) (plainMatches t root text) := by
  simp only [plainMatches]
  split
  · rw [h.isDirectory_removeBelow]
    exact .refl _ _ _ _
  · refine ⟨fun x hx => ?_, fun x hx hnot => ?_⟩
    · split at hx
      · rename_i hnamed
        rwa [if_pos ((h.isNamed_iff _).1 hnamed).1]
      · cases hx
    · split at hx
      · rename_i hnamed
        rw [List.mem_singleton.1 hx] at hnot ⊢
        refine ⟨h.designates_of_isNamed ?_ hnamed, nul_not_mem_of_isNamed hnamed⟩
        by_contra ht
        rw [if_pos ((h.isNamed_iff _).2 ⟨hnamed, ht⟩)] at hnot
        exact hnot List.mem_cons_self
      · cases hx

theorem exists_allMatches (h : t.PlainFile f content) (hw : t.WellFormed) (hp : t.ProperNames)
    {text : List Char} (hold : allMatches (t.removeBelow f) root text = .ok old) :
    ∃ new, allMatches t root text = .ok new ∧ t.GainsFrom f root old new := by
  rw [allMatches] at hold ⊢
  split at hold
  · rename_i hocc
    rw [if_pos hocc]
    exact h.exists_extend hw hp (fun _ => slashFree_of_mem_segments) (.refl _ _ _ _) hold
  · rename_i hocc
    rw [if_neg hocc]
    split at hold
    · rename_i hempty
      rw [if_pos hempty]
      exact ⟨old, hold, .refl _ _ _ _⟩
    · rename_i hempty
      rw [if_neg hempty]
      cases hold
      exact ⟨_, rfl, h.gainsFrom_plainMatches root text⟩

theorem properNames_removeBelow (hp : t.ProperNames) (f : Location) :
    (t.removeBelow f).ProperNames :=
  fun e he => hp e (List.mem_of_mem_filter he)

/-- With one more file a pattern matches what it matched, and beyond that only paths that
designate the file. -/
theorem exists_matchesOf (h : t.PlainFile f content) (hw : t.WellFormed) (hp : t.ProperNames)
    {text : List Char} (hold : matchesOf (t.removeBelow f) root text = .ok old) :
    ∃ new, matchesOf t root text = .ok new ∧ old ⊆ new ∧
      ∀ x ∈ new, x ∉ old → t.Designates f (within root x) := by
  obtain ⟨all, hall, hmem⟩ := mem_of_matchesOf (properNames_removeBelow hp f) hold
  obtain ⟨all', hall', hgain⟩ := h.exists_allMatches hw hp hall
  obtain ⟨new, hnew⟩ : ∃ new, matchesOf t root text = .ok new := by
    rw [matchesOf_eq_bind, hall']
    exact ⟨_, rfl⟩
  obtain ⟨_, hall'', hmem'⟩ := mem_of_matchesOf hp hnew
  rw [hall'] at hall''
  cases hall''
  refine ⟨new, hnew, fun x hx => ?_, fun x hx hnot => ?_⟩
  · obtain ⟨hx, hne⟩ := (hmem x).1 hx
    exact (hmem' x).2 ⟨hgain.subset hx, hne⟩
  · obtain ⟨hx, hne⟩ := (hmem' x).1 hx
    exact (hgain.designates_of_new x hx fun hx' => hnot ((hmem x).2 ⟨hx', hne⟩)).1

end PlainFile

end FileTree

end FrontLint
