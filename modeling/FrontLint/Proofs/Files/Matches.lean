import FrontLint.Files.Glob
import FrontLint.Proofs.Files.Added
import FrontLint.Proofs.Files.Result

/-!
# Matches

What is matched, read off the results: the names of a listing, all below a directory, what a
segment adds to the paths found so far. Names in a tree are not empty, so the empty match, which
is left out, can only be the first one.
-/

namespace FrontLint

namespace Glob

variable {t : FileTree} {directories : Bool} {depth : Nat} {path root : List Char}
  {names found : List (List Char)}

theorem attach_ne_nil {a : List Char} (b : List Char) (ha : a ≠ []) : attach a b ≠ [] := by
  rw [attach]
  split
  · rintro rfl
    simp_all
  · split <;> simp [ha]

theorem attach_eq_nil {a b : List Char} (h : attach a b = []) : b = [] := by
  by_cases ha : a = []
  · subst ha
    rw [attach] at h
    split at h <;> simpa using h
  · exact absurd h (attach_ne_nil b ha)

theorem within_ne_nil {a : List Char} (b : List Char) (ha : a ≠ []) : within a b ≠ [] := by
  rw [within, if_neg (by simpa using ha)]
  split
  · exact ha
  · exact attach_ne_nil b ha

theorem exists_listing (t : FileTree) (directories : Bool) (hnul : '\x00' ∉ path) :
    ∃ names, listing t directories path = .ok names := by
  rw [listing, FileTree.list, if_neg (by simpa using hnul)]
  split
  · exact ⟨_, rfl⟩
  · rename_i h
    split at h <;> cases h
  · exact ⟨_, rfl⟩

theorem mem_of_listing (h : listing t directories path = .ok names) :
    '\x00' ∉ path ∧ ∀ name, name ∈ names ↔
      ∃ directory, t.locate true path = .found directory .directory ∧
        name ∈ t.namesIn directory ∧
        (directories = true → t.isDirectory (attach path name) = true) := by
  rw [listing, FileTree.list] at h
  split at h
  · rename_i hlist
    split at hlist
    · cases hlist
    · rename_i hnul
      refine ⟨by simpa using hnul, fun name => ?_⟩
      split at hlist <;> cases hlist
      rename_i directory hl
      cases h
      cases directories <;> simp [hl]
  · cases h
  · rename_i hlist
    cases h
    split at hlist
    · cases hlist
    · rename_i hnul
      refine ⟨by simpa using hnul, fun name => ?_⟩
      simp only [List.not_mem_nil, false_iff]
      rintro ⟨directory, hl, -⟩
      rw [hl] at hlist
      cases hlist

/-- What is below a directory: each name in it that is not dotted, and what is below that. -/
theorem below_succ_eq_ok_iff :
    below t directories (depth + 1) path = .ok found ↔
      ∃ names, listing t directories path = .ok names ∧
        ∃ parts, (names.filter fun n => !isDotted n).mapM (fun n => do
          let inner ← below t directories depth (within path n)
          return n :: inner.map (within n)) = .ok parts ∧ parts.flatten = found := by
  rw [below]
  simp only [bind_eq_ok_iff, pure_eq_ok_iff]

theorem mem_of_below_succ (h : below t directories (depth + 1) path = .ok found)
    (hlist : listing t directories path = .ok names) (x : List Char) :
    x ∈ found ↔ ∃ name ∈ names, isDotted name = false ∧
      ∃ inner, below t directories depth (within path name) = .ok inner ∧
        (x = name ∨ ∃ y ∈ inner, x = within name y) := by
  obtain ⟨_, hlist', parts, hparts, rfl⟩ := below_succ_eq_ok_iff.1 h
  rw [hlist] at hlist'
  cases hlist'
  simp only [List.mem_flatten, mem_of_mapM_eq_ok hparts, bind_eq_ok_iff, pure_eq_ok_iff,
    List.mem_filter, Bool.not_eq_true']
  constructor
  · rintro ⟨_, ⟨name, ⟨hn, hd⟩, inner, hinner, rfl⟩, hx⟩
    refine ⟨name, hn, hd, inner, hinner, ?_⟩
    rcases List.mem_cons.1 hx with rfl | hx
    · exact .inl rfl
    · obtain ⟨y, hy, rfl⟩ := List.mem_map.1 hx
      exact .inr ⟨y, hy, rfl⟩
  · rintro ⟨name, hn, hd, inner, hinner, hx⟩
    refine ⟨_, ⟨name, ⟨hn, hd⟩, inner, hinner, rfl⟩, ?_⟩
    rcases hx with rfl | ⟨y, hy, rfl⟩
    · exact List.mem_cons_self
    · exact List.mem_cons_of_mem _ (List.mem_map_of_mem hy)

theorem exists_below_succ_iff (hlist : listing t directories path = .ok names) :
    (∃ found, below t directories (depth + 1) path = .ok found) ↔
      ∀ name ∈ names, isDotted name = false →
        ∃ inner, below t directories depth (within path name) = .ok inner := by
  have hparts : (∃ parts, (names.filter fun n => !isDotted n).mapM (fun n => do
      let inner ← below t directories depth (within path n)
      return n :: inner.map (within n)) = .ok parts) ↔ _ := exists_mapM_eq_ok_iff
  simp only [bind_eq_ok_iff, pure_eq_ok_iff, List.mem_filter, Bool.not_eq_true',
    and_imp] at hparts
  constructor
  · rintro ⟨found, h⟩ name hn hd
    obtain ⟨_, hlist', parts, hmap, -⟩ := below_succ_eq_ok_iff.1 h
    rw [hlist] at hlist'
    cases hlist'
    obtain ⟨_, inner, hinner, -⟩ := hparts.1 ⟨parts, hmap⟩ name hn hd
    exact ⟨inner, hinner⟩
  · intro h
    obtain ⟨parts, hmap⟩ := hparts.2 fun name hn hd =>
      (h name hn hd).elim fun inner hinner => ⟨_, inner, hinner, rfl⟩
    exact ⟨_, below_succ_eq_ok_iff.2 ⟨names, hlist, parts, hmap, rfl⟩⟩

/-- One segment more: what the found paths are extended to. -/
theorem extend_cons_eq_ok_iff {segment : Segment} {rest : List Segment}
    {result : List (List Char)} :
    extend t root (segment :: rest) found = .ok result ↔
      ∃ parts, found.mapM (fun path => do
          let names ← segmentMatches t (!rest.isEmpty) (within root path) segment
          return names.map (attach path)) = .ok parts ∧
        extend t root rest parts.flatten = .ok result := by
  rw [extend]
  simp only [bind_eq_ok_iff]

theorem mem_of_mapM_segmentMatches {segment : Segment} {parts : List (List (List Char))}
    (h : found.mapM (fun path => do
      let names ← segmentMatches t directories (within root path) segment
      return names.map (attach path)) = .ok parts) (x : List Char) :
    x ∈ parts.flatten ↔ ∃ path ∈ found, ∃ names,
      segmentMatches t directories (within root path) segment = .ok names ∧
        ∃ name ∈ names, attach path name = x := by
  simp only [List.mem_flatten, mem_of_mapM_eq_ok h, bind_eq_ok_iff, pure_eq_ok_iff]
  constructor
  · rintro ⟨_, ⟨path, hpath, names, hnames, rfl⟩, hx⟩
    obtain ⟨name, hn, rfl⟩ := List.mem_map.1 hx
    exact ⟨path, hpath, names, hnames, name, hn, rfl⟩
  · rintro ⟨path, hpath, names, hnames, name, hn, rfl⟩
    exact ⟨_, ⟨path, hpath, names, hnames, rfl⟩, List.mem_map_of_mem hn⟩

theorem exists_mapM_segmentMatches_iff {segment : Segment} :
    (∃ parts, found.mapM (fun path => do
      let names ← segmentMatches t directories (within root path) segment
      return names.map (attach path)) = .ok parts) ↔
      ∀ path ∈ found, ∃ names,
        segmentMatches t directories (within root path) segment = .ok names := by
  rw [exists_mapM_eq_ok_iff]
  simp only [bind_eq_ok_iff, pure_eq_ok_iff]
  refine forall₂_congr fun path _ => ⟨?_, ?_⟩
  · rintro ⟨_, names, h, -⟩
    exact ⟨names, h⟩
  · rintro ⟨names, h⟩
    exact ⟨_, names, h, rfl⟩

/-! ## The empty match -/

theorem isProper_of_mem_listing (hp : t.ProperNames)
    (h : listing t directories path = .ok names) {name : FileName} (hn : name ∈ names) :
    name.IsProper := by
  obtain ⟨directory, -, hmem, -⟩ := ((mem_of_listing h).2 name).1 hn
  exact hp.of_mem_namesIn hmem

theorem nil_not_mem_below (hp : t.ProperNames)
    (h : below t directories depth path = .ok found) : [] ∉ found := by
  cases depth with
  | zero =>
      cases h
      exact List.not_mem_nil
  | succ depth =>
      obtain ⟨names, hlist, -⟩ := below_succ_eq_ok_iff.1 h
      rw [mem_of_below_succ h hlist]
      rintro ⟨name, hn, -, inner, -, hx⟩
      have hne := (isProper_of_mem_listing hp hlist hn).isPlain.isRead.ne_nil
      rcases hx with rfl | ⟨y, -, hx⟩
      · exact hne rfl
      · exact within_ne_nil y hne hx.symm

/-- Only the first match of a segment can be empty. -/
theorem nil_not_mem_tail_segmentMatches (hp : t.ProperNames) {segment : Segment}
    (h : segmentMatches t directories path segment = .ok names) : [] ∉ names.tail := by
  cases segment with
  | name name =>
      cases name with
      | nil =>
          rw [segmentMatches] at h
          cases h
          split <;> simp
      | cons c rest =>
          rw [segmentMatches] at h
          · cases h
            split <;> simp
          · simp
  | depth =>
      rw [segmentMatches] at h
      simp only [bind_eq_ok_iff, pure_eq_ok_iff] at h
      obtain ⟨found, hbelow, rfl⟩ := h
      exact nil_not_mem_below hp hbelow
  | pattern wildcards dotted =>
      rw [segmentMatches] at h
      simp only [bind_eq_ok_iff, pure_eq_ok_iff] at h
      obtain ⟨all, hlist, rfl⟩ := h
      intro hnil
      have hmem := List.mem_of_mem_filter (List.mem_of_mem_tail hnil)
      exact (isProper_of_mem_listing hp hlist hmem).isPlain.isRead.ne_nil rfl

/-- Only the first match of a pattern can be empty. -/
theorem nil_not_mem_tail_extend (hp : t.ProperNames) {segments : List Segment}
    {result : List (List Char)} (h : extend t root segments found = .ok result)
    (hfound : [] ∉ found.tail) : [] ∉ result.tail := by
  induction segments generalizing found with
  | nil =>
      cases h
      exact hfound
  | cons segment rest ih =>
      obtain ⟨parts, hparts, h⟩ := extend_cons_eq_ok_iff.1 h
      refine ih h ?_
      cases found with
      | nil =>
          cases hparts
          exact List.not_mem_nil
      | cons path more =>
          obtain ⟨part, hpart, others, hothers, rfl⟩ := mapM_cons_eq_ok_iff.1 hparts
          simp only [bind_eq_ok_iff, pure_eq_ok_iff] at hpart
          obtain ⟨names, hnames, rfl⟩ := hpart
          have hrest : [] ∉ others.flatten := by
            rw [mem_of_mapM_segmentMatches hothers]
            rintro ⟨other, hother, -, -, name, -, hnil⟩
            exact attach_ne_nil name (fun hn => hfound (hn ▸ hother)) hnil
          have hfirst : [] ∉ (names.map (attach path)).tail := by
            rw [← List.map_tail]
            intro hmem
            obtain ⟨name, hn, hnil⟩ := List.mem_map.1 hmem
            exact nil_not_mem_tail_segmentMatches hp hnames (attach_eq_nil hnil ▸ hn)
          intro hmem
          cases names with
          | nil => exact hrest (List.mem_of_mem_tail hmem)
          | cons name names =>
              rcases List.mem_append.1 hmem with hmem | hmem
              · exact hfirst hmem
              · exact hrest hmem

/-- The matches of a pattern, with the empty one. -/
def allMatches (t : FileTree) (root text : List Char) : Except FileFault (List (List Char)) :=
  if Wildcard.occurIn text then extend t root (ofText text).segments [(ofText text).start]
  else if text.isEmpty then .ok []
  else .ok (plainMatches t root text)

theorem matchesOf_eq_bind (t : FileTree) (root text : List Char) :
    matchesOf t root text = (do
      let found ← allMatches t root text
      return if found.head? = some [] then found.tail else found) := by
  rw [matchesOf, allMatches]
  split
  · rfl
  · split <;> rfl

theorem mem_of_matchesOf (hp : t.ProperNames) {text : List Char}
    (h : matchesOf t root text = .ok found) :
    ∃ all, allMatches t root text = .ok all ∧ ∀ x, x ∈ found ↔ x ∈ all ∧ x ≠ [] := by
  rw [matchesOf_eq_bind, bind_eq_ok_iff] at h
  simp only [pure_eq_ok_iff] at h
  obtain ⟨all, hmatches, rfl⟩ := h
  have htail : [] ∉ all.tail := by
    rw [allMatches] at hmatches
    split at hmatches
    · exact nil_not_mem_tail_extend hp hmatches List.not_mem_nil
    · split at hmatches
      · cases hmatches
        exact List.not_mem_nil
      · cases hmatches
        simp [plainMatches, apply_ite List.tail]
  refine ⟨all, hmatches, fun x => ?_⟩
  cases all with
  | nil => simp
  | cons first rest =>
      by_cases hfirst : first = []
      · subst hfirst
        simp only [List.head?_cons, if_true, List.tail_cons, List.mem_cons]
        constructor
        · exact fun hx => ⟨.inr hx, fun hnil => htail (hnil ▸ hx)⟩
        · exact fun hx => hx.1.resolve_left hx.2
      · have hhead : (first :: rest).head? ≠ some [] := by simpa using hfirst
        rw [if_neg hhead]
        refine (and_iff_left_of_imp ?_).symm
        rintro hx rfl
        rcases List.mem_cons.1 hx with rfl | hx
        · exact hfirst rfl
        · exact htail hx

end Glob

end FrontLint
