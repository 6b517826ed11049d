import FrontLint.Files.Selection
import FrontLint.Proofs.Files.Result
import Mathlib.Data.Char
import Mathlib.Data.List.Lex

/-!
# Selected files

Every selected file is a regular file of the tree, and so can be read. What a pattern adds to
the selection is in the order of code points and free of repetitions.
-/

namespace FrontLint

namespace Selection

theorem inOrder_iff {a b : List Char} : inOrder a b = true ↔ a ≤ b := by
  have hlt : ∀ x y : Char, decide (x.toNat < y.toNat) = true ↔ x < y := by
    intro x y
    rw [decide_eq_true_iff]
    rfl
  rw [inOrder, Bool.not_eq_true', ← not_lt, Bool.eq_false_iff, Ne,
    List.lex_eq_true_iff_lex]
  simp only [hlt]
  rfl

theorem pairwise_ordered (found : List (List Char)) : (ordered found).Pairwise (· ≤ ·) := by
  refine (List.pairwise_mergeSort (fun a b c hab hbc => ?_) (fun a b => ?_) found).imp inOrder_iff.1
  · exact inOrder_iff.2 ((inOrder_iff.1 hab).trans (inOrder_iff.1 hbc))
  · rw [Bool.or_eq_true, inOrder_iff, inOrder_iff]
    exact le_total a b

theorem mem_ordered {found : List (List Char)} {x : List Char} :
    x ∈ ordered found ↔ x ∈ found := List.mem_mergeSort

/-- Add an item at the end if it is new and wanted. -/
def add {α ε : Type} [DecidableEq α] (wanted : α → Except ε Bool) (chosen : List α) (item : α) :
    Except ε (List α) :=
  if item ∈ chosen then .ok chosen
  else do return if ← wanted item then chosen ++ [item] else chosen

section add

variable {α ε : Type} [DecidableEq α] {wanted : α → Except ε Bool} {found chosen next : List α}

theorem add_eq_ok_iff {item : α} :
    add wanted chosen item = .ok next ↔
      item ∈ chosen ∧ chosen = next ∨
      item ∉ chosen ∧ (wanted item = .ok true ∧ chosen ++ [item] = next ∨
        wanted item = .ok false ∧ chosen = next) := by
  by_cases hmem : item ∈ chosen
  · simp [add, hmem]
  · cases hw : wanted item with
    | error fault => simp [add, hmem, hw, bind, Except.bind]
    | ok regular => cases regular <;> simp [add, hmem, hw, bind, Except.bind, pure, Except.pure]

/-- What is added to the chosen items: those that are wanted and new, each once. -/
theorem exists_foldlM_add (h : found.foldlM (add wanted) chosen = .ok next) :
    ∃ fresh, next = chosen ++ fresh ∧ fresh.Sublist found ∧ fresh.Nodup ∧
      ∀ x, x ∈ fresh ↔ x ∈ found ∧ wanted x = .ok true ∧ x ∉ chosen := by
  induction found generalizing chosen with
  | nil =>
      cases h
      exact ⟨[], by simp⟩
  | cons first found ih =>
      obtain ⟨middle, hfirst, h⟩ := foldlM_cons_eq_ok_iff.1 h
      obtain ⟨fresh, rfl, hsub, hnodup, hfresh⟩ := ih h
      rcases add_eq_ok_iff.1 hfirst with ⟨hmem, rfl⟩ | ⟨hmem, ⟨hw, rfl⟩ | ⟨hw, rfl⟩⟩
      · refine ⟨fresh, rfl, hsub.cons _, hnodup, fun x => ?_⟩
        rw [hfresh, List.mem_cons]
        constructor
        · rintro ⟨hx, hnew⟩
          exact ⟨.inr hx, hnew⟩
        · rintro ⟨rfl | hx, hnew⟩
          · exact absurd hmem hnew.2
          · exact ⟨hx, hnew⟩
      · refine ⟨first :: fresh, by simp, hsub.cons_cons _, ?_, fun x => ?_⟩
        · refine List.nodup_cons.2 ⟨fun hx => ?_, hnodup⟩
          exact ((hfresh first).1 hx).2.2 (by simp)
        · rw [List.mem_cons, hfresh, List.mem_cons, List.mem_append, List.mem_singleton]
          by_cases hx : x = first
          · subst hx
            simp [hw, hmem]
          · simp [hx]
      · refine ⟨fresh, rfl, hsub.cons _, hnodup, fun x => ?_⟩
        rw [hfresh, List.mem_cons]
        constructor
        · rintro ⟨hx, hnew⟩
          exact ⟨.inr hx, hnew⟩
        · rintro ⟨rfl | hx, hnew⟩
          · rw [hw] at hnew
            cases hnew.1
          · exact ⟨hx, hnew⟩

/-- Items can be added if it is known of each that is new whether it is wanted. -/
theorem exists_foldlM_add_iff : (∃ next, found.foldlM (add wanted) chosen = .ok next) ↔
    ∀ x ∈ found, x ∉ chosen → ∃ answer, wanted x = .ok answer := by
  induction found generalizing chosen with
  | nil => exact iff_of_true ⟨chosen, rfl⟩ (List.forall_mem_nil _)
  | cons first found ih =>
      simp only [foldlM_cons_eq_ok_iff, List.forall_mem_cons]
      constructor
      · rintro ⟨next, middle, hfirst, h⟩
        have hrest := ih.1 ⟨next, h⟩
        rcases add_eq_ok_iff.1 hfirst with ⟨hmem, rfl⟩ | ⟨hmem, ⟨hw, rfl⟩ | ⟨hw, rfl⟩⟩
        · exact ⟨fun hnot => absurd hmem hnot, hrest⟩
        · refine ⟨fun _ => ⟨true, hw⟩, fun x hx hnot => ?_⟩
          by_cases heq : x = first
          · exact ⟨true, heq ▸ hw⟩
          · exact hrest x hx (by simp [hnot, heq])
        · exact ⟨fun _ => ⟨false, hw⟩, hrest⟩
      · rintro ⟨hfirst, hrest⟩
        have hstep : ∃ middle, add wanted chosen first = .ok middle ∧ chosen ⊆ middle := by
          by_cases hmem : first ∈ chosen
          · exact ⟨chosen, add_eq_ok_iff.2 (.inl ⟨hmem, rfl⟩), List.Subset.refl _⟩
          · obtain ⟨answer, hw⟩ := hfirst hmem
            cases answer with
            | true =>
                exact ⟨_, add_eq_ok_iff.2 (.inr ⟨hmem, .inl ⟨hw, rfl⟩⟩),
                  List.subset_append_left _ _⟩
            | false =>
                exact ⟨_, add_eq_ok_iff.2 (.inr ⟨hmem, .inr ⟨hw, rfl⟩⟩), List.Subset.refl _⟩
        obtain ⟨middle, hmiddle, hsub⟩ := hstep
        obtain ⟨next, h⟩ := ih.2 fun x hx hnot => hrest x hx fun hmem => hnot (hsub hmem)
        exact ⟨next, middle, hmiddle, h⟩

end add

/-- Add the wanted ones of the matches that are listed for a pattern. -/
def addListed (listing : List Char → Except FileFault (List (List Char)))
    (wanted : List Char → Except FileFault Bool) (chosen : List (List Char))
    (pattern : List Char) : Except FileFault (List (List Char)) := do
  let found ← listing pattern
  (ordered found).foldlM (add wanted) chosen

/-- The files that patterns select among the matches that a listing gives. -/
def ofListings (listing : List Char → Except FileFault (List (List Char)))
    (wanted : List Char → Except FileFault Bool) (patterns : List (List Char)) :
    Except FileFault (List (List Char)) :=
  patterns.foldlM (addListed listing wanted) []

/-! ## The matches that are seen -/

/-- The matches that are seen are the files that are listed, so these alone say what comes next. -/
theorem files_offer (regular : List Char → Except FileFault Bool) (s : Selection)
    (file : List Char) : (s.offer regular file).map files = add regular s.files file := by
  have hseen : s.seen.contains file = true ↔ file ∈ s.files :=
    List.contains_iff_mem.trans (s.mem_seen_iff file)
  rw [offer, add]
  by_cases hmem : file ∈ s.files
  · rw [if_pos hmem, if_pos (hseen.2 hmem)]
    rfl
  · rw [if_neg hmem, if_neg (mt hseen.1 hmem)]
    cases regular file with
    | error fault => rfl
    | ok answer => cases answer <;> rfl

theorem files_addPattern (t : FileTree) (base : Path) (s : Selection) (pattern : List Char) :
    (addPattern t base s pattern).map files =
      addListed (Glob.matchesOf t base.text) (isRegular t base) s.files pattern := by
  rw [addPattern, addListed]
  cases Glob.matchesOf t base.text pattern with
  | error fault => rfl
  | ok found => exact map_foldlM (files_offer (isRegular t base)) (ordered found) s

/-- A selection is made of the files that are listed alone. -/
theorem ofPatterns_eq_ofListings (t : FileTree) (base : Path) (patterns : List (List Char)) :
    ofPatterns t base patterns =
      ofListings (Glob.matchesOf t base.text) (isRegular t base) patterns :=
  map_foldlM (files_addPattern t base) patterns empty

/-! ## What is selected -/

section ofListings

variable {listing : List Char → Except FileFault (List (List Char))}
  {wanted : List Char → Except FileFault Bool} {patterns chosen next files : List (List Char)}
  {pattern file : List Char}

theorem addListed_eq_ok_iff :
    addListed listing wanted chosen pattern = .ok next ↔
      ∃ found, listing pattern = .ok found ∧
        (ordered found).foldlM (add wanted) chosen = .ok next := by
  simp only [addListed, bind_eq_ok_iff]

/-- More patterns add what is listed for them and wanted, each file once. -/
theorem mem_foldlM_iff (h : patterns.foldlM (addListed listing wanted) chosen = .ok files) :
    (chosen.Nodup → files.Nodup) ∧ ∀ file, file ∈ files ↔ file ∈ chosen ∨
      wanted file = .ok true ∧ ∃ pattern ∈ patterns, ∃ found,
        listing pattern = .ok found ∧ file ∈ found := by
  induction patterns generalizing chosen with
  | nil =>
      obtain rfl : chosen = files := Except.ok.inj h
      simp
  | cons pattern patterns ih =>
      obtain ⟨next, hp, h⟩ := foldlM_cons_eq_ok_iff.1 h
      obtain ⟨found, hfound, hadd⟩ := addListed_eq_ok_iff.1 hp
      obtain ⟨fresh, rfl, -, hnodup, hfresh⟩ := exists_foldlM_add hadd
      obtain ⟨hrest, hmem⟩ := ih h
      constructor
      · intro hchosen
        refine hrest (List.nodup_append.2 ⟨hchosen, hnodup, ?_⟩)
        rintro file hf _ hf' rfl
        exact ((hfresh file).1 hf').2.2 hf
      · intro file
        have hpattern : (∃ other ∈ pattern :: patterns, ∃ found,
            listing other = .ok found ∧ file ∈ found) ↔
              file ∈ found ∨ ∃ other ∈ patterns, ∃ found,
                listing other = .ok found ∧ file ∈ found := by
          simp [hfound]
        rw [hmem, List.mem_append, hfresh, hpattern, mem_ordered]
        by_cases hold : file ∈ chosen <;> simp [hold, and_or_left, and_comm]

/-- The selected files are the wanted ones of the matches. -/
theorem mem_ofListings_iff (h : ofListings listing wanted patterns = .ok files) :
    file ∈ files ↔ wanted file = .ok true ∧ ∃ pattern ∈ patterns, ∃ found,
      listing pattern = .ok found ∧ file ∈ found := by
  simpa using (mem_foldlM_iff h).2 file

theorem nodup_ofListings (h : ofListings listing wanted patterns = .ok files) : files.Nodup :=
  (mem_foldlM_iff h).1 List.nodup_nil

end ofListings

section ofPatterns

variable {t : FileTree} {base : Path} {patterns files : List (List Char)} {file : List Char}

/-- The selected files are the matches that are regular files. -/
theorem mem_ofPatterns_iff (h : ofPatterns t base patterns = .ok files) :
    file ∈ files ↔ isRegular t base file = .ok true ∧ ∃ pattern ∈ patterns, ∃ found,
      Glob.matchesOf t base.text pattern = .ok found ∧ file ∈ found :=
  mem_ofListings_iff ((ofPatterns_eq_ofListings t base patterns).symm.trans h)

theorem isRegular_of_mem (h : ofPatterns t base patterns = .ok files) (hf : file ∈ files) :
    isRegular t base file = .ok true :=
  ((mem_ofPatterns_iff h).1 hf).1

theorem nodup_ofPatterns (h : ofPatterns t base patterns = .ok files) : files.Nodup :=
  nodup_ofListings ((ofPatterns_eq_ofListings t base patterns).symm.trans h)

/-- Patterns that are the same but for their order and their repetitions select the same files
but for their order. -/
theorem ofPatterns_perm {patterns' files' : List (List Char)}
    (hsame : ∀ pattern, pattern ∈ patterns' ↔ pattern ∈ patterns)
    (h : ofPatterns t base patterns = .ok files) (h' : ofPatterns t base patterns' = .ok files') :
    files.Perm files' := by
  rw [List.perm_ext_iff_of_nodup (nodup_ofPatterns h) (nodup_ofPatterns h')]
  intro file
  simp only [mem_ofPatterns_iff h, mem_ofPatterns_iff h', hsame]

end ofPatterns

end Selection

theorem FileTree.isFile_eq_ok_true_iff {t : FileTree} {path : List Char} :
    t.isFile path = .ok true ↔
      '\x00' ∉ path ∧ ∃ location content, t.locate true path = .found location (.file content) := by
  by_cases hnul : '\x00' ∈ path
  · simp [isFile, hnul]
  · cases hl : t.locate true path with
    | found location entry => cases entry <;> simp [isFile, hnul, hl]
    | free directory name => simp [isFile, hnul, hl]
    | refused cause => cases cause <;> simp [isFile, hnul, hl, FileCause.isAbsence]

theorem FileTree.exists_read_of_isFile {t : FileTree} {path : List Char}
    (h : t.isFile path = .ok true) : ∃ content, t.read path = .ok content := by
  obtain ⟨hnul, location, content, hl⟩ := isFile_eq_ok_true_iff.1 h
  refine ⟨content, ?_⟩
  rw [read, if_neg (by simpa using hnul), hl]

end FrontLint
