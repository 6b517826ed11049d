import FrontLint.Note
import FrontLint.Proofs.Files.Selection
import Mathlib

/-!
# Selections by pattern lists

The files that a list of patterns selects, followed by what a second list selects and the first
does not, are those of the two lists together. A single pattern selects its regular matches in
strictly increasing order. Neither depends on how the matches of a pattern are listed.

## Implementation notes

The matches come from a listing that is a parameter, so nothing is assumed of their order or of
their repetitions. With the matches of globs these are the selections of runs.
-/

namespace FrontLint

namespace Selection

/-- Items in front of those of a second list that are not among them. -/
def followedBy {α : Type} [DecidableEq α] (first second : List α) : List α :=
  first ++ second.filter fun item => item ∉ first

section followedBy

variable {α : Type} [DecidableEq α] {first second third : List α} {item : α}

theorem mem_followedBy : item ∈ followedBy first second ↔ item ∈ first ∨ item ∈ second := by
  by_cases h : item ∈ first <;> simp [followedBy, h]

@[simp] theorem nil_followedBy (second : List α) : followedBy [] second = second := by
  simp [followedBy]

@[simp] theorem followedBy_nil (first : List α) : followedBy first [] = first := by
  simp [followedBy]

theorem followedBy_of_subset (h : second ⊆ first) : followedBy first second = first := by
  have hnone : second.filter (fun item => item ∉ first) = [] := by
    rw [List.filter_eq_nil_iff]
    intro item hitem
    simpa using h hitem
  rw [followedBy, hnone, List.append_nil]

theorem followedBy_assoc (first second third : List α) :
    followedBy (followedBy first second) third = followedBy first (followedBy second third) := by
  have hnew : third.filter (fun item => item ∉ followedBy first second) =
      (third.filter fun item => item ∉ second).filter fun item => item ∉ first := by
    rw [List.filter_filter]
    congr 1
    funext item
    simp [mem_followedBy]
  calc followedBy (followedBy first second) third
    _ = followedBy first second ++ third.filter fun item => item ∉ followedBy first second := rfl
    _ = followedBy first (followedBy second third) := by
      rw [hnew, followedBy, followedBy, followedBy, List.filter_append, List.append_assoc]

theorem add_nil_eq_ok_iff {ε : Type} {wanted : α → Except ε Bool} {next : List α} :
    add wanted [] item = .ok next ↔
      wanted item = .ok true ∧ [item] = next ∨ wanted item = .ok false ∧ [] = next := by
  simp [add_eq_ok_iff]

/-- What is added to chosen items follows them, if they are wanted themselves. -/
theorem add_eq {ε : Type} {wanted : α → Except ε Bool} {chosen : List α}
    (hchosen : ∀ item ∈ chosen, wanted item = .ok true) (item : α) :
    add wanted chosen item = (add wanted [] item).map (followedBy chosen) := by
  by_cases hmem : item ∈ chosen
  · rw [add_eq_ok_iff.2 (.inl ⟨hmem, rfl⟩), add_nil_eq_ok_iff.2 (.inl ⟨hchosen item hmem, rfl⟩)]
    exact congrArg Except.ok (followedBy_of_subset (by simpa using hmem)).symm
  · cases hw : wanted item with
    | error fault => simp [add, hmem, hw, bind, Except.bind, Except.map]
    | ok answer =>
        cases answer with
        | true =>
            rw [add_eq_ok_iff.2 (.inr ⟨hmem, .inl ⟨hw, rfl⟩⟩),
              add_nil_eq_ok_iff.2 (.inl ⟨hw, rfl⟩)]
            exact congrArg Except.ok (by simp [followedBy, hmem])
        | false =>
            rw [add_eq_ok_iff.2 (.inr ⟨hmem, .inr ⟨hw, rfl⟩⟩),
              add_nil_eq_ok_iff.2 (.inr ⟨hw, rfl⟩)]
            exact congrArg Except.ok (followedBy_nil chosen).symm

theorem foldlM_add_eq {ε : Type} {wanted : α → Except ε Bool} (found : List α) {chosen : List α}
    (hchosen : ∀ item ∈ chosen, wanted item = .ok true) :
    found.foldlM (add wanted) chosen =
      (found.foldlM (add wanted) []).map (followedBy chosen) := by
  induction found generalizing chosen with
  | nil => exact congrArg Except.ok (followedBy_nil chosen).symm
  | cons item found ih =>
      rw [List.foldlM_cons, List.foldlM_cons, add_eq hchosen item]
      cases hfirst : add wanted [] item with
      | error fault => rfl
      | ok first =>
          have hwanted : ∀ other ∈ first, wanted other = .ok true := by
            rcases add_nil_eq_ok_iff.1 hfirst with ⟨hw, rfl⟩ | ⟨-, rfl⟩
            · simpa using hw
            · exact List.forall_mem_nil _
          have hboth : ∀ other ∈ followedBy chosen first, wanted other = .ok true :=
            fun other ho => (mem_followedBy.1 ho).elim (hchosen other) (hwanted other)
          change found.foldlM (add wanted) (followedBy chosen first) =
            (found.foldlM (add wanted) first).map (followedBy chosen)
          rw [ih hboth, ih hwanted]
          cases found.foldlM (add wanted) [] with
          | error fault => rfl
          | ok rest => exact congrArg Except.ok (followedBy_assoc chosen first rest)

end followedBy

section ofListings

variable {listing : List Char → Except FileFault (List (List Char))}
  {wanted : List Char → Except FileFault Bool} {pattern : List Char}

theorem foldlM_addListed {chosen : List (List Char)}
    (hchosen : ∀ file ∈ chosen, wanted file = .ok true) (patterns : List (List Char)) :
    patterns.foldlM (addListed listing wanted) chosen =
      (ofListings listing wanted patterns).map (followedBy chosen) := by
  induction patterns generalizing chosen with
  | nil => exact congrArg Except.ok (followedBy_nil chosen).symm
  | cons pattern patterns ih =>
      rw [ofListings, List.foldlM_cons, List.foldlM_cons, addListed, addListed]
      cases listing pattern with
      | error fault => rfl
      | ok found =>
          change ((ordered found).foldlM (add wanted) chosen >>= fun next =>
              patterns.foldlM (addListed listing wanted) next) =
            Except.map (followedBy chosen) ((ordered found).foldlM (add wanted) [] >>= fun next =>
              patterns.foldlM (addListed listing wanted) next)
          rw [foldlM_add_eq (ordered found) hchosen]
          cases hfirst : (ordered found).foldlM (add wanted) [] with
          | error fault => rfl
          | ok first =>
              have hwanted : ∀ file ∈ first, wanted file = .ok true := by
                obtain ⟨fresh, rfl, -, -, hfresh⟩ := exists_foldlM_add hfirst
                exact fun file hf => ((hfresh file).1 hf).2.1
              have hboth : ∀ file ∈ followedBy chosen first, wanted file = .ok true :=
                fun file hf => (mem_followedBy.1 hf).elim (hchosen file) (hwanted file)
              change patterns.foldlM (addListed listing wanted) (followedBy chosen first) =
                (patterns.foldlM (addListed listing wanted) first).map (followedBy chosen)
              rw [ih hboth, ih hwanted]
              cases ofListings listing wanted patterns with
              | error fault => rfl
              | ok rest => exact congrArg Except.ok (followedBy_assoc chosen first rest)

/-- The files of two lists of patterns. -/
theorem ofListings_append (ps qs : List (List Char)) :
    ofListings listing wanted (ps ++ qs) = do
      let first ← ofListings listing wanted ps
      let second ← ofListings listing wanted qs
      return followedBy first second := by
  rw [ofListings, List.foldlM_append, ← ofListings]
  cases hfirst : ofListings listing wanted ps with
  | error fault => rfl
  | ok first => exact foldlM_addListed (fun file hf => ((mem_ofListings_iff hfirst).1 hf).1) qs

theorem ofListings_cons (pattern : List Char) (patterns : List (List Char)) :
    ofListings listing wanted (pattern :: patterns) = do
      let first ← ofListings listing wanted [pattern]
      let second ← ofListings listing wanted patterns
      return followedBy first second :=
  ofListings_append [pattern] patterns

theorem ofListings_singleton (pattern : List Char) :
    ofListings listing wanted [pattern] = addListed listing wanted [] pattern := by
  rw [ofListings, List.foldlM_cons]
  cases addListed listing wanted [] pattern <;> rfl

/-- The files of a single pattern. -/
theorem exists_ofListings_singleton {found : List (List Char)} (h : listing pattern = .ok found)
    (hanswer : ∀ file ∈ found, ∃ answer, wanted file = .ok answer) :
    ∃ files, ofListings listing wanted [pattern] = .ok files ∧ files.Pairwise (· < ·) ∧
      ∀ file, file ∈ files ↔ file ∈ found ∧ wanted file = .ok true := by
  have hok : ∃ files, (ordered found).foldlM (add wanted) [] = .ok files :=
    exists_foldlM_add_iff.2 fun file hf _ => hanswer file (mem_ordered.1 hf)
  obtain ⟨files, hfiles⟩ := hok
  obtain ⟨fresh, hfresh, hsub, hnodup, hmem⟩ := exists_foldlM_add hfiles
  obtain rfl : files = fresh := hfresh
  refine ⟨files, ?_, ?_, fun file => ?_⟩
  · rw [ofListings_singleton]
    exact addListed_eq_ok_iff.2 ⟨found, h, hfiles⟩
  · have hle : files.Pairwise (· ≤ ·) := (pairwise_ordered found).sublist hsub
    exact (hle.and hnodup).imp fun h => lt_of_le_of_ne h.1 h.2
  · simp [hmem, mem_ordered]

/-- If files are selected, the matches of each pattern are listed, and it is known of each match
whether it is wanted. -/
theorem exists_listing_of_mem {patterns files : List (List Char)}
    (h : ofListings listing wanted patterns = .ok files) (hp : pattern ∈ patterns) :
    ∃ found, listing pattern = .ok found ∧
      ∀ file ∈ found, ∃ answer, wanted file = .ok answer := by
  obtain ⟨front, back, rfl⟩ := List.append_of_mem hp
  rw [ofListings_append, bind_eq_ok_iff] at h
  obtain ⟨_, -, h⟩ := h
  obtain ⟨rest, hrest, -⟩ := bind_eq_ok_iff.1 h
  rw [ofListings_cons, bind_eq_ok_iff] at hrest
  obtain ⟨first, hfirst, -⟩ := hrest
  rw [ofListings_singleton, addListed_eq_ok_iff] at hfirst
  obtain ⟨found, hfound, hadd⟩ := hfirst
  exact ⟨found, hfound, fun file hf =>
    exists_foldlM_add_iff.1 ⟨first, hadd⟩ file (mem_ordered.2 hf) List.not_mem_nil⟩

theorem mem_of_listing {patterns files found : List (List Char)} {file : List Char}
    (h : ofListings listing wanted patterns = .ok files) (hp : pattern ∈ patterns)
    (hfound : listing pattern = .ok found) (hf : file ∈ found) (hw : wanted file = .ok true) :
    file ∈ files :=
  (mem_ofListings_iff h).2 ⟨hw, pattern, hp, found, hfound, hf⟩

/-- A pattern of the list adds nothing when it comes again. -/
theorem ofListings_repeat {ps : List (List Char)} (h : pattern ∈ ps) (qs : List (List Char)) :
    ofListings listing wanted (ps ++ pattern :: qs) = ofListings listing wanted (ps ++ qs) := by
  rw [ofListings_append, ofListings_append]
  cases hps : ofListings listing wanted ps with
  | error fault => rfl
  | ok first =>
      obtain ⟨found, hfound, hanswer⟩ := exists_listing_of_mem hps h
      obtain ⟨files, hfiles, -, hmem⟩ := exists_ofListings_singleton hfound hanswer
      have hsubset : files ⊆ first := fun file hf =>
        mem_of_listing hps h hfound ((hmem file).1 hf).1 ((hmem file).1 hf).2
      rw [ofListings_cons, hfiles]
      cases ofListings listing wanted qs with
      | error fault => rfl
      | ok second =>
          refine congrArg Except.ok ?_
          rw [← followedBy_assoc, followedBy_of_subset hsubset]

end ofListings

/-- The files that patterns select, however the matches of each are listed: those of two lists of
patterns are the files of the first and then the other ones of the second, a single pattern whose
matches can all be asked for selects the regular ones in strictly increasing order, no file comes
twice, none of the regular matches is missing, and a pattern that comes again adds nothing. -/
theorem ofPatterns_expands (t : FileTree) (base : Path) :
    (∀ patterns, ofPatterns t base patterns =
      ofListings (Glob.matchesOf t base.text) (isRegular t base) patterns) ∧
    ∀ listing : List Char → Except FileFault (List (List Char)),
      (∀ ps qs, ofListings listing (isRegular t base) (ps ++ qs) = do
        let first ← ofListings listing (isRegular t base) ps
        let second ← ofListings listing (isRegular t base) qs
        return followedBy first second) ∧
      (∀ pattern found, listing pattern = .ok found →
        (∀ file ∈ found, ∃ answer, isRegular t base file = .ok answer) →
        ∃ files, ofListings listing (isRegular t base) [pattern] = .ok files ∧
          files.Pairwise (· < ·) ∧
          ∀ file, file ∈ files ↔ file ∈ found ∧ isRegular t base file = .ok true) ∧
      (∀ patterns files, ofListings listing (isRegular t base) patterns = .ok files →
        files.Nodup ∧ ∀ pattern ∈ patterns, ∃ found, listing pattern = .ok found ∧
          ∀ file ∈ found, ∃ answer, isRegular t base file = .ok answer ∧
            (answer = true → file ∈ files)) ∧
      ∀ ps qs pattern, pattern ∈ ps →
        ofListings listing (isRegular t base) (ps ++ pattern :: qs) =
          ofListings listing (isRegular t base) (ps ++ qs) := by
  refine ⟨ofPatterns_eq_ofListings t base, fun listing => ⟨?_, ?_, ?_, ?_⟩⟩
  · exact ofListings_append
  · exact fun pattern found h hanswer => exists_ofListings_singleton h hanswer
  · refine fun patterns files h => ⟨nodup_ofListings h, fun pattern hp => ?_⟩
    obtain ⟨found, hfound, hanswer⟩ := exists_listing_of_mem h hp
    refine ⟨found, hfound, fun file hf => ?_⟩
    obtain ⟨answer, hw⟩ := hanswer file hf
    refine ⟨answer, hw, ?_⟩
    rintro rfl
    exact mem_of_listing h hp hfound hf hw
  · exact fun ps qs pattern h => ofListings_repeat h qs

/-- Two files and a directory in the directory `d`. -/
def crowdedTree : FileTree :=
  ⟨[([['d']], .directory), ([['d'], ['b']], .file []), ([['d'], ['c']], .directory),
    ([['d'], ['a']], .file [])], [['d']]⟩

/-- A name and then a pattern that matches it again; the listing has no order. -/
theorem ofPatterns_expands_crowdedTree :
    Glob.matchesOf crowdedTree ['/', 'd'] ['*'] = .ok [['b'], ['c'], ['a']] ∧
      ofPatterns crowdedTree ⟨.slash, [['d']]⟩ [['b'], ['*']] = .ok [['b'], ['a']] ∧
      ∃ files, ofListings (Glob.matchesOf crowdedTree ['/', 'd'])
          (isRegular crowdedTree ⟨.slash, [['d']]⟩) [['*']] = .ok files ∧
        files.Pairwise (· < ·) ∧
        ∀ file, file ∈ files ↔ file ∈ [['b'], ['c'], ['a']] ∧
          isRegular crowdedTree ⟨.slash, [['d']]⟩ file = .ok true := by
  have hfound : Glob.matchesOf crowdedTree ['/', 'd'] ['*'] = .ok [['b'], ['c'], ['a']] :=
    Noted.eq_ok_of_toOption (by decide +kernel)
  refine ⟨hfound, Noted.eq_ok_of_toOption (by cbv), ?_⟩
  refine ((ofPatterns_expands crowdedTree ⟨.slash, [['d']]⟩).2 _).2.1 ['*'] _ hfound ?_
  simp only [List.forall_mem_cons]
  exact ⟨⟨true, rfl⟩, ⟨false, rfl⟩, ⟨true, rfl⟩, List.forall_mem_nil _⟩

end Selection

end FrontLint
