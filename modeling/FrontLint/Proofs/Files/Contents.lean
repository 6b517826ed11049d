import FrontLint.Proofs.Files.WellFormed

/-!
# Files of a tree

The files below a place are listed as the tree has them: a directory put at a free location
adds none, and a file put there is added behind the others. A tree that keeps all of another
one's entries is read as that one is.
-/

namespace FrontLint

namespace FileTree

/-- The regular files below a place, by their names from there. -/
def filesBelow (t : FileTree) (place : Location) : List (List FileName × Bytes) :=
  t.entries.filterMap fun e =>
    match e.2 with
    | .file content => if place <+: e.1 then some (e.1.drop place.length, content) else none
    | _ => none

/-- Nothing lies below a place. -/
def EmptyAt (t : FileTree) (place : Location) : Prop :=
  ∀ e ∈ t.entries, place <+: e.1 → e = (place, .directory)

section

variable {t t' : FileTree} {place location : Location}

theorem EmptyAt.filesBelow (h : t.EmptyAt place) : t.filesBelow place = [] := by
  rw [FileTree.filesBelow, List.filterMap_eq_nil_iff]
  intro e he
  by_cases hp : place <+: e.1
  · rw [h e he hp]
  · cases e.2 <;> simp [hp]

theorem entries_put_of_find?_eq_none (hne : location ≠ []) (h : t.find? location = none)
    (entry : Entry) : (t.put location entry).entries = t.entries ++ [(location, entry)] := by
  rw [find?, if_neg hne] at h
  simp [put, h]

theorem filesBelow_put_directory (hne : location ≠ []) (h : t.find? location = none)
    (place : Location) :
    (t.put location .directory).filesBelow place = t.filesBelow place := by
  rw [filesBelow, entries_put_of_find?_eq_none hne h, List.filterMap_append]
  simp [filesBelow]

theorem filesBelow_put_file (hne : location ≠ []) (h : t.find? location = none)
    (hp : place <+: location) (content : Bytes) :
    (t.put location (.file content)).filesBelow place =
      t.filesBelow place ++ [(location.drop place.length, content)] := by
  rw [filesBelow, entries_put_of_find?_eq_none hne h, List.filterMap_append]
  simp [filesBelow, hp]

theorem mem_filesBelow {names : List FileName} {content : Bytes} (hne : place ++ names ≠ [])
    (h : t.find? (place ++ names) = some (.file content)) :
    (names, content) ∈ t.filesBelow place := by
  refine List.mem_filterMap.2 ⟨_, mem_of_find?_eq_some hne h, ?_⟩
  simp

/-- All entries of a tree are entries of another one, with the same current directory. -/
structure Extends (t t' : FileTree) : Prop where
  current : t'.current = t.current
  find? : ∀ location entry, t.find? location = some entry → t'.find? location = some entry

/-- What names lead to in a tree they lead to in a larger one. -/
theorem Extends.walk (h : t.Extends t') {last : Bool}
    {onLink onLink' : Location → List FileName → Place}
    (hlink : ∀ directory names location entry, onLink directory names = .found location entry →
      onLink' directory names = .found location entry)
    {directory location : Location} {entry : Entry} {names : List FileName}
    (hf : t.walk last onLink directory names = .found location entry) :
    t'.walk last onLink' directory names = .found location entry := by
  induction names generalizing directory with
  | nil => exact hf
  | cons name rest ih =>
      rw [FileTree.walk] at hf ⊢
      split
      · rename_i hh
        rw [if_pos hh] at hf
        exact ih hf
      · rename_i hh
        rw [if_neg hh] at hf
        split
        · rename_i ha
          rw [if_pos ha] at hf
          exact ih hf
        · rename_i ha
          rw [if_neg ha] at hf
          split
          · rename_i hl
            rw [if_pos hl] at hf
            cases hf
          · rename_i hl
            rw [if_neg hl] at hf
            cases hfind : t.find? (directory ++ [name]) with
            | none =>
                rw [hfind] at hf
                simp only at hf
                split at hf <;> cases hf
            | some found =>
                rw [hfind] at hf
                rw [h.find? _ _ hfind]
                cases found with
                | directory => exact ih hf
                | file content => exact hf
                | link target =>
                    simp only at hf ⊢
                    split
                    · rename_i hlast
                      rw [if_pos hlast] at hf
                      exact hf
                    · rename_i hlast
                      rw [if_neg hlast] at hf
                      exact hlink _ _ _ _ hf

theorem Extends.follow (h : t.Extends t') {last : Bool} {links : Nat}
    {directory location : Location} {entry : Entry} {names : List FileName}
    (hf : t.follow last links directory names = .found location entry) :
    t'.follow last links directory names = .found location entry := by
  induction links generalizing directory names location entry with
  | zero =>
      refine h.walk ?_ hf
      intro directory names location entry hstop
      cases hstop
  | succ links ih => exact h.walk (fun _ _ _ _ => ih) hf

theorem Extends.locate (h : t.Extends t') {last : Bool} {path : List Char}
    {location : Location} {entry : Entry} (hl : t.locate last path = .found location entry) :
    t'.locate last path = .found location entry := by
  rw [FileTree.locate] at hl ⊢
  rw [h.current]
  split
  · rename_i hempty
    rw [if_pos hempty] at hl
    cases hl
  · rename_i hempty
    rw [if_neg hempty] at hl
    split
    · rename_i hlong
      rw [if_pos hlong] at hl
      cases hl
    · rename_i hlong
      rw [if_neg hlong] at hl
      exact h.follow hl

theorem Extends.read (h : t.Extends t') {path : List Char} {content : Bytes}
    (hr : t.read path = .ok content) : t'.read path = .ok content := by
  rw [FileTree.read] at hr ⊢
  split
  · rename_i hnul
    rw [if_pos hnul] at hr
    cases hr
  · rename_i hnul
    rw [if_neg hnul] at hr
    cases hl : t.locate true path with
    | refused cause => simp [hl] at hr
    | free directory name => simp [hl] at hr
    | found location entry =>
        rw [h.locate hl]
        rw [hl] at hr
        exact hr

end

end FileTree

end FrontLint
