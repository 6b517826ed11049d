import FrontLint.Proofs.Files.PathText

/-!
# Where names lead

`Leads` is the relation between names and the directory at their end when all links on the
way are followed. Following more names behind such names goes on from that directory with the
links that are left.

## Implementation notes

Links are counted as `follow` counts them, from the greatest number down. The relation
mentions directories and links of the tree only, so it stays when files come and go and when
directories are made.
-/

namespace FrontLint

/-- A name that leads one level down. -/
structure FileName.IsDownward (name : FileName) : Prop where
  ne_here : name ≠ FileName.here
  ne_above : name ≠ FileName.above
  length_le : (Utf8.encodeChars name).length ≤ FileTree.maxNameBytes

namespace FileTree

/-- Names lead from a directory to another one, if links on the way are followed. -/
inductive Leads (t : FileTree) : Nat → Location → List FileName → Nat → Location → Prop where
  | done {links : Nat} {directory : Location} : Leads t links directory [] links directory
  | here {links left : Nat} {directory place : Location} {names : List FileName} :
      Leads t links directory names left place →
      Leads t links directory (FileName.here :: names) left place
  | above {links left : Nat} {directory place : Location} {names : List FileName} :
      Leads t links directory.dropLast names left place →
      Leads t links directory (FileName.above :: names) left place
  | down {links left : Nat} {directory place : Location} {name : FileName}
      {names : List FileName} :
      name.IsDownward → t.find? (directory ++ [name]) = some .directory →
      Leads t links (directory ++ [name]) names left place →
      Leads t links directory (name :: names) left place
  | link {links left : Nat} {directory place : Location} {name : FileName}
      {names : List FileName} {target : List Char} :
      name.IsDownward → t.find? (directory ++ [name]) = some (.link target) →
      Leads t links (startOf directory target) (stepsOf target ++ names) left place →
      Leads t (links + 1) directory (name :: names) left place

section follow

variable {t : FileTree} {last : Bool} {links : Nat} {directory : Location} {name : FileName}
  {rest : List FileName}

@[simp] theorem follow_nil (t : FileTree) (last : Bool) (links : Nat) (directory : Location) :
    t.follow last links directory [] = .found directory .directory := by
  cases links <;> rfl

@[simp] theorem follow_here (t : FileTree) (last : Bool) (links : Nat) (directory : Location)
    (rest : List FileName) :
    t.follow last links directory (FileName.here :: rest) =
      t.follow last links directory rest := by
  cases links <;> simp [follow, walk]

@[simp] theorem follow_above (t : FileTree) (last : Bool) (links : Nat) (directory : Location)
    (rest : List FileName) :
    t.follow last links directory (FileName.above :: rest) =
      t.follow last links directory.dropLast rest := by
  cases links <;> simp [follow, walk, FileName.here, FileName.above]

theorem follow_tooLong (hh : name ≠ FileName.here) (ha : name ≠ FileName.above)
    (hl : maxNameBytes < (Utf8.encodeChars name).length) :
    t.follow last links directory (name :: rest) = .refused .nameTooLong := by
  cases links <;> simp [follow, walk, hh, ha, hl]

theorem follow_missing (hn : name.IsDownward) (h : t.find? (directory ++ [name]) = none) :
    t.follow last links directory (name :: rest) =
      if rest = [] then .free directory name else .refused .missing := by
  have hl := Nat.not_lt.2 hn.length_le
  cases links <;> simp [follow, walk, hn.ne_here, hn.ne_above, hl, h]

theorem follow_directory (hn : name.IsDownward)
    (h : t.find? (directory ++ [name]) = some .directory) :
    t.follow last links directory (name :: rest) =
      t.follow last links (directory ++ [name]) rest := by
  have hl := Nat.not_lt.2 hn.length_le
  cases links <;> simp [follow, walk, hn.ne_here, hn.ne_above, hl, h]

theorem follow_file (hn : name.IsDownward) {content : Bytes}
    (h : t.find? (directory ++ [name]) = some (.file content)) :
    t.follow last links directory (name :: rest) =
      if rest = [] then .found (directory ++ [name]) (.file content)
      else .refused .notDirectory := by
  have hl := Nat.not_lt.2 hn.length_le
  cases links <;> simp [follow, walk, hn.ne_here, hn.ne_above, hl, h]

/-- A link under the last name is not followed unless it is asked for. -/
theorem follow_lastLink (hn : name.IsDownward) {target : List Char}
    (h : t.find? (directory ++ [name]) = some (.link target)) :
    t.follow false links directory [name] = .found (directory ++ [name]) (.link target) := by
  have hl := Nat.not_lt.2 hn.length_le
  cases links <;> simp [follow, walk, hn.ne_here, hn.ne_above, hl, h]

theorem follow_noLinks (hn : name.IsDownward) {target : List Char}
    (h : t.find? (directory ++ [name]) = some (.link target)) (hr : rest ≠ [] ∨ last = true) :
    t.follow last 0 directory (name :: rest) = .refused .tooManyLinks := by
  have hl := Nat.not_lt.2 hn.length_le
  have hgo : (rest.isEmpty && !last) = false := by
    rcases hr with hr | rfl <;> simp [*]
  simp [follow, walk, hn.ne_here, hn.ne_above, hl, h, hgo]

theorem follow_link (hn : name.IsDownward) {target : List Char}
    (h : t.find? (directory ++ [name]) = some (.link target)) (hr : rest ≠ [] ∨ last = true) :
    t.follow last (links + 1) directory (name :: rest) =
      t.follow last links (startOf directory target) (stepsOf target ++ rest) := by
  have hl := Nat.not_lt.2 hn.length_le
  have hgo : (rest.isEmpty && !last) = false := by
    rcases hr with hr | rfl <;> simp [*]
  simp [follow, walk, hn.ne_here, hn.ne_above, hl, h, hgo]

/-- A name is a dot, two dots, too long, or leads down. -/
theorem FileName.cases (name : FileName) :
    name = FileName.here ∨ name = FileName.above ∨
      (name ≠ FileName.here ∧ name ≠ FileName.above ∧
        maxNameBytes < (Utf8.encodeChars name).length) ∨ name.IsDownward := by
  by_cases hh : name = FileName.here
  · exact .inl hh
  · by_cases ha : name = FileName.above
    · exact .inr (.inl ha)
    · rcases Nat.lt_or_ge maxNameBytes (Utf8.encodeChars name).length with hl | hl
      · exact .inr (.inr (.inl ⟨hh, ha, hl⟩))
      · exact .inr (.inr (.inr ⟨hh, ha, hl⟩))

end follow

namespace Leads

variable {t t' : FileTree} {links left : Nat} {directory place : Location}
  {names : List FileName}

/-- Following names goes on behind other names from the directory to which those lead. -/
theorem follow_append (h : t.Leads links directory names left place) {last : Bool}
    {more : List FileName} (hm : more ≠ [] ∨ last = true) :
    t.follow last links directory (names ++ more) = t.follow last left place more := by
  induction h with
  | done => rfl
  | here _ ih => simpa using ih
  | above _ ih => simpa using ih
  | down hn hd _ ih =>
      rw [List.cons_append, follow_directory hn hd]
      exact ih
  | link hn hl _ ih =>
      rw [List.cons_append, follow_link hn hl (hm.imp_left fun hne => by simp [hne]),
        ← List.append_assoc]
      exact ih

theorem follow_eq (h : t.Leads links directory names left place) :
    t.follow true links directory names = .found place .directory := by
  have happ := @follow_append _ _ _ _ _ _ h true [] (.inr rfl)
  rwa [List.append_nil, follow_nil] at happ

theorem append (h : t.Leads links directory names left place) {more : List FileName}
    {left' : Nat} {place' : Location} (h' : t.Leads left place more left' place') :
    t.Leads links directory (names ++ more) left' place' := by
  induction h with
  | done => exact h'
  | here _ ih => exact .here (ih h')
  | above _ ih => exact .above (ih h')
  | down hn hd _ ih => exact .down hn hd (ih h')
  | link hn hl _ ih =>
      refine .link hn hl ?_
      have hall := ih h'
      rw [List.append_assoc] at hall
      exact hall

/-- Names that lead somewhere do so in front. -/
theorem front (h : t.Leads links directory names left place) {front more : List FileName}
    (hs : names = front ++ more) :
    ∃ left' place', t.Leads links directory front left' place' := by
  induction h generalizing front with
  | done =>
      obtain ⟨rfl, -⟩ := List.append_eq_nil_iff.1 hs.symm
      exact ⟨_, _, .done⟩
  | here _ ih =>
      cases front with
      | nil => exact ⟨_, _, .done⟩
      | cons first front =>
          obtain ⟨rfl, hr⟩ := List.cons_eq_cons.1 hs
          obtain ⟨left', place', h⟩ := ih hr
          exact ⟨left', place', .here h⟩
  | above _ ih =>
      cases front with
      | nil => exact ⟨_, _, .done⟩
      | cons first front =>
          obtain ⟨rfl, hr⟩ := List.cons_eq_cons.1 hs
          obtain ⟨left', place', h⟩ := ih hr
          exact ⟨left', place', .above h⟩
  | down hn hd _ ih =>
      cases front with
      | nil => exact ⟨_, _, .done⟩
      | cons first front =>
          obtain ⟨rfl, hr⟩ := List.cons_eq_cons.1 hs
          obtain ⟨left', place', h⟩ := ih hr
          exact ⟨left', place', .down hn hd h⟩
  | link hn hl _ ih =>
      cases front with
      | nil => exact ⟨_, _, .done⟩
      | cons first front =>
          obtain ⟨rfl, hr⟩ := List.cons_eq_cons.1 hs
          rw [List.append_eq] at hr
          obtain ⟨left', place', h⟩ := ih (by rw [hr, ← List.append_assoc])
          exact ⟨left', place', .link hn hl h⟩

/-- The relation stays in a tree that keeps directories and links. -/
theorem mono (h : t.Leads links directory names left place)
    (hdir : ∀ location, t.find? location = some .directory →
      t'.find? location = some .directory)
    (hlink : ∀ location target, t.find? location = some (.link target) →
      t'.find? location = some (.link target)) :
    t'.Leads links directory names left place := by
  induction h with
  | done => exact .done
  | here _ ih => exact .here ih
  | above _ ih => exact .above ih
  | down hn hd _ ih => exact .down hn (hdir _ hd) ih
  | link hn hl _ ih => exact .link hn (hlink _ _ hl) ih

/-- Names that lead somewhere lead to something, even if a link under the last one is not
followed. -/
theorem exists_follow_eq_found (h : t.Leads links directory names left place) (last : Bool) :
    ∃ location entry, t.follow last links directory names = .found location entry := by
  cases last with
  | true => exact ⟨place, .directory, h.follow_eq⟩
  | false =>
      induction h with
      | done => exact ⟨_, _, follow_nil _ _ _ _⟩
      | here _ ih => simpa using ih
      | above _ ih => simpa using ih
      | down hn hd _ ih => simpa [follow_directory hn hd] using ih
      | @link _ _ _ _ _ names _ hn hl _ ih =>
          by_cases hr : names = []
          · rw [hr, follow_lastLink hn hl]
            exact ⟨_, _, rfl⟩
          · rw [follow_link hn hl (.inl hr)]
            exact ih

/-- What names lead to is not free. -/
theorem follow_ne_free (h : t.Leads links directory names left place) (last : Bool)
    (parent : Location) (name : FileName) :
    t.follow last links directory names ≠ .free parent name := by
  obtain ⟨location, entry, hfound⟩ := h.exists_follow_eq_found last
  simp [hfound]

end Leads

/-- All names but the last one lead to a directory in which the last one is free. -/
def LeadsToFree (t : FileTree) (links : Nat) (directory : Location) (names : List FileName)
    (parent : Location) (name : FileName) : Prop :=
  ∃ front left, names = front ++ [name] ∧ t.Leads links directory front left parent ∧
    name.IsDownward ∧ t.find? (parent ++ [name]) = none

namespace LeadsToFree

variable {t : FileTree} {links : Nat} {directory parent : Location} {name : FileName}

theorem cons {next : Location} {first : FileName} {rest : List FileName}
    (h : t.LeadsToFree links next rest parent name)
    (hs : ∀ front left, t.Leads links next front left parent →
      t.Leads links directory (first :: front) left parent) :
    t.LeadsToFree links directory (first :: rest) parent name := by
  obtain ⟨front, left, rfl, hl, hn, hf⟩ := h
  exact ⟨first :: front, left, rfl, hs front left hl, hn, hf⟩

/-- The target of a link stands before the names that follow it. -/
theorem link {first : FileName} {rest : List FileName} {target : List Char}
    (hn : first.IsDownward) (hl : t.find? (directory ++ [first]) = some (.link target))
    (hr : rest ≠ [])
    (h : t.LeadsToFree links (startOf directory target) (stepsOf target ++ rest) parent name) :
    t.LeadsToFree (links + 1) directory (first :: rest) parent name := by
  obtain ⟨front, left, hs, hf, hname, hnone⟩ := h
  obtain ⟨init, final, rfl⟩ : ∃ init final, rest = init ++ [final] :=
    ⟨rest.dropLast, rest.getLast hr, (List.dropLast_append_getLast hr).symm⟩
  rw [← List.append_assoc] at hs
  obtain ⟨hinit, hfinal⟩ := List.append_inj' hs rfl
  subst hinit
  obtain rfl := List.singleton_inj.1 hfinal
  exact ⟨first :: init, left, rfl, .link hn hl hf, hname, hnone⟩

/-- One use of the number of links; `ih` is about the names behind a link. -/
private theorem of_follow_step {names : List FileName}
    (ih : ∀ fewer, links = fewer + 1 → ∀ directory names,
      t.follow false fewer directory names = .free parent name →
        t.LeadsToFree fewer directory names parent name)
    (h : t.follow false links directory names = .free parent name) :
    t.LeadsToFree links directory names parent name := by
  induction names generalizing directory with
  | nil => simp at h
  | cons first rest ihn =>
      rcases FileName.cases first with rfl | rfl | ⟨hh, ha, hl⟩ | hn
      · rw [follow_here] at h
        exact (ihn h).cons fun _ _ => .here
      · rw [follow_above] at h
        exact (ihn h).cons fun _ _ => .above
      · simp [follow_tooLong hh ha hl] at h
      · cases hf : t.find? (directory ++ [first]) with
        | none =>
            rw [follow_missing hn hf] at h
            split at h
            · rename_i hr
              cases h
              exact ⟨[], links, by simp [hr], .done, hn, hf⟩
            · cases h
        | some entry =>
            cases entry with
            | directory =>
                rw [follow_directory hn hf] at h
                exact (ihn h).cons fun _ _ => .down hn hf
            | file content =>
                rw [follow_file hn hf] at h
                split at h <;> cases h
            | link target =>
                by_cases hr : rest = []
                · subst hr
                  rw [follow_lastLink hn hf] at h
                  cases h
                · cases links with
                  | zero =>
                      rw [follow_noLinks hn hf (.inl hr)] at h
                      cases h
                  | succ fewer =>
                      rw [follow_link hn hf (.inl hr)] at h
                      exact link hn hf hr (ih fewer rfl _ _ h)

/-- A free name is the last one, and the names before it lead to its directory. -/
theorem of_follow {names : List FileName}
    (h : t.follow false links directory names = .free parent name) :
    t.LeadsToFree links directory names parent name := by
  induction links generalizing directory names with
  | zero => exact of_follow_step (fun fewer hl => absurd hl (by omega)) h
  | succ links ih =>
      refine of_follow_step (fun fewer hl directory names hf => ?_) h
      obtain rfl : links = fewer := by omega
      exact ih hf

end LeadsToFree

end FileTree

end FrontLint
