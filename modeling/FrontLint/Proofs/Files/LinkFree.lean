import FrontLint.Proofs.Files.Consults
import FrontLint.Proofs.Files.Within

/-!
# Trees without links

Without links names lead where they spell: each one down, and two dots up. What is consulted on
the way is where a front part of the names leads. At a file the way ends, so a path that
consults the location of a file leads to that file, or is refused; without the file it leads
nowhere.
-/

namespace FrontLint

namespace FileTree

/-- Where names spell the way to, from a directory. -/
def landing : Location → List FileName → Location
  | directory, [] => directory
  | directory, name :: rest =>
    if name = FileName.here then landing directory rest
    else if name = FileName.above then landing directory.dropLast rest
    else landing (directory ++ [name]) rest

section

variable {t : FileTree} {links left : Nat} {directory place location : Location}
  {names : List FileName} {name : FileName}

theorem landing_down (hn : name.IsDownward) (directory : Location) (rest : List FileName) :
    landing directory (name :: rest) = landing (directory ++ [name]) rest := by
  rw [landing, if_neg hn.ne_here, if_neg hn.ne_above]

@[simp] theorem landing_here (directory : Location) (rest : List FileName) :
    landing directory (FileName.here :: rest) = landing directory rest := by
  simp [landing]

@[simp] theorem landing_above (directory : Location) (rest : List FileName) :
    landing directory (FileName.above :: rest) = landing directory.dropLast rest := by
  simp [landing, FileName.here, FileName.above]

theorem landing_append (directory : Location) (names more : List FileName) :
    landing directory (names ++ more) = landing (landing directory names) more := by
  induction names generalizing directory with
  | nil => rfl
  | cons name rest ih =>
      rw [List.cons_append, landing, landing]
      split
      · exact ih _
      · split
        · exact ih _
        · exact ih _

theorem LinkFree.find?_ne_link (h : t.LinkFree []) (location : Location) (target : List Char) :
    t.find? location ≠ some (.link target) := h location target List.nil_prefix

/-- A path resolves to where it spells the way to. -/
theorem names_resolve (h : t.LinkFree []) (p : Path) :
    (t.resolve p).names = landing (t.origin p) p.names := by
  have hnames : ∀ onLink directory names,
      t.resolveNames onLink directory names = landing directory names := by
    intro onLink directory names
    induction names generalizing directory with
    | nil => rfl
    | cons name rest ih =>
        rw [resolveNames, landing]
        split
        · exact ih _
        · split
          · exact ih _
          · split
            · rename_i hl
              exact absurd hl (h.find?_ne_link _ _)
            · exact ih _
  simp only [resolve, maxLinks, resolveLinks, hnames]
  rfl

theorem Consults.exists_landing_eq (h : t.LinkFree [])
    (hc : t.Consults links directory names location) :
    ∃ front, front <+: names ∧ landing directory front = location := by
  induction hc with
  | here _ ih =>
      obtain ⟨front, hfront, hl⟩ := ih
      exact ⟨_ :: front, List.cons_prefix_cons.2 ⟨rfl, hfront⟩, by rw [landing_here, hl]⟩
  | above _ ih =>
      obtain ⟨front, hfront, hl⟩ := ih
      exact ⟨_ :: front, List.cons_prefix_cons.2 ⟨rfl, hfront⟩, by rw [landing_above, hl]⟩
  | @name _ _ name rest hn =>
      exact ⟨[name], List.cons_prefix_cons.2 ⟨rfl, List.nil_prefix⟩, landing_down hn _ _⟩
  | down hn _ _ ih =>
      obtain ⟨front, hfront, hl⟩ := ih
      exact ⟨_ :: front, List.cons_prefix_cons.2 ⟨rfl, hfront⟩, by rw [landing_down hn, hl]⟩
  | link _ hf _ _ => exact absurd hf (h.find?_ne_link _ _)

/-- A path to a directory leads there by its names. -/
theorem exists_leads_of_follow (h : t.LinkFree [])
    (hf : t.follow true links directory names = .found place .directory) :
    t.Leads links directory names links place := by
  induction links, directory, names using follow_induction t with
  | nil =>
      rw [follow_nil] at hf
      cases hf
      exact .done
  | here links directory rest ih =>
      rw [follow_here] at hf
      exact .here (ih hf)
  | above links directory rest ih =>
      rw [follow_above] at hf
      exact .above (ih hf)
  | tooLong links directory name rest hh ha hl =>
      rw [follow_tooLong hh ha hl] at hf
      cases hf
  | missing links directory name rest hn hfind =>
      rw [follow_missing hn hfind] at hf
      split at hf <;> cases hf
  | directory links parent name rest hn hfind ih =>
      rw [follow_directory hn hfind] at hf
      exact .down hn hfind (ih hf)
  | file links directory name rest content hn hfind =>
      rw [follow_file hn hfind] at hf
      split at hf <;> cases hf
  | link links directory name rest target hn hfind ih =>
      exact absurd hfind (h.find?_ne_link _ _)

/-- Dots on the way do not matter to what names consult. -/
theorem consults_filter_here (h : t.LinkFree []) (names : List FileName) :
    t.Consults links directory (names.filter (· ≠ FileName.here)) location ↔
      t.Consults links directory names location := by
  induction names generalizing directory with
  | nil => rfl
  | cons name rest ih =>
      by_cases hh : name = FileName.here
      · subst hh
        rw [List.filter_cons_of_neg (by simp), ih, consults_here]
      · rw [List.filter_cons_of_pos (by simpa using hh)]
        by_cases ha : name = FileName.above
        · subst ha
          rw [consults_above, consults_above, ih]
        · constructor
          · intro hc
            cases hc with
            | here => exact absurd rfl hh
            | above => exact absurd rfl ha
            | name hn => exact .name hn
            | down hn hd hc => exact .down hn hd (ih.1 hc)
            | link _ hf => exact absurd hf (h.find?_ne_link _ _)
          · intro hc
            cases hc with
            | here => exact absurd rfl hh
            | above => exact absurd rfl ha
            | name hn => exact .name hn
            | down hn hd hc => exact .down hn hd (ih.2 hc)
            | link _ hf => exact absurd hf (h.find?_ne_link _ _)

theorem Leads.filter_here (h : t.LinkFree []) (hl : t.Leads links directory names left place) :
    t.Leads links directory (names.filter (· ≠ FileName.here)) left place := by
  induction hl with
  | done => exact .done
  | here _ ih =>
      rw [List.filter_cons_of_neg (by simp)]
      exact ih
  | above _ ih =>
      rw [List.filter_cons_of_pos (by simp [FileName.here, FileName.above])]
      exact .above ih
  | down hn hd _ ih =>
      rw [List.filter_cons_of_pos (by simpa using hn.ne_here)]
      exact .down hn hd ih
  | link _ hf _ _ => exact absurd hf (h.find?_ne_link _ _)

end

/-! ## The location of a file -/

section

variable {t : FileTree} {links : Nat} {directory f : Location} {names : List FileName}
  {content : Bytes}

/-- Names that lead to a file do so without the dots on the way, and whether or not a link under
the last name would be followed. -/
theorem follow_filter_here (h : t.LinkFree []) {last : Bool} {location : Location}
    (hf : t.follow last links directory names = .found location (.file content)) (other : Bool) :
    t.follow other links directory (names.filter (· ≠ FileName.here)) =
      .found location (.file content) := by
  induction links, directory, names using follow_induction t with
  | nil =>
      rw [follow_nil] at hf
      cases hf
  | here links directory rest ih =>
      rw [follow_here] at hf
      rw [List.filter_cons_of_neg (by simp)]
      exact ih hf
  | above links directory rest ih =>
      rw [follow_above] at hf
      rw [List.filter_cons_of_pos (by simp [FileName.here, FileName.above]), follow_above]
      exact ih hf
  | tooLong links directory name rest hh ha hl =>
      rw [follow_tooLong hh ha hl] at hf
      cases hf
  | missing links directory name rest hn hfind =>
      rw [follow_missing hn hfind] at hf
      split at hf <;> cases hf
  | directory links parent name rest hn hfind ih =>
      rw [follow_directory hn hfind] at hf
      rw [List.filter_cons_of_pos (by simpa using hn.ne_here), follow_directory hn hfind]
      exact ih hf
  | file links directory name rest content hn hfind =>
      rw [follow_file hn hfind] at hf
      split at hf
      · rename_i hrest
        subst hrest
        rw [List.filter_cons_of_pos (by simpa using hn.ne_here), List.filter_nil,
          follow_file hn hfind, if_pos rfl]
        exact hf
      · cases hf
  | link links directory name rest target hn hfind ih =>
      exact absurd hfind (h.find?_ne_link _ _)

/-- Nothing below a file is consulted. -/
theorem Consults.eq_of_isPrefix (h : t.LinkFree []) (hfile : t.find? f = some (.file content))
    (hstart : ¬ f <+: directory) {location : Location}
    (hc : t.Consults links directory names location) (hp : f <+: location) : location = f := by
  induction hc with
  | here _ ih => exact ih hstart hp
  | above _ ih => exact ih (fun hpf => hstart (hpf.trans (List.dropLast_prefix _))) hp
  | name _ => exact ((List.prefix_concat_iff.1 hp).resolve_right hstart).symm
  | down _ hd _ ih =>
      refine ih (fun hpf => ?_) hp
      rw [← (List.prefix_concat_iff.1 hpf).resolve_right hstart, hfile] at hd
      cases hd
  | link _ hf _ _ => exact absurd hf (h.find?_ne_link _ _)

/-- The way ends at the file. -/
theorem Consults.follow_file (h : t.LinkFree []) (hfile : t.find? f = some (.file content))
    (hc : t.Consults links directory names f) (last : Bool) :
    t.follow last links directory names = .found f (.file content) ∨
      t.follow last links directory names = .refused .notDirectory := by
  generalize hloc : f = location at hc
  induction hc with
  | here _ ih =>
      rw [follow_here]
      exact ih hloc
  | above _ ih =>
      rw [follow_above]
      exact ih hloc
  | @name _ _ _ rest hn =>
      subst hloc
      rw [FileTree.follow_file hn hfile]
      by_cases hrest : rest = []
      · exact .inl (if_pos hrest)
      · exact .inr (if_neg hrest)
  | down hn hd _ ih =>
      rw [follow_directory hn hd]
      exact ih hloc
  | link _ hf _ _ => exact absurd hf (h.find?_ne_link _ _)

/-- Without the file the way ends at nothing. -/
theorem Consults.follow_removeBelow (h : t.LinkFree [])
    (hfile : t.find? f = some (.file content)) (hne : f ≠ []) (hstart : ¬ f <+: directory)
    (hc : t.Consults links directory names f) (last : Bool) :
    (t.removeBelow f).follow last links directory names = .refused .missing ∨
      ∃ parent name, (t.removeBelow f).follow last links directory names = .free parent name := by
  generalize hloc : f = consulted at hc
  induction hc with
  | here _ ih =>
      rw [follow_here]
      exact ih hstart hloc
  | above _ ih =>
      rw [follow_above]
      exact ih (fun hpf => hstart (hpf.trans (List.dropLast_prefix _))) hloc
  | @name _ _ _ rest hn =>
      have hnone : (t.removeBelow f).find? f = none := by
        rw [find?_removeBelow t hne, if_pos (List.prefix_refl _)]
      subst hloc
      rw [follow_missing hn hnone]
      split
      · exact .inr ⟨_, _, rfl⟩
      · exact .inl rfl
  | @down _ parent _ name _ hn hd _ ih =>
      have hnot : ¬ f <+: parent ++ [name] := by
        intro hpf
        rw [← (List.prefix_concat_iff.1 hpf).resolve_right hstart, hfile] at hd
        cases hd
      have hd' : (t.removeBelow f).find? (parent ++ [name]) = some .directory := by
        rw [find?_removeBelow t hne, if_neg hnot]
        exact hd
      rw [← hloc, follow_directory hn hd', hloc]
      exact ih hnot hloc
  | link _ hf _ _ => exact absurd hf (h.find?_ne_link _ _)

end

end FileTree

end FrontLint
