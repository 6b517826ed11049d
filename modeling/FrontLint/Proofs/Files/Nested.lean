import FrontLint.Proofs.Files.Behind
import FrontLint.Proofs.Files.Consults
import FrontLint.Proofs.Files.Selection

/-!
# Files are not nested

Names that lead on lead to a directory on their way, links or not, and none of them is too
long. So no path behind that of a file leads to a file.
-/

namespace FrontLint

namespace FileTree

section

variable {t : FileTree} {last : Bool} {links : Nat} {directory : Location}
  {names more : List FileName}

/-- Names from which others lead on lead to a directory. -/
theorem exists_leads_of_follow_append (hm : more ≠ [])
    (h : ∀ cause, t.follow last links directory (names ++ more) ≠ .refused cause) :
    ∃ left place, t.Leads links directory names left place := by
  induction links, directory, names using follow_induction t with
  | nil links directory => exact ⟨links, directory, .done⟩
  | here links directory rest ih =>
      rw [List.cons_append, follow_here] at h
      obtain ⟨left, place, hl⟩ := ih h
      exact ⟨left, place, .here hl⟩
  | above links directory rest ih =>
      rw [List.cons_append, follow_above] at h
      obtain ⟨left, place, hl⟩ := ih h
      exact ⟨left, place, .above hl⟩
  | tooLong links directory name rest hh ha hl => exact absurd (follow_tooLong hh ha hl) (h _)
  | missing links directory name rest hn hf =>
      rw [List.cons_append, follow_missing hn hf, if_neg (by simp [hm])] at h
      exact absurd rfl (h _)
  | directory links parent name rest hn hf ih =>
      rw [List.cons_append, follow_directory hn hf] at h
      obtain ⟨left, place, hl⟩ := ih h
      exact ⟨left, place, .down hn hf hl⟩
  | file links directory name rest content hn hf =>
      rw [List.cons_append, follow_file hn hf, if_neg (by simp [hm])] at h
      exact absurd rfl (h _)
  | link links directory name rest target hn hf ih =>
      have hon : rest ++ more ≠ [] ∨ last = true := .inl (by simp [hm])
      rw [List.cons_append] at h
      cases links with
      | zero => exact absurd (follow_noLinks hn hf hon) (h _)
      | succ links =>
          rw [follow_link hn hf hon, ← List.append_assoc] at h
          obtain ⟨left, place, hl⟩ := ih links rfl h
          exact ⟨left, place, .link hn hf hl⟩

/-- No name on the way to something is too long. -/
theorem length_le_of_follow (h : ∀ cause, t.follow last links directory names ≠ .refused cause) :
    ∀ name ∈ names, (Utf8.encodeChars name).length ≤ maxNameBytes := by
  induction links, directory, names using follow_induction t with
  | nil links directory => exact fun name hname => absurd hname List.not_mem_nil
  | here links directory rest ih =>
      rw [follow_here] at h
      exact List.forall_mem_cons.2 ⟨by decide, ih h⟩
  | above links directory rest ih =>
      rw [follow_above] at h
      exact List.forall_mem_cons.2 ⟨by decide, ih h⟩
  | tooLong links directory name rest hh ha hl => exact absurd (follow_tooLong hh ha hl) (h _)
  | missing links directory name rest hn hf =>
      rw [follow_missing hn hf] at h
      split at h
      · rename_i hrest
        subst hrest
        simpa using hn.length_le
      · exact absurd rfl (h _)
  | directory links parent name rest hn hf ih =>
      rw [follow_directory hn hf] at h
      exact List.forall_mem_cons.2 ⟨hn.length_le, ih h⟩
  | file links directory name rest content hn hf =>
      rw [follow_file hn hf] at h
      split at h
      · rename_i hrest
        subst hrest
        simpa using hn.length_le
      · exact absurd rfl (h _)
  | link links directory name rest target hn hf ih =>
      refine List.forall_mem_cons.2 ⟨hn.length_le, fun other hother => ?_⟩
      have hon : rest ≠ [] ∨ last = true := .inl (List.ne_nil_of_mem hother)
      cases links with
      | zero => exact absurd (follow_noLinks hn hf hon) (h _)
      | succ links =>
          rw [follow_link hn hf hon] at h
          exact ih links rfl h other (List.mem_append_right _ hother)

end

section

variable {t : FileTree} {p : Path}

/-- The path of a file leads there by its names. -/
theorem exists_follow_of_isFile (hr : p.IsRead) (h : t.isFile p.text = .ok true) :
    ∃ location content,
      t.follow true maxLinks (t.origin p) p.names = .found location (.file content) := by
  obtain ⟨-, location, content, hl⟩ := isFile_eq_ok_true_iff.1 h
  refine ⟨location, content, ?_⟩
  rw [locate_text t true hr] at hl
  split at hl
  · cases hl
  · exact hl

theorem isDownward_of_isFile (hr : p.IsRead) (h : t.isFile p.text = .ok true) {name : FileName}
    (hname : name ∈ p.names) (hplain : name.IsPlain) : name.IsDownward := by
  obtain ⟨location, content, hfollow⟩ := exists_follow_of_isFile hr h
  have hfound : ∀ cause, t.follow true maxLinks (t.origin p) p.names ≠ .refused cause := by
    simp [hfollow]
  exact ⟨hplain.isRead.ne_here, hplain.ne_above, length_le_of_follow hfound name hname⟩

/-- No file has a path behind the path of another one. -/
theorem eq_nil_of_isFile_behind {more : List FileName} (hr : p.IsRead)
    (hrmore : (p.behind more).IsRead) (h : t.isFile p.text = .ok true)
    (hmore : t.isFile (p.behind more).text = .ok true) : more = [] := by
  by_contra hne
  obtain ⟨location, content, hfollow⟩ := exists_follow_of_isFile hr h
  obtain ⟨location', content', hfollow'⟩ := exists_follow_of_isFile hrmore hmore
  have hfollow' : t.follow true maxLinks (t.origin p) (p.names ++ more) =
      .found location' (.file content') := hfollow'
  obtain ⟨left, place, hleads⟩ := exists_leads_of_follow_append hne
    fun cause => by rw [hfollow']; simp
  rw [hleads.follow_eq] at hfollow
  cases hfollow

end

end FileTree

end FrontLint
