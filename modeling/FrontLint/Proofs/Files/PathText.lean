import FrontLint.Files.Glob
import Mathlib.Data.List.Basic

/-!
# Texts of paths

A path that was read from a text has names without slashes, none of them empty or a single
dot. Its own text gives back these names, one step each.
-/

namespace FrontLint

/-- A name that stays when a path is read: not empty, not a single dot, without slashes. -/
structure FileName.IsRead (name : FileName) : Prop where
  isName : Path.isName name = true
  slash_not_mem : '/' ∉ name

instance (name : FileName) : Decidable name.IsRead :=
  decidable_of_iff (Path.isName name = true ∧ '/' ∉ name)
    ⟨fun h => ⟨h.1, h.2⟩, fun h => ⟨h.isName, h.slash_not_mem⟩⟩

theorem FileName.IsRead.ne_nil {name : FileName} (h : name.IsRead) : name ≠ [] := by
  have := h.isName
  simp only [Path.isName, Bool.and_eq_true, bne_iff_ne] at this
  exact this.1

theorem FileName.IsRead.ne_here {name : FileName} (h : name.IsRead) : name ≠ FileName.here := by
  have := h.isName
  simp only [Path.isName, Bool.and_eq_true, bne_iff_ne] at this
  exact this.2

/-- A path that was read from a text. -/
def Path.IsRead (p : Path) : Prop := ∀ name ∈ p.names, name.IsRead

instance (p : Path) : Decidable p.IsRead :=
  inferInstanceAs (Decidable (∀ name ∈ p.names, name.IsRead))

theorem slash_not_mem_of_mem_splitOn {t name : List Char} (h : name ∈ t.splitOn '/') :
    '/' ∉ name := by
  induction t generalizing name with
  | nil =>
      rw [List.splitOn_nil, List.mem_singleton] at h
      simp [h]
  | cons c t ih =>
      rw [List.splitOn_cons_eq_if_modifyHead] at h
      split at h
      · rcases List.mem_cons.1 h with rfl | h
        · simp
        · exact ih h
      · rename_i hc
        obtain ⟨first, rest, hs⟩ := List.exists_cons_of_ne_nil (List.splitOn_ne_nil '/' t)
        rw [hs, List.modifyHead_cons] at h
        rcases List.mem_cons.1 h with rfl | h
        · have hfirst : '/' ∉ first := ih (by simp [hs])
          have hne : ¬ '/' = c := by
            rintro rfl
            exact hc (by simp)
          simp [hfirst, hne]
        · exact ih (by simp [hs, h])

theorem mem_of_mem_splitOn {t name : List Char} {c : Char} (h : name ∈ t.splitOn '/')
    (hc : c ∈ name) : c ∈ t := by
  induction t generalizing name with
  | nil =>
      rw [List.splitOn_nil, List.mem_singleton] at h
      simp [h] at hc
  | cons d t ih =>
      rw [List.splitOn_cons_eq_if_modifyHead] at h
      split at h
      · rcases List.mem_cons.1 h with rfl | h
        · simp at hc
        · exact List.mem_cons_of_mem d (ih h hc)
      · obtain ⟨first, rest, hs⟩ := List.exists_cons_of_ne_nil (List.splitOn_ne_nil '/' t)
        rw [hs, List.modifyHead_cons] at h
        rcases List.mem_cons.1 h with rfl | h
        · rcases List.mem_cons.1 hc with rfl | hc
          · exact List.mem_cons_self
          · exact List.mem_cons_of_mem d (ih (by rw [hs]; exact List.mem_cons_self) hc)
        · exact List.mem_cons_of_mem d (ih (by rw [hs]; exact List.mem_cons_of_mem _ h) hc)

theorem mem_of_mem_slashed {names : List FileName} {c : Char} (h : c ∈ slashed names) :
    c = '/' ∨ ∃ name ∈ names, c ∈ name := by
  induction names with
  | nil => simp [slashed] at h
  | cons name rest ih =>
      cases rest with
      | nil => exact .inr ⟨name, List.mem_cons_self, h⟩
      | cons next rest =>
          rw [slashed, List.mem_append, List.mem_cons] at h
          rcases h with h | h | h
          · exact .inr ⟨name, List.mem_cons_self, h⟩
          · exact .inl h
          · refine (ih h).imp_right ?_
            rintro ⟨other, hother, hc⟩
            exact ⟨other, List.mem_cons_of_mem _ hother, hc⟩

theorem mem_slashed {names : List FileName} {name : FileName} {c : Char} (hn : name ∈ names)
    (hc : c ∈ name) : c ∈ slashed names := by
  induction names with
  | nil => cases hn
  | cons first rest ih =>
      cases rest with
      | nil => rwa [slashed, ← List.mem_singleton.1 hn]
      | cons next rest =>
          rw [slashed, List.mem_append, List.mem_cons]
          rcases List.mem_cons.1 hn with rfl | hn
          · exact .inl hc
          · exact .inr (.inr (ih hn))

/-- A path that was read has no other characters than its text, but for slashes. -/
theorem mem_of_mem_slashed_ofText {t : List Char} {c : Char}
    (h : c ∈ slashed (Path.ofText t).names) : c = '/' ∨ c ∈ t := by
  refine (mem_of_mem_slashed h).imp_right ?_
  rintro ⟨name, hname, hc⟩
  exact mem_of_mem_splitOn (List.mem_filter.1 hname).1 hc

theorem Path.isRead_ofText (t : List Char) : (Path.ofText t).IsRead := by
  intro name h
  obtain ⟨hsplit, hname⟩ := List.mem_filter.1 h
  exact ⟨hname, slash_not_mem_of_mem_splitOn hsplit⟩

theorem splitOn_slash_cons (t : List Char) : ('/' :: t).splitOn '/' = [] :: t.splitOn '/' := by
  rw [List.splitOn_cons_eq_if_modifyHead, if_pos (by simp)]

theorem slashed_cons (name : FileName) {rest : List FileName} (h : rest ≠ []) :
    slashed (name :: rest) = name ++ '/' :: slashed rest := by
  cases rest with
  | nil => exact absurd rfl h
  | cons next rest => rfl

theorem slashed_append_singleton {names : List FileName} (h : names ≠ []) (name : FileName) :
    slashed (names ++ [name]) = slashed names ++ '/' :: name := by
  induction names with
  | nil => exact absurd rfl h
  | cons first rest ih =>
      cases rest with
      | nil => rfl
      | cons next rest =>
          rw [List.cons_append, slashed_cons first (by simp), slashed_cons first (by simp),
            ih (by simp), List.append_assoc, List.cons_append]

theorem splitOn_slashed {names : List FileName} (hne : names ≠ [])
    (h : ∀ name ∈ names, '/' ∉ name) : (slashed names).splitOn '/' = names := by
  induction names with
  | nil => exact absurd rfl hne
  | cons name rest ih =>
      have hname : '/' ∉ name := h name (by simp)
      cases rest with
      | nil => exact List.splitOn_eq_singleton hname
      | cons next rest =>
          rw [slashed_cons name (by simp), List.splitOn_append_cons_self_of_not_mem hname,
            ih (by simp) fun other hother => h other (by simp [hother])]

theorem slashed_ne_nil {names : List FileName} (hne : names ≠ [])
    (h : ∀ name ∈ names, name ≠ []) : slashed names ≠ [] := by
  cases names with
  | nil => exact absurd rfl hne
  | cons name rest =>
      have hname := h name (by simp)
      cases rest with
      | nil => simpa [slashed] using hname
      | cons next rest => simp [slashed]

/-- Slashed names end as the last name does. -/
theorem getLast?_slashed {names : List FileName} (hne : names ≠ [])
    (h : ∀ name ∈ names, name.IsRead) : (slashed names).getLast? ≠ some '/' := by
  induction names with
  | nil => exact absurd rfl hne
  | cons name rest ih =>
      cases rest with
      | nil =>
          intro hlast
          exact (h name (by simp)).slash_not_mem (List.mem_of_getLast? hlast)
      | cons next rest =>
          have hrest : slashed (next :: rest) ≠ [] :=
            slashed_ne_nil (by simp) fun other hother => (h other (by simp [hother])).ne_nil
          rw [slashed_cons name (by simp), List.getLast?_append, List.getLast?_cons,
            Option.some_or, List.getLast?_eq_getLast_of_ne_nil hrest, Option.getD_some]
          rw [← List.getLast?_eq_getLast_of_ne_nil hrest]
          exact ih (by simp) fun other hother => h other (by simp [hother])

theorem head?_slashed {names : List FileName} (h : ∀ name ∈ names, name.IsRead) :
    (slashed names).head? ≠ some '/' := by
  cases names with
  | nil => simp [slashed]
  | cons name rest =>
      have hname := h name (by simp)
      obtain ⟨c, tail, hc⟩ := List.exists_cons_of_ne_nil hname.ne_nil
      have hslash : c ≠ '/' := by
        rintro rfl
        exact hname.slash_not_mem (by simp [hc])
      cases rest with
      | nil => simpa [slashed, hc] using hslash
      | cons next rest => simpa [slashed, hc] using hslash

namespace Path

theorem text_relative {names : List FileName} (hne : names ≠ []) :
    (Path.mk .relative names).text = slashed names := by
  cases names with
  | nil => exact absurd rfl hne
  | cons name rest => rfl

theorem text_of_isAbsolute {p : Path} (h : p.isAbsolute = true) :
    p.text = p.anchor.text ++ slashed p.names := by
  cases p with
  | mk anchor names =>
      cases anchor with
      | relative => simp [isAbsolute] at h
      | slash => rfl
      | twoSlashes => rfl

theorem mem_text {p : Path} {name : FileName} {c : Char} (hn : name ∈ p.names) (hc : c ∈ name) :
    c ∈ p.text := by
  cases p with
  | mk anchor names =>
      cases anchor with
      | relative =>
          rw [text_relative (List.ne_nil_of_mem hn)]
          exact mem_slashed hn hc
      | slash => exact List.mem_append_right _ (mem_slashed hn hc)
      | twoSlashes => exact List.mem_append_right _ (mem_slashed hn hc)

theorem text_ne_nil {p : Path} (h : p.IsRead) : p.text ≠ [] := by
  cases p with
  | mk anchor names =>
      cases anchor with
      | relative =>
          cases names with
          | nil => simp [text, FileName.here]
          | cons name rest =>
              rw [text_relative (by simp)]
              exact slashed_ne_nil (by simp) fun other hother => (h other hother).ne_nil
      | slash => simp [text, Anchor.text]
      | twoSlashes => simp [text, Anchor.text]

end Path

namespace FileTree

/-- The directory from which the names of a path are followed. -/
def origin (t : FileTree) (p : Path) : Location := if p.isAbsolute then [] else t.current

theorem startOf_text (t : FileTree) {p : Path} (h : p.IsRead) :
    startOf t.current p.text = t.origin p := by
  cases p with
  | mk anchor names =>
      cases anchor with
      | relative =>
          cases names with
          | nil => simp [startOf, origin, Path.text, Path.isAbsolute, FileName.here]
          | cons name rest =>
              rw [startOf, Path.text_relative (by simp), if_neg (head?_slashed h)]
              simp [origin, Path.isAbsolute]
      | slash => simp [startOf, origin, Path.text, Path.isAbsolute, Anchor.text]
      | twoSlashes => simp [startOf, origin, Path.text, Path.isAbsolute, Anchor.text]

/-- The steps of a path are its names. A path without names has the step of a dot. -/
theorem stepsOf_text {p : Path} (h : p.IsRead) :
    stepsOf p.text = if p.names = [] then [FileName.here] else p.names := by
  have hkeep : ∀ names : List FileName, (∀ name ∈ names, name.IsRead) →
      names.filter (· ≠ []) = names := by
    intro names hnames
    rw [List.filter_eq_self]
    intro name hname
    simpa using (hnames name hname).ne_nil
  have hsplit : p.names ≠ [] → (slashed p.names).splitOn '/' = p.names := fun hne =>
    splitOn_slashed hne fun name hname => (h name hname).slash_not_mem
  cases p with
  | mk anchor names =>
      cases names with
      | nil => cases anchor <;> decide
      | cons name rest =>
          have hlast := getLast?_slashed (by simp) h
          have hne : slashed (name :: rest) ≠ [] :=
            slashed_ne_nil (by simp) fun other hother => (h other hother).ne_nil
          have hend (front : List Char) :
              (front ++ slashed (name :: rest)).getLast? ≠ some '/' := by
            rw [List.getLast?_append_of_ne_nil front hne]
            exact hlast
          cases anchor with
          | relative =>
              rw [stepsOf, Path.text_relative (by simp), hsplit (by simp), if_neg hlast,
                hkeep _ h]
              simp
          | slash =>
              rw [stepsOf, Path.text_of_isAbsolute (by simp [Path.isAbsolute]),
                if_neg (hend _), Anchor.text, List.singleton_append, splitOn_slash_cons,
                hsplit (by simp), List.filter_cons_of_neg (by simp), hkeep _ h]
              simp
          | twoSlashes =>
              rw [stepsOf, Path.text_of_isAbsolute (by simp [Path.isAbsolute]),
                if_neg (hend _), Anchor.text, List.cons_append, List.singleton_append,
                splitOn_slash_cons, splitOn_slash_cons, hsplit (by simp),
                List.filter_cons_of_neg (by simp), List.filter_cons_of_neg (by simp), hkeep _ h]
              simp

end FileTree

namespace Path

theorem ofText_text {p : Path} (h : p.IsRead) : ofText p.text = p := by
  have hkeep (names : List FileName) (hnames : ∀ name ∈ names, name.IsRead) :
      names.filter isName = names := by
    rw [List.filter_eq_self]
    intro name hname
    exact (hnames name hname).isName
  cases p with
  | mk anchor names =>
      cases names with
      | nil => cases anchor <;> decide
      | cons name rest =>
          have hsplit : (slashed (name :: rest)).splitOn '/' = name :: rest :=
            splitOn_slashed (by simp) fun other hother => (h other hother).slash_not_mem
          have hhead := head?_slashed h
          have hempty : isName [] = false := by decide
          have hne : slashed (name :: rest) ≠ [] :=
            slashed_ne_nil (by simp) fun other hother => (h other hother).ne_nil
          obtain ⟨c, tail, hc⟩ := List.exists_cons_of_ne_nil hne
          have hslash : c ≠ '/' := by
            rintro rfl
            exact hhead (by simp [hc])
          cases anchor with
          | relative =>
              rw [text_relative (by simp), ofText, hsplit, hkeep _ h, hc]
              simp [Anchor.ofText, hslash]
          | slash =>
              rw [text_of_isAbsolute (by simp [isAbsolute]), Anchor.text, List.singleton_append,
                ofText, splitOn_slash_cons, hsplit, List.filter_cons_of_neg (by simp [hempty]),
                hkeep _ h, hc]
              simp [Anchor.ofText, hslash]
          | twoSlashes =>
              rw [text_of_isAbsolute (by simp [isAbsolute]), Anchor.text, List.cons_append,
                List.singleton_append, ofText, splitOn_slash_cons, splitOn_slash_cons, hsplit,
                List.filter_cons_of_neg (by simp [hempty]),
                List.filter_cons_of_neg (by simp [hempty]), hkeep _ h, hc]
              simp [Anchor.ofText, hslash]

/-- The path of a name in the directory of a path. -/
def child (p : Path) (name : FileName) : Path := ⟨p.anchor, p.names ++ [name]⟩

theorem isRead_child {p : Path} (h : p.IsRead) {name : FileName} (hn : name.IsRead) :
    (p.child name).IsRead := by
  intro other hother
  rcases List.mem_append.1 hother with hother | hother
  · exact h other hother
  · exact List.mem_singleton.1 hother ▸ hn

/-- A name behind the text of a path is the text of its path, but for the path of a dot. -/
theorem attach_text {p : Path} (h : p.IsRead) {name : FileName} (hn : name.IsRead) :
    Glob.attach p.text name =
      if p = ⟨.relative, []⟩ then '.' :: '/' :: name else (p.child name).text := by
  have hhead : name.head? ≠ some '/' := by
    intro hhead
    exact hn.slash_not_mem (List.mem_of_head? hhead)
  cases p with
  | mk anchor names =>
      cases names with
      | nil => cases anchor <;> simp [Glob.attach, hhead, text, child, Anchor.text, slashed,
          FileName.here]
      | cons first rest =>
          have hlast := getLast?_slashed (by simp) h
          have hne : slashed (first :: rest) ≠ [] :=
            slashed_ne_nil (by simp) fun other hother => (h other hother).ne_nil
          have htext : (Path.mk anchor (first :: rest)).text =
              anchor.text ++ slashed (first :: rest) := by
            cases anchor <;> rfl
          have hchild : ((Path.mk anchor (first :: rest)).child name).text =
              anchor.text ++ slashed (first :: rest ++ [name]) := by
            cases anchor <;> rfl
          rw [htext, hchild, slashed_append_singleton (by simp), Glob.attach, if_neg hhead,
            if_neg (by simpa [hne] using hlast)]
          simp

theorem ofText_attach {p : Path} (h : p.IsRead) {name : FileName} (hn : name.IsRead) :
    ofText (Glob.attach p.text name) = p.child name := by
  rw [attach_text h hn]
  split
  · rename_i hp
    subst hp
    have hname : name.splitOn '/' = [name] := List.splitOn_eq_singleton hn.slash_not_mem
    have hdot : ('.' :: '/' :: name).splitOn '/' = [['.'], name] := by
      rw [show '.' :: '/' :: name = ['.'] ++ '/' :: name from rfl,
        List.splitOn_append_cons_self_of_not_mem (by decide), hname]
    rw [ofText, hdot]
    simp [Anchor.ofText, isName, FileName.here, child, hn.ne_nil]
    exact hn.ne_here
  · exact ofText_text (isRead_child h hn)

end Path

end FrontLint
