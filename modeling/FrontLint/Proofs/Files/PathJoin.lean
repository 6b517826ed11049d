import FrontLint.Proofs.Files.PathText

/-!
# Texts of joined paths

The matches of a pattern are put together as texts. Read as a path, one text behind another is
the path of the second one seen from the path of the first one.
-/

namespace FrontLint

namespace Anchor

theorem ofText_eq_relative_iff {t : List Char} : ofText t = .relative ↔ t.head? ≠ some '/' := by
  cases t with
  | nil => simp [ofText]
  | cons c rest =>
      by_cases hc : c = '/'
      · subst hc
        cases rest with
        | nil => simp [ofText]
        | cons d rest =>
            by_cases hd : d = '/'
            · subst hd
              cases rest with
              | nil => simp [ofText]
              | cons e rest => by_cases he : e = '/' <;> simp [ofText, he]
            · simp [ofText, hd]
      · simp [ofText, hc]

/-- More characters leave the anchor unless they add a slash to slashes. -/
theorem ofText_append {a r : List Char} (ha : a ≠ [])
    (h : r.head? ≠ some '/' ∨ a.getLast? ≠ some '/') : ofText (a ++ r) = ofText a := by
  have hslash : a.getLast? = some '/' → r = [] ∨ ∃ c rest, r = c :: rest ∧ c ≠ '/' := by
    intro hlast
    have hhead := h.resolve_right (not_not_intro hlast)
    cases r with
    | nil => exact .inl rfl
    | cons c rest => exact .inr ⟨c, rest, rfl, by simpa using hhead⟩
  cases a with
  | nil => exact absurd rfl ha
  | cons c a =>
      by_cases hc : c = '/'
      · subst hc
        cases a with
        | nil =>
            rcases hslash rfl with rfl | ⟨d, rest, rfl, hd⟩
            · rfl
            · simp [ofText, hd]
        | cons d a =>
            by_cases hd : d = '/'
            · subst hd
              cases a with
              | nil =>
                  rcases hslash rfl with rfl | ⟨e, rest, rfl, he⟩
                  · rfl
                  · simp [ofText, he]
              | cons e a => by_cases he : e = '/' <;> simp [ofText, he]
            · simp [ofText, hd]
      · simp [ofText, hc]

end Anchor

namespace Path

@[simp] theorem ofText_nil : ofText [] = ⟨.relative, []⟩ := rfl

theorem names_ofText_append_slash (a b : List Char) :
    (ofText (a ++ '/' :: b)).names = (ofText a).names ++ (ofText b).names := by
  simp only [ofText, List.splitOn_append_cons_self, List.filter_append]

theorem isAbsolute_ofText_iff {t : List Char} :
    (ofText t).isAbsolute = true ↔ t.head? = some '/' := by
  have h : (ofText t).anchor = .relative ↔ t.head? ≠ some '/' := Anchor.ofText_eq_relative_iff
  by_cases hhead : t.head? = some '/'
  · simp [isAbsolute, h, hhead]
  · simp [isAbsolute, h, hhead]

theorem anchor_of_isAbsolute_eq_false {p : Path} (h : p.isAbsolute = false) :
    p.anchor = .relative := by
  cases p with
  | mk anchor names =>
      cases anchor with
      | relative => rfl
      | slash => cases h
      | twoSlashes => cases h

theorem join_of_relative (p : Path) {q : Path} (h : q.anchor = .relative) :
    p.join q = ⟨p.anchor, p.names ++ q.names⟩ := by
  cases q with
  | mk anchor names =>
      cases h
      rfl

/-- One text behind another is the one path seen from the other. -/
theorem ofText_attach_eq_join (a b : List Char) :
    ofText (Glob.attach a b) = (ofText a).join (ofText b) := by
  by_cases hb : b.head? = some '/'
  · rw [Glob.attach, if_pos hb, join_of_isAbsolute _ (isAbsolute_ofText_iff.2 hb)]
  · rw [join_of_relative _ (Anchor.ofText_eq_relative_iff.2 hb), Glob.attach, if_neg hb]
    by_cases ha : a = []
    · subst ha
      have hanchor : (ofText b).anchor = .relative := Anchor.ofText_eq_relative_iff.2 hb
      simp only [List.isEmpty_nil, Bool.true_or, if_true, List.nil_append, ofText_nil]
      rw [← hanchor]
    · have hempty : a.isEmpty = false := by simpa using ha
      by_cases hlast : a.getLast? = some '/'
      · -- the slash that ends the first text stands between the two
        obtain ⟨front, rfl⟩ := List.getLast?_eq_some_iff.1 hlast
        have hnames := names_ofText_append_slash front b
        have hfront := names_ofText_append_slash front []
        rw [ofText_nil, List.append_nil] at hfront
        have hanchor := Anchor.ofText_append ha (.inl hb)
        simp only [hempty, hlast, Bool.false_or, decide_true, if_true, hfront]
        rw [← hnames, List.append_assoc, List.singleton_append]
        rw [List.append_assoc, List.singleton_append] at hanchor
        exact congrArg (Path.mk · _) hanchor
      · have hanchor : Anchor.ofText (a ++ '/' :: b) = Anchor.ofText a :=
          Anchor.ofText_append ha (.inr hlast)
        simp only [hempty, hlast, Bool.false_or, decide_false, Bool.false_eq_true, if_false]
        rw [← names_ofText_append_slash a b]
        exact congrArg (Path.mk · _) hanchor

theorem ofText_within (a b : List Char) :
    ofText (Glob.within a b) = (ofText a).join (ofText b) := by
  rw [Glob.within]
  by_cases ha : a = []
  · subst ha
    have hattach : Glob.attach [] b = b := by
      rw [Glob.attach]
      split <;> rfl
    rw [if_pos List.isEmpty_nil, ← ofText_attach_eq_join, hattach]
  · rw [if_neg (by simpa using ha)]
    by_cases hb : b = []
    · subst hb
      simp
    · rw [if_neg (by simpa using hb), ofText_attach_eq_join]

theorem join_assoc (p q r : Path) : (p.join q).join r = p.join (q.join r) := by
  cases r with
  | mk anchor names =>
      cases anchor with
      | relative =>
          cases q with
          | mk anchor names => cases anchor <;> simp [join]
      | slash => rfl
      | twoSlashes => rfl

end Path

namespace Glob

theorem mem_of_mem_attach {a b : List Char} {c : Char} (h : c ∈ attach a b) :
    c ∈ a ∨ c ∈ b ∨ c = '/' := by
  rw [attach] at h
  split at h
  · exact .inr (.inl h)
  · split at h
    · exact (List.mem_append.1 h).imp_right .inl
    · rcases List.mem_append.1 h with h | h
      · exact .inl h
      · exact .inr ((List.mem_cons.1 h).symm)

theorem mem_of_mem_within {a b : List Char} {c : Char} (h : c ∈ within a b) :
    c ∈ a ∨ c ∈ b ∨ c = '/' := by
  rw [within] at h
  split at h
  · exact .inr (.inl h)
  · split at h
    · exact .inl h
    · exact mem_of_mem_attach h

theorem mem_within_of_mem_right {root path : List Char} {c : Char} (h : c ∈ path) :
    c ∈ within root path := by
  rw [within]
  split
  · exact h
  · split
    · rename_i hempty
      rw [List.isEmpty_iff.1 hempty] at h
      cases h
    · rw [attach]
      split
      · exact h
      · split <;> simp [h]

theorem mem_within_of_mem_left {root path : List Char} {c : Char}
    (hpath : path.head? ≠ some '/') (h : c ∈ root) : c ∈ within root path := by
  rw [within]
  split
  · rename_i hempty
    rw [List.isEmpty_iff.1 hempty] at h
    cases h
  · split
    · exact h
    · rw [attach, if_neg hpath]
      split <;> simp [h]

/-- A match holds no other characters than the text before it and its last name, but for
slashes. -/
theorem mem_of_mem_within_attach {root path name : List Char} {c : Char}
    (h : c ∈ within root (attach path name)) : c ∈ within root path ∨ c ∈ name ∨ c = '/' := by
  have hbehind : c ∈ attach path name → c ∈ within root path ∨ c ∈ name ∨ c = '/' :=
    fun hc => (mem_of_mem_attach hc).imp_left mem_within_of_mem_right
  rw [within] at h
  split at h
  · exact hbehind h
  · split at h
    · rename_i hroot hempty
      have hpath : path = [] := by
        rw [List.isEmpty_iff, attach] at hempty
        split at hempty
        · simp_all
        · split at hempty <;> simp_all
      left
      rw [within, if_neg hroot, hpath]
      exact h
    · rcases mem_of_mem_attach h with hroot | hc | rfl
      · by_cases hname : name.head? = some '/'
        · right
          left
          rw [attach, attach, if_pos hname, if_pos hname] at h
          exact h
        · by_cases hpath : path.head? = some '/'
          · refine hbehind ?_
            have hhead : (attach path name).head? = some '/' := by
              rw [attach, if_neg hname]
              cases path with
              | nil => cases hpath
              | cons d rest => split <;> simpa using hpath
            rwa [attach, if_pos hhead] at h
          · exact .inl (mem_within_of_mem_left hpath hroot)
      · exact hbehind hc
      · exact .inr (.inr rfl)

end Glob

end FrontLint
