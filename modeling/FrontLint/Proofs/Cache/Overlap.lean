import FrontLint.Proofs.Cache.Mirror

/-!
# Documents with one place in a cache

A document below the base directory is kept under its names from there, any other one under
its names from the anchor. So two different documents are kept at the same place exactly when
one of them lies outside of the base directory, and its names are those that are kept of the
other one. Unless they are, writing the one leaves the projection of the other as it is.
-/

namespace FrontLint

namespace Path

/-- Different paths of which a cache with a base directory keeps the same names. -/
def Overlap (base p q : Path) : Prop :=
  (base.below? q = none ∧ p = ⟨base.anchor, base.names ++ q.names⟩) ∨
    (base.below? p = none ∧ q = ⟨base.anchor, base.names ++ p.names⟩) ∨
    (base.below? p = none ∧ base.below? q = none ∧ p.names = q.names)

instance (base p q : Path) : Decidable (Overlap base p q) :=
  inferInstanceAs (Decidable (_ ∨ _ ∨ _))

end Path

namespace Cache

/-- Where a document lies: its path from the base directory, normalised. -/
def placeOf (c : Cache) (source : Path) : Path := (c.base.join source).normal

theorem namesFor_eq (c : Cache) (source : Path) :
    c.namesFor source =
      (c.base.below? (c.placeOf source)).getD (c.placeOf source).namesAfterFirst := rfl

theorem pathFor_eq_iff_namesFor_eq {c : Cache} {source other : Path} :
    c.pathFor source = c.pathFor other ↔ c.namesFor source = c.namesFor other := by
  simp [pathFor]

/-- Two documents that lie at different places share the path of their projections exactly
when their places overlap. -/
theorem pathFor_eq_iff_overlap {c : Cache} (habs : c.base.isAbsolute = true)
    {source other : Path} (hne : c.placeOf source ≠ c.placeOf other) :
    c.pathFor source = c.pathFor other ↔
      Path.Overlap c.base (c.placeOf source) (c.placeOf other) := by
  have hnames : ∀ source, (c.placeOf source).namesAfterFirst = (c.placeOf source).names := by
    intro source
    have : (c.placeOf source).isAbsolute = true := Path.isAbsolute_join habs
    rw [Path.namesAfterFirst, if_pos this]
  rw [pathFor_eq_iff_namesFor_eq, namesFor_eq, namesFor_eq, hnames, hnames]
  generalize c.placeOf source = p at hne
  generalize c.placeOf other = q at hne
  cases hp : c.base.below? p with
  | some rest =>
      have hplace := Path.below?_eq_some_iff.1 hp
      cases hq : c.base.below? q with
      | some rest' =>
          have hplace' := Path.below?_eq_some_iff.1 hq
          have hrest : rest ≠ rest' := by
            rintro rfl
            exact hne (hplace.trans hplace'.symm)
          simp [Path.Overlap, hp, hq, hrest]
      | none =>
          simp only [Option.getD_some, Option.getD_none, Path.Overlap, hp, hq, reduceCtorEq,
            true_and, false_and, or_false]
          simp [hplace]
  | none =>
      cases hq : c.base.below? q with
      | some rest' =>
          have hplace' := Path.below?_eq_some_iff.1 hq
          simp only [Option.getD_some, Option.getD_none, Path.Overlap, hp, hq, reduceCtorEq,
            true_and, false_and, false_or, or_false]
          simp [hplace', eq_comm]
      | none =>
          have hpq : p ≠ ⟨c.base.anchor, c.base.names ++ q.names⟩ := by
            intro h
            rw [Path.below?_eq_some_iff.2 h] at hp
            cases hp
          have hqp : q ≠ ⟨c.base.anchor, c.base.names ++ p.names⟩ := by
            intro h
            rw [Path.below?_eq_some_iff.2 h] at hq
            cases hq
          simp [Path.Overlap, hp, hq, hpq, hqp]

/-! ## Writing one projection after another -/

namespace Confined

variable {c : Cache} {place : Location} {outer t : FileTree}

/-- A written projection is the file to which the path of the document leads. -/
theorem namesFile_write (h : Confined c place outer t) {source target : Path}
    (hs : source.IsRead) {p : Projection} (hw : (c.write source p t).1 = .ok target) :
    FileTree.Takes (c.pathFor source).text ∧
      (c.write source p t).2.NamesFile (c.pathFor source) (place ++ c.namesFor source)
        (Utf8.encodeChars p.text.toChars) := by
  have hwrite := write_eq_ok hw
  obtain ⟨ht, location, -, hlocated⟩ := FileTree.write_eq_ok hwrite
  obtain ⟨hput, hafter⟩ := h.write_prepared hs hwrite
  have hconf := h.prepared hs
  have hplain : ∀ name ∈ c.namesFor source, name.IsPlain := fun _ =>
    isPlain_of_mem_namesFor h.base_isAbsolute h.base_isRead hs
  have hnil : c.namesFor source ≠ [] := by
    intro hnil
    exact hput.ne (by rw [hnil, List.append_nil])
  obtain ⟨left, hroot⟩ := hconf.namesDirectory.leads
  rw [FileTree.locate_text_of_takes _ true (h.isRead_pathFor hs) ht] at hlocated
  have hfollow : ∀ cause, (c.prepared source t).follow true left place (c.namesFor source) ≠
      .refused cause := by
    intro cause hcause
    rw [← hroot.follow_append (.inr rfl)] at hcause
    have hrefused : (c.prepared source t).follow true FileTree.maxLinks
        ((c.prepared source t).origin (c.pathFor source)) (c.pathFor source).names =
          .refused cause := hcause
    rw [hrefused] at hlocated
    rcases hlocated with ⟨old, hl⟩ | ⟨directory, name, hl, -⟩
    · cases hl
    · cases hl
  obtain ⟨front, name, hsplit, hdown, hleads⟩ :=
    FileTree.leads_of_follow hconf.linkFree hplain hnil hfollow
  refine ⟨ht, ?_⟩
  rw [hafter]
  have hne : place ++ c.namesFor source ≠ [] := by simp [hnil]
  constructor
  case exists_leads =>
    refine ⟨c.root.names ++ front, name, left, place ++ front, ?_, ?_, hdown, ?_⟩
    · rw [pathFor, hsplit, List.append_assoc]
    · rw [hsplit, List.append_assoc]
    · exact (hroot.append hleads).put_of_replaceable hne hput.replaceable _
  case isFile => rw [FileTree.find?_put _ hne, if_pos rfl]

/-- Writing a projection under other names leaves a written one where it is. -/
theorem namesFile_write_of_ne (h : Confined c place outer t) {path source : Path}
    {names : List FileName} {content : Bytes} (hfile : t.NamesFile path (place ++ names) content)
    (hs : source.IsRead) (hne : c.namesFor source ≠ names) (p : Projection) :
    (c.write source p t).2.NamesFile path (place ++ names) content := by
  have hnil : ∀ location, place <+: location → location ≠ [] := by
    rintro _ hp rfl
    exact h.namesDirectory.ne_nil (List.prefix_nil.1 hp)
  have hprepared : (c.prepared source t).NamesFile path (place ++ names) content := by
    refine (h.prepared_keeps hs (P := fun t => t.NamesFile path (place ++ names) content)
      hfile ?_).2
    intro t location ht hp hnone
    refine ht.put (hnil _ hp.isPrefix) ?_ (.inl hnone)
    rintro rfl
    rw [ht.isFile] at hnone
    cases hnone
  rcases write_cases c source p t with heq | ⟨content', hw⟩
  · rw [heq]
    exact hprepared
  · obtain ⟨hput, hafter⟩ := h.write_prepared hs hw
    rw [hafter]
    refine hprepared.put (hnil _ hput.isPrefix) ?_ hput.replaceable
    intro heq
    exact hne (List.append_cancel_left heq)

end Confined

/-- Write projections one after another, whether or not a write succeeds. -/
def writeAll (c : Cache) (writes : List (Path × Projection)) (t : FileTree) : FileTree :=
  writes.foldl (fun t w => (c.write w.1 w.2 t).2) t

section

variable {c : Cache} {place : Location} {outer t : FileTree} {writes : List (Path × Projection)}

theorem Confined.writeAll (h : Confined c place outer t)
    (hread : ∀ w ∈ writes, w.1.IsRead) : Confined c place outer (c.writeAll writes t) := by
  induction writes generalizing t with
  | nil => exact h
  | cons w rest ih =>
      exact ih (h.cacheWrite (hread w (by simp)) w.2) fun v hv => hread v (by simp [hv])

theorem Confined.namesFile_writeAll_of_ne (h : Confined c place outer t) {path : Path}
    {names : List FileName} {content : Bytes} (hfile : t.NamesFile path (place ++ names) content)
    (hread : ∀ w ∈ writes, w.1.IsRead) (hne : ∀ w ∈ writes, c.namesFor w.1 ≠ names) :
    (c.writeAll writes t).NamesFile path (place ++ names) content := by
  induction writes generalizing t with
  | nil => exact hfile
  | cons w rest ih =>
      have hw := hread w (by simp)
      exact ih (h.cacheWrite hw w.2) (h.namesFile_write_of_ne hfile hw (hne w (by simp)) w.2)
        (fun v hv => hread v (by simp [hv])) fun v hv => hne v (by simp [hv])

end

/-- Documents at different places share a path only if the places overlap, and the projection
that is written for a document stays until one is written for the same place or for one that
overlaps with it. -/
theorem pathFor_apart {c : Cache} (habs : c.base.isAbsolute = true) :
    (∀ source other, c.placeOf source ≠ c.placeOf other →
      (c.pathFor source = c.pathFor other ↔
        Path.Overlap c.base (c.placeOf source) (c.placeOf other))) ∧
    ∀ (directory : Path) (name : FileName) (before : FileTree), before.WellFormed →
      directory.IsRead → name.IsPlain → c.base.IsRead →
      (create directory c.base name before).1.result = .ok c →
      ∀ (earlier later : List (Path × Projection)) (source target : Path) (p : Projection),
        (∀ w ∈ earlier ++ (source, p) :: later, w.1.IsRead) →
        (c.write source p (c.writeAll earlier (create directory c.base name before).2)).1 =
          .ok target →
        (∀ w ∈ later, c.placeOf w.1 ≠ c.placeOf source ∧
          ¬ Path.Overlap c.base (c.placeOf w.1) (c.placeOf source)) →
        (c.writeAll (earlier ++ (source, p) :: later)
            (create directory c.base name before).2).read (c.pathFor source).text =
          .ok (Utf8.encodeChars p.text.toChars) := by
  refine ⟨fun source other hne => pathFor_eq_iff_overlap habs hne, ?_⟩
  intro directory name before hwell hdirectory hname hbase hcreate earlier later source target p
    hread hwrite hapart
  obtain ⟨-, place, hconfined, -⟩ :=
    confined_create hwell hdirectory hname hbase habs hcreate
  have hearlier : ∀ w ∈ earlier, w.1.IsRead := fun w hw => hread w (by simp [hw])
  have hsource : source.IsRead := hread (source, p) (by simp)
  have hlater : ∀ w ∈ later, w.1.IsRead := fun w hw => hread w (by simp [hw])
  have hfirst := hconfined.writeAll hearlier
  obtain ⟨htakes, hfile⟩ := hfirst.namesFile_write hsource hwrite
  have hnames : ∀ w ∈ later, c.namesFor w.1 ≠ c.namesFor source := by
    intro w hw heq
    obtain ⟨hne, hnot⟩ := hapart w hw
    exact hnot ((pathFor_eq_iff_overlap habs hne).1 (pathFor_eq_iff_namesFor_eq.2 heq))
  have hlast := (hfirst.cacheWrite hsource p).namesFile_writeAll_of_ne hfile hlater hnames
  have hsplit : c.writeAll (earlier ++ (source, p) :: later)
      (create directory c.base name before).2 =
        c.writeAll later
          (c.write source p (c.writeAll earlier (create directory c.base name before).2)).2 := by
    simp [writeAll]
  rw [hsplit]
  exact hlast.read (hfirst.isRead_pathFor hsource) htakes

/-- A cache for the documents below a directory of the top. -/
def topCache : Cache := ⟨⟨.slash, [['c'], ['7']]⟩, ⟨.slash, [['p']]⟩⟩

/-- A document outside of the base directory, and then two below it, one of them in a
directory of the same name. -/
theorem pathFor_apart_topCache :
    let outside : Path := ⟨.relative, [['.', '.'], ['q'], ['a']]⟩
    let below : List Path := [⟨.relative, [['q'], ['b']]⟩, ⟨.slash, [['p'], ['a']]⟩]
    let projection : Projection := ⟨[Text.ofChars ['A']]⟩
    let later := below.map fun source => (source, (⟨[Text.ofChars ['B']]⟩ : Projection))
    let empty := (create ⟨.slash, [['c']]⟩ topCache.base ['7'] ⟨[], []⟩).2
    topCache.base.isAbsolute = true ∧
      (∀ source ∈ below, topCache.pathFor outside ≠ topCache.pathFor source) ∧
      (topCache.writeAll ((outside, projection) :: later) empty).read
        (topCache.pathFor outside).text = .ok [65] := by
  have habs : topCache.base.isAbsolute = true := by decide
  refine ⟨habs, ?_, ?_⟩
  · intro source hsource heq
    have hne : topCache.placeOf ⟨.relative, [['.', '.'], ['q'], ['a']]⟩ ≠
        topCache.placeOf source := by
      revert source
      decide
    have hoverlap := ((pathFor_apart habs).1 _ _ hne).1 heq
    revert source
    decide
  · exact (pathFor_apart habs).2 ⟨.slash, [['c']]⟩ ['7'] ⟨[], []⟩ (by decide) (by decide)
      (by decide) (by decide) (Noted.eq_ok_of_toOption (by decide +kernel)) [] _ _
      (topCache.pathFor ⟨.relative, [['.', '.'], ['q'], ['a']]⟩) _ (by decide)
      (Noted.eq_ok_of_toOption (by decide +kernel)) (by decide)

/-- A document outside of the base directory and one below it are kept at one place. -/
theorem pathFor_eq_topCache :
    let outside : Path := ⟨.relative, [['.', '.'], ['a']]⟩
    let below : Path := ⟨.relative, [['a']]⟩
    topCache.base.isAbsolute = true ∧ topCache.base.normal = topCache.base ∧
      topCache.placeOf outside ≠ topCache.placeOf below ∧
      topCache.pathFor outside = topCache.pathFor below := by
  decide

end Cache

end FrontLint
