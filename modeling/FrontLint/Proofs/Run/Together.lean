import FrontLint.Proofs.Cache.Deposit
import FrontLint.Proofs.Run.Accounting

/-!
# Documents together

Documents of which none leaves something in the way of another one do not disturb each other.
What comes of each of them is what comes of it alone, and below the root is what each of them
leaves there. So neither depends on their order.

## Implementation notes

The order of documents is not changed step by step. After any of them the tree is compared with
what they leave together, in which there is no order.
-/

namespace FrontLint

namespace Cache

open FileTree

/-- What a document leaves below the root: what its projection on a tree leaves there, if it
has one. -/
def Deposits [HashSeed] (c : Cache) (tree : FileTree) (file : List Char) (names : List FileName)
    (entry : Entry) : Prop :=
  ∃ p, (c.project file tree).result = .ok (some p) ∧ c.Leaves (.ofText file) p names entry

/-- Documents whose projections do not depend on what is below the root, and of which none
leaves something in the way of another one. -/
structure AreApart [HashSeed] (c : Cache) (place : Location) (outer tree : FileTree)
    (documents : List (List Char)) : Prop where
  project_eq : ∀ file ∈ documents, ∀ t, c.Confined place outer t →
    c.project file t = c.project file tree
  isDownward : ∀ file ∈ documents, ∀ name ∈ c.namesFor (.ofText file), name.IsDownward
  eq_of_deposits : ∀ file ∈ documents, ∀ other ∈ documents, ∀ names old new,
    c.Deposits tree file names old → c.Deposits tree other names new → old = new

/-- Below the root is what some documents leave there. -/
structure Collects [HashSeed] (c : Cache) (place : Location) (outer tree : FileTree)
    (done : List (List Char)) (t : FileTree) : Prop where
  confined : c.Confined place outer t
  find?_iff : ∀ names, names ≠ [] → ∀ entry, t.find? (place ++ names) = some entry ↔
    ∃ file ∈ done, c.Deposits tree file names entry

variable {c : Cache} {place : Location} {outer tree t t' : FileTree} {file : List Char}
  {documents done rest : List (List Char)}

theorem collects_nil [HashSeed] (hc : c.Confined place outer tree) (hempty : tree.EmptyAt place) :
    Collects c place outer tree [] tree := by
  refine ⟨hc, fun names hne entry => ⟨fun hentry => ?_, fun ⟨file, hfile, _⟩ => by cases hfile⟩⟩
  have hnil : place ++ names ≠ [] := by simp [hne]
  have heq := hempty _ (mem_of_find?_eq_some hnil hentry) (List.prefix_append _ _)
  exact absurd (congrArg Prod.fst heq) (by simpa using hne)

namespace Collects

variable [HashSeed]

theorem closedBelow (h : Collects c place outer tree done t) : t.ClosedBelow place := by
  intro above names entry hentry habove hne
  by_cases hnil : above = []
  · rw [hnil, List.append_nil]
    exact h.confined.namesDirectory.isDirectory
  · have hnames : names ≠ [] := by
      rintro rfl
      exact hnil (List.prefix_nil.1 habove)
    obtain ⟨file, hfile, p, hp, hleaves⟩ := (h.find?_iff names hnames entry).1 hentry
    exact (h.find?_iff above hnil .directory).2
      ⟨file, hfile, p, hp, hleaves.above hnil ⟨habove, hne⟩⟩

/-- What one more document leaves is not in the way of what the others left. -/
theorem admits (h : Collects c place outer tree done t)
    (hapart : c.AreApart place outer tree documents) (hdone : done ⊆ documents)
    (hfile : file ∈ documents) {p : Projection}
    (hp : (c.project file tree).result = .ok (some p)) :
    c.Admits place outer t (.ofText file) p := by
  refine ⟨h.confined, h.closedBelow, fun names old new hold hnew => ?_⟩
  obtain ⟨other, hother, hdeposits⟩ := (h.find?_iff names hnew.ne_nil old).1 hold
  exact hapart.eq_of_deposits other (hdone hother) file hfile names old new hdeposits
    ⟨p, hp, hnew⟩

/-- A document without a projection leaves nothing. -/
theorem concat_of_not_ok_some (h : Collects c place outer tree done t)
    (hp : ∀ p, (c.project file tree).result ≠ .ok (some p)) :
    Collects c place outer tree (done ++ [file]) t := by
  refine ⟨h.confined, fun names hne entry => (h.find?_iff names hne entry).trans ?_⟩
  have hnone : ¬ c.Deposits tree file names entry := fun ⟨p, hproject, _⟩ => hp p hproject
  simp [or_and_right, exists_or, hnone]

theorem concat_of_gainsBelow (h : Collects c place outer tree done t) {p : Projection}
    (hp : (c.project file tree).result = .ok (some p)) (hc : c.Confined place outer t')
    (hgains : t.GainsBelow place (c.Leaves (.ofText file) p) t') :
    Collects c place outer tree (done ++ [file]) t' := by
  refine ⟨hc, fun names hne entry => (hgains names hne entry).trans ?_⟩
  have hdeposits : c.Deposits tree file names entry ↔ c.Leaves (.ofText file) p names entry := by
    constructor
    · rintro ⟨other, hother, hleaves⟩
      rw [hp] at hother
      cases hother
      exact hleaves
    · exact fun hleaves => ⟨p, hp, hleaves⟩
  rw [h.find?_iff names hne]
  simp [or_and_right, exists_or, hdeposits]

/-- Of one more document comes what comes of it alone, and what it leaves is added. -/
theorem process (h : Collects c place outer tree done t)
    (hempty : Collects c place outer tree [] tree)
    (hapart : c.AreApart place outer tree documents) (hdone : done ⊆ documents)
    (hfile : file ∈ documents) :
    (c.process file t).1.result = (c.process file tree).1.result ∧
      Collects c place outer tree (done ++ [file]) (c.process file t).2 := by
  have hproject := hapart.project_eq file hfile t h.confined
  cases hp : (c.project file tree).result with
  | error fault =>
      have ht := process_of_error (hproject ▸ hp)
      rw [ht.1, ht.2, (process_of_error hp).1]
      exact ⟨rfl, h.concat_of_not_ok_some (by simp [hp])⟩
  | ok found =>
      cases found with
      | none =>
          have ht := process_of_ok_none (hproject ▸ hp)
          rw [ht.1, ht.2, (process_of_ok_none hp).1]
          exact ⟨rfl, h.concat_of_not_ok_some (by simp [hp])⟩
      | some p =>
          have hread := Path.isRead_ofText file
          obtain ⟨result, hresult⟩ := exists_write_result c place outer
            (h.confined.isRead_pathFor hread) hread (hapart.isDownward file hfile) p
          obtain ⟨hwrite, hgains⟩ := hresult t (h.admits hapart hdone hfile hp)
          have halone := (hresult tree
            (hempty.admits hapart (List.nil_subset _) hfile hp)).1
          have ht := process_of_ok_some (hproject ▸ hp)
          rw [ht.1, ht.2, (process_of_ok_some hp).1, hwrite, halone]
          exact ⟨rfl, h.concat_of_gainsBelow hp (h.confined.cacheWrite hread p) hgains⟩

/-- Of documents in turn comes what comes of each of them alone, and what they leave is
added. -/
theorem processInTurn (h : Collects c place outer tree done t)
    (hempty : Collects c place outer tree [] tree)
    (hapart : c.AreApart place outer tree documents) (hdone : done ⊆ documents)
    (hrest : rest ⊆ documents) :
    (c.processInTurn rest t).1 = rest.map (fun file => (c.process file tree).1.result) ∧
      Collects c place outer tree (done ++ rest) (c.processInTurn rest t).2 := by
  induction rest generalizing done t with
  | nil =>
      rw [List.append_nil]
      exact ⟨rfl, h⟩
  | cons file rest ih =>
      obtain ⟨hfile, hrest⟩ := List.cons_subset.1 hrest
      obtain ⟨hresult, hnext⟩ := h.process hempty hapart hdone hfile
      have hmore : done ++ [file] ⊆ documents :=
        List.append_subset.2 ⟨hdone, List.cons_subset.2 ⟨hfile, List.nil_subset _⟩⟩
      obtain ⟨hothers, hlast⟩ := ih hnext hmore hrest
      rw [List.append_assoc, List.singleton_append] at hlast
      rw [processInTurn_cons, List.map_cons, hresult, hothers]
      exact ⟨rfl, hlast⟩

/-- Trees that hold what the same documents leave have the same entries. -/
theorem find?_eq {done' : List (List Char)} (h : Collects c place outer tree done t)
    (h' : Collects c place outer tree done' t') (hsame : ∀ file, file ∈ done ↔ file ∈ done')
    (location : Location) : t.find? location = t'.find? location := by
  by_cases hbelow : place <+: location
  · obtain ⟨names, rfl⟩ := hbelow
    by_cases hne : names = []
    · rw [hne, List.append_nil, h.confined.namesDirectory.isDirectory,
        h'.confined.namesDirectory.isDirectory]
    · apply Option.ext
      intro entry
      rw [h.find?_iff names hne, h'.find?_iff names hne]
      simp only [hsame]
  · rw [h.confined.find?_eq_outer hbelow, h'.confined.find?_eq_outer hbelow]

end Collects

theorem failures_map (documents : List (List Char)) (found : List Char → Found) :
    failures documents (documents.map found) =
      documents.filter fun file => (found file).isFailed := by
  induction documents with
  | nil => rfl
  | cons file rest ih =>
      rw [List.map_cons, failures_cons, ih, List.filter_cons]

end Cache

/-- Two reports with the same counts, with the same failed documents but for their order, and
with or without a call of the linter both. -/
structure Report.SameUpToOrder (r r' : Report) : Prop where
  processed : r.processed = r'.processed
  skipped : r.skipped = r'.skipped
  failed : r.failed.Perm r'.failed
  linted : r.linted = r'.linted

/-- Reports count the same in any order if what comes of a document does not depend on the
others. -/
theorem Report.sameUpToOrder_countAll {documents documents' : List (List Char)}
    (h : documents.Perm documents') (found : List Char → Cache.Found) :
    (Report.empty.countAll documents (documents.map found)).SameUpToOrder
      (Report.empty.countAll documents' (documents'.map found)) := by
  have hcount : ∀ counts : Cache.Found → Bool,
      (documents.map found).countP counts = (documents'.map found).countP counts :=
    fun counts => (h.map found).countP_eq counts
  constructor
  case processed => simp only [countAll, hcount]
  case skipped => simp only [countAll, hcount]
  case failed =>
    simp only [countAll, Cache.failures_map]
    exact (h.filter _).append_left _
  case linted => rfl

/-- Two trees with the same entries. -/
structure FileTree.SameFiles (t t' : FileTree) : Prop where
  current : t.current = t'.current
  find? : ∀ location, t.find? location = t'.find? location

/-- Taking documents in another order gives the same report but for the order, and the same
files. -/
theorem Progress.sameUpToOrder_takeAll [HashSeed] {cache : Cache} {place : Location}
    {outer tree : FileTree} {documents documents' : List (List Char)} {console : Option Console}
    {p p' : Progress} (hperm : documents.Perm documents')
    (hc : cache.Confined place outer tree) (hempty : tree.EmptyAt place)
    (hapart : cache.AreApart place outer tree documents)
    (h : takeAll cache console documents (.start tree) = (p, none))
    (h' : takeAll cache console documents' (.start tree) = (p', none)) :
    p.report.SameUpToOrder p'.report ∧ p.files.SameFiles p'.files := by
  have hnone := Cache.collects_nil hc hempty
  obtain ⟨hfiles, -, hreport⟩ := report_takeAll h
  obtain ⟨hfiles', -, hreport'⟩ := report_takeAll h'
  obtain ⟨hfound, hcollects⟩ :=
    hnone.processInTurn hnone hapart (List.nil_subset _) (List.Subset.refl documents)
  obtain ⟨hfound', hcollects'⟩ :=
    hnone.processInTurn hnone hapart (List.nil_subset _) hperm.symm.subset
  simp only [start] at hfiles hreport hfiles' hreport'
  rw [hfound] at hreport
  rw [hfound'] at hreport'
  rw [← hfiles, List.nil_append] at hcollects
  rw [← hfiles', List.nil_append] at hcollects'
  constructor
  · rw [hreport, hreport']
    exact Report.sameUpToOrder_countAll hperm _
  · constructor
    case current =>
      rw [hcollects.confined.current_eq, hcollects'.confined.current_eq]
    case find? => exact hcollects.find?_eq hcollects' fun file => hperm.mem_iff

end FrontLint
