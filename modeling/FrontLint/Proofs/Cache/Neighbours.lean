import FrontLint.Proofs.Cache.Away
import FrontLint.Proofs.Cache.Creation

/-!
# Caches side by side

Two caches with roots of different names in one directory do not disturb each other. What a
cache does to the tree stays at or below its own root, and nothing at or below the root of the
other cache is consulted on the way. So in any order in which the two act, each gives the
answers that it gives alone, and sees the same tree but for the root of the other.

## Implementation notes

A root can be removed and come back, as a directory or, by the projection of the base directory
itself, as a file. The invariant therefore does not say what stands at a root. It says that
without the two roots the tree is the one from before they were made, and that no link lies at
or below them.
-/

namespace FrontLint

namespace FileTree

/-- Following a path looks at nothing below a directory, though maybe at the directory. -/
def StaysOutside (t : FileTree) (path : List Char) (directory : Location) : Prop :=
  ∀ location, t.Consults maxLinks (startOf t.current path) (stepsOf path) location →
    directory <+: location → location = directory

/-- What is at or below one name of a directory is not so for another name. -/
theorem not_isPrefix_of_ne {parent location : Location} {name other : FileName}
    (hne : name ≠ other) (hp : parent ++ [name] <+: location) :
    ¬ parent ++ [other] <+: location := by
  intro hother
  have hlast := List.prefix_of_prefix_length_le hp hother (by simp)
  rw [List.prefix_append_right_inj] at hlast
  exact hne (by simpa using hlast)

/-- A plain name that is no link leads to where it stands, if anywhere. -/
theorem follow_singleton_isAt {t : FileTree} {directory : Location} {name : FileName}
    (hlinks : t.LinkFree (directory ++ [name])) (hplain : name.IsPlain) (last : Bool)
    (links : Nat) :
    (t.follow last links directory [name]).IsAt t (directory ++ [name]) := by
  rcases FileName.cases name with rfl | rfl | ⟨hh, ha, hl⟩ | hn
  · exact absurd rfl hplain.isRead.ne_here
  · exact absurd rfl hplain.ne_above
  · rw [follow_tooLong hh ha hl]
    trivial
  · cases hf : t.find? (directory ++ [name]) with
    | none =>
        rw [follow_missing hn hf, if_pos rfl]
        exact ⟨rfl, hf⟩
    | some entry =>
        cases entry with
        | directory =>
            rw [follow_directory hn hf, follow_nil]
            exact ⟨rfl, hf⟩
        | file content =>
            rw [follow_file hn hf, if_pos rfl]
            exact ⟨rfl, hf⟩
        | link target => exact absurd hf (hlinks _ _ (List.prefix_refl _))

/-- A tree is an outer one but for two places, at and below which there are no links. -/
structure Beside (outer : FileTree) (place other : Location) (t : FileTree) : Prop where
  removeBelow_eq : (t.removeBelow place).removeBelow other = outer
  linkFree : t.LinkFree place
  linkFree_other : t.LinkFree other

namespace Beside

variable {outer t : FileTree} {place other location : Location}

theorem swap (h : Beside outer place other t) : Beside outer other place t := by
  constructor
  case removeBelow_eq => rw [removeBelow_comm, h.removeBelow_eq]
  case linkFree => exact h.linkFree_other
  case linkFree_other => exact h.linkFree

theorem current_eq (h : Beside outer place other t) : t.current = outer.current := by
  rw [← h.removeBelow_eq]
  rfl

theorem find?_eq (h : Beside outer place other t) (hne : place ≠ []) (hne' : other ≠ [])
    (hp : ¬ place <+: location) (hp' : ¬ other <+: location) :
    t.find? location = outer.find? location := by
  rw [← h.removeBelow_eq, find?_removeBelow _ hne', if_neg hp', find?_removeBelow _ hne,
    if_neg hp]

/-- All entries of the outer tree are there. -/
theorem outer_extends (h : Beside outer place other t) (hne : place ≠ []) (hne' : other ≠ []) :
    outer.Extends t := by
  constructor
  case current => exact h.current_eq
  case find? =>
    intro location entry hf
    rw [← h.removeBelow_eq, find?_removeBelow _ hne', find?_removeBelow _ hne] at hf
    split at hf
    · cases hf
    · split at hf
      · cases hf
      · exact hf

theorem put (h : Beside outer place other t) (hne : location ≠ []) (hp : place <+: location)
    {entry : Entry} (hlink : ∀ target, entry ≠ .link target) :
    Beside outer place other (t.put location entry) := by
  have hfree : ∀ above, t.LinkFree above → (t.put location entry).LinkFree above := by
    intro above hfree found target hfound
    rw [find?_put t hne]
    split
    · simpa using hlink target
    · exact hfree found target hfound
  constructor
  case removeBelow_eq =>
    rw [removeBelow_put t entry hp]
    exact h.removeBelow_eq
  case linkFree => exact hfree _ h.linkFree
  case linkFree_other => exact hfree _ h.linkFree_other

theorem linkFree_removeBelow (hfree : t.LinkFree other) (hne : place ≠ []) :
    (t.removeBelow place).LinkFree other := by
  intro location target hp
  rw [find?_removeBelow t hne]
  split
  · simp
  · exact hfree location target hp

theorem removeBelow_removeBelow (t : FileTree) (place : Location) :
    (t.removeBelow place).removeBelow place = t.removeBelow place := by
  simp [removeBelow]

theorem removeBelow (h : Beside outer place other t) (hne : place ≠ []) :
    Beside outer place other (t.removeBelow place) := by
  constructor
  case removeBelow_eq =>
    rw [removeBelow_removeBelow]
    exact h.removeBelow_eq
  case linkFree => exact linkFree_removeBelow h.linkFree hne
  case linkFree_other => exact linkFree_removeBelow h.linkFree_other hne

end Beside

end FileTree

namespace Cache

open FileTree

/-! ## What a cache consults and changes -/

/-- A cache whose root has a free name in a directory, in which the name of the root of another
cache is free too. -/
structure Neighbour (c : Cache) (outer : FileTree) (parent : Location)
    (name other : FileName) : Prop where
  wellFormed : outer.WellFormed
  root_isRead : c.root.IsRead
  base_isRead : c.base.IsRead
  base_isAbsolute : c.base.isAbsolute = true
  exists_leads : ∃ front left, c.root.names = front ++ [name] ∧
    outer.Leads maxLinks (outer.origin c.root) front left parent
  isPlain : name.IsPlain
  ne : name ≠ other
  free : outer.find? (parent ++ [name]) = none
  free_other : outer.find? (parent ++ [other]) = none

namespace Neighbour

variable {c : Cache} {outer t t' : FileTree} {parent location : Location}
  {name other : FileName} {front names : List FileName}

theorem outer_extends (ht : Beside outer (parent ++ [name]) (parent ++ [other]) t) :
    outer.Extends t := ht.outer_extends (by simp) (by simp)

/-- On the way to a place behind the root, directories and links of the outer tree are
consulted, and what is at or below the root. -/
theorem of_consults (h : c.Neighbour outer parent name other)
    (ht : Beside outer (parent ++ [name]) (parent ++ [other]) t)
    (hplain : ∀ name ∈ names, name.IsPlain)
    (hc : t.Consults maxLinks (t.origin c.root) (c.root.names ++ names) location) :
    (∃ entry, outer.find? location = some entry ∧ ∀ content, entry ≠ .file content) ∨
      parent ++ [name] <+: location := by
  obtain ⟨above, left, hnames, hleads⟩ := h.exists_leads
  have horigin : t.origin c.root = outer.origin c.root := by
    simp only [FileTree.origin, ht.current_eq]
  rw [horigin, hnames, List.append_assoc] at hc
  refine (hleads.consults_append (outer_extends ht).find? hc).imp_right fun hc => ?_
  cases hc with
  | here => exact absurd rfl h.isPlain.isRead.ne_here
  | above => exact absurd rfl h.isPlain.ne_above
  | name => exact List.prefix_refl _
  | down _ _ hc => exact isPrefix_of_consults ht.linkFree hplain hc
  | link _ hl => exact absurd hl (ht.linkFree _ _ (List.prefix_refl _))

theorem isRead_front (h : c.Neighbour outer parent name other)
    (hplain : ∀ name ∈ names, name.IsPlain) (hfront : front <+: c.root.names ++ names) :
    (Path.mk c.root.anchor front).IsRead := by
  intro first hfirst
  rcases List.mem_append.1 (hfront.subset hfirst) with hroot | hbehind
  · exact h.root_isRead first hroot
  · exact (hplain first hbehind).isRead

theorem of_consults_text (h : c.Neighbour outer parent name other)
    (ht : Beside outer (parent ++ [name]) (parent ++ [other]) t)
    (hplain : ∀ name ∈ names, name.IsPlain) (hfront : front <+: c.root.names ++ names)
    (hc : t.Consults maxLinks (startOf t.current (Path.mk c.root.anchor front).text)
      (stepsOf (Path.mk c.root.anchor front).text) location) :
    (∃ entry, outer.find? location = some entry ∧ ∀ content, entry ≠ .file content) ∨
      parent ++ [name] <+: location := by
  rw [consults_text (h.isRead_front hplain hfront)] at hc
  obtain ⟨more, hmore⟩ := hfront
  have hall := hc.append more
  rw [hmore] at hall
  exact h.of_consults ht hplain hall

/-- The root of the other cache is not consulted. -/
theorem avoids (h : c.Neighbour outer parent name other)
    (ht : Beside outer (parent ++ [name]) (parent ++ [other]) t)
    (hplain : ∀ name ∈ names, name.IsPlain) (hfront : front <+: c.root.names ++ names) :
    t.Avoids (Path.mk c.root.anchor front).text (parent ++ [other]) := by
  intro location hc hother
  rcases h.of_consults_text ht hplain hfront hc with ⟨entry, hf, -⟩ | hown
  · rw [find?_eq_none_of_isPrefix h.wellFormed h.free_other hother] at hf
    cases hf
  · exact not_isPrefix_of_ne h.ne hown hother

/-- What is written or made behind the root is at or below the root. -/
theorem isPrefix_of_isWritable (h : c.Neighbour outer parent name other)
    (ht : Beside outer (parent ++ [name]) (parent ++ [other]) t)
    (hplain : ∀ name ∈ names, name.IsPlain) (hfront : front <+: c.root.names ++ names)
    (last : Bool) (hl : (t.locate last (Path.mk c.root.anchor front).text).IsWritable location) :
    parent ++ [name] <+: location := by
  obtain ⟨hc, hkind⟩ := consults_of_isWritable_locate hl
  rcases h.of_consults_text ht hplain hfront hc with ⟨entry, hf, hentry⟩ | hown
  · have hf' := (outer_extends ht).find? _ _ hf
    rcases hkind with hnone | ⟨content, hfile⟩
    · rw [hnone] at hf'
      cases hf'
    · rw [hfile] at hf'
      exact absurd (Option.some.inj hf').symm (hentry content)
  · exact hown

/-- A change at or below the root leaves the tree as it is without the root. -/
theorem put (ht : Beside outer (parent ++ [name]) (parent ++ [other]) t)
    (hp : parent ++ [name] <+: location) {entry : Entry}
    (hlink : ∀ target, entry ≠ .link target) :
    Beside outer (parent ++ [name]) (parent ++ [other]) (t.put location entry) ∧
      (t.put location entry).removeBelow (parent ++ [name]) =
        t.removeBelow (parent ++ [name]) := by
  refine ⟨ht.put ?_ hp hlink, removeBelow_put t entry hp⟩
  rintro rfl
  simp at hp

theorem makeDirectory (h : c.Neighbour outer parent name other)
    (ht : Beside outer (parent ++ [name]) (parent ++ [other]) t)
    (hplain : ∀ name ∈ names, name.IsPlain) (hfront : front <+: c.root.names ++ names)
    (hm : t.makeDirectory (Path.mk c.root.anchor front).text = .ok t') :
    Beside outer (parent ++ [name]) (parent ++ [other]) t' ∧
      t'.removeBelow (parent ++ [name]) = t.removeBelow (parent ++ [name]) := by
  obtain ⟨directory, last, hl, -, rfl⟩ :=
    (makeDirectory_eq_ok_iff (takes_of_makeDirectory hm)).1 hm
  refine put ht (h.isPrefix_of_isWritable ht hplain hfront false ?_) (by simp)
  rw [hl]
  rfl

theorem writeFile (h : c.Neighbour outer parent name other)
    (ht : Beside outer (parent ++ [name]) (parent ++ [other]) t)
    (hplain : ∀ name ∈ names, name.IsPlain) (hfront : front <+: c.root.names ++ names)
    {content : Bytes} (hw : t.write (Path.mk c.root.anchor front).text content = .ok t') :
    Beside outer (parent ++ [name]) (parent ++ [other]) t' ∧
      t'.removeBelow (parent ++ [name]) = t.removeBelow (parent ++ [name]) := by
  obtain ⟨-, location, rfl, hl⟩ := FileTree.write_eq_ok hw
  refine put ht (h.isPrefix_of_isWritable ht hplain hfront true ?_) (by simp)
  rcases hl with ⟨old, hl⟩ | ⟨directory, last, hl, rfl⟩ <;>
  · rw [hl]
    rfl

section write

variable {source : Path}

theorem isPlain_namesFor (h : c.Neighbour outer parent name other) (hs : source.IsRead) :
    ∀ name ∈ c.namesFor source, name.IsPlain := fun _ =>
  isPlain_of_mem_namesFor h.base_isAbsolute h.base_isRead hs

theorem prepared (h : c.Neighbour outer parent name other)
    (ht : Beside outer (parent ++ [name]) (parent ++ [other]) t) (hs : source.IsRead) :
    Beside outer (parent ++ [name]) (parent ++ [other]) (c.prepared source t) ∧
      (c.prepared source t).removeBelow (parent ++ [name]) =
        t.removeBelow (parent ++ [name]) := by
  refine ensurePath_keeps (c.pathFor source).parent
    (P := fun t' => Beside outer (parent ++ [name]) (parent ++ [other]) t' ∧
      t'.removeBelow (parent ++ [name]) = t.removeBelow (parent ++ [name])) ?_ ⟨ht, rfl⟩
  rintro t' t'' front hfront ⟨ht', heq⟩ hm
  obtain ⟨ht'', heq'⟩ := h.makeDirectory ht' (h.isPlain_namesFor hs)
    (hfront.trans (List.dropLast_prefix _)) hm
  exact ⟨ht'', heq'.trans heq⟩

/-- Writing a projection changes nothing outside of the root. -/
theorem write (h : c.Neighbour outer parent name other)
    (ht : Beside outer (parent ++ [name]) (parent ++ [other]) t) (hs : source.IsRead)
    (p : Projection) :
    Beside outer (parent ++ [name]) (parent ++ [other]) (c.write source p t).2 ∧
      (c.write source p t).2.removeBelow (parent ++ [name]) =
        t.removeBelow (parent ++ [name]) := by
  obtain ⟨hprepared, heq⟩ := h.prepared ht hs
  rcases write_cases c source p t with hsame | ⟨content, hw⟩
  · rw [hsame]
    exact ⟨hprepared, heq⟩
  · obtain ⟨hwritten, heq'⟩ :=
      h.writeFile hprepared (h.isPlain_namesFor hs) (List.prefix_refl _) hw
    exact ⟨hwritten, heq'.trans heq⟩

/-- Writing a projection does not look at the root of the other cache. -/
theorem spares (h : c.Neighbour outer parent name other) (hs : source.IsRead) :
    Spares (Beside outer (parent ++ [name]) (parent ++ [other])) (parent ++ [other])
      (c.pathFor source) where
  makeDirectory _ _ _ hfront ht hm := (h.makeDirectory ht (h.isPlain_namesFor hs) hfront hm).1
  avoids _ _ hfront ht := h.avoids ht (h.isPlain_namesFor hs) hfront

end write

/-- The path of the root leads to the place of the root, if anywhere. -/
theorem locate_root (h : c.Neighbour outer parent name other)
    (ht : Beside outer (parent ++ [name]) (parent ++ [other]) t) {last : Bool} {entry : Entry}
    (hl : t.locate last c.root.text = .found location entry) :
    location = parent ++ [name] := by
  obtain ⟨front, left, hnames, hleads⟩ := h.exists_leads
  have hleads' := hleads.mono (fun _ => (outer_extends ht).find? _ _)
    fun _ _ => (outer_extends ht).find? _ _
  have horigin : t.origin c.root = outer.origin c.root := by
    simp only [FileTree.origin, ht.current_eq]
  rw [locate_text t last h.root_isRead] at hl
  split at hl
  · cases hl
  · rw [horigin, hnames, hleads'.follow_append (.inl (by simp))] at hl
    have hat := follow_singleton_isAt ht.linkFree h.isPlain last left
    rw [hl] at hat
    exact hat.1

theorem remove (h : c.Neighbour outer parent name other)
    (ht : Beside outer (parent ++ [name]) (parent ++ [other]) t) :
    Beside outer (parent ++ [name]) (parent ++ [other]) (c.remove t).2 ∧
      (c.remove t).2.removeBelow (parent ++ [name]) = t.removeBelow (parent ++ [name]) := by
  have hcases : (c.remove t).2 = t ∨ (c.remove t).2 = t.removeBelow (parent ++ [name]) := by
    rw [Cache.remove]
    split
    · simp only [removeDirectory]
      split
      · rename_i hl
        rw [h.locate_root ht hl]
        exact .inr rfl
      · exact .inl rfl
    · exact .inl rfl
  rcases hcases with heq | heq
  · rw [heq]
    exact ⟨ht, rfl⟩
  · rw [heq]
    exact ⟨ht.removeBelow (by simp), Beside.removeBelow_removeBelow t _⟩

theorem avoids_root (h : c.Neighbour outer parent name other)
    (ht : Beside outer (parent ++ [name]) (parent ++ [other]) t) :
    t.Avoids c.root.text (parent ++ [other]) :=
  h.avoids ht (List.forall_mem_nil _) (List.prefix_append c.root.names [])

/-- To read a file outside of the directory of the roots is not to look at the other root. -/
theorem avoids_file (ht : Beside outer (parent ++ [name]) (parent ++ [other]) t)
    {file : List Char} (hfile : outer.StaysOutside (c.base.join (.ofText file)).text parent) :
    t.Avoids (c.base.join (.ofText file)).text (parent ++ [other]) := by
  have houtside : ∀ location last, outer.Consults maxLinks
      (startOf outer.current (c.base.join (.ofText file)).text)
      (stepsOf (c.base.join (.ofText file)).text) location →
      ¬ parent ++ [last] <+: location := by
    intro location last hc hp
    rw [hfile location hc ((List.prefix_append _ _).trans hp)] at hp
    have hlen := hp.length_le
    rw [List.length_append, List.length_singleton] at hlen
    omega
  intro location hc
  rw [ht.current_eq] at hc
  refine houtside location other (Consults.of_congr (fun location hc => ?_) hc)
  exact ht.find?_eq (by simp) (by simp) (houtside location name hc) (houtside location other hc)

end Neighbour

/-! ## Actions in turn -/

/-- Sources are paths that were read from a text, and files to be read are outside of a
directory. -/
def Action.Respects (outer : FileTree) (parent : Location) (base : Path) : Action → Prop
  | .write source _ => source.IsRead
  | .process file => outer.StaysOutside (base.join (.ofText file)).text parent
  | .remove => True

inductive Side where
  | first
  | second
deriving DecidableEq

def Side.other : Side → Side
  | .first => .second
  | .second => .first

section

variable [HashSeed]

/-- As `history`, for two caches that act on one tree in turn. -/
def historyInTurn (caches : Side → Cache) :
    List (Side × Action) → FileTree → List (Side × Answer × FileTree)
  | [], _ => []
  | (side, action) :: rest, t =>
    (side, (caches side).act t action) ::
      historyInTurn caches rest ((caches side).act t action).2

/-- What belongs to one side, in order. -/
def Side.own {α : Type} (side : Side) (all : List (Side × α)) : List α :=
  all.filterMap fun e => if e.1 = side then some e.2 else none

namespace Neighbour

variable {c : Cache} {outer t : FileTree} {parent : Location} {name other : FileName}

theorem act (h : c.Neighbour outer parent name other)
    (ht : Beside outer (parent ++ [name]) (parent ++ [other]) t) {action : Action}
    (ha : action.Respects outer parent c.base) :
    Beside outer (parent ++ [name]) (parent ++ [other]) (c.act t action).2 ∧
      (c.act t action).2.removeBelow (parent ++ [name]) = t.removeBelow (parent ++ [name]) := by
  cases action with
  | write source p => exact h.write ht ha p
  | remove => exact h.remove ht
  | process file =>
      simp only [Cache.act, Prod.map_snd, id, Cache.process]
      split
      · exact ⟨ht, rfl⟩
      · exact ⟨ht, rfl⟩
      · exact h.write ht (Path.isRead_ofText file) _

theorem act_removeBelow (h : c.Neighbour outer parent name other)
    (ht : Beside outer (parent ++ [name]) (parent ++ [other]) t) {action : Action}
    (ha : action.Respects outer parent c.base) :
    c.act (t.removeBelow (parent ++ [other])) action =
      ((c.act t action).1, (c.act t action).2.removeBelow (parent ++ [other])) := by
  have hne : parent ++ [other] ≠ [] := by simp
  cases action with
  | write source p =>
      simp only [Cache.act, write_removeBelow_of_spares (h.spares ha) hne ht p]
      rfl
  | remove =>
      simp only [Cache.act, remove_removeBelow_of_avoids (h.avoids_root ht) hne]
      rfl
  | process file =>
      have hspares := h.spares (Path.isRead_ofText file)
      simp only [Cache.act, process_removeBelow (avoids_file ht ha) hspares hne ht]
      rfl

end Neighbour

end

/-- The same answer, and the same tree but for what is at or below another place. -/
structure SeenAlone (place other : Location) (done alone : Answer × FileTree) : Prop where
  answer : done.1 = alone.1
  below : ∀ location, place <+: location → done.2.find? location = alone.2.find? location
  beside : done.2.removeBelow other = alone.2

section

variable {caches : Side → Cache} {names : Side → FileName} {outer t : FileTree}
  {parent : Location}

theorem Neighbour.seenAlone {c : Cache} {name other : FileName}
    (h : c.Neighbour outer parent name other) {done : Answer × FileTree} :
    SeenAlone (parent ++ [name]) (parent ++ [other]) done
      (done.1, done.2.removeBelow (parent ++ [other])) := by
  constructor
  case answer => rfl
  case beside => rfl
  case below =>
    intro location hp
    rw [find?_removeBelow _ (by simp), if_neg (not_isPrefix_of_ne h.ne hp)]

/-- What a side does in turn with the other one it does alone on the tree without the root of
the other one. -/
theorem forall₂_historyInTurn [HashSeed]
    (hc : ∀ side, (caches side).Neighbour outer parent (names side) (names side.other))
    (side : Side) {steps : List (Side × Action)}
    (hsteps : ∀ s ∈ steps, s.2.Respects outer parent (caches s.1).base)
    (ht : Beside outer (parent ++ [names side]) (parent ++ [names side.other]) t) :
    List.Forall₂ (SeenAlone (parent ++ [names side]) (parent ++ [names side.other]))
      (side.own (historyInTurn caches steps t))
      ((caches side).history (side.own steps)
        (t.removeBelow (parent ++ [names side.other]))) := by
  induction steps generalizing t with
  | nil => exact .nil
  | cons s rest ih =>
      obtain ⟨who, action⟩ := s
      have ha := hsteps (who, action) (by simp)
      have hrest : ∀ s ∈ rest, s.2.Respects outer parent (caches s.1).base :=
        fun s hs => hsteps s (by simp [hs])
      by_cases hwho : who = side
      · subst hwho
        have hnext := ih hrest ((hc who).act ht ha).1
        have hanswer := (hc who).act_removeBelow ht ha
        simp only [Side.own, historyInTurn, List.filterMap_cons, if_true, history] at hnext ⊢
        rw [hanswer]
        exact .cons (hc who).seenAlone hnext
      · obtain rfl : side.other = who := by
          cases side <;> cases who <;> first | rfl | exact absurd rfl hwho
        have hback : side.other.other = side := by cases side <;> rfl
        have hother := hc side.other
        rw [hback] at hother
        obtain ⟨ht', heq⟩ := hother.act ht.swap ha
        have hnext := ih hrest ht'.swap
        simp only [Side.own, historyInTurn, List.filterMap_cons, if_neg hwho] at hnext ⊢
        rw [heq] at hnext
        exact hnext

end

/-! ## Two caches in one directory -/

section

variable {directory base base' : Path} {name name' : FileName} {before : FileTree}
  {c c' : Cache} {parent : Location}

theorem locate_directory {t : FileTree} (hd : directory.IsRead) (hname : name.IsPlain)
    (h : RootFree directory name t parent) :
    t.locate true directory.text = .found parent .directory := by
  obtain ⟨left, hleads⟩ := h.exists_leads
  rw [locate_text_of_takes t true hd (takes_of_takes_attach hname.isRead h.takes),
    hleads.follow_eq]

/-- A cache made in a directory in which there is one already has another name, which is free
without the one that is there, too. -/
theorem rootFree_of_create_create (hd : directory.IsRead) (hname : name.IsPlain)
    (hname' : name'.IsPlain)
    (hfirst : (create directory base name before).1.result = .ok c)
    (hsecond : (create directory base' name' (create directory base name before).2).1.result =
      .ok c') :
    ∃ parent, RootFree directory name (before.ensurePath directory).2 parent ∧
      RootFree directory name' (before.ensurePath directory).2 parent ∧ name ≠ name' ∧
      (create directory base' name' (create directory base name before).2).2 =
        ((before.ensurePath directory).2.put (parent ++ [name]) .directory).put
          (parent ++ [name']) .directory := by
  obtain ⟨-, -, parent, hroot, hafter⟩ := exists_rootFree hd hname hfirst
  rw [hafter] at hsecond ⊢
  obtain ⟨left, hleads⟩ := hroot.exists_leads
  have hne : parent ++ [name] ≠ [] := by simp
  have hleads' := hleads.put hne hroot.free .directory
  -- the directory is there, so the second creation makes the root only
  have hensured := ensurePath_of_leads hd (takes_of_takes_attach hname.isRead hroot.takes) hleads'
  obtain ⟨-, -, parent', hroot', hafter'⟩ := exists_rootFree hd hname' hsecond
  rw [hensured] at hroot' hafter'
  have hthere := (locate_text_of_takes _ true hd
    (takes_of_takes_attach hname.isRead hroot.takes)).trans hleads'.follow_eq
  obtain rfl : parent' = parent := by
    have hplace := (locate_directory hd hname' hroot').symm.trans hthere
    cases hplace
    rfl
  have hfree := hroot'.free
  rw [find?_put _ hne] at hfree
  split at hfree
  · cases hfree
  · rename_i hdiffer
    refine ⟨parent', hroot, ⟨hroot'.takes, hroot'.isDownward, ⟨left, hleads⟩, hroot.isDirectory,
      hfree⟩, ?_, hafter'⟩
    rintro rfl
    exact hdiffer rfl

theorem RootFree.neighbour (h : RootFree directory name before parent)
    (h' : RootFree directory name' before parent) (hw : before.WellFormed)
    (hd : directory.IsRead) (hname : name.IsPlain) (hb : base.IsRead)
    (habs : base.isAbsolute = true) (hne : name ≠ name') :
    (Cache.mk (directory.child name) base).Neighbour before parent name name' := by
  obtain ⟨left, hleads⟩ := h.exists_leads
  constructor
  case wellFormed => exact hw
  case root_isRead => exact Path.isRead_child hd hname.isRead
  case base_isRead => exact hb
  case base_isAbsolute => exact habs
  case exists_leads => exact ⟨directory.names, left, rfl, hleads⟩
  case isPlain => exact hname
  case ne => exact hne
  case free => exact h.free
  case free_other => exact h'.free

/-- Without the one of two roots a tree is the one with the other root alone. -/
theorem removeBelow_put_put {outer : FileTree} {place other : Location} (hw : outer.WellFormed)
    (hfree : outer.find? place = none) (hfree' : outer.find? other = none)
    (hp : ¬ place <+: other) (hp' : ¬ other <+: place) :
    ((outer.put place .directory).put other .directory).removeBelow other =
        outer.put place .directory ∧
      ((outer.put place .directory).put other .directory).removeBelow place =
        outer.put other .directory := by
  constructor
  · rw [removeBelow_put _ _ (List.prefix_refl other), put_removeBelow_of_not_isPrefix _ hp',
      removeBelow_of_find?_eq_none hw hfree']
  · rw [put_removeBelow_of_not_isPrefix _ hp, removeBelow_put _ _ (List.prefix_refl place),
      removeBelow_of_find?_eq_none hw hfree]

theorem beside_put_put {outer : FileTree} {place other : Location} (hw : outer.WellFormed)
    (hne : place ≠ []) (hne' : other ≠ []) (hfree : outer.find? place = none)
    (hfree' : outer.find? other = none) :
    Beside outer place other ((outer.put place .directory).put other .directory) := by
  have hself : Beside outer place other outer := by
    constructor
    case removeBelow_eq =>
      rw [removeBelow_of_find?_eq_none hw hfree, removeBelow_of_find?_eq_none hw hfree']
    case linkFree =>
      intro location target hp
      rw [find?_eq_none_of_isPrefix hw hfree hp]
      simp
    case linkFree_other =>
      intro location target hp
      rw [find?_eq_none_of_isPrefix hw hfree' hp]
      simp
  have hfirst : Beside outer place other (outer.put place .directory) :=
    hself.put hne (List.prefix_refl _) (by simp)
  exact (hfirst.swap.put hne' (List.prefix_refl _) (by simp)).swap

end

/-- Two caches are made in one directory, and then act in any order, each writing projections,
processing files outside of the directory and removing its root. Each gives the answers that it
gives alone, when only it is made, and sees the same tree: at and below its own root, and
wherever the other root is not. -/
theorem historyInTurn_seenAlone [HashSeed] {directory : Path} {bases : Side → Path}
    {names : Side → FileName}
    {before : FileTree} {caches : Side → Cache} {parent : Location}
    {steps : List (Side × Action)} (hw : before.WellFormed) (hd : directory.IsRead)
    (hnames : ∀ side, (names side).IsPlain) (hbases : ∀ side, (bases side).IsRead)
    (habs : ∀ side, (bases side).isAbsolute = true)
    (hfirst : (create directory (bases .first) (names .first) before).1.result =
      .ok (caches .first))
    (hsecond : (create directory (bases .second) (names .second)
      (create directory (bases .first) (names .first) before).2).1.result = .ok (caches .second))
    (hparent : (before.ensurePath directory).2.locate true directory.text =
      .found parent .directory)
    (hsteps : ∀ s ∈ steps, s.2.Respects (before.ensurePath directory).2 parent (bases s.1))
    (side : Side) :
    (create directory (bases side) (names side) before).1.result = .ok (caches side) ∧
      List.Forall₂ (SeenAlone (parent ++ [names side]) (parent ++ [names side.other]))
        (side.own (historyInTurn caches steps
          (create directory (bases .second) (names .second)
            (create directory (bases .first) (names .first) before).2).2))
        ((caches side).history (side.own steps)
          (create directory (bases side) (names side) before).2) := by
  obtain ⟨parent', hroot, hroot', hne, hboth⟩ :=
    rootFree_of_create_create hd (hnames .first) (hnames .second) hfirst hsecond
  obtain ⟨hcache, hok, -⟩ := exists_rootFree hd (hnames .first) hfirst
  obtain ⟨hcache', -⟩ := exists_rootFree hd (hnames .second) hsecond
  have hlocate := locate_directory hd (hnames .first) hroot
  rw [hparent] at hlocate
  obtain rfl : parent = parent' := by
    cases hlocate
    rfl
  have hwell := (makesDirectories_ensurePath hw hd).1
  have hfree : ∀ side, RootFree directory (names side) (before.ensurePath directory).2 parent := by
    intro side
    cases side with
    | first => exact hroot
    | second => exact hroot'
  have hcaches : ∀ side, caches side = ⟨directory.child (names side), bases side⟩ := by
    intro side
    cases side with
    | first => exact hcache
    | second => exact hcache'
  have hnext : ∀ side, names side ≠ names side.other := by
    intro side
    cases side with
    | first => exact hne
    | second => exact hne.symm
  have hneighbour : ∀ side, (caches side).Neighbour (before.ensurePath directory).2 parent
      (names side) (names side.other) := by
    intro side
    rw [hcaches side]
    exact (hfree side).neighbour (hfree side.other) hwell hd (hnames side) (hbases side)
      (habs side) (hnext side)
  have hsteps' : ∀ s ∈ steps,
      s.2.Respects (before.ensurePath directory).2 parent (caches s.1).base := by
    intro s hs
    rw [hcaches s.1]
    exact hsteps s hs
  have hbeside := beside_put_put hwell (by simp) (by simp) hroot.free hroot'.free
  obtain ⟨hwithout, hwithout'⟩ := removeBelow_put_put hwell hroot.free hroot'.free
    (not_isPrefix_of_ne hne.symm (List.prefix_refl _)) (not_isPrefix_of_ne hne (List.prefix_refl _))
  obtain ⟨hresult, halone⟩ := (hfree side).create_eq (bases side) hd (hnames side) hok
  refine ⟨hresult.trans (congrArg Except.ok (hcaches side).symm), ?_⟩
  rw [hboth, halone]
  cases side with
  | first =>
      have hall := forall₂_historyInTurn hneighbour .first hsteps' hbeside
      rw [Side.other, hwithout] at hall
      exact hall
  | second =>
      have hall := forall₂_historyInTurn hneighbour .second hsteps' hbeside.swap
      rw [Side.other, hwithout'] at hall
      exact hall

open HashSeed

/-- Two caches for one document. The first one is removed between two writes of the second
one, and then comes back. -/
theorem historyInTurn_seenAlone_sharedBase :
    let before : FileTree :=
      ⟨[([['p']], .directory), ([['p'], ['t']], .file [45, 45, 45, 10, 116, 105, 116, 108,
        101, 58, 32, 97, 10, 45, 45, 45])], []⟩
    let directory : Path := ⟨.slash, [['c']]⟩
    let base : Path := ⟨.slash, [['p']]⟩
    let names : Side → FileName := fun side => if side = .first then ['7'] else ['8']
    let caches : Side → Cache := fun side => ⟨directory.child (names side), base⟩
    let source : Path := ⟨.relative, [['q'], ['t']]⟩
    let steps : List (Side × Action) :=
      [(.first, .process ['t']), (.second, .write source ⟨[Text.ofChars ['A']]⟩),
        (.first, .remove), (.second, .process ['t']), (.first, .write source ⟨[]⟩)]
    let created := fun side t => create directory base (names side) t
    ∀ side, (created side before).1.result = .ok (caches side) ∧
      List.Forall₂ (SeenAlone ([['c']] ++ [names side]) ([['c']] ++ [names side.other]))
        (side.own (historyInTurn caches steps (created .second (created .first before).2).2))
        ((caches side).history (side.own steps) (created side before).2) := by
  intro before directory base names caches source steps created side
  have hnames : ∀ side, (names side).IsPlain := by
    intro side
    cases side <;> decide
  have hmade : (before.ensurePath directory).2 = before.put [['c']] .directory := by
    decide +kernel
  have hparent : (before.ensurePath directory).2.locate true directory.text =
      .found [['c']] .directory := by
    rw [hmade]
    rfl
  have hfile : (before.ensurePath directory).2.StaysOutside (base.join (.ofText ['t'])).text
      [['c']] := by
    intro location hc hp
    rw [consults_text (by decide), hmade] at hc
    change (before.put [['c']] .directory).Consults maxLinks [] [['p'], ['t']] location at hc
    cases hc with
    | name _ => exact absurd hp (by decide)
    | link _ hl _ => cases hl
    | down _ _ hc =>
        cases hc with
        | name _ => exact absurd hp (by decide)
        | down _ hd _ => cases hd
        | link _ hl _ => cases hl
  have hsteps : ∀ s ∈ steps, s.2.Respects (before.ensurePath directory).2 [['c']] base := by
    simp only [steps, List.forall_mem_cons, Action.Respects]
    exact ⟨hfile, by decide, trivial, hfile, by decide, by simp⟩
  exact @historyInTurn_seenAlone _ directory (fun _ => base) names before caches [['c']] steps
    (by decide) (by decide) hnames (fun _ => by decide) (fun _ => by decide)
    (Noted.eq_ok_of_toOption (by decide +kernel)) (Noted.eq_ok_of_toOption (by decide +kernel))
    hparent hsteps side

end Cache

end FrontLint
