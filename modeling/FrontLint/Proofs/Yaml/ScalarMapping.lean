import FrontLint.Yaml.Construction
import Mathlib.Data.List.Induction
import Mathlib.Data.List.TakeWhile

/-!
# Mappings of scalars

The value of a graph whose first node is a mapping with scalars for its keys and values: each
key is set to its value in turn, so that a key that is repeated keeps its place and takes the
last value.
-/

namespace FrontLint.Yaml

namespace Graph

variable {g : Graph}

theorem node_eq_of_getElem? {n : Nat} {node : Node} (h : g[n]? = some node) : g.node n = node := by
  rw [Graph.node, h, Option.getD_some]

theorem retagKeys_of_ne_value {entries : List (Nat × Nat)}
    (h : ∀ e ∈ entries, g.tagOf e.1 ≠ .value) : g.retagKeys entries = g := by
  induction entries with
  | nil => rfl
  | cons e rest ih =>
      rw [retagKeys, List.foldl_cons, if_neg (h e (by simp))]
      exact ih fun e he => h e (List.mem_cons_of_mem _ he)

theorem setEntries_self {n : Nat} {tag : Tag} {entries : List (Nat × Nat)}
    (h : g[n]? = some (.mapping tag entries)) : g.setEntries n entries = g := by
  obtain ⟨hn, heq⟩ := Array.getElem?_eq_some_iff.1 h
  rw [setEntries, tagOf, node_eq_of_getElem? h, Node.tag, Array.setIfInBounds, dif_pos hn, ← heq,
    Array.set_getElem_self]

/-- A mapping without merge keys and keys that are lone equals signs stays as it is. -/
theorem run_merge {n : Nat} {tag : Tag} {entries : List (Nat × Nat)}
    (h : g[n]? = some (.mapping tag entries))
    (hkeys : ∀ e ∈ entries, g.tagOf e.1 ≠ .merge ∧ g.tagOf e.1 ≠ .value) :
    (merge n).run g = .ok ((), g) := by
  have hentries : g.entriesOf n = entries := by rw [entriesOf, node_eq_of_getElem? h]
  have hbefore : entries.takeWhile (fun e => g.tagOf e.1 != .merge) = entries := by
    rw [List.takeWhile_eq_self_iff]
    intro e he
    simpa using (hkeys e he).1
  simp [merge, mergeFrom, StateT.run_bind, hentries, hbefore,
    retagKeys_of_ne_value fun e he => (hkeys e he).2, setEntries_self h]
  rfl

end Graph

/-- The tags of the scalars that are made from their text. -/
def scalarTags : List Tag := [.null, .bool, .int, .float, .binary, .timestamp, .str]

/-- A graph whose first node is a mapping with entries of scalars, each with its value, none of
which is a key unlike every other. -/
structure Graph.IsScalarMapping (g : Graph) (entries : List (Nat × Nat)) (value : Nat → Value) :
    Prop where
  root : g[0]? = some (.mapping .map entries)
  scalar : ∀ n ∈ entries.flatMap (fun e => [e.1, e.2]), n < g.size ∧ g.tagOf n ∈ scalarTags ∧
    Construction.scalarOf g n = .ok (value n, false)

namespace Graph.IsScalarMapping

variable {g : Graph} {entries : List (Nat × Nat)} {value : Nat → Value}

theorem tagOf_zero (h : g.IsScalarMapping entries value) : g.tagOf 0 = .map := by
  rw [tagOf, node_eq_of_getElem? h.root, Node.tag]

theorem run_merge (h : g.IsScalarMapping entries value) : (merge 0).run g = .ok ((), g) := by
  refine Graph.run_merge h.root fun e he => ?_
  have htag := (h.scalar e.1 (List.mem_flatMap.2 ⟨e, he, by simp⟩)).2.1
  constructor <;> exact fun heq => absurd (heq ▸ htag) (by decide)

theorem ne_zero (h : g.IsScalarMapping entries value) {n : Nat}
    (hn : n ∈ entries.flatMap fun e => [e.1, e.2]) : n ≠ 0 := by
  rintro rfl
  have htag := (h.scalar 0 hn).2.1
  rw [h.tagOf_zero] at htag
  exact absurd htag (by decide)

end Graph.IsScalarMapping

namespace Construction

variable {g : Graph} {entries : List (Nat × Nat)} {value : Nat → Value}

/-- The nodes that are made, once some of them have become scalars. -/
def withScalars (value : Nat → Value) (made : Array (Option Made)) (ns : List Nat) :
    Array (Option Made) :=
  ns.foldl (fun made n => made.setIfInBounds n (some (.scalar (value n) false))) made

theorem withScalars_cons (made : Array (Option Made)) (n : Nat) (ns : List Nat) :
    withScalars value made (n :: ns) =
      withScalars value (made.setIfInBounds n (some (.scalar (value n) false))) ns := rfl

@[simp] theorem size_withScalars (made : Array (Option Made)) (ns : List Nat) :
    (withScalars value made ns).size = made.size := by
  induction ns generalizing made with
  | nil => rfl
  | cons n ns ih => rw [withScalars_cons, ih, Array.size_setIfInBounds]

theorem getElem?_withScalars (made : Array (Option Made)) (ns : List Nat) {k : Nat}
    (hk : k < made.size) : (withScalars value made ns)[k]? =
      if k ∈ ns then some (some (.scalar (value k) false)) else made[k]? := by
  induction ns generalizing made with
  | nil => rfl
  | cons n ns ih =>
      rw [withScalars_cons, ih _ (by simpa using hk)]
      by_cases hkn : n = k
      · subst hkn
        simp [hk]
      · simp [hkn, Ne.symm hkn]

/-- Whether a node is not made yet, or is made to its value. -/
def IsOpen (value : Nat → Value) (made : Array (Option Made)) (n : Nat) : Prop :=
  made[n]? = some none ∨ made[n]? = some (some (.scalar (value n) false))

theorem IsOpen.lt_size {made : Array (Option Made)} {n : Nat} (h : IsOpen value made n) :
    n < made.size := by
  rcases h with h | h <;> exact (Array.getElem?_eq_some_iff.1 h).1

theorem IsOpen.withScalars {made : Array (Option Made)} {n : Nat} (h : IsOpen value made n)
    (ns : List Nat) : IsOpen value (withScalars value made ns) n := by
  rw [IsOpen, getElem?_withScalars made ns h.lt_size]
  by_cases hn : n ∈ ns
  · exact .inr (if_pos hn)
  · rwa [if_neg hn]

/-- A state in which some nodes have become scalars. -/
def State.withScalars (value : Nat → Value) (s : State) (ns : List Nat) : State :=
  { s with made := Construction.withScalars value s.made ns }

/-- A scalar is made to its value. -/
theorem run_make {s : State} {n : Nat} (htag : s.graph.tagOf n ∈ scalarTags)
    (hvalue : scalarOf s.graph n = .ok (value n, false)) (hopen : IsOpen value s.made n) :
    (make n).run s = .ok ((), s.withScalars value [n]) := by
  rw [make, StateT.run_bind]
  rcases hopen with h | h
  · simp [StateT.run_get, bind, Except.bind, pure, Except.pure, h, hvalue]
    generalize s.graph.tagOf n = tag at htag
    simp only [scalarTags, List.mem_cons, List.not_mem_nil, or_false] at htag
    rcases htag with rfl | rfl | rfl | rfl | rfl | rfl | rfl <;> rfl
  · have hset : s.made.setIfInBounds n (some (.scalar (value n) false)) = s.made := by
      obtain ⟨hlt, heq⟩ := Array.getElem?_eq_some_iff.1 h
      rw [Array.setIfInBounds, dif_pos hlt, ← heq, Array.set_getElem_self]
    simp [StateT.run_get, bind, Except.bind, pure, Except.pure, h, State.withScalars,
      withScalars, hset]
    rfl

theorem isScalar_withScalars {s : State} {n : Nat} (h : IsOpen value s.made n) :
    isScalar (s.withScalars value [n]) n = true := by
  simp [isScalar, State.withScalars, getElem?_withScalars s.made [n] h.lt_size]

/-- The entries of a mapping of scalars are made in order. -/
theorem run_makeEntries {s : State}
    (hscalar : ∀ n ∈ entries.flatMap (fun e => [e.1, e.2]), s.graph.tagOf n ∈ scalarTags ∧
      scalarOf s.graph n = .ok (value n, false) ∧ IsOpen value s.made n) :
    (makeEntries entries).run s =
      .ok ((), s.withScalars value (entries.flatMap fun e => [e.1, e.2])) := by
  induction entries generalizing s with
  | nil => rfl
  | cons e rest ih =>
      obtain ⟨k, v⟩ := e
      obtain ⟨hktag, hkvalue, hkopen⟩ := hscalar k (by simp)
      obtain ⟨hvtag, hvvalue, hvopen⟩ := hscalar v (by simp)
      have hk := run_make hktag hkvalue hkopen
      have hv := run_make (s := s.withScalars value [k]) hvtag hvvalue (hvopen.withScalars [k])
      have hrest := ih (s := (s.withScalars value [k]).withScalars value [v]) fun n hn => by
        obtain ⟨htag, hvalue, hopen⟩ := hscalar n (by simp [hn])
        exact ⟨htag, hvalue, (hopen.withScalars [k]).withScalars [v]⟩
      simp only [StateT.run] at hk hv hrest ⊢
      simp only [makeEntries, bind, StateT.bind, Except.bind, hk, get, getThe, MonadStateOf.get,
        StateT.get, pure, Except.pure, isScalar_withScalars hkopen, hv, hrest, Bool.not_true,
        Bool.false_eq_true, if_false]
      rfl

/-- The entries of the mapping are made. -/
theorem run_mappingEntries {s : State} (h : s.graph.IsScalarMapping entries value)
    (hopen : ∀ n ∈ entries.flatMap (fun e => [e.1, e.2]), IsOpen value s.made n) :
    (mappingEntries 0).run s =
      .ok (entries, s.withScalars value (entries.flatMap fun e => [e.1, e.2])) := by
  have hnode := Graph.node_eq_of_getElem? h.root
  have hentries : s.graph.entriesOf 0 = entries := by rw [Graph.entriesOf, hnode]
  have hstep : (mappingEntries 0).run s = ((Graph.merge 0).run s.graph).bind fun r =>
      (do
        makeEntries (r.2.entriesOf 0)
        return r.2.entriesOf 0 : Build _).run { s with graph := r.2 } := by
    simp only [mappingEntries, StateT.run_bind, StateT.run_get, pure_bind, hnode]
    cases (Graph.merge 0).run s.graph <;> rfl
  rw [hstep, h.run_merge, Except.bind, hentries, StateT.run_bind, run_makeEntries fun n hn =>
    ⟨(h.scalar n hn).2.1, (h.scalar n hn).2.2, hopen n hn⟩]
  rfl

theorem run_contents {s : State} (h : s.graph.IsScalarMapping entries value)
    (hopen : ∀ n ∈ entries.flatMap (fun e => [e.1, e.2]), IsOpen value s.made n) :
    (contents 0).run s =
      .ok (.map entries, s.withScalars value (entries.flatMap fun e => [e.1, e.2])) := by
  simp only [contents, StateT.run_bind, StateT.run_get, pure_bind,
    Graph.node_eq_of_getElem? h.root, Node.tag, run_mappingEntries h hopen]
  rfl

theorem run_fill_nil {s : State} (h : s.waiting = []) (fuel : Nat) :
    (fill (fuel + 1)).run s = .ok ((), s) := by
  simp only [fill, StateT.run_bind, StateT.run_get, pure_bind, h]
  rfl

theorem run_fill_cons {s : State} {n : Nat} {rest : List Nat} (h : s.waiting = n :: rest)
    (fuel : Nat) :
    (fill (fuel + 1)).run s = ((contents n).run { s with waiting := rest }).bind fun r =>
      (fill fuel).run { r.2 with made := r.2.made.setIfInBounds n (some r.1) } := by
  simp only [fill, StateT.run_bind, StateT.run_get, pure_bind, h, StateT.run_set]
  cases (contents n).run { s with waiting := rest } <;> rfl

/-- What the nodes of a mapping of scalars have become when all are made. -/
theorem run_eq (h : g.IsScalarMapping entries value) :
    run g 0 = .ok ⟨g, (withScalars value ((Array.replicate g.size none).setIfInBounds 0
      (some .unfilled)) (entries.flatMap fun e => [e.1, e.2])).setIfInBounds 0
        (some (.map entries)), []⟩ := by
  have hsize : 0 < g.size := (Array.getElem?_eq_some_iff.1 h.root).1
  have hmake : (make 0).run ⟨g, Array.replicate g.size none, []⟩ =
      .ok ((), ⟨g, (Array.replicate g.size none).setIfInBounds 0 (some .unfilled), [0]⟩) := by
    simp only [make, StateT.run_bind, StateT.run_get, pure_bind, h.tagOf_zero]
    simp [hsize]
    rfl
  have hcontents := run_contents
    (s := ⟨g, (Array.replicate g.size none).setIfInBounds 0 (some .unfilled), []⟩) h
    (fun n hn => by
      have hlt := (h.scalar n hn).1
      exact .inl (by simp [(h.ne_zero hn).symm, hlt]))
  obtain ⟨k, hk⟩ : ∃ k, g.size + 1 = k + 2 := ⟨g.size - 1, by omega⟩
  rw [run, hk, StateT.run_seqRight, hmake]
  simp only [bind, Except.bind, run_fill_cons (s := ⟨g, _, [0]⟩) rfl, hcontents]
  rw [run_fill_nil rfl]
  rfl

/-! ## Reading -/

/-- The values that are kept for later are those of their nodes. -/
def Agrees (value : Nat → Value) (kept : Array (Option Value)) : Prop :=
  ∀ n ≠ 0, ∀ v, kept[n]? = some (some v) → v = value n

theorem Agrees.set {kept : Array (Option Value)} (h : Agrees value kept) (n : Nat) :
    Agrees value (kept.setIfInBounds n (some (value n))) := by
  intro k hk v hv
  by_cases hkn : n = k
  · subst hkn
    have hlt : n < kept.size := by simpa using (Array.getElem?_eq_some_iff.1 hv).1
    simpa [hlt, eq_comm] using hv
  · exact h k hk v (by simpa [hkn] using hv)

/-- A scalar is read to its value. -/
theorem run_read_scalar {made : Array (Option Made)} {kept : Array (Option Value)} {n : Nat}
    {path : List (Option Nat)} (hmade : made[n]? = some (some (.scalar (value n) false)))
    (hpath : path.idxOf? (some n) = none) (hn : n ≠ 0) (hkept : Agrees value kept) (depth : Nat) :
    (read made (depth + 1) path n).run kept =
      .ok ((value n, true), kept.setIfInBounds n (some (value n))) := by
  simp only [read, hpath, StateT.run_bind, StateT.run_get, pure_bind]
  match hv : kept[n]? with
  | some (some v) =>
      have hvalue := hkept n hn v hv
      have hset : kept.setIfInBounds n (some (value n)) = kept := by
        obtain ⟨hlt, heq⟩ := Array.getElem?_eq_some_iff.1 hv
        rw [Array.setIfInBounds, dif_pos hlt, ← hvalue, ← heq, Array.set_getElem_self]
      rw [hset, hvalue]
      rfl
  | some none =>
      simp only [hmade, Option.getD_some]
      rfl
  | none =>
      simp only [hmade, Option.getD_some]
      rfl

/-- The entry of a mapping that two scalars are. -/
def scalarEntry (value : Nat → Value) (e : Nat × Nat) : KeyedEntry := (value e.1, false, value e.2)

/-- The entries of a mapping of scalars are read in order. -/
theorem run_readEntries {made : Array (Option Made)} {path : List (Option Nat)}
    (hscalar : ∀ n ∈ entries.flatMap (fun e => [e.1, e.2]),
      made[n]? = some (some (.scalar (value n) false)) ∧ path.idxOf? (some n) = none ∧ n ≠ 0)
    {kept : Array (Option Value)} (hkept : Agrees value kept) (depth : Nat) :
    ∃ kept', (readEntries made (entries.length + 1 + depth) path entries).run kept =
      .ok ((entries.map (scalarEntry value), true), kept') := by
  induction entries generalizing kept with
  | nil => exact ⟨kept, by simp [readEntries]; rfl⟩
  | cons e rest ih =>
      obtain ⟨k, v⟩ := e
      obtain ⟨hk, hkpath, hkzero⟩ := hscalar k (by simp)
      obtain ⟨hv, hvpath, hvzero⟩ := hscalar v (by simp)
      have hdepth : ((k, v) :: rest).length + 1 + depth = rest.length + depth + 1 + 1 := by
        simp only [List.length_cons]
        omega
      obtain ⟨kept', hrest⟩ := ih (fun n hn => hscalar n (by simp [hn])) ((hkept.set k).set v)
      rw [show rest.length + 1 + depth = rest.length + depth + 1 by omega] at hrest
      refine ⟨kept', ?_⟩
      have hkrun := run_read_scalar hk hkpath hkzero hkept (rest.length + depth)
      have hvrun := run_read_scalar hv hvpath hvzero (hkept.set k) (rest.length + depth)
      have hlike : isUnlike made k = false := by rw [isUnlike, hk]
      simp only [StateT.run] at hkrun hvrun hrest ⊢
      simp only [hdepth, readEntries, bind, StateT.bind, Except.bind, hkrun, hvrun, hrest, hlike]
      rfl

theorem length_le_partCount {made : Array (Option Made)}
    (h : made[0]? = some (some (.map entries))) : entries.length ≤ partCount made := by
  have hlist : made.toList[0]? = some (some (.map entries)) := by simpa using h
  obtain ⟨tail, htail⟩ : ∃ tail, made.toList = some (.map entries) :: tail := by
    cases hl : made.toList with
    | nil => simp [hl] at hlist
    | cons m tail => exact ⟨tail, by simpa [hl] using hlist⟩
  rw [partCount, ← Array.foldl_toList, htail, List.foldl_cons]
  refine List.foldlRecOn tail _ (motive := fun count => entries.length ≤ count) (by simp) ?_
  intro count hcount m _
  split <;> omega

/-- Set each key to its value in turn. -/
def unique (entries : List KeyedEntry) : List KeyedEntry :=
  entries.foldl (fun kept e => insertEntry e kept) []

end Construction

/-- The value of a mapping of scalars. -/
theorem Graph.IsScalarMapping.value_eq {g : Graph} {entries : List (Nat × Nat)}
    {value : Nat → Value} (h : g.IsScalarMapping entries value) :
    g.value 0 = .ok (.map ((Construction.unique (entries.map (Construction.scalarEntry value))).map
      fun e => (e.1, e.2.2))) := by
  have hsize : 0 < g.size := (Array.getElem?_eq_some_iff.1 h.root).1
  rw [Graph.value, Construction.run_eq h]
  generalize hmade : Array.setIfInBounds _ _ _ = made
  have hroot : made[0]? = some (some (.map entries)) := by
    simp [← hmade, hsize]
  have hscalar : ∀ n ∈ entries.flatMap (fun e => [e.1, e.2]),
      made[n]? = some (some (.scalar (value n) false)) ∧ List.idxOf? (some n) [some 0] = none ∧
        n ≠ 0 := by
    intro n hn
    have hzero := h.ne_zero hn
    refine ⟨?_, by simp [hzero.symm], hzero⟩
    rw [← hmade, Array.getElem?_setIfInBounds_ne hzero.symm,
      Construction.getElem?_withScalars _ _ (by simpa using (h.scalar n hn).1), if_pos hn]
  have hcount := Construction.length_le_partCount hroot
  obtain ⟨depth, hdepth⟩ : ∃ depth, 2 * (Construction.partCount made + made.size) + 2 =
      entries.length + 1 + depth + 1 :=
    ⟨2 * (Construction.partCount made + made.size) - entries.length, by omega⟩
  have hkept : Construction.Agrees value (Array.replicate made.size none) := by
    intro n _ v hv
    obtain ⟨hlt, heq⟩ := Array.getElem?_eq_some_iff.1 hv
    simp at heq
  obtain ⟨kept', hentries⟩ := Construction.run_readEntries hscalar hkept depth
  have hread : ∃ kept', (Construction.read made (entries.length + 1 + depth + 1) [] 0).run
      (Array.replicate made.size none) = .ok ((.map ((Construction.unique (entries.map
        (Construction.scalarEntry value))).map fun e => (e.1, e.2.2)), true), kept') := by
    have hnone : (Array.replicate made.size (none : Option Value))[0]? = some none := by
      simp [← hmade, hsize]
    simp only [Construction.read, List.idxOf?_nil, StateT.run_bind, StateT.run_get, pure_bind,
      hnone, hroot, Option.getD_some]
    simp only [StateT.run] at hentries ⊢
    simp only [bind, Except.bind, hentries]
    exact ⟨_, rfl⟩
  obtain ⟨kept', hread⟩ := hread
  simp only [bind, Except.bind, hdepth, hread]
  rfl

/-! ## Looking up -/

namespace Construction

/-- A key that is unlike every other is not a text. -/
def IsRegular (e : KeyedEntry) : Prop := e.2.1 = true → ∀ key, e.1.identity? ≠ some (.text key)

theorem IsRegular.unlike_eq_false {e : KeyedEntry} (h : IsRegular e) {key : Text}
    (hkey : e.1.identity? = some (.text key)) : e.2.1 = false := by
  cases hunlike : e.2.1 with
  | false => rfl
  | true => exact absurd hkey (h hunlike key)

/-- Setting a key leaves what other keys have. -/
theorem get?_insertEntry {e : KeyedEntry} {l : List KeyedEntry} (he : IsRegular e)
    (hl : ∀ f ∈ l, IsRegular f) (key : Text) :
    Fields.get? ((insertEntry e l).map fun e => (e.1, e.2.2)) key =
      if e.1.identity? = some (.text key) then some e.2.2
      else Fields.get? (l.map fun e => (e.1, e.2.2)) key := by
  induction l with
  | nil =>
      by_cases hkey : e.1.identity? = some (.text key) <;>
        simp [insertEntry, Fields.get?, hkey]
  | cons f rest ih =>
      obtain ⟨hf, hrest⟩ := List.forall_mem_cons.1 hl
      have hrest := ih hrest
      rw [insertEntry]
      split
      · rename_i hsame
        obtain ⟨-, hsame⟩ : _ ∧ e.1.identity? = f.1.identity? := by simpa using hsame
        by_cases hkey : f.1.identity? = some (.text key) <;>
          simp [Fields.get?, hsame, hkey]
      · rename_i hother
        simp only [Fields.get?] at hrest ⊢
        by_cases hkey : f.1.identity? = some (.text key)
        · have hne : e.1.identity? ≠ some (.text key) := by
            intro hkey'
            exact hother (by simp [he.unlike_eq_false hkey', hf.unlike_eq_false hkey, hkey, hkey'])
          simp [hkey, hne]
        · simpa [hkey] using hrest

theorem insertEntry_ne_nil (e : KeyedEntry) (l : List KeyedEntry) : insertEntry e l ≠ [] := by
  cases l with
  | nil => simp [insertEntry]
  | cons f rest =>
      rw [insertEntry]
      split <;> simp

/-- Setting a key keeps all other keys. -/
theorem isRegular_of_mem_insertEntry {e f : KeyedEntry} {l : List KeyedEntry} (he : IsRegular e)
    (hl : ∀ x ∈ l, IsRegular x) (hf : f ∈ insertEntry e l) : IsRegular f := by
  induction l with
  | nil => rwa [List.mem_singleton.1 hf]
  | cons x rest ih =>
      obtain ⟨hx, hrest⟩ := List.forall_mem_cons.1 hl
      simp only [insertEntry] at hf
      split at hf
      · rcases List.mem_cons.1 hf with rfl | hf
        · exact hx
        · exact hrest f hf
      · rcases List.mem_cons.1 hf with rfl | hf
        · exact hx
        · exact ih hrest hf

theorem unique_concat (l : List KeyedEntry) (e : KeyedEntry) :
    unique (l ++ [e]) = insertEntry e (unique l) := by
  simp [unique]

/-- A text that is a key has the value of the last entry with that key. -/
theorem get?_unique {l : List KeyedEntry} (hl : ∀ e ∈ l, IsRegular e) (key : Text) :
    (∀ e ∈ unique l, IsRegular e) ∧
      Fields.get? ((unique l).map fun e => (e.1, e.2.2)) key =
        (l.reverse.find? fun e => e.1.identity? = some (.text key)).map fun e => e.2.2 := by
  induction l using List.reverseRecOn with
  | nil => exact ⟨by simp [unique], rfl⟩
  | append_singleton l e ih =>
      obtain ⟨hunique, hget⟩ := ih fun x hx => hl x (by simp [hx])
      have he := hl e (by simp)
      rw [unique_concat]
      refine ⟨fun f hf => isRegular_of_mem_insertEntry he hunique hf, ?_⟩
      rw [get?_insertEntry he hunique, hget]
      by_cases hkey : e.1.identity? = some (.text key) <;> simp [hkey]

end Construction

end FrontLint.Yaml
