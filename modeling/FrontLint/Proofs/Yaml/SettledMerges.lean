import FrontLint.Proofs.Yaml.MirroredMerges

namespace FrontLint.Yaml.Graph

/-! ## Entries in front and behind -/

/-- Entries of nodes up to `d`, among which there are all of `back`, in order, some number of
times. -/
structure Repeats (d : Nat) (back entries : List (Nat × Nat)) : Prop where
  le : ∀ e ∈ entries, e.1 ≤ d → e.2 ≤ d
  filter_eq : ∃ count, entries.filter (fun e => d < e.1) =
    (List.replicate count (shiftEntries d back)).flatten

variable {d : Nat} {back entries entries' : List (Nat × Nat)}

namespace Repeats

theorem nil : Repeats d back [] := ⟨fun _ he => (nomatch he), 0, rfl⟩

theorem append (h : Repeats d back entries) (h' : Repeats d back entries') :
    Repeats d back (entries ++ entries') where
  le := List.forall_mem_append.2 ⟨h.le, h'.le⟩
  filter_eq := by
    obtain ⟨count, hcount⟩ := h.filter_eq
    obtain ⟨count', hcount'⟩ := h'.filter_eq
    refine ⟨count + count', ?_⟩
    rw [List.filter_append, hcount, hcount', ← List.flatten_append, List.replicate_append_replicate]

theorem flatten {lists : List (List (Nat × Nat))} (h : ∀ entries ∈ lists, Repeats d back entries) :
    Repeats d back lists.flatten := by
  induction lists with
  | nil => exact nil
  | cons entries rest ih =>
      obtain ⟨hentries, hrest⟩ := List.forall_mem_cons.1 h
      exact hentries.append (ih hrest)

/-- An entry of a node up to `d`, or one of `back`. -/
theorem of_mem (h : Repeats d back entries) {e : Nat × Nat} (he : e ∈ entries) :
    e.1 ≤ d ∧ e.2 ≤ d ∨ ∃ e' ∈ back, e = (e'.1 + d, e'.2 + d) := by
  rcases Nat.lt_or_ge d e.1 with hlt | hle
  · obtain ⟨count, hcount⟩ := h.filter_eq
    have hmem : e ∈ (List.replicate count (shiftEntries d back)).flatten := by
      rw [← hcount]
      exact List.mem_filter.2 ⟨he, decide_eq_true hlt⟩
    obtain ⟨l, hl, hel⟩ := List.mem_flatten.1 hmem
    rw [List.eq_of_mem_replicate hl] at hel
    obtain ⟨e', he', rfl⟩ := List.mem_map.1 hel
    exact .inr ⟨e', he', rfl⟩
  · exact .inl ⟨hle, h.le e he hle⟩

theorem eraseIdx (h : Repeats d back entries) {i : Nat} {e : Nat × Nat} (hi : entries[i]? = some e)
    (he : e.1 ≤ d) : Repeats d back (entries.eraseIdx i) where
  le e' he' := h.le e' (List.mem_of_mem_eraseIdx he')
  filter_eq := by
    obtain ⟨count, hcount⟩ := h.filter_eq
    obtain ⟨hlt, rfl⟩ := List.getElem?_eq_some_iff.1 hi
    refine ⟨count, ?_⟩
    rw [← hcount, List.eraseIdx_eq_take_drop_succ]
    nth_rewrite 3 [← List.take_append_drop i entries]
    rw [List.drop_eq_getElem_cons hlt, List.filter_append, List.filter_append,
      List.filter_cons_of_neg (by simpa using he)]

end Repeats

theorem filter_of_le (h : ∀ e ∈ entries, e.1 ≤ d ∧ e.2 ≤ d) :
    entries.filter (fun e => d < e.1) = [] :=
  List.filter_eq_nil_iff.2 fun e he => by simpa using (h e he).1

theorem lt_of_mem_shiftEntries (h : ∀ e ∈ entries, 1 ≤ e.1 ∧ 1 ≤ e.2) :
    ∀ e ∈ shiftEntries d entries, d < e.1 := by
  intro e he
  obtain ⟨e', he', rfl⟩ := List.mem_map.1 he
  have hpos := (h e' he').1
  rw [Prod.map_fst]
  omega

theorem filter_shiftEntries (h : ∀ e ∈ entries, 1 ≤ e.1 ∧ 1 ≤ e.2) :
    (shiftEntries d entries).filter (fun e => d < e.1) = shiftEntries d entries :=
  List.filter_eq_self.2 fun e he => decide_eq_true (lt_of_mem_shiftEntries h e he)

theorem repeats_of_le (h : ∀ e ∈ entries, e.1 ≤ d ∧ e.2 ≤ d) : Repeats d back entries :=
  ⟨fun e he _ => (h e he).2, 0, filter_of_le h⟩

/-! ## After the first node has been merged -/

variable {g g' h h' : Graph} {n start fuel source : Nat} {taken more rest : List (Nat × Nat)}

def itemsOf (g : Graph) (n : Nat) : List Nat :=
  match g.node n with
  | .sequence _ items => items
  | _ => []

theorem itemsOf_retag (g : Graph) (n m : Nat) (tag : Tag) :
    (g.retag n tag).itemsOf m = g.itemsOf m := by
  rw [retag_eq, itemsOf, node_setIfInBounds, itemsOf]
  by_cases h : n = m ∧ n < g.size
  · rw [if_pos h, h.1]
    cases g.node m <;> rfl
  · rw [if_neg h]

theorem mem_itemsOf_setEntries {i m : Nat} (hi : i ∈ (g.setEntries n entries).itemsOf m) :
    i ∈ g.itemsOf m := by
  rw [setEntries, itemsOf, node_setIfInBounds] at hi
  by_cases h : n = m ∧ n < g.size
  · rw [if_pos h] at hi
    cases hi
  · rwa [if_neg h] at hi

/-- Graphs whose first mappings have been merged. The second one has nodes up to `d` besides, which
have taken over all of `back`, the entries of the first node of the first one, or none of them. -/
structure Settled (d : Nat) (back rest : List (Nat × Nat)) (h g : Graph) : Prop where
  mirrors : h.Mirrors 1 d g
  arePlain : h.ArePlain back
  back_pos : ∀ e ∈ back, 1 ≤ e.1 ∧ 1 ≤ e.2
  suffix : rest <:+ back
  repeats : ∀ n ≤ d, Repeats d back (g.entriesOf n)
  root : ∃ front, g.entriesOf 0 = front ++ shiftEntries d rest
  items_le : ∀ n ≤ d, ∀ i ∈ g.itemsOf n, i ≤ d

namespace Settled

/-- Another tag of a node up to `d`. -/
theorem retag (hg : Settled d back rest h g) (hn : n ≤ d) (tag : Tag) :
    Settled d back rest h (g.retag n tag) where
  mirrors := by
    rw [retag_eq]
    exact hg.mirrors.setIfInBounds_right (by omega)
  arePlain := hg.arePlain
  back_pos := hg.back_pos
  suffix := hg.suffix
  repeats m hm := by
    rw [entriesOf_retag]
    exact hg.repeats m hm
  root := by
    rw [entriesOf_retag]
    exact hg.root
  items_le m hm := by
    rw [itemsOf_retag]
    exact hg.items_le m hm

theorem retagKeys (hg : Settled d back rest h g)
    (hkey : ∀ e ∈ entries, e.1 ≤ d ∨ ∃ e' ∈ back, e.1 = e'.1 + d) :
    Settled d back rest h (g.retagKeys entries) := by
  induction entries generalizing g with
  | nil => exact hg
  | cons e rest ih =>
      obtain ⟨he, hrest⟩ := List.forall_mem_cons.1 hkey
      rw [Graph.retagKeys, List.foldl_cons, ← Graph.retagKeys]
      split
      · rename_i hvalue
        rcases he with hle | ⟨e', he', heq⟩
        · exact ih (hg.retag hle .str) hrest
        · rw [heq, hg.mirrors.tagOf (hg.back_pos e' he').1] at hvalue
          exact absurd hvalue (hg.arePlain e' he').2
      · exact ih hg hrest

theorem setEntries (hg : Settled d back rest h g) (hn : n ≤ d) (hentries : Repeats d back entries)
    (hroot : n = 0 → ∃ front, entries = front ++ shiftEntries d rest) :
    Settled d back rest h (g.setEntries n entries) where
  mirrors := hg.mirrors.setIfInBounds_right (by omega)
  arePlain := hg.arePlain
  back_pos := hg.back_pos
  suffix := hg.suffix
  repeats m hm := by
    rw [entriesOf_setEntries_eq]
    split
    · exact hentries
    · exact hg.repeats m hm
  root := by
    rw [entriesOf_setEntries_eq]
    split
    · rename_i heq
      exact hroot heq.1
    · exact hg.root
  items_le m hm i hi := hg.items_le m hm i (mem_itemsOf_setEntries hi)

theorem retagKeys_unmerged (hg : Settled d back rest h g) (hn : n ≤ d) (start : Nat) :
    Settled d back rest h (g.retagKeys (g.unmerged n start)) := by
  refine hg.retagKeys fun e he => ?_
  have hmem := List.mem_of_mem_drop ((List.takeWhile_prefix _).subset he)
  exact ((hg.repeats n hn).of_mem hmem).imp And.left
    fun ⟨e', he', heq⟩ => ⟨e', he', congrArg Prod.fst heq⟩

/-- A merge key is one of the nodes up to `d`, and so is what it refers to. -/
theorem le_of_isMergeKey (hg : Settled d back rest h g) (hn : n ≤ d) {key : Nat}
    (hmem : (key, source) ∈ g.entriesOf n) (hkey : g.tagOf key = .merge) :
    key ≤ d ∧ source ≤ d := by
  rcases (hg.repeats n hn).of_mem hmem with hle | ⟨e', he', heq⟩
  · exact hle
  · have hfst : key = e'.1 + d := congrArg Prod.fst heq
    rw [hfst, hg.mirrors.tagOf (hg.back_pos e' he').1] at hkey
    exact absurd hkey (hg.arePlain e' he').1

theorem withoutKey (hg : Settled d back rest h g) (hn : n ≤ d) {key : Nat}
    (hsome : (g.entriesOf n)[start + (g.unmerged n start).length]? = some (key, source))
    (hkey : key ≤ d) : Settled d back rest h (g.withoutKey n start) := by
  refine (hg.retagKeys_unmerged hn start).setEntries hn ((hg.repeats n hn).eraseIdx hsome hkey) ?_
  rintro rfl
  obtain ⟨front, hfront⟩ := hg.root
  refine ⟨front.eraseIdx (start + (g.unmerged 0 start).length), ?_⟩
  rw [hfront] at hsome ⊢
  refine List.eraseIdx_append_of_lt_length ?_ _
  by_contra hle
  rw [List.getElem?_append_right (Nat.le_of_not_lt hle)] at hsome
  obtain ⟨e, he, heq⟩ := List.mem_map.1 (List.mem_of_getElem? hsome)
  have hpos := (hg.back_pos e (hg.suffix.subset he)).1
  have hfst : e.1 + d = key := congrArg Prod.fst heq
  omega

end Settled

/-- What merges within a bound leave settled. -/
structure KeepsSettled (d : Nat) (back rest : List (Nat × Nat)) (h : Graph) (fuel : Nat) :
    Prop where
  mergeFrom : ∀ {n start taken g g'}, Settled d back rest h g → n ≤ d → Repeats d back taken →
    (mergeFrom fuel n start taken).run g = .ok ((), g') → Settled d back rest h g'
  mergeItems : ∀ {items lists g g'}, Settled d back rest h g → (∀ i ∈ items, i ≤ d) →
    (mergeItems fuel items).run g = .ok (lists, g') →
    Settled d back rest h g' ∧ ∀ entries ∈ lists, Repeats d back entries

namespace KeepsSettled

theorem takes (ih : KeepsSettled d back rest h fuel) (hg : Settled d back rest h g)
    (hsource : source ≤ d) (hg' : Takes fuel source g more g') :
    Settled d back rest h g' ∧ Repeats d back more := by
  cases hg' with
  | mapping _ hmerge =>
      have hg' := ih.mergeFrom hg hsource Repeats.nil hmerge
      exact ⟨hg', hg'.repeats source hsource⟩
  | sequence hnode hmerge =>
      have hitems := hg.items_le source hsource
      rw [itemsOf, hnode] at hitems
      obtain ⟨hg', hlists⟩ := ih.mergeItems hg hitems hmerge
      exact ⟨hg', Repeats.flatten fun entries he => hlists entries (List.mem_reverse.1 he)⟩

theorem mergeFrom_succ (ih : KeepsSettled d back rest h fuel) (hg : Settled d back rest h g)
    (hn : n ≤ d) (htaken : Repeats d back taken)
    (hg' : (Graph.mergeFrom (fuel + 1) n start taken).run g = .ok ((), g')) :
    Settled d back rest h g' := by
  rcases mergeFrom_eq_ok hg' with ⟨-, rfl⟩ | ⟨key, source, more, g₁, hsome, htakes, hrest⟩
  · refine (hg.retagKeys_unmerged hn start).setEntries hn (htaken.append (hg.repeats n hn)) ?_
    rintro rfl
    obtain ⟨front, hfront⟩ := hg.root
    exact ⟨taken ++ front, by rw [hfront, List.append_assoc]⟩
  · obtain ⟨hkey, hsource⟩ := hg.le_of_isMergeKey hn (List.mem_of_getElem? hsome)
      (tagOf_of_getElem?_unmerged hsome)
    obtain ⟨hg₁, hmore⟩ := ih.takes (hg.withoutKey hn hsome hkey) hsource htakes
    exact ih.mergeFrom hg₁ hn (htaken.append hmore) hrest

theorem mergeItems_succ (ih : KeepsSettled d back rest h fuel) {items : List Nat}
    {lists : List (List (Nat × Nat))} (hg : Settled d back rest h g) (hitems : ∀ i ∈ items, i ≤ d)
    (hg' : (Graph.mergeItems (fuel + 1) items).run g = .ok (lists, g')) :
    Settled d back rest h g' ∧ ∀ entries ∈ lists, Repeats d back entries := by
  cases items with
  | nil =>
      obtain ⟨rfl, rfl⟩ := mergeItems_nil_eq_ok hg'
      exact ⟨hg, nofun⟩
  | cons item items =>
      obtain ⟨hitem, hitems⟩ := List.forall_mem_cons.1 hitems
      obtain ⟨-, g₁, lists, hmerge, hrun, rfl⟩ := mergeItems_cons_eq_ok hg'
      have hg₁ := ih.mergeFrom hg hitem Repeats.nil hmerge
      obtain ⟨hg', hlists⟩ := ih.mergeItems hg₁ hitems hrun
      exact ⟨hg', List.forall_mem_cons.2 ⟨hg₁.repeats item hitem, hlists⟩⟩

end KeepsSettled

theorem keepsSettled (d : Nat) (back rest : List (Nat × Nat)) (h : Graph) (fuel : Nat) :
    KeepsSettled d back rest h fuel := by
  induction fuel with
  | zero =>
      refine ⟨fun _ _ _ h => (nomatch h), fun {items lists g g'} hg _ hg' => ?_⟩
      cases items with
      | nil =>
          obtain ⟨rfl, rfl⟩ := mergeItems_nil_eq_ok hg'
          exact ⟨hg, nofun⟩
      | cons item rest => cases hg'
  | succ fuel ih => exact ⟨ih.mergeFrom_succ, ih.mergeItems_succ⟩

end FrontLint.Yaml.Graph
