import FrontLint.Proofs.Yaml.Merging

namespace FrontLint.Yaml.Graph

variable {g g' : Graph} {d n start fuel source : Nat} {taken more : List (Nat × Nat)}

/-- The entries from a position on in front of the next merge key. -/
def unmerged (g : Graph) (n start : Nat) : List (Nat × Nat) :=
  ((g.entriesOf n).drop start).takeWhile fun e => g.tagOf e.1 != .merge

/-- What is taken over from the node that a merge key refers to. -/
inductive Takes (fuel source : Nat) (g : Graph) : List (Nat × Nat) → Graph → Prop where
  | mapping {g' : Graph} (hkind : (g.node source).kind = .mapping)
      (h : (mergeFrom fuel source 0 []).run g = .ok ((), g')) :
      Takes fuel source g (g'.entriesOf source) g'
  | sequence {tag : Tag} {items : List Nat} {lists : List (List (Nat × Nat))} {g' : Graph}
      (hnode : g.node source = .sequence tag items)
      (h : (mergeItems fuel items).run g = .ok (lists, g')) :
      Takes fuel source g lists.reverse.flatten g'

/-- The graph without the merge key at a position. -/
def withoutKey (g : Graph) (n start : Nat) : Graph :=
  (g.retagKeys (g.unmerged n start)).setEntries n
    ((g.entriesOf n).eraseIdx (start + (g.unmerged n start).length))

/-- What a merge that succeeds has done: nothing but to put the entries taken over in front, or to
remove a merge key, to take over what that refers to, and to go on. -/
theorem mergeFrom_eq_ok (h : (mergeFrom (fuel + 1) n start taken).run g = .ok ((), g')) :
    ((g.entriesOf n)[start + (g.unmerged n start).length]? = none ∧
      g' = (g.retagKeys (g.unmerged n start)).setEntries n (taken ++ g.entriesOf n)) ∨
    ∃ key source more g₁,
      (g.entriesOf n)[start + (g.unmerged n start).length]? = some (key, source) ∧
      Takes fuel source (g.withoutKey n start) more g₁ ∧
      (mergeFrom fuel n (start + (g.unmerged n start).length) (taken ++ more)).run g₁ =
        .ok ((), g') := by
  rw [mergeFrom] at h
  obtain ⟨_, _, hget, h⟩ := run_bind_eq_ok h
  cases hget
  obtain ⟨_, _, hset, h⟩ := run_bind_eq_ok h
  cases hset
  dsimp only at h
  rw [← unmerged] at h
  split at h
  · rename_i hnone
    cases h
    exact .inl ⟨hnone, rfl⟩
  · rename_i key source hsome
    obtain ⟨_, _, hmodify, h⟩ := run_bind_eq_ok h
    cases hmodify
    obtain ⟨_, _, hget, h⟩ := run_bind_eq_ok h
    cases hget
    dsimp only at h
    rw [← withoutKey] at h
    split at h
    · rename_i hnode
      obtain ⟨_, g₁, hmerge, h⟩ := run_bind_eq_ok h
      obtain ⟨_, _, hget, h⟩ := run_bind_eq_ok h
      cases hget
      exact .inr ⟨key, source, _, g₁, hsome, .mapping (by rw [hnode]; rfl) hmerge, h⟩
    · rename_i hnode
      obtain ⟨lists, g₁, hmerge, h⟩ := run_bind_eq_ok h
      exact .inr ⟨key, source, _, g₁, hsome, .sequence hnode hmerge, h⟩
    · cases h

theorem mergeItems_nil_eq_ok {lists : List (List (Nat × Nat))}
    (h : (mergeItems fuel []).run g = .ok (lists, g')) : lists = [] ∧ g' = g := by
  cases fuel <;> cases h <;> exact ⟨rfl, rfl⟩

theorem mergeItems_cons_eq_ok {item : Nat} {rest : List Nat} {lists : List (List (Nat × Nat))}
    (h : (mergeItems (fuel + 1) (item :: rest)).run g = .ok (lists, g')) :
    (g.node item).kind = .mapping ∧ ∃ g₁ lists₁,
      (mergeFrom fuel item 0 []).run g = .ok ((), g₁) ∧
      (mergeItems fuel rest).run g₁ = .ok (lists₁, g') ∧
      lists = g₁.entriesOf item :: lists₁ := by
  rw [mergeItems] at h
  obtain ⟨_, _, hget, h⟩ := run_bind_eq_ok h
  cases hget
  split at h
  · rename_i hnode
    obtain ⟨_, g₁, hmerge, h⟩ := run_bind_eq_ok h
    obtain ⟨_, _, hget, h⟩ := run_bind_eq_ok h
    cases hget
    obtain ⟨lists₁, _, hrest, h⟩ := run_bind_eq_ok h
    cases h
    exact ⟨by rw [hnode]; rfl, g₁, lists₁, hmerge, hrest, rfl⟩
  · cases h

/-! ## What has been merged -/

variable {entries : List (Nat × Nat)}

/-- The same node with another tag. -/
def retagged (tag : Tag) : Node → Node
  | .scalar _ text => .scalar tag text
  | .sequence _ items => .sequence tag items
  | .mapping _ entries => .mapping tag entries

theorem retag_eq (g : Graph) (n : Nat) (tag : Tag) :
    g.retag n tag = g.setIfInBounds n (retagged tag (g.node n)) := by
  rw [retag]
  cases g.node n <;> rfl

theorem tagOf_retag (g : Graph) (n m : Nat) (tag : Tag) :
    (g.retag n tag).tagOf m = if n = m ∧ n < g.size then tag else g.tagOf m := by
  rw [retag_eq, tagOf, node_setIfInBounds]
  split
  · cases g.node n <;> rfl
  · rfl

theorem tagOf_setEntries (g : Graph) (n m : Nat) (entries : List (Nat × Nat)) :
    (g.setEntries n entries).tagOf m = g.tagOf m := by
  rw [setEntries, tagOf, node_setIfInBounds]
  split
  · rename_i h
    rw [h.1]
    rfl
  · rfl

/-- Setting the entries of a node there is makes it a mapping with them. -/
theorem entriesOf_setEntries_eq (g : Graph) (n m : Nat) (entries : List (Nat × Nat)) :
    (g.setEntries n entries).entriesOf m =
      if n = m ∧ n < g.size then entries else g.entriesOf m := by
  rw [setEntries, entriesOf, node_setIfInBounds]
  by_cases h : n = m ∧ n < g.size
  · rw [if_pos h, if_pos h]
  · rw [if_neg h, if_neg h, entriesOf]

theorem retagKeys_append (g : Graph) (entries entries' : List (Nat × Nat)) :
    g.retagKeys (entries ++ entries') = (g.retagKeys entries).retagKeys entries' :=
  List.foldl_append

theorem tagOf_retagKeys (g : Graph) (entries : List (Nat × Nat)) (m : Nat) :
    (g.tagOf m).Retags ((g.retagKeys entries).tagOf m) :=
  ((evolves_retagKeys g entries).node m).retags

/-- Keys that are neither merge keys nor lone equals signs. -/
def ArePlain (g : Graph) (entries : List (Nat × Nat)) : Prop :=
  ∀ e ∈ entries, g.tagOf e.1 ≠ .merge ∧ g.tagOf e.1 ≠ .value

theorem arePlain_nil (g : Graph) : g.ArePlain [] := fun _ he => nomatch he

theorem ArePlain.mono (h : g.ArePlain entries) (hg : ∀ m, (g.tagOf m).Retags (g'.tagOf m)) :
    g'.ArePlain entries := by
  intro e he
  obtain ⟨hmerge, hvalue⟩ := h e he
  rcases hg e.1 with heq | ⟨heq, -⟩
  · rw [heq]
    exact ⟨hmerge, hvalue⟩
  · exact absurd heq hvalue

theorem ArePlain.append {entries' : List (Nat × Nat)} (h : g.ArePlain entries)
    (h' : g.ArePlain entries') : g.ArePlain (entries ++ entries') :=
  List.forall_mem_append.2 ⟨h, h'⟩

/-- Lone equals signs among the keys become strings. -/
theorem arePlain_retagKeys (h : ∀ e ∈ entries, g.tagOf e.1 ≠ .merge) :
    (g.retagKeys entries).ArePlain entries := by
  induction entries generalizing g with
  | nil => nofun
  | cons e rest ih =>
      obtain ⟨he, hrest⟩ := List.forall_mem_cons.1 h
      rw [retagKeys, List.foldl_cons, ← retagKeys]
      split
      · rename_i hvalue
        have hlt : e.1 < g.size := by
          by_contra hle
          rw [tagOf, Graph.node, Array.getElem?_eq_none (Nat.le_of_not_lt hle)] at hvalue
          cases hvalue
        have hstr : (g.retag e.1 .str).tagOf e.1 = .str := by rw [tagOf_retag, if_pos ⟨rfl, hlt⟩]
        have hplain : (g.retag e.1 .str).ArePlain [e] := by
          simp [ArePlain, hstr]
        refine List.forall_mem_cons.2
          ⟨(hplain.mono (tagOf_retagKeys _ rest)) e List.mem_cons_self, ih fun e' he' => ?_⟩
        rw [tagOf_retag]
        split
        · simp
        · exact hrest e' he'
      · rename_i hvalue
        have hplain : g.ArePlain [e] := List.forall_mem_singleton.2 ⟨he, hvalue⟩
        exact List.forall_mem_cons.2
          ⟨(hplain.mono (tagOf_retagKeys g rest)) e List.mem_cons_self, ih hrest⟩

theorem tagOf_of_mem_unmerged {e : Nat × Nat} (he : e ∈ g.unmerged n start) :
    g.tagOf e.1 ≠ .merge := by
  simpa using List.all_eq_true.1 List.all_takeWhile e he

theorem tagOf_of_getElem?_unmerged {key : Nat}
    (h : (g.entriesOf n)[start + (g.unmerged n start).length]? = some (key, source)) :
    g.tagOf key = .merge := by
  have hp := isMergeKey_of_getElem? (p := fun k => g.tagOf k == .merge) (g.entriesOf n) start
    (q := fun e => g.tagOf e.1 != .merge) (fun _ => rfl) h
  exact beq_iff_eq.1 hp

/-- What a merge makes of tags, and of the entries of mappings: they stay as they are, or get keys
that are plain. -/
structure Cleans (g g' : Graph) : Prop where
  size_eq : g'.size = g.size
  retags : ∀ m, (g.tagOf m).Retags (g'.tagOf m)
  entriesOf : ∀ m, g'.entriesOf m = g.entriesOf m ∨ g'.ArePlain (g'.entriesOf m)

theorem cleans_refl (g : Graph) : Cleans g g := ⟨rfl, fun _ => .inl rfl, fun _ => .inl rfl⟩

theorem Cleans.trans {g'' : Graph} (h : Cleans g g') (h' : Cleans g' g'') : Cleans g g'' where
  size_eq := h'.size_eq.trans h.size_eq
  retags m := (h.retags m).trans (h'.retags m)
  entriesOf m := by
    rcases h'.entriesOf m with heq | hplain
    · rw [heq]
      exact (h.entriesOf m).imp_right fun hplain => hplain.mono h'.retags
    · exact .inr hplain

/-- What merges within a bound make of a graph. -/
structure MergesClean (fuel : Nat) : Prop where
  mergeFrom : ∀ {n start taken g g'}, g.ArePlain taken →
    g.ArePlain ((g.entriesOf n).take start) →
    (mergeFrom fuel n start taken).run g = .ok ((), g') →
    Cleans g g' ∧ g'.ArePlain (g'.entriesOf n)
  mergeItems : ∀ {items lists g g'}, (mergeItems fuel items).run g = .ok (lists, g') →
    Cleans g g' ∧ ∀ entries ∈ lists, g'.ArePlain entries

theorem MergesClean.mergeFrom_zero (ih : MergesClean fuel)
    (h : (Graph.mergeFrom fuel n 0 []).run g = .ok ((), g')) :
    Cleans g g' ∧ g'.ArePlain (g'.entriesOf n) :=
  ih.mergeFrom (arePlain_nil g) (by rw [List.take_zero]; exact arePlain_nil g) h

theorem MergesClean.takes (ih : MergesClean fuel) (h : Takes fuel source g more g') :
    Cleans g g' ∧ g'.ArePlain more := by
  cases h with
  | mapping _ hmerge => exact ih.mergeFrom_zero hmerge
  | sequence _ hmerge =>
      obtain ⟨hg', hlists⟩ := ih.mergeItems hmerge
      refine ⟨hg', fun e he => ?_⟩
      obtain ⟨entries, hmem, he⟩ := List.mem_flatten.1 he
      exact hlists entries (List.mem_reverse.1 hmem) e he

theorem arePlain_take (h : g.ArePlain ((g.entriesOf n).take start)) :
    (g.retagKeys (g.unmerged n start)).ArePlain
      ((g.entriesOf n).take (start + (g.unmerged n start).length)) := by
  have htake : ((g.entriesOf n).drop start).take (g.unmerged n start).length =
      g.unmerged n start := (List.prefix_iff_eq_take.1 (List.takeWhile_prefix _)).symm
  rw [List.take_add, htake]
  exact (h.mono (tagOf_retagKeys g _)).append (arePlain_retagKeys fun _ => tagOf_of_mem_unmerged)

theorem entriesOf_of_size_le (h : g.size ≤ n) : g.entriesOf n = [] := by
  rw [entriesOf, Graph.node, Array.getElem?_eq_none h]
  rfl

/-- The graph with other entries, the keys in front of a merge key being plain. -/
theorem entriesOf_setEntries_retagKeys (g : Graph) (n m : Nat) (before entries : List (Nat × Nat)) :
    ((g.retagKeys before).setEntries n entries).entriesOf m =
      if n = m ∧ n < g.size then entries else g.entriesOf m := by
  rw [entriesOf_setEntries_eq, entriesOf_retagKeys, (evolves_retagKeys g before).size_eq]

theorem size_setEntries_retagKeys (g : Graph) (n : Nat) (before entries : List (Nat × Nat)) :
    ((g.retagKeys before).setEntries n entries).size = g.size := by
  rw [setEntries, Array.size_setIfInBounds, (evolves_retagKeys g before).size_eq]

theorem tagOf_setEntries_retagKeys (g : Graph) (n m : Nat) (before entries : List (Nat × Nat)) :
    (g.tagOf m).Retags (((g.retagKeys before).setEntries n entries).tagOf m) := by
  rw [tagOf_setEntries]
  exact tagOf_retagKeys g before m

theorem MergesClean.mergeFrom_succ (ih : MergesClean fuel) (htaken : g.ArePlain taken)
    (hstart : g.ArePlain ((g.entriesOf n).take start))
    (h : (Graph.mergeFrom (fuel + 1) n start taken).run g = .ok ((), g')) :
    Cleans g g' ∧ g'.ArePlain (g'.entriesOf n) := by
  have hfront := arePlain_take hstart
  have hretags (entries : List (Nat × Nat)) (m : Nat) :=
    tagOf_setEntries_retagKeys g n m (g.unmerged n start) entries
  have hentries (entries : List (Nat × Nat)) (m : Nat) :=
    entriesOf_setEntries_retagKeys g n m (g.unmerged n start) entries
  have htags (entries : List (Nat × Nat)) (m : Nat) :
      (((g.retagKeys (g.unmerged n start)).tagOf m)).Retags
        (((g.retagKeys (g.unmerged n start)).setEntries n entries).tagOf m) :=
    .inl (tagOf_setEntries ..)
  rcases mergeFrom_eq_ok h with ⟨hnone, rfl⟩ | ⟨key, source, more, g₁, hsome, htakes, hrest⟩
  · rw [List.take_of_length_le (List.getElem?_eq_none_iff.1 hnone)] at hfront
    have hplain := (htaken.mono (hretags (taken ++ g.entriesOf n))).append (hfront.mono (htags _))
    refine ⟨⟨size_setEntries_retagKeys .., hretags _, fun m => ?_⟩, ?_⟩
    · rw [hentries]
      split
      · exact .inr hplain
      · exact .inl rfl
    · rw [hentries]
      split
      · exact hplain
      · rw [entriesOf_of_size_le (by omega)]
        exact arePlain_nil _
  · obtain ⟨hg₁, hmore⟩ := ih.takes htakes
    rw [withoutKey] at hg₁
    have hretags₁ (m : Nat) := (hretags _ m).trans (hg₁.retags m)
    have hstart₁ : g₁.ArePlain ((g₁.entriesOf n).take (start + (g.unmerged n start).length)) := by
      rcases hg₁.entriesOf n with heq | hplain
      · rw [heq, hentries]
        split
        · rw [List.take_eraseIdx_eq_take_of_le _ _ _ (Nat.le_refl _)]
          exact (hfront.mono (htags _)).mono hg₁.retags
        · rw [entriesOf_of_size_le (by omega), List.take_nil]
          exact arePlain_nil _
      · exact fun e he => hplain e (List.mem_of_mem_take he)
    obtain ⟨hg', hplain⟩ := ih.mergeFrom ((htaken.mono hretags₁).append hmore) hstart₁ hrest
    refine ⟨⟨(hg₁.trans hg').size_eq.trans (size_setEntries_retagKeys ..),
      fun m => (hretags₁ m).trans (hg'.retags m), fun m => ?_⟩, hplain⟩
    by_cases hnm : n = m
    · exact .inr (hnm ▸ hplain)
    · have hm := (hg₁.trans hg').entriesOf m
      rwa [hentries, if_neg fun h => hnm h.1] at hm

theorem MergesClean.mergeItems_succ (ih : MergesClean fuel) {items : List Nat}
    {lists : List (List (Nat × Nat))}
    (h : (Graph.mergeItems (fuel + 1) items).run g = .ok (lists, g')) :
    Cleans g g' ∧ ∀ entries ∈ lists, g'.ArePlain entries := by
  cases items with
  | nil =>
      obtain ⟨rfl, rfl⟩ := mergeItems_nil_eq_ok h
      exact ⟨cleans_refl _, nofun⟩
  | cons item rest =>
      obtain ⟨-, g₁, lists, hmerge, hrest, rfl⟩ := mergeItems_cons_eq_ok h
      obtain ⟨hg₁, hplain⟩ := ih.mergeFrom_zero hmerge
      obtain ⟨hg', hlists⟩ := ih.mergeItems hrest
      exact ⟨hg₁.trans hg', List.forall_mem_cons.2 ⟨hplain.mono hg'.retags, hlists⟩⟩

theorem mergesClean (fuel : Nat) : MergesClean fuel := by
  induction fuel with
  | zero =>
      refine ⟨fun _ _ h => (nomatch h), fun {items lists g g'} h => ?_⟩
      cases items with
      | nil =>
          obtain ⟨rfl, rfl⟩ := mergeItems_nil_eq_ok h
          exact ⟨cleans_refl _, nofun⟩
      | cons item rest => cases h
  | succ fuel ih => exact ⟨ih.mergeFrom_succ, ih.mergeItems_succ⟩

end FrontLint.Yaml.Graph
