import FrontLint.Proofs.Yaml.SettledMerges

namespace FrontLint.Yaml.Graph

variable {d n start fuel source : Nat} {front back entries taken taken' more : List (Nat × Nat)}
  {g g' h h' h₁ g₁ : Graph}

/-- Graphs whose first mappings have not been merged: that of the second one has entries of nodes up
to `d` in front of those of the first one, and no other node up to `d` refers to nodes behind. -/
structure Unsettled (d : Nat) (front back : List (Nat × Nat)) (h g : Graph) : Prop where
  mirrors : h.Mirrors 1 d g
  back_eq : h.entriesOf 0 = back
  root : g.entriesOf 0 = front ++ shiftEntries d back
  front_le : ∀ e ∈ front, e.1 ≤ d ∧ e.2 ≤ d
  back_pos : ∀ e ∈ back, 1 ≤ e.1 ∧ 1 ≤ e.2
  entries_le : ∀ n, 0 < n → n ≤ d → ∀ e ∈ g.entriesOf n, e.1 ≤ d ∧ e.2 ≤ d
  items_le : ∀ n ≤ d, ∀ i ∈ g.itemsOf n, i ≤ d

theorem entriesOf_congr (hnode : g.node n = g'.node n) : g.entriesOf n = g'.entriesOf n := by
  rw [entriesOf, hnode, entriesOf]

theorem itemsOf_congr (hnode : g.node n = g'.node n) : g.itemsOf n = g'.itemsOf n := by
  rw [itemsOf, hnode, itemsOf]

namespace Unsettled

theorem of_beside (hg : Unsettled d front back h g) (hg₁ : Beside d h g h₁ g₁) :
    Unsettled d front back h₁ g₁ where
  mirrors := hg₁.mirrors
  back_eq := (entriesOf_congr hg₁.node_zero).trans hg.back_eq
  root := (entriesOf_congr (hg₁.node_le 0 (Nat.zero_le d))).trans hg.root
  front_le := hg.front_le
  back_pos := hg.back_pos
  entries_le n hn hnd := by
    rw [entriesOf_congr (hg₁.node_le n hnd)]
    exact hg.entries_le n hn hnd
  items_le n hnd := by
    rw [itemsOf_congr (hg₁.node_le n hnd)]
    exact hg.items_le n hnd

theorem beside (hg : Unsettled d front back h g) : Beside d h g h g :=
  ⟨hg.mirrors, rfl, fun _ _ => rfl⟩

theorem size_pos (hg : Unsettled d front back h g) : 0 < g.size := by
  have hsize := hg.mirrors.size_eq
  have hle := hg.mirrors.size_le
  omega

theorem retag (hg : Unsettled d front back h g) (hn : n ≤ d) (tag : Tag) :
    Unsettled d front back h (g.retag n tag) where
  mirrors := by
    rw [retag_eq]
    exact hg.mirrors.setIfInBounds_right (by omega)
  back_eq := hg.back_eq
  root := by rw [entriesOf_retag, hg.root]
  front_le := hg.front_le
  back_pos := hg.back_pos
  entries_le m := by
    rw [entriesOf_retag]
    exact hg.entries_le m
  items_le m := by
    rw [itemsOf_retag]
    exact hg.items_le m

theorem retagKeys (hg : Unsettled d front back h g) (hentries : ∀ e ∈ entries, e.1 ≤ d) :
    Unsettled d front back h (g.retagKeys entries) := by
  induction entries generalizing g with
  | nil => exact hg
  | cons e rest ih =>
      obtain ⟨he, hrest⟩ := List.forall_mem_cons.1 hentries
      rw [Graph.retagKeys, List.foldl_cons, ← Graph.retagKeys]
      split
      · exact ih (hg.retag he .str) hrest
      · exact ih hg hrest

theorem setEntries (hg : Unsettled d front back h g) (hn : 0 < n) (hnd : n ≤ d)
    (hentries : ∀ e ∈ entries, e.1 ≤ d ∧ e.2 ≤ d) :
    Unsettled d front back h (g.setEntries n entries) where
  mirrors := hg.mirrors.setIfInBounds_right (by omega)
  back_eq := hg.back_eq
  root := by rw [entriesOf_setEntries_eq, if_neg (by omega), hg.root]
  front_le := hg.front_le
  back_pos := hg.back_pos
  entries_le m hm hmd := by
    rw [entriesOf_setEntries_eq]
    split
    · exact hentries
    · exact hg.entries_le m hm hmd
  items_le m hm i hi := hg.items_le m hm i (mem_itemsOf_setEntries hi)

theorem setRoot {front' : List (Nat × Nat)} (hg : Unsettled d front back h g)
    (hfront : ∀ e ∈ front', e.1 ≤ d ∧ e.2 ≤ d) :
    Unsettled d front' back h (g.setEntries 0 (front' ++ shiftEntries d back)) where
  mirrors := hg.mirrors.setIfInBounds_right (by omega)
  back_eq := hg.back_eq
  root := by
    rw [entriesOf_setEntries_eq, if_pos ⟨rfl, hg.size_pos⟩]
  front_le := hfront
  back_pos := hg.back_pos
  entries_le m hm hmd := by
    rw [entriesOf_setEntries_eq, if_neg (by omega)]
    exact hg.entries_le m hm hmd
  items_le m hm i hi := hg.items_le m hm i (mem_itemsOf_setEntries hi)

/-- Other entries of the first mapping, in both graphs. -/
theorem setRoots {back' : List (Nat × Nat)} (hg : Unsettled d front back h g)
    (hback : ∀ e ∈ back', 1 ≤ e.1 ∧ 1 ≤ e.2) :
    Unsettled d front back' (h.setEntries 0 back')
      (g.setEntries 0 (front ++ shiftEntries d back')) where
  mirrors := (hg.mirrors.setIfInBounds_left Nat.zero_lt_one).setIfInBounds_right (by omega)
  back_eq := by
    rw [entriesOf_setEntries_eq, if_pos ⟨rfl, hg.mirrors.size_le⟩]
  root := by
    rw [entriesOf_setEntries_eq, if_pos ⟨rfl, hg.size_pos⟩]
  front_le := hg.front_le
  back_pos := hback
  entries_le m hm hmd := by
    rw [entriesOf_setEntries_eq, if_neg (by omega)]
    exact hg.entries_le m hm hmd
  items_le m hm i hi := hg.items_le m hm i (mem_itemsOf_setEntries hi)

/-- The entries of the first mapping up to the next merge key, where there is none in front. -/
theorem unmerged_root (hg : Unsettled d front back h g)
    (hfront : ∀ e ∈ front.drop start, g.tagOf e.1 ≠ .merge) :
    g.unmerged 0 start =
      front.drop start ++ shiftEntries d (h.unmerged 0 (start - front.length)) := by
  rw [unmerged, hg.root, List.drop_append, List.takeWhile_append_of_pos, drop_shiftEntries,
    hg.mirrors.takeWhile_shiftEntries, unmerged, hg.back_eq]
  · exact fun e he => hg.back_pos e (List.mem_of_mem_drop he)
  · exact fun e he => by simpa using hfront e he

theorem unmerged_pos (hg : Unsettled d front back h g) (start : Nat) :
    ∀ e ∈ h.unmerged 0 start, 1 ≤ e.1 ∧ 1 ≤ e.2 := fun e he =>
  hg.back_pos e (hg.back_eq ▸ List.mem_of_mem_drop ((List.takeWhile_prefix _).subset he))

/-- The first mappings have their next merge keys at places that belong together. -/
theorem add_length_unmerged_root (hg : Unsettled d front back h g)
    (hfront : ∀ e ∈ front.drop start, g.tagOf e.1 ≠ .merge) :
    start + (g.unmerged 0 start).length =
      front.length + (start - front.length + (h.unmerged 0 (start - front.length)).length) := by
  rw [hg.unmerged_root hfront, List.length_append, List.length_drop, length_shiftEntries]
  omega

theorem getElem?_unmerged_root (hg : Unsettled d front back h g)
    (hfront : ∀ e ∈ front.drop start, g.tagOf e.1 ≠ .merge) :
    (g.entriesOf 0)[start + (g.unmerged 0 start).length]? =
      (h.entriesOf 0)[start - front.length +
        (h.unmerged 0 (start - front.length)).length]?.map (Prod.map (· + d) (· + d)) := by
  rw [hg.add_length_unmerged_root hfront, hg.root,
    List.getElem?_append_right (Nat.le_add_right _ _), Nat.add_sub_cancel_left,
    getElem?_shiftEntries, hg.back_eq]

theorem retagKeys_unmerged (hg : Unsettled d front back h g)
    (hfront : ∀ e ∈ front.drop start, g.tagOf e.1 ≠ .merge) :
    Unsettled d front back (h.retagKeys (h.unmerged 0 (start - front.length)))
      (g.retagKeys (g.unmerged 0 start)) := by
  rw [hg.unmerged_root hfront, retagKeys_append]
  have hg₁ : Unsettled d front back h (g.retagKeys (front.drop start)) :=
    hg.retagKeys fun e he => (hg.front_le e (List.mem_of_mem_drop he)).1
  exact hg₁.of_beside (hg₁.beside.retagKeys (hg.unmerged_pos _))

theorem withoutKey_root (hg : Unsettled d front back h g)
    (hfront : ∀ e ∈ front.drop start, g.tagOf e.1 ≠ .merge) {q : Nat}
    (hq : start - front.length + (h.unmerged 0 (start - front.length)).length = q)
    (hposition : start + (g.unmerged 0 start).length = front.length + q) :
    Unsettled d front (back.eraseIdx q) (h.withoutKey 0 (start - front.length))
      (g.withoutKey 0 start) := by
  rw [Graph.withoutKey, Graph.withoutKey, hq, hposition, hg.root, hg.back_eq,
    List.eraseIdx_append_of_length_le (Nat.le_add_right _ _), Nat.add_sub_cancel_left,
    eraseIdx_shiftEntries]
  exact (hg.retagKeys_unmerged hfront).setRoots fun e he =>
    hg.back_pos e (List.mem_of_mem_eraseIdx he)

theorem repeats_root (hg : Unsettled d front back h g) (htaken : ∀ e ∈ taken, e.1 ≤ d ∧ e.2 ≤ d)
    (htaken' : ∀ e ∈ taken', 1 ≤ e.1 ∧ 1 ≤ e.2) :
    Repeats d (taken' ++ back)
      (taken ++ shiftEntries d taken' ++ (front ++ shiftEntries d back)) where
  le e he hle := by
    have hnot {entries : List (Nat × Nat)} (hpos : ∀ e ∈ entries, 1 ≤ e.1 ∧ 1 ≤ e.2)
        (hmem : e ∈ shiftEntries d entries) : e.2 ≤ d :=
      absurd (lt_of_mem_shiftEntries hpos e hmem) (Nat.not_lt.2 hle)
    rcases List.mem_append.1 he with he | he <;> rcases List.mem_append.1 he with he | he
    · exact (htaken e he).2
    · exact hnot htaken' he
    · exact (hg.front_le e he).2
    · exact hnot hg.back_pos he
  filter_eq := by
    refine ⟨1, ?_⟩
    rw [List.filter_append, List.filter_append, List.filter_append, filter_of_le htaken,
      filter_shiftEntries htaken', filter_of_le hg.front_le, filter_shiftEntries hg.back_pos]
    simp

/-- Putting the entries taken over in front settles the first mappings. -/
theorem settled (hg : Unsettled d front back h g) (htaken : ∀ e ∈ taken, e.1 ≤ d ∧ e.2 ≤ d)
    (htaken' : ∀ e ∈ taken', 1 ≤ e.1 ∧ 1 ≤ e.2)
    (hplain : (h.setEntries 0 (taken' ++ back)).ArePlain (taken' ++ back)) :
    Settled d (taken' ++ back) back (h.setEntries 0 (taken' ++ back))
      (g.setEntries 0 (taken ++ shiftEntries d taken' ++ (front ++ shiftEntries d back))) where
  mirrors := (hg.mirrors.setIfInBounds_left Nat.zero_lt_one).setIfInBounds_right (by omega)
  arePlain := hplain
  back_pos := List.forall_mem_append.2 ⟨htaken', hg.back_pos⟩
  suffix := List.suffix_append _ _
  repeats n hn := by
    rw [entriesOf_setEntries_eq]
    split
    · exact hg.repeats_root htaken htaken'
    · rename_i hne
      exact repeats_of_le (hg.entries_le n (Nat.pos_of_ne_zero fun h0 =>
        hne ⟨h0.symm, hg.size_pos⟩) hn)
  root := by
    rw [entriesOf_setEntries_eq, if_pos ⟨rfl, hg.size_pos⟩]
    exact ⟨taken ++ shiftEntries d taken' ++ front, by simp⟩
  items_le m hm i hi := hg.items_le m hm i (mem_itemsOf_setEntries hi)

end Unsettled

/-- Graphs whose first mappings have been merged, and that have an entry still. -/
def IsSettled (d : Nat) (e : Nat × Nat) (h g : Graph) : Prop :=
  ∃ rest, e ∈ rest ∧ Settled d (h.entriesOf 0) rest h g

/-- An entry whose key is a text stays where a merge key is taken out. -/
theorem mem_eraseIdx_of_str {e : Nat × Nat} {q key : Nat} (he : e ∈ back)
    (hstr : h.tagOf e.1 = .str) (hsome : back[q]? = some (key, source))
    (hmerge : h.tagOf key = .merge) : e ∈ back.eraseIdx q := by
  obtain ⟨i, hi, rfl⟩ := List.mem_iff_getElem.1 he
  refine List.mem_eraseIdx_iff_getElem.2 ⟨i, hi, ?_, rfl⟩
  rintro rfl
  rw [(List.getElem_eq_iff hi).2 hsome, hmerge] at hstr
  cases hstr

/-- Once neither first mapping has a merge key any more, they are settled. -/
theorem Unsettled.isSettled {e : Nat × Nat} (hg : Unsettled d front back h g)
    (hfront : ∀ e ∈ front.drop start, g.tagOf e.1 ≠ .merge)
    (htaken : ∀ e ∈ taken, e.1 ≤ d ∧ e.2 ≤ d) (htaken' : ∀ e ∈ taken', 1 ≤ e.1 ∧ 1 ≤ e.2)
    (he : e ∈ back) (hh' : h' = (h.retagKeys (h.unmerged 0 (start - front.length))).setEntries 0
      (taken' ++ h.entriesOf 0)) (hplain : h'.ArePlain (h'.entriesOf 0)) :
    IsSettled d e h' ((g.retagKeys (g.unmerged 0 start)).setEntries 0
      (taken ++ shiftEntries d taken' ++ g.entriesOf 0)) := by
  have hentries : h'.entriesOf 0 = taken' ++ back := by
    rw [hh', entriesOf_setEntries_retagKeys, if_pos ⟨rfl, hg.mirrors.size_le⟩, hg.back_eq]
  refine ⟨back, he, ?_⟩
  rw [hentries, hh', hg.back_eq] at hplain
  rw [hentries, hh', hg.back_eq, hg.root]
  exact (hg.retagKeys_unmerged hfront).settled htaken htaken' hplain

theorem isSettled_of_mergeFrom {fuel' : Nat} {e : Nat × Nat} (hg : Unsettled d front back h g)
    (hfront : ∀ e ∈ front.drop start, g.tagOf e.1 ≠ .merge)
    (htaken : ∀ e ∈ taken, e.1 ≤ d ∧ e.2 ≤ d) (htaken' : ∀ e ∈ taken', 1 ≤ e.1 ∧ 1 ≤ e.2)
    (he : e ∈ back) (hstr : h.tagOf e.1 = .str) (hplain : h'.ArePlain (h'.entriesOf 0))
    (hh' : (mergeFrom fuel' 0 (start - front.length) taken').run h = .ok ((), h'))
    (hg' : (mergeFrom fuel 0 start (taken ++ shiftEntries d taken')).run g = .ok ((), g')) :
    IsSettled d e h' g' := by
  induction fuel generalizing fuel' start taken' back h g with
  | zero => cases hg'
  | succ fuel ih =>
      cases fuel' with
      | zero => cases hh'
      | succ fuel' =>
          -- Both merges find their next merge key at places that belong together, or neither does.
          have hget := hg.getElem?_unmerged_root hfront
          have hposition := hg.add_length_unmerged_root hfront
          rcases mergeFrom_eq_ok hh' with
              ⟨hnone, rfl⟩ | ⟨key, source, more, h₁, hsome, htakes, hh'⟩ <;>
            rcases mergeFrom_eq_ok hg' with
              ⟨hnone', rfl⟩ | ⟨key', source', more', g₁, hsome', htakes', hg'⟩
          · exact hg.isSettled hfront htaken htaken' he rfl hplain
          · rw [hget, hnone] at hsome'
            cases hsome'
          · rw [hget, hsome] at hnone'
            cases hnone'
          · rw [hget, hsome] at hsome'
            cases hsome'
            obtain ⟨q, hq⟩ : ∃ q, start - front.length +
              (h.unmerged 0 (start - front.length)).length = q := ⟨_, rfl⟩
            rw [hq] at hposition
            rw [hq, hg.back_eq] at hsome
            have hmerge : h.tagOf key = .merge :=
              tagOf_of_getElem?_unmerged (n := 0) (by rw [hq, hg.back_eq, hsome])
            obtain ⟨hbeside, hmore, rfl⟩ := (mergesAlike d fuel').takes
              (hg.withoutKey_root hfront hq hposition).beside
              (hg.back_pos _ (List.mem_of_getElem? hsome)).2 htakes htakes'
            have hg₁ := (hg.withoutKey_root hfront hq hposition).of_beside hbeside
            rw [hq] at hh'
            rw [hposition, List.append_assoc, ← shiftEntries_append] at hg'
            have hdrop : front.drop (front.length + q) = [] :=
              List.drop_eq_nil_of_le (Nat.le_add_right _ _)
            have hstr₁ : h₁.tagOf e.1 = .str := by
              have hretags := (tagOf_setEntries_retagKeys h 0 e.1 _ _).trans
                (((mergesClean fuel').takes htakes).1.retags e.1)
              rw [hstr] at hretags
              exact hretags.elim id And.right
            rw [← Nat.add_sub_cancel_left (n := front.length) (m := q)] at hh'
            refine ih hg₁ ?_
              (List.forall_mem_append.2 ⟨htaken', hmore⟩)
              (mem_eraseIdx_of_str he hstr hsome hmerge) hstr₁ hh' hg'
            rw [hdrop]
            exact List.forall_mem_nil _

/-! ## The nodes in front -/

/-- What a merge of nodes up to `d` comes to: the first mappings have not been merged, and what is
taken over are nodes up to `d`; or they have been merged. -/
def Settles (d : Nat) (e : Nat × Nat) (front back : List (Nat × Nat)) (h h' g' : Graph)
    (lists : List (List (Nat × Nat))) : Prop :=
  (Unsettled d front back h g' ∧ ∀ entries ∈ lists, ∀ e ∈ entries, e.1 ≤ d ∧ e.2 ≤ d) ∨
    ∃ rest, e ∈ rest ∧ Settled d (h'.entriesOf 0) rest h' g' ∧
      ∀ entries ∈ lists, Repeats d (h'.entriesOf 0) entries

/-- What merges within a bound come to. -/
structure MergesSettle (d : Nat) (e : Nat × Nat) (back : List (Nat × Nat)) (h h' : Graph)
    (fuel : Nat) : Prop where
  mergeRoot : ∀ {front start taken g g'}, Unsettled d front back h g → start ≤ front.length →
    (∀ e ∈ taken, e.1 ≤ d ∧ e.2 ≤ d) → (mergeFrom fuel 0 start taken).run g = .ok ((), g') →
    IsSettled d e h' g'
  mergeFrom : ∀ {front n start taken g g'}, Unsettled d front back h g → 0 < n → n ≤ d →
    (∀ e ∈ taken, e.1 ≤ d ∧ e.2 ≤ d) → (mergeFrom fuel n start taken).run g = .ok ((), g') →
    Settles d e front back h h' g' []
  mergeItems : ∀ {front items lists g g'}, Unsettled d front back h g → (∀ i ∈ items, i ≤ d) →
    (mergeItems fuel items).run g = .ok (lists, g') → Settles d e front back h h' g' lists

theorem IsSettled.settles {e : Nat × Nat} {lists : List (List (Nat × Nat))}
    (hg : IsSettled d e h' g)
    (hlists : ∀ rest, Settled d (h'.entriesOf 0) rest h' g →
      ∀ entries ∈ lists, Repeats d (h'.entriesOf 0) entries) :
    Settles d e front back h h' g lists := by
  obtain ⟨rest, he, hsettled⟩ := hg
  exact .inr ⟨rest, he, hsettled, hlists rest hsettled⟩

namespace MergesSettle

variable {e : Nat × Nat} (ih : MergesSettle d e back h h' fuel)
include ih

/-- A mapping up to `d`, with its entries then. -/
theorem mapping (hg : Unsettled d front back h g) (hn : n ≤ d)
    (hg' : (Graph.mergeFrom fuel n 0 []).run g = .ok ((), g')) :
    Settles d e front back h h' g' [g'.entriesOf n] := by
  have hrepeats (rest : List (Nat × Nat)) (hs : Settled d (h'.entriesOf 0) rest h' g') :
      ∀ entries ∈ [g'.entriesOf n], Repeats d (h'.entriesOf 0) entries :=
    List.forall_mem_singleton.2 (hs.repeats n hn)
  rcases Nat.eq_zero_or_pos n with rfl | hpos
  · exact (ih.mergeRoot hg (Nat.zero_le _) (by simp) hg').settles hrepeats
  · rcases ih.mergeFrom hg hpos hn (by simp) hg' with
      ⟨hunsettled, -⟩ | ⟨rest, he, hs, -⟩
    · exact .inl ⟨hunsettled, List.forall_mem_singleton.2 (hunsettled.entries_le n hpos hn)⟩
    · exact .inr ⟨rest, he, hs, hrepeats rest hs⟩

theorem takes (hg : Unsettled d front back h g) (hsource : source ≤ d)
    (hg' : Takes fuel source g more g') : Settles d e front back h h' g' [more] := by
  cases hg' with
  | mapping _ hmerge => exact ih.mapping hg hsource hmerge
  | sequence hnode hmerge =>
      have hitems := hg.items_le source hsource
      rw [itemsOf, hnode] at hitems
      rcases ih.mergeItems hg hitems hmerge with ⟨hunsettled, hlists⟩ | ⟨rest, he, hs, hlists⟩
      · refine .inl ⟨hunsettled, List.forall_mem_singleton.2 fun e he => ?_⟩
        obtain ⟨entries, hmem, he⟩ := List.mem_flatten.1 he
        exact hlists entries (List.mem_reverse.1 hmem) e he
      · refine .inr ⟨rest, he, hs, List.forall_mem_singleton.2 ?_⟩
        exact Repeats.flatten fun entries he => hlists entries (List.mem_reverse.1 he)

theorem mergeFrom_succ (hg : Unsettled d front back h g) (hn : 0 < n) (hnd : n ≤ d)
    (htaken : ∀ e ∈ taken, e.1 ≤ d ∧ e.2 ≤ d)
    (hg' : (Graph.mergeFrom (fuel + 1) n start taken).run g = .ok ((), g')) :
    Settles d e front back h h' g' [] := by
  have hentries := hg.entries_le n hn hnd
  have hretag : Unsettled d front back h (g.retagKeys (g.unmerged n start)) :=
    hg.retagKeys fun e he =>
      (hentries e (List.mem_of_mem_drop ((List.takeWhile_prefix _).subset he))).1
  rcases mergeFrom_eq_ok hg' with ⟨-, rfl⟩ | ⟨key, source, more, g₁, hsome, htakes, hrest⟩
  · exact .inl ⟨hretag.setEntries hn hnd (List.forall_mem_append.2 ⟨htaken, hentries⟩), nofun⟩
  · have hg₁ : Unsettled d front back h (g.withoutKey n start) :=
      hretag.setEntries hn hnd fun e he => hentries e (List.mem_of_mem_eraseIdx he)
    rcases ih.takes hg₁ (hentries _ (List.mem_of_getElem? hsome)).2 htakes with
      ⟨hg₁, hmore⟩ | ⟨rest, he, hg₁, hmore⟩
    · exact ih.mergeFrom hg₁ hn hnd
        (List.forall_mem_append.2 ⟨htaken, List.forall_mem_singleton.1 hmore⟩) hrest
    · refine .inr ⟨rest, he, ?_, nofun⟩
      exact (keepsSettled d _ rest h' fuel).mergeFrom hg₁ hnd
        ((repeats_of_le htaken).append (List.forall_mem_singleton.1 hmore)) hrest

theorem mergeItems_succ {items : List Nat} {lists : List (List (Nat × Nat))}
    (hg : Unsettled d front back h g) (hitems : ∀ i ∈ items, i ≤ d)
    (hg' : (Graph.mergeItems (fuel + 1) items).run g = .ok (lists, g')) :
    Settles d e front back h h' g' lists := by
  cases items with
  | nil =>
      obtain ⟨rfl, rfl⟩ := mergeItems_nil_eq_ok hg'
      exact .inl ⟨hg, nofun⟩
  | cons item items =>
      obtain ⟨hitem, hitems⟩ := List.forall_mem_cons.1 hitems
      obtain ⟨-, g₁, lists, hmerge, hrun, rfl⟩ := mergeItems_cons_eq_ok hg'
      rcases ih.mapping hg hitem hmerge with ⟨hg₁, hentries⟩ | ⟨rest, he, hg₁, hentries⟩
      · have hentries := List.forall_mem_singleton.1 hentries
        rcases ih.mergeItems hg₁ hitems hrun with ⟨hg', hlists⟩ | ⟨rest, he, hg', hlists⟩
        · exact .inl ⟨hg', List.forall_mem_cons.2 ⟨hentries, hlists⟩⟩
        · exact .inr ⟨rest, he, hg', List.forall_mem_cons.2 ⟨repeats_of_le hentries, hlists⟩⟩
      · obtain ⟨hg', hlists⟩ := (keepsSettled d _ rest h' fuel).mergeItems hg₁ hitems hrun
        exact .inr ⟨rest, he, hg',
          List.forall_mem_cons.2 ⟨List.forall_mem_singleton.1 hentries, hlists⟩⟩

/-- The first mapping, where it has a merge key in front still. -/
theorem mergeRoot_front (hg : Unsettled d front back h g) (htaken : ∀ e ∈ taken, e.1 ≤ d ∧ e.2 ≤ d)
    (hfront : ¬ ∀ e ∈ front.drop start, g.tagOf e.1 ≠ .merge)
    (hg' : (Graph.mergeFrom (fuel + 1) 0 start taken).run g = .ok ((), g')) :
    IsSettled d e h' g' := by
  have hne : ((front.drop start).takeWhile fun e => g.tagOf e.1 != .merge).length ≠
      (front.drop start).length := by
    intro heq
    have hall := List.takeWhile_eq_self_iff.1 ((List.takeWhile_prefix _).eq_of_length heq)
    exact hfront fun e he => by simpa using hall e he
  have hunmerged : g.unmerged 0 start =
      (front.drop start).takeWhile fun e => g.tagOf e.1 != .merge := by
    rw [unmerged, hg.root, List.drop_append, List.takeWhile_append, if_neg hne]
  have hlt : start + (g.unmerged 0 start).length < front.length := by
    have hle := (List.takeWhile_prefix (l := front.drop start)
      fun e => g.tagOf e.1 != .merge).length_le
    rw [← hunmerged] at hne hle
    rw [List.length_drop] at hne hle
    omega
  rcases mergeFrom_eq_ok hg' with ⟨hnone, -⟩ | ⟨key, source, more, g₁, hsome, htakes, hrest⟩
  · rw [hg.root, List.getElem?_append_left hlt, List.getElem?_eq_getElem hlt] at hnone
    cases hnone
  · rw [hg.root, List.getElem?_append_left hlt] at hsome
    have hmem := List.mem_of_getElem? hsome
    have hg₁ : Unsettled d (front.eraseIdx (start + (g.unmerged 0 start).length)) back h
        (g.withoutKey 0 start) := by
      rw [withoutKey, hg.root, List.eraseIdx_append_of_lt_length hlt]
      refine Unsettled.setRoot (hg.retagKeys fun e he => ?_) fun e he =>
        hg.front_le e (List.mem_of_mem_eraseIdx he)
      rw [hunmerged] at he
      exact (hg.front_le e (List.mem_of_mem_drop ((List.takeWhile_prefix _).subset he))).1
    rcases ih.takes hg₁ (hg.front_le _ hmem).2 htakes with ⟨hg₁, hmore⟩ | ⟨rest, he, hg₁, hmore⟩
    · refine ih.mergeRoot hg₁ ?_
        (List.forall_mem_append.2 ⟨htaken, List.forall_mem_singleton.1 hmore⟩) hrest
      rw [List.length_eraseIdx_of_lt hlt]
      omega
    · refine ⟨rest, he, ?_⟩
      exact (keepsSettled d _ rest h' fuel).mergeFrom hg₁ (Nat.zero_le d)
        ((repeats_of_le htaken).append (List.forall_mem_singleton.1 hmore)) hrest

end MergesSettle

theorem mergesSettle {e : Nat × Nat} {fuel' : Nat} (he : e ∈ back) (hstr : h.tagOf e.1 = .str)
    (hh' : (mergeFrom fuel' 0 0 []).run h = .ok ((), h')) (fuel : Nat) :
    MergesSettle d e back h h' fuel := by
  have hplain := ((mergesClean fuel').mergeFrom_zero hh').2
  induction fuel with
  | zero =>
      refine ⟨fun _ _ _ h => (nomatch h), fun _ _ _ _ h => (nomatch h),
        fun {front items lists g g'} hg _ hg' => ?_⟩
      cases items with
      | nil =>
          obtain ⟨rfl, rfl⟩ := mergeItems_nil_eq_ok hg'
          exact .inl ⟨hg, nofun⟩
      | cons item rest => cases hg'
  | succ fuel ih =>
      refine ⟨fun {front start taken g g'} hg hstart htaken hg' => ?_, ih.mergeFrom_succ,
        ih.mergeItems_succ⟩
      by_cases hfront : ∀ e ∈ front.drop start, g.tagOf e.1 ≠ .merge
      · have hrun : (Graph.mergeFrom fuel' 0 (start - front.length) []).run h = .ok ((), h') := by
          rwa [Nat.sub_eq_zero_of_le hstart]
        have hrun' : (Graph.mergeFrom (fuel + 1) 0 start (taken ++ shiftEntries d [])).run g =
            .ok ((), g') := by simpa using hg'
        exact isSettled_of_mergeFrom hg hfront htaken (by simp) he hstr hplain hrun hrun'
      · exact ih.mergeRoot_front hg htaken hfront hg'

/-- Merging into the first mapping settles it. -/
theorem isSettled_of_merge {e : Nat × Nat} (hg : Unsettled d front back h g) (he : e ∈ back)
    (hstr : h.tagOf e.1 = .str) (hh' : (merge 0).run h = .ok ((), h'))
    (hg' : (merge 0).run g = .ok ((), g')) : IsSettled d e h' g' :=
  (mergesSettle he hstr hh' _).mergeRoot hg (Nat.zero_le _) (by simp) hg'

end FrontLint.Yaml.Graph
