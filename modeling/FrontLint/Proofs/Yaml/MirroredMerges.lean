import FrontLint.Proofs.Yaml.Extending
import FrontLint.Proofs.Yaml.MergeSteps

namespace FrontLint.Yaml.Graph

variable {g g' : Graph} {d n start fuel source : Nat} {taken more : List (Nat × Nat)}

/-! ## Merging behind other nodes -/

variable {h h' h₀ g₀ : Graph} {entries : List (Nat × Nat)}

namespace Mirrors

theorem tagOf (hg : h.Mirrors 1 d g) (hn : 1 ≤ n) : g.tagOf (n + d) = h.tagOf n := by
  rw [Graph.tagOf, hg.node n hn, Graph.tagOf]
  cases h.node n <;> rfl

theorem kind (hg : h.Mirrors 1 d g) (hn : 1 ≤ n) :
    (g.node (n + d)).kind = (h.node n).kind := by
  rw [hg.node n hn]
  cases h.node n <;> rfl

theorem entriesOf (hg : h.Mirrors 1 d g) (hn : 1 ≤ n) :
    g.entriesOf (n + d) = shiftEntries d (h.entriesOf n) := by
  rw [Graph.entriesOf, hg.node n hn, Graph.entriesOf]
  cases h.node n <;> rfl

theorem entriesOf_pos (hg : h.Mirrors 1 d g) (hn : 1 ≤ n) :
    ∀ e ∈ h.entriesOf n, 1 ≤ e.1 ∧ 1 ≤ e.2 := by
  have hrefers := hg.refersFrom n hn
  rw [Graph.entriesOf]
  cases hnode : h.node n with
  | mapping tag entries =>
      rw [hnode] at hrefers
      exact hrefers
  | _ => exact List.forall_mem_nil _

theorem takeWhile_shiftEntries (hg : h.Mirrors 1 d g)
    (hentries : ∀ e ∈ entries, 1 ≤ e.1 ∧ 1 ≤ e.2) :
    (shiftEntries d entries).takeWhile (fun e => g.tagOf e.1 != .merge) =
      shiftEntries d (entries.takeWhile fun e => h.tagOf e.1 != .merge) := by
  induction entries with
  | nil => rfl
  | cons e rest ih =>
      obtain ⟨he, hrest⟩ := List.forall_mem_cons.1 hentries
      rw [shiftEntries_cons, List.takeWhile_cons, List.takeWhile_cons, hg.tagOf he.1]
      split
      · exact congrArg (List.cons _) (ih hrest)
      · rfl

end Mirrors

/-- Graphs whose nodes behind the first one, and behind other nodes, are the same. The others are
those of two further graphs. -/
structure Beside (d : Nat) (h₀ g₀ h g : Graph) : Prop where
  mirrors : h.Mirrors 1 d g
  node_zero : h.node 0 = h₀.node 0
  node_le : ∀ n ≤ d, g.node n = g₀.node n

namespace Beside

theorem setIfInBounds (hg : Beside d h₀ g₀ h g) (hn : 1 ≤ n) {node : Node}
    (hnode : node.RefersFrom 1) :
    Beside d h₀ g₀ (h.setIfInBounds n node) (g.setIfInBounds (n + d) (node.shift d)) where
  mirrors := hg.mirrors.setIfInBounds hnode n
  node_zero := by rw [node_setIfInBounds, if_neg (by omega), hg.node_zero]
  node_le m hm := by rw [node_setIfInBounds, if_neg (by omega), hg.node_le m hm]

theorem retag (hg : Beside d h₀ g₀ h g) (hn : 1 ≤ n) (tag : Tag) :
    Beside d h₀ g₀ (h.retag n tag) (g.retag (n + d) tag) := by
  have hshift (node : Node) : retagged tag (node.shift d) = (retagged tag node).shift d := by
    cases node <;> rfl
  have hrefers (node : Node) (hnode : node.RefersFrom 1) : (retagged tag node).RefersFrom 1 := by
    cases node <;> exact hnode
  rw [retag_eq, retag_eq, hg.mirrors.node n hn, hshift]
  exact hg.setIfInBounds hn (hrefers _ (hg.mirrors.refersFrom n hn))

theorem retagKeys (hg : Beside d h₀ g₀ h g) (hentries : ∀ e ∈ entries, 1 ≤ e.1 ∧ 1 ≤ e.2) :
    Beside d h₀ g₀ (h.retagKeys entries) (g.retagKeys (shiftEntries d entries)) := by
  induction entries generalizing h g with
  | nil => exact hg
  | cons e rest ih =>
      obtain ⟨he, hrest⟩ := List.forall_mem_cons.1 hentries
      rw [shiftEntries_cons, Graph.retagKeys, Graph.retagKeys, List.foldl_cons, List.foldl_cons,
        hg.mirrors.tagOf he.1]
      split
      · exact ih (hg.retag he.1 .str) hrest
      · exact ih hg hrest

theorem setEntries (hg : Beside d h₀ g₀ h g) (hn : 1 ≤ n)
    (hentries : ∀ e ∈ entries, 1 ≤ e.1 ∧ 1 ≤ e.2) :
    Beside d h₀ g₀ (h.setEntries n entries) (g.setEntries (n + d) (shiftEntries d entries)) := by
  rw [Graph.setEntries, Graph.setEntries, hg.mirrors.tagOf hn]
  exact hg.setIfInBounds hn (show Node.RefersFrom 1 (.mapping _ entries) from hentries)

theorem unmerged (hg : Beside d h₀ g₀ h g) (hn : 1 ≤ n) (start : Nat) :
    g.unmerged (n + d) start = shiftEntries d (h.unmerged n start) := by
  rw [Graph.unmerged, Graph.unmerged, hg.mirrors.entriesOf hn, drop_shiftEntries]
  exact hg.mirrors.takeWhile_shiftEntries fun e he =>
    hg.mirrors.entriesOf_pos hn e (List.mem_of_mem_drop he)

theorem unmerged_pos (hg : Beside d h₀ g₀ h g) (hn : 1 ≤ n) (start : Nat) :
    ∀ e ∈ h.unmerged n start, 1 ≤ e.1 ∧ 1 ≤ e.2 := fun e he =>
  hg.mirrors.entriesOf_pos hn e (List.mem_of_mem_drop ((List.takeWhile_prefix _).subset he))

theorem withoutKey (hg : Beside d h₀ g₀ h g) (hn : 1 ≤ n) (start : Nat) :
    Beside d h₀ g₀ (h.withoutKey n start) (g.withoutKey (n + d) start) := by
  rw [Graph.withoutKey, Graph.withoutKey, hg.unmerged hn, hg.mirrors.entriesOf hn,
    length_shiftEntries, eraseIdx_shiftEntries]
  exact (hg.retagKeys (hg.unmerged_pos hn start)).setEntries hn fun e he =>
    hg.mirrors.entriesOf_pos hn e (List.mem_of_mem_eraseIdx he)

end Beside

/-- What merges within a bound do behind other nodes, at any bound. -/
structure MergesAlike (d fuel : Nat) : Prop where
  mergeFrom : ∀ {fuel' n start taken h₀ g₀ h g h' g'}, Beside d h₀ g₀ h g → 1 ≤ n →
    (∀ e ∈ taken, 1 ≤ e.1 ∧ 1 ≤ e.2) → (mergeFrom fuel n start taken).run h = .ok ((), h') →
    (mergeFrom fuel' (n + d) start (shiftEntries d taken)).run g = .ok ((), g') →
    Beside d h₀ g₀ h' g'
  mergeItems : ∀ {fuel' items h₀ g₀ h g lists lists' h' g'}, Beside d h₀ g₀ h g →
    (∀ i ∈ items, 1 ≤ i) → (mergeItems fuel items).run h = .ok (lists, h') →
    (mergeItems fuel' (items.map (· + d))).run g = .ok (lists', g') →
    Beside d h₀ g₀ h' g' ∧ (∀ entries ∈ lists, ∀ e ∈ entries, 1 ≤ e.1 ∧ 1 ≤ e.2) ∧
      lists' = lists.map (shiftEntries d)

theorem MergesAlike.takes (ih : MergesAlike d fuel) {fuel' : Nat} {more' : List (Nat × Nat)}
    (hg : Beside d h₀ g₀ h g) (hsource : 1 ≤ source) (hh' : Takes fuel source h more h')
    (hg' : Takes fuel' (source + d) g more' g') :
    Beside d h₀ g₀ h' g' ∧ (∀ e ∈ more, 1 ≤ e.1 ∧ 1 ≤ e.2) ∧ more' = shiftEntries d more := by
  cases hh' with
  | mapping hkind hmerge =>
      cases hg' with
      | mapping hkind' hmerge' =>
          have hg' := ih.mergeFrom hg hsource (by simp) hmerge hmerge'
          exact ⟨hg', hg'.mirrors.entriesOf_pos hsource, hg'.mirrors.entriesOf hsource⟩
      | sequence hnode' _ =>
          rw [← hg.mirrors.kind hsource, hnode'] at hkind
          cases hkind
  | sequence hnode hmerge =>
      cases hg' with
      | mapping hkind' _ =>
          rw [hg.mirrors.kind hsource, hnode] at hkind'
          cases hkind'
      | sequence hnode' hmerge' =>
          have hitems := hg.mirrors.refersFrom source hsource
          have hshift := hg.mirrors.node source hsource
          rw [hnode] at hitems hshift
          rw [hnode'] at hshift
          cases hshift
          obtain ⟨hg', hlists, rfl⟩ := ih.mergeItems hg hitems hmerge hmerge'
          refine ⟨hg', fun e he => ?_, ?_⟩
          · obtain ⟨entries, hmem, he⟩ := List.mem_flatten.1 he
            exact hlists entries (List.mem_reverse.1 hmem) e he
          · rw [← List.map_reverse]
            exact (List.map_flatten ..).symm

theorem MergesAlike.mergeFrom_succ (ih : MergesAlike d fuel) {fuel' : Nat} (hg : Beside d h₀ g₀ h g)
    (hn : 1 ≤ n) (htaken : ∀ e ∈ taken, 1 ≤ e.1 ∧ 1 ≤ e.2)
    (hh' : (Graph.mergeFrom (fuel + 1) n start taken).run h = .ok ((), h'))
    (hg' : (Graph.mergeFrom (fuel' + 1) (n + d) start (shiftEntries d taken)).run g =
      .ok ((), g')) : Beside d h₀ g₀ h' g' := by
  have hentries := hg.mirrors.entriesOf hn
  have hunmerged := hg.unmerged hn start
  have hlength : (g.unmerged (n + d) start).length = (h.unmerged n start).length := by
    rw [hunmerged, length_shiftEntries]
  have hget : (g.entriesOf (n + d))[start + (g.unmerged (n + d) start).length]? =
      (h.entriesOf n)[start + (h.unmerged n start).length]?.map (Prod.map (· + d) (· + d)) := by
    rw [hlength, hentries, getElem?_shiftEntries]
  have hpos := hg.mirrors.entriesOf_pos hn
  rcases mergeFrom_eq_ok hh' with ⟨hnone, rfl⟩ | ⟨key, source, more, h₁, hsome, htakes, hh'⟩ <;>
    rcases mergeFrom_eq_ok hg' with ⟨hnone', rfl⟩ | ⟨key', source', more', g₁, hsome', htakes', hg'⟩
  · rw [hunmerged, hentries, ← shiftEntries_append]
    exact (hg.retagKeys (hg.unmerged_pos hn start)).setEntries hn
      (List.forall_mem_append.2 ⟨htaken, hpos⟩)
  · rw [hget, hnone] at hsome'
    cases hsome'
  · rw [hget, hsome] at hnone'
    cases hnone'
  · rw [hget, hsome] at hsome'
    cases hsome'
    obtain ⟨hg₁, hmore, rfl⟩ := ih.takes (hg.withoutKey hn start)
      (hpos _ (List.mem_of_getElem? hsome)).2 htakes htakes'
    rw [hlength, ← shiftEntries_append] at hg'
    exact ih.mergeFrom hg₁ hn (List.forall_mem_append.2 ⟨htaken, hmore⟩) hh' hg'

theorem MergesAlike.mergeItems_succ (ih : MergesAlike d fuel) {fuel' : Nat} {items : List Nat}
    {lists lists' : List (List (Nat × Nat))} (hg : Beside d h₀ g₀ h g) (hitems : ∀ i ∈ items, 1 ≤ i)
    (hh' : (Graph.mergeItems (fuel + 1) items).run h = .ok (lists, h'))
    (hg' : (Graph.mergeItems fuel' (items.map (· + d))).run g = .ok (lists', g')) :
    Beside d h₀ g₀ h' g' ∧ (∀ entries ∈ lists, ∀ e ∈ entries, 1 ≤ e.1 ∧ 1 ≤ e.2) ∧
      lists' = lists.map (shiftEntries d) := by
  cases items with
  | nil =>
      obtain ⟨rfl, rfl⟩ := mergeItems_nil_eq_ok hh'
      obtain ⟨rfl, rfl⟩ := mergeItems_nil_eq_ok hg'
      exact ⟨hg, nofun, rfl⟩
  | cons item rest =>
      cases fuel' with
      | zero => cases hg'
      | succ fuel' =>
          obtain ⟨hitem, hrest⟩ := List.forall_mem_cons.1 hitems
          obtain ⟨-, h₁, lists, hmerge, hrun, rfl⟩ := mergeItems_cons_eq_ok hh'
          obtain ⟨-, g₁, lists', hmerge', hrun', rfl⟩ := mergeItems_cons_eq_ok hg'
          have hg₁ := ih.mergeFrom hg hitem (by simp) hmerge hmerge'
          obtain ⟨hg₂, hlists, rfl⟩ := ih.mergeItems hg₁ hrest hrun hrun'
          refine ⟨hg₂, List.forall_mem_cons.2 ⟨hg₁.mirrors.entriesOf_pos hitem, hlists⟩, ?_⟩
          rw [hg₁.mirrors.entriesOf hitem]
          rfl

theorem mergesAlike (d fuel : Nat) : MergesAlike d fuel := by
  induction fuel with
  | zero =>
      refine ⟨fun _ _ _ hh' _ => (nomatch hh'),
        fun {fuel' items _ _ _ _ _ _ _ _} hg hitems hh' hg' => ?_⟩
      cases items with
      | nil =>
          obtain ⟨rfl, rfl⟩ := mergeItems_nil_eq_ok hh'
          obtain ⟨rfl, rfl⟩ := mergeItems_nil_eq_ok hg'
          exact ⟨hg, nofun, rfl⟩
      | cons item rest => cases hh'
  | succ fuel ih =>
      refine ⟨fun {fuel' _ _ _ _ _ _ _ _ _} hg hn htaken hh' hg' => ?_, ih.mergeItems_succ⟩
      cases fuel' with
      | zero => cases hg'
      | succ fuel' => exact ih.mergeFrom_succ hg hn htaken hh' hg'

end FrontLint.Yaml.Graph
