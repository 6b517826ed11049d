import FrontLint.Proofs.Yaml.Descent
import FrontLint.Yaml.Graph.Merge
import Mathlib.Algebra.BigOperators.Group.Finset.Basic
import Mathlib.Algebra.Order.BigOperators.Group.Finset

/-!
# Merging

A merge removes a merge key before it merges what the key refers to, and a mapping that has been
merged has none left. So there are at most as many removals as merge keys at the beginning, also
where mappings refer to themselves, and the bound of the merge is never used up.
-/

namespace FrontLint.Yaml

open Finset

/-- A fold that adds at least so much for each element of an array adds at least the sum. -/
theorem sum_range_le_foldl {α : Type} {xs : Array α} {f : Nat → Nat} {step : Nat → α → Nat}
    (h : ∀ i (hi : i < xs.size) count, count + f i ≤ step count xs[i]) :
    ∑ i ∈ range xs.size, f i ≤ xs.foldl step 0 := by
  refine Array.foldl_induction (fun i count => ∑ j ∈ range i, f j ≤ count) (by simp) ?_
  intro i count hcount
  rw [sum_range_succ]
  exact (Nat.add_le_add_right hcount _).trans (h i i.isLt count)

/-- What a merge makes of a tag. -/
def Tag.Retags (t t' : Tag) : Prop := t' = t ∨ t = .value ∧ t' = .str

theorem Tag.Retags.trans {t t' t'' : Tag} (h : t.Retags t') (h' : t'.Retags t'') :
    t.Retags t'' := by
  rcases h with rfl | ⟨rfl, rfl⟩
  · exact h'
  · rcases h' with rfl | ⟨h, -⟩
    · exact .inr ⟨rfl, rfl⟩
    · cases h

/-- What a merge makes of a node: the entries of a mapping may change, and the tag of a lone
equals sign. -/
inductive Node.Evolves : Node → Node → Prop where
  | scalar {t t' : Tag} (h : t.Retags t') (text : Text) : Evolves (.scalar t text) (.scalar t' text)
  | sequence {t t' : Tag} (h : t.Retags t') (items : List Nat) :
      Evolves (.sequence t items) (.sequence t' items)
  | mapping {t t' : Tag} (h : t.Retags t') (entries entries' : List (Nat × Nat)) :
      Evolves (.mapping t entries) (.mapping t' entries')

namespace Node

variable {n n' n'' : Node}

theorem evolves_refl (n : Node) : n.Evolves n := by
  cases n with
  | scalar => exact .scalar (.inl rfl) _
  | sequence => exact .sequence (.inl rfl) _
  | mapping => exact .mapping (.inl rfl) _ _

theorem Evolves.trans (h : n.Evolves n') (h' : n'.Evolves n'') : n.Evolves n'' := by
  cases h with
  | scalar h _ => cases h' with | scalar h' _ => exact .scalar (h.trans h') _
  | sequence h _ => cases h' with | sequence h' _ => exact .sequence (h.trans h') _
  | mapping h _ _ => cases h' with | mapping h' _ _ => exact .mapping (h.trans h') _ _

theorem Evolves.retags (h : n.Evolves n') : n.tag.Retags n'.tag := by
  cases h <;> assumption

theorem Evolves.kind_eq (h : n.Evolves n') : n'.kind = n.kind := by
  cases h <;> rfl

theorem Evolves.isBare (h : n.Evolves n') (hn : n.IsBare) : n'.IsBare := by
  cases h with
  | scalar h _ =>
      rcases h with rfl | ⟨-, rfl⟩
      · exact hn
      · exact .inl rfl
  | sequence h _ =>
      rcases h with rfl | ⟨rfl, -⟩
      · exact hn
      · cases hn
  | mapping h _ _ =>
      rcases h with rfl | ⟨rfl, -⟩
      · exact hn
      · cases hn

end Node

namespace Graph

variable {g g' g'' : Graph} {n m : Nat} {p : Nat → Bool}

theorem node_setIfInBounds (g : Graph) (n m : Nat) (node : Node) :
    Graph.node (g.setIfInBounds n node) m = if n = m ∧ n < g.size then node else g.node m := by
  rw [Graph.node, Array.getElem?_setIfInBounds]
  by_cases h : n = m
  · subst h
    by_cases hn : n < g.size
    · simp [hn]
    · simp [hn, Graph.node]
  · simp [h, Graph.node]

theorem lt_size_of_kind (h : (g.node n).kind ≠ .scalar) : n < g.size := by
  by_contra hn
  rw [Graph.node, Array.getElem?_eq_none (Nat.le_of_not_lt hn)] at h
  exact h rfl

/-- What a merge makes of a graph. -/
structure Evolves (g g' : Graph) : Prop where
  size_eq : g'.size = g.size
  node : ∀ n, (g.node n).Evolves (g'.node n)

theorem evolves_refl (g : Graph) : g.Evolves g := ⟨rfl, fun _ => Node.evolves_refl _⟩

theorem Evolves.trans (h : g.Evolves g') (h' : g'.Evolves g'') : g.Evolves g'' :=
  ⟨h'.size_eq.trans h.size_eq, fun n => (h.node n).trans (h'.node n)⟩

theorem evolves_setIfInBounds {node : Node} (h : (g.node n).Evolves node) :
    Evolves g (g.setIfInBounds n node) := by
  refine ⟨Array.size_setIfInBounds, fun m => ?_⟩
  rw [node_setIfInBounds]
  split
  · rename_i heq
    exact heq.1 ▸ h
  · exact Node.evolves_refl _

theorem evolves_retag (h : g.tagOf n = .value) : g.Evolves (g.retag n .str) := by
  have htag : (g.node n).tag.Retags .str := .inr ⟨h, rfl⟩
  rw [retag]
  split
  all_goals
    rename_i hnode
    rw [hnode] at htag
    refine evolves_setIfInBounds ?_
    rw [hnode]
  · exact .scalar htag _
  · exact .sequence htag _
  · exact .mapping htag _ _

theorem evolves_retagKeys (g : Graph) (entries : List (Nat × Nat)) :
    g.Evolves (g.retagKeys entries) := by
  refine List.foldlRecOn entries _ (motive := g.Evolves) (evolves_refl g) fun g' h e _ => ?_
  split
  · rename_i htag
    exact h.trans (evolves_retag htag)
  · exact h

theorem evolves_setEntries (h : (g.node n).kind = .mapping) (entries : List (Nat × Nat)) :
    g.Evolves (g.setEntries n entries) := by
  refine evolves_setIfInBounds ?_
  rw [tagOf]
  cases hnode : g.node n with
  | mapping => exact .mapping (.inl rfl) _ _
  | _ => simp [hnode, Node.kind] at h

theorem entriesOf_retag (g : Graph) (n m : Nat) (tag : Tag) :
    (g.retag n tag).entriesOf m = g.entriesOf m := by
  rw [retag]
  split
  all_goals
    rename_i hnode
    rw [entriesOf, entriesOf, node_setIfInBounds]
    by_cases h : n = m ∧ n < g.size
    · rw [if_pos h, ← h.1, hnode]
    · rw [if_neg h]

theorem entriesOf_retagKeys (g : Graph) (entries : List (Nat × Nat)) (m : Nat) :
    (g.retagKeys entries).entriesOf m = g.entriesOf m := by
  refine List.foldlRecOn entries _ (motive := fun g' => Graph.entriesOf g' m = g.entriesOf m) rfl ?_
  intro g' h e _
  split
  · exact (entriesOf_retag g' e.1 m .str).trans h
  · exact h

theorem entriesOf_setEntries (h : (g.node n).kind = .mapping) (entries : List (Nat × Nat))
    (m : Nat) :
    (g.setEntries n entries).entriesOf m = if n = m then entries else g.entriesOf m := by
  have hn : n < g.size := lt_size_of_kind (by simp [h])
  rw [setEntries, entriesOf, node_setIfInBounds]
  by_cases hnm : n = m
  · simp [hnm, hnm ▸ hn]
  · simp [hnm, entriesOf]

/-! ## Merge keys -/

/-- The nodes that are merge keys. -/
def Marks (p : Nat → Bool) (g : Graph) : Prop := ∀ n, p n = true ↔ g.tagOf n = .merge

theorem Marks.of_evolves (hp : Marks p g) (h : g.Evolves g') : Marks p g' := by
  intro n
  rw [hp n, tagOf, tagOf]
  rcases (h.node n).retags with heq | ⟨hvalue, hstr⟩
  · rw [heq]
  · simp [hvalue, hstr]

/-- Entries without a merge key. -/
def IsFree (p : Nat → Bool) (entries : List (Nat × Nat)) : Prop := ∀ e ∈ entries, p e.1 = false

theorem isFree_nil : IsFree p [] := fun _ he => nomatch he

theorem isFree_append {entries entries' : List (Nat × Nat)} (h : IsFree p entries)
    (h' : IsFree p entries') : IsFree p (entries ++ entries') := by
  intro e he
  exact (List.mem_append.1 he).elim (h e) (h' e)

/-- The number of merge keys in all mappings. -/
def mergeCount (p : Nat → Bool) (g : Graph) : Nat :=
  ∑ n ∈ range g.size, (g.entriesOf n).countP fun e => p e.1

/-- A finished merge leaves the entries of a mapping as they are or without merge keys. -/
structure Merges (p : Nat → Bool) (g g' : Graph) : Prop where
  evolves : g.Evolves g'
  entriesOf : ∀ n, g'.entriesOf n = g.entriesOf n ∨ IsFree p (g'.entriesOf n)

theorem merges_refl (p : Nat → Bool) (g : Graph) : Merges p g g :=
  ⟨evolves_refl g, fun _ => .inl rfl⟩

theorem Merges.trans (h : Merges p g g') (h' : Merges p g' g'') : Merges p g g'' := by
  refine ⟨h.evolves.trans h'.evolves, fun n => ?_⟩
  rcases h'.entriesOf n with heq | hfree
  · rw [heq]
    exact h.entriesOf n
  · exact .inr hfree

theorem Merges.mergeCount_le (h : Merges p g g') : mergeCount p g' ≤ mergeCount p g := by
  rw [mergeCount, mergeCount, h.evolves.size_eq]
  refine sum_le_sum fun n _ => ?_
  rcases h.entriesOf n with heq | hfree
  · rw [heq]
  · rw [List.countP_eq_zero.2 fun e he => by simp [hfree e he]]
    exact Nat.zero_le _

theorem mergeCount_setEntries_lt (h : (g.node n).kind = .mapping) {entries : List (Nat × Nat)}
    (hlt : entries.countP (fun e => p e.1) < (g.entriesOf n).countP fun e => p e.1) :
    mergeCount p (g.setEntries n entries) < mergeCount p g := by
  have hn : n < g.size := lt_size_of_kind (by simp [h])
  rw [mergeCount, mergeCount, (evolves_setEntries h entries).size_eq]
  refine sum_lt_sum (fun m _ => ?_) ⟨n, mem_range.2 hn, ?_⟩
  · rw [entriesOf_setEntries h]
    split
    · rename_i hnm
      exact hnm ▸ hlt.le
    · exact le_rfl
  · rw [entriesOf_setEntries h, if_pos rfl]
    exact hlt

theorem mergeCount_le_entryCount (p : Nat → Bool) (g : Graph) : mergeCount p g ≤ g.entryCount := by
  refine sum_range_le_foldl fun n hn count => ?_
  rw [entriesOf, Graph.node, Array.getElem?_eq_getElem hn, Option.getD_some]
  split
  · exact Nat.add_le_add_left List.countP_le_length _
  · exact le_rfl

/-- The items of each sequence are at most so many. -/
def HasItems (bound : Nat) (g : Graph) : Prop :=
  ∀ n tag items, g.node n = .sequence tag items → items.length ≤ bound

theorem HasItems.of_evolves {bound : Nat} (hitems : HasItems bound g) (h : g.Evolves g') :
    HasItems bound g' := by
  intro n tag items hnode
  have hn := h.node n
  rw [hnode] at hn
  cases hold : g.node n with
  | sequence tag' items' =>
      rw [hold] at hn
      cases hn
      exact hitems n tag' items hold
  | _ => rw [hold] at hn; cases hn

theorem hasItems_itemCount (g : Graph) : HasItems g.itemCount g := by
  intro n tag items hnode
  have hn : n < g.size := lt_size_of_kind (by simp [hnode, Node.kind])
  refine Array.foldl_induction (fun i count => n < i → items.length ≤ count) (by simp) ?_ hn
  intro i count hcount hlt
  rcases Nat.lt_succ_iff_lt_or_eq.1 hlt with hlt | heq
  · have := hcount hlt
    split <;> omega
  · rw [Graph.node, Array.getElem?_eq_getElem hn, Option.getD_some] at hnode
    simp only [Fin.getElem_fin, ← heq, hnode]
    omega

theorem kind_retagKeys (g : Graph) (entries : List (Nat × Nat)) (n : Nat) :
    ((g.retagKeys entries).node n).kind = (g.node n).kind :=
  ((evolves_retagKeys g entries).node n).kind_eq

theorem merges_retagKeys (p : Nat → Bool) (g : Graph) (entries : List (Nat × Nat)) :
    Merges p g (g.retagKeys entries) :=
  ⟨evolves_retagKeys g entries, fun n => .inl (entriesOf_retagKeys g entries n)⟩

/-! ## The bound -/

/-- What is left of a mapping's entries after a merge key has been removed. -/
theorem countP_eraseIdx_lt {entries : List (Nat × Nat)} {position : Nat} {e : Nat × Nat}
    (h : entries[position]? = some e) (hp : p e.1 = true) :
    (entries.eraseIdx position).countP (fun e => p e.1) < entries.countP fun e => p e.1 := by
  obtain ⟨hlt, rfl⟩ := List.getElem?_eq_some_iff.1 h
  rw [List.eraseIdx_eq_take_drop_succ]
  nth_rewrite 3 [← List.take_append_drop position entries]
  rw [List.drop_eq_getElem_cons hlt, List.countP_append, List.countP_append,
    List.countP_cons_of_pos (p := fun e : Nat × Nat => p e.1) hp]
  omega

/-- What the two functions of a merge end in if `fuel` is enough for the merge keys. -/
structure Bounded (p : Nat → Bool) (bound fuel : Nat) : Prop where
  mergeFrom : ∀ {g : Graph} {n start : Nat} {taken : List (Nat × Nat)}, Marks p g →
    HasItems bound g → (g.node n).kind = .mapping → IsFree p taken →
    IsFree p ((g.entriesOf n).take start) → mergeCount p g * (bound + 1) + 1 ≤ fuel →
    Runs (mergeFrom fuel n start taken) g
      (fun _ g' => Merges p g g' ∧ IsFree p (g'.entriesOf n)) fun fault => fault.isOfBlock = true
  mergeItems : ∀ {g : Graph} {items : List Nat}, Marks p g → HasItems bound g →
    mergeCount p g * (bound + 1) + 1 + items.length ≤ fuel →
    Runs (mergeItems fuel items) g
      (fun taken g' => Merges p g g' ∧ ∀ entries ∈ taken, IsFree p entries)
      fun fault => fault.isOfBlock = true

variable {bound fuel : Nat}

theorem Bounded.mergeItems_succ (h : Bounded p bound fuel) {items : List Nat} (hp : Marks p g)
    (hitems : HasItems bound g)
    (hfuel : mergeCount p g * (bound + 1) + 1 + items.length ≤ fuel + 1) :
    Runs (Graph.mergeItems (fuel + 1) items) g
      (fun taken g' => Merges p g g' ∧ ∀ entries ∈ taken, IsFree p entries)
      fun fault => fault.isOfBlock = true := by
  cases items with
  | nil => exact runs_pure ⟨merges_refl p g, by simp⟩
  | cons item rest =>
      rw [List.length_cons] at hfuel
      rw [Graph.mergeItems]
      refine runs_get ?_
      split
      · rename_i hnode
        have hkind : (g.node item).kind = .mapping := by rw [hnode, Node.kind]
        refine (h.mergeFrom hp hitems hkind isFree_nil isFree_nil (by omega)).bind
          fun _ g' hg' => runs_get ?_
        have hcount := Nat.mul_le_mul_right (bound + 1) hg'.1.mergeCount_le
        refine (h.mergeItems (hp.of_evolves hg'.1.evolves) (hitems.of_evolves hg'.1.evolves)
          (by omega)).bind fun taken g'' hg'' => runs_pure ⟨hg'.1.trans hg''.1, ?_⟩
        rintro entries (_ | ⟨_, hmem⟩)
        · exact hg'.2
        · exact hg''.2 entries hmem
      · exact runs_throw rfl

/-- In front of the first merge key from a position on there is none. -/
theorem isFree_take {entries : List (Nat × Nat)} {q : Nat × Nat → Bool} {start : Nat}
    (hq : ∀ e, q e = !p e.1) (hstart : IsFree p (entries.take start)) :
    IsFree p (entries.take (start + ((entries.drop start).takeWhile q).length)) := by
  rw [List.take_add, ← List.prefix_iff_eq_take.1 (List.takeWhile_prefix q)]
  refine isFree_append hstart fun e he => ?_
  simpa [hq] using List.all_eq_true.1 List.all_takeWhile e he

theorem isMergeKey_of_getElem? (entries : List (Nat × Nat)) (start : Nat)
    {q : Nat × Nat → Bool} {e : Nat × Nat} (hq : ∀ e, q e = !p e.1)
    (he : entries[start + ((entries.drop start).takeWhile q).length]? = some e) :
    p e.1 = true := by
  rw [← List.getElem?_drop] at he
  nth_rewrite 1 [← List.takeWhile_append_dropWhile (p := q) (l := entries.drop start)] at he
  rw [List.getElem?_append_right (Nat.le_refl _), Nat.sub_self, ← List.head?_eq_getElem?] at he
  have hnot := List.head?_dropWhile_not q (entries.drop start)
  rw [he] at hnot
  simpa [hq] using hnot

/-- A merge key has been removed from a mapping. -/
structure Removes (p : Nat → Bool) (n position : Nat) (g g₁ : Graph) : Prop where
  evolves : g.Evolves g₁
  entriesOf : ∀ m, g₁.entriesOf m =
    if n = m then (g.entriesOf n).eraseIdx position else g.entriesOf m
  mergeCount_lt : mergeCount p g₁ < mergeCount p g

theorem removes_setEntries {position : Nat} {e : Nat × Nat} (hkind : (g.node n).kind = .mapping)
    (before : List (Nat × Nat)) (he : (g.entriesOf n)[position]? = some e)
    (hkey : p e.1 = true) :
    Removes p n position g
      ((g.retagKeys before).setEntries n ((g.entriesOf n).eraseIdx position)) := by
  have hretag := merges_retagKeys p g before
  have hkind' := (kind_retagKeys g before n).trans hkind
  refine ⟨hretag.evolves.trans (evolves_setEntries hkind' _), fun m => ?_, ?_⟩
  · rw [entriesOf_setEntries hkind', entriesOf_retagKeys]
  · refine lt_of_lt_of_le (mergeCount_setEntries_lt hkind' ?_) hretag.mergeCount_le
    rw [entriesOf_retagKeys]
    exact countP_eraseIdx_lt he hkey

/-- A mapping that gets entries without merge keys has been merged. -/
theorem merges_setEntries {entries : List (Nat × Nat)} (hkind : (g.node n).kind = .mapping)
    (before : List (Nat × Nat)) (hfree : IsFree p entries) :
    Merges p g ((g.retagKeys before).setEntries n entries) ∧
      IsFree p (((g.retagKeys before).setEntries n entries).entriesOf n) := by
  have hkind' := (kind_retagKeys g before n).trans hkind
  refine ⟨⟨(evolves_retagKeys g before).trans (evolves_setEntries hkind' _), fun m => ?_⟩, ?_⟩
  · rw [entriesOf_setEntries hkind']
    split
    · exact .inr hfree
    · exact .inl (entriesOf_retagKeys g before m)
  · rw [entriesOf_setEntries hkind', if_pos rfl]
    exact hfree

/-- The rest of a mapping, after what a removed merge key refers to has been merged. -/
theorem Bounded.mergeFrom_rest (h : Bounded p bound fuel) {position : Nat}
    {taken : List (Nat × Nat)} {g₁ g₂ : Graph} (hp : Marks p g) (hitems : HasItems bound g)
    (hkind : (g.node n).kind = .mapping) (hfront : IsFree p ((g.entriesOf n).take position))
    (hg₁ : Removes p n position g g₁) (hg₂ : Merges p g₁ g₂) (htaken : IsFree p taken)
    (hfuel : mergeCount p g₁ * (bound + 1) + 1 ≤ fuel) :
    Runs (Graph.mergeFrom fuel n position taken) g₂
      (fun _ g' => Merges p g g' ∧ IsFree p (g'.entriesOf n))
      fun fault => fault.isOfBlock = true := by
  have hg := hg₁.evolves.trans hg₂.evolves
  have hcount := Nat.mul_le_mul_right (bound + 1) hg₂.mergeCount_le
  have hfront₂ : IsFree p ((g₂.entriesOf n).take position) := by
    rcases hg₂.entriesOf n with heq | hfree
    · rw [heq, hg₁.entriesOf, if_pos rfl, List.take_eraseIdx_eq_take_of_le _ _ _ (Nat.le_refl _)]
      exact hfront
    · exact fun e he => hfree e (List.mem_of_mem_take he)
  refine (h.mergeFrom (hp.of_evolves hg) (hitems.of_evolves hg) ((hg.node n).kind_eq.trans hkind)
    htaken hfront₂ (by omega)).mono
    (fun _ g' hg' => ⟨⟨hg.trans hg'.1.evolves, fun m => ?_⟩, hg'.2⟩) fun _ h => h
  by_cases hnm : n = m
  · exact .inr (hnm ▸ hg'.2)
  · refine ((hg₂.trans hg'.1).entriesOf m).imp_left fun heq => ?_
    rw [heq, hg₁.entriesOf, if_neg hnm]

theorem Bounded.mergeFrom_succ (h : Bounded p bound fuel) {start : Nat}
    {taken : List (Nat × Nat)} (hp : Marks p g) (hitems : HasItems bound g)
    (hkind : (g.node n).kind = .mapping) (htaken : IsFree p taken)
    (hstart : IsFree p ((g.entriesOf n).take start))
    (hfuel : mergeCount p g * (bound + 1) + 1 ≤ fuel + 1) :
    Runs (Graph.mergeFrom (fuel + 1) n start taken) g
      (fun _ g' => Merges p g g' ∧ IsFree p (g'.entriesOf n))
      fun fault => fault.isOfBlock = true := by
  rw [Graph.mergeFrom]
  refine runs_get (runs_set ?_)
  have hq (e : Nat × Nat) : (g.tagOf e.1 != .merge) = !p e.1 := by
    have := hp e.1
    cases hpe : p e.1 <;> simp_all
  have hfront := isFree_take hq hstart
  have hkey {e : Nat × Nat} := isMergeKey_of_getElem? (g.entriesOf n) start (e := e) hq
  generalize ((g.entriesOf n).drop start).takeWhile _ = before at hfront hkey ⊢
  dsimp only
  split
  · rename_i hnone
    rw [List.take_of_length_le (List.getElem?_eq_none_iff.1 hnone)] at hfront
    exact runs_modify (merges_setEntries hkind before (isFree_append htaken hfront))
  · rename_i k source hsome
    have hg₁ := removes_setEntries hkind before hsome (hkey hsome)
    refine runs_modify_bind (runs_get ?_)
    generalize (g.retagKeys before).setEntries n _ = g₁ at hg₁ ⊢
    have hp₁ := hp.of_evolves hg₁.evolves
    have hitems₁ := hitems.of_evolves hg₁.evolves
    -- The removed merge key pays for the way along the items of one sequence.
    have hpaid : mergeCount p g₁ * (bound + 1) + 1 + bound ≤ fuel := by
      have := Nat.mul_le_mul_right (bound + 1) (Nat.succ_le_of_lt hg₁.mergeCount_lt)
      rw [Nat.succ_mul] at this
      omega
    split
    · rename_i hnode
      refine (h.mergeFrom hp₁ hitems₁ (by rw [hnode, Node.kind]) isFree_nil
        isFree_nil (by omega)).bind fun _ g₂ hg₂ => runs_get ?_
      exact h.mergeFrom_rest hp hitems hkind hfront hg₁ hg₂.1 (isFree_append htaken hg₂.2)
        (by omega)
    · rename_i items hnode
      have hlength := hitems₁ source _ items hnode
      refine (h.mergeItems hp₁ hitems₁ (by omega)).bind fun lists g₂ hg₂ => ?_
      refine h.mergeFrom_rest hp hitems hkind hfront hg₁ hg₂.1 (isFree_append htaken ?_) (by omega)
      intro e he
      obtain ⟨entries, hmem, he⟩ := List.mem_flatten.1 he
      exact hg₂.2 entries (List.mem_reverse.1 hmem) e he
    · exact runs_throw_bind rfl

theorem bounded (p : Nat → Bool) (bound fuel : Nat) : Bounded p bound fuel := by
  induction fuel with
  | zero => exact ⟨fun _ _ _ _ _ h => absurd h (by omega), fun _ _ h => absurd h (by omega)⟩
  | succ fuel ih => exact ⟨ih.mergeFrom_succ, ih.mergeItems_succ⟩

/-- Merging into a mapping ends, and finds no fault but of the block. -/
theorem runs_merge (h : (g.node n).kind = .mapping) :
    Runs (merge n) g (fun _ g' => g.Evolves g') fun fault => fault.isOfBlock = true := by
  have hp : Marks (fun k => decide (g.tagOf k = .merge)) g := fun k => decide_eq_true_iff
  have hcount := Nat.mul_le_mul_right (g.itemCount + 1) (mergeCount_le_entryCount
    (fun k => decide (g.tagOf k = .merge)) g)
  rw [merge]
  exact runs_get (((bounded _ g.itemCount _).mergeFrom hp (hasItems_itemCount g) h isFree_nil
    isFree_nil (Nat.add_le_add_right hcount 1)).mono (fun _ _ hg => hg.1.evolves) fun _ h => h)

end Graph

end FrontLint.Yaml
