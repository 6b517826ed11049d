import FrontLint.Proofs.Yaml.Abreast
import Mathlib.Logic.Relation
import Mathlib.Order.Filter.AtTopBot.Basic

/-!
# Reading without what is kept

A value is kept only if it refers to no collection around its node. So it is the same inside of
all collections that the node belongs to, and reading does not depend on what is kept.
-/

namespace FrontLint.Yaml

open Filter

namespace Construction

/-- The entry of a mapping with the values of its nodes. -/
def keyed (unlike : Nat → Bool) (value : Nat → Value) (e : Nat × Nat) : KeyedEntry :=
  (value e.1, unlike e.1, value e.2)

end Construction

theorem forall_parts_iff {P : Nat → Prop} {entries : List (Nat × Nat)} :
    (∀ k ∈ entries.flatMap fun e => [e.1, e.2], P k) ↔ ∀ e ∈ entries, P e.1 ∧ P e.2 := by
  rw [List.forall_mem_flatMap]
  simp

theorem all_parts (p : Nat → Bool) (entries : List (Nat × Nat)) :
    (entries.flatMap fun e => [e.1, e.2]).all p = entries.all fun e => p e.1 && p e.2 := by
  simp [List.all_flatMap]

namespace Made

/-- The nodes that belong to a collection. -/
def parts : Made → List Nat
  | .scalar _ _ | .unfilled => []
  | .list items => items
  | .pairs entries | .map entries => entries.flatMap fun e => [e.1, e.2]
  | .set elements => elements

/-- The path to the parts of a node. -/
def inside (m : Made) (n : Nat) (path : List (Option Nat)) : List (Option Nat) :=
  match m with
  | .pairs _ => none :: some n :: path
  | _ => some n :: path

/-- The value of a node with the values of its parts. -/
def value (unlike : Nat → Bool) (value : Nat → Value) : Made → Value
  | .scalar v _ => v
  | .unfilled => .null
  | .list items => .list (items.map value)
  | .pairs entries => .list (entries.map fun e => .pair (value e.1) (value e.2))
  | .map entries => .map ((Construction.unique (entries.map (Construction.keyed unlike value))).map
      fun e => (e.1, e.2.2))
  | .set elements => .set ((Construction.unique (elements.map fun k =>
      Construction.keyed unlike value (k, k))).map (·.1))

theorem value_congr {m : Made} {unlike unlike' : Nat → Bool} {value value' : Nat → Value}
    (hunlike : ∀ k ∈ m.parts, unlike k = unlike' k) (hvalue : ∀ k ∈ m.parts, value k = value' k) :
    m.value unlike value = m.value unlike' value' := by
  have hkeyed (e : Nat × Nat) (he : e.1 ∈ m.parts ∧ e.2 ∈ m.parts) :
      Construction.keyed unlike value e = Construction.keyed unlike' value' e := by
    rw [Construction.keyed, Construction.keyed, hvalue e.1 he.1, hunlike e.1 he.1, hvalue e.2 he.2]
  cases m with
  | scalar | unfilled => rfl
  | list items => exact congrArg Value.list (List.map_congr_left hvalue)
  | pairs entries =>
      refine congrArg Value.list (List.map_congr_left fun e he => ?_)
      obtain ⟨hkey, he⟩ := forall_parts_iff.1 (fun _ => id) e he
      rw [hvalue e.1 hkey, hvalue e.2 he]
  | map entries =>
      rw [Made.value, Made.value, List.map_congr_left fun e he =>
        hkeyed e (forall_parts_iff.1 (fun _ => id) e he)]
  | set elements =>
      have hset : ∀ k ∈ elements, Construction.keyed unlike value (k, k) =
          Construction.keyed unlike' value' (k, k) := fun k hk => hkeyed (k, k) ⟨hk, hk⟩
      rw [Made.value, Made.value, List.map_congr_left hset]

theorem mem_inside {m : Made} {n k : Nat} {path : List (Option Nat)} :
    some k ∈ m.inside n path ↔ k = n ∨ some k ∈ path := by
  cases m <;> simp [inside]

end Made

namespace Construction

variable {made : Array (Option Made)} {path path' : List (Option Nat)} {n k depth : Nat} {v : Value}
  {kept : Array (Option Value)}

/-- What a node is in the end. -/
def formAt (made : Array (Option Made)) (n : Nat) : Made := (madeAt made n).getD .unfilled

/-- The value of a node inside the collections of a path, and whether it refers to none of them,
down to a depth. -/
def valueAt (made : Array (Option Made)) : Nat → List (Option Nat) → Nat → Value × Bool
  | 0, _, _ => (.null, false)
  | depth + 1, path, n =>
    match path.idxOf? (some n) with
    | some i => (.enclosing (i + 1), false)
    | none =>
      let form := formAt made n
      (form.value (isUnlike made) fun k => (valueAt made depth (form.inside n path) k).1,
        form.parts.all fun k => (valueAt made depth (form.inside n path) k).2)

theorem formAt_eq {form : Made} (h : (made[n]?).getD none = some form) : formAt made n = form := by
  rw [formAt, madeAt, h, Option.getD_some]

theorem valueAt_succ (h : some n ∉ path) : valueAt made (depth + 1) path n =
    ((formAt made n).value (isUnlike made) fun k =>
        (valueAt made depth ((formAt made n).inside n path) k).1,
      (formAt made n).parts.all fun k =>
        (valueAt made depth ((formAt made n).inside n path) k).2) := by
  rw [valueAt, List.idxOf?_eq_none_iff.2 h]

theorem valueAt_eq_of_closed (h : (valueAt made (depth + 1) path n).2 = true) :
    some n ∉ path ∧ ∀ k ∈ (formAt made n).parts,
      (valueAt made depth ((formAt made n).inside n path) k).2 = true := by
  by_cases hpath : some n ∈ path
  · rw [valueAt] at h
    cases hidx : path.idxOf? (some n) with
    | some i =>
        rw [hidx] at h
        cases h
    | none => exact absurd hpath (List.idxOf?_eq_none_iff.1 hidx)
  · rw [valueAt_succ hpath] at h
    exact ⟨hpath, List.all_eq_true.1 h⟩

/-- Whether a node belongs to a collection. -/
def IsPart (made : Array (Option Made)) (n k : Nat) : Prop := k ∈ (formAt made n).parts

/-- Whether a node belongs to another one, or to what belongs to it. -/
abbrev Reaches (made : Array (Option Made)) : Nat → Nat → Prop :=
  Relation.ReflTransGen (IsPart made)

/-- A node with a value that refers to no collection around it leads to none of them. -/
theorem not_reaches_of_closed (h : (valueAt made depth path n).2 = true) (hk : some k ∈ path) :
    ¬ Reaches made n k := by
  induction depth generalizing path n with
  | zero => cases h
  | succ depth ih =>
      intro hreaches
      obtain ⟨hpath, hparts⟩ := valueAt_eq_of_closed h
      rcases hreaches.cases_head with rfl | ⟨part, hpart, hreaches⟩
      · exact hpath hk
      · exact ih (hparts part hpart) (Made.mem_inside.2 (.inr hk)) hreaches

/-- Such a value is the same inside of other collections that the node does not lead to. -/
theorem valueAt_eq_valueAt (h : (valueAt made depth path n).2 = true)
    (hpath' : ∀ k, Reaches made n k → some k ∉ path') :
    valueAt made depth path' n = valueAt made depth path n := by
  induction depth generalizing path path' n with
  | zero => rfl
  | succ depth ih =>
      obtain ⟨hpath, hparts⟩ := valueAt_eq_of_closed h
      have hsame (k : Nat) (hk : k ∈ (formAt made n).parts) :
          valueAt made depth ((formAt made n).inside n path') k =
            valueAt made depth ((formAt made n).inside n path) k := by
        refine ih (hparts k hk) fun j hj hmem => ?_
        rcases Made.mem_inside.1 hmem with rfl | hmem
        · exact not_reaches_of_closed (hparts k hk) (Made.mem_inside.2 (.inl rfl)) hj
        · exact hpath' j (.head hk hj) hmem
      rw [valueAt_succ hpath, valueAt_succ (hpath' n .refl)]
      refine Prod.ext ?_ ?_
      · exact Made.value_congr (fun _ _ => rfl) fun k hk => congrArg Prod.fst (hsame k hk)
      · rw [List.all_eq_true.2 hparts, List.all_eq_true]
        exact fun k hk => (congrArg Prod.snd (hsame k hk)).trans (hparts k hk)

/-- The value of a node inside the collections of a path, and whether it refers to none of them. -/
def Settles (made : Array (Option Made)) (path : List (Option Nat)) (n : Nat) (x : Value × Bool) :
    Prop := ∀ᶠ depth in atTop, valueAt made depth path n = x

variable {x : Value × Bool}

theorem settles_succ_iff :
    Settles made path n x ↔ ∀ᶠ depth in atTop, valueAt made (depth + 1) path n = x := by
  have h := eventually_map (f := atTop) (m := (· + 1))
    (P := fun depth => valueAt made depth path n = x)
  rwa [map_add_atTop_eq_nat] at h

theorem settles_form {form : Made} (hpath : some n ∉ path) (hform : formAt made n = form)
    (h : ∀ᶠ depth in atTop,
      (form.value (isUnlike made) fun k => (valueAt made depth (form.inside n path) k).1,
        form.parts.all fun k => (valueAt made depth (form.inside n path) k).2) = x) :
    Settles made path n x :=
  settles_succ_iff.2 (h.mono fun depth hdepth => by rw [valueAt_succ hpath, hform, hdepth])

theorem settles_enclosing {i : Nat} (h : path.idxOf? (some n) = some i) :
    Settles made path n (.enclosing (i + 1), false) :=
  settles_succ_iff.2 (.of_forall fun depth => by rw [valueAt, h])

/-- A path on which each collection leads to a node. -/
def LeadsTo (made : Array (Option Made)) (path : List (Option Nat)) (n : Nat) : Prop :=
  ∀ k, some k ∈ path → Reaches made k n

theorem LeadsTo.inside {form : Made} (h : LeadsTo made path n) (hform : formAt made n = form)
    (hk : k ∈ form.parts) : LeadsTo made (form.inside n path) k := by
  subst hform
  intro j hj
  rcases Made.mem_inside.1 hj with rfl | hj
  · exact .single hk
  · exact (h j hj).tail hk

/-- What is kept are values that nodes have inside of all collections that lead to them. -/
def IsSound (made : Array (Option Made)) (kept : Array (Option Value)) : Prop :=
  ∀ n v path, kept[n]? = some (some v) → LeadsTo made path n → some n ∉ path →
    Settles made path n (v, true)

theorem isSound_replicate (made : Array (Option Made)) (size : Nat) :
    IsSound made (Array.replicate size none) := by
  intro n v path h
  simp [Array.getElem?_replicate] at h

theorem not_reaches_of_isPart (h : Settles made path n (v, true)) (hk : IsPart made n k) :
    ¬ Reaches made k n := by
  obtain ⟨depth, hvalue⟩ := (settles_succ_iff.1 h).exists
  have hclosed : (valueAt made (depth + 1) path n).2 = true := by rw [hvalue]
  exact not_reaches_of_closed ((valueAt_eq_of_closed hclosed).2 k hk)
    (Made.mem_inside.2 (.inl rfl))

/-- A value that refers to no collection around it can be kept. -/
theorem IsSound.keep (h : IsSound made kept) (hv : Settles made path n (v, true)) :
    IsSound made (kept.setIfInBounds n (some v)) := by
  intro k v' path' hkept hleads hpath'
  rw [Array.getElem?_setIfInBounds] at hkept
  split at hkept
  · rename_i heq
    subst heq
    split at hkept
    · obtain rfl : v = v' := by simpa using hkept
      have hoff (k : Nat) (hk : Reaches made n k) : some k ∉ path' := by
        intro hmem
        rcases hk.cases_head with rfl | ⟨part, hpart, hk⟩
        · exact hpath' hmem
        · exact not_reaches_of_isPart hv hpart (hk.trans (hleads k hmem))
      refine hv.mono fun depth hdepth => ?_
      rw [valueAt_eq_valueAt (by rw [hdepth]) hoff, hdepth]
    · cases hkept
  · exact h k v' path' hkept hleads hpath'

/-! ## What reading finds -/

/-- An action that ends in what satisfies a postcondition, whatever is kept. -/
def Finds {α : Type} (made : Array (Option Made)) (m : Readout α) (post : α → Prop) : Prop :=
  ∀ kept, IsSound made kept → Runs m kept (fun a kept' => post a ∧ IsSound made kept') fun _ => True

section

variable {α β : Type} {m : Readout α} {f : α → Readout β} {post : α → Prop} {post' : β → Prop}

theorem Finds.bind (h : Finds made m post) (hf : ∀ a, post a → Finds made (f a) post') :
    Finds made (m >>= f) post' :=
  fun kept hkept => (h kept hkept).bind fun a kept' ha => hf a ha.1 kept' ha.2

theorem finds_pure {a : α} (h : post a) : Finds made (pure a) post :=
  fun _ hkept => runs_pure ⟨h, hkept⟩

theorem finds_throw (fault : Fault) : Finds made (throw fault) post := fun _ _ => runs_throw trivial

end

/-- The values of several nodes, and whether none of them refers to a collection around. -/
def ItemsSettle (made : Array (Option Made)) (path : List (Option Nat)) (items : List Nat)
    (x : List Value × Bool) : Prop :=
  ∀ᶠ depth in atTop, (items.map fun k => (valueAt made depth path k).1,
    items.all fun k => (valueAt made depth path k).2) = x

/-- The entries with the values of their nodes, and whether none of them refers to a collection
around. -/
def EntriesSettle (made : Array (Option Made)) (path : List (Option Nat))
    (entries : List (Nat × Nat)) (x : List KeyedEntry × Bool) : Prop :=
  ∀ᶠ depth in atTop, (entries.map (keyed (isUnlike made) fun k => (valueAt made depth path k).1),
    entries.all fun e => (valueAt made depth path e.1).2 && (valueAt made depth path e.2).2) = x

/-- What reading down to a depth finds. -/
structure ReadsOut (made : Array (Option Made)) (depth : Nat) : Prop where
  read : ∀ {path n}, LeadsTo made path n →
    Finds made (read made depth path n) (Settles made path n)
  readItems : ∀ {path items}, (∀ k ∈ items, LeadsTo made path k) →
    Finds made (readItems made depth path items) (ItemsSettle made path items)
  readEntries : ∀ {path entries}, (∀ e ∈ entries, LeadsTo made path e.1 ∧ LeadsTo made path e.2) →
    Finds made (readEntries made depth path entries) (EntriesSettle made path entries)

namespace ReadsOut

theorem readItems_succ (ih : ReadsOut made depth) {items : List Nat}
    (h : ∀ k ∈ items, LeadsTo made path k) :
    Finds made (Construction.readItems made (depth + 1) path items)
      (ItemsSettle made path items) := by
  cases items with
  | nil => exact finds_pure (.of_forall fun _ => rfl)
  | cons item rest =>
      obtain ⟨hitem, hrest⟩ := List.forall_mem_cons.1 h
      rw [Construction.readItems]
      refine (ih.read hitem).bind fun x hx => (ih.readItems hrest).bind fun xs hxs => finds_pure ?_
      filter_upwards [hx, hxs] with depth hx hxs
      subst hx
      subst hxs
      rfl

theorem readEntries_succ (ih : ReadsOut made depth) {entries : List (Nat × Nat)}
    (h : ∀ e ∈ entries, LeadsTo made path e.1 ∧ LeadsTo made path e.2) :
    Finds made (Construction.readEntries made (depth + 1) path entries)
      (EntriesSettle made path entries) := by
  cases entries with
  | nil => exact finds_pure (.of_forall fun _ => rfl)
  | cons e rest =>
      obtain ⟨⟨hkey, hvalue⟩, hrest⟩ := List.forall_mem_cons.1 h
      rw [Construction.readEntries]
      refine (ih.read hkey).bind fun x hx => (ih.read hvalue).bind fun y hy =>
        (ih.readEntries hrest).bind fun xs hxs => finds_pure ?_
      filter_upwards [hx, hy, hxs] with depth hx hy hxs
      subst hx
      subst hy
      subst hxs
      rfl

theorem finds_keep {x : Value × Bool} (hx : Settles made path n x) :
    Finds made (do
      if x.2 then modify fun kept => kept.setIfInBounds n (some x.1)
      return x : Readout (Value × Bool)) (Settles made path n) := by
  intro kept hkept
  dsimp only
  split
  · rename_i hclosed
    have hv : Settles made path n (x.1, true) := by rwa [← hclosed]
    exact runs_modify_bind (runs_pure ⟨hx, hkept.keep hv⟩)
  · exact runs_pure ⟨hx, hkept⟩

theorem read_succ (ih : ReadsOut made depth) (h : LeadsTo made path n) :
    Finds made (Construction.read made (depth + 1) path n) (Settles made path n) := by
  rw [Construction.read]
  split
  · rename_i i hidx
    exact finds_pure (settles_enclosing hidx)
  · rename_i hidx
    have hpath := List.idxOf?_eq_none_iff.1 hidx
    intro kept hkept
    refine runs_get ?_
    split
    · rename_i v hv
      exact runs_pure ⟨hkept n v path hv h hpath, hkept⟩
    · dsimp only
      split
      · rename_i v unlike hform
        exact finds_keep (settles_form hpath (formAt_eq hform) (x := (v, true))
          (.of_forall fun _ => rfl)) kept hkept
      · rename_i items hform
        refine Finds.bind (ih.readItems fun k hk => h.inside (formAt_eq hform) hk)
          (fun x hx => ?_) kept hkept
        refine finds_keep (x := (.list x.1, x.2)) (settles_form hpath (formAt_eq hform) ?_)
        exact hx.mono fun _ hdepth => hdepth ▸ rfl
      · rename_i entries hform
        refine Finds.bind (ih.readEntries (forall_parts_iff.1 fun k hk =>
          h.inside (formAt_eq hform) hk)) (fun x hx => ?_) kept hkept
        refine finds_keep (x := (_, x.2)) (settles_form hpath (formAt_eq hform) ?_)
        refine hx.mono fun _ hdepth => ?_
        subst hdepth
        exact Prod.ext (by simp [Made.value, keyed, Made.inside]) (all_parts _ _)
      · rename_i entries hform
        refine Finds.bind (ih.readEntries (forall_parts_iff.1 fun k hk =>
          h.inside (formAt_eq hform) hk)) (fun x hx => ?_) kept hkept
        refine finds_keep (x := (_, x.2)) (settles_form hpath (formAt_eq hform) ?_)
        refine hx.mono fun _ hdepth => ?_
        subst hdepth
        exact Prod.ext rfl (all_parts _ _)
      · rename_i elements hform
        refine Finds.bind (ih.readEntries (List.forall_mem_map.2 fun k hk =>
          ⟨h.inside (formAt_eq hform) hk, h.inside (formAt_eq hform) hk⟩)) (fun x hx => ?_)
          kept hkept
        refine finds_keep (x := (_, x.2)) (settles_form hpath (formAt_eq hform) ?_)
        refine hx.mono fun _ hdepth => ?_
        subst hdepth
        exact Prod.ext (by rw [List.map_map]; rfl) (by simp [Made.parts, Function.comp_def])
      · rename_i hscalar hlist hpairs hmap hset
        have hunfilled : formAt made n = .unfilled := by
          rw [formAt, madeAt]
          cases hform : (made[n]?).getD none with
          | none => rfl
          | some form =>
              cases form with
              | unfilled => rfl
              | scalar v unlike => exact (hscalar v unlike hform).elim
              | list items => exact (hlist items hform).elim
              | pairs entries => exact (hpairs entries hform).elim
              | map entries => exact (hmap entries hform).elim
              | set elements => exact (hset elements hform).elim
        exact finds_keep (settles_form hpath hunfilled (x := (.null, true))
          (.of_forall fun _ => rfl)) kept hkept

end ReadsOut

theorem readsOut (made : Array (Option Made)) (depth : Nat) : ReadsOut made depth := by
  induction depth with
  | zero =>
      refine ⟨fun _ => finds_throw _, fun {path items} _ => ?_, fun {path entries} _ => ?_⟩
      · cases items with
        | nil => exact finds_pure (.of_forall fun _ => rfl)
        | cons => exact finds_throw _
      · cases entries with
        | nil => exact finds_pure (.of_forall fun _ => rfl)
        | cons => exact finds_throw _
  | succ depth ih => exact ⟨ih.read_succ, ih.readItems_succ, ih.readEntries_succ⟩

end Construction

/-- The value of a graph is what its first node settles to. -/
theorem Graph.value_eq_ok {g : Graph} {root : Nat} {v : Value} (h : g.value root = .ok v) :
    ∃ s closed, Construction.run g root = .ok s ∧
      Construction.Settles s.made [] root (v, closed) := by
  cases hrun : Construction.run g root with
  | error e =>
      rw [value, hrun] at h
      cases h
  | ok s =>
      have hread (depth : Nat) := (Construction.readsOut s.made depth).read
        (show Construction.LeadsTo s.made [] root from fun _ h => absurd h List.not_mem_nil) _
        (Construction.isSound_replicate s.made s.made.size)
      have hvalue : Meets (g.value root)
          (fun v => ∃ closed, Construction.Settles s.made [] root (v, closed)) fun _ => True := by
        rw [value, hrun]
        change Meets ((Construction.read s.made _ [] root).run _ >>= fun x => pure x.1.1) _ _
        exact Meets.bind (hread _) fun x hx => ⟨x.1.2, hx.1⟩
      obtain ⟨closed, hclosed⟩ := hvalue.of_eq_ok h
      exact ⟨s, closed, rfl, hclosed⟩

end FrontLint.Yaml
