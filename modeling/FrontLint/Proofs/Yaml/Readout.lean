import FrontLint.Proofs.Yaml.Filling

/-!
# The depth of a value

A collection is read only outside of itself, so on the way to a part each collection is met once at
most, and the bound of the reading is never used up.
-/

namespace FrontLint.Yaml.Construction

open Finset

variable {made : Array (Option Made)} {path : List (Option Nat)} {n depth : Nat}

/-- The number of parts of a node. -/
def partsOf (made : Array (Option Made)) (n : Nat) : Nat :=
  match (made[n]?).getD none with
  | some (.list items) => items.length
  | some (.pairs entries) | some (.map entries) => entries.length
  | some (.set elements) => elements.length
  | _ => 0

/-- The nodes outside of a path, with their parts. -/
def work (made : Array (Option Made)) (path : List (Option Nat)) : Nat :=
  ∑ n ∈ range made.size with some n ∉ path, (partsOf made n + 1)

theorem work_none (made : Array (Option Made)) (path : List (Option Nat)) :
    work made (none :: path) = work made path := by
  simp [work]

theorem work_cons (hn : n < made.size) (hpath : some n ∉ path) :
    work made (some n :: path) + partsOf made n < work made path := by
  have hmem : n ∈ (range made.size).filter fun m => some m ∉ path := by simp [hn, hpath]
  have herase : ((range made.size).filter fun m => some m ∉ some n :: path) =
      ((range made.size).filter fun m => some m ∉ path).erase n := by
    ext m
    simp only [mem_filter, mem_erase, List.mem_cons, not_or, Option.some.injEq, ne_eq]
    tauto
  have hsum := add_sum_erase _ (fun m => partsOf made m + 1) hmem
  rw [work, work, herase]
  omega

theorem work_nil_le (made : Array (Option Made)) :
    work made [] ≤ partCount made + made.size := by
  have hparts : ∑ n ∈ range made.size, partsOf made n ≤ partCount made := by
    refine sum_range_le_foldl fun n hn count => ?_
    rw [partsOf, Array.getElem?_eq_getElem hn, Option.getD_some]
    split <;> simp_all
  have hall : work made [] = ∑ n ∈ range made.size, (partsOf made n + 1) := by simp [work]
  rw [hall, sum_add_distrib, ← card_eq_sum_ones, card_range]
  omega

/-- An action that ends, whatever is kept. -/
def Ends {α : Type} (m : Readout α) : Prop :=
  ∀ kept, Runs m kept (fun _ _ => True) fun _ => False

section

variable {α β : Type} {m : Readout α} {f : α → Readout β}

theorem Ends.bind (h : Ends m) (hf : ∀ a, Ends (f a)) : Ends (m >>= f) :=
  fun kept => (h kept).bind fun a kept' _ => hf a kept'

theorem ends_pure (a : α) : Ends (pure a) := fun _ => runs_pure trivial

end

/-- Reading within a depth ends. -/
structure IsReadable (made : Array (Option Made)) (depth : Nat) : Prop where
  read : ∀ {path n}, work made path < depth → Ends (read made depth path n)
  readItems : ∀ {path items}, work made path + items.length < depth →
    Ends (readItems made depth path items)
  readEntries : ∀ {path entries}, work made path + entries.length < depth →
    Ends (readEntries made depth path entries)

namespace IsReadable

variable (h : IsReadable made depth)
include h

theorem readItems_succ {items : List Nat} (hwork : work made path + items.length < depth + 1) :
    Ends (Construction.readItems made (depth + 1) path items) := by
  cases items with
  | nil => exact ends_pure _
  | cons item rest =>
      rw [List.length_cons] at hwork
      rw [Construction.readItems]
      exact (h.read (by omega)).bind fun _ => (h.readItems (by omega)).bind fun _ => ends_pure _

theorem readEntries_succ {entries : List (Nat × Nat)}
    (hwork : work made path + entries.length < depth + 1) :
    Ends (Construction.readEntries made (depth + 1) path entries) := by
  cases entries with
  | nil => exact ends_pure _
  | cons e rest =>
      rw [List.length_cons] at hwork
      rw [Construction.readEntries]
      exact (h.read (by omega)).bind fun _ => (h.read (by omega)).bind fun _ =>
        (h.readEntries (by omega)).bind fun _ => ends_pure _

theorem read_succ (hwork : work made path < depth + 1) :
    Ends (Construction.read made (depth + 1) path n) := by
  intro kept
  rw [Construction.read]
  split
  · exact runs_pure trivial
  · rename_i hpath
    refine runs_get ?_
    split
    · exact runs_pure trivial
    · have hinner {m : Made} (hm : (made[n]?).getD none = some m) :
          work made (some n :: path) + partsOf made n < depth := by
        have hn : n < made.size := by
          by_contra hn
          rw [Array.getElem?_eq_none (Nat.le_of_not_lt hn)] at hm
          cases hm
        have := work_cons hn (List.idxOf?_eq_none_iff.1 hpath)
        omega
      have hkeep (x : Value × Bool) : Ends (do
          if x.2 then modify fun kept => kept.setIfInBounds n (some x.1)
          return x : Readout (Value × Bool)) := by
        dsimp only
        split
        · exact Ends.bind (fun kept => runs_modify trivial) fun _ => ends_pure x
        · exact ends_pure x
      dsimp only
      split
      · exact (ends_pure _).bind hkeep kept
      · rename_i items hmade
        have := hinner hmade
        rw [partsOf, hmade] at this
        exact (h.readItems this).bind (fun x => hkeep _) kept
      · rename_i entries hmade
        have := hinner hmade
        rw [partsOf, hmade, ← work_none] at this
        exact (h.readEntries this).bind (fun x => hkeep _) kept
      · rename_i entries hmade
        have := hinner hmade
        rw [partsOf, hmade] at this
        exact (h.readEntries this).bind (fun x => hkeep _) kept
      · rename_i elements hmade
        have := hinner hmade
        rw [partsOf, hmade] at this
        have hlength : (elements.map fun k => (k, k)).length = elements.length :=
          List.length_map _
        exact (h.readEntries (hlength ▸ this)).bind (fun x => hkeep _) kept
      · exact (ends_pure _).bind hkeep kept

end IsReadable

theorem isReadable (made : Array (Option Made)) (depth : Nat) : IsReadable made depth := by
  induction depth with
  | zero =>
      constructor
      all_goals
        intros
        omega
  | succ depth ih => exact ⟨ih.read_succ, ih.readItems_succ, ih.readEntries_succ⟩

end Construction

/-- The value of a graph has no fault but those of values. -/
theorem Graph.meets_value {tagged : Prop} {g : Graph} (root : Nat)
    (hg : ∀ n, tagged ∨ (g.node n).IsBare) :
    Meets (g.value root) (fun _ => True) (IsValueFault tagged) := by
  rw [Graph.value]
  refine (Construction.meets_run g root hg).bind fun s _ => ?_
  have hwork : Construction.work s.made [] <
      2 * (Construction.partCount s.made + s.made.size) + 2 := by
    have := Construction.work_nil_le s.made
    omega
  have hread := (Construction.isReadable s.made _).read (n := root) hwork
  exact Meets.bind ((hread (Array.replicate s.made.size none)).mono (fun _ _ h => h)
    fun _ h => h.elim) fun _ _ => trivial

end FrontLint.Yaml
