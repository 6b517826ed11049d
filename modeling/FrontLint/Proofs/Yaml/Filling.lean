import FrontLint.Proofs.Yaml.Preserving
import FrontLint.Proofs.Yaml.ScalarFault

/-!
# Filling

Each node is made once, and waits at most once to be filled. So the nodes that are not made and the
collections that wait are together never more than there are nodes, and the bound of the filling is
never used up.
-/

namespace FrontLint.Yaml.Construction

variable {tagged : Prop} {s : State} {n budget : Nat}

/-- The number of nodes that are not made. -/
def unmade (made : Array (Option Made)) : Nat := made.countP Option.isNone

theorem unmade_setIfInBounds_le (made : Array (Option Made)) (n : Nat) (m : Made) :
    unmade (made.setIfInBounds n (some m)) ≤ unmade made := by
  rw [unmade, unmade, Array.setIfInBounds]
  split
  · rw [Array.countP_set]
    simp
  · exact le_rfl

theorem unmade_setIfInBounds_lt {made : Array (Option Made)} (h : made[n]? = some none)
    (m : Made) : unmade (made.setIfInBounds n (some m)) < unmade made := by
  obtain ⟨hn, hnone⟩ := Array.getElem?_eq_some_iff.1 h
  have hpos : 0 < made.countP Option.isNone :=
    Array.countP_pos_iff.2 ⟨_, Array.getElem_mem hn, by rw [hnone, Option.isNone_none]⟩
  rw [unmade, unmade, Array.setIfInBounds, dif_pos hn, Array.countP_set, hnone,
    Option.isNone_none, Option.isNone_some, if_pos rfl, if_neg Bool.false_ne_true]
  omega

/-- A state in which `budget` nodes at most are to be made or filled. -/
structure IsFillable (tagged : Prop) (budget : Nat) (s : State) : Prop where
  size_eq : s.made.size = s.graph.size
  load_le : s.waiting.length + unmade s.made ≤ budget
  isBare : ∀ n, tagged ∨ (s.graph.node n).IsBare

theorem lt_size_of_tagOf {g : Graph} (h : g.tagOf n ≠ .null) : n < g.size := by
  by_contra hn
  rw [Graph.tagOf, Graph.node, Array.getElem?_eq_none (Nat.le_of_not_lt hn)] at h
  exact h rfl

/-- Recording a scalar, or a collection that has not been met before. -/
theorem IsFillable.record (hs : IsFillable tagged budget s) (m : Made) :
    IsFillable tagged budget { s with made := s.made.setIfInBounds n (some m) } where
  size_eq := (Array.size_setIfInBounds).trans hs.size_eq
  load_le := (Nat.add_le_add_left (unmade_setIfInBounds_le s.made n m) _).trans hs.load_le
  isBare := hs.isBare

theorem IsFillable.wait (hs : IsFillable tagged budget s) (hn : s.graph.tagOf n ≠ .null)
    (hmade : ¬ ((s.made[n]?).getD none).isSome) :
    IsFillable tagged budget
      { s with
        made := s.made.setIfInBounds n (some .unfilled)
        waiting := s.waiting ++ [n] } := by
  have hlt : n < s.made.size := hs.size_eq ▸ lt_size_of_tagOf hn
  have hnone : s.made[n]? = some none := by
    rw [Array.getElem?_eq_getElem hlt] at hmade ⊢
    simpa using hmade
  refine ⟨(Array.size_setIfInBounds).trans hs.size_eq, ?_, hs.isBare⟩
  have := unmade_setIfInBounds_lt hnone .unfilled
  have := hs.load_le
  simp only [List.length_append, List.length_singleton]
  omega

theorem preserves_make (n : Nat) :
    Preserves (IsFillable tagged budget) (IsValueFault tagged) (make n) := by
  intro s hs
  rw [make]
  refine runs_get ?_
  dsimp only
  split
  · exact runs_pure hs
  · rename_i hmade
    have hwait (htag : s.graph.tagOf n ≠ .null) := hs.wait htag hmade
    have hscalar (hseq : s.graph.tagOf n ≠ .seq) (hmap : s.graph.tagOf n ≠ .map) :
        Runs (do
          let x ← (liftM (scalarOf s.graph n) : Build (Value × Bool))
          set { s with made := s.made.setIfInBounds n (some (.scalar x.1 x.2)) }) s
          (fun _ s' => IsFillable tagged budget s') (IsValueFault tagged) := by
      have hnode : tagged ∨ (s.graph.node n).kind = .scalar ∧ (s.graph.node n).IsBare := by
        refine (hs.isBare n).imp_right fun h => ⟨?_, h⟩
        rw [Graph.tagOf] at hseq hmap
        cases hnode : s.graph.node n with
        | scalar => rfl
        | sequence tag items =>
            rw [hnode] at h hseq
            exact absurd h hseq
        | mapping tag entries =>
            rw [hnode] at h hmap
            exact absurd h hmap
      refine Runs.bind (runs_lift ((meets_scalarOf hnode).mono (fun _ _ => rfl) fun _ h => h)) ?_
      rintro x _ rfl
      exact hs.record (.scalar x.1 x.2)
    cases htag : s.graph.tagOf n with
    | seq | map | set | omap | pairs => exact hwait (by simp [htag])
    | null | bool | int | float | binary | timestamp | str =>
        exact hscalar (by simp [htag]) (by simp [htag])
    | _ => exact runs_throw (.inl rfl)

/-- Making and merging keep to the budget, or end in a fault of a value. -/
theorem isPreserved_isFillable :
    IsPreserved (IsFillable tagged budget) (IsValueFault tagged) where
  make := preserves_make
  merge hs hg :=
    ⟨hs.size_eq.trans hg.size_eq.symm, hs.load_le,
      fun k => (hs.isBare k).imp_right (hg.node k).isBare⟩
  isOfBlock := .inl

/-- With more fuel than nodes to make or fill, all collections are filled. -/
theorem runs_fill {fuel : Nat} (hs : IsFillable tagged budget s) (hfuel : budget < fuel) :
    Runs (fill fuel) s (fun _ _ => True) (IsValueFault tagged) := by
  induction fuel generalizing s budget with
  | zero => omega
  | succ fuel ih =>
      rw [fill]
      refine runs_get ?_
      split
      · exact runs_pure trivial
      · rename_i n rest hwaiting
        have hload := hs.load_le
        rw [hwaiting, List.length_cons] at hload
        have hrest : IsFillable tagged (budget - 1) { s with waiting := rest } :=
          ⟨hs.size_eq, by simp only; omega, hs.isBare⟩
        refine runs_set ((isPreserved_isFillable.contents n _ hrest).bind fun m s' hs' =>
          runs_modify_bind ?_)
        exact ih (hs'.record m) (by omega)

/-- Making a graph finds no fault but those of values. -/
theorem meets_run (g : Graph) (root : Nat) (hg : ∀ n, tagged ∨ (g.node n).IsBare) :
    Meets (run g root) (fun _ => True) (IsValueFault tagged) := by
  have hstart : IsFillable tagged g.size ⟨g, Array.replicate g.size none, []⟩ := by
    refine ⟨Array.size_replicate, ?_, hg⟩
    have hcount := @Array.countP_le_size _ Option.isNone
      (Array.replicate g.size (none : Option Made))
    rw [Array.size_replicate] at hcount
    simpa [unmade] using hcount
  rw [run]
  have hrun : Runs (make root *> fill (g.size + 1)) ⟨g, Array.replicate g.size none, []⟩
      (fun _ _ => True) (IsValueFault tagged) :=
    Runs.bind (preserves_make root _ hstart) fun _ s hs => runs_fill hs (Nat.lt_succ_self _)
  exact Meets.bind hrun fun _ _ => trivial

end FrontLint.Yaml.Construction
