import FrontLint.Proofs.Yaml.Merging
import FrontLint.Yaml.Construction

/-!
# What a construction preserves

A property of states that making a node and merging preserve is preserved by all that fills a
collection.
-/

namespace FrontLint.Yaml.Construction

variable {α β : Type} {P : State → Prop} {faults : Fault → Prop}

/-- An action that preserves a property of states, or ends in one of the faults. -/
def Preserves (P : State → Prop) (faults : Fault → Prop) (m : Build α) : Prop :=
  ∀ s, P s → Runs m s (fun _ s' => P s') faults

theorem Preserves.bind {m : Build α} {f : α → Build β} (h : Preserves P faults m)
    (hf : ∀ a, Preserves P faults (f a)) : Preserves P faults (m >>= f) :=
  fun s hs => (h s hs).bind fun a s' hs' => hf a s' hs'

theorem preserves_pure (a : α) : Preserves P faults (pure a : Build α) := fun _ hs => runs_pure hs

theorem preserves_get {f : State → Build β} (h : ∀ s, Preserves P faults (f s)) :
    Preserves P faults (get >>= f) := fun s hs => runs_get (h s s hs)

/-- A property that making a node and merging preserve; the faults of a block are expected. -/
structure IsPreserved (P : State → Prop) (faults : Fault → Prop) : Prop where
  make : ∀ n, Preserves P faults (make n)
  merge : ∀ {s g}, P s → s.graph.Evolves g → P { s with graph := g }
  isOfBlock : ∀ {fault}, fault.isOfBlock = true → faults fault

namespace IsPreserved

variable (h : IsPreserved P faults)
include h

theorem throw {fault : Fault} (hfault : fault.isOfBlock = true) :
    Preserves P faults (throw fault : Build α) := fun _ _ => runs_throw (h.isOfBlock hfault)

theorem makeEntries (entries : List (Nat × Nat)) : Preserves P faults (makeEntries entries) := by
  induction entries with
  | nil => exact preserves_pure ()
  | cons e rest ih =>
      rw [Construction.makeEntries]
      refine (h.make e.1).bind fun _ => preserves_get fun s => ?_
      dsimp only
      split
      · exact fun _ _ => runs_throw_bind (h.isOfBlock rfl)
      · exact (h.make e.2).bind fun _ => ih

theorem mappingEntries (n : Nat) : Preserves P faults (mappingEntries n) := by
  intro s hs
  rw [Construction.mappingEntries]
  refine runs_get ?_
  dsimp only
  split
  · rename_i hnode
    have hmerge : Runs (Graph.merge n) s.graph (fun _ g' => s.graph.Evolves g')
        fun fault => fault.isOfBlock = true := Graph.runs_merge (by rw [hnode, Node.kind])
    have hlift : Runs (liftM ((Graph.merge n).run s.graph) : Build (PUnit × Graph)) s
        (fun x s' => s.graph.Evolves x.2 ∧ s' = s) faults :=
      runs_lift (Meets.mono hmerge (fun _ hx => ⟨hx, rfl⟩) fun _ => h.isOfBlock)
    refine hlift.bind ?_
    rintro ⟨_, g⟩ s' ⟨hg, rfl⟩
    exact runs_set (((h.makeEntries _).bind fun _ => preserves_pure _) _ (h.merge hs hg))
  · exact runs_throw (h.isOfBlock rfl)

theorem pairEntries (assembly : Assembly) (items : List Nat) :
    Preserves P faults (pairEntries assembly items) := by
  induction items with
  | nil => exact preserves_pure []
  | cons item rest ih =>
      rw [Construction.pairEntries]
      refine preserves_get fun s => ?_
      split
      · exact (h.make _).bind fun _ => (h.make _).bind fun _ => ih.bind fun _ => preserves_pure _
      · exact h.throw rfl

theorem contents (n : Nat) : Preserves P faults (contents n) := by
  have hitems (items : List Nat) : Preserves P faults (items.forM Construction.make) := by
    induction items with
    | nil => exact preserves_pure ()
    | cons item rest ih => exact (h.make item).bind fun _ => ih
  rw [Construction.contents]
  refine preserves_get fun s => ?_
  dsimp only
  split
  · exact (h.pairEntries _ _).bind fun _ => preserves_pure _
  · exact h.throw rfl
  · exact (h.pairEntries _ _).bind fun _ => preserves_pure _
  · exact h.throw rfl
  · exact (h.mappingEntries n).bind fun _ => preserves_pure _
  · exact (h.mappingEntries n).bind fun _ => preserves_pure _
  · exact (hitems _).bind fun _ => preserves_pure _
  · exact h.throw rfl

end IsPreserved

/-- What each filling of a collection preserves is preserved by filling all of them. -/
theorem preserves_fill (hexhausted : faults .exhausted)
    (hstep : ∀ s n rest, P s → s.waiting = n :: rest →
      Runs (contents n) { s with waiting := rest }
        (fun m s' => P { s' with made := s'.made.setIfInBounds n (some m) }) faults)
    (fuel : Nat) : Preserves P faults (fill fuel) := by
  induction fuel with
  | zero => exact fun _ _ => runs_throw hexhausted
  | succ fuel ih =>
      intro s hs
      rw [fill]
      refine runs_get ?_
      split
      · exact runs_pure hs
      · rename_i n rest hwaiting
        exact runs_set ((hstep s n rest hs hwaiting).bind fun m s' hs' =>
          runs_modify_bind (ih _ hs'))
theorem preserves_run {g : Graph} {root : Nat} (hmake : Preserves P faults (make root))
    (hfill : ∀ fuel, Preserves P faults (fill fuel))
    (hstart : P ⟨g, Array.replicate g.size none, []⟩) : Meets (run g root) P faults := by
  rw [run]
  exact Meets.bind ((hmake.bind fun _ => hfill _) _ hstart) fun _ hs => hs

end FrontLint.Yaml.Construction
