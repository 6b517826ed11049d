import FrontLint.Proofs.Yaml.AbreastRun
import FrontLint.Proofs.Yaml.Preserving

/-!
# What nodes become

A scalar that is a text is made to that text and nothing else, whatever else is made: no merge
changes it, and it never waits to be filled. What becomes a mapping has the tag of one.
-/

namespace FrontLint.Yaml

namespace Made

/-- What a node with a tag can become: a mapping only if that is its tag. -/
def Fits (tag : Tag) : Made → Prop
  | .scalar v _ => v.identity?.isSome = true
  | .map _ => tag = .map
  | _ => True

theorem Fits.retags {m : Made} {tag tag' : Tag} (h : m.Fits tag) (htag : tag.Retags tag') :
    m.Fits tag' := by
  cases m with
  | map entries =>
      obtain rfl : tag = .map := h
      rcases htag with rfl | ⟨htag, -⟩
      · rfl
      · cases htag
  | _ => exact h

end Made

namespace Construction

variable {n : Nat} {text : Text} {s : State} {g : Graph} {root : Nat}

/-! ## Texts -/

/-- A state in which a node is a text, and is not made to anything else. -/
structure KeepsText (n : Nat) (text : Text) (s : State) : Prop where
  node : s.graph.node n = .scalar .str text
  notMem : n ∉ s.waiting
  made : ∀ m ∈ madeAt s.made n, m = .scalar (.text text) false

/-- Another node is made. -/
theorem KeepsText.setIfInBounds (hs : KeepsText n text s) {k : Nat} (hk : k ≠ n) (m : Made) :
    KeepsText n text { s with made := s.made.setIfInBounds k (some m) } where
  node := hs.node
  notMem := hs.notMem
  made m' hm' := by
    rw [madeAt_setIfInBounds, if_neg fun h => hk h.1] at hm'
    exact hs.made m' hm'

theorem Makes.eq_text {m : Made} (hm : Makes s.graph n m)
    (hnode : s.graph.node n = .scalar .str text) :
    m = .scalar (.text text) false := by
  cases hm with
  | unfilled h => simp [Graph.tagOf, hnode, Node.tag, collectionTags] at h
  | scalar _ hv =>
      have htext : textOf s.graph n = .ok text := by rw [textOf, scalarText, hnode]
      rw [scalarOf_eq, htext, Graph.tagOf, hnode] at hv
      cases hv
      rfl

theorem preserves_keepsText_make (k : Nat) :
    Preserves (KeepsText n text) (fun _ => True) (make k) := by
  refine fun s hs => runs_of_eq_ok fun _ s' h => ?_
  rcases make_eq_ok h with ⟨-, rfl⟩ | ⟨-, m, hm, rfl⟩
  · exact hs
  · by_cases hk : k = n
    · subst hk
      obtain rfl := hm.eq_text hs.node
      refine ⟨hs.node, hs.notMem, fun m' hm' => ?_⟩
      change m' ∈ madeAt (s.made.setIfInBounds k _) k at hm'
      rw [madeAt_setIfInBounds] at hm'
      split at hm'
      · exact (Option.some_inj.1 hm').symm
      · exact hs.made m' hm'
    · have hrecord := hs.setIfInBounds hk m
      cases hm with
      | unfilled =>
          refine ⟨hrecord.node, fun hmem => ?_, hrecord.made⟩
          rcases List.mem_append.1 hmem with hmem | hmem
          · exact hs.notMem hmem
          · exact hk (List.mem_singleton.1 hmem).symm
      | scalar => exact hrecord

theorem isPreserved_keepsText : IsPreserved (KeepsText n text) fun _ => True where
  make := preserves_keepsText_make
  merge {s g} hs hg := by
    refine ⟨?_, hs.notMem, hs.made⟩
    have hevolves := hg.node n
    rw [hs.node] at hevolves
    change g.node n = _
    generalize g.node n = node at hevolves
    cases hevolves with
    | scalar h =>
        rcases h with rfl | ⟨h, -⟩
        · rfl
        · cases h
  isOfBlock _ := trivial

/-- A text is made to that text by a construction, if at all. -/
theorem keepsText_of_run (h : run g root = .ok s) (hnode : g.node n = .scalar .str text) :
    KeepsText n text s := by
  have hstart : KeepsText n text ⟨g, Array.replicate g.size none, []⟩ :=
    ⟨hnode, nofun, fun m hm => by rw [madeAt_replicate] at hm; cases hm⟩
  have hfill (fuel : Nat) : Preserves (KeepsText n text) (fun _ => True) (fill fuel) := by
    refine preserves_fill trivial (fun s k rest hs hwaiting => ?_) fuel
    have hnotMem := hs.notMem
    rw [hwaiting, List.mem_cons, not_or] at hnotMem
    have hrest : KeepsText n text { s with waiting := rest } := ⟨hs.node, hnotMem.2, hs.made⟩
    exact (isPreserved_keepsText.contents k _ hrest).mono
      (fun m s' hs' => hs'.setIfInBounds (Ne.symm hnotMem.1) m) fun _ => id
  exact (preserves_run (preserves_keepsText_make root) hfill hstart).of_eq_ok h

/-! ## Mappings -/

theorem Makes.fits {m : Made} (hm : Makes g n m) (tag : Tag) : m.Fits tag := by
  cases hm with
  | unfilled => trivial
  | scalar _ hv => exact ((meets_scalarOf_isSome g n).of_eq_ok hv).1

/-- A state in which all nodes that are made fit their tags. -/
def FitsTags (s : State) : Prop := ∀ n, ∀ m ∈ madeAt s.made n, m.Fits (s.graph.tagOf n)

theorem FitsTags.setIfInBounds (hs : FitsTags s) {m : Made} (hm : m.Fits (s.graph.tagOf n)) :
    FitsTags { s with made := s.made.setIfInBounds n (some m) } := by
  intro k m' hm'
  rw [madeAt_setIfInBounds] at hm'
  split at hm'
  · rename_i hk
    rw [← hk.1, ← Option.some_inj.1 hm']
    exact hm
  · exact hs k m' hm'

theorem isPreserved_fitsTags : IsPreserved FitsTags fun _ => True where
  make n := by
    refine fun s hs => runs_of_eq_ok fun _ s' h => ?_
    rcases make_eq_ok h with ⟨-, rfl⟩ | ⟨-, m, hm, rfl⟩
    · exact hs
    · exact hs.setIfInBounds (hm.fits _)
  merge hs hg n m hm := (hs n m hm).retags (hg.node n).retags
  isOfBlock _ := trivial

/-- A tag is not changed but by merges. -/
theorem isPreserved_retags (tag : Tag) (n : Nat) :
    IsPreserved (fun s => tag.Retags (s.graph.tagOf n)) fun _ => True where
  make k := by
    refine fun s hs => runs_of_eq_ok fun _ s' h => ?_
    rcases make_eq_ok h with ⟨-, rfl⟩ | ⟨-, m, hm, rfl⟩
    · exact hs
    · exact hs
  merge hs hg := hs.trans (hg.node n).retags
  isOfBlock _ := trivial

theorem runs_contents_fits (n : Nat) (s : State) :
    Runs (contents n) s (fun m _ => m.Fits (s.graph.tagOf n)) fun _ => True := by
  rw [contents]
  refine runs_get ?_
  dsimp only
  split
  · exact Meets.bind_of_forall fun _ => trivial
  · exact runs_throw trivial
  · exact Meets.bind_of_forall fun _ => trivial
  · exact runs_throw trivial
  · exact Meets.bind_of_forall fun _ => trivial
  · rename_i htag
    exact Meets.bind_of_forall fun _ => htag
  · exact Meets.bind_of_forall fun _ => trivial
  · exact runs_throw trivial

theorem fitsTags_of_run (h : run g root = .ok s) : FitsTags s := by
  have hfill (fuel : Nat) : Preserves FitsTags (fun _ => True) (fill fuel) := by
    refine preserves_fill trivial (fun s k rest hs _ => ?_) fuel
    let popped : State := { s with waiting := rest }
    have htag := (isPreserved_retags (s.graph.tagOf k) k).contents k popped (.inl rfl)
    have hfits := isPreserved_fitsTags.contents k popped hs
    refine (hfits.and ((runs_contents_fits k popped).and htag)).mono ?_ fun _ _ => trivial
    rintro ⟨m, s'⟩ ⟨hs', hm, htag⟩
    exact FitsTags.setIfInBounds hs' (hm.retags htag)
  refine (preserves_run (isPreserved_fitsTags.make root) hfill fun k m hm => ?_).of_eq_ok h
  rw [madeAt_replicate] at hm
  cases hm

theorem retags_of_run (h : run g root = .ok s) (n : Nat) :
    (g.tagOf n).Retags (s.graph.tagOf n) := by
  have hkeeps := isPreserved_retags (g.tagOf n) n
  have hfill := preserves_fill trivial fun s k rest
    (hs : (g.tagOf n).Retags (s.graph.tagOf n)) _ => hkeeps.contents k { s with waiting := rest } hs
  exact (preserves_run (hkeeps.make root) hfill (.inl rfl)).of_eq_ok h

/-- What becomes a mapping has the tag of one. -/
theorem tagOf_eq_map_of_run {entries : List (Nat × Nat)} (h : run g root = .ok s)
    (hmade : madeAt s.made n = some (.map entries)) : g.tagOf n = .map := by
  have hfits : s.graph.tagOf n = .map := fitsTags_of_run h n _ hmade
  rcases retags_of_run h n with heq | ⟨-, heq⟩
  · rw [← heq, hfits]
  · rw [hfits] at heq
    cases heq

end Construction

end FrontLint.Yaml
