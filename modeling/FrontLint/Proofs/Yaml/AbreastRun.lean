import FrontLint.Proofs.Yaml.AbreastFilling

/-!
# Filling two graphs abreast, to the end

What is made of a graph is made of each graph that extends it: the nodes that both have in common
come out alike, moved by the same offset, and no node in front of them needs one behind them.
-/

namespace FrontLint.Yaml

open FrontLint.Yaml.Graph (Extends Unsettled Settled)

variable {d : Nat} {front back : List (Nat × Nat)} {g h : Graph}

theorem Graph.Extends.unsettled (hg : Extends d front back h g) : Unsettled d front back h g where
  mirrors := hg.mirrors
  back_eq := by rw [entriesOf, hg.root]
  root := by
    obtain ⟨tag, hroot⟩ := hg.root'
    rw [entriesOf, hroot]
  front_le := hg.front_le
  back_pos := hg.back_pos
  entries_le n hn hnd e he := by
    have hrefers := hg.refersBelow n hn hnd
    rw [entriesOf] at he
    cases hnode : g.node n with
    | mapping tag entries =>
        rw [hnode] at hrefers he
        exact ⟨Nat.le_of_lt_succ (hrefers e he).1, Nat.le_of_lt_succ (hrefers e he).2⟩
    | _ =>
        rw [hnode] at he
        cases he
  items_le n hnd i hi := by
    rw [itemsOf] at hi
    rcases Nat.eq_zero_or_pos n with rfl | hn
    · obtain ⟨tag, hroot⟩ := hg.root'
      rw [hroot] at hi
      cases hi
    · have hrefers := hg.refersBelow n hn hnd
      cases hnode : g.node n with
      | sequence tag items =>
          rw [hnode] at hrefers hi
          exact Nat.le_of_lt_succ (hrefers i hi)
      | _ =>
          rw [hnode] at hi
          cases hi

namespace Construction

variable {n : Nat} {s s' t t' : State} {entries entries' : List (Nat × Nat)}

theorem makeEntries_append (entries entries' : List (Nat × Nat)) :
    makeEntries (entries ++ entries') =
      (makeEntries entries >>= fun _ => makeEntries entries') := by
  induction entries with
  | nil => rfl
  | cons e rest ih =>
      rw [List.cons_append, makeEntries, makeEntries, ih, bind_assoc]
      refine congrArg (make e.1 >>= ·) (funext fun _ => ?_)
      rw [bind_assoc]
      refine congrArg (get >>= ·) (funext fun s => ?_)
      dsimp only
      split
      · rfl
      · rw [bind_assoc]

/-- The state in which the first mapping waits to be filled. -/
def atRoot (g : Graph) : State :=
  ⟨g, (Array.replicate g.size none).setIfInBounds 0 (some .unfilled), []⟩

/-- What a construction from a mapping on has done: to merge, to make the entries of the mapping,
and to fill the others. -/
theorem run_eq_ok (hnode : g.node 0 = .mapping .map entries) (h : run g 0 = .ok s) :
    ∃ g' s₁, (Graph.merge 0).run g = .ok ((), g') ∧
      (makeEntries (g'.entriesOf 0)).run { atRoot g with graph := g' } = .ok ((), s₁) ∧
      (fill g.size).run
        { s₁ with made := s₁.made.setIfInBounds 0 (some (.map (g'.entriesOf 0))) } =
          .ok ((), s) := by
  have htag : g.tagOf 0 = .map := by rw [Graph.tagOf, hnode]; rfl
  rw [run] at h
  cases hrun : (make 0 *> fill (g.size + 1)).run ⟨g, Array.replicate g.size none, []⟩ with
  | error e =>
      rw [hrun] at h
      cases h
  | ok x =>
      obtain ⟨_, s'⟩ := x
      rw [hrun] at h
      cases h
      rw [seqRight_eq_bind] at hrun
      obtain ⟨_, s₀, hmake, hfill⟩ := run_bind_eq_ok hrun
      rcases make_eq_ok hmake with ⟨hsome, -⟩ | ⟨-, m, hm, rfl⟩
      · rw [madeAt_replicate] at hsome
        cases hsome
      · cases hm with
        | scalar h _ => exact absurd (by simp [htag, collectionTags]) h
        | unfilled =>
            obtain ⟨m, s₁, hcontents, hfill⟩ :=
              fill_cons_eq_ok (show _ = 0 :: [] from rfl) hfill
            rw [contents_eq] at hcontents
            obtain ⟨_, _, hget, hcontents⟩ := run_bind_eq_ok hcontents
            cases hget
            dsimp only [State.record] at hcontents
            rw [hnode] at hcontents
            obtain ⟨_, _, hentries, hcontents⟩ := run_bind_eq_ok hcontents
            cases hcontents
            obtain ⟨-, g', hmerge, rfl, hmake⟩ := mappingEntries_eq_ok hentries
            exact ⟨g', _, hmerge, hmake, hfill⟩

/-- Where making the entries of a mapping succeeds, all that belongs to it is made. -/
theorem isMade_of_makeEntries (h : (makeEntries entries).run s = .ok ((), s')) :
    (∀ n, IsMade s.made n → IsMade s'.made n) ∧
      ∀ e ∈ entries, IsMade s'.made e.1 ∧ IsMade s'.made e.2 := by
  have hmake {n : Nat} {s s' : State} (h : (make n).run s = .ok ((), s')) :
      (∀ k, IsMade s.made k → IsMade s'.made k) ∧ IsMade s'.made n := by
    rcases make_eq_ok h with ⟨hsome, rfl⟩ | ⟨-, m, -, rfl⟩
    · exact ⟨fun _ => id, .inr hsome⟩
    · refine ⟨fun k hk => hk.setIfInBounds n m, ?_⟩
      change IsMade (s.made.setIfInBounds n (some m)) n
      rw [IsMade, Array.size_setIfInBounds, madeAt_setIfInBounds]
      rcases Nat.lt_or_ge n s.made.size with hlt | hge
      · rw [if_pos ⟨rfl, hlt⟩]
        exact .inr rfl
      · exact .inl hge
  induction entries generalizing s with
  | nil =>
      cases h
      exact ⟨fun _ => id, List.forall_mem_nil _⟩
  | cons e rest ih =>
      obtain ⟨s₁, s₂, hkey, hvalue, hrest⟩ := makeEntries_cons_eq_ok h
      obtain ⟨hkeep, hentries⟩ := ih hrest
      have hkeep₂ (n : Nat) (hn : IsMade s₁.made n) : IsMade s'.made n :=
        hkeep n ((hmake hvalue).1 n hn)
      refine ⟨fun n hn => hkeep₂ n ((hmake hkey).1 n hn), List.forall_mem_cons.2 ⟨?_, hentries⟩⟩
      exact ⟨hkeep₂ _ (hmake hkey).2, hkeep _ (hmake hvalue).2⟩

theorem madeAt_atRoot (hsize : 0 < g.size) (n : Nat) :
    madeAt (atRoot g).made n = if n = 0 then some .unfilled else none := by
  rw [atRoot]
  rcases Nat.eq_zero_or_pos n with rfl | hn
  · rw [madeAt_setIfInBounds, if_pos ⟨rfl, by rwa [Array.size_replicate]⟩, if_pos rfl]
  · rw [madeAt_setIfInBounds, if_neg (by omega), if_neg (by omega), madeAt_replicate]

/-- After the first mappings have been merged nothing is made yet. -/
theorem abreast_atRoot {rest : List (Nat × Nat)} {h' g' : Graph}
    (hg : Settled d (h'.entriesOf 0) rest h' g') (hh' : h'.size = h.size) (hg' : g'.size = g.size) :
    Abreast ⟨d, h'.entriesOf 0, rest, .unfilled, .unfilled, False⟩ { atRoot h with graph := h' }
      { atRoot g with graph := g' } := by
  have hsize := hg.mirrors.size_eq
  have hle := hg.mirrors.size_le
  have hmade := madeAt_atRoot (g := h) (by omega)
  have hmade' := madeAt_atRoot (g := g) (by omega)
  exact {
    settled := hg
    size_graph := by simp [atRoot, hh']
    size_eq := by simp only [atRoot, Array.size_setIfInBounds, Array.size_replicate]; omega
    made := fun n hn => by
      rw [hmade', hmade, if_neg (by omega), if_neg (by omega)]
      rfl
    refersBehind := fun n hn m hm => by
      rw [hmade, if_neg (by omega)] at hm
      cases hm
    isRegular := fun n m hm => by
      rw [hmade'] at hm
      split at hm
      · cases hm
        trivial
      · cases hm
    waiting := rfl
    zero_notMem := nofun
    root := hmade 0
    root' := hmade' 0
    ready := nofun }

variable {w : Frame}

/-- The first mappings are filled. -/
theorem Abreast.setRoot (hs : Abreast w t s) (m m' : Made) (hm' : m'.IsRegular) :
    Abreast { w with root := m, root' := m' }
      { t with made := t.made.setIfInBounds 0 (some m) }
      { s with made := s.made.setIfInBounds 0 (some m') } := by
  have hpos : 0 < t.made.size := hs.size_graph ▸ hs.settled.mirrors.size_le
  have hsize := hs.size_eq
  exact {
    settled := hs.settled
    size_graph := by rw [Array.size_setIfInBounds, hs.size_graph]
    size_eq := by rw [Array.size_setIfInBounds, Array.size_setIfInBounds, hs.size_eq]
    made := fun n hn => by
      rw [madeAt_setIfInBounds, madeAt_setIfInBounds, if_neg (by omega), if_neg (by omega),
        hs.made n hn]
    refersBehind := fun n hn k hk => by
      rw [madeAt_setIfInBounds, if_neg (by omega)] at hk
      exact hs.refersBehind n hn k hk
    isRegular := fun n k hk => by
      rw [madeAt_setIfInBounds] at hk
      split at hk
      · exact Option.some_inj.1 hk ▸ hm'
      · exact hs.isRegular n k hk
    waiting := hs.waiting
    zero_notMem := hs.zero_notMem
    root := by rw [madeAt_setIfInBounds, if_pos ⟨rfl, hpos⟩]
    root' := by rw [madeAt_setIfInBounds, if_pos ⟨rfl, by omega⟩]
    ready := fun hfilled e he =>
      ⟨(hs.ready hfilled e he).1.setIfInBounds 0 m, (hs.ready hfilled e he).2.setIfInBounds 0 m⟩ }

/-- The entries of the first mappings are made. -/
theorem Abreast.makeEntries_root (hs : Abreast w t s) {e : Nat × Nat} (he : e ∈ w.rest)
    (ht' : (makeEntries w.back).run t = .ok ((), t'))
    (hs' : (makeEntries (s.graph.entriesOf 0)).run s = .ok ((), s')) :
    Abreast { w with filled := True } t' s' := by
  have hrepeats := hs.settled.repeats 0 (Nat.zero_le _)
  obtain ⟨count, hcount⟩ := hrepeats.filter_eq
  cases count with
  | zero =>
      obtain ⟨front, hroot⟩ := hs.settled.root
      have hmem : (e.1 + w.offset, e.2 + w.offset) ∈ shiftEntries w.offset w.rest :=
        List.mem_map_of_mem he
      have hpos := (hs.settled.back_pos e (hs.settled.suffix.subset he)).1
      have hfilter := List.filter_eq_nil_iff.1 hcount _
        (hroot ▸ List.mem_append_right front hmem)
      exact absurd (show w.offset < e.1 + w.offset by omega) (by simpa using hfilter)
  | succ count =>
      rw [List.replicate_succ, List.flatten_cons] at hcount
      obtain ⟨first, others, hsplit, hfirst, -⟩ := List.filter_eq_append_iff.1 hcount
      rw [hsplit, makeEntries_append] at hs'
      obtain ⟨_, s₁, hmake, hs'⟩ := run_bind_eq_ok hs'
      obtain ⟨-, hs₁⟩ := agree_makeEntries hs.settled.back_pos hfirst
        (fun e he => hrepeats.le e (hsplit ▸ List.mem_append_left _ he)) _ _ hs _ _ ht' _ _ hmake
      have hready : Abreast { w with filled := True } t' s₁ :=
        { hs₁ with ready := fun _ => (isMade_of_makeEntries ht').2 }
      exact (stays_makeEntries (w := { w with filled := True }) trivial (fun e he =>
        isHarmless_of_mem hrepeats (hsplit ▸ List.mem_append_right first he)) _ _ hready
        _ _ rfl _ _ hs').2

/-- Where both constructions succeed, the nodes of the first one and those behind are made alike. -/
theorem exists_abreast (hg : Extends d front back h g) (htag : g.tagOf 0 = .map) {e : Nat × Nat}
    (he : e ∈ back) (hstr : h.tagOf e.1 = .str) (ht : run h 0 = .ok t) (hs : run g 0 = .ok s) :
    ∃ (w : Frame) (front' : List (Nat × Nat)), w.filled ∧ e ∈ w.rest ∧ w.root = .map w.back ∧
      w.root' = .map (front' ++ shiftEntries w.offset w.rest) ∧ Abreast w t s := by
  obtain ⟨tag, hroot'⟩ := hg.root'
  obtain rfl : tag = .map := by rwa [Graph.tagOf, hroot'] at htag
  obtain ⟨h', t₁, hmerge, hmake, hfill⟩ := run_eq_ok hg.root ht
  obtain ⟨g', s₁, hmerge', hmake', hfill'⟩ := run_eq_ok hroot' hs
  obtain ⟨rest, he, hsettled⟩ := Graph.isSettled_of_merge hg.unsettled he hstr hmerge hmerge'
  obtain ⟨front', hfront⟩ := hsettled.root
  have hstart := abreast_atRoot hsettled ((Graph.mergesClean _).mergeFrom_zero hmerge).1.size_eq
    ((Graph.mergesClean _).mergeFrom_zero hmerge').1.size_eq
  have hmade := hstart.makeEntries_root he hmake hmake'
  have hfilled := (hmade.setRoot (.map (h'.entriesOf 0)) (.map (g'.entriesOf 0)) trivial).fill
    trivial hfill hfill'
  exact ⟨_, front', trivial, he, rfl, congrArg Made.map hfront, hfilled⟩

end Construction

end FrontLint.Yaml
