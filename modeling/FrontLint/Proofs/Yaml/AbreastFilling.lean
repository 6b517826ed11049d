import FrontLint.Proofs.Yaml.Abreast

namespace FrontLint.Yaml

theorem Graph.Settled.of_beside {d : Nat} {back rest : List (Nat × Nat)} {g g' h h' : Graph}
    (hg : Settled d back rest h g) (hg' : Beside d h g h' g')
    (hretags : ∀ m, (h.tagOf m).Retags (h'.tagOf m)) : Settled d back rest h' g' where
  mirrors := hg'.mirrors
  arePlain := hg.arePlain.mono hretags
  back_pos := hg.back_pos
  suffix := hg.suffix
  repeats n hn := by
    rw [entriesOf_congr (hg'.node_le n hn)]
    exact hg.repeats n hn
  root := by
    rw [entriesOf_congr (hg'.node_le 0 (Nat.zero_le d))]
    exact hg.root
  items_le n hn := by
    rw [itemsOf_congr (hg'.node_le n hn)]
    exact hg.items_le n hn

namespace Construction

variable {α α' β β' : Type} {n : Nat} {s s' t t' : State} {w : Frame}
  {entries entries' : List (Nat × Nat)}

/-! ## Steps -/

theorem makeEntries_cons_eq_ok {e : Nat × Nat}
    (h : (makeEntries (e :: entries)).run s = .ok ((), s')) :
    ∃ s₁ s₂, (make e.1).run s = .ok ((), s₁) ∧ (make e.2).run s₁ = .ok ((), s₂) ∧
      (makeEntries entries).run s₂ = .ok ((), s') := by
  rw [makeEntries] at h
  obtain ⟨_, s₁, hkey, h⟩ := run_bind_eq_ok h
  obtain ⟨_, _, hget, h⟩ := run_bind_eq_ok h
  cases hget
  dsimp only at h
  split at h
  · cases h
  · obtain ⟨_, s₂, hvalue, h⟩ := run_bind_eq_ok h
    exact ⟨s₁, s₂, hkey, hvalue, h⟩

theorem mappingEntries_eq_ok (h : (mappingEntries n).run s = .ok (entries, s')) :
    (s.graph.node n).kind = .mapping ∧ ∃ g, (Graph.merge n).run s.graph = .ok ((), g) ∧
      entries = g.entriesOf n ∧ (makeEntries entries).run { s with graph := g } = .ok ((), s') := by
  rw [mappingEntries] at h
  obtain ⟨_, _, hget, h⟩ := run_bind_eq_ok h
  cases hget
  dsimp only at h
  split at h
  · rename_i hnode
    obtain ⟨x, _, hmerge, h⟩ := run_bind_eq_ok h
    obtain ⟨hmerge, rfl⟩ := run_lift_eq_ok hmerge
    obtain ⟨_, _, hset, h⟩ := run_bind_eq_ok h
    cases hset
    obtain ⟨_, _, hentries, h⟩ := run_bind_eq_ok h
    cases h
    exact ⟨by rw [hnode]; rfl, x.2, hmerge, rfl, hentries⟩
  · cases h

theorem pairEntries_cons_eq_ok {assembly : Assembly} {items : List Nat}
    (h : (pairEntries assembly (n :: items)).run s = .ok (entries, s')) :
    ∃ tag e s₁ s₂ entries', s.graph.node n = .mapping tag [e] ∧ (make e.1).run s = .ok ((), s₁) ∧
      (make e.2).run s₁ = .ok ((), s₂) ∧
      (pairEntries assembly items).run s₂ = .ok (entries', s') ∧ entries = e :: entries' := by
  rw [pairEntries] at h
  obtain ⟨_, _, hget, h⟩ := run_bind_eq_ok h
  cases hget
  split at h
  · rename_i tag k v hnode
    obtain ⟨_, s₁, hkey, h⟩ := run_bind_eq_ok h
    obtain ⟨_, s₂, hvalue, h⟩ := run_bind_eq_ok h
    obtain ⟨entries', _, hrest, h⟩ := run_bind_eq_ok h
    cases h
    exact ⟨tag, (k, v), s₁, s₂, entries', hnode, hkey, hvalue, hrest, rfl⟩
  · cases h

/-! ## Actions on both -/

/-- Two actions that, where both succeed, go from such states to such states, with results that are
related by `R`. -/
def Agree (w : Frame) (R : α → α' → Prop) (m : Build α) (m' : Build α') : Prop :=
  ∀ t s, Abreast w t s → ∀ a t', m.run t = .ok (a, t') → ∀ a' s', m'.run s = .ok (a', s') →
    R a a' ∧ Abreast w t' s'

/-- An action on the second state that leaves the first one as it is. -/
def Stays (w : Frame) (P : α' → Prop) (m' : Build α') : Prop :=
  Agree w (fun _ => P) (pure ()) m'

variable {R : α → α' → Prop} {S : β → β' → Prop} {P : α' → Prop} {Q : β' → Prop} {m : Build α}
  {m' : Build α'} {f : α → Build β} {f' : α' → Build β'}

theorem Agree.bind (h : Agree w R m m') (hf : ∀ a a', R a a' → Agree w S (f a) (f' a')) :
    Agree w S (m >>= f) (m' >>= f') := by
  intro t s hs b t' hb b' s' hb'
  obtain ⟨a, t₁, ha, hb⟩ := run_bind_eq_ok hb
  obtain ⟨a', s₁, ha', hb'⟩ := run_bind_eq_ok hb'
  obtain ⟨hR, hs₁⟩ := h t s hs a t₁ ha a' s₁ ha'
  exact hf a a' hR t₁ s₁ hs₁ b t' hb b' s' hb'

theorem agree_pure {a : α} {a' : α'} (h : R a a') : Agree w R (pure a) (pure a') := by
  intro t s hs b t' hb b' s' hb'
  cases hb
  cases hb'
  exact ⟨h, hs⟩

theorem agree_throw (fault : Fault) (m' : Build α') : Agree w R (throw fault : Build α) m' :=
  fun _ _ _ _ _ h => nomatch h

theorem Stays.bind (h : Stays w P m') (hf : ∀ a', P a' → Stays w Q (f' a')) :
    Stays w Q (m' >>= f') :=
  Agree.bind h (f := fun _ => pure ()) fun _ a' ha' => hf a' ha'

theorem stays_pure {a' : α'} (h : P a') : Stays w P (pure a') := agree_pure h

theorem stays_throw (fault : Fault) : Stays w P (throw fault : Build α') :=
  fun _ _ _ _ _ _ _ _ h => nomatch h

theorem stays_get {f' : State → Build β'} (h : ∀ t s, Abreast w t s → ∀ b s',
    (f' s).run s = .ok (b, s') → Q b ∧ Abreast w t s') : Stays w Q (get >>= f') := by
  intro t s hs _ t' ht b s' hb
  cases ht
  exact h t s hs b s' hb

theorem agree_make (hn : 1 ≤ n) :
    Agree w (fun _ _ => True) (make n) (make (n + w.offset)) :=
  fun _ _ hs _ _ ht' _ _ hs' => ⟨trivial, hs.make hn ht' hs'⟩

/-- A node that the first construction does not have, or has made already. -/
def IsHarmless (w : Frame) (n : Nat) : Prop :=
  n ≤ w.offset ∨ ∃ e ∈ w.back, n = e.1 + w.offset ∨ n = e.2 + w.offset

theorem isHarmless_of_mem (h : Graph.Repeats w.offset w.back entries) {e : Nat × Nat}
    (he : e ∈ entries) : IsHarmless w e.1 ∧ IsHarmless w e.2 := by
  rcases h.of_mem he with hle | ⟨e', he', rfl⟩
  · exact ⟨.inl hle.1, .inl hle.2⟩
  · exact ⟨.inr ⟨e', he', .inl rfl⟩, .inr ⟨e', he', .inr rfl⟩⟩

theorem stays_make (hfilled : w.filled) (hn : IsHarmless w n) :
    Stays w (fun _ => True) (make n) := by
  intro t s hs _ t' ht _ s' hs'
  cases ht
  rcases hn with hle | ⟨e, he, hn⟩
  · exact ⟨trivial, hs.make_le hle hs'⟩
  · obtain ⟨hkey, hvalue⟩ := hs.ready hfilled e he
    obtain ⟨hkeyPos, hvaluePos⟩ := hs.settled.back_pos e he
    rcases hn with rfl | rfl
    · exact ⟨trivial, hs.make_of_isMade hkeyPos hkey hs' ▸ hs⟩
    · exact ⟨trivial, hs.make_of_isMade hvaluePos hvalue hs' ▸ hs⟩

/-- The entries of a mapping are made, in the same order but for those of nodes that the first
construction does not have. -/
theorem agree_makeEntries (hentries : ∀ e ∈ entries, 1 ≤ e.1 ∧ 1 ≤ e.2)
    (hfilter : entries'.filter (fun e => w.offset < e.1) = shiftEntries w.offset entries)
    (hle : ∀ e ∈ entries', e.1 ≤ w.offset → e.2 ≤ w.offset) :
    Agree w (fun _ _ => True) (makeEntries entries) (makeEntries entries') := by
  induction entries' generalizing entries with
  | nil =>
      obtain rfl : entries = [] := List.map_eq_nil_iff.1 hfilter.symm
      exact agree_pure trivial
  | cons e' rest' ih =>
      obtain ⟨hle, hrest⟩ := List.forall_mem_cons.1 hle
      intro t s hs _ t' ht _ s' hs'
      obtain ⟨s₁, s₂, hkey', hvalue', hrun'⟩ := makeEntries_cons_eq_ok hs'
      rcases Nat.lt_or_ge w.offset e'.1 with hlt | hge
      · rw [List.filter_cons_of_pos (by simpa using hlt)] at hfilter
        obtain ⟨e, rest, rfl, he, hrestFilter⟩ := List.map_eq_cons_iff.1 hfilter.symm
        subst he
        obtain ⟨⟨hkeyPos, hvaluePos⟩, hpos⟩ := List.forall_mem_cons.1 hentries
        obtain ⟨t₁, t₂, hkey, hvalue, hrun⟩ := makeEntries_cons_eq_ok ht
        have hs₂ := (hs.make hkeyPos hkey hkey').make hvaluePos hvalue hvalue'
        exact ih hpos hrestFilter.symm hrest t₂ s₂ hs₂ _ _ hrun _ _ hrun'
      · rw [List.filter_cons_of_neg (by simpa using hge)] at hfilter
        have hs₂ := (hs.make_le hge hkey').make_le (hle hge) hvalue'
        exact ih hentries hfilter hrest t s₂ hs₂ _ _ ht _ _ hrun'

theorem stays_makeEntries (hfilled : w.filled)
    (hentries : ∀ e ∈ entries, IsHarmless w e.1 ∧ IsHarmless w e.2) :
    Stays w (fun _ => True) (makeEntries entries) := by
  induction entries with
  | nil => exact stays_pure trivial
  | cons e rest ih =>
      obtain ⟨⟨hkey, hvalue⟩, hrest⟩ := List.forall_mem_cons.1 hentries
      intro t s hs _ t' ht _ s' hs'
      obtain ⟨s₁, s₂, hkey', hvalue', hs'⟩ := makeEntries_cons_eq_ok hs'
      obtain ⟨-, hs₁⟩ := stays_make hfilled hkey t s hs () t rfl () s₁ hkey'
      obtain ⟨-, hs₂⟩ := stays_make hfilled hvalue t s₁ hs₁ () t rfl () s₂ hvalue'
      exact ih hrest t s₂ hs₂ _ _ ht _ _ hs'

theorem agree_forM_make {items : List Nat} (hitems : ∀ i ∈ items, 1 ≤ i) :
    Agree w (fun _ _ => True) (items.forM make) ((items.map (· + w.offset)).forM make) := by
  induction items with
  | nil => exact agree_pure trivial
  | cons item rest ih =>
      obtain ⟨hitem, hrest⟩ := List.forall_mem_cons.1 hitems
      exact (agree_make hitem).bind fun _ _ _ => ih hrest

theorem stays_forM_make (hfilled : w.filled) {items : List Nat}
    (hitems : ∀ i ∈ items, IsHarmless w i) : Stays w (fun _ => True) (items.forM make) := by
  induction items with
  | nil => exact stays_pure trivial
  | cons item rest ih =>
      obtain ⟨hitem, hrest⟩ := List.forall_mem_cons.1 hitems
      exact (stays_make hfilled hitem).bind fun _ _ => ih hrest

/-- Graphs that are merged. -/
theorem Abreast.setGraph (hs : Abreast w t s) {h g : Graph}
    (hg : Graph.Settled w.offset w.back w.rest h g) (hsize : h.size = t.graph.size) :
    Abreast w { t with graph := h } { s with graph := g } :=
  { hs with
    settled := hg
    size_graph := hs.size_graph.trans hsize.symm }

/-- The entries of a mapping and of the one behind. -/
def ShiftsEntries (w : Frame) (entries entries' : List (Nat × Nat)) : Prop :=
  (∀ e ∈ entries, 1 ≤ e.1 ∧ 1 ≤ e.2) ∧ entries' = shiftEntries w.offset entries

theorem agree_mappingEntries (hn : 1 ≤ n) :
    Agree w (ShiftsEntries w) (mappingEntries n) (mappingEntries (n + w.offset)) := by
  intro t s hs entries t' ht entries' s' hs'
  obtain ⟨-, h, hmerge, hentries, hmake⟩ := mappingEntries_eq_ok ht
  obtain ⟨-, g, hmerge', hentries', hmake'⟩ := mappingEntries_eq_ok hs'
  have hbeside := (Graph.mergesAlike w.offset _).mergeFrom
    ⟨hs.settled.mirrors, rfl, fun _ _ => rfl⟩ hn (by simp) hmerge hmerge'
  have hcleans := ((Graph.mergesClean _).mergeFrom_zero hmerge).1
  have hg := hs.settled.of_beside hbeside hcleans.retags
  have hpos := hg.mirrors.entriesOf_pos hn
  rw [hg.mirrors.entriesOf hn, ← hentries] at hentries'
  rw [← hentries] at hpos
  obtain ⟨-, hs'⟩ := agree_makeEntries hpos
    (by rw [hentries', Graph.filter_shiftEntries hpos])
    (fun e he hle => absurd (Graph.lt_of_mem_shiftEntries hpos e (hentries' ▸ he))
      (Nat.not_lt.2 hle)) _ _ (hs.setGraph hg hcleans.size_eq) _ _ hmake _ _ hmake'
  exact ⟨⟨hpos, hentries'⟩, hs'⟩

theorem stays_mappingEntries (hfilled : w.filled) (hn : n ≤ w.offset) :
    Stays w (fun _ => True) (mappingEntries n) := by
  intro t s hs _ t' ht entries s' hs'
  cases ht
  obtain ⟨-, g, hmerge, hentries, hmake⟩ := mappingEntries_eq_ok hs'
  have hg := (Graph.keepsSettled w.offset w.back w.rest t.graph _).mergeFrom hs.settled hn
    Graph.Repeats.nil hmerge
  have hharmless (e : Nat × Nat) (he : e ∈ entries) :=
    isHarmless_of_mem (w := w) (hg.repeats n hn) (hentries ▸ he)
  exact ⟨trivial, (stays_makeEntries hfilled hharmless _ _ (hs.setGraph hg rfl) _ _ rfl _ _
    hmake).2⟩

theorem agree_pairEntries (assembly : Assembly) {items : List Nat} (hitems : ∀ i ∈ items, 1 ≤ i) :
    Agree w (ShiftsEntries w) (pairEntries assembly items)
      (pairEntries assembly (items.map (· + w.offset))) := by
  induction items with
  | nil => exact agree_pure ⟨nofun, rfl⟩
  | cons item rest ih =>
      obtain ⟨hitem, hrest⟩ := List.forall_mem_cons.1 hitems
      intro t s hs entries t' ht entries' s' hs'
      obtain ⟨tag, e, t₁, t₂, entries, hnode, hkey, hvalue, hrun, rfl⟩ := pairEntries_cons_eq_ok ht
      obtain ⟨tag', e', s₁, s₂, entries', hnode', hkey', hvalue', hrun', rfl⟩ :=
        pairEntries_cons_eq_ok hs'
      have hshift := hs.settled.mirrors.node item hitem
      have hrefers := hs.settled.mirrors.refersFrom item hitem
      rw [hnode] at hshift hrefers
      rw [hnode'] at hshift
      cases hshift
      obtain ⟨hkeyPos, hvaluePos⟩ := hrefers e List.mem_cons_self
      have hs₂ := (hs.make hkeyPos hkey hkey').make hvaluePos hvalue hvalue'
      obtain ⟨⟨hpos, rfl⟩, hend⟩ := ih hrest t₂ s₂ hs₂ _ _ hrun _ _ hrun'
      exact ⟨⟨List.forall_mem_cons.2 ⟨⟨hkeyPos, hvaluePos⟩, hpos⟩, rfl⟩, hend⟩

theorem stays_pairEntries (hfilled : w.filled) (assembly : Assembly) {items : List Nat}
    (hitems : ∀ i ∈ items, i ≤ w.offset) :
    Stays w (fun _ => True) (pairEntries assembly items) := by
  induction items with
  | nil => exact stays_pure trivial
  | cons item rest ih =>
      obtain ⟨hitem, hrest⟩ := List.forall_mem_cons.1 hitems
      intro t s hs _ t' ht entries s' hs'
      obtain ⟨tag, e, s₁, s₂, entries', hnode, hkey, hvalue, hrun, rfl⟩ :=
        pairEntries_cons_eq_ok hs'
      have hrepeats := hs.settled.repeats item hitem
      rw [Graph.entriesOf, hnode] at hrepeats
      have hharmless := isHarmless_of_mem hrepeats List.mem_cons_self
      obtain ⟨-, hs₁⟩ := stays_make hfilled hharmless.1 t s hs () t rfl () s₁ hkey
      obtain ⟨-, hs₂⟩ := stays_make hfilled hharmless.2 t s₁ hs₁ () t rfl () s₂ hvalue
      exact ⟨trivial, (ih hrest t s₂ hs₂ _ _ ht _ _ hrun).2⟩

/-! ## Collections -/

/-- What fills a collection that a node is. -/
def contentsOf (n : Nat) (node : Node) : Build Made := do
  match node.tag, node with
  | .omap, .sequence _ items => return .pairs (← pairEntries .orderedMap items)
  | .omap, _ => throw (.assembly .orderedMap)
  | .pairs, .sequence _ items => return .pairs (← pairEntries .pairs items)
  | .pairs, _ => throw (.assembly .pairs)
  | .set, _ => return .set ((← mappingEntries n).map Prod.fst)
  | .map, _ => return .map (← mappingEntries n)
  | _, .sequence _ items =>
    items.forM make
    return .list items
  | _, _ => throw (.kind .sequence node.kind)

theorem contents_eq (n : Nat) :
    contents n = (get >>= fun s => contentsOf n (s.graph.node n)) := rfl

/-- What a node and the one behind have become. -/
def ShiftsMade (w : Frame) (m m' : Made) : Prop :=
  m' = m.shift w.offset ∧ m.RefersBehind ∧ m'.IsRegular

theorem agree_pairs {m m' : Build (List (Nat × Nat))} (h : Agree w (ShiftsEntries w) m m') :
    Agree w (ShiftsMade w) (do return .pairs (← m)) (do return .pairs (← m')) :=
  h.bind fun _ _ hentries => agree_pure ⟨congrArg Made.pairs hentries.2, hentries.1, trivial⟩

theorem agree_map {m m' : Build (List (Nat × Nat))} (h : Agree w (ShiftsEntries w) m m') :
    Agree w (ShiftsMade w) (do return .map (← m)) (do return .map (← m')) :=
  h.bind fun _ _ hentries => agree_pure ⟨congrArg Made.map hentries.2, hentries.1, trivial⟩

theorem agree_set {m m' : Build (List (Nat × Nat))} (h : Agree w (ShiftsEntries w) m m') :
    Agree w (ShiftsMade w) (do return .set ((← m).map Prod.fst))
      (do return .set ((← m').map Prod.fst)) := by
  refine h.bind fun entries _ hentries => agree_pure ⟨?_, ?_, trivial⟩
  · rw [hentries.2, shiftEntries, Made.shift, List.map_map, List.map_map]
    rfl
  · rintro i hi
    obtain ⟨e, he, rfl⟩ := List.mem_map.1 hi
    exact (hentries.1 e he).1

theorem agree_list {items : List Nat} (hitems : ∀ i ∈ items, 1 ≤ i) :
    Agree w (ShiftsMade w)
      (do
        items.forM make
        return .list items)
      (do
        (items.map (· + w.offset)).forM make
        return .list (items.map (· + w.offset))) :=
  (agree_forM_make hitems).bind fun _ _ _ => agree_pure ⟨rfl, hitems, trivial⟩

theorem agree_contentsOf (hn : 1 ≤ n) {node : Node} (hnode : node.RefersFrom 1) :
    Agree w (ShiftsMade w) (contentsOf n node)
      (contentsOf (n + w.offset) (node.shift w.offset)) := by
  have hmapping := agree_mappingEntries (w := w) hn
  cases node with
  | scalar tag text =>
      cases tag
      case set => exact agree_set hmapping
      case map => exact agree_map hmapping
      all_goals exact agree_throw _ _
  | sequence tag items =>
      cases tag
      case omap => exact agree_pairs (agree_pairEntries .orderedMap hnode)
      case pairs => exact agree_pairs (agree_pairEntries .pairs hnode)
      case set => exact agree_set hmapping
      case map => exact agree_map hmapping
      all_goals exact agree_list hnode
  | mapping tag entries =>
      cases tag
      case set => exact agree_set hmapping
      case map => exact agree_map hmapping
      all_goals exact agree_throw _ _

theorem stays_contentsOf (hfilled : w.filled) (hn : n ≤ w.offset) {node : Node}
    (hitems : ∀ tag items, node = .sequence tag items → ∀ i ∈ items, i ≤ w.offset) :
    Stays w Made.IsRegular (contentsOf n node) := by
  unfold contentsOf
  split
  · exact (stays_pairEntries hfilled _ (hitems _ _ rfl)).bind fun _ _ => stays_pure trivial
  · exact stays_throw _
  · exact (stays_pairEntries hfilled _ (hitems _ _ rfl)).bind fun _ _ => stays_pure trivial
  · exact stays_throw _
  · exact (stays_mappingEntries hfilled hn).bind fun _ _ => stays_pure trivial
  · exact (stays_mappingEntries hfilled hn).bind fun _ _ => stays_pure trivial
  · exact (stays_forM_make hfilled fun i hi => .inl (hitems _ _ rfl i hi)).bind
      fun _ _ => stays_pure trivial
  · exact stays_throw _

theorem agree_contents (hn : 1 ≤ n) :
    Agree w (ShiftsMade w) (contents n) (contents (n + w.offset)) := by
  intro t s hs m t' ht m' s' hs'
  rw [contents_eq] at ht hs'
  obtain ⟨_, _, hget, ht⟩ := run_bind_eq_ok ht
  cases hget
  obtain ⟨_, _, hget, hs'⟩ := run_bind_eq_ok hs'
  cases hget
  rw [hs.settled.mirrors.node n hn] at hs'
  exact agree_contentsOf hn (hs.settled.mirrors.refersFrom n hn) t s hs m t' ht m' s' hs'

theorem stays_contents (hfilled : w.filled) (hn : n ≤ w.offset) :
    Stays w Made.IsRegular (contents n) := by
  rw [contents_eq]
  refine stays_get fun t s hs m s' hs' => ?_
  refine stays_contentsOf hfilled hn (fun tag items hnode => ?_) t s hs () t rfl m s' hs'
  have hitems := hs.settled.items_le n hn
  rwa [Graph.itemsOf, hnode] at hitems

/-! ## Filling -/

theorem fill_cons_eq_ok {fuel : Nat} {rest : List Nat} (hwaiting : s.waiting = n :: rest)
    (h : (fill (fuel + 1)).run s = .ok ((), s')) :
    ∃ m s₁, (contents n).run { s with waiting := rest } = .ok (m, s₁) ∧
      (fill fuel).run { s₁ with made := s₁.made.setIfInBounds n (some m) } = .ok ((), s') := by
  rw [run_fill_cons hwaiting] at h
  cases hrun : (contents n).run { s with waiting := rest } with
  | error e =>
      rw [hrun] at h
      cases h
  | ok x =>
      rw [hrun] at h
      exact ⟨x.1, x.2, rfl, h⟩

/-- The collections are filled in the same order, but for those that the first construction does not
have. -/
theorem Abreast.fill {fuel fuel' : Nat} (hfilled : w.filled) (hs : Abreast w t s)
    (ht' : (Construction.fill fuel).run t = .ok ((), t'))
    (hs' : (Construction.fill fuel').run s = .ok ((), s')) : Abreast w t' s' := by
  induction fuel' generalizing fuel t s with
  | zero => cases hs'
  | succ fuel' ih =>
      cases fuel with
      | zero => cases ht'
      | succ fuel =>
          have hwaiting := hs.waiting
          cases hs₀ : s.waiting with
          | nil =>
              rw [hs₀] at hwaiting
              rw [run_fill_nil (List.map_eq_nil_iff.1 hwaiting.symm)] at ht'
              rw [run_fill_nil hs₀] at hs'
              cases ht'
              cases hs'
              exact hs
          | cons n' rest' =>
              obtain ⟨m', s₁, hcontents', hrun'⟩ := fill_cons_eq_ok hs₀ hs'
              rw [hs₀] at hwaiting
              have hzero : n' ≠ 0 ∧ 0 ∉ rest' := by
                have hzero := hs.zero_notMem
                rw [hs₀, List.mem_cons, not_or] at hzero
                exact ⟨Ne.symm hzero.1, hzero.2⟩
              rcases Nat.lt_or_ge w.offset n' with hlt | hle
              · rw [List.filter_cons_of_pos (by simpa using hlt)] at hwaiting
                obtain ⟨n, rest, ht₀, rfl, hrest⟩ := List.map_eq_cons_iff.1 hwaiting.symm
                obtain ⟨m, t₁, hcontents, hrun⟩ := fill_cons_eq_ok ht₀ ht'
                have hn : 1 ≤ n := by omega
                have hpopped : Abreast w { t with waiting := rest } { s with waiting := rest' } :=
                  { hs with waiting := hrest.symm, zero_notMem := hzero.2 }
                obtain ⟨⟨rfl, hm, hregular⟩, hs₁⟩ :=
                  agree_contents hn _ _ hpopped _ _ hcontents _ _ hcontents'
                exact ih (hs₁.setMade hn hm hregular) hrun hrun'
              · rw [List.filter_cons_of_neg (by simpa using hle)] at hwaiting
                have hpopped : Abreast w t { s with waiting := rest' } :=
                  { hs with waiting := hwaiting, zero_notMem := hzero.2 }
                obtain ⟨hregular, hs₁⟩ :=
                  stays_contents hfilled hle _ _ hpopped () t rfl _ _ hcontents'
                exact ih (hs₁.setMade_le (Nat.pos_of_ne_zero hzero.1) hle hregular) ht' hrun'

end Construction

end FrontLint.Yaml
