import FrontLint.Proofs.Yaml.BlockLevel
import FrontLint.Proofs.Yaml.FlowBalance

/-!
# Confinement

A part of a graph ends within tokens that leave no collection open, if a key follows them. A nested
part that goes on beyond such a key would have to be in a collection that is still open there.
-/

namespace FrontLint.Yaml

/-- How far tokens raise the depth of collections; flow collections count twice, so that no block
collection makes up for one. -/
def nestLevel (ts : List Token) : Int := 2 * flowLevel ts + blockLevel ts

/-- How far a token raises the depth of collections. -/
def Token.nestChange (t : Token) : Int := 2 * t.flowChange + t.blockChange

@[simp] theorem nestLevel_nil : nestLevel [] = 0 := rfl

@[simp] theorem nestLevel_cons (t : Token) (ts : List Token) :
    nestLevel (t :: ts) = t.nestChange + nestLevel ts := by
  simp only [nestLevel, Token.nestChange, flowLevel_cons, blockLevel_cons]
  omega

namespace Grammar

open Reader

variable {α β : Type} {us : List Token} {m : Read α} {f : α → Read β} {r r' : Reader} {t : Token}
  {j k b : Int}

/-- An action that changes the depth of collections by `k`, and that does not go on beyond tokens
that raise it by less than `b` with `us` behind them. -/
def Confines (us : List Token) (k b : Int) (m : Read α) (r : Reader) : Prop :=
  ∀ ts, r.tokens = ts ++ us → nestLevel ts < b →
    Runs m r (fun _ r' => ∃ ts', r'.tokens = ts' ++ us ∧ nestLevel ts = k + nestLevel ts')
      fun _ => True

theorem Confines.mono {b' : Int} (h : Confines us k b m r) (hb : b' ≤ b) : Confines us k b' m r :=
  fun ts hts hlevel => h ts hts (by omega)

theorem confines_pure (a : α) : Confines us 0 b (pure a) r :=
  fun ts hts _ => runs_pure ⟨ts, hts, by omega⟩

theorem confines_throw (fault : Fault) : Confines us k b (throw fault : Read α) r :=
  fun _ _ _ => runs_throw trivial

theorem confines_throw_bind (fault : Fault) : Confines us k b (throw fault >>= f) r :=
  fun _ _ _ => runs_throw_bind trivial

theorem Confines.zero_bind {b' : Int} (h : Confines us 0 b' m r) (hb : b ≤ b')
    (hf : ∀ a r', Confines us k b (f a) r') : Confines us k b (m >>= f) r := by
  intro ts hts hlevel
  refine (h ts hts (by omega)).bind fun a r' hr => ?_
  obtain ⟨ts', hts', hlevel'⟩ := hr
  refine (hf a r' ts' hts' (by omega)).mono (fun _ r'' hr => ?_) fun _ h => h
  obtain ⟨ts'', hts'', hlevel''⟩ := hr
  exact ⟨ts'', hts'', by omega⟩

theorem Confines.bind_pure (h : Confines us k b m r) (g : α → β) :
    Confines us k b (m >>= fun a => pure (g a)) r :=
  fun ts hts hlevel => (h ts hts hlevel).bind fun _ _ hr => runs_pure hr

theorem confines_stands (h : Stands m r) (hf : ∀ a r', Keeps r r' → Confines us k b (f a) r') :
    Confines us k b (m >>= f) r := by
  intro ts hts hlevel
  exact Runs.bind h fun a r' hr => hf a r' hr ts (hr.1.trans hts) hlevel

theorem Stands.confines (h : Stands m r) : Confines us 0 b m r :=
  fun ts hts _ => Runs.mono h (fun _ _ hr => ⟨ts, hr.1.trans hts, by omega⟩) fun _ h => h

theorem confines_get {f : Reader → Read β} (h : Confines us k b (f r) r) :
    Confines us k b (get >>= f) r := fun ts hts hlevel => runs_get (h ts hts hlevel)

theorem confines_peek {f : Token → Read β} (hf : ∀ t, r.IsAhead t → Confines us k b (f t) r) :
    Confines us k b (peek >>= f) r := by
  intro ts hts hlevel
  refine (runs_peek r).bind fun t r' h => ?_
  obtain ⟨rfl, ht⟩ := h
  exact hf t ht ts hts hlevel

section

variable (hus : us.head? = some .key)
include hus

/-- A token that is ahead is in the tokens before the key, unless there are none. -/
theorem exists_eq_cons {ts : List Token} (hts : r.tokens = ts ++ us) (ht : r.IsAhead t)
    (hkey : ts = [] → t ≠ .key) : ∃ tail, ts = t :: tail := by
  cases ts with
  | nil =>
      refine absurd ?_ (hkey rfl)
      rcases ht with ht | ⟨hnil, -⟩
      · rw [hts, List.nil_append, hus] at ht
        exact (Option.some_inj.1 ht).symm
      · rw [hts, List.nil_append] at hnil
        rw [hnil] at hus
        cases hus
  | cons u tail =>
      rcases ht with ht | ⟨hnil, -⟩
      · rw [hts] at ht
        cases ht
        exact ⟨tail, rfl⟩
      · rw [hts] at hnil
        cases hnil

/-- To go on behind the token that is seen next, if that is not the key. -/
theorem confines_drop_bind {f : Unit → Read β} (ht : r.IsAhead t) (hkey : t ≠ .key ∨ b ≤ 0)
    (hf : ∀ r', Confines us (k - t.nestChange) (b - t.nestChange) (f ()) r') :
    Confines us k b (drop >>= f) r := by
  intro ts hts hlevel
  obtain ⟨tail, rfl⟩ := exists_eq_cons hus hts ht fun hnil => hkey.resolve_right fun hb => by
    rw [hnil, nestLevel_nil] at hlevel
    omega
  rw [nestLevel_cons] at hlevel
  refine runs_modify_bind ?_
  refine (hf _ tail (by rw [hts]; rfl) (by omega)).mono (fun _ r'' hr => ?_) fun _ h => h
  obtain ⟨ts', hts', hlevel'⟩ := hr
  exact ⟨ts', hts', by rw [nestLevel_cons]; omega⟩

/-- To go on behind a token that belongs to no collection. -/
theorem confines_drop_bind_of_flat {f : Unit → Read β} (ht : r.IsAhead t)
    (hflat : t.nestChange = 0) (hkey : t ≠ .key) (hf : ∀ r', Confines us k b (f ()) r') :
    Confines us k b (drop >>= f) r := by
  refine confines_drop_bind hus ht (.inl hkey) fun r' => ?_
  rw [hflat, Int.sub_zero, Int.sub_zero]
  exact hf r'

/-- To go on behind a token of which the change of the depth is known. -/
theorem confines_accept {p : Token → Bool} {f : Bool → Read β}
    (hp : ∀ t, p t = true → t.nestChange = j ∧ (t ≠ .key ∨ b ≤ 0))
    (htrue : ∀ r', Confines us (k - j) (b - j) (f true) r')
    (hfalse : Confines us k b (f false) r) : Confines us k b (accept p >>= f) r := by
  rw [accept, bind_assoc]
  refine confines_peek fun t ht => ?_
  split
  · rename_i hpt
    rw [bind_assoc]
    refine confines_drop_bind hus ht (hp t hpt).2 fun r' => ?_
    rw [pure_bind, (hp t hpt).1]
    exact htrue r'
  · rwa [pure_bind]

theorem confines_accept_eq {f : Bool → Read β} (ht : t.nestChange = j) (hkey : t ≠ .key ∨ b ≤ 0)
    (htrue : ∀ r', Confines us (k - j) (b - j) (f true) r')
    (hfalse : Confines us k b (f false) r) : Confines us k b (accept (· == t) >>= f) r :=
  confines_accept hus (fun u hu => by rw [beq_iff_eq.1 hu]; exact ⟨ht, hkey⟩) htrue hfalse

theorem confines_accept_of_flat {f : Bool → Read β} (hflat : t.nestChange = 0) (hkey : t ≠ .key)
    (htrue : ∀ r', Confines us k b (f true) r') (hfalse : Confines us k b (f false) r) :
    Confines us k b (accept (· == t) >>= f) r := by
  refine confines_accept_eq hus hflat (.inl hkey) (fun r' => ?_) hfalse
  rw [Int.sub_zero, Int.sub_zero]
  exact htrue r'

/-- The comma between two parts of a flow collection. -/
theorem confines_separator (isFirst : Bool) {phrase : Phrase} (hm : ∀ r', Confines us k b m r') :
    Confines us k b (do
      if !isFirst then
        if !(← accept (· == .flowEntry)) then throw (.ungrammatical phrase)
      m) r := by
  dsimp only
  split
  · exact confines_accept_of_flat hus rfl (by decide) (fun r' => hm r') (confines_throw_bind _)
  · exact hm r

/-! ## Nodes -/

theorem confines_anchorPart : Confines us 0 b anchorPart r := by
  refine confines_peek fun t ht => ?_
  split
  · exact confines_drop_bind hus ht (.inl (by simp)) fun _ => confines_pure _
  · exact confines_pure _

theorem confines_tagPart : Confines us 0 b tagPart r := by
  refine confines_peek fun t ht => ?_
  split
  · exact confines_drop_bind hus ht (.inl (by simp)) fun _ => confines_pure _
  · exact confines_pure _

theorem confines_properties : Confines us 0 b properties r := by
  refine (confines_anchorPart hus).zero_bind (Int.le_refl b) fun anchor _ => ?_
  split
  · exact (confines_tagPart hus).bind_pure _
  · refine (confines_tagPart hus).zero_bind (Int.le_refl b) fun tag _ => ?_
    split
    · exact (confines_anchorPart hus).bind_pure _
    · exact confines_pure _

omit hus in
/-- A collection of which the parts raise the depth as much as the whole does. -/
theorem confines_collection {mk : List α → Node} (anchor : Option (List Char)) {m : Read (List α)}
    (hm : ∀ r', Keeps r r' → Confines us k b m r') :
    Confines us k b (do
      let i ← beginNode anchor (mk [])
      setNode i (mk (← m))
      return i) r := by
  refine confines_stands (stands_beginNode anchor _) fun i r' hr => ?_
  intro ts hts hlevel
  refine (hm r' hr ts hts hlevel).bind fun parts r'' h => ?_
  exact Runs.bind (stands_setNode i _) fun _ _ hkeep => by
    obtain ⟨ts', hts', hlevel'⟩ := h
    exact runs_pure ⟨ts', hkeep.1.trans hts', hlevel'⟩

end

/-- How far the actions on nodes within a depth go. -/
structure Confined (us : List Token) (handles : Handles) (depth : Nat) : Prop where
  node : ∀ place r, Confines us 0 1 (node handles depth place) r
  blockItems : ∀ r, Confines us (-1) 1 (blockItems handles depth) r
  indentlessEntries : ∀ r, Confines us 0 1 (indentlessEntries handles depth) r
  blockEntries : ∀ r, Confines us (-1) 0 (blockEntries handles depth) r
  blockPart : ∀ r, Confines us 0 1 (blockPart handles depth) r
  flowItems : ∀ isFirst r, Confines us (-2) 0 (flowItems handles depth isFirst) r
  flowPair : ∀ r, r.IsAhead .key → Confines us 0 0 (flowPair handles depth) r
  flowEntries : ∀ isFirst r, Confines us (-2) 0 (flowEntries handles depth isFirst) r

namespace Confined

variable {handles : Handles} {depth : Nat} (h : Confined us handles depth)
include h

/-- A part that may be empty. -/
theorem part (p : Prop) [Decidable p] (place : Place) (hb : b ≤ 1) {f : Nat → Read β}
    (hf : ∀ i r', Confines us k b (f i) r') :
    Confines us k b (if p then emptyNode >>= f else Grammar.node handles depth place >>= f) r := by
  split
  · exact confines_stands stands_emptyNode fun i r' _ => hf i r'
  · exact (h.node place r).zero_bind hb hf

variable (hus : us.head? = some .key)
include hus

/-- The value behind a key in a flow collection. -/
theorem flowValue (ends : Token → Bool) (hb : b ≤ 1) {f : Nat → Read β}
    (hf : ∀ i r', Confines us k b (f i) r') :
    Confines us k b (do
      if ← accept (· == .value) then
        let next ← peek
        if ends next then emptyNode >>= f else Grammar.node handles depth .flow >>= f
      else emptyNode >>= f) r := by
  refine confines_accept_of_flat hus rfl (by decide) (fun r' => ?_) ?_
  · rw [if_pos rfl]
    exact confines_peek fun next _ => h.part _ .flow hb hf
  · rw [if_neg (by decide)]
    exact confines_stands stands_emptyNode fun i r' _ => hf i r'

theorem node_succ (place : Place) (r : Reader) :
    Confines us 0 1 (Grammar.node handles (depth + 1) place) r := by
  rw [Grammar.node]
  refine confines_peek fun t ht => ?_
  split
  · refine confines_drop_bind hus ht (.inl (by simp)) fun r' => confines_get ?_
    split
    · exact confines_pure _
    · exact confines_throw _
  · refine (confines_properties hus).zero_bind (Int.le_refl 1) fun p r' => ?_
    refine confines_stands (stands_lift _) fun name r'' _ => confines_peek fun t ht => ?_
    split
    · exact confines_collection p.anchor fun r' _ => h.indentlessEntries r'
    · exact confines_drop_bind hus ht (.inl (by simp)) fun _ =>
        (stands_beginNode p.anchor _).confines
    · exact confines_collection p.anchor fun r' hr =>
        confines_drop_bind hus (ht.of_keeps hr) (.inl (by simp)) fun r' =>
          (h.flowItems true r').mono (by decide)
    · exact confines_collection p.anchor fun r' hr =>
        confines_drop_bind hus (ht.of_keeps hr) (.inl (by simp)) fun r' =>
          (h.flowEntries true r').mono (by decide)
    · exact confines_collection p.anchor fun r' hr =>
        confines_drop_bind hus (ht.of_keeps hr) (.inl (by simp)) fun r' =>
          (h.blockItems r').mono (by decide)
    · exact confines_collection p.anchor fun r' hr =>
        confines_drop_bind hus (ht.of_keeps hr) (.inl (by simp)) fun r' =>
          (h.blockItems r').mono (by decide)
    · exact confines_collection p.anchor fun r' hr =>
        confines_drop_bind hus (ht.of_keeps hr) (.inl (by simp)) fun r' =>
          (h.blockEntries r').mono (by decide)
    · exact confines_collection p.anchor fun r' hr =>
        confines_drop_bind hus (ht.of_keeps hr) (.inl (by simp)) fun r' =>
          (h.blockEntries r').mono (by decide)
    · split
      · exact (stands_beginNode p.anchor _).confines
      · exact confines_throw _

theorem blockItems_succ (r : Reader) :
    Confines us (-1) 1 (Grammar.blockItems handles (depth + 1)) r := by
  rw [Grammar.blockItems]
  refine confines_accept hus (j := 0) (fun t ht => ?_) (fun r' => ?_) ?_
  · rw [beq_iff_eq.1 ht]
    exact ⟨rfl, .inl (by decide)⟩
  · rw [if_pos rfl]
    refine confines_peek fun next _ => h.part _ .block (Int.le_refl 1) fun i r' => ?_
    exact (h.blockItems r').bind_pure _
  · rw [if_neg (by decide)]
    refine confines_accept_eq hus rfl (.inl (by decide)) (fun r' => ?_) ?_
    · exact confines_pure _
    · exact confines_throw _

theorem indentlessEntries_succ (r : Reader) :
    Confines us 0 1 (Grammar.indentlessEntries handles (depth + 1)) r := by
  rw [Grammar.indentlessEntries]
  refine confines_accept hus (j := 0) (fun t ht => ?_) (fun r' => ?_) ?_
  · rw [beq_iff_eq.1 ht]
    exact ⟨rfl, .inl (by decide)⟩
  · refine confines_peek fun next _ => h.part _ .block (Int.le_refl 1) fun i r' => ?_
    exact (h.indentlessEntries r').bind_pure _
  · exact confines_pure _

theorem blockEntries_succ (r : Reader) :
    Confines us (-1) 0 (Grammar.blockEntries handles (depth + 1)) r := by
  have hrest (i j : Nat) (r : Reader) : Confines us (-1) 0
      (do return (i, j) :: (← Grammar.blockEntries handles depth)) r :=
    (h.blockEntries r).bind_pure _
  rw [Grammar.blockEntries]
  refine confines_accept_eq hus rfl (.inr (Int.le_refl 0)) (fun r' => ?_) ?_
  · refine (h.blockPart r').zero_bind (by decide) fun i r' =>
      confines_accept_eq hus rfl (.inl (by decide)) (fun r' => ?_) ?_
    · exact (h.blockPart r').zero_bind (by decide) fun j r' => hrest i j r'
    · exact confines_stands stands_emptyNode fun j r' _ => hrest i j r'
  · refine confines_accept_eq hus rfl (.inl (by decide)) (fun r' => ?_) ?_
    · exact confines_pure _
    · exact confines_throw _

omit hus in
theorem blockPart_succ (r : Reader) :
    Confines us 0 1 (Grammar.blockPart handles (depth + 1)) r := by
  rw [Grammar.blockPart]
  refine confines_peek fun t _ => ?_
  split
  · exact stands_emptyNode.confines
  · exact h.node .blockEntry r

theorem flowItems_succ (isFirst : Bool) (r : Reader) :
    Confines us (-2) 0 (Grammar.flowItems handles (depth + 1) isFirst) r := by
  rw [Grammar.flowItems]
  refine confines_accept_eq hus rfl (.inl (by decide)) (fun r' => confines_pure _) ?_
  refine confines_separator hus isFirst fun r' => ?_
  refine confines_peek fun t ht => ?_
  split
  · intro ts hts hlevel
    refine (h.flowPair r' ht ts hts hlevel).bind fun i r'' hr => ?_
    obtain ⟨ts', hts', hlevel'⟩ := hr
    rw [hlevel', Int.zero_add] at hlevel ⊢
    exact ((h.flowItems false r'').bind_pure _) ts' hts' hlevel
  · exact confines_drop_bind hus ht (.inl (by simp)) fun r' => confines_pure _
  · exact (h.node .flow r').zero_bind (by decide) fun i r' =>
      (h.flowItems false r').bind_pure _

theorem flowPair_succ (r : Reader) (hr : r.IsAhead .key) :
    Confines us 0 0 (Grammar.flowPair handles (depth + 1)) r := by
  rw [Grammar.flowPair]
  refine confines_stands (stands_addNode _) fun i r' hkeep => ?_
  refine confines_drop_bind hus (hr.of_keeps hkeep) (.inr (Int.le_refl 0)) fun r' => ?_
  refine confines_peek fun next _ => h.part _ .flow (by decide) fun k r' => ?_
  refine h.flowValue hus _ (by decide) fun v r' => confines_peek fun _ _ => ?_
  exact confines_stands (stands_setNode i _) fun _ _ _ => confines_pure _

theorem flowEntries_succ (isFirst : Bool) (r : Reader) :
    Confines us (-2) 0 (Grammar.flowEntries handles (depth + 1) isFirst) r := by
  have hrest (i j : Nat) (r : Reader) : Confines us (-2) 0
      (do return (i, j) :: (← Grammar.flowEntries handles depth false)) r :=
    (h.flowEntries false r).bind_pure _
  rw [Grammar.flowEntries]
  refine confines_accept_eq hus rfl (.inl (by decide)) (fun r' => confines_pure _) ?_
  refine confines_separator hus isFirst fun r' => ?_
  refine confines_peek fun t ht => ?_
  split
  · refine confines_drop_bind hus ht (.inr (Int.le_refl 0)) fun r' => ?_
    refine confines_peek fun next _ => h.part _ .flow (by decide) fun i r' => ?_
    exact h.flowValue hus _ (by decide) fun j r' => hrest i j r'
  · exact confines_drop_bind hus ht (.inl (by simp)) fun r' => confines_pure _
  · refine (h.node .flow r').zero_bind (by decide) fun i r' => confines_peek fun _ _ => ?_
    exact confines_stands stands_emptyNode fun j r' _ => hrest i j r'

end Confined

theorem confined (hus : us.head? = some .key) (handles : Handles) (depth : Nat) :
    Confined us handles depth := by
  induction depth with
  | zero => constructor <;> intros <;> exact confines_throw _
  | succ depth ih =>
      exact {
        node := ih.node_succ hus
        blockItems := ih.blockItems_succ hus
        indentlessEntries := ih.indentlessEntries_succ hus
        blockEntries := ih.blockEntries_succ hus
        blockPart := ih.blockPart_succ
        flowItems := ih.flowItems_succ hus
        flowPair := ih.flowPair_succ hus
        flowEntries := ih.flowEntries_succ hus }

end Grammar

end FrontLint.Yaml
