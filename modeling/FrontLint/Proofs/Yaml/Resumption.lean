import FrontLint.Proofs.Yaml.Confinement
import FrontLint.Proofs.Yaml.References

/-!
# Resumption

Where the tokens of a block have opened one block collection and a key follows, the block is a
mapping, and the key begins one of its entries: the entries before it have been read from the tokens
before it, and the reader goes on with the key.
-/

namespace FrontLint.Yaml

namespace Reader

/-- A closed state with `ts` to come before `us`, some nodes more than another one, and the same
fault behind the last token. -/
structure IsBefore (us ts : List Token) (r r' : Reader) : Prop where
  tokens_eq : r'.tokens = ts ++ us
  isClosed : r'.IsClosed
  size_le : r.nodes.size ≤ r'.nodes.size
  fault_eq : r'.fault = r.fault

theorem IsBefore.trans {us ts ts' : List Token} {r r' r'' : Reader} (h : IsBefore us ts r r')
    (h' : IsBefore us ts' r' r'') : IsBefore us ts' r r'' :=
  ⟨h'.tokens_eq, h'.isClosed, h.size_le.trans h'.size_le, h'.fault_eq.trans h.fault_eq⟩

theorem isBefore_refl {us ts : List Token} {r : Reader} (hr : r.IsClosed)
    (hts : r.tokens = ts ++ us) : IsBefore us ts r r := ⟨hts, hr, Nat.le_refl _, rfl⟩

theorem IsBefore.drop {us ts : List Token} {t : Token} {r r' : Reader}
    (h : IsBefore us (t :: ts) r r') :
    IsBefore us ts r { r' with tokens := r'.tokens.tail } where
  tokens_eq := by rw [h.tokens_eq]; rfl
  isClosed := ⟨h.isClosed.nodes, h.isClosed.anchors⟩
  size_le := h.size_le
  fault_eq := h.fault_eq

end Reader

namespace Grammar

open Reader

variable {α : Type} {us ts : List Token} {m : Read α} {r r₁ r' : Reader} {handles : Handles}
  {k b : Int} {depth : Nat}

/-- The entries of a block mapping that are read from a state on are those before the tokens `us`,
and those that are read from there on. -/
def Resumes (us : List Token) (handles : Handles) (r : Reader) (entries : List (Nat × Nat))
    (r' : Reader) : Prop :=
  ∃ depth r₁ front back, IsBefore us [] r r₁ ∧
    (∀ e ∈ front, e.1 < r₁.nodes.size ∧ e.2 < r₁.nodes.size) ∧
    (blockEntries handles depth).run r₁ = .ok (back, r') ∧ entries = front ++ back

theorem runs_accept (p : Token → Bool) (r : Reader) :
    Runs (accept p) r (fun found r' => found = false ∧ r' = r ∨
      found = true ∧ ∃ t, p t = true ∧ r.IsAhead t ∧ r' = { r with tokens := r.tokens.tail })
      fun _ => True := by
  rw [accept]
  refine (runs_peek r).bind fun t r' h => ?_
  obtain ⟨rfl, ht⟩ := h
  split
  · rename_i hpt
    exact runs_modify_bind (runs_pure (.inr ⟨rfl, t, hpt, ht, rfl⟩))
  · exact runs_pure (.inl ⟨rfl, rfl⟩)

/-- A part of a mapping ends before the tokens `us`. -/
theorem runs_blockPart (hus : us.head? = some .key) (handles : Handles) (depth : Nat)
    (hr : r.IsClosed) (hts : r.tokens = ts ++ us) (hlevel : nestLevel ts ≤ 0) :
    Runs (blockPart handles depth) r (fun i r' => i < r'.nodes.size ∧
      ∃ ts', IsBefore us ts' r r' ∧ nestLevel ts' ≤ 0) fun _ => True := by
  have hconfined := (confined hus handles depth).blockPart r ts hts (by omega)
  have hrefers := (refers handles depth).blockPart 0 r hr (Nat.zero_le _)
  have hbalanced := (balanced handles depth).blockPart r
  refine (hconfined.and (hrefers.and hbalanced)).mono (fun x hx => ?_) fun _ _ => trivial
  obtain ⟨⟨ts', hts', hlevel'⟩, ⟨hclosed, hsize, hi⟩, hfault, -⟩ := hx
  exact ⟨hi, ts', ⟨hts', hclosed, hsize, hfault⟩, by omega⟩

theorem runs_emptyNode (h : IsBefore us ts r r₁) :
    Runs emptyNode r₁ (fun i r₂ => i < r₂.nodes.size ∧ r₁.nodes.size ≤ r₂.nodes.size ∧
      IsBefore us ts r r₂) fun _ => True := by
  have hkeeps : Runs emptyNode r₁ (fun _ r₂ => Keeps r₁ r₂) fun _ => True := stands_emptyNode
  refine ((closes_emptyNode r₁ h.isClosed (Nat.zero_le _)).and hkeeps).mono ?_ fun _ _ => trivial
  rintro x ⟨⟨hclosed, hsize, hi⟩, htokens, hfault⟩
  exact ⟨hi, hsize, h.trans ⟨by rw [htokens, h.tokens_eq], hclosed, hsize, hfault⟩⟩

/-- How the entries of a mapping end that is open before the tokens `us`: before these, or behind
the entry that they begin. -/
def EndsOrResumes (us : List Token) (handles : Handles) (r : Reader) (entries : List (Nat × Nat))
    (r' : Reader) : Prop :=
  (∃ ts, r'.tokens = ts ++ us) ∨ Resumes us handles r entries r'

/-- An entry in front of the others. -/
theorem runs_cons_entries {i j : Nat} (h : IsBefore us ts r r₁) (hi : i < r₁.nodes.size)
    (hj : j < r₁.nodes.size)
    (hrest : Runs (blockEntries handles depth) r₁ (EndsOrResumes us handles r₁) fun _ => True) :
    Runs (do return (i, j) :: (← blockEntries handles depth)) r₁ (EndsOrResumes us handles r)
      fun _ => True := by
  refine hrest.bind fun entries r' hr' => runs_pure ?_
  refine hr'.imp_right fun hresumes => ?_
  obtain ⟨depth', r₂, front, back, hr₂, hfront, hrun, heq⟩ := hresumes
  refine ⟨depth', r₂, (i, j) :: front, back, h.trans hr₂, ?_, hrun, by simp [heq]⟩
  exact List.forall_mem_cons.2 ⟨⟨hi.trans_le hr₂.size_le, hj.trans_le hr₂.size_le⟩, hfront⟩

/-- The entries of a mapping that is open before the tokens `us`. -/
theorem runs_blockEntries (hus : us.head? = some .key) (handles : Handles) (depth : Nat)
    (hr : r.IsClosed) (hts : r.tokens = ts ++ us) (hlevel : nestLevel ts ≤ 0) :
    Runs (blockEntries handles depth) r (EndsOrResumes us handles r) fun _ => True := by
  induction depth generalizing r ts with
  | zero => exact runs_throw trivial
  | succ depth ih =>
      cases ts with
      | nil =>
          -- Nothing of the mapping is left before `us`: what is read is what `us` begins.
          refine runs_of_eq_ok fun entries r' heq => .inr ?_
          exact ⟨depth + 1, r, [], entries, ⟨hts, hr, Nat.le_refl _, rfl⟩, List.forall_mem_nil _,
            heq, rfl⟩
      | cons t ts =>
          rw [blockEntries]
          refine (runs_accept _ r).bind fun found r' hfound => ?_
          rcases hfound with ⟨rfl, rfl⟩ | ⟨rfl, u, hu, hahead, rfl⟩
          · rw [if_neg Bool.false_ne_true]
            refine (runs_accept _ r').bind fun found r'' hfound => ?_
            rcases hfound with ⟨rfl, -⟩ | ⟨rfl, -, -, -, rfl⟩
            · exact runs_throw trivial
            · exact runs_pure (.inl ⟨ts, by rw [hts]; rfl⟩)
          · rw [if_pos rfl]
            obtain ⟨_, hcons⟩ :=
              exists_eq_cons hus hts hahead fun h => absurd h (List.cons_ne_nil _ _)
            obtain ⟨rfl, rfl⟩ := List.cons.inj hcons
            have hr₀ := (isBefore_refl hr hts).drop
            rw [nestLevel_cons, beq_iff_eq.1 hu, show Token.key.nestChange = 0 from rfl,
              Int.zero_add] at hlevel
            refine (runs_blockPart hus handles depth hr₀.isClosed hr₀.tokens_eq hlevel).bind
              fun i r₁ hi => ?_
            obtain ⟨hi, ts₁, hr₁, hlevel₁⟩ := hi
            refine (runs_accept _ r₁).bind fun found r₂ hfound => ?_
            rcases hfound with ⟨rfl, rfl⟩ | ⟨rfl, u, hu, hahead, rfl⟩
            · refine (runs_emptyNode (hr₀.trans hr₁)).bind fun j r₃ hr₃ => ?_
              obtain ⟨hj, hsize, hr₃⟩ := hr₃
              exact runs_cons_entries hr₃ (hi.trans_le hsize) hj
                (ih hr₃.isClosed hr₃.tokens_eq hlevel₁)
            · obtain ⟨ts₂, rfl⟩ := exists_eq_cons hus hr₁.tokens_eq hahead fun _ => by
                rw [beq_iff_eq.1 hu]
                decide
              rw [nestLevel_cons, beq_iff_eq.1 hu, show Token.value.nestChange = 0 from rfl,
                Int.zero_add] at hlevel₁
              refine (runs_blockPart hus handles depth hr₁.drop.isClosed hr₁.drop.tokens_eq
                hlevel₁).bind fun j r₃ hj => ?_
              obtain ⟨hj, ts₃, hr₃, hlevel₃⟩ := hj
              exact runs_cons_entries ((hr₀.trans hr₁.drop).trans hr₃) (hi.trans_le hr₃.size_le)
                hj (ih hr₃.isClosed hr₃.tokens_eq hlevel₃)

/-! ## The first node -/

theorem runs_beginNode (anchor : Option (List Char)) (node : Node) (r : Reader) :
    Runs (beginNode anchor node) r (fun i r' => i = r.nodes.size ∧ r'.nodes = r.nodes.push node ∧
      Keeps r r') fun _ => True := by
  have hadd : Runs (addNode node) r (fun i r' => i = r.nodes.size ∧
      r'.nodes = r.nodes.push node ∧ Keeps r r') fun _ => True :=
    runs_get (runs_set (runs_pure ⟨rfl, rfl, rfl, rfl⟩))
  cases anchor with
  | none => exact hadd
  | some name =>
      refine runs_get ?_
      split
      · exact runs_throw_bind trivial
      · exact Runs.bind hadd fun i r' hr => runs_modify_bind (runs_pure hr)

/-- What is known of the first node if the tokens before `us` have opened one block collection: it
ends before `us`, or it is a mapping in which the reader goes on with `us`. -/
def IsRoot (us : List Token) (handles : Handles) (fault : Option Fault) (i : Nat) (r' : Reader) :
    Prop :=
  (∃ ts, r'.tokens = ts ++ us) ∨
    i = 0 ∧ ∃ tag r₀ entries r₁, r₀.nodes.size = 1 ∧ r₀.fault = fault ∧
      Resumes us handles r₀ entries r₁ ∧
        r' = { r₁ with nodes := r₁.nodes.setIfInBounds 0 (.mapping tag entries) }

theorem isRoot_of_confines (hm : Confines us k 2 m r) (hts : r.tokens = ts ++ us)
    (hlevel : nestLevel ts = 1) :
    Runs m r (fun _ r' => ∃ ts', r'.tokens = ts' ++ us) fun _ => True :=
  (hm ts hts (by omega)).mono (fun _ _ h => ⟨h.choose, h.choose_spec.1⟩) fun _ h => h

/-- A mapping that begins before `us`. -/
theorem runs_blockMapping (hus : us.head? = some .key) (handles : Handles) (depth : Nat)
    (hr : r.IsClosed) (hnodes : r.nodes = #[]) (hts : r.tokens = ts ++ us)
    (hlevel : nestLevel ts = 1) (hahead : r.IsAhead .blockMappingStart) (tag : Tag)
    (anchor : Option (List Char)) :
    Runs (do
      let i ← beginNode anchor (.mapping tag [])
      setNode i (.mapping tag (← do
        drop
        blockEntries handles depth))
      return i) r (IsRoot us handles r.fault) fun _ => True := by
  have hbegin : Runs (beginNode anchor (.mapping tag [])) r (fun i r' => r'.IsClosed ∧
      i = r.nodes.size ∧ r'.nodes = r.nodes.push (.mapping tag []) ∧ Keeps r r') fun _ => True :=
    ((closes_beginNode (n := 0) (by simp) anchor r hr (Nat.zero_le _)).and
      (runs_beginNode anchor _ r)).mono (fun _ h => ⟨h.1.1, h.2⟩) fun _ _ => trivial
  obtain ⟨ts', rfl⟩ := exists_eq_cons hus hts hahead fun _ => by decide
  rw [nestLevel_cons, show Token.blockMappingStart.nestChange = 1 from rfl] at hlevel
  refine hbegin.bind fun i r₀ h => ?_
  obtain ⟨hr₀, rfl, hnodes₀, htokens₀, hfault₀⟩ := h
  rw [hnodes] at hnodes₀ ⊢
  have hdrop := (isBefore_refl hr₀ (htokens₀.trans hts)).drop
  refine runs_modify_bind ((runs_blockEntries hus handles depth hdrop.isClosed hdrop.tokens_eq
    (by omega)).bind fun entries r₁ h => ?_)
  refine runs_modify_bind (runs_pure ?_)
  refine h.imp_right fun hresumes => ⟨rfl, tag, _, entries, r₁, ?_, ?_, hresumes, rfl⟩
  · simp [hnodes₀]
  · exact hfault₀

/-- The properties of the first node are read before the tokens `us`. -/
theorem runs_properties (hus : us.head? = some .key) (hr : r.IsClosed) (hnodes : r.nodes = #[])
    (hts : r.tokens = ts ++ us) (hlevel : nestLevel ts = 1) :
    Runs properties r (fun _ r₁ => r₁.IsClosed ∧ r₁.nodes = #[] ∧ r₁.fault = r.fault ∧
      ∃ ts₁, r₁.tokens = ts₁ ++ us ∧ nestLevel ts₁ = 1) fun _ => True := by
  have hconfines := (confines_properties hus (b := 2) : Confines us 0 2 properties r) ts hts
    (by omega)
  have hbalances : Runs properties r (fun _ r₁ => Passes 0 r r₁) fun _ => True :=
    balances_properties
  refine ((inspects_properties r).and (hconfines.and hbalances)).mono (fun x hx => ?_)
    fun _ _ => trivial
  obtain ⟨⟨hnodes₁, hanchors₁⟩, ⟨ts₁, hts₁, hlevel₁⟩, hfault₁, -⟩ := hx
  exact ⟨hr.of_eq hnodes₁ hanchors₁, hnodes₁.trans hnodes, hfault₁, ts₁, hts₁, by omega⟩

theorem runs_firstNode (hus : us.head? = some .key) (handles : Handles) (depth : Nat)
    (hr : r.IsClosed) (hnodes : r.nodes = #[]) (hts : r.tokens = ts ++ us)
    (hlevel : nestLevel ts = 1) :
    Runs (node handles depth .block) r (IsRoot us handles r.fault) fun _ => True := by
  cases depth with
  | zero => exact runs_throw trivial
  | succ depth =>
      rw [node]
      refine (runs_peek r).bind fun t r' h => ?_
      obtain ⟨rfl, ht⟩ := h
      split
      · refine (isRoot_of_confines (k := 0) ?_ hts hlevel).mono (fun _ _ => .inl) fun _ h => h
        refine confines_drop_bind hus ht (.inl (by simp)) fun r' => confines_get ?_
        split
        · exact confines_pure _
        · exact confines_throw _
      · refine (runs_properties hus hr hnodes hts hlevel).bind fun p r₁ h => ?_
        obtain ⟨hr₁, hnodes₁, hfault₁, ts₁, hts₁, hlevel₁⟩ := h
        rw [← hfault₁]
        have hwithin {m : Read Nat} (hm : Confines us 0 2 m r₁) :
            Runs m r₁ (IsRoot us handles r₁.fault) fun _ => True :=
          (isRoot_of_confines hm hts₁ hlevel₁).mono (fun _ _ => .inl) fun _ h => h
        refine Runs.bind (runs_lift (Meets.of_forall fun _ => rfl) :
          Runs _ r₁ (fun _ r₂ => r₂ = r₁) _) fun name r₂ h => ?_
        obtain rfl := h
        refine (runs_peek r₂).bind fun t r₃ h => ?_
        obtain ⟨rfl, ht⟩ := h
        split
        · contradiction
        · exact hwithin (confines_drop_bind hus ht (.inl (by simp)) fun _ =>
            (stands_beginNode p.anchor _).confines)
        · exact hwithin (confines_collection p.anchor fun r' hr =>
            confines_drop_bind hus (ht.of_keeps hr) (.inl (by simp)) fun r' =>
              ((confined hus handles depth).flowItems true r').mono (by decide))
        · exact hwithin (confines_collection p.anchor fun r' hr =>
            confines_drop_bind hus (ht.of_keeps hr) (.inl (by simp)) fun r' =>
              ((confined hus handles depth).flowEntries true r').mono (by decide))
        · exact hwithin (confines_collection p.anchor fun r' hr =>
            confines_drop_bind hus (ht.of_keeps hr) (.inl (by simp)) fun r' =>
              ((confined hus handles depth).blockItems r').mono (by decide))
        · contradiction
        · exact runs_blockMapping hus handles depth hr₁ hnodes₁ hts₁ hlevel₁ ht _ p.anchor
        · contradiction
        · split
          · exact hwithin (stands_beginNode p.anchor _).confines
          · exact runs_throw trivial

/-! ## Documents -/

theorem inspects_directives (fuel : Nat) (versioned : Bool) (handles : Handles) :
    Inspects (directives fuel versioned handles) := by
  induction fuel generalizing versioned handles with
  | zero => exact inspects_pure _
  | succ fuel ih =>
      rw [directives]
      refine inspects_peek.trans fun t => ?_
      split
      · refine inspects_drop.trans fun _ => ?_
        dsimp only
        split
        · exact inspects_throw_bind _
        · split
          · exact inspects_throw_bind _
          · exact ih true handles
      · refine inspects_drop.trans fun _ => ?_
        dsimp only
        split
        · exact inspects_throw_bind _
        · exact ih versioned _
      · exact inspects_drop.trans fun _ => ih versioned handles
      · exact inspects_pure _

theorem inspects_skipDocumentEnds (fuel : Nat) : Inspects (skipDocumentEnds fuel) := by
  induction fuel with
  | zero => exact inspects_pure _
  | succ fuel ih =>
      refine (inspects_accept _).trans fun found => ?_
      split
      · exact ih
      · exact inspects_pure _

theorem inspects_documentStart? (fuel : Nat) : Inspects (documentStart? fuel) := by
  rw [documentStart?]
  refine (inspects_skipDocumentEnds fuel).trans fun _ => inspects_peek.trans fun t => ?_
  split
  · exact inspects_pure _
  · refine (inspects_directives fuel false []).trans fun handles => inspects_peek.trans fun t => ?_
    split
    · exact inspects_drop.trans fun _ => inspects_pure _
    · exact inspects_throw _

section

variable (hus : us.head? = some .key)
include hus

theorem confines_directives (fuel : Nat) (versioned : Bool) (handles : Handles) (r : Reader) :
    Confines us 0 b (directives fuel versioned handles) r := by
  induction fuel generalizing versioned handles r with
  | zero => exact confines_pure _
  | succ fuel ih =>
      rw [directives]
      refine confines_peek fun t ht => ?_
      split
      · refine confines_drop_bind_of_flat hus ht rfl (by simp) fun r' => ?_
        dsimp only
        split
        · exact confines_throw_bind _
        · split
          · exact confines_throw_bind _
          · exact ih true handles r'
      · refine confines_drop_bind_of_flat hus ht rfl (by simp) fun r' => ?_
        dsimp only
        split
        · exact confines_throw_bind _
        · exact ih versioned _ r'
      · exact confines_drop_bind_of_flat hus ht rfl (by simp) fun r' =>
          ih versioned handles r'
      · exact confines_pure _

theorem confines_skipDocumentEnds (fuel : Nat) (r : Reader) :
    Confines us 0 b (skipDocumentEnds fuel) r := by
  induction fuel generalizing r with
  | zero => exact confines_pure _
  | succ fuel ih =>
      exact confines_accept_of_flat hus rfl (by decide) (fun r' => ih r') (confines_pure _)

theorem confines_documentStart? (fuel : Nat) (r : Reader) :
    Confines us 0 b (documentStart? fuel) r := by
  rw [documentStart?]
  refine (confines_skipDocumentEnds hus fuel r).zero_bind (Int.le_refl b) fun _ r' =>
    confines_peek fun t _ => ?_
  split
  · exact confines_pure _
  · refine (confines_directives hus fuel false [] r').zero_bind (Int.le_refl b) fun handles r' => ?_
    refine confines_peek fun t ht => ?_
    split
    · rename_i hstart
      rw [beq_iff_eq.1 hstart] at ht
      exact confines_drop_bind_of_flat hus ht rfl (by decide) fun r' => confines_pure _
    · exact confines_throw _

end

/-- Tokens that define no tag handle. -/
def DefinesNoHandle (ts : List Token) : Prop :=
  ∀ name expansion, .directive (.handle name expansion) ∉ ts

/-- Whether a token defines a tag handle. -/
def isHandle : Token → Bool
  | .directive (.handle _ _) => true
  | _ => false

instance (ts : List Token) : Decidable (DefinesNoHandle ts) :=
  decidable_of_iff (ts.all (!isHandle ·) = true) <| by
    rw [List.all_eq_true]
    refine ⟨fun h name expansion hmem => absurd (h _ hmem) (by simp [isHandle]), fun h t ht => ?_⟩
    rw [Bool.not_eq_true']
    refine Bool.eq_false_iff.2 fun htrue => ?_
    rw [isHandle.eq_def] at htrue
    split at htrue
    · exact h _ _ ht
    · cases htrue

theorem DefinesNoHandle.of_passes (h : DefinesNoHandle r.tokens) (hr : Passes k r r') :
    DefinesNoHandle r'.tokens := by
  obtain ⟨-, front, htokens, -⟩ := hr
  rw [htokens] at h
  exact fun name expansion hmem => h name expansion (List.mem_append_right front hmem)

theorem runs_directives (fuel : Nat) (versioned : Bool) (handles : Handles)
    (h : DefinesNoHandle r.tokens) :
    Runs (directives fuel versioned handles) r (fun handles' _ => handles' = handles)
      fun _ => True := by
  induction fuel generalizing versioned r with
  | zero => exact runs_pure rfl
  | succ fuel ih =>
      rw [directives]
      refine (runs_peek r).bind fun t r' h => ?_
      obtain ⟨rfl, ht⟩ := h
      have hdrop : DefinesNoHandle r'.tokens.tail :=
        fun name expansion hmem => h name expansion (List.mem_of_mem_tail hmem)
      split
      · refine runs_modify_bind ?_
        dsimp only
        split
        · exact runs_throw_bind trivial
        · split
          · exact runs_throw_bind trivial
          · exact ih true hdrop
      · rcases ht with ht | ⟨-, -, ht⟩
        · exact absurd (List.mem_of_mem_head? ht) (h _ _)
        · cases ht
      · exact runs_modify_bind (ih versioned hdrop)
      · exact runs_pure rfl

theorem runs_documentStart?_handles (fuel : Nat) (h : DefinesNoHandle r.tokens) :
    Runs (documentStart? fuel) r (fun handles? _ => ∀ handles ∈ handles?, handles = defaultHandles)
      fun _ => True := by
  rw [documentStart?]
  refine Runs.bind (balances_skipDocumentEnds fuel r) fun _ r' hr' => ?_
  refine (runs_peek r').bind fun t r'' h' => ?_
  obtain ⟨rfl, -⟩ := h'
  split
  · exact runs_pure fun _ h => absurd h (Option.not_mem_none _)
  · refine (runs_directives fuel false [] (h.of_passes hr')).bind fun handles r₁ hhandles => ?_
    refine (runs_peek r₁).bind fun t r₂ _ => ?_
    split
    · refine runs_modify_bind (runs_pure fun handles' hmem => ?_)
      rw [← Option.some_inj.1 hmem, hhandles, List.nil_append]
    · exact runs_throw trivial

/-- What is checked behind the first document: that there is no other one. -/
def checkEnd (fuel : Nat) (root : Option Nat) : Read (Option Nat) := do
  if root.isSome then
    let _ ← accept (· == .documentEnd)
    if (← documentStart? fuel).isSome then throw .secondDocument
  return root

theorem inspects_checkEnd (fuel : Nat) (root : Option Nat) : Inspects (checkEnd fuel root) := by
  rw [checkEnd]
  dsimp only
  split
  · refine (inspects_accept _).trans fun _ => (inspects_documentStart? fuel).trans fun second => ?_
    split
    · exact inspects_throw_bind _
    · exact inspects_pure _
  · exact inspects_pure _

theorem runs_checkEnd (fuel : Nat) (root : Option Nat) (r : Reader) :
    Runs (checkEnd fuel root) r (fun root' _ => root' = root) fun _ => True := by
  rw [checkEnd]
  dsimp only
  split
  · refine Runs.bind (inspects_accept _ r) fun _ r' _ =>
      Runs.bind (inspects_documentStart? fuel r') fun second r'' _ => ?_
    split
    · exact runs_throw_bind trivial
    · exact runs_pure rfl
  · exact runs_pure rfl

/-- Tokens that another document has not ended do not end. -/
theorem not_isAhead_streamEnd (hus : us.head? = some .key) (hend : .streamEnd ∉ ts)
    {ts' : List Token} (hts : r.tokens = ts ++ us) (hts' : r'.tokens = ts' ++ us)
    (hpasses : Passes k r r') : ¬ r'.IsAhead .streamEnd := by
  intro hahead
  obtain ⟨-, front, hfront, -⟩ := hpasses
  obtain ⟨tail, rfl⟩ := exists_eq_cons hus hts' hahead fun _ => by decide
  rw [hts, hts', ← List.append_assoc] at hfront
  rw [List.append_cancel_right hfront] at hend
  exact hend (List.mem_append_right front List.mem_cons_self)

theorem confines_checkEnd (hus : us.head? = some .key) (fuel : Nat) (root : Option Nat)
    (r : Reader) : Confines us 0 b (checkEnd fuel root) r := by
  have hsecond (r : Reader) : Confines us 0 b (do
      if (← documentStart? fuel).isSome then throw .secondDocument
      return root) r :=
    (confines_documentStart? hus fuel r).zero_bind (Int.le_refl b) fun second r' => by
      dsimp only
      split
      · exact confines_throw_bind _
      · exact confines_pure _
  rw [checkEnd]
  dsimp only
  split
  · exact confines_accept_of_flat hus rfl (by decide) (fun r' => hsecond r') (hsecond r)
  · exact confines_pure _

/-- The block does not end before `us`. -/
theorem runs_checkEnd_of_tokens_eq (hus : us.head? = some .key) (hend : .streamEnd ∉ ts)
    (hts : r.tokens = ts ++ us) (fuel i : Nat) :
    Runs (checkEnd fuel (some i)) r (fun _ _ => False) fun _ => True := by
  have hconfines := confines_checkEnd hus fuel (some i) r ts hts (Int.lt_succ (nestLevel ts))
  have hpasses : Runs (checkEnd fuel (some i)) r (fun _ r' => Passes 0 r r') fun _ => True :=
    balances_secondDocument fuel (some i) r
  have hahead : Runs (checkEnd fuel (some i)) r (fun _ r' => r'.IsAhead .streamEnd)
      fun _ => True := runs_secondDocument fuel (some i) r nofun
  refine (hconfines.and (hpasses.and hahead)).mono (fun x hx => ?_) fun _ _ => trivial
  obtain ⟨⟨ts', hts', -⟩, hpasses, hahead⟩ := hx
  exact not_isAhead_streamEnd hus hend hts hts' hpasses hahead

/-- The tokens `us` are the beginning of an entry of the first node, a mapping. -/
def ResumesRoot (us : List Token) (fault : Option Fault) (root : Option Nat) (nodes : Graph) :
    Prop :=
  ∀ i ∈ root, i = 0 ∧ ∃ tag r₀ entries r₁, r₀.nodes.size = 1 ∧ r₀.fault = fault ∧
    Resumes us defaultHandles r₀ entries r₁ ∧
      nodes = r₁.nodes.setIfInBounds 0 (.mapping tag entries)

theorem runs_checkEnd_of_isRoot (hus : us.head? = some .key) {fault : Option Fault}
    (hts : r.tokens = ts ++ us) (hend : .streamEnd ∉ ts) {m : Read Nat}
    (hm : Runs m r (IsRoot us defaultHandles fault) fun _ => True) (hbalances : Balances 0 m r)
    (fuel : Nat) :
    Runs ((some <$> m) >>= checkEnd fuel) r (fun root r' => ResumesRoot us fault root r'.nodes)
      fun _ => True := by
  have hboth : Runs m r (fun i r' => IsRoot us defaultHandles fault i r' ∧ Passes 0 r r')
      fun _ => True := (hm.and hbalances).mono (fun _ h => h) fun _ _ => trivial
  have hsome : Runs (some <$> m) r (fun root r' => ∃ i, root = some i ∧
      IsRoot us defaultHandles fault i r' ∧ Passes 0 r r') fun _ => True :=
    Runs.bind hboth fun i r' h => runs_pure ⟨i, rfl, h⟩
  refine hsome.bind fun root r' h => ?_
  obtain ⟨i, rfl, hroot, hpasses⟩ := h
  rcases hroot with ⟨ts', hts'⟩ | ⟨rfl, tag, r₀, entries, r₁, hsize, hfault, hresumes, rfl⟩
  · have hend' : .streamEnd ∉ ts' := by
      obtain ⟨-, front, hfront, -⟩ := hpasses
      rw [hts, hts', ← List.append_assoc] at hfront
      rw [List.append_cancel_right hfront] at hend
      exact fun hmem => hend (List.mem_append_right front hmem)
    exact (runs_checkEnd_of_tokens_eq hus hend' hts' fuel i).mono (fun _ _ h => h.elim)
      fun _ h => h
  · refine ((runs_checkEnd fuel (some 0) _).and (inspects_checkEnd fuel (some 0) _)).mono
      (fun x hx i hi => ?_) fun _ _ => trivial
    rw [hx.1] at hi
    exact ⟨(Option.some_inj.1 hi).symm, tag, r₀, entries, r₁, hsize, hfault, hresumes, hx.2.1⟩

/-- A document that defines no tag handles starts before the tokens `us`. -/
theorem runs_documentStart?_before (hus : us.head? = some .key) (hr : r.IsClosed)
    (hnodes : r.nodes = #[]) (hts : r.tokens = ts ++ us) (hlevel : nestLevel ts = 1)
    (hend : .streamEnd ∉ ts) (hhandle : DefinesNoHandle r.tokens) (fuel : Nat) :
    Runs (documentStart? fuel) r (fun handles? r₁ =>
      (∀ handles ∈ handles?, handles = defaultHandles) ∧ r₁.IsClosed ∧ r₁.nodes = #[] ∧
        r₁.fault = r.fault ∧ ∃ ts₁, r₁.tokens = ts₁ ++ us ∧ nestLevel ts₁ = 1 ∧
          .streamEnd ∉ ts₁) fun _ => True := by
  have hconfines := confines_documentStart? hus fuel r ts hts (Int.lt_succ (nestLevel ts))
  have hbalances : Runs (documentStart? fuel) r (fun _ r₁ => Passes 0 r r₁) fun _ => True :=
    balances_documentStart? fuel r
  refine ((runs_documentStart?_handles fuel hhandle).and
    ((inspects_documentStart? fuel r).and (hconfines.and hbalances))).mono
    (fun x hx => ?_) fun _ _ => trivial
  obtain ⟨hhandles, ⟨hnodes₁, hanchors₁⟩, ⟨ts₁, hts₁, hlevel₁⟩, hfault₁, front, hfront, -⟩ := hx
  refine ⟨hhandles, hr.of_eq hnodes₁ hanchors₁, hnodes₁.trans hnodes, hfault₁, ts₁, hts₁, by omega,
    fun hmem => ?_⟩
  rw [hts, hts₁, ← List.append_assoc] at hfront
  rw [List.append_cancel_right hfront] at hend
  exact hend (List.mem_append_right front hmem)

/-- A block is a mapping in which the reader goes on with `us`, if the tokens before have opened
one block collection. -/
theorem runs_root?_of_nestLevel (hus : us.head? = some .key) (hlevel : nestLevel ts = 1)
    (hend : .streamEnd ∉ ts) (hhandle : DefinesNoHandle (ts ++ us)) (fault : Option Fault)
    (fuel : Nat) :
    Runs (root? fuel) ⟨ts ++ us, fault, #[], []⟩
      (fun root r' => ResumesRoot us fault root r'.nodes) fun _ => True := by
  generalize hr : (⟨ts ++ us, fault, #[], []⟩ : Reader) = r
  have hts : r.tokens = ts ++ us := by rw [← hr]
  have hfault : r.fault = fault := by rw [← hr]
  have hnodes : r.nodes = #[] := by rw [← hr]
  have hclosed : r.IsClosed := by
    rw [← hr]
    exact ⟨nofun, nofun⟩
  rw [root?]
  refine (runs_peek r).bind fun t r' h => ?_
  obtain ⟨rfl, -⟩ := h
  dsimp only
  split
  · refine (runs_documentStart?_before hus hclosed hnodes hts hlevel hend
      (hts ▸ hhandle) fuel).bind fun handles? r₁ h => ?_
    obtain ⟨hhandles, hclosed₁, hnodes₁, hfault₁, ts₁, hts₁, hlevel₁, hend₁⟩ := h
    obtain rfl := hfault₁.trans hfault
    cases handles? with
    | none =>
        refine (runs_checkEnd fuel none r₁).mono (fun root _ h i hi => ?_) fun _ h => h
        rw [h] at hi
        cases hi
    | some handles =>
        obtain rfl := hhandles handles rfl
        refine runs_checkEnd_of_isRoot hus hts₁ hend₁ ?_ (balances_documentContent _ fuel r₁) fuel
        rw [documentContent]
        refine (runs_peek r₁).bind fun t r₂ h => ?_
        obtain ⟨rfl, -⟩ := h
        split
        · exact Runs.mono stands_emptyNode (fun _ _ hkeep => .inl ⟨ts₁, hkeep.1.trans hts₁⟩)
            fun _ h => h
        · exact runs_firstNode hus _ fuel hclosed₁ hnodes₁ hts₁ hlevel₁
  · rw [← hfault]
    exact runs_checkEnd_of_isRoot hus hts hend
      (runs_firstNode hus _ fuel hclosed hnodes hts hlevel)
      ((balanced defaultHandles fuel).node .block r') fuel

end Grammar

end FrontLint.Yaml
