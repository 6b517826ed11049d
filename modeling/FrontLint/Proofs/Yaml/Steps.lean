import FrontLint.Proofs.Yaml.After
import FrontLint.Proofs.Yaml.BlockLevel
import FrontLint.Proofs.Yaml.Closing
import Mathlib.Logic.Relation

/-!
# Reading all tokens

Tokens are delivered as soon as no candidate can put anything before them. What is delivered is
what waits at the end if none is delivered before.
-/

namespace FrontLint.Yaml

namespace Cursor

theorem index_next_le (c : Cursor) : c.index ≤ c.next.index := by
  rw [next]
  split
  · exact Nat.le_refl _
  · split <;> exact Nat.le_succ _

theorem line_next_le (c : Cursor) : c.line ≤ c.next.line := by
  rw [next]
  split
  · exact Nat.le_refl _
  · split
    · exact Nat.le_succ _
    · exact Nat.le_refl _

theorem IsBehind.index_le {c c' : Cursor} (h : c'.IsBehind c) : c.index ≤ c'.index := by
  obtain ⟨n, rfl⟩ := h
  induction n generalizing c with
  | zero => exact Nat.le_refl _
  | succ n ih => exact (index_next_le c).trans ih

theorem IsBehind.line_le {c c' : Cursor} (h : c'.IsBehind c) : c.line ≤ c'.line := by
  obtain ⟨n, rfl⟩ := h
  induction n generalizing c with
  | zero => exact Nat.le_refl _
  | succ n ih => exact (line_next_le c).trans ih

theorem index_next {c : Cursor} (h : c.rest ≠ []) : c.next.index = c.index + 1 := by
  rw [next]
  split
  · rename_i hnil
    exact absurd hnil h
  · split <;> rfl

end Cursor

theorem Candidate.IsBefore.line_le {k : Candidate} {o c : Cursor} (h : k.IsBefore o c) :
    k.line ≤ c.line := by
  obtain ⟨d, -, hd, -, hline⟩ := h
  exact hline ▸ hd.line_le

namespace TokenStream.State

variable {cs : List Char} {s s' t : State}

/-! ## Candidates out of reach -/

theorem skipToToken_withCandidates (s : State) (candidates : List (Int × Candidate)) :
    skipToToken { s with candidates := candidates } =
      { s.skipToToken with candidates := candidates } := by
  have hblank (fuel : Nat) (s : State) :
      skipBlankLines fuel { s with candidates := candidates } =
        { skipBlankLines fuel s with candidates := candidates } := by
    induction fuel generalizing s with
    | zero => rfl
    | succ fuel ih =>
        simp only [skipBlankLines]
        cases s.cursor.skipSpaces.skipComment.lineBreak? with
        | none => rfl
        | some x => exact ih { s with cursor := x.2, keyAllowed := s.keyAllowed || !s.inFlow }
  exact hblank _ { s with cursor := _ }

/-- A candidate that is out of reach stays so. -/
theorem isStale_of_isBehind {k : Candidate} (hk : k.line ≤ s.cursor.line)
    (hs : s'.cursor.IsBehind s.cursor) (h : s.isStale k = true) : s'.isStale k = true := by
  have hline := hs.line_le
  have hindex := hs.index_le
  simp only [isStale, Bool.or_eq_true, bne_iff_ne, decide_eq_true_eq] at h ⊢
  omega

theorem dropStale_eq_ok (h : s.dropStale = .ok t) :
    (∀ k ∈ s.candidates, s.isStale k.2 = true → k.2.required = false) ∧
      t = { s with candidates := s.candidates.filter fun k => !s.isStale k.2 } := by
  rw [dropStale] at h
  split at h
  · cases h
  · rename_i hany
    refine ⟨fun k hk hstale => ?_, (Except.ok.inj h).symm⟩
    by_contra hrequired
    exact hany (List.any_eq_true.2 ⟨k, hk, by simp_all⟩)

theorem dropStale_withCandidates (s : State) (candidates : List (Int × Candidate)) :
    dropStale { s with candidates := candidates } =
      if candidates.any fun k => s.isStale k.2 && k.2.required then .error (.misread .simpleKey)
      else .ok { s with candidates := candidates.filter fun k => !s.isStale k.2 } := rfl

/-- The next token is the same whether candidates out of reach have been dropped or not. -/
theorem fetch_of_dropStale (hs : ∀ k ∈ s.candidates, k.2.line ≤ s.cursor.line)
    (h : s.dropStale = .ok t) : t.fetch = s.fetch := by
  obtain ⟨hrequired, rfl⟩ := dropStale_eq_ok h
  have hstale {k : Int × Candidate} (hk : k ∈ s.candidates) (h : s.isStale k.2 = true) :
      s.skipToToken.isStale k.2 = true :=
    isStale_of_isBehind (hs k hk) (skips_skipToToken s).isBehind h
  have hcandidates : s.skipToToken.candidates = s.candidates := by
    obtain ⟨_, heq⟩ := skipToToken_eq s
    rw [heq]
  have hany : (s.candidates.filter fun k => !s.isStale k.2).any
        (fun k => s.skipToToken.isStale k.2 && k.2.required) =
      s.candidates.any fun k => s.skipToToken.isStale k.2 && k.2.required := by
    rw [Bool.eq_iff_iff, List.any_eq_true, List.any_eq_true]
    refine ⟨fun ⟨k, hk, h⟩ => ⟨k, List.mem_of_mem_filter hk, h⟩, fun ⟨k, hk, h⟩ => ⟨k, ?_, h⟩⟩
    refine List.mem_filter.2 ⟨hk, ?_⟩
    have := hrequired k hk
    simp_all
  have hfilter : (s.candidates.filter fun k => !s.isStale k.2).filter
        (fun k => !s.skipToToken.isStale k.2) =
      s.candidates.filter fun k => !s.skipToToken.isStale k.2 := by
    rw [List.filter_filter]
    refine List.filter_congr fun k hk => ?_
    have := hstale hk
    cases h : s.isStale k.2 <;> simp_all
  have hdrop : dropStale { s.skipToToken with
      candidates := s.candidates.filter fun (k : Int × Candidate) => !s.isStale k.2 } =
      s.skipToToken.dropStale := by
    rw [dropStale_withCandidates, hany, hfilter, dropStale, hcandidates]
  rw [fetch, fetch, skipToToken_withCandidates]
  exact congrArg (· >>= fun t => (t.unwind t.cursor.column).fetchToken) hdrop

/-! ## Steps -/

/-- The next token is read, and none is delivered. -/
def Step (s s' : State) : Prop := s.finished = false ∧ s.fetch = .ok s'

/-- The states that come when tokens are read one after another, and none is delivered. -/
abbrev Reaches (s s' : State) : Prop := Relation.ReflTransGen Step s s'

theorem rightUnique_step : Relator.RightUnique Step := by
  rintro s t t' ⟨-, ht⟩ ⟨-, ht'⟩
  exact Except.ok.inj (ht.symm.trans ht')

theorem Reaches.eq_of_finished (h : s.Reaches s') (hs : s.finished = true) : s' = s := by
  rcases Relation.ReflTransGen.cases_head h with heq | ⟨t, ht, -⟩
  · exact heq.symm
  · rw [Step, hs] at ht
    cases ht.1

/-- What is reached from a state comes before the end. -/
theorem Reaches.reaches_of_finished {u : State} (h : u.Reaches s) (h' : u.Reaches s')
    (hs : s'.finished = true) : s.Reaches s' := by
  rcases Relation.ReflTransGen.total_of_right_unique rightUnique_step h h' with h | h
  · exact h
  · rw [Reaches.eq_of_finished h hs]

theorem reaches_of_step (h : s.Step s') (h' : s'.Reaches t) : s.Reaches t :=
  Relation.ReflTransGen.head h h'

/-- A state between two tokens of a text. -/
structure IsReached (cs : List Char) (s : State) : Prop where
  isOpen : s.IsOpen 0
  isNested : s.IsNested (.start cs) s.cursor
  isPassed : ∀ k ∈ s.candidates, k.2.IsPassed (.start cs) s.cursor
  delivered_eq : s.delivered = 0

theorem isReached_start (cs : List Char) : IsReached cs (start cs) :=
  ⟨isOpen_start cs, isNested_start cs, nofun, rfl⟩

theorem after_nil (h : s.delivered = 0) : s.after [] 0 0 = s := by
  have hcandidates : s.candidates.map (fun x => (x.1, x.2.after s.delivered 0 0 0)) =
      s.candidates := by
    rw [h]
    exact List.map_id s.candidates
  rw [after, List.length_nil, hcandidates]
  cases s
  cases h
  rfl

theorem delivered_of_fetch (h : s.delivered = 0) (hfetch : s.fetch = .ok s') :
    s'.delivered = 0 := by
  have hafter : (s.after [] 0 0).fetch = s.fetch.map (State.after [] 0 0) := fetch_after (.inl rfl)
  rw [after_nil h, hfetch] at hafter
  rw [Except.ok.inj hafter]
  rfl

theorem fetch_eq_ok (h : s.fetch = .ok s') :
    ∃ t, s.skipToToken.dropStale = .ok t ∧ (t.unwind t.cursor.column).fetchToken = .ok s' := by
  rw [fetch] at h
  cases hdrop : s.skipToToken.dropStale with
  | error fault =>
      rw [hdrop] at h
      cases h
  | ok t =>
      rw [hdrop] at h
      exact ⟨t, rfl, h⟩

theorem IsReached.skipToToken (h : s.IsReached cs) : s.skipToToken.IsReached cs := by
  have hbehind := (skips_skipToToken s).isBehind
  have hopen := h.isOpen.skipToToken
  obtain ⟨_, heq⟩ := skipToToken_eq s
  have hpassed (k) (hk : k ∈ s.candidates) : k.2.IsPassed (.start cs) s.skipToToken.cursor :=
    (h.isPassed k hk).of_isBehind hbehind
  rw [heq] at hopen ⊢
  exact ⟨hopen, ⟨hbehind.trans h.isNested.isBehind, h.isNested.pairwise, h.isNested.getLast?_eq,
    h.isNested.level_eq, fun k hk => (hpassed k hk).isBefore⟩, hpassed, h.delivered_eq⟩

theorem IsReached.dropStale (h : s.IsReached cs) (hdrop : s.dropStale = .ok t) :
    t.IsReached cs := by
  have hopen := h.isOpen.dropStale.of_eq_ok hdrop
  have hnested := h.isNested.dropStale.of_eq_ok hdrop
  obtain ⟨-, rfl⟩ := dropStale_eq_ok hdrop
  exact ⟨hopen, hnested, fun k hk => h.isPassed k (List.mem_of_mem_filter hk), h.delivered_eq⟩

theorem IsReached.unwind (h : s.IsReached cs) (column : Nat) :
    (s.unwind column).IsReached cs := by
  have hextends := extends_unwind s column
  have hnested := h.isNested.unwind (show -1 ≤ (column : Int) by omega)
  refine ⟨h.isOpen.unwind column, hextends.cursor_eq ▸ hnested, ?_, ?_⟩
  · rw [candidates_unwind, hextends.cursor_eq]
    exact h.isPassed
  · rw [State.unwind]
    split <;> exact h.delivered_eq

theorem IsReached.fetch (h : s.IsReached cs) (hfetch : s.fetch = .ok s') :
    s'.finished = true ∨ s'.IsReached cs := by
  have hdelivered := delivered_of_fetch h.delivered_eq hfetch
  obtain ⟨t, hdrop, htoken⟩ := fetch_eq_ok hfetch
  have ht := (h.skipToToken.dropStale hdrop).unwind t.cursor.column
  generalize t.unwind t.cursor.column = u at ht htoken
  have hfetches := (fetched_fetchToken u).of_eq_ok htoken
  have hnested := ht.isNested.fetchToken.of_eq_ok htoken
  have hopen := ht.isOpen.fetchToken.of_eq_ok htoken
  rcases hfetches.progresses with ⟨hfinished, -⟩ | ⟨hlt, -⟩
  · exact .inl hfinished
  · refine hopen.imp_right fun hopen => ?_
    have hnested := hnested.resolve_left (by simp [hopen.unfinished])
    have hpassed (k) (hk : k ∈ s'.candidates) : k.2.IsPassed (.start cs) s'.cursor :=
      (hnested.isBefore k hk).isPassed hfetches.isBehind hlt
    exact ⟨hopen, ⟨hfetches.isBehind.trans hnested.isBehind, hnested.pairwise,
      hnested.getLast?_eq, hnested.level_eq, fun k hk => (hpassed k hk).isBefore⟩, hpassed,
      hdelivered⟩

theorem IsReached.reaches (h : s.IsReached cs) (hreaches : s.Reaches s') :
    s'.finished = true ∨ s'.IsReached cs := by
  induction hreaches with
  | refl => exact .inr h
  | tail _ hstep ih =>
      rcases ih with hfinished | hreached
      · rw [Step, hfinished] at hstep
        cases hstep.1
      · exact hreached.fetch hstep.2

/-! ## What is delivered -/

/-- Delivering a token makes no difference to those that have been read. -/
theorem after_emit {lead : List Token} {u : Token} {rest : List Token}
    (hwaiting : s.waiting = u :: rest) (hdecided : s.isUndecided = false) :
    after (lead ++ [u]) 0 0 { s with waiting := rest, delivered := s.delivered + 1 } =
      s.after lead 0 0 := by
  have hcandidates : s.candidates.map
        (fun x => (x.1, x.2.after (s.delivered + 1) (lead ++ [u]).length 0 0)) =
      s.candidates.map fun x => (x.1, x.2.after s.delivered lead.length 0 0) := by
    refine List.map_congr_left fun k hk => ?_
    have hnumber := List.any_eq_false.1 hdecided k hk
    simp only [decide_eq_true_eq, Nat.not_le] at hnumber
    have hsame : k.2.number - (s.delivered + 1) + (lead.length + 1) =
        k.2.number - s.delivered + lead.length := by omega
    simp only [Candidate.after, List.length_append, List.length_singleton, hsame]
  simp only [after, hcandidates, hwaiting, List.append_assoc, List.singleton_append]

/-- Reading all tokens from a state on, behind the tokens `lead`, gives those of a stream, or the
stream breaks off. -/
inductive Supplies (lead : List Token) (s : State) (σ : TokenStream) : Prop
  | ends {s' : State} (hfault : σ.fault = none) (h : (s.after lead 0 0).Reaches s')
      (hfinished : s'.finished = true) (hwaiting : s'.waiting = lead ++ σ.tokens)
  | breaksOff (hfault : σ.fault ≠ none) (hend : .streamEnd ∉ σ.tokens)

variable {lead : List Token} {fuel : Nat}

theorem supplies_error (fault : Fault) : Supplies lead s ⟨[], some fault⟩ :=
  .breaksOff nofun List.not_mem_nil

theorem supplies_resume (hs : s.finished = false) (hfuel : s.weight < fuel)
    (h : ∀ t, s.fetch = .ok t → t.finished = false → Supplies lead t (deliver fuel t)) :
    Supplies lead s (resume fuel s.fetch) := by
  have hafter : (s.after lead 0 0).fetch = s.fetch.map (State.after lead 0 0) :=
    fetch_after (.inl rfl)
  have hfetched := fetched_fetch s
  cases hfetch : s.fetch with
  | error fault => exact supplies_error fault
  | ok t =>
      rw [hfetch] at hafter
      have hstep : (s.after lead 0 0).Step (t.after lead 0 0) := ⟨hs, hafter⟩
      cases hfinished : t.finished with
      | true =>
          have hload : t.waiting.length < fuel := by
            have := ((hfetched.of_eq_ok hfetch).settles hs).weight_le
            simp only [weight, load] at this hfuel
            omega
          rw [resume, deliver_eq_waiting hfinished hload]
          exact .ends rfl (.single hstep) hfinished rfl
      | false =>
          cases h t hfetch hfinished with
          | ends hfault hreaches hs' hwaiting =>
              exact .ends hfault (reaches_of_step hstep hreaches) hs' hwaiting
          | breaksOff hfault hend => exact .breaksOff hfault hend

theorem supplies_emit {u : Token} {rest : List Token} (hwaiting : s.waiting = u :: rest)
    (hu : u ≠ .streamEnd) (hdecided : s.isUndecided = false)
    (h : Supplies (lead ++ [u]) { s with waiting := rest, delivered := s.delivered + 1 }
      (deliver fuel { s with waiting := rest, delivered := s.delivered + 1 })) :
    Supplies lead s (emit fuel s) := by
  rw [emit, hwaiting]
  cases h with
  | ends hfault hreaches hfinished hs' =>
      rw [after_emit hwaiting hdecided] at hreaches
      exact .ends hfault hreaches hfinished (by simpa using hs')
  | breaksOff hfault hend =>
      refine .breaksOff hfault ?_
      rw [List.mem_cons, not_or]
      exact ⟨hu.symm, hend⟩

theorem Supplies.of_dropStale {σ : TokenStream} (h : Supplies lead t σ)
    (hs : s.finished = false) (hdrop : s.dropStale = .ok t) (hfetch : t.fetch = s.fetch) :
    Supplies lead s σ := by
  cases h with
  | breaksOff hfault hend => exact .breaksOff hfault hend
  | ends hfault hreaches hfinished hwaiting =>
      rcases Relation.ReflTransGen.cases_head hreaches with heq | ⟨u, hstep, hrest⟩
      · rw [← heq, (dropStale_eq_ok hdrop).2] at hfinished
        exact absurd (hs.symm.trans hfinished) Bool.false_ne_true
      · refine .ends hfault (reaches_of_step ⟨hs, ?_⟩ hrest) hfinished hwaiting
        rw [fetch_after (.inl rfl), ← hfetch, ← fetch_after (.inl rfl)]
        exact hstep.2

/-- The tokens that are delivered are those that wait when all have been read. -/
theorem supplies_deliver (hfuel : s.weight < fuel) (hs : (s.after lead 0 0).IsReached cs) :
    Supplies lead s (deliver fuel s) := by
  induction fuel generalizing s lead with
  | zero => omega
  | succ fuel ih =>
      -- Fetching a token need not lower the weight, but then less of the text is left.
      induction hlength : s.cursor.rest.length using Nat.strong_induction_on generalizing s with
      | h length ihlength =>
      have hunfinished : s.finished = false := hs.isOpen.unfinished
      have hresume : Supplies lead s (resume (fuel + 1) s.fetch) := by
        refine supplies_resume hunfinished hfuel fun t hfetch hfinished => ?_
        have hfetches := (fetched_fetch s).of_eq_ok hfetch
        have hlt := hfetches.progresses.resolve_left fun h => by simp [hfinished] at h
        refine ihlength _ (hlength ▸ hlt.1)
          ((hfetches.settles hunfinished).weight_le.trans_lt hfuel) ?_ rfl
        refine (hs.fetch ?_).resolve_left (by simp [after, hfinished])
        rw [fetch_after (.inl rfl), hfetch]
        rfl
      rw [deliver_succ hunfinished]
      cases hempty : s.waiting.isEmpty with
      | true => exact hresume
      | false =>
          rw [if_neg Bool.false_ne_true]
          cases hdrop : s.dropStale with
          | error fault => exact supplies_error fault
          | ok t =>
              have hsame := fetch_of_dropStale (fun k hk =>
                (hs.isNested.isBefore _ (List.mem_map_of_mem hk)).line_le) hdrop
              have hweight := ((meets_dropStale s).of_eq_ok hdrop).settles.weight_le
              obtain ⟨u, rest, hcons⟩ : ∃ u rest, t.waiting = u :: rest := by
                rw [(dropStale_eq_ok hdrop).2]
                exact List.exists_cons_of_ne_nil (by simpa using hempty)
              have hlt := (weight_tail_lt hcons (t.delivered + 1)).trans_le hweight
              have ht : (t.after lead 0 0).IsReached cs :=
                hs.dropStale (by rw [dropStale_after, hdrop]; rfl)
              dsimp only
              cases hundecided : t.isUndecided with
              | true =>
                  rw [if_pos rfl, hsame]
                  exact hresume
              | false =>
                  rw [if_neg Bool.false_ne_true]
                  refine Supplies.of_dropStale ?_ hunfinished hdrop hsame
                  have hu : u ≠ .streamEnd := by
                    rintro rfl
                    exact ht.isOpen.streamEnd_not_mem (by simp [after, hcons])
                  refine supplies_emit hcons hu hundecided (ih (by omega) ?_)
                  rw [after_emit hcons hundecided]
                  exact ht

end State

/-- The tokens of a text are those that wait when all have been read, unless the text cannot be
read to its end. -/
theorem supplies_ofChars (cs : List Char) : State.Supplies [] (State.start cs) (ofChars cs) := by
  have hreached : ((State.start cs).after [] 0 0).IsReached cs := by
    rw [State.after_nil rfl]
    exact State.isReached_start cs
  exact State.supplies_deliver (weight_start cs) hreached

end TokenStream

end FrontLint.Yaml
