import FrontLint.Proofs.Yaml.FlatTokens
import FrontLint.Proofs.Yaml.FlowLevel
import FrontLint.Proofs.Yaml.Fuel

/-!
# The end of a block

Where only blanks, comments and line ends are ahead, the tokens that wait are the last ones but
for those that end the open collections. If a candidate must still become a key, the stream has a
fault, or it ends inside of a flow collection.
-/

namespace FrontLint.Yaml.TokenStream

/-- A stream that no graph can be made of: it breaks off, or it ends inside of a flow collection.
The tokens before it have raised the depth of flow collections to `level`. -/
inductive Fails (level : Int) (σ : TokenStream) : Prop
  | fault {fault : Fault} (hfault : σ.fault = some fault) (hblock : fault.isOfBlock = true)
      (hend : .streamEnd ∉ σ.tokens)
  | unbalanced {front : List Token} (hfault : σ.fault = none)
      (htokens : σ.tokens = front ++ [.streamEnd]) (hend : .streamEnd ∉ front)
      (hlevel : level + flowLevel front ≠ 0)

variable {level : Int} {σ : TokenStream}

theorem fails_error {fault : Fault} (h : fault.isOfBlock = true) : Fails level ⟨[], some fault⟩ :=
  .fault rfl h List.not_mem_nil

theorem Fails.cons {t : Token} (h : σ.Fails (level + t.flowChange)) (ht : t ≠ .streamEnd) :
    Fails level ⟨t :: σ.tokens, σ.fault⟩ := by
  have hmem {ts : List Token} (hts : .streamEnd ∉ ts) : .streamEnd ∉ t :: ts := by
    rw [List.mem_cons, not_or]
    exact ⟨ht.symm, hts⟩
  cases h with
  | fault hfault hblock hend => exact .fault hfault hblock (hmem hend)
  | @unbalanced front hfault htokens hend hlevel =>
      have hlonger : t :: σ.tokens = (t :: front) ++ [.streamEnd] := congrArg (t :: ·) htokens
      refine .unbalanced hfault hlonger (hmem hend) ?_
      rw [flowLevel_cons]
      omega

namespace State

variable {s s' : State} {fuel : Nat}

/-! ## Steps of the supply -/

/-- The tokens from the result of an action on. -/
def resume (fuel : Nat) : Except Fault State → TokenStream
  | .error fault => ⟨[], some fault⟩
  | .ok s => deliver fuel s

/-- The tokens from the first one that waits on. -/
def emit (fuel : Nat) (s : State) : TokenStream :=
  match s.waiting with
  | [] => ⟨[], none⟩
  | t :: rest =>
    let later := deliver fuel { s with waiting := rest, delivered := s.delivered + 1 }
    ⟨t :: later.tokens, later.fault⟩

theorem deliver_succ_of_finished (h : s.finished = true) : deliver (fuel + 1) s = emit fuel s := by
  rw [deliver, settle_of_finished h]
  rfl

/-- One step of the supply, if the block has not been ended: to look for a token or to deliver
one. -/
theorem deliver_succ (h : s.finished = false) :
    deliver (fuel + 1) s =
      if s.waiting.isEmpty then resume (fuel + 1) s.fetch
      else
        match s.dropStale with
        | .error fault => ⟨[], some fault⟩
        | .ok t => if t.isUndecided then resume (fuel + 1) t.fetch else emit fuel t := by
  have hfetch {n : Nat} (s : State) (hn : s.cursor.rest.length + 1 ≤ n) :
      (match s.fetch >>= settle n with
        | .error fault => ⟨[], some fault⟩
        | .ok t => emit fuel t) = resume (fuel + 1) s.fetch := by
    cases hs : s.fetch with
    | error fault => rfl
    | ok t =>
        have hsame : settle n t = settle (t.cursor.rest.length + 2) t := by
          refine settle_eq_of_suffices ?_ (.inr (Nat.le_refl _))
          rcases ((fetched_fetch s).of_eq_ok hs).progresses with ⟨hfinished, -⟩ | ⟨hlt, -⟩
          · exact .inl ⟨hfinished, by omega⟩
          · exact .inr (by omega)
        simp only [bind, Except.bind, hsame]
        rfl
  have hdeliver : deliver (fuel + 1) s =
      match settle (s.cursor.rest.length + 2) s with
      | .error fault => ⟨[], some fault⟩
      | .ok t => emit fuel t := rfl
  rw [hdeliver, settle, if_neg (by simp [h])]
  cases s.waiting.isEmpty with
  | true => exact hfetch s (Nat.le_refl _)
  | false =>
      cases hdrop : s.dropStale with
      | error fault => rfl
      | ok t =>
          have hcursor := ((meets_dropStale s).of_eq_ok hdrop).cursor_eq
          have hnext := hfetch (n := s.cursor.rest.length + 1) t (by rw [hcursor])
          simp only [Bool.false_eq_true, if_false, bind, Except.bind] at hnext ⊢
          cases t.isUndecided with
          | true => exact hnext
          | false => rfl

/-! ## The last tokens -/

theorem skipToToken_eq (s : State) :
    ∃ keyAllowed, s.skipToToken =
      { s with cursor := s.skipToToken.cursor, keyAllowed := keyAllowed } := by
  have hblank (fuel : Nat) (s : State) : ∃ keyAllowed, skipBlankLines fuel s =
      { s with cursor := (skipBlankLines fuel s).cursor, keyAllowed := keyAllowed } := by
    fun_induction skipBlankLines fuel s with
    | case1 s => exact ⟨s.keyAllowed, rfl⟩
    | case2 _ _ _ _ _ _ ih => exact ih
    | case3 _ s => exact ⟨s.keyAllowed, rfl⟩
  exact hblank _ _

/-- Whether the cursor is before the last token. -/
def IsClosing (s : State) : Prop := s.skipToToken.cursor.rest = []

theorem isClosing_of_rest_nil (h : s.cursor.rest = []) : s.IsClosing := by
  rw [IsClosing, skipToToken_nil h, h]

/-- Whether a candidate must still become a key. -/
def Requires (s : State) : Prop := ∃ k ∈ s.candidates, k.2.required = true

/-- The last tokens: those that wait, and those that end the open collections and the stream. -/
def closed (s : State) : List Token := (s.unwind (-1)).waiting ++ [.streamEnd]

theorem unwound_unwound {column : Int} (hcolumn : -1 ≤ column) (indents : List Int) :
    unwound (-1) indents = ((unwound (-1) (unwound column indents).1).1,
      (unwound column indents).2 + (unwound (-1) (unwound column indents).1).2) := by
  fun_induction unwound column indents with
  | case1 => rfl
  | case2 i rest hi kept n hrest ih =>
      rw [hrest] at ih
      rw [unwound, if_pos (by omega), ih]
      simp only [Nat.add_right_comm]
  | case3 i rest hi => simp

theorem inFlow_unwind (s : State) (column : Int) : (s.unwind column).inFlow = s.inFlow := by
  rw [inFlow, inFlow, (extends_unwind s column).depth_eq]

theorem unwind_unwind {column : Int} (hcolumn : -1 ≤ column) (s : State) :
    (s.unwind column).unwind (-1) = s.unwind (-1) := by
  cases hflow : s.inFlow with
  | true =>
      rw [unwind, inFlow_unwind, hflow, if_pos rfl, unwind, unwind, hflow, if_pos rfl, if_pos rfl]
  | false =>
      rw [unwind, inFlow_unwind, hflow, unwind, unwind, hflow, unwound_unwound hcolumn s.indents]
      simp [List.append_assoc]

theorem waiting_unwind (s : State) (column : Int) :
    (s.unwind column).waiting = s.waiting ++
      if s.inFlow then [] else List.replicate (unwound column s.indents).2 .blockEnd := by
  rw [unwind]
  split <;> simp

theorem candidates_unwind (s : State) (column : Int) :
    (s.unwind column).candidates = s.candidates := by
  rw [unwind]
  split <;> rfl

theorem closed_unwind (s : State) (column : Nat) : (s.unwind column).closed = s.closed := by
  rw [closed, closed, unwind_unwind (by omega)]

theorem closed_congr (hwaiting : s'.waiting = s.waiting) (hdepth : s'.depth = s.depth)
    (hindents : s'.indents = s.indents) : s'.closed = s.closed := by
  rw [closed, closed, waiting_unwind, waiting_unwind, inFlow, inFlow, hwaiting, hdepth, hindents]

theorem closed_cons {t : Token} {rest : List Token} (hwaiting : s.waiting = t :: rest)
    (delivered : Nat) :
    s.closed = t :: closed { s with waiting := rest, delivered := delivered } := by
  rw [closed, closed, waiting_unwind, waiting_unwind, hwaiting]
  rfl

theorem length_closed_le (s : State) : s.closed.length ≤ s.load + 1 := by
  have hload := (extends_unwind s (-1)).load_le
  simp only [load, closed, List.length_append, List.length_singleton] at hload ⊢
  omega

/-- States from which the stream ends in the same way. -/
structure EndsAlike (s s' : State) : Prop where
  closed_eq : s'.closed = s.closed
  depth_eq : s'.depth = s.depth
  requires_iff : s'.Requires ↔ s.Requires

theorem EndsAlike.trans {s'' : State} (h : EndsAlike s s') (h' : EndsAlike s' s'') :
    EndsAlike s s'' :=
  ⟨h'.closed_eq.trans h.closed_eq, h'.depth_eq.trans h.depth_eq,
    h'.requires_iff.trans h.requires_iff⟩

theorem endsAlike_skipToToken (s : State) : EndsAlike s s.skipToToken := by
  obtain ⟨keyAllowed, heq⟩ := skipToToken_eq s
  rw [heq]
  exact ⟨closed_congr rfl rfl rfl, rfl, Iff.rfl⟩

theorem endsAlike_unwind (s : State) (column : Nat) : EndsAlike s (s.unwind column) :=
  ⟨closed_unwind s column, (extends_unwind s column).depth_eq,
    by rw [Requires, Requires, candidates_unwind]⟩

/-- Only a candidate that must still become a key may not be dropped. -/
theorem meets_dropStale_of_requires (s : State) :
    Meets s.dropStale (fun t => t.cursor = s.cursor ∧ t.waiting = s.waiting ∧ EndsAlike s t)
      fun fault => s.Requires ∧ fault.isOfBlock = true := by
  rw [dropStale]
  split
  · rename_i hstale
    obtain ⟨k, hk, hrequired⟩ := List.any_eq_true.1 hstale
    exact ⟨⟨k, hk, (Bool.and_eq_true_iff.1 hrequired).2⟩, rfl⟩
  · rename_i hstale
    refine ⟨rfl, rfl, closed_congr rfl rfl rfl, rfl, ?_⟩
    constructor
    · rintro ⟨k, hk, hrequired⟩
      exact ⟨k, List.mem_of_mem_filter hk, hrequired⟩
    · rintro ⟨k, hk, hrequired⟩
      refine ⟨k, List.mem_filter.2 ⟨hk, ?_⟩, hrequired⟩
      cases hk' : s.isStale k.2 with
      | false => rfl
      | true => exact absurd (List.any_eq_true.2 ⟨k, hk, by rw [hk', hrequired]; rfl⟩) hstale

/-- Outside of flow collections it is the candidate at the present depth. -/
theorem IsOpen.exists_lookup_of_requires (hs : s.IsOpen level) (h : s.Requires)
    (hdepth : s.depth = 0) : ∃ k, s.candidates.lookup s.depth = some k ∧ k.required = true := by
  obtain ⟨⟨depth, k⟩, hk, hrequired⟩ := h
  obtain rfl : depth = 0 := hs.depth_of_required _ hk hrequired
  obtain ⟨front, back, hsplit⟩ := List.append_of_mem hk
  refine ⟨k, List.lookup_eq_some_iff.2 ⟨front, back, hdepth ▸ hsplit, fun j hj => ?_⟩, hrequired⟩
  have hnodup := hs.nodup
  rw [hsplit, List.map_append, List.map_cons, List.nodup_append] at hnodup
  rw [hdepth, bne_iff_ne]
  exact (hnodup.2.2 j.1 (List.mem_map_of_mem hj) 0 List.mem_cons_self).symm

theorem meets_fetchEnd (hs : s.IsOpen level) :
    Meets s.fetchEnd
      (fun t => t.finished = true ∧ t.waiting = s.closed ∧ (s.Requires → s.depth ≠ 0))
      fun fault => s.Requires ∧ fault.isOfBlock = true := by
  rw [fetchEnd, dropCandidate, candidates_unwind, (extends_unwind s (-1)).depth_eq]
  split
  · rename_i k hlookup
    split
    · rename_i hrequired
      obtain ⟨front, back, hsplit, -⟩ := List.lookup_eq_some_iff.1 hlookup
      exact ⟨⟨_, hsplit ▸ List.mem_append_right front List.mem_cons_self, hrequired⟩, rfl⟩
    · rename_i hrequired
      refine ⟨rfl, rfl, fun h hdepth => ?_⟩
      obtain ⟨j, hj, hrequired'⟩ := hs.exists_lookup_of_requires h hdepth
      rw [hlookup, Option.some.injEq] at hj
      exact hrequired (hj ▸ hrequired')
  · rename_i hlookup
    refine ⟨rfl, rfl, fun h hdepth => ?_⟩
    obtain ⟨j, hj, -⟩ := hs.exists_lookup_of_requires h hdepth
    rw [hlookup] at hj
    cases hj

/-- Before the last token the next action ends the block, or finds that a key is missing. -/
theorem meets_fetch_of_isClosing (hs : s.IsOpen level) (h : s.IsClosing) :
    Meets s.fetch
      (fun t => t.finished = true ∧ t.waiting = s.closed ∧ (s.Requires → s.depth ≠ 0))
      fun fault => s.Requires ∧ fault.isOfBlock = true := by
  have hskip := endsAlike_skipToToken s
  have hdrop := (meets_dropStale_of_requires s.skipToToken).and hs.skipToToken.dropStale
  rw [fetch]
  refine Meets.bind (hdrop.mono (fun _ h => h) ?_) fun t ht => ?_
  · exact fun fault hfault => hfault.1.imp_left hskip.requires_iff.1
  · obtain ⟨⟨hcursor, -, halike⟩, hopen⟩ := ht
    have hends := (hskip.trans halike).trans (endsAlike_unwind t t.cursor.column)
    have hrest : (t.unwind t.cursor.column).cursor.rest = [] := by
      rw [(extends_unwind t _).cursor_eq, hcursor]
      exact h
    rw [fetchToken_nil hrest]
    refine (meets_fetchEnd (hopen.unwind _)).mono ?_ ?_
    · rintro u ⟨hfinished, hwaiting, hdepth⟩
      rw [hends.closed_eq] at hwaiting
      rw [hends.requires_iff, hends.depth_eq] at hdepth
      exact ⟨hfinished, hwaiting, hdepth⟩
    · exact fun fault hfault => hfault.imp_left hends.requires_iff.1

/-! ## The rest of the stream -/

/-- How a stream ends: with the last tokens, unless a key is missing. -/
structure Ends (level : Int) (s : State) (σ : TokenStream) : Prop where
  fails : s.Requires → σ.Fails level
  eq : ¬ s.Requires → σ = ⟨s.closed, none⟩

theorem ends_error {fault : Fault} (h : s.Requires ∧ fault.isOfBlock = true) :
    Ends level s ⟨[], some fault⟩ :=
  ⟨fun _ => fails_error h.2, fun hnot => absurd h.1 hnot⟩

theorem Ends.of_endsAlike (h : Ends level s' σ) (hs : EndsAlike s s') : Ends level s σ :=
  ⟨fun hr => h.fails (hs.requires_iff.2 hr),
    fun hr => hs.closed_eq ▸ h.eq fun hr' => hr (hs.requires_iff.1 hr')⟩

theorem isClosing_congr (h : s'.cursor = s.cursor) (hs : s.IsClosing) : s'.IsClosing := by
  have hblank (fuel : Nat) (s s' : State) (h : s'.cursor = s.cursor) :
      (skipBlankLines fuel s').cursor = (skipBlankLines fuel s).cursor := by
    induction fuel generalizing s s' with
    | zero => exact h
    | succ fuel ih =>
        rw [skipBlankLines, skipBlankLines, h]
        split
        · exact ih _ _ rfl
        · rfl
  rw [IsClosing, skipToToken] at hs ⊢
  rw [h, hblank _ { s with cursor := _ } { s' with cursor := _ } rfl, hs]

theorem deliver_eq_waiting (h : s.finished = true) (hfuel : s.waiting.length < fuel) :
    deliver fuel s = ⟨s.waiting, none⟩ := by
  obtain ⟨n, rfl⟩ : ∃ n, fuel = s.waiting.length + (n + 1) :=
    ⟨fuel - s.waiting.length - 1, by omega⟩
  rw [deliver_of_waiting (.inl h), deliver_of_finished (by exact h) rfl, prepend, List.append_nil]

theorem ends_resume (hs : s.IsOpen level) (h : s.IsClosing) (hfuel : s.load + 1 < fuel) :
    Ends level s (resume fuel s.fetch) := by
  have hfetch := meets_fetch_of_isClosing hs h
  cases hresult : s.fetch with
  | error fault => exact ends_error (hfetch.of_eq_error hresult)
  | ok t =>
      obtain ⟨hfinished, hwaiting, hdepth⟩ := hfetch.of_eq_ok hresult
      have hlength := length_closed_le s
      rw [resume, deliver_eq_waiting hfinished (by rw [hwaiting]; omega), hwaiting]
      refine ⟨fun hrequires => ?_, fun _ => rfl⟩
      have hunwind := hs.unwind (-1)
      refine .unbalanced rfl rfl hunwind.streamEnd_not_mem ?_
      rw [← hunwind.depth_eq, (extends_unwind s (-1)).depth_eq]
      exact hdepth hrequires

theorem ends_deliver (hs : s.IsOpen level) (h : s.IsClosing) (hfuel : s.weight < fuel) :
    Ends level s (deliver fuel s) := by
  induction fuel generalizing level s with
  | zero => omega
  | succ fuel ih =>
      have hdrop := (meets_dropStale_of_requires s).and hs.dropStale
      have hload : s.load + 1 < fuel + 1 := by simpa [weight, hs.unfinished] using hfuel
      rw [deliver_succ hs.unfinished]
      cases hempty : s.waiting.isEmpty with
      | true => exact ends_resume hs h hload
      | false =>
          cases hresult : s.dropStale with
          | error fault => exact ends_error (hdrop.of_eq_error hresult).1
          | ok t =>
              obtain ⟨⟨hcursor, hwaiting, halike⟩, ht⟩ := hdrop.of_eq_ok hresult
              have hweight := ((meets_dropStale s).of_eq_ok hresult).settles.weight_le
              have hclosing := isClosing_congr hcursor h
              refine Ends.of_endsAlike ?_ halike
              simp only [Bool.false_eq_true, if_false]
              cases t.isUndecided with
              | true =>
                  have hload := hweight.trans_lt hfuel
                  rw [weight, ht.unfinished] at hload
                  exact ends_resume ht hclosing hload
              | false =>
                  obtain ⟨u, rest, hcons⟩ : ∃ u rest, t.waiting = u :: rest := by
                    rw [hwaiting]
                    exact List.exists_cons_of_ne_nil (by simpa using hempty)
                  have hlt := (weight_tail_lt hcons (t.delivered + 1)).trans_le hweight
                  have hlater := ih (ht.tail hcons (t.delivered + 1))
                    (isClosing_congr (s := t) rfl hclosing) (by omega)
                  simp only [Bool.false_eq_true, if_false, emit, hcons]
                  refine ⟨fun hr => (hlater.fails hr).cons ?_, fun hr => ?_⟩
                  · rintro rfl
                    exact ht.streamEnd_not_mem (hcons ▸ List.mem_cons_self)
                  · rw [hlater.eq hr, closed_cons hcons (t.delivered + 1)]

end State

end FrontLint.Yaml.TokenStream
