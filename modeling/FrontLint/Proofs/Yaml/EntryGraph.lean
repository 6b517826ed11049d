import FrontLint.Proofs.Yaml.Extending

/-!
# The graph of a text from an entry on

Where a token begins outside of all flow collections in the first column, and a plain key stands
there, the text from that line on is a block of its own, whose graph the graph of the whole text
extends.
-/

namespace FrontLint.Yaml

open TokenStream

namespace Cursor

/-- A place behind the beginning of a text is known by its index. -/
theorem IsBehind.eq_advance {cs : List Char} {c : Cursor} (h : c.IsBehind (start cs))
    (hle : c.index ≤ cs.length) : c = advance c.index (start cs) := by
  have hindex {n : Nat} (hn : n ≤ cs.length) : (advance n (start cs)).index = n := by
    rw [index_advance (by simpa using hn), index_start, Nat.zero_add]
  obtain ⟨n, rfl⟩ := h
  rcases Nat.le_total n cs.length with hn | hn
  · rw [hindex hn]
  · obtain ⟨m, rfl⟩ := Nat.exists_eq_add_of_le hn
    have hnil : (advance cs.length (start cs)).rest = [] := by simp [start]
    have hend (m : Nat) : advance m (advance cs.length (start cs)) =
        advance cs.length (start cs) := by
      induction m with
      | zero => rfl
      | succ m ih => rw [advance, next, hnil, ih]
    rw [advance_add, hend, hindex (Nat.le_refl _)]

end Cursor

/-- A token outside of all flow collections begins behind a number of characters of a text. -/
def TokenStream.BeginsToken (cs : List Char) (n : Nat) : Prop :=
  ∃ s, (State.start cs).Reaches s ∧ s.finished = false ∧ s.depth = 0 ∧
    s.skipToToken.cursor.index = n

namespace TokenStream

/-- The state behind a number of tokens, if there are so many. -/
def State.fetches : Nat → State → Option State
  | 0, s => some s
  | count + 1, s => if s.finished then none else s.fetch.toOption.bind (fetches count)

theorem State.reaches_of_fetches {count : Nat} {s s' : State} (h : fetches count s = some s') :
    s.Reaches s' := by
  induction count generalizing s with
  | zero =>
      cases h
      exact .refl
  | succ count ih =>
      rw [fetches] at h
      split at h
      · cases h
      · rename_i hunfinished
        obtain ⟨t, ht, hrest⟩ := Option.bind_eq_some_iff.1 h
        exact reaches_of_step ⟨by simpa using hunfinished, Noted.eq_ok_of_toOption ht⟩ (ih hrest)

/-- Whether a token begins at a place is seen by reading the tokens in front of it. -/
theorem beginsToken_of_fetches {cs : List Char} {n : Nat} (count : Nat)
    (h : ((State.start cs).fetches count).any (fun s =>
      !s.finished && s.depth == 0 && s.skipToToken.cursor.index == n) = true) :
    BeginsToken cs n := by
  obtain ⟨s, hs, h⟩ := (Option.any_eq_true _ _).1 h
  simp only [Bool.and_eq_true, Bool.not_eq_true', beq_iff_eq] at h
  exact ⟨s, State.reaches_of_fetches hs, h.1.1, h.1.2, h.2⟩

end TokenStream

namespace Graph

variable {σ : TokenStream} {cs : List Char} {g : Graph} {root : Option Nat}

theorem ofTokens_eq_ok (h : ofTokens σ = .ok (g, root)) :
    ∃ fuel r, (Grammar.root? fuel).run ⟨σ.tokens, σ.fault, #[], []⟩ = .ok (root, r) ∧
      r.nodes = g := by
  rw [ofTokens] at h
  cases hroot : (Grammar.root? (4 * σ.tokens.length + 8)).run ⟨σ.tokens, σ.fault, #[], []⟩ with
  | error fault =>
      rw [hroot] at h
      cases h
  | ok x =>
      rw [hroot] at h
      cases h
      exact ⟨_, x.2, hroot, rfl⟩

/-- A graph is made only of a text that can be read to its end. -/
theorem exists_reaches_of_ofTokens (h : ofTokens (ofChars cs) = .ok (g, root)) :
    (ofChars cs).fault = none ∧ ∃ s, (State.start cs).Reaches s ∧ s.finished = true ∧
      s.waiting = (ofChars cs).tokens := by
  cases supplies_ofChars cs with
  | ends hfault hreaches hfinished hwaiting =>
      rw [State.after_nil rfl] at hreaches
      exact ⟨hfault, _, hreaches, hfinished, hwaiting⟩
  | breaksOff hfault hend =>
      obtain ⟨fuel, r, hroot, -⟩ := ofTokens_eq_ok h
      obtain ⟨hfault', front, htokens, -⟩ := (Grammar.balances_root? _ _).of_eq_ok hroot
      have hahead := (Grammar.runs_root? _ _).of_eq_ok hroot
      rcases hahead with hhead | ⟨-, hnone, -⟩
      · dsimp only at htokens
        rw [htokens] at hend
        exact absurd (List.mem_append_right front (List.mem_of_mem_head? hhead)) hend
      · exact absurd (hfault'.symm.trans hnone) hfault

variable {front key rest : List Char} {h : Graph}

/-- The graph of a text extends the graph of what comes from a line on that begins with a plain key
outside of all flow collections. -/
theorem extends_of_entry {i : Nat} (hne : key ≠ [])
    (hword : ∀ a ∈ key, (Code.char a).isWord = true)
    (hrest : isSeparator (rest.headD endMark) = true) (hfront : State.IsLineStart front)
    (htoken : BeginsToken (front ++ (key ++ ':' :: rest)) front.length)
    (hhandle : Grammar.DefinesNoHandle (ofChars (front ++ (key ++ ':' :: rest))).tokens)
    (hg : ofTokens (ofChars (front ++ (key ++ ':' :: rest))) = .ok (g, some i))
    (hh : ofTokens (ofChars (key ++ ':' :: rest)) = .ok (h, root)) :
    i = 0 ∧ root = some 0 ∧ ∃ d front v back, h.Extends d front ((1, v) :: back) g ∧
      h.node 1 = .scalar (Schema.tagOf (Text.ofChars key)) (Text.ofChars key) := by
  obtain ⟨s, hs, hunfinished, hdepth, hindex⟩ := htoken
  have hreached := ((State.isReached_start _).reaches hs).resolve_left (by simp [hunfinished])
  have hcursor := hreached.skipToToken.isNested.isBehind.eq_advance (by simp [hindex])
  rw [hindex] at hcursor
  obtain ⟨hfault, v, hv, hfinished, hwaiting⟩ := exists_reaches_of_ofTokens hg
  obtain ⟨hfault', w, hw, hwfinished, hwwaiting⟩ := exists_reaches_of_ofTokens hh
  obtain ⟨ts, us, htokens, hflow, hblock, hend, v', hv', hfinished', hwaiting'⟩ :=
    State.exists_tokens_of_entry hne hword hrest hfront hs hunfinished hdepth hcursor hv hfinished
  -- A reading that ends is the only one: the tokens behind the key are those of the block alone.
  obtain rfl : v' = w := (hw.reaches_of_finished hv' hfinished').eq_of_finished hwfinished
  obtain ⟨fuel, r, hroot, rfl⟩ := ofTokens_eq_ok hg
  obtain ⟨fuel', r', hroot', rfl⟩ := ofTokens_eq_ok hh
  rw [← hwaiting, htokens] at hhandle
  rw [← hwaiting, htokens, hfault] at hroot
  rw [← hwwaiting, hwaiting', hfault'] at hroot'
  have hlevel : nestLevel ts = 1 := by rw [nestLevel, hflow, hblock]; rfl
  have hresumes : Grammar.ResumesRoot (State.keyTokens key ++ us) none (some i) r.nodes :=
    (Grammar.runs_root?_of_nestLevel rfl hlevel hend hhandle none fuel).of_eq_ok hroot
  obtain rfl := (hresumes i rfl).1
  obtain ⟨rfl, hextends⟩ := Grammar.extends_of_resumesRoot hresumes hroot'
  exact ⟨rfl, rfl, hextends⟩

end Graph

end FrontLint.Yaml
