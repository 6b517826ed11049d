import FrontLint.Proofs.Yaml.FlatTokens
import FrontLint.Proofs.Yaml.Steps

/-!
# The tokens of an entry

Where a token begins at the beginning of a line, outside of flow collections, and the line begins
with a plain key, the key is one of the outermost mapping. The tokens from there on are those of the
text from there on.
-/

namespace FrontLint.Yaml

namespace Cursor

@[simp] theorem rest_start (cs : List Char) : (start cs).rest = cs := rfl

@[simp] theorem index_start (cs : List Char) : (start cs).index = 0 := rfl

@[simp] theorem line_start (cs : List Char) : (start cs).line = 0 := rfl

@[simp] theorem column_start (cs : List Char) : (start cs).column = 0 := rfl

theorem index_advance {n : Nat} {c : Cursor} (h : n ≤ c.rest.length) :
    (advance n c).index = c.index + n := by
  induction n generalizing c with
  | zero => rfl
  | succ n ih =>
      have hne : c.rest ≠ [] := by
        intro hnil
        rw [hnil] at h
        exact absurd h (Nat.not_succ_le_zero n)
      rw [advance, ih (by rw [rest_next, List.length_tail]; omega), index_next hne]
      omega

/-- Behind a line feed a line begins. -/
theorem advance_lineFeed (front back : List Char) :
    ∃ line, (advance front.length (start (front ++ '\n' :: back))).line < line ∧
      advance (front ++ ['\n']).length (start (front ++ '\n' :: back)) =
        (start back).moved (front.length + 1) line := by
  have hindex : (advance front.length (start (front ++ '\n' :: back))).index = front.length := by
    rw [index_advance (by simp [start]), start, Nat.zero_add]
  have hrest : (advance front.length (start (front ++ '\n' :: back))).rest = '\n' :: back := by
    rw [rest_advance, start, List.drop_left]
  rw [List.length_append, advance_add, List.length_singleton, advance, advance]
  generalize advance front.length (start (front ++ '\n' :: back)) = c at hindex hrest
  refine ⟨c.line + 1, Nat.lt_succ_self _, ?_⟩
  obtain ⟨_, _, line, _⟩ := c
  cases hrest
  cases hindex
  simp [next, isBreak, isBreakOrEnd, endMark, start, moved]

end Cursor

namespace TokenStream.State

/-! ## The beginning of a line -/

/-- A text behind which a line begins. -/
def IsLineStart (front : List Char) : Prop := front = [] ∨ ∃ lines, front = lines ++ ['\n']

variable {s s' v : State} {front back : List Char}

theorem exists_moved (hfront : IsLineStart front) (back : List Char) :
    ∃ line, Cursor.advance front.length (.start (front ++ back)) =
      (Cursor.start back).moved front.length line := by
  rcases hfront with rfl | ⟨lines, rfl⟩
  · exact ⟨0, rfl⟩
  · obtain ⟨line, -, hline⟩ := Cursor.advance_lineFeed lines back
    refine ⟨line, ?_⟩
    rw [List.append_assoc, List.singleton_append, hline, List.length_append, List.length_singleton]

/-- At the beginning of a line each candidate is out of reach. -/
theorem isStale_of_isLineStart (hfront : IsLineStart front)
    (hs : s.IsReached (front ++ back))
    (hcursor : s.cursor = .advance front.length (.start (front ++ back))) :
    ∀ k ∈ s.candidates, s.isStale k.2 = true := by
  intro k hk
  obtain ⟨d, ⟨n, hn⟩, hne, hbehind, -, hline⟩ := hs.isPassed k hk
  have hlength := hbehind.length_le
  have hrest : s.cursor.rest = back := by rw [hcursor, Cursor.rest_advance, Cursor.start,
    List.drop_left]
  have hpos := List.length_pos_iff.2 hne
  rw [hrest, Cursor.rest_next, List.length_tail] at hlength
  have hd : d.rest.length = front.length + back.length - n := by
    rw [hn, Cursor.rest_advance, List.length_drop, Cursor.start, List.length_append]
  rcases hfront with rfl | ⟨lines, rfl⟩
  · simp only [List.length_nil] at hd
    omega
  · obtain ⟨line, hlt, heq⟩ := Cursor.advance_lineFeed lines back
    simp only [List.append_assoc, List.singleton_append] at hn hcursor
    have hle : n ≤ lines.length := by
      simp only [List.length_append, List.length_singleton] at hd
      omega
    have hdline : d.line ≤ (Cursor.advance lines.length (.start (lines ++ '\n' :: back))).line := by
      refine Cursor.IsBehind.line_le ⟨lines.length - n, ?_⟩
      rw [hn, ← Cursor.advance_add, Nat.add_sub_cancel' hle]
    have hsline : s.cursor.line = line := by rw [hcursor, heq]; simp [Cursor.moved, Cursor.start]
    rw [isStale, Bool.or_eq_true, bne_iff_ne]
    exact .inl (by omega)

/-- The columns of open block collections that are not beyond the first column. -/
theorem unwound_zero {indents : List Int} (hpairwise : indents.Pairwise (· > ·))
    (hlast : indents.getLast? = some (-1)) :
    ∃ opened : Bool, (unwound 0 indents).1 = if opened then [0, -1] else [-1] := by
  fun_induction unwound 0 indents with
  | case1 => cases hlast
  | case2 i rest hi kept n hrest ih =>
      rw [hrest] at ih
      refine ih (List.pairwise_cons.1 hpairwise).2 ?_
      cases rest with
      | nil =>
          rw [List.getLast?_singleton, Option.some_inj] at hlast
          omega
      | cons j rest => exact hlast
  | case3 i rest hi =>
      cases rest with
      | nil =>
          rw [List.getLast?_singleton, Option.some_inj] at hlast
          exact ⟨false, by rw [hlast]; rfl⟩
      | cons j rest =>
          have hmem : (-1 : Int) ∈ j :: rest := List.mem_of_getLast? hlast
          have hij := (List.pairwise_cons.1 hpairwise).1
          have hi0 : i = 0 := by
            have := hij (-1) hmem
            omega
          cases rest with
          | nil =>
              rw [List.getLast?_cons_cons, List.getLast?_singleton, Option.some_inj] at hlast
              exact ⟨true, by rw [hi0, hlast]; rfl⟩
          | cons l rest =>
              have hmem : (-1 : Int) ∈ l :: rest := List.mem_of_getLast? hlast
              have := hij j List.mem_cons_self
              have := (List.pairwise_cons.1 (List.pairwise_cons.1 hpairwise).2).1 (-1) hmem
              omega

/-- With the token that opens a mapping, or inside of one in the first column, the tokens that wait
have opened one block collection. -/
theorem blockLevel_append_opening {waiting : List Token} {indents : List Int} {opened : Bool}
    (hlevel : blockLevel waiting + 1 = indents.length)
    (hindents : indents = if opened then [0, -1] else [-1]) :
    blockLevel (waiting ++ opening opened) = 1 := by
  rw [hindents] at hlevel
  rw [blockLevel_append]
  cases opened with
  | false =>
      simp only [Bool.false_eq_true, if_false, List.length_singleton] at hlevel
      simp only [opening, Bool.false_eq_true, if_false, blockLevel_cons, Token.blockChange,
        blockLevel_nil]
      omega
  | true =>
      simp only [if_true, List.length_cons, List.length_nil] at hlevel
      simp only [opening, if_true, blockLevel_nil]
      omega

/-- At the beginning of a line that begins in the first column, the reader is in no block
collection, or in one that begins in this column. -/
theorem exists_between (hfront : IsLineStart front) (hs : s.IsReached (front ++ back))
    (hdepth : s.depth = 0) (hcursor : s.cursor = .advance front.length (.start (front ++ back)))
    (hdrop : s.dropStale = .ok s') :
    ∃ opened allowed waiting line, s'.unwind s'.cursor.column =
        (between (.start back) opened allowed 0).after waiting front.length line ∧
      flowLevel waiting = 0 ∧ blockLevel (waiting ++ opening opened) = 1 ∧
      .streamEnd ∉ waiting := by
  obtain ⟨line, hline⟩ := exists_moved hfront back
  have hstale := isStale_of_isLineStart hfront hs hcursor
  have hnil : s'.candidates = [] := by
    rw [(dropStale_eq_ok hdrop).2, List.filter_eq_nil_iff]
    intro k hk
    simp [hstale k hk]
  have hcolumn : s'.cursor.column = 0 := by
    rw [(dropStale_eq_ok hdrop).2, hcursor, hline]
    rfl
  have ht := hs.dropStale hdrop
  have hu := ht.unwind s'.cursor.column
  have hdepth : s'.depth = 0 := by rw [(dropStale_eq_ok hdrop).2, hdepth]
  have hcursor : s'.cursor = (Cursor.start back).moved front.length line := by
    rw [(dropStale_eq_ok hdrop).2, hcursor, hline]
  obtain ⟨opened, hopened⟩ := unwound_zero ht.isNested.pairwise ht.isNested.getLast?_eq
  have hflow : ¬ s'.inFlow = true := by simp [inFlow, hdepth]
  have hindents : (s'.unwind s'.cursor.column).indents = if opened then [0, -1] else [-1] := by
    rw [unwind, if_neg hflow, hcolumn]
    exact hopened
  have hunwind : s'.unwind s'.cursor.column =
      ⟨s'.cursor, (s'.unwind s'.cursor.column).indents, s'.depth, s'.keyAllowed, s'.candidates,
        (s'.unwind s'.cursor.column).waiting, s'.delivered, s'.finished⟩ := by
    rw [unwind, if_neg hflow]
  refine ⟨opened, s'.keyAllowed, (s'.unwind s'.cursor.column).waiting, line, ?_, ?_, ?_,
    hu.isOpen.streamEnd_not_mem⟩
  · rw [hunwind, hindents, hcursor, hdepth, hnil, ht.delivered_eq, ht.isOpen.unfinished]
    simp [after, between]
  · have hlevel := hu.isOpen.depth_eq
    rw [(extends_unwind s' _).depth_eq, hdepth] at hlevel
    omega
  · exact blockLevel_append_opening hu.isNested.level_eq hindents

/-! ## The key of an entry -/

section

variable {key rest : List Char} (hne : key ≠ []) (hword : ∀ a ∈ key, (Code.char a).isWord = true)
  (hrest : isSeparator (rest.headD endMark) = true)

/-- A key has been read as far as its colon. -/
def behindKey (key rest : List Char) (opened allowed : Bool) : State :=
  { between ⟨':' :: rest, key.length, 0, key.length⟩ opened false 0 with
    candidates := if allowed then [(0, ⟨0, opened, 0, 0, 0⟩)] else []
    waiting := [.scalar (Text.ofChars key) true] }

/-- The tokens of a key and its colon. -/
def keyTokens (key : List Char) : List Token := [.key, .scalar (Text.ofChars key) true, .value]

/-- The reader behind the colon of a key. -/
def behindColon (key rest : List Char) : State :=
  between ⟨rest, key.length + 1, 0, key.length + 1⟩ true false 0

include hne hword hrest in
theorem fetchToken_key (opened allowed : Bool) :
    fetchToken (between (.start (key ++ ':' :: rest)) opened allowed 0) =
      .ok (behindKey key rest opened allowed) := by
  obtain ⟨a, tail, hkey⟩ := List.exists_cons_of_ne_nil hne
  have hread (indent : Int) : Cursor.plainScalar false indent (.start (key ++ ':' :: rest)) =
      (.scalar (Text.ofChars key) true, false, ⟨':' :: rest, key.length, 0, key.length⟩) := by
    have hword := Cursor.plainScalar_word indent 0 0 0 hne hword hrest
    rwa [Nat.zero_add] at hword
  rw [fetchToken_of_isWord (a := a) (by rw [hkey]; rfl) (hword a (hkey ▸ List.mem_cons_self))]
  cases opened <;> cases allowed <;>
    simp [fetchPlain, between, addCandidate, inFlow, indent, dropCandidate, hread, bind,
      Except.bind, pure, Except.pure, push, behindKey]

theorem skipToToken_behindKey (opened allowed : Bool) :
    (behindKey key rest opened allowed).skipToToken = behindKey key rest opened allowed :=
  skipToToken_of_isInline (show _ = ':' :: rest from rfl) (by decide) (by decide) (by decide)

theorem indent_behindKey_le (opened allowed : Bool) :
    (behindKey key rest opened allowed).indent ≤
      ((behindKey key rest opened allowed).cursor.column : Int) := by
  cases opened <;> simp [behindKey, between, indent]

theorem isStale_behindKey (opened allowed : Bool) :
    (behindKey key rest opened allowed).isStale ⟨0, opened, 0, 0, 0⟩ =
      decide (1024 < key.length) := by
  simp [behindKey, between, isStale]

include hrest in
/-- A colon behind a text that is no key is misplaced. -/
theorem fetchToken_behindKey_false (opened : Bool) :
    (behindKey key rest opened false).fetchToken = .error (.misplaced .value) := by
  rw [fetchToken_colon (s := behindKey key rest opened false) rfl hrest, fetchValue]
  rfl

include hrest in
/-- A colon behind a key puts a key token before it, and opens the mapping if it is the first. -/
theorem fetchToken_behindKey_true (opened : Bool) :
    (behindKey key rest opened true).fetchToken =
      .ok ((behindColon key rest).after (opening opened ++ keyTokens key) 0 0) := by
  have hnext : Cursor.next ⟨':' :: rest, key.length, 0, key.length⟩ =
      ⟨rest, key.length + 1, 0, key.length + 1⟩ := Cursor.next_of_isInline (by decide)
  rw [fetchToken_colon (s := behindKey key rest opened true) rfl hrest]
  cases opened <;>
    simp [fetchValue, behindKey, behindColon, keyTokens, insertKey, inFlow, openBlock, indent, take,
      between, opening, Cursor.advance, hnext, pure, Except.pure, after]

include hrest in
theorem fetch_behindKey (hlength : key.length ≤ 1024) (opened : Bool) :
    (behindKey key rest opened true).fetch =
      .ok ((behindColon key rest).after (opening opened ++ keyTokens key) 0 0) := by
  have hstale : (behindKey key rest opened true).dropStale =
      .ok (behindKey key rest opened true) := by
    have hnear : (behindKey key rest opened true).isStale ⟨0, opened, 0, 0, 0⟩ = false := by
      rw [isStale_behindKey, decide_eq_false (by omega)]
    rw [dropStale]
    simp [behindKey, between] at hnear ⊢
    simp [hnear]
  rw [fetch_eq (skipToToken_behindKey opened true) hstale (indent_behindKey_le opened true),
    fetchToken_behindKey_true hrest]

include hrest in
/-- A key is read where one is allowed, unless it is too long. -/
theorem of_fetch_behindKey {opened allowed : Bool} {w : State}
    (h : (behindKey key rest opened allowed).fetch = .ok w) :
    allowed = true ∧ key.length ≤ 1024 := by
  by_contra hnot
  obtain ⟨t, hdrop, htoken⟩ := fetch_eq_ok h
  rw [skipToToken_behindKey] at hdrop
  have ht : t = behindKey key rest opened false := by
    obtain ⟨-, rfl⟩ := dropStale_eq_ok hdrop
    cases allowed with
    | false => rfl
    | true =>
        have hstale : (behindKey key rest opened true).isStale ⟨0, opened, 0, 0, 0⟩ = true := by
          rw [isStale_behindKey, decide_eq_true (by simpa using hnot)]
        simp [behindKey, between] at hstale ⊢
        simp [hstale]
  rw [ht, unwind_of_indent_le (indent_behindKey_le opened false),
    fetchToken_behindKey_false hrest] at htoken
  cases htoken

/-! ## What follows -/

theorem Reaches.after {u v : State} (h : u.Reaches v) (ts : List Token) :
    (u.after ts 0 0).Reaches (v.after ts 0 0) := by
  refine h.lift (State.after ts 0 0) fun s s' hstep => ⟨hstep.1, ?_⟩
  rw [fetch_after (.inl rfl), hstep.2]
  rfl

theorem Reaches.of_after {u v : State} {ts : List Token} {a b : Nat} (hu : 0 < u.cursor.index)
    (h : (u.after ts a b).Reaches v) : ∃ v', u.Reaches v' ∧ v = v'.after ts a b := by
  suffices ∃ v', u.Reaches v' ∧ v = v'.after ts a b ∧ 0 < v'.cursor.index by
    obtain ⟨v', hv', heq, -⟩ := this
    exact ⟨v', hv', heq⟩
  induction h with
  | refl => exact ⟨u, .refl, rfl, hu⟩
  | @tail v w _ hstep ih =>
      obtain ⟨v', hv', rfl, hpos⟩ := ih
      have hfetch := hstep.2
      rw [fetch_after (.inr hpos)] at hfetch
      cases hw : v'.fetch with
      | error fault =>
          rw [hw] at hfetch
          cases hfetch
      | ok w' =>
          rw [hw] at hfetch
          have hbehind := ((fetched_fetch v').of_eq_ok hw).isBehind
          exact ⟨w', hv'.tail ⟨hstep.1, hw⟩, (Except.ok.inj hfetch).symm,
            hpos.trans_le hbehind.index_le⟩

/-- The end is reached from a state before it through the next token. -/
theorem Reaches.exists_fetch {u v : State} (h : u.Reaches v) (hu : u.finished = false)
    (hv : v.finished = true) : ∃ w, u.fetch = .ok w ∧ w.Reaches v := by
  rcases Relation.ReflTransGen.cases_head h with rfl | ⟨w, hw, hrest⟩
  · rw [hu] at hv
    cases hv
  · exact ⟨w, hw.2, hrest⟩

include hne hword hrest in
/-- The reader of an entry's line alone is behind its colon after two steps. -/
theorem reaches_behindColon (hlength : key.length ≤ 1024) :
    (start (key ++ ':' :: rest)).Reaches
      ((behindColon key rest).after (.blockMappingStart :: keyTokens key) 0 0) := by
  obtain ⟨a, tail, hkey⟩ := List.exists_cons_of_ne_nil hne
  have ha := hword a (hkey ▸ List.mem_cons_self)
  have hskip : (start (key ++ ':' :: rest)).skipToToken = start (key ++ ':' :: rest) :=
    skipToToken_of_isInline (show _ = a :: (tail ++ ':' :: rest) by rw [hkey]; rfl)
      (isInline_of_isWord ha) (ne_of_isWord ha (by decide)) (ne_of_isWord ha (by decide))
  have hfetch : (start (key ++ ':' :: rest)).fetch = .ok (behindKey key rest false true) := by
    rw [fetch_eq hskip (dropStale_of_candidates_eq_nil rfl) (by simp [start, indent])]
    exact fetchToken_key hne hword hrest false true
  exact reaches_of_step ⟨rfl, hfetch⟩
    (.single ⟨rfl, fetch_behindKey hrest hlength false⟩)

include hne hword hrest in
/-- The tokens from an entry on are those of the text from its line on. -/
theorem exists_tokens_of_entry (hfront : IsLineStart front)
    (hs : (start (front ++ (key ++ ':' :: rest))).Reaches s) (hunfinished : s.finished = false)
    (hdepth : s.depth = 0)
    (hcursor : s.skipToToken.cursor =
      .advance front.length (.start (front ++ (key ++ ':' :: rest))))
    (hv : (start (front ++ (key ++ ':' :: rest))).Reaches v) (hfinished : v.finished = true) :
    ∃ ts us, v.waiting = ts ++ (keyTokens key ++ us) ∧ flowLevel ts = 0 ∧ blockLevel ts = 1 ∧
      .streamEnd ∉ ts ∧ ∃ v', (start (key ++ ':' :: rest)).Reaches v' ∧ v'.finished = true ∧
        v'.waiting = .blockMappingStart :: (keyTokens key ++ us) := by
  have hreached := ((isReached_start _).reaches hs).resolve_left (by simp [hunfinished])
  obtain ⟨w, hw, hwv⟩ := Reaches.exists_fetch (hs.reaches_of_finished hv hfinished) hunfinished
    hfinished
  obtain ⟨t, hdrop, htoken⟩ := fetch_eq_ok hw
  have hdepth : s.skipToToken.depth = 0 := by
    obtain ⟨_, heq⟩ := skipToToken_eq s
    rw [heq, hdepth]
  obtain ⟨opened, allowed, waiting, line, hbetween, hflow, hblock, hend⟩ :=
    exists_between hfront hreached.skipToToken hdepth hcursor hdrop
  rw [hbetween, fetchToken_after, fetchToken_key hne hword hrest] at htoken
  obtain rfl := Except.ok.inj htoken
  obtain ⟨x, hx, hxv⟩ := Reaches.exists_fetch hwv rfl hfinished
  rw [fetch_after (.inr (List.length_pos_iff.2 hne))] at hx
  cases hcolon : (behindKey key rest opened allowed).fetch with
  | error fault =>
      rw [hcolon] at hx
      cases hx
  | ok y =>
      obtain ⟨rfl, hlength⟩ := of_fetch_behindKey hrest hcolon
      rw [fetch_behindKey hrest hlength] at hx
      obtain rfl := Except.ok.inj hx
      rw [after_after] at hxv
      have hpos : 0 < (behindColon key rest).cursor.index := Nat.succ_pos _
      obtain ⟨v', hv', rfl⟩ := Reaches.of_after hpos hxv
      refine ⟨waiting ++ opening opened, v'.waiting, ?_, ?_, hblock, ?_, ?_⟩
      · simp [after]
      · cases opened <;> simp [opening, hflow, Token.flowChange]
      · cases opened <;> simp [opening, hend]
      · exact ⟨_, (reaches_behindColon hne hword hrest hlength).trans (hv'.after _), hfinished, rfl⟩

end

end TokenStream.State

end FrontLint.Yaml
