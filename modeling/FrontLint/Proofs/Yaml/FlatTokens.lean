import FrontLint.Proofs.Document.Flat
import FrontLint.Proofs.Yaml.Plain
import FrontLint.Yaml.Token.Stream

/-!
# Tokens of flat blocks

The tokens of a flat block: the beginning of a mapping, a key and a value for each entry, and
the end. The reader stands at the beginning of a line, or behind the colon of its entry, with
nothing waiting and no candidate.
-/

namespace FrontLint

/-- The tokens of an entry. -/
def FlatEntry.tokens (e : FlatEntry) : List Yaml.Token :=
  [.key, .scalar (Text.ofChars e.key) true, .value, .scalar (Text.ofChars e.value) true]

namespace Yaml.TokenStream

/-- A stream with tokens in front of it. -/
def prepend (ts : List Token) (s : TokenStream) : TokenStream := ⟨ts ++ s.tokens, s.fault⟩

theorem prepend_append (ts us : List Token) (s : TokenStream) :
    prepend (ts ++ us) s = prepend ts (prepend us s) := by
  simp [prepend]

namespace State

variable {s s' : State} {n : Nat}

theorem settle_of_finished (h : s.finished = true) : settle (n + 1) s = .ok s := by
  simp [settle, h]
  rfl

theorem dropStale_of_candidates_eq_nil (h : s.candidates = []) : s.dropStale = .ok s := by
  cases s
  simp_all [dropStale]

/-- Nothing can come before a token that waits while there is no candidate. -/
theorem settle_of_candidates_eq_nil (hw : s.waiting ≠ []) (hc : s.candidates = []) :
    settle (n + 1) s = .ok s := by
  cases hf : s.finished with
  | true => exact settle_of_finished hf
  | false =>
      simp [settle, hf, hw, dropStale_of_candidates_eq_nil hc, isUndecided, hc, bind, Except.bind]
      rfl

theorem settle_of_fetch (hf : s.finished = false) (hw : s.waiting = []) (h : s.fetch = .ok s') :
    settle (n + 1) s = settle n s' := by
  simp [settle, hf, hw, h, bind, Except.bind]

theorem settle_of_undecided (hf : s.finished = false) (hw : s.waiting ≠ [])
    (hstale : s.dropStale = .ok s) (hu : s.isUndecided = true) (h : s.fetch = .ok s') :
    settle (n + 1) s = settle n s' := by
  simp [settle, hf, hw, hstale, hu, h, bind, Except.bind]

/-- A state that asks for no further token before it delivers one. -/
def IsSettled (s : State) : Prop := s.finished = true ∨ s.waiting ≠ [] ∧ s.candidates = []

theorem IsSettled.settle (h : s.IsSettled) : settle (n + 1) s = .ok s := by
  rcases h with hf | ⟨hw, hc⟩
  · exact settle_of_finished hf
  · exact settle_of_candidates_eq_nil hw hc

/-- What is delivered depends only on the settled state. -/
theorem deliver_of_settle (hsettled : s'.IsSettled)
    (h : s.settle (s.cursor.rest.length + 2) = .ok s') (fuel : Nat) :
    s.deliver fuel = s'.deliver fuel := by
  cases fuel with
  | zero => rfl
  | succ fuel => rw [deliver, deliver, h, hsettled.settle]

/-- The tokens that wait in a settled state are delivered in order. -/
theorem deliver_of_waiting {s : State} (h : s.finished = true ∨ s.candidates = []) (fuel : Nat) :
    s.deliver (s.waiting.length + fuel) =
      prepend s.waiting (deliver fuel
        { s with waiting := [], delivered := s.delivered + s.waiting.length }) := by
  obtain ⟨c, indents, depth, allowed, candidates, waiting, delivered, finished⟩ := s
  induction waiting generalizing delivered with
  | nil => simp [prepend]
  | cons t ts ih =>
      have hsettled : IsSettled ⟨c, indents, depth, allowed, candidates, t :: ts, delivered,
          finished⟩ := h.imp_right fun hc => ⟨by simp, hc⟩
      have hrest := ih (delivered + 1) h
      rw [List.length_cons, Nat.add_right_comm, deliver, hsettled.settle]
      simp only at hrest ⊢
      rw [hrest]
      simp only [prepend, List.cons_append, Nat.add_assoc, Nat.add_comm 1]

theorem deliver_of_finished (hf : s.finished = true) (hw : s.waiting = []) (fuel : Nat) :
    s.deliver (fuel + 1) = ⟨[], none⟩ := by
  simp [deliver, settle_of_finished hf, hw]

/-! ## What comes next -/

theorem unwind_of_indent_le {column : Int} (h : s.indent ≤ column) : s.unwind column = s := by
  obtain ⟨c, indents, depth, allowed, candidates, waiting, delivered, finished⟩ := s
  cases indents with
  | nil => simp [unwind, unwound]
  | cons i rest =>
      have hi : ¬ column < i := by simpa [indent] using h
      simp [unwind, unwound, hi]

variable {a : Char} {back : List Char} {index line column : Nat}

/-- Nothing is skipped before a character of a token. -/
theorem skipToToken_of_isInline (hs : s.cursor.rest = a :: back) (ha : isInline a = true)
    (hspace : a ≠ ' ') (hhash : a ≠ '#') : s.skipToToken = s := by
  obtain ⟨⟨rest, index, line, column⟩, indents, depth, allowed, candidates, waiting, delivered,
    finished⟩ := s
  cases hs
  have hmark : a ≠ '\uFEFF' := by
    rintro rfl
    exact absurd ha (by decide)
  simp [skipToToken, skipBlankLines, Cursor.head, Cursor.skipSpaces, Cursor.skip, Cursor.run,
    Cursor.advance, Cursor.skipComment, hmark, hspace, hhash, Cursor.lineBreak?_of_isInline ha]

/-- A space between two tokens is skipped. -/
theorem skipToToken_space (hs : s.cursor = ⟨' ' :: a :: back, index, line, column⟩)
    (ha : isInline a = true) (hspace : a ≠ ' ') (hhash : a ≠ '#') :
    s.skipToToken = { s with cursor := ⟨a :: back, index + 1, line, column + 1⟩ } := by
  have hnext : Cursor.next ⟨' ' :: a :: back, index, line, column⟩ =
      ⟨a :: back, index + 1, line, column + 1⟩ := Cursor.next_of_isInline (by decide)
  simp [skipToToken, hs, skipBlankLines, Cursor.head, Cursor.skipSpaces, Cursor.skip, Cursor.run,
    Cursor.advance, Cursor.skipComment, hnext, hspace, hhash, Cursor.lineBreak?_of_isInline ha]

theorem skipToToken_nil (hs : s.cursor.rest = []) : s.skipToToken = s := by
  obtain ⟨⟨rest, index, line, column⟩, indents, depth, allowed, candidates, waiting, delivered,
    finished⟩ := s
  cases hs
  simp [skipToToken, skipBlankLines, Cursor.head, Cursor.skipSpaces, Cursor.skip, Cursor.run,
    Cursor.advance, Cursor.skipComment, Cursor.lineBreak?, endMark]

/-- No word character is a mark of a token. -/
theorem isIndicator_of_isWord (ha : (Code.char a).isWord = true) : isIndicator a = false := by
  have hmarks : "-?:,[]\x7b\x7d#&*!|>'\"%@`".toList.all
      (fun b => !(Code.char b).isWord) = true := by decide
  simp only [isIndicator, List.contains_eq_mem, decide_eq_false_iff_not]
  intro hmem
  simpa [ha] using List.all_eq_true.1 hmarks a hmem

theorem fetchToken_of_isWord (hs : s.cursor.rest = a :: back)
    (ha : (Code.char a).isWord = true) : s.fetchToken = s.fetchPlain := by
  have hne : ∀ b : Char, (Code.char b).isWord = false → a ≠ b := fun b hb => ne_of_isWord ha hb
  have hplain : s.isAtPlain = true := by
    simp [isAtPlain, Cursor.head, hs, isSeparator_of_isWord ha, isIndicator_of_isWord ha]
  simp [fetchToken, Cursor.head, Cursor.isAtRule, Cursor.peek, hs, hplain, hne, Code.isWord,
    isAsciiWord, hne endMark (by decide)]

theorem fetchToken_of_isAlpha (hs : s.cursor.rest = a :: back) (ha : a.isAlpha = true) :
    s.fetchToken = s.fetchPlain :=
  fetchToken_of_isWord hs (isWord_of_isAsciiWord (isAsciiWord_of_isAlpha ha))

/-- A colon that ends a word makes a candidate a key. -/
theorem fetchToken_colon (hs : s.cursor.rest = ':' :: back)
    (hback : isSeparator (back.headD endMark) = true) : s.fetchToken = s.fetchValue := by
  have hpeek : back.headD endMark = back[0]?.getD endMark := by cases back <;> rfl
  rw [hpeek, endMark] at hback
  simp [fetchToken, Cursor.head, Cursor.isAtRule, Cursor.peek, hs, hback, endMark]

theorem fetchToken_nil (hs : s.cursor.rest = []) : s.fetchToken = s.fetchEnd := by
  simp [fetchToken, Cursor.head, hs]

theorem fetch_eq (hskip : s.skipToToken = s') (hstale : s'.dropStale = .ok s')
    (hindent : s'.indent ≤ s'.cursor.column) : s.fetch = s'.fetchToken := by
  simp [fetch, hskip, hstale, bind, Except.bind, unwind_of_indent_le hindent]

/-! ## Entries -/

/-- The state between two tokens, none of which is waiting: in column 0 of a line, or behind
the colon of an entry. The mapping has begun with the first entry. -/
def between (c : Cursor) (opened allowed : Bool) (delivered : Nat) : State :=
  ⟨c, if opened then [0, -1] else [-1], 0, allowed, [], [], delivered, false⟩

theorem indent_between_le (c : Cursor) (opened allowed : Bool) (delivered : Nat) :
    (between c opened allowed delivered).indent ≤ (c.column : Int) := by
  cases opened <;> simp [between, indent]

/-- The token that begins the mapping, before the first entry. -/
def opening (opened : Bool) : List Token := if opened then [] else [.blockMappingStart]

variable (e : FlatEntry)

theorem plainScalar_key (back : List Char) (index line : Nat) {indent : Int} :
    Cursor.plainScalar false indent ⟨e.chars ++ back, index, line, 0⟩ =
      (.scalar (Text.ofChars e.key) true, false,
        ⟨':' :: ' ' :: (e.value ++ back), index + e.key.length, line, e.key.length⟩) := by
  have hback : isSeparator ((' ' :: (e.value ++ back)).headD endMark) = true := rfl
  have hread := Cursor.plainScalar_word indent index line 0 (w := e.key)
    (by simpa using e.key_ne_nil)
    (fun a ha => isWord_of_isAsciiWord (e.isAsciiWord_of_mem a ha)) hback
  simpa [FlatEntry.chars] using hread

/-- The key of an entry is read as far as its colon. -/
theorem fetch_key (back : List Char) (index line : Nat) (opened : Bool) (delivered : Nat) :
    fetch (between ⟨e.chars ++ back, index, line, 0⟩ opened true delivered) =
      .ok ⟨⟨':' :: ' ' :: (e.value ++ back), index + e.key.length, line, e.key.length⟩,
        if opened then [0, -1] else [-1], 0, false,
        [(0, ⟨delivered, opened, index, line, 0⟩)], [.scalar (Text.ofChars e.key) true],
        delivered, false⟩ := by
  obtain ⟨a, tail, hchars, ha⟩ := e.chars_eq_cons
  have hrest : (between ⟨e.chars ++ back, index, line, 0⟩ opened true delivered).cursor.rest =
      a :: (tail ++ back) := by simp [between, hchars]
  have hskip := skipToToken_of_isInline hrest (isInline_of_isAsciiWord (isAsciiWord_of_isAlpha ha))
    (ne_of_isAlpha ha (by decide)) (ne_of_isAlpha ha (by decide))
  rw [fetch_eq hskip (dropStale_of_candidates_eq_nil rfl) (indent_between_le _ _ _ _),
    fetchToken_of_isAlpha hrest ha]
  cases opened with
  | false =>
      simp [fetchPlain, between, addCandidate, inFlow, indent, dropCandidate, plainScalar_key,
        bind, Except.bind, pure, Except.pure, push]
  | true =>
      simp [fetchPlain, between, addCandidate, inFlow, indent, dropCandidate, plainScalar_key,
        bind, Except.bind, pure, Except.pure, push]

/-- The colon puts a key token before the key, and the beginning of the mapping before the
first one. -/
theorem fetch_colon (back : List Char) (index line : Nat) (opened : Bool) (delivered : Nat)
    (t : Token) {column : Nat} (hcolumn : column ≤ 128) :
    let s : State := ⟨⟨':' :: ' ' :: back, index + column, line, column⟩,
      if opened then [0, -1] else [-1], 0, false, [(0, ⟨delivered, opened, index, line, 0⟩)],
      [t], delivered, false⟩
    s.dropStale = .ok s ∧ s.isUndecided = true ∧
      s.fetch = .ok { between ⟨' ' :: back, index + column + 1, line, column + 1⟩ true false
        delivered with waiting := opening opened ++ [.key, t, .value] } := by
  intro s
  have hstale : s.dropStale = .ok s := by
    have hnear : ¬ index + 1024 < index + column := by omega
    simp [s, dropStale, isStale, hnear]
  have hskip : s.skipToToken = s :=
    skipToToken_of_isInline (s := s) (a := ':') rfl (by decide) (by decide) (by decide)
  have hindent : s.indent ≤ s.cursor.column := by
    cases opened <;> simp [s, indent]
  refine ⟨hstale, by simp [s, isUndecided], ?_⟩
  rw [fetch_eq hskip hstale hindent, fetchToken_colon (s := s) rfl rfl]
  have hnext : Cursor.next ⟨':' :: ' ' :: back, index + column, line, column⟩ =
      ⟨' ' :: back, index + column + 1, line, column + 1⟩ := Cursor.next_of_isInline (by decide)
  cases opened with
  | false =>
      simp [s, fetchValue, insertKey, inFlow, openBlock, indent, take, between, opening,
        Cursor.advance, hnext, pure, Except.pure]
  | true =>
      simp [s, fetchValue, insertKey, inFlow, openBlock, indent, take, between, opening,
        Cursor.advance, hnext, pure, Except.pure]

/-- The key of an entry is settled once its colon is found. -/
theorem settle_key (back : List Char) (index line : Nat) (opened : Bool) (delivered : Nat) :
    settle ((e.chars ++ back).length + 2)
        (between ⟨e.chars ++ back, index, line, 0⟩ opened true delivered) =
      .ok { between ⟨' ' :: (e.value ++ back), index + e.key.length + 1, line,
        e.key.length + 1⟩ true false delivered with
          waiting := opening opened ++ [.key, .scalar (Text.ofChars e.key) true, .value] } := by
  obtain ⟨hstale, hundecided, hcolon⟩ := fetch_colon (e.value ++ back) index line opened delivered
    (.scalar (Text.ofChars e.key) true) e.length_key_le
  obtain ⟨n, hn⟩ : ∃ n, (e.chars ++ back).length = n + 1 := by
    obtain ⟨a, tail, hchars, -⟩ := e.chars_eq_cons
    exact ⟨(tail ++ back).length, by simp [hchars]⟩
  rw [hn, settle_of_fetch rfl rfl (fetch_key e back index line opened delivered),
    settle_of_undecided rfl (by simp) hstale hundecided hcolon,
    settle_of_candidates_eq_nil (by simp) rfl]

/-- The place behind a value: the end of the block, or the beginning of the next line. -/
def behind (index line column : Nat) : List FlatEntry → Cursor
  | [] => ⟨[], index, line, column⟩
  | e :: rest => ⟨e.chars ++ flatRest rest, index + 1, line + 1, 0⟩

theorem plainGap_flatRest (rest : List FlatEntry) (index line column : Nat) :
    Cursor.plainGap ⟨flatRest rest, index, line, column⟩ =
      (if rest = [] then [] else [' '], !rest.isEmpty, behind index line column rest) := by
  cases rest with
  | nil => rfl
  | cons e rest =>
      obtain ⟨a, tail, hchars, ha⟩ := e.chars_eq_cons
      have hgap : Cursor.plainGap ⟨'\n' :: a :: (tail ++ flatRest rest), index, line, column⟩ = _ :=
        Cursor.plainGap_lineFeed ha
      simpa [flatRest, behind, hchars] using hgap

/-- The value of an entry is read to the end of its line. -/
theorem plainScalar_value (rest : List FlatEntry) (index line column : Nat) :
    Cursor.plainScalar false 0 ⟨e.value ++ flatRest rest, index, line, column⟩ =
      (.scalar (Text.ofChars e.value) true, !rest.isEmpty,
        behind (index + e.value.length) line (column + e.value.length) rest) := by
  refine Cursor.plainScalar_spaced e.words_ne_nil ?_ ?_ (by simp) (plainGap_flatRest ..) ?_
  · intro w hw
    exact ⟨e.word_ne_nil w hw, fun a ha => isAsciiWord_of_isAlpha (e.isAlpha_of_mem w hw a ha)⟩
  · cases rest <;> rfl
  · cases rest with
    | nil => rfl
    | cons next rest => simp [behind]

theorem settle_value (rest : List FlatEntry) (index line column delivered : Nat) :
    settle ((' ' :: (e.value ++ flatRest rest)).length + 2)
        (between ⟨' ' :: (e.value ++ flatRest rest), index, line, column⟩ true false delivered) =
      .ok { between (behind (index + 1 + e.value.length) line (column + 1 + e.value.length) rest)
        true (!rest.isEmpty) delivered with waiting := [.scalar (Text.ofChars e.value) true] } := by
  obtain ⟨a, tail, hvalue, ha⟩ := e.value_eq_cons
  have hskip : skipToToken (between ⟨' ' :: (e.value ++ flatRest rest), index, line, column⟩ true
      false delivered) =
      between ⟨e.value ++ flatRest rest, index + 1, line, column + 1⟩ true false delivered := by
    rw [hvalue]
    exact skipToToken_space rfl (isInline_of_isAsciiWord (isAsciiWord_of_isAlpha ha))
      (ne_of_isAlpha ha (by decide)) (ne_of_isAlpha ha (by decide))
  have hrest : (between ⟨e.value ++ flatRest rest, index + 1, line, column + 1⟩ true false
      delivered).cursor.rest = a :: (tail ++ flatRest rest) := by simp [between, hvalue]
  have hfetch : fetch (between ⟨' ' :: (e.value ++ flatRest rest), index, line, column⟩ true
      false delivered) =
      .ok { between (behind (index + 1 + e.value.length) line (column + 1 + e.value.length) rest)
        true (!rest.isEmpty) delivered with waiting := [.scalar (Text.ofChars e.value) true] } := by
    rw [fetch_eq hskip (dropStale_of_candidates_eq_nil rfl) (indent_between_le _ _ _ _),
      fetchToken_of_isAlpha hrest ha]
    simp [fetchPlain, between, addCandidate, inFlow, indent, plainScalar_value, bind, Except.bind,
      pure, Except.pure, push]
  rw [settle_of_fetch rfl rfl hfetch, List.length_cons,
    settle_of_candidates_eq_nil (by simp) rfl]

/-- At the end of the block its mapping ends. -/
theorem settle_end (index line column delivered : Nat) :
    ∃ s, settle 2 (between ⟨[], index, line, column⟩ true false delivered) = .ok s ∧
      s.finished = true ∧ s.waiting = [.blockEnd, .streamEnd] := by
  have hskip := skipToToken_nil (s := between ⟨[], index, line, column⟩ true false delivered) rfl
  have hfetch : ∃ s, fetch (between ⟨[], index, line, column⟩ true false delivered) = .ok s ∧
      s.finished = true ∧ s.waiting = [.blockEnd, .streamEnd] := by
    rw [fetch_eq hskip (dropStale_of_candidates_eq_nil rfl) (indent_between_le _ _ _ _),
      fetchToken_nil rfl]
    exact ⟨_, rfl, rfl, rfl⟩
  obtain ⟨s, hs, hfinished, hwaiting⟩ := hfetch
  exact ⟨s, by rw [settle_of_fetch rfl rfl hs, settle_of_finished hfinished], hfinished, hwaiting⟩

/-- The tokens that wait in a state with no candidate are delivered, and the reader goes on. -/
theorem deliver_of_settle_between {c : Cursor} {opened allowed : Bool} {delivered : Nat}
    {ts : List Token} (hts : ts ≠ [])
    (h : s.settle (s.cursor.rest.length + 2) =
      .ok { between c opened allowed delivered with waiting := ts }) (fuel : Nat) :
    s.deliver (ts.length + fuel) =
      prepend ts (deliver fuel (between c opened allowed (delivered + ts.length))) := by
  rw [deliver_of_settle (.inr ⟨hts, rfl⟩) h]
  exact deliver_of_waiting (s := { between c opened allowed delivered with waiting := ts })
    (.inr rfl) fuel

/-- The tokens of one entry, after which the reader stands behind its line. -/
theorem deliver_entry (rest : List FlatEntry) (index line : Nat) (opened : Bool)
    (delivered fuel : Nat) :
    ∃ index' column' delivered' : Nat,
      deliver ((opening opened).length + 4 + fuel)
          (between ⟨e.chars ++ flatRest rest, index, line, 0⟩ opened true delivered) =
        prepend (opening opened ++ e.tokens)
          (deliver fuel (between (behind index' line column' rest) true (!rest.isEmpty)
            delivered')) := by
  have hkey := deliver_of_settle_between (by simp)
    (settle_key e (flatRest rest) index line opened delivered) (1 + fuel)
  have hvalue := deliver_of_settle_between (by simp)
    (settle_value e rest (index + e.key.length + 1) line (e.key.length + 1)
      (delivered +
        (opening opened ++ [Token.key, .scalar (Text.ofChars e.key) true, .value]).length))
    fuel
  have hentry := hkey.trans (congrArg (prepend _) hvalue)
  have hcount : (opening opened ++ [Token.key, .scalar (Text.ofChars e.key) true, .value]).length +
      (1 + fuel) = (opening opened).length + 4 + fuel := by
    simp only [List.length_append, List.length_cons, List.length_nil]
    omega
  rw [← prepend_append, List.append_assoc, hcount] at hentry
  exact ⟨_, _, _, hentry⟩

theorem deliver_end (index line column delivered fuel : Nat) :
    deliver (2 + (fuel + 1)) (between ⟨[], index, line, column⟩ true false delivered) =
      ⟨[.blockEnd, .streamEnd], none⟩ := by
  obtain ⟨s, hs, hfinished, hwaiting⟩ := settle_end index line column delivered
  have hrest := deliver_of_waiting (.inl hfinished) (fuel + 1)
  rw [hwaiting, List.length_cons, List.length_singleton] at hrest
  rw [deliver_of_settle (.inl hfinished) hs, hrest]
  exact congrArg (prepend _) (deliver_of_finished
    (s := { s with waiting := [], delivered := s.delivered + (1 + 1) }) hfinished rfl fuel)

/-- The tokens of entries, from the beginning of the first one's line to the end. -/
theorem deliver_entries (rest : List FlatEntry) (index line : Nat) (opened : Bool)
    (delivered fuel : Nat) :
    deliver ((opening opened).length + 4 * rest.length + 7 + fuel)
        (between ⟨e.chars ++ flatRest rest, index, line, 0⟩ opened true delivered) =
      prepend (opening opened ++ (e :: rest).flatMap FlatEntry.tokens)
        ⟨[.blockEnd, .streamEnd], none⟩ := by
  induction rest generalizing e index line opened delivered with
  | nil =>
      obtain ⟨index', column', delivered', h⟩ :=
        deliver_entry e [] index line opened delivered (2 + (fuel + 1))
      rw [behind, List.isEmpty_nil, Bool.not_true, deliver_end] at h
      rw [List.flatMap_singleton, ← h]
      congr 1
      simp only [List.length_nil]
      omega
  | cons next rest ih =>
      obtain ⟨index', column', delivered', h⟩ := deliver_entry e (next :: rest) index line opened
        delivered ((opening true).length + 4 * rest.length + 7 + fuel)
      rw [behind, List.isEmpty_cons, Bool.not_false, ih, ← prepend_append] at h
      rw [List.flatMap_cons, ← List.append_assoc]
      refine Eq.trans ?_ h
      congr 1
      simp only [opening, if_true, List.length_nil, List.length_cons]
      omega

end State

/-- The tokens of a flat block. -/
theorem ofChars_flatBlock {entries : List FlatEntry} (hne : entries ≠ []) :
    ofChars (flatBlock entries) =
      ⟨.blockMappingStart :: (entries.flatMap FlatEntry.tokens ++ [.blockEnd, .streamEnd]),
        none⟩ := by
  obtain ⟨e, rest, rfl⟩ := List.exists_cons_of_ne_nil hne
  have hlength := length_le_length_flatRest rest
  obtain ⟨fuel, hfuel⟩ : ∃ fuel, 5 * (flatBlock (e :: rest)).length + 8 =
      (State.opening false).length + 4 * rest.length + 7 + fuel := by
    refine ⟨5 * (flatBlock (e :: rest)).length - 4 * rest.length, ?_⟩
    simp only [flatBlock, State.opening, List.length_append, Bool.false_eq_true, if_false,
      List.length_singleton]
    omega
  have hstart : State.start (flatBlock (e :: rest)) =
      State.between ⟨e.chars ++ flatRest rest, 0, 0, 0⟩ false true 0 := rfl
  rw [ofChars, hfuel, hstart, State.deliver_entries]
  simp [prepend, State.opening]

end Yaml.TokenStream

end FrontLint
