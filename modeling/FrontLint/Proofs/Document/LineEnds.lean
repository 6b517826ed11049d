import FrontLint.Document.Block
import FrontLint.Proofs.Document.KeyIndex
import FrontLint.Proofs.Document.Span
import FrontLint.Proofs.Document.Unreadable
import FrontLint.Proofs.Yaml.AlikeStream
import FrontLint.Proofs.Yaml.FlowBalance

/-!
# Carriage returns in a document

Only line feeds part the lines of a document, so a carriage return before each of them stays at
the end of its line. Delimiters and keys do not see it there. In the text of a block it ends the
line, with the line feed behind it or alone; that alone is behind the last line, where the text
without carriage returns has no line end.
-/

namespace FrontLint

def carriageReturn : Code := .char '\r'

/-! ## Texts -/

namespace Text

/-- A text with every line end, a carriage return with or without a line feed behind it, made a
line feed. -/
def withLineFeeds : Text → Text
  | [] => []
  | .char '\r' :: .char '\n' :: rest => lineFeed :: withLineFeeds rest
  | c :: rest => (if c = carriageReturn then lineFeed else c) :: withLineFeeds rest

/-- A text with a carriage return before every line feed. -/
def withReturns : Text → Text
  | [] => []
  | c :: rest =>
    if c = lineFeed then carriageReturn :: lineFeed :: withReturns rest
    else c :: withReturns rest

theorem withLineFeeds_cons {c : Code} (h : c ≠ carriageReturn) (t : Text) :
    withLineFeeds (c :: t) = c :: withLineFeeds t := by
  rw [withLineFeeds, if_neg h]
  rintro rest rfl
  exact absurd rfl h

theorem withLineFeeds_ofChars (cs : List Char) :
    (ofChars cs).withLineFeeds = ofChars (unifyLineEnds cs) := by
  fun_induction unifyLineEnds cs with
  | case1 => rfl
  | case2 rest ih => exact congrArg (lineFeed :: ·) ih
  | case3 c rest hnot ih =>
      rw [ofChars_cons, withLineFeeds, ih]
      · by_cases hc : c = '\r'
        · subst hc
          rfl
        · have hcode : Code.char c ≠ carriageReturn := by simpa [carriageReturn] using hc
          rw [if_neg hc, if_neg hcode, ofChars_cons]
      · intro tail hreturn hfeed
        cases rest with
        | nil => cases hfeed
        | cons d rest =>
            cases hfeed
            exact hnot rest (by cases hreturn; rfl) rfl

theorem withReturns_append (t u : Text) :
    (t ++ u).withReturns = t.withReturns ++ u.withReturns := by
  induction t with
  | nil => rfl
  | cons c t ih =>
      simp only [List.cons_append, withReturns, ih]
      split <;> rfl

theorem withReturns_of_not_mem {t : Text} (h : lineFeed ∉ t) : t.withReturns = t := by
  induction t with
  | nil => rfl
  | cons c t ih =>
      rw [List.mem_cons, not_or] at h
      rw [withReturns, if_neg (Ne.symm h.1), ih h.2]

/-- A carriage return behind the last line is a line end more. -/
theorem withLineFeeds_withReturns_append {t : Text} (h : carriageReturn ∉ t) :
    (t.withReturns ++ [carriageReturn]).withLineFeeds = t ++ [lineFeed] := by
  induction t with
  | nil => rfl
  | cons c t ih =>
      rw [List.mem_cons, not_or] at h
      rw [withReturns]
      split
      · rename_i hc
        rw [hc]
        exact congrArg (lineFeed :: ·) (ih h.2)
      · rw [List.cons_append, withLineFeeds_cons (Ne.symm h.1), ih h.2, List.cons_append]

/-- Blanks at the end of a text are dropped with those before them. -/
theorem stripEnd_append_singleton {c : Code} (hc : c.isBlank = true) (t : Text) :
    (t ++ [c]).stripEnd = t.stripEnd :=
  dropEndWhile_append_of_all (by simp [hc]) t

theorem strip_append_singleton {c : Code} (hc : c.isBlank = true) (t : Text) :
    (t ++ [c]).strip = t.strip := by
  induction t with
  | nil => simp [strip, hc]
  | cons a t ih =>
      rw [strip, strip] at ih ⊢
      rw [List.cons_append, List.dropWhile_cons, List.dropWhile_cons]
      split
      · exact ih
      · exact stripEnd_append_singleton hc (a :: t)

end Text

/-! ## Lines -/

/-- A character other than the line feed stands in a joined text if it stands in a line. -/
theorem mem_joinLines_iff {lines : List Text} {c : Code} (h : c ≠ lineFeed) :
    c ∈ joinLines lines ↔ ∃ line ∈ lines, c ∈ line := by
  induction lines with
  | nil => simp [joinLines]
  | cons line rest ih =>
      by_cases hrest : rest = []
      · simp [hrest, joinLines]
      · rw [joinLines_cons _ hrest, List.mem_append, List.mem_cons, ih]
        simp [h]

/-- A line with a carriage return behind it. -/
def returned (line : Text) : Text := line ++ [carriageReturn]

theorem isBlank_carriageReturn : carriageReturn.isBlank = true := by decide

@[simp] theorem isDelimiter_returned (line : Text) :
    isDelimiter (returned line) = isDelimiter line := by
  rw [isDelimiter, isDelimiter, returned, Text.strip_append_singleton isBlank_carriageReturn]

@[simp] theorem declaredKey?_returned (line : Text) :
    declaredKey? (returned line) = declaredKey? line := by
  cases line with
  | nil => decide
  | cons c line =>
      rw [declaredKey?, declaredKey?, returned,
        Text.stripEnd_append_singleton isBlank_carriageReturn]
      rfl

/-- Lines with a carriage return behind each but the last one. -/
def returnedLines : List Text → List Text
  | [] => []
  | [line] => [line]
  | line :: next :: rest => returned line :: returnedLines (next :: rest)

theorem returnedLines_cons (line : Text) {lines : List Text} (h : lines ≠ []) :
    returnedLines (line :: lines) = returned line :: returnedLines lines := by
  cases lines with
  | nil => exact absurd rfl h
  | cons next rest => rfl

theorem splitLines_withReturns (t : Text) :
    splitLines t.withReturns = returnedLines (splitLines t) := by
  induction t with
  | nil => rfl
  | cons c t ih =>
      rw [Text.withReturns]
      split
      · rename_i hc
        rw [hc, splitLines, if_neg (by decide), splitLines, if_pos rfl, splitLines, if_pos rfl,
          returnedLines_cons _ (splitLines_ne_nil t), ih]
        rfl
      · rename_i hc
        rw [splitLines, if_neg hc, splitLines, if_neg hc, ih]
        cases hlines : splitLines t with
        | nil => exact absurd hlines (splitLines_ne_nil t)
        | cons line lines => cases lines <;> rfl

/-- What does not see the carriage returns. -/
theorem map_returnedLines {α : Type} {f : Text → α} (hf : ∀ line, f (returned line) = f line)
    (lines : List Text) : (returnedLines lines).map f = lines.map f := by
  fun_induction returnedLines lines with
  | case1 => rfl
  | case2 => rfl
  | case3 line next rest ih => rw [List.map_cons, List.map_cons, hf, ih]

@[simp] theorem length_returnedLines (lines : List Text) :
    (returnedLines lines).length = lines.length := by
  rw [← List.length_map fun _ => (), map_returnedLines (fun _ => rfl), List.length_map]

theorem take_returnedLines {lines : List Text} {n : Nat} (h : n < lines.length) :
    (returnedLines lines).take n = (lines.take n).map returned := by
  induction n generalizing lines with
  | zero => rfl
  | succ n ih =>
      cases lines with
      | nil => cases h
      | cons line lines =>
          have hlines : n < lines.length := Nat.lt_of_succ_lt_succ h
          rw [returnedLines_cons _ (List.ne_nil_of_length_pos (Nat.zero_lt_of_lt hlines)),
            List.take_succ_cons, List.take_succ_cons, ih hlines, List.map_cons]

theorem isDelimiterAt_returnedLines (lines : List Text) (i : Nat) :
    isDelimiterAt (returnedLines lines) i = isDelimiterAt lines i := by
  have hmap : ((returnedLines lines)[i]?).map isDelimiter = (lines[i]?).map isDelimiter := by
    rw [← List.getElem?_map, ← List.getElem?_map, map_returnedLines isDelimiter_returned]
  have hany (o : Option Text) : o.any isDelimiter = (o.map isDelimiter).any id := by
    cases o <;> rfl
  rw [isDelimiterAt, isDelimiterAt, hany, hmap, hany]

/-- The delimiters are found on the same lines. -/
theorem Span.find?_returnedLines (lines : List Text) :
    Span.find? (returnedLines lines) = Span.find? lines := by
  ext span
  simp only [Span.find?_eq_some_iff, isDelimiterAt_returnedLines]

theorem map_declaredKey?_lineAt? (lines : List Text) (i : Int) :
    (lineAt? (returnedLines lines) i).map declaredKey? = (lineAt? lines i).map declaredKey? := by
  rw [lineAt?, lineAt?, length_returnedLines, Option.map_bind, Option.map_bind]
  congr 1
  funext n
  rw [Function.comp_apply, Function.comp_apply, ← List.getElem?_map, ← List.getElem?_map,
    map_returnedLines declaredKey?_returned]

theorem KeyIndex.ofNumbers?_returnedLines (lines : List Text) (numbers : List Int)
    (index : KeyIndex) :
    ofNumbers? (returnedLines lines) numbers index = ofNumbers? lines numbers index := by
  induction numbers generalizing index with
  | nil => rfl
  | cons i numbers ih =>
      have hline := map_declaredKey?_lineAt? lines i
      rw [ofNumbers?, ofNumbers?]
      cases hfound : lineAt? lines i with
      | none =>
          rw [hfound, Option.map_none, Option.map_eq_none_iff] at hline
          rw [hline]
          rfl
      | some line =>
          rw [hfound, Option.map_some] at hline
          obtain ⟨line', hfound', hkey⟩ := Option.map_eq_some_iff.1 hline
          rw [hfound']
          simp only [Option.bind_eq_bind, Option.bind_some, hkey, ih]

/-- The keys stand on the same lines. -/
theorem KeyIndex.ofLines?_returnedLines (lines : List Text) (opening closing : Int) :
    ofLines? (returnedLines lines) opening closing = ofLines? lines opening closing :=
  ofNumbers?_returnedLines lines _ []

/-! ## Blocks -/

theorem joinLines_map_returned {lines : List Text} (hne : lines ≠ [])
    (h : ∀ line ∈ lines, lineFeed ∉ line) :
    joinLines (lines.map returned) = (joinLines lines).withReturns ++ [carriageReturn] := by
  induction lines with
  | nil => exact absurd rfl hne
  | cons line lines ih =>
      rw [List.forall_mem_cons] at h
      cases lines with
      | nil =>
          rw [List.map_singleton, joinLines, joinLines, Text.withReturns_of_not_mem h.1, returned]
      | cons next rest =>
          rw [List.map_cons, joinLines_cons _ (by simp), ih (by simp) h.2, joinLines,
            Text.withReturns_append, Text.withReturns_of_not_mem h.1, Text.withReturns, if_pos rfl]
          simp [returned]

namespace Yaml

theorem blockChars_char (a : Char) (t : Text) :
    blockChars (.char a :: t) =
      if isAcceptable (.char a) then (blockChars t).map (a :: ·) else .error (.character a.toNat) :=
  rfl

theorem unifyLineEnds_carriageReturn_cons {cs : List Char} (h : ∀ rest, cs ≠ '\n' :: rest) :
    unifyLineEnds ('\r' :: cs) = '\n' :: unifyLineEnds cs := by
  rw [unifyLineEnds, if_pos rfl]
  exact fun rest _ => h rest

theorem blockChars_withLineFeeds (t : Text) :
    blockChars t.withLineFeeds = (blockChars t).map unifyLineEnds := by
  fun_induction Text.withLineFeeds t with
  | case1 => rfl
  | case2 rest ih =>
      rw [lineFeed, blockChars_char, blockChars_char, blockChars_char, if_pos (by decide), ih,
        if_pos (by decide)]
      cases blockChars rest <;> rfl
  | case3 c rest hnot ih =>
      cases c with
      | half h => rfl
      | char a =>
          by_cases ha : a = '\r'
          · subst ha
            rw [if_pos (show Code.char '\r' = carriageReturn from rfl), lineFeed, blockChars_char,
              blockChars_char, if_pos (by decide), if_pos (by decide), ih]
            cases hrest : blockChars rest with
            | error fault => rfl
            | ok cs =>
                refine congrArg Except.ok (unifyLineEnds_carriageReturn_cons ?_).symm
                rintro tail rfl
                exact hnot _ rfl ((meets_blockChars rest).of_eq_ok hrest)
          · rw [if_neg (by simpa [carriageReturn] using ha), blockChars_char, blockChars_char, ih]
            split
            · cases blockChars rest with
              | error fault => rfl
              | ok cs =>
                  refine congrArg Except.ok ?_
                  rw [unifyLineEnds, if_neg ha]
                  exact fun _ h => absurd h ha
            · rfl

/-- The value that the tokens of a block stand for. -/
def valueOfTokens (σ : TokenStream) : Except Fault (Option Value) := do
  let (g, root) ← Graph.ofTokens σ
  match root with
  | some n => return some (← g.value n)
  | none => return none

theorem valueOfText_of_blockChars {t : Text} {cs : List Char} (h : blockChars t = .ok cs) :
    valueOfText t = valueOfTokens (TokenStream.ofChars cs) := by
  rw [valueOfText, h, valueOfTokens]
  exact pure_bind cs _

theorem valueOfText_of_blockChars_error {t : Text} {fault : Fault}
    (h : blockChars t = .error fault) : valueOfText t = .error fault := by
  rw [valueOfText, h]
  rfl

theorem valueOfTokens_of_fails {σ : TokenStream} (h : σ.Fails 0) :
    ∃ e, valueOfTokens σ = .error e ∧ e.isOfBlock = true := by
  obtain ⟨e, he, hblock⟩ := (Graph.meets_ofTokens_of_fails h).exists_error
  refine ⟨e, ?_, hblock⟩
  rw [valueOfTokens, he]
  rfl

/-- The value of a block does not depend on how its line ends are spelled. -/
theorem valueOfText_withLineFeeds (t : Text) : valueOfText t.withLineFeeds = valueOfText t := by
  cases hchars : blockChars t with
  | error fault =>
      have hfeeds : blockChars t.withLineFeeds = .error fault := by
        rw [blockChars_withLineFeeds, hchars]
        rfl
      rw [valueOfText_of_blockChars_error hchars, valueOfText_of_blockChars_error hfeeds]
  | ok cs =>
      have hfeeds : blockChars t.withLineFeeds = .ok (unifyLineEnds cs) := by
        rw [blockChars_withLineFeeds, hchars]
        rfl
      rw [valueOfText_of_blockChars hchars, valueOfText_of_blockChars hfeeds,
        TokenStream.ofChars_unifyLineEnds]

theorem blockChars_append_lineFeed (t : Text) :
    blockChars (t ++ [lineFeed]) = (blockChars t).map (· ++ ['\n']) := by
  induction t with
  | nil => rfl
  | cons c t ih =>
      cases c with
      | half h => rfl
      | char a =>
          rw [List.cons_append, blockChars_char, blockChars_char, ih]
          split
          · cases blockChars t <;> rfl
          · rfl

/-- Without block scalars a line feed at the end of a block leaves its value as it is, or the block
is malformed with it and without it. -/
theorem valueOfText_append_lineFeed {t : Text}
    (h : ∀ c ∈ t, c ≠ carriageReturn ∧ c ≠ .char '|' ∧ c ≠ .char '>') :
    valueOfText (t ++ [lineFeed]) = valueOfText t ∨
      ∃ e e', valueOfText (t ++ [lineFeed]) = .error e ∧ valueOfText t = .error e' ∧
        e.isOfBlock = true ∧ e'.isOfBlock = true := by
  cases hchars : blockChars t with
  | error fault =>
      have hfeed : blockChars (t ++ [lineFeed]) = .error fault := by
        rw [blockChars_append_lineFeed, hchars]
        rfl
      rw [valueOfText_of_blockChars_error hchars, valueOfText_of_blockChars_error hfeed]
      exact .inl rfl
  | ok cs =>
      have hfeed : blockChars (t ++ [lineFeed]) = .ok (cs ++ ['\n']) := by
        rw [blockChars_append_lineFeed, hchars]
        rfl
      rw [valueOfText_of_blockChars hchars, valueOfText_of_blockChars hfeed]
      obtain rfl := (meets_blockChars t).of_eq_ok hchars
      have hcs : ∀ a ∈ cs, a ≠ '\r' ∧ a ≠ '|' ∧ a ≠ '>' := by
        intro a ha
        have hcode := h (.char a) (List.mem_map_of_mem ha)
        simpa [carriageReturn] using hcode
      rcases TokenStream.ofChars_append_lineFeed hcs with heq | ⟨hfails, hfails'⟩
      · exact .inl (congrArg valueOfTokens heq.symm)
      · obtain ⟨e, he, hblock⟩ := valueOfTokens_of_fails hfails'
        obtain ⟨e', he', hblock'⟩ := valueOfTokens_of_fails hfails
        exact .inr ⟨e, e', he, he', hblock, hblock'⟩

end Yaml

theorem interiorLines_natCast (lines : List Text) (closing : Nat) :
    interiorLines lines closing = (lines.take closing).drop 1 := by
  have h : ¬ (closing : Int) < 0 := by omega
  simp [interiorLines, h]

/-- With carriage returns a block is read as the one without, with a line feed at its end. -/
theorem valueOfText_returnedLines {lines : List Text} {closing : Nat}
    (hclosing : closing < lines.length) (hfeed : ∀ line ∈ lines, lineFeed ∉ line)
    (hreturn : ∀ line ∈ lines, carriageReturn ∉ line) :
    Yaml.valueOfText (joinLines (interiorLines (returnedLines lines) closing)) =
      Yaml.valueOfText (joinLines (interiorLines lines closing) ++ [lineFeed]) := by
  rw [interiorLines_natCast, interiorLines_natCast, take_returnedLines hclosing, ← List.map_drop]
  have hsub : ∀ line ∈ (lines.take closing).drop 1, line ∈ lines := fun line hline =>
    List.mem_of_mem_take (List.mem_of_mem_drop hline)
  generalize (lines.take closing).drop 1 = interior at hsub
  by_cases hinterior : interior = []
  · subst hinterior
    exact (Yaml.valueOfText_withLineFeeds [lineFeed]).symm
  · rw [joinLines_map_returned hinterior fun line hline => hfeed line (hsub line hline),
      ← Yaml.valueOfText_withLineFeeds, Text.withLineFeeds_withReturns_append]
    intro hmem
    obtain ⟨line, hline, hmem⟩ := (mem_joinLines_iff (by decide)).1 hmem
    exact hreturn line (hsub line hline) hmem

end FrontLint
