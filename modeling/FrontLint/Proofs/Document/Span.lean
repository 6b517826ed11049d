import FrontLint.Document.Lines
import FrontLint.Proofs.Text.Blank
import Mathlib.Data.List.Induction

/-!
# The first two delimiters

A span is found exactly when its two lines are delimiters and no other line up to the second
one is. It lies inside of the document and depends on no line behind its end. A document has
none exactly when it has fewer than two delimiters.
-/

namespace FrontLint

theorem dropWhile_append_hyphens {marks : Text} (h : ∀ c ∈ marks, c = byteOrderMark) :
    (marks ++ hyphens).dropWhile (· = byteOrderMark) = hyphens := by
  rw [List.dropWhile_append_of_pos (by simpa using h)]
  rfl

/-- Three hyphens, behind blanks and then byte order marks, and in front of blanks. -/
theorem isDelimiter_iff {line : Text} :
    isDelimiter line = true ↔
      ∃ front marks back : Text, front.isBlank = true ∧ (∀ c ∈ marks, c = byteOrderMark) ∧
        back.isBlank = true ∧ line = front ++ (marks ++ hyphens) ++ back := by
  rw [isDelimiter, decide_eq_true_eq]
  constructor
  · intro h
    obtain ⟨back, hback, hstrip⟩ :=
      exists_dropEndWhile_append_eq Code.isBlank (line.dropWhile Code.isBlank)
    refine ⟨line.takeWhile Code.isBlank, line.strip.takeWhile (· = byteOrderMark), back,
      List.all_takeWhile, ?_, hback, ?_⟩
    · intro c hc
      exact of_decide_eq_true (List.all_eq_true.1 List.all_takeWhile c hc)
    · rw [← h, List.takeWhile_append_dropWhile, List.append_assoc, Text.strip, Text.stripEnd,
        hstrip, List.takeWhile_append_dropWhile]
  · rintro ⟨front, marks, back, hfront, hmarks, hback, rfl⟩
    rw [strip_append_append hfront hback, dropWhile_append_hyphens hmarks]
    · cases marks with
      | nil => decide
      | cons c marks =>
          rintro _ ⟨⟩
          rw [hmarks c (by simp)]
          decide
    · rintro c hc
      rw [List.getLast?_append, show hyphens.getLast? = some (.char '-') from rfl] at hc
      cases hc
      decide

/-- Whether there is a line of a number, and it is a delimiter. -/
def isDelimiterAt (lines : List Text) (i : Nat) : Bool := lines[i]?.any isDelimiter

theorem lt_length_of_isDelimiterAt {lines : List Text} {i : Nat}
    (h : isDelimiterAt lines i = true) : i < lines.length := by
  by_contra hi
  simp [isDelimiterAt, List.getElem?_eq_none (Nat.le_of_not_lt hi)] at h

theorem findIdx?_isDelimiter_eq_some_iff {lines : List Text} {i : Nat} :
    lines.findIdx? isDelimiter = some i ↔
      isDelimiterAt lines i = true ∧ ∀ j < i, isDelimiterAt lines j = false := by
  rw [List.findIdx?_eq_some_iff_getElem]
  constructor
  · rintro ⟨hi, hd, hbefore⟩
    refine ⟨by simp [isDelimiterAt, hi, hd], ?_⟩
    intro j hj
    have hlt : j < lines.length := Nat.lt_trans hj hi
    simpa [isDelimiterAt, hlt] using hbefore j hj
  · rintro ⟨hd, hbefore⟩
    have hi := lt_length_of_isDelimiterAt hd
    refine ⟨hi, by simpa [isDelimiterAt, hi] using hd, ?_⟩
    intro j hj
    have hlt : j < lines.length := Nat.lt_trans hj hi
    simpa [isDelimiterAt, hlt] using hbefore j hj

theorem isDelimiterAt_drop (lines : List Text) (n i : Nat) :
    isDelimiterAt (lines.drop n) i = isDelimiterAt lines (n + i) := by
  simp [isDelimiterAt, List.getElem?_drop]

namespace Span

/-- A span is that of the first two delimiters. -/
theorem find?_eq_some_iff {lines : List Text} {span : Span} :
    find? lines = some span ↔
      span.opening < span.closing ∧ isDelimiterAt lines span.opening = true ∧
        isDelimiterAt lines span.closing = true ∧
        ∀ i < span.closing, i ≠ span.opening → isDelimiterAt lines i = false := by
  obtain ⟨opening, closing⟩ := span
  simp only [find?, Option.bind_eq_bind, Option.bind_eq_some_iff,
    findIdx?_isDelimiter_eq_some_iff, isDelimiterAt_drop]
  constructor
  · rintro ⟨o, ⟨ho, hbefore⟩, d, ⟨hc, hbetween⟩, heq⟩
    simp only [Option.pure_def, Option.some.injEq, mk.injEq] at heq
    obtain ⟨rfl, rfl⟩ := heq
    refine ⟨by omega, ho, hc, ?_⟩
    intro i hi hne
    rcases Nat.lt_or_gt_of_ne hne with hlt | hgt
    · exact hbefore i hlt
    · obtain ⟨k, rfl⟩ : ∃ k, i = o + 1 + k := ⟨i - (o + 1), by omega⟩
      exact hbetween k (by omega)
  · rintro ⟨hlt, ho, hc, hother⟩
    refine ⟨opening, ⟨ho, ?_⟩, closing - (opening + 1), ⟨?_, ?_⟩, ?_⟩
    · intro j hj
      exact hother j (by omega) (by omega)
    · rwa [show opening + 1 + (closing - (opening + 1)) = closing by omega]
    · intro j hj
      exact hother _ (by omega) (by omega)
    · simp only [Option.pure_def, Option.some.injEq, mk.injEq, true_and]
      omega

/-- One more line closes a span, if it is a delimiter behind just one other. -/
theorem find?_concat (lines : List Text) (line : Text) :
    find? (lines ++ [line]) =
      (find? lines).or
        (if isDelimiter line then
          (lines.findIdx? isDelimiter).map fun opening => ⟨opening, lines.length⟩
        else none) := by
  simp only [find?, List.findIdx?_append, Option.bind_eq_bind]
  cases hopening : lines.findIdx? isDelimiter with
  | none => by_cases hline : isDelimiter line = true <;> simp [hline]
  | some opening =>
      have hlt := (List.findIdx?_eq_some_iff_getElem.1 hopening).1
      have hlast : opening + 1 + (lines.length - (opening + 1)) = lines.length := by omega
      simp only [Option.some_or, Option.bind_some, List.drop_append_of_le_length hlt,
        List.findIdx?_append]
      cases (lines.drop (opening + 1)).findIdx? isDelimiter with
      | none => by_cases hline : isDelimiter line = true <;> simp [hline, hlast]
      | some distance => simp

/-- No span is found exactly when fewer than two lines are delimiters. -/
theorem find?_eq_none_iff {lines : List Text} :
    find? lines = none ↔ lines.countP isDelimiter < 2 := by
  induction lines using List.reverseRecOn with
  | nil => simp [find?]
  | append_singleton lines line ih =>
      -- What tells the two states without a span apart is whether a delimiter has been seen.
      have hopening : lines.findIdx? isDelimiter = none ↔ lines.countP isDelimiter = 0 := by
        rw [List.findIdx?_eq_none_iff, List.countP_eq_zero]
        simp
      rw [find?_concat, Option.or_eq_none_iff, ih, List.countP_append, List.countP_singleton]
      by_cases hline : isDelimiter line = true
      · rw [if_pos hline, if_pos hline, Option.map_eq_none_iff, hopening]
        omega
      · rw [if_neg hline, if_neg hline]
        simp

/-- A span that is found is found whatever lines follow. -/
theorem find?_append {lines : List Text} {span : Span} (h : find? lines = some span)
    (more : List Text) : find? (lines ++ more) = some span := by
  induction more using List.reverseRecOn with
  | nil => rwa [List.append_nil]
  | append_singleton more line ih =>
      rw [← List.append_assoc, find?_concat, ih, Option.some_or]

theorem closing_lt_length {lines : List Text} {span : Span} (h : find? lines = some span) :
    span.closing < lines.length :=
  lt_length_of_isDelimiterAt (find?_eq_some_iff.1 h).2.2.1

/-- The span that is found is that of the first two delimiters: two lines that are delimiters,
while no other line in front of the second one is. None is found exactly when there are fewer
than two, and no line behind the second one makes a difference. A delimiter is a line of three
hyphens behind blanks and then byte order marks, and in front of blanks. -/
theorem find?_firstTwo (lines : List Text) :
    (∀ opening closing, find? lines = some ⟨opening, closing⟩ ↔
      opening < closing ∧ isDelimiterAt lines opening = true ∧
        isDelimiterAt lines closing = true ∧
        ∀ i < closing, i ≠ opening → isDelimiterAt lines i = false) ∧
      (find? lines = none ↔ lines.countP isDelimiter < 2) ∧
      (∀ span more, find? lines = some span → find? (lines ++ more) = some span) ∧
      ∀ line, isDelimiter line = true ↔
        ∃ front marks back : Text, front.isBlank = true ∧ (∀ c ∈ marks, c = byteOrderMark) ∧
          back.isBlank = true ∧ line = front ++ (marks ++ hyphens) ++ back :=
  ⟨fun _ _ => find?_eq_some_iff, find?_eq_none_iff, fun _ more h => find?_append h more,
    fun _ => isDelimiter_iff⟩

/-- A document with a delimiter behind a byte order mark, one among blanks, and a line of four
hyphens between the two. -/
def markedRules : List Text :=
  ["A", byteOrderMark :: hyphens, "----", " ---\t"]

theorem find?_firstTwo_markedRules :
    find? markedRules = some ⟨1, 3⟩ ∧ find? (markedRules ++ [hyphens]) = some ⟨1, 3⟩ ∧
      find? (markedRules.take 3) = none :=
  have hspan : find? markedRules = some ⟨1, 3⟩ :=
    ((find?_firstTwo markedRules).1 1 3).2 (by decide)
  ⟨hspan, (find?_firstTwo markedRules).2.2.1 _ _ hspan,
    (find?_firstTwo (markedRules.take 3)).2.1.2 (by decide)⟩

end Span

end FrontLint
