import FrontLint.Linter
import Mathlib.Data.List.Basic
import Mathlib.Data.List.Infix
import Mathlib.Logic.Relation

/-!
# Removal of a text

What is left when a text is removed wherever it stands in an output: nothing else is taken
out, and a text without line feeds is removed from each line by itself. What stood on both
sides of a removed text is joined, so the text can occur again where it was removed, but only
there.
-/

namespace FrontLint

namespace Output

/-! ## Steps of a removal -/

theorem removeFrom_append (text skipped rest : List Char) :
    removeFrom text skipped.length (skipped ++ rest) = removeFrom text 0 rest := by
  induction skipped with
  | nil => rfl
  | cons c skipped ih =>
      rw [List.length_cons, List.cons_append, removeFrom]
      exact ih

theorem remove_append_self {text : List Char} (hne : text ≠ []) (rest : List Char) :
    remove text (text ++ rest) = remove text rest := by
  obtain ⟨c, tail, rfl⟩ := List.exists_cons_of_ne_nil hne
  have hpre : (c :: tail).isPrefixOf (c :: (tail ++ rest)) = true :=
    List.isPrefixOf_iff_prefix.2 ⟨rest, rfl⟩
  rw [remove, List.cons_append, removeFrom, if_pos hpre, List.length_cons, Nat.add_sub_cancel,
    removeFrom_append]
  rfl

theorem remove_cons_of_not_isPrefix {text rest : List Char} {c : Char} (h : ¬ text <+: c :: rest) :
    remove text (c :: rest) = c :: remove text rest := by
  rw [remove, removeFrom, if_neg fun hp => h (List.isPrefixOf_iff_prefix.1 hp)]
  rfl

/-- An output is empty, begins with the text, or begins with a character that stays. -/
theorem remove_induction {text : List Char} (hne : text ≠ []) {motive : List Char → Prop}
    (nil : motive []) (found : ∀ rest, motive rest → motive (text ++ rest))
    (other : ∀ c rest, ¬ text <+: c :: rest → motive rest → motive (c :: rest))
    (output : List Char) : motive output := by
  induction h : output.length using Nat.strong_induction_on generalizing output with
  | _ n ih =>
      subst h
      cases output with
      | nil => exact nil
      | cons c rest =>
          by_cases hp : text <+: c :: rest
          · obtain ⟨back, hback⟩ := hp
            rw [← hback]
            refine found back (ih _ ?_ _ rfl)
            have := List.length_pos_iff.2 hne
            rw [← hback, List.length_append]
            omega
          · exact other c rest hp (ih _ (by simp) _ rfl)

section

variable {text : List Char}

theorem remove_of_not_isInfix {output : List Char} (h : ¬ text <:+: output) :
    remove text output = output := by
  induction output with
  | nil => rfl
  | cons c rest ih =>
      rw [remove_cons_of_not_isPrefix fun hp => h hp.isInfix,
        ih fun hin => h (hin.trans (List.suffix_cons c rest).isInfix)]

theorem remove_sublist (hne : text ≠ []) (output : List Char) :
    (remove text output).Sublist output := by
  induction output using remove_induction hne with
  | nil => exact .slnil
  | found rest ih =>
      rw [remove_append_self hne]
      exact ih.trans (List.sublist_append_right text rest)
  | other c rest hp ih =>
      rw [remove_cons_of_not_isPrefix hp]
      exact ih.cons_cons c

theorem length_remove_lt (hne : text ≠ []) {output : List Char} (h : text <:+: output) :
    (remove text output).length < output.length := by
  induction output using remove_induction hne with
  | nil => exact absurd (List.infix_nil.1 h) hne
  | found rest ih =>
      have := List.length_pos_iff.2 hne
      have := (remove_sublist hne rest).length_le
      rw [remove_append_self hne, List.length_append]
      omega
  | other c rest hp ih =>
      have hrest := ih ((List.infix_cons_iff.1 h).resolve_left hp)
      rw [remove_cons_of_not_isPrefix hp, List.length_cons, List.length_cons]
      omega

theorem remove_eq_self_iff (hne : text ≠ []) {output : List Char} :
    remove text output = output ↔ ¬ text <:+: output := by
  refine ⟨fun h hin => ?_, remove_of_not_isInfix⟩
  have := length_remove_lt hne hin
  rw [h] at this
  omega

/-! ## Lines -/

/-- A text without line feeds that stands before a line feed stands in the line. -/
theorem isPrefix_of_isPrefix_lineFeed {line rest : List Char} (hfeed : '\n' ∉ text)
    (h : text <+: line ++ '\n' :: rest) : text <+: line := by
  rcases List.prefix_or_prefix_of_prefix h (List.prefix_append line _) with hin | ⟨tail, rfl⟩
  · exact hin
  · cases tail with
    | nil => simp
    | cons c tail =>
        obtain ⟨after, hafter⟩ := h
        simp only [List.append_assoc, List.cons_append, List.append_cancel_left_eq,
          List.cons.injEq] at hafter
        simp [hafter.1] at hfeed

/-- A text without line feeds is removed from what stands before a line feed and from what
stands behind it. -/
theorem remove_append_lineFeed (hne : text ≠ []) (hfeed : '\n' ∉ text) (front back : List Char) :
    remove text (front ++ '\n' :: back) = remove text front ++ '\n' :: remove text back := by
  induction front using remove_induction hne with
  | nil =>
      refine remove_cons_of_not_isPrefix fun hp => hne ?_
      exact List.prefix_nil.1 (isPrefix_of_isPrefix_lineFeed hfeed hp)
  | found rest ih =>
      rw [List.append_assoc, remove_append_self hne, remove_append_self hne, ih]
  | other c rest hp ih =>
      have hline : ¬ text <+: c :: (rest ++ '\n' :: back) :=
        fun h => hp (isPrefix_of_isPrefix_lineFeed hfeed h)
      rw [List.cons_append, remove_cons_of_not_isPrefix hp, remove_cons_of_not_isPrefix hline, ih,
        List.cons_append]

end

/-! ## What is taken out -/

/-- One occurrence of one of the texts is taken out. -/
inductive TakesOut (texts : List (List Char)) : List Char → List Char → Prop where
  | mk {text : List Char} (h : text ∈ texts) (front back : List Char) :
      TakesOut texts (front ++ text ++ back) (front ++ back)

theorem TakesOut.cons {texts : List (List Char)} {output left : List Char}
    (h : TakesOut texts output left) (c : Char) : TakesOut texts (c :: output) (c :: left) := by
  cases h with
  | mk h front back => exact .mk h (c :: front) back

/-- A removal takes out occurrences of the text, one after another, and nothing else. -/
theorem takesOut_remove {text : List Char} (hne : text ≠ []) {texts : List (List Char)}
    (h : text ∈ texts) (output : List Char) :
    Relation.ReflTransGen (TakesOut texts) output (remove text output) := by
  induction output using remove_induction hne with
  | nil => exact .refl
  | found rest ih =>
      rw [remove_append_self hne]
      exact .head (.mk h [] rest) ih
  | other c rest hp ih =>
      rw [remove_cons_of_not_isPrefix hp]
      exact ih.lift (c :: ·) fun _ _ hstep => hstep.cons c

/-! ## What is left -/

/-- What is left of an output when something is removed between pieces of it, in none of which
one of the texts occurs. -/
inductive Remains (texts : List (List Char)) : List Char → List Char → Prop where
  | piece {piece : List Char} (h : ∀ text ∈ texts, ¬ text <:+: piece) : Remains texts piece piece
  | gap {piece gap output left : List Char} (h : ∀ text ∈ texts, ¬ text <:+: piece)
      (hgap : gap ≠ []) (hrest : Remains texts output left) :
      Remains texts (piece ++ gap ++ output) (piece ++ left)

/-- The characters of an output are kept or dropped one by one. The last ones that were kept
are `run`; in no run of kept characters one of the texts occurs. -/
inductive Keeps (texts : List (List Char)) : List Char → List Char → List Char → Prop where
  | done {run : List Char} (h : ∀ text ∈ texts, ¬ text <:+: run) : Keeps texts run [] []
  | keep {run output left : List Char} {c : Char} (h : Keeps texts (run ++ [c]) output left) :
      Keeps texts run (c :: output) (c :: left)
  | drop {run output left : List Char} {c : Char} (hrun : ∀ text ∈ texts, ¬ text <:+: run)
      (h : Keeps texts [] output left) : Keeps texts run (c :: output) left

namespace Keeps

variable {texts others : List (List Char)} {run output middle left : List Char}

theorem remains (h : Keeps texts run output left) :
    Remains texts (run ++ output) (run ++ left) := by
  induction h with
  | done h => simpa using Remains.piece h
  | keep h ih => simpa using ih
  | @drop run output left c hrun h ih =>
      have hgap := Remains.gap hrun (List.cons_ne_nil c []) ih
      simpa using hgap

theorem not_isInfix (h : Keeps texts run output left) : ∀ text ∈ texts, ¬ text <:+: run := by
  induction h with
  | done h => exact h
  | @keep run _ _ c h ih =>
      exact fun text htext hin => ih text htext (hin.trans (List.prefix_append run [c]).isInfix)
  | drop hrun h ih => exact hrun

theorem all (run output : List Char) : Keeps [] run output output := by
  induction output generalizing run with
  | nil => exact .done (by simp)
  | cons c output ih => exact .keep (ih _)

/-- Of what one removal keeps another one keeps a part. A run that both keep ends a run of
each. -/
theorem append {run' : List Char} (h : Keeps texts run output middle)
    (h' : Keeps others run' middle left) {both : List Char} (hboth : both <:+ run)
    (hboth' : both <:+ run') : Keeps (texts ++ others) both output left := by
  have hfree : ∀ {run run' : List Char}, (∀ text ∈ texts, ¬ text <:+: run) →
      (∀ text ∈ others, ¬ text <:+: run') → ∀ {both : List Char}, both <:+ run → both <:+ run' →
      ∀ text ∈ texts ++ others, ¬ text <:+: both := by
    intro run run' hrun hrun' both hboth hboth' text htext hin
    rcases List.mem_append.1 htext with htext | htext
    · exact hrun text htext (hin.trans hboth.isInfix)
    · exact hrun' text htext (hin.trans hboth'.isInfix)
  induction h generalizing run' both left with
  | done h =>
      cases h' with
      | done h' => exact .done (hfree h h' hboth hboth')
  | @keep run output middle c h ih =>
      cases h' with
      | keep h' =>
          refine .keep (ih h' ?_ ?_)
          · exact List.suffix_append_self_iff.2 hboth
          · exact List.suffix_append_self_iff.2 hboth'
      | drop hrun' h' =>
          have hrun := (Keeps.keep h).not_isInfix
          exact .drop (hfree hrun hrun' hboth hboth') (ih h' (by simp) (by simp))
  | drop hrun h ih =>
      exact .drop (hfree hrun h'.not_isInfix hboth hboth') (ih h' (by simp) (by simp))

end Keeps

theorem Keeps.dropAll {texts : List (List Char)} {run gap output left : List Char}
    (hrun : ∀ text ∈ texts, ¬ text <:+: run) (hgap : gap ≠ []) (h : Keeps texts [] output left) :
    Keeps texts run (gap ++ output) left := by
  have hnil := h.not_isInfix
  induction gap generalizing run with
  | nil => exact absurd rfl hgap
  | cons c gap ih =>
      refine .drop hrun ?_
      by_cases hlast : gap = []
      · simpa [hlast] using h
      · exact ih hnil hlast

/-- A removal keeps runs in which the text does not occur. -/
theorem keeps_remove {text : List Char} (hne : text ≠ []) (output : List Char) :
    Keeps [text] [] output (remove text output) := by
  -- no occurrence begins in the run, wherever it ends
  suffices hrun : ∀ run, (∀ start, start <:+ run → start ≠ [] → ¬ text <+: start ++ output) →
      Keeps [text] run output (remove text output) from
    hrun [] fun start hstart hstart' => absurd (List.suffix_nil.1 hstart) hstart'
  have hfree : ∀ {run output : List Char},
      (∀ start, start <:+ run → start ≠ [] → ¬ text <+: start ++ output) →
      ∀ other ∈ [text], ¬ other <:+: run := by
    rintro run output hrun other hother ⟨front, back, rfl⟩
    obtain rfl := List.mem_singleton.1 hother
    exact hrun (other ++ back) ⟨front, by simp⟩ (by simp [hne]) ⟨back ++ output, by simp⟩
  induction output using remove_induction hne with
  | nil => exact fun run hrun => .done (hfree hrun)
  | found rest ih =>
      intro run hrun
      rw [remove_append_self hne]
      refine .dropAll (hfree hrun) hne (ih [] fun start hstart hstart' => ?_)
      exact absurd (List.suffix_nil.1 hstart) hstart'
  | other c rest hp ih =>
      intro run hrun
      rw [remove_cons_of_not_isPrefix hp]
      refine .keep (ih (run ++ [c]) fun start hstart hstart' => ?_)
      rcases List.suffix_concat_iff.1 hstart with rfl | ⟨front, rfl, hfront⟩
      · exact absurd rfl hstart'
      · by_cases hnil : front = []
        · simpa [hnil] using hp
        · simpa using hrun front hfront hnil

end Output

end FrontLint
