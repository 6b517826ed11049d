import FrontLint.Proofs.Linter.Removal

/-!
# Removing the root from reports

Where each line begins with a text that occurs nowhere else in the line, removing the text
takes away these beginnings and nothing more.
-/

namespace FrontLint

namespace Output

/-- Removing what each line begins with leaves the lines behind it. -/
theorem remove_flatMap {text : List Char} (hne : text ≠ []) (hfeed : '\n' ∉ text)
    {lines : List (List Char)} (hocc : ∀ line ∈ lines, ¬ text <:+: line) :
    remove text (lines.flatMap fun line => text ++ line ++ ['\n']) =
      lines.flatMap fun line => line ++ ['\n'] := by
  induction lines with
  | nil => rfl
  | cons line lines ih =>
      have hline : ¬ text <:+: line := hocc line List.mem_cons_self
      have hrest := ih fun other h => hocc other (List.mem_cons_of_mem _ h)
      calc remove text ((line :: lines).flatMap fun line => text ++ line ++ ['\n'])
        _ = remove text (text ++ (line ++ '\n' :: lines.flatMap fun line =>
              text ++ line ++ ['\n'])) := by simp
        _ = remove text (line ++ '\n' :: lines.flatMap fun line => text ++ line ++ ['\n']) :=
            remove_append_self hne _
        _ = line ++ '\n' :: remove text (lines.flatMap fun line => text ++ line ++ ['\n']) := by
            rw [remove_append_lineFeed hne hfeed, remove_of_not_isInfix hline]
        _ = (line :: lines).flatMap fun line => line ++ ['\n'] := by
            rw [hrest]
            simp

/-- A root that stands for itself is removed in one spelling only. -/
theorem relocate_of_resolve_eq {t : FileTree} {root : Path} (h : t.resolve root = root)
    (output : List Char) : relocate t root output = remove (root.text ++ ['/']) output := by
  rw [relocate, rootTexts]
  simp [h]

end Output

/-- Lines that are each ended by a line feed are what splitting gives before an empty rest. -/
theorem splitOn_flatMap_lines {lines : List (List Char)} (h : ∀ line ∈ lines, '\n' ∉ line) :
    (lines.flatMap fun line => line ++ ['\n']).splitOn '\n' = lines ++ [[]] := by
  induction lines with
  | nil => rfl
  | cons line lines ih =>
      have hline : '\n' ∉ line := h line List.mem_cons_self
      rw [List.flatMap_cons, List.append_assoc, List.singleton_append,
        List.splitOn_append_cons_self_of_not_mem hline,
        ih fun other hother => h other (List.mem_cons_of_mem _ hother), List.cons_append]

end FrontLint
