import FrontLint.Proofs.Linter.Removal

/-!
# Relocated output

The two spellings of a root are removed one after the other, the longer one first. Each line of
an output is relocated by itself, and a spelling that begins a line is taken away whole.

## Main results

* `relocate_byLine`
* `relocate_remains`
-/

namespace FrontLint

namespace Output

/-- Remove several texts, one after another. -/
def removeAll (texts : List (List Char)) (output : List Char) : List Char :=
  texts.foldl (fun out text => remove text out) output

theorem relocate_eq_removeAll (t : FileTree) (root : Path) (output : List Char) :
    relocate t root output = removeAll (rootTexts t root) output := rfl

theorem mem_rootTexts_iff {t : FileTree} {root : Path} {text : List Char} :
    text ∈ rootTexts t root ↔
      text = root.text ++ ['/'] ∨ text = (t.resolve root).text ++ ['/'] := by
  simp only [rootTexts]
  split
  · rename_i h
    simp [h]
  · split <;> simp [or_comm]

theorem ne_nil_of_mem_rootTexts (t : FileTree) (root : Path) :
    ∀ text ∈ rootTexts t root, text ≠ [] := by
  intro text h
  rcases mem_rootTexts_iff.1 h with rfl | rfl <;> simp

/-- A text is removed before those that are shorter. -/
theorem pairwise_rootTexts (t : FileTree) (root : Path) :
    (rootTexts t root).Pairwise fun text other => other.length ≤ text.length := by
  simp only [rootTexts]
  split
  · simp
  · split
    · rename_i h
      simpa using Nat.le_of_lt h
    · rename_i h
      simpa using h

section

variable {texts : List (List Char)}

theorem removeAll_cons (text : List Char) (texts : List (List Char)) (output : List Char) :
    removeAll (text :: texts) output = removeAll texts (remove text output) := rfl

theorem removeAll_of_not_isInfix {output : List Char} (h : ∀ text ∈ texts, ¬ text <:+: output) :
    removeAll texts output = output := by
  induction texts with
  | nil => rfl
  | cons text texts ih =>
      rw [removeAll_cons, remove_of_not_isInfix (h text (by simp)),
        ih fun other hother => h other (by simp [hother])]

theorem removeAll_sublist (hne : ∀ text ∈ texts, text ≠ []) (output : List Char) :
    (removeAll texts output).Sublist output := by
  induction texts generalizing output with
  | nil => exact .refl output
  | cons text texts ih =>
      exact (ih (fun other h => hne other (by simp [h])) _).trans
        (remove_sublist (hne text (by simp)) output)

/-- Nothing is removed only where none of the texts occurs. -/
theorem removeAll_eq_self_iff (hne : ∀ text ∈ texts, text ≠ []) {output : List Char} :
    removeAll texts output = output ↔ ∀ text ∈ texts, ¬ text <:+: output := by
  refine ⟨fun h => ?_, removeAll_of_not_isInfix⟩
  induction texts with
  | nil => simp
  | cons text texts ih =>
      have hothers : ∀ other ∈ texts, other ≠ [] := fun other h => hne other (by simp [h])
      have htext : remove text output = output := by
        by_contra hother
        have hin : text <:+: output := by
          by_contra hin
          exact hother (remove_of_not_isInfix hin)
        have hlt := length_remove_lt (hne text (by simp)) hin
        have hle := (removeAll_sublist hothers (remove text output)).length_le
        rw [← removeAll_cons, h] at hle
        omega
      rw [removeAll_cons, htext] at h
      rintro other (_ | ⟨_, hother⟩)
      · exact (remove_eq_self_iff (hne text (by simp))).1 htext
      · exact ih hothers h other hother

theorem removeAll_append_lineFeed (hne : ∀ text ∈ texts, text ≠ [])
    (hfeed : ∀ text ∈ texts, '\n' ∉ text) (front back : List Char) :
    removeAll texts (front ++ '\n' :: back) =
      removeAll texts front ++ '\n' :: removeAll texts back := by
  induction texts generalizing front back with
  | nil => rfl
  | cons text texts ih =>
      simp only [removeAll_cons]
      rw [remove_append_lineFeed (hne text (by simp)) (hfeed text (by simp)),
        ih (fun other h => hne other (by simp [h])) fun other h => hfeed other (by simp [h])]

/-- The lines of what is left are what is left of the lines. -/
theorem splitOn_removeAll (hne : ∀ text ∈ texts, text ≠ []) (hfeed : ∀ text ∈ texts, '\n' ∉ text)
    (output : List Char) :
    (removeAll texts output).splitOn '\n' = (output.splitOn '\n').map (removeAll texts) := by
  induction h : output.length using Nat.strong_induction_on generalizing output with
  | _ n ih =>
      subst h
      by_cases hmem : '\n' ∈ output
      · obtain ⟨line, rest, rfl, hline⟩ := List.eq_append_cons_of_mem hmem
        have hleft : '\n' ∉ removeAll texts line :=
          fun h => hline ((removeAll_sublist hne line).mem h)
        have hlt : rest.length < (line ++ '\n' :: rest).length := by
          rw [List.length_append, List.length_cons]
          omega
        rw [removeAll_append_lineFeed hne hfeed, List.splitOn_append_cons_self_of_not_mem hleft,
          List.splitOn_append_cons_self_of_not_mem hline, ih _ hlt rest rfl, List.map_cons]
      · have hleft : '\n' ∉ removeAll texts output :=
          fun h => hmem ((removeAll_sublist hne output).mem h)
        rw [List.splitOn_eq_singleton hleft, List.splitOn_eq_singleton hmem, List.map_singleton]

/-- Texts without line feeds occur in an output only if they occur in one of its lines. -/
theorem not_isInfix_iff_lines (hne : ∀ text ∈ texts, text ≠ [])
    (hfeed : ∀ text ∈ texts, '\n' ∉ text) {output : List Char} :
    (∀ text ∈ texts, ¬ text <:+: output) ↔
      ∀ line ∈ output.splitOn '\n', ∀ text ∈ texts, ¬ text <:+: line := by
  have hjoin : removeAll texts output = output ↔
      (removeAll texts output).splitOn '\n' = output.splitOn '\n' := by
    refine ⟨congrArg _, fun h => ?_⟩
    have hback := congrArg (['\n'].intercalate ·) h
    simpa only [List.intercalate_splitOn] using hback
  have hmap : (output.splitOn '\n').map (removeAll texts) = output.splitOn '\n' ↔
      ∀ line ∈ output.splitOn '\n', removeAll texts line = line := by
    simpa using List.map_inj_left (l := output.splitOn '\n') (f := removeAll texts) (g := id)
  rw [← removeAll_eq_self_iff hne, hjoin, splitOn_removeAll hne hfeed, hmap]
  simp only [removeAll_eq_self_iff hne]

theorem takesOut_removeAll (hne : ∀ text ∈ texts, text ≠ []) {others : List (List Char)}
    (hsub : ∀ text ∈ texts, text ∈ others) (output : List Char) :
    Relation.ReflTransGen (TakesOut others) output (removeAll texts output) := by
  induction texts generalizing output with
  | nil => exact .refl
  | cons text texts ih =>
      exact (takesOut_remove (hne text (by simp)) (hsub text (by simp)) output).trans
        (ih (fun other h => hne other (by simp [h])) (fun other h => hsub other (by simp [h])) _)

theorem keeps_removeAll (hne : ∀ text ∈ texts, text ≠ []) (output : List Char) :
    Keeps texts [] output (removeAll texts output) := by
  induction texts generalizing output with
  | nil => exact .all [] output
  | cons text texts ih =>
      exact (keeps_remove (hne text (by simp)) output).append
        (ih (fun other h => hne other (by simp [h])) _) (List.suffix_refl _) (List.suffix_refl _)

/-- All occurrences of the texts in `text ++ rest` lie within the front `text`. -/
def OccurWithin (texts : List (List Char)) (text rest : List Char) : Prop :=
  ∀ other ∈ texts, ∀ front back, text ++ rest = front ++ other ++ back →
    front.length + other.length ≤ text.length

/-- Whether an occurrence reaches out of the front shows at one of the places of the output. -/
instance (texts : List (List Char)) (text rest : List Char) :
    Decidable (OccurWithin texts text rest) :=
  decidable_of_iff (∀ other ∈ texts, ∀ n < (text ++ rest).length + 1,
      other <+: (text ++ rest).drop n → n + other.length ≤ text.length) <| by
    refine forall₂_congr fun other _ => ⟨fun h front back hsplit => ?_, fun h n hn hp => ?_⟩
    · have hlt : front.length < (text ++ rest).length + 1 := by
        rw [hsplit, List.length_append, List.length_append]
        omega
      refine h front.length hlt ⟨back, ?_⟩
      rw [hsplit, List.append_assoc, List.drop_left]
    · obtain ⟨back, hback⟩ := hp
      have hlength : ((text ++ rest).take n).length = n := List.length_take_of_le (by omega)
      have hwithin := h ((text ++ rest).take n) back (by
        rw [List.append_assoc, hback, List.take_append_drop])
      omega

theorem OccurWithin.not_isInfix {text rest : List Char} (h : OccurWithin texts text rest)
    (hne : ∀ text ∈ texts, text ≠ []) : ∀ other ∈ texts, ¬ other <:+: rest := by
  rintro other hother ⟨front, back, rfl⟩
  have hlt := List.length_pos_iff.2 (hne other hother)
  have hle := h other hother (text ++ front) back (by simp)
  rw [List.length_append] at hle
  omega

/-- A text at the front is removed whole if nothing else is, since no longer text takes a part
of it before. -/
theorem removeAll_of_occurWithin (hne : ∀ text ∈ texts, text ≠ [])
    (horder : texts.Pairwise fun text other => other.length ≤ text.length) {text rest : List Char}
    (htext : text ∈ texts) (h : OccurWithin texts text rest) :
    removeAll texts (text ++ rest) = rest := by
  induction texts with
  | nil => cases htext
  | cons first texts ih =>
      have hrest := h.not_isInfix hne
      have hothers : ∀ other ∈ texts, other ≠ [] := fun other h => hne other (by simp [h])
      by_cases hfirst : first = text
      · subst hfirst
        rw [removeAll_cons, remove_append_self (hne first htext),
          remove_of_not_isInfix (hrest first htext),
          removeAll_of_not_isInfix fun other hother => hrest other (by simp [hother])]
      · have hin : text ∈ texts := (List.mem_cons.1 htext).resolve_left (Ne.symm hfirst)
        have hle := (List.pairwise_cons.1 horder).1 text hin
        have hnot : ¬ first <:+: text ++ rest := by
          rintro ⟨front, back, hsplit⟩
          have hwithin := h first (by simp) front back hsplit.symm
          obtain rfl : front = [] := List.length_eq_zero_iff.1 (by omega)
          rw [List.nil_append] at hsplit
          have hlength := Nat.le_antisymm (by simpa using hwithin) hle
          exact hfirst (List.append_inj_left hsplit (by simpa using hlength))
        rw [removeAll_cons, remove_of_not_isInfix hnot]
        exact ih hothers (List.pairwise_cons.1 horder).2 hin fun other hother =>
          h other (by simp [hother])

end

variable (t : FileTree) (root : Path)

theorem lineFeed_not_mem_rootTexts (hroot : '\n' ∉ root.text)
    (hresolved : '\n' ∉ (t.resolve root).text) : ∀ text ∈ rootTexts t root, '\n' ∉ text := by
  intro text htext
  rcases mem_rootTexts_iff.1 htext with rfl | rfl
  · simpa using hroot
  · simpa using hresolved

/-- Roots without line feeds are taken out of each line by itself. A line in which neither
spelling of the root occurs stays as it is, and a line that begins with a spelling and has all
others within it keeps what stands behind it. -/
theorem relocate_byLine :
    ('\n' ∉ root.text → '\n' ∉ (t.resolve root).text →
      (∀ front back, relocate t root (front ++ '\n' :: back) =
        relocate t root front ++ '\n' :: relocate t root back) ∧
      ∀ output, (relocate t root output).splitOn '\n' =
        (output.splitOn '\n').map (relocate t root)) ∧
    (∀ line, (∀ text ∈ rootTexts t root, ¬ text <:+: line) → relocate t root line = line) ∧
    ∀ text ∈ rootTexts t root, ∀ rest, OccurWithin (rootTexts t root) text rest →
      relocate t root (text ++ rest) = rest := by
  have hne := ne_nil_of_mem_rootTexts t root
  refine ⟨fun hroot hresolved => ?_, fun line h => removeAll_of_not_isInfix h,
    fun text htext rest h => removeAll_of_occurWithin hne (pairwise_rootTexts t root) htext h⟩
  have hfeed := lineFeed_not_mem_rootTexts t root hroot hresolved
  exact ⟨removeAll_append_lineFeed hne hfeed, splitOn_removeAll hne hfeed⟩

/-- A root `/a` that is a link to `/p/a`. -/
def linkedTree : FileTree :=
  ⟨[([['p']], .directory), ([['p'], ['a']], .directory), ([['a']], .link ['/', 'p', '/', 'a'])], []⟩

def linkedRoot : Path := ⟨.slash, [['a']]⟩

def linkedOutput : List Char :=
  ['/', 'p', '/', 'a', '/', 'b'] ++ '\n' :: (['/', 'a', '/', 'c'] ++ '\n' :: ['/'])

/-- The longer spelling goes first, or `/p` would be left of it. -/
theorem relocate_byLine_linked :
    '\n' ∉ linkedRoot.text ∧ '\n' ∉ (linkedTree.resolve linkedRoot).text ∧
    rootTexts linkedTree linkedRoot = [['/', 'p', '/', 'a', '/'], ['/', 'a', '/']] ∧
    relocate linkedTree linkedRoot linkedOutput = ['b', '\n', 'c', '\n', '/'] := by
  have hroot : '\n' ∉ linkedRoot.text := by decide
  have hresolved : '\n' ∉ (linkedTree.resolve linkedRoot).text := by decide
  obtain ⟨hlines, hclean, hwithin⟩ := relocate_byLine linkedTree linkedRoot
  obtain ⟨hbreak, -⟩ := hlines hroot hresolved
  have hlong : relocate linkedTree linkedRoot ['/', 'p', '/', 'a', '/', 'b'] = ['b'] :=
    hwithin ['/', 'p', '/', 'a', '/'] (by decide) ['b'] (by decide)
  have hshort : relocate linkedTree linkedRoot ['/', 'a', '/', 'c'] = ['c'] :=
    hwithin ['/', 'a', '/'] (by decide) ['c'] (by decide)
  have hslash : relocate linkedTree linkedRoot ['/'] = ['/'] := hclean ['/'] (by decide)
  refine ⟨hroot, hresolved, by decide, ?_⟩
  rw [linkedOutput, hbreak, hbreak, hlong, hshort, hslash]
  rfl

/-- What is left of an output is pieces of it in which no spelling of the root occurs, and
nothing but occurrences of the spellings is taken out. Relocating again changes nothing exactly
if none occurs in what is left. -/
theorem relocate_remains (output : List Char) :
    Remains (rootTexts t root) output (relocate t root output) ∧
    Relation.ReflTransGen (TakesOut (rootTexts t root)) output (relocate t root output) ∧
    (relocate t root (relocate t root output) = relocate t root output ↔
      ∀ text ∈ rootTexts t root, ¬ text <:+: relocate t root output) ∧
    ('\n' ∉ root.text → '\n' ∉ (t.resolve root).text →
      (∀ line ∈ output.splitOn '\n', (∀ text ∈ rootTexts t root, ¬ text <:+: line) ∨
        ∃ text ∈ rootTexts t root, ∃ rest, line = text ++ rest ∧
          OccurWithin (rootTexts t root) text rest) →
      ∀ text ∈ rootTexts t root, ¬ text <:+: relocate t root output) := by
  have hne := ne_nil_of_mem_rootTexts t root
  refine ⟨(keeps_removeAll hne output).remains, takesOut_removeAll hne (fun _ h => h) output,
    removeAll_eq_self_iff hne, fun hroot hresolved hlines => ?_⟩
  have hfeed := lineFeed_not_mem_rootTexts t root hroot hresolved
  rw [relocate_eq_removeAll, not_isInfix_iff_lines hne hfeed, splitOn_removeAll hne hfeed]
  intro left hleft
  obtain ⟨line, hline, rfl⟩ := List.mem_map.1 hleft
  rcases hlines line hline with hclean | ⟨text, htext, rest, rfl, hwithin⟩
  · rwa [removeAll_of_not_isInfix hclean]
  · rw [removeAll_of_occurWithin hne (pairwise_rootTexts t root) htext hwithin]
    exact hwithin.not_isInfix hne

/-- The lines that begin with the root, and the one without it, are left without it. -/
theorem relocate_remains_linked :
    (∀ text ∈ rootTexts linkedTree linkedRoot,
      ¬ text <:+: relocate linkedTree linkedRoot linkedOutput) ∧
    relocate linkedTree linkedRoot (relocate linkedTree linkedRoot linkedOutput) =
      relocate linkedTree linkedRoot linkedOutput := by
  obtain ⟨-, -, hfixed, hlines⟩ := relocate_remains linkedTree linkedRoot linkedOutput
  have hfree := hlines (by decide) (by decide) (by
    intro line hline
    have hmem : line ∈ [['/', 'p', '/', 'a', '/', 'b'], ['/', 'a', '/', 'c'], ['/']] := hline
    simp only [List.mem_cons, List.not_mem_nil, or_false] at hmem
    rcases hmem with rfl | rfl | rfl
    · exact .inr ⟨['/', 'p', '/', 'a', '/'], by decide, ['b'], rfl, by decide⟩
    · exact .inr ⟨['/', 'a', '/'], by decide, ['c'], rfl, by decide⟩
    · exact .inl (by decide))
  exact ⟨hfree, hfixed.2 hfree⟩

/-- Where the root is taken out, the texts before and behind it can be joined to the root
again. -/
theorem relocate_joined :
    ∃ text ∈ rootTexts ⟨[], []⟩ ⟨.slash, [['t'], ['x']]⟩,
      text <:+: relocate ⟨[], []⟩ ⟨.slash, [['t'], ['x']]⟩
        ['/', 't', '/', 't', '/', 'x', '/', '/', 'x', '/'] ∧
      relocate ⟨[], []⟩ ⟨.slash, [['t'], ['x']]⟩ (relocate ⟨[], []⟩ ⟨.slash, [['t'], ['x']]⟩
        ['/', 't', '/', 't', '/', 'x', '/', '/', 'x', '/']) ≠
      relocate ⟨[], []⟩ ⟨.slash, [['t'], ['x']]⟩
        ['/', 't', '/', 't', '/', 'x', '/', '/', 'x', '/'] :=
  ⟨['/', 't', '/', 'x', '/'], by decide⟩

end Output

end FrontLint
