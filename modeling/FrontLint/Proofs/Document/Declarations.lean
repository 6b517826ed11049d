import FrontLint.Proofs.Document.KeyIndex
import Mathlib.Order.Lattice.Nat

/-!
# The declarations of a key

Between the two ends of a block a key is declared on any number of lines. The index has the keys
that are declared on one at least, in the order of their first declarations, and each of them
stands on its last declaration.
-/

namespace FrontLint

namespace KeyIndex

variable {lines : List Text} {opening closing : Nat} {index : KeyIndex}

/-- The keys in their order. -/
def keys (index : KeyIndex) : List Text := index.map Prod.fst

/-- The lines between the two ends of a block that declare a key. -/
def declarations (lines : List Text) (opening closing : Nat) (key : Text) : Set Nat :=
  {n | opening < n ∧ n < closing ∧ ∃ line, lines[n]? = some line ∧ Declares line key}

/-- The first declaration of a key is in front of the first one of another. -/
def IsDeclaredBefore (lines : List Text) (opening closing : Nat) (key other : Text) : Prop :=
  ∃ n m, IsLeast (declarations lines opening closing key) n ∧
    IsLeast (declarations lines opening closing other) m ∧ n < m

theorem mem_declarations_iff {key : Text} {n : Nat} :
    n ∈ declarations lines opening closing key ↔
      opening < n ∧ n < closing ∧ declares lines key n = true := by
  simp only [declares_iff, declaredKey?_eq_some_iff]
  rfl

theorem declarations_of_le (h : closing ≤ opening + 1) (key : Text) :
    declarations lines opening closing key = ∅ := by
  refine Set.eq_empty_of_forall_notMem fun n hn => ?_
  obtain ⟨ho, hc, _⟩ := mem_declarations_iff.1 hn
  omega

/-- One more line is one more declaration of the key that it declares. -/
theorem mem_declarations_succ_iff {line : Text} (hlt : opening < closing)
    (hline : lines[closing]? = some line) {key : Text} {n : Nat} :
    n ∈ declarations lines opening (closing + 1) key ↔
      n ∈ declarations lines opening closing key ∨
        n = closing ∧ declaredKey? line = some key := by
  have hlast : declares lines key closing = true ↔ declaredKey? line = some key := by
    simp [declares_iff, hline]
  rw [mem_declarations_iff, mem_declarations_iff]
  constructor
  · rintro ⟨ho, hn, hkey⟩
    rcases Nat.lt_succ_iff_lt_or_eq.1 hn with hlt' | rfl
    · exact .inl ⟨ho, hlt', hkey⟩
    · exact .inr ⟨rfl, hlast.1 hkey⟩
  · rintro (⟨ho, hn, hkey⟩ | ⟨rfl, hkey⟩)
    · exact ⟨ho, Nat.lt_succ_of_lt hn, hkey⟩
    · exact ⟨hlt, Nat.lt_succ_self _, hlast.2 hkey⟩

/-- A key stands on its last declaration. -/
theorem line?_eq_some_iff_isGreatest (h : ofLines? lines opening closing = some index)
    {key : Text} {i : Int} :
    index.line? key = some i ↔
      ∃ n : Nat, i = n ∧ IsGreatest (declarations lines opening closing key) n := by
  rw [line?_eq_some_iff h]
  refine exists_congr fun n => and_congr_right fun _ => ?_
  constructor
  · rintro ⟨ho, hn, hkey, hlast⟩
    refine ⟨mem_declarations_iff.2 ⟨ho, hn, hkey⟩, fun m hm => ?_⟩
    obtain ⟨_, hmc, hm⟩ := mem_declarations_iff.1 hm
    by_contra hnm
    rw [hlast m (Nat.lt_of_not_le hnm) hmc] at hm
    cases hm
  · rintro ⟨hmem, hlast⟩
    obtain ⟨ho, hn, hkey⟩ := mem_declarations_iff.1 hmem
    refine ⟨ho, hn, hkey, fun m hnm hmc => ?_⟩
    rw [← Bool.not_eq_true]
    intro hm
    exact Nat.not_le_of_lt hnm
      (hlast (mem_declarations_iff.2 ⟨Nat.lt_trans ho hnm, hmc, hm⟩))

/-! ## The order of the keys -/

@[simp] theorem keys_nil : keys [] = [] := rfl

@[simp] theorem keys_cons (key : Text) (i : Int) (index : KeyIndex) :
    keys ((key, i) :: index) = key :: index.keys := rfl

/-- A key keeps its place when it is declared again, and a new one comes last. -/
theorem keys_declare (key : Text) (i : Int) (index : KeyIndex) :
    (index.declare key i).keys =
      if key ∈ index.keys then index.keys else index.keys ++ [key] := by
  induction index with
  | nil => rfl
  | cons entry rest ih =>
      obtain ⟨k, j⟩ := entry
      by_cases hk : k = key
      · simp [declare, hk]
      · by_cases hmem : key ∈ keys rest
        · simp [declare, hk, ih, hmem]
        · simp [declare, hk, ih, hmem, Ne.symm hk]

theorem mem_keys_addLine {line key : Text} {i : Int} :
    key ∈ (index.addLine line i).keys ↔ key ∈ index.keys ∨ declaredKey? line = some key := by
  cases hline : declaredKey? line with
  | none => simp [addLine, hline]
  | some declared =>
      simp only [addLine, hline, keys_declare, Option.some.injEq]
      split
      · rename_i hmem
        exact ⟨.inl, fun h => h.elim id fun heq => heq ▸ hmem⟩
      · rw [List.mem_append, List.mem_singleton, eq_comm (a := key)]

/-- The keys of an index are those that are declared. -/
theorem mem_keys_iff (h : ofLines? lines opening closing = some index) {key : Text} :
    key ∈ index.keys ↔ (declarations lines opening closing key).Nonempty := by
  refine ofLines?_induction (motive := fun closing index => key ∈ index.keys ↔
    (declarations lines opening closing key).Nonempty) ?_ ?_ h
  · intro closing hle
    simp [declarations_of_le hle]
  · intro closing index line hlt _ hline ih
    rw [mem_keys_addLine, ih]
    simp only [Set.Nonempty, mem_declarations_succ_iff hlt hline, exists_or, exists_eq_left]

theorem isLeast_declarations_succ {key : Text} {n : Nat} {line : Text} (hlt : opening < closing)
    (hline : lines[closing]? = some line)
    (h : IsLeast (declarations lines opening closing key) n) :
    IsLeast (declarations lines opening (closing + 1) key) n := by
  refine ⟨(mem_declarations_succ_iff hlt hline).2 (.inl h.1), fun m hm => ?_⟩
  rcases (mem_declarations_succ_iff hlt hline).1 hm with hm | ⟨rfl, _⟩
  · exact h.2 hm
  · exact Nat.le_of_lt (mem_declarations_iff.1 h.1).2.1

/-- The keys of an index are in the order of their first declarations. -/
theorem pairwise_keys (h : ofLines? lines opening closing = some index) :
    index.keys.Pairwise (IsDeclaredBefore lines opening closing) := by
  refine ofLines?_induction (motive := fun closing index =>
    index.keys.Pairwise (IsDeclaredBefore lines opening closing)) ?_ ?_ h
  · intro closing _
    exact List.Pairwise.nil
  · intro closing index line hlt hindex hline ih
    have hkeep : index.keys.Pairwise (IsDeclaredBefore lines opening (closing + 1)) :=
      ih.imp fun ⟨n, m, hn, hm, hnm⟩ =>
        ⟨n, m, isLeast_declarations_succ hlt hline hn, isLeast_declarations_succ hlt hline hm, hnm⟩
    cases hkey : declaredKey? line with
    | none => simpa [addLine, hkey] using hkeep
    | some key =>
        simp only [addLine, hkey, keys_declare]
        split
        · exact hkeep
        · rename_i hnew
          -- The line is the first declaration of its key, behind those of all other keys.
          rw [mem_keys_iff hindex, Set.not_nonempty_iff_eq_empty] at hnew
          have hfirst : IsLeast (declarations lines opening (closing + 1) key) closing := by
            refine ⟨(mem_declarations_succ_iff hlt hline).2 (.inr ⟨rfl, hkey⟩), fun m hm => ?_⟩
            rcases (mem_declarations_succ_iff hlt hline).1 hm with hm | ⟨rfl, _⟩
            · rw [hnew] at hm
              cases hm
            · exact Nat.le_refl _
          refine List.pairwise_append.2 ⟨hkeep, List.pairwise_singleton _ _, ?_⟩
          intro other hother _ hlast
          rw [List.mem_singleton.1 hlast]
          have hleast := isLeast_csInf ((mem_keys_iff hindex).1 hother)
          exact ⟨_, closing, isLeast_declarations_succ hlt hline hleast, hfirst,
            (mem_declarations_iff.1 hleast.1).2.1⟩

/-- A block inside of a document has an index. In it a key stands on the last line between the
two ends that declares it, no key is there that no line declares, the keys are in the order of
their first declarations, and no two of them stand on one line. -/
theorem ofLines?_lastDeclarations (lines : List Text) (opening : Nat) {closing : Nat}
    (h : closing ≤ lines.length) :
    ∃ index, ofLines? lines opening closing = some index ∧
      (∀ key i, index.line? key = some i ↔
        ∃ n : Nat, i = n ∧ IsGreatest (declarations lines opening closing key) n) ∧
      (∀ key, key ∈ index.keys ↔ (declarations lines opening closing key).Nonempty) ∧
      index.keys.Pairwise (IsDeclaredBefore lines opening closing) ∧
      ∀ key other i, index.line? key = some i → index.line? other = some i → key = other := by
  obtain ⟨index, hindex⟩ := Option.isSome_iff_exists.1 (ofLines?_isSome opening closing h)
  exact ⟨index, hindex, fun _ _ => line?_eq_some_iff_isGreatest hindex,
    fun _ => mem_keys_iff hindex, pairwise_keys hindex,
    fun _ _ _ hkey hother => eq_of_line?_eq_some hindex hkey hother⟩

/-- A block in which the title is declared first and last, the tags stand between the two, and
two lines declare nothing. -/
def repeatedTitle : List Text :=
  ["---", "title: a", "  date: b", "tags : c", "tags:", "title: d ", "---"]

theorem ofLines?_lastDeclarations_repeatedTitle :
    6 ≤ repeatedTitle.length ∧
      ofLines? repeatedTitle (0 : Nat) (6 : Nat) =
        some [(Text.ofString "title", 5), (Text.ofString "tags", 4)] ∧
      IsGreatest (declarations repeatedTitle 0 6 "title") 5 ∧
      IsDeclaredBefore repeatedTitle 0 6 "title" "tags" := by
  have hlength : 6 ≤ repeatedTitle.length := by decide
  obtain ⟨index, hindex, hline, _, horder, _⟩ := ofLines?_lastDeclarations repeatedTitle 0 hlength
  obtain rfl : [(Text.ofString "title", 5), (Text.ofString "tags", 4)] = index := by
    refine Option.some.inj (Eq.trans ?_ hindex)
    decide
  obtain ⟨n, hn, hgreatest⟩ := (hline "title" 5).1 rfl
  obtain rfl : n = 5 := by omega
  exact ⟨hlength, hindex, hgreatest, (List.pairwise_cons.1 horder).1 "tags" (by simp)⟩

end KeyIndex

end FrontLint
