import FrontLint.Proofs.Yaml.Descent
import FrontLint.Proofs.Yaml.FlatValue
import Mathlib.Data.List.TakeWhile

/-!
# Faults of scalars

A text whose tag the schema has chosen is read under that tag. Where it cannot be read, the fault
is one of the block, but for places in base sixty that become too large. The other faults need a
tag that is written before the text.
-/

namespace FrontLint.Yaml

/-- The faults that are not of the block and need a tag that is written. -/
inductive Fault.NeedsTag : Fault → Prop where
  | emptyNumber : NeedsTag .emptyNumber
  | notTruthValue (lowered : Text) : NeedsTag (.notTruthValue lowered)
  | notTimestamp : NeedsTag .notTimestamp
  | timestampOfMapping : NeedsTag .timestampOfMapping
  | endlessScalar : NeedsTag .endlessScalar

/-- The faults of values in a block that may have tags only if `tagged` holds. -/
def IsValueFault (tagged : Prop) (fault : Fault) : Prop :=
  fault.isOfBlock = true ∨ fault = .numberSize ∨ tagged ∧ fault.NeedsTag

namespace Scalar

variable {t : Text}

/-- The only fault of truth values. -/
theorem meets_bool (t : Text) :
    Meets (bool t) (fun _ => True) fun fault =>
      fault.NeedsTag ∧ ∀ w ∈ Schema.boolWords, t ≠ Text.ofChars w := by
  cases h : bool t with
  | ok b => trivial
  | error fault =>
      refine ⟨?_, ?_⟩
      · rw [bool] at h
        split at h
        · cases h
        · cases h
          exact .notTruthValue _
      · rintro w hw rfl
        obtain ⟨b, hb⟩ := exists_bool_of_mem_boolWords hw
        rw [hb] at h
        cases h

theorem meets_readInt (base : Nat) (t : Text) :
    Meets (readInt base t) (fun _ => True) fun fault => fault.isOfBlock = true :=
  Meets.mapError (Meets.of_forall fun _ => trivial) fun _ _ => rfl

theorem meets_readFloat (t : Text) :
    Meets (readFloat t) (fun _ => True) fun fault => fault.isOfBlock = true :=
  Meets.mapError (Meets.of_forall fun _ => trivial) fun _ _ => rfl

theorem meets_splitSign (t : Text) :
    Meets (splitSign t) (fun x => ∀ c ∈ t, c ≠ .char '-' → c ≠ .char '+' → c ∈ x.2)
      fun fault => fault = .emptyNumber ∧ t = [] := by
  rw [splitSign.eq_def]
  split
  · exact ⟨rfl, rfl⟩
  · rename_i c rest
    split
    · rename_i hc
      intro a ha hminus hplus
      exact (List.mem_cons.1 ha).resolve_left fun h => hminus (h.trans hc)
    · split
      · rename_i hc
        intro a ha hminus hplus
        exact (List.mem_cons.1 ha).resolve_left fun h => hplus (h.trans hc)
      · exact fun a ha _ _ => ha

theorem meets_magnitude (t : Text) :
    Meets (magnitude t) (fun _ => True) fun fault =>
      fault.isOfBlock = true ∨ fault = .emptyNumber ∧ t = [] := by
  have hread (base : Nat) (t' : Text) : Meets (readInt base t') (fun _ => True) fun fault =>
      fault.isOfBlock = true ∨ fault = .emptyNumber ∧ t = [] :=
    (meets_readInt base t').mono (fun _ h => h) fun _ h => .inl h
  rw [magnitude.eq_def]
  split
  · exact .inr ⟨rfl, rfl⟩
  · split
    · trivial
    · exact hread 2 _
    · exact hread 16 _
    · exact hread 8 _
  · split
    · exact Meets.bind (Meets.mapM fun t' _ => hread 10 t') fun _ _ => trivial
    · exact hread 10 _

theorem mem_dropUnderscores {c : Code} (h : c ∈ t) (hc : c ≠ .char '_') :
    c ∈ dropUnderscores t :=
  List.mem_filter.2 ⟨h, by simpa using hc⟩

/-- Of the whole numbers, only one without digits has a fault that is not one of the block. -/
theorem meets_int (t : Text) :
    Meets (int t) (fun _ => True) fun fault => fault.isOfBlock = true ∨
      fault = .emptyNumber ∧ ∀ a : Char, a.isDigit = true → .char a ∉ t := by
  have hne {a b : Char} (ha : a.isDigit = true) (hb : b.isDigit = false) :
      Code.char a ≠ .char b := by
    rintro ⟨⟩
    rw [ha] at hb
    cases hb
  have hkept {a : Char} (ha : a.isDigit = true) (hmem : Code.char a ∈ t) :
      Code.char a ∈ dropUnderscores t := mem_dropUnderscores hmem (hne ha (by decide))
  rw [int]
  refine Meets.bind ((meets_splitSign _).mono (fun _ h => h) fun _ h => .inr ⟨h.1, ?_⟩)
    fun x hx => Meets.bind ((meets_magnitude x.2).mono (fun _ h => h)
      fun _ h => h.imp_right fun h => ⟨h.1, ?_⟩) fun _ _ => trivial
  · intro a ha hmem
    exact List.ne_nil_of_mem (hkept ha hmem) h.2
  · intro a ha hmem
    exact List.ne_nil_of_mem
      (hx _ (hkept ha hmem) (hne ha (by decide)) (hne ha (by decide))) h.2

theorem meets_sumPlaces (sum : Binary64) (weight : Int) (digits : List Binary64) :
    Meets (sumPlaces sum weight digits) (fun _ => True) fun fault => fault = .numberSize := by
  induction digits generalizing sum weight with
  | nil => trivial
  | cons d rest ih =>
      rw [sumPlaces]
      split
      · exact ih _ _
      · rfl

theorem meets_floatMagnitude (t : Text) :
    Meets (floatMagnitude t) (fun _ => True) fun fault =>
      fault.isOfBlock = true ∨ fault = .numberSize := by
  have hread (t' : Text) : Meets (readFloat t') (fun _ => True) fun fault =>
      fault.isOfBlock = true ∨ fault = .numberSize :=
    (meets_readFloat t').mono (fun _ h => h) fun _ h => .inl h
  rw [floatMagnitude]
  split
  · trivial
  · split
    · trivial
    · split
      · refine Meets.bind (Meets.mapM fun t' _ => hread t') fun digits _ => ?_
        exact (meets_sumPlaces _ _ _).mono (fun _ h => h) fun _ h => .inr h
      · exact hread t

theorem mem_lowerAfter {before : Text} (h : Code.char '.' ∈ t) :
    Code.char '.' ∈ Text.lowerAfter before t := by
  induction t generalizing before with
  | nil => cases h
  | cons c rest ih =>
      rw [Text.lowerAfter, List.mem_append]
      rcases List.mem_cons.1 h with rfl | h
      · rw [if_neg (by decide)]
        exact .inl (by decide)
      · exact .inr (ih h)

/-- Of the floating point numbers, only one without a point has a fault that is not one of the
block, but for places in base sixty that become too large. -/
theorem meets_float (t : Text) :
    Meets (float t) (fun _ => True) fun fault => fault.isOfBlock = true ∨
      fault = .numberSize ∨ fault = .emptyNumber ∧ .char '.' ∉ t := by
  rw [float]
  refine Meets.bind ((meets_splitSign _).mono (fun _ h => h) fun _ h => .inr (.inr ⟨h.1, ?_⟩))
    fun x _ => Meets.bind ((meets_floatMagnitude x.2).mono (fun _ h => h)
      fun _ h => h.imp_right .inl) fun _ _ => trivial
  intro hmem
  exact List.ne_nil_of_mem (mem_lowerAfter (mem_dropUnderscores hmem (by decide))) h.2

theorem meets_timestamp (t : Text) :
    Meets (timestamp t) (fun _ => True) fun fault => fault.isOfBlock = true ∨
      fault = .notTimestamp ∧
        (t.chars?.map Schema.dropLineFeed).bind Timestamp.ofChars? = none := by
  rw [timestamp]
  split
  · rename_i h
    exact .inr ⟨rfl, h⟩
  · dsimp only
    split
    · exact Meets.mapError (Meets.of_forall fun _ => trivial) fun _ _ => .inl rfl
    · exact Meets.mapError (Meets.of_forall fun _ => trivial) fun _ _ => .inl rfl

theorem meets_binary (t : Text) :
    Meets (binary t) (fun _ => True) fun fault => fault.isOfBlock = true := by
  rw [binary]
  split
  · rfl
  · exact Meets.mapError (Meets.of_forall fun _ => trivial) fun _ _ => rfl

end Scalar

namespace Schema

variable {t : Text}

/-- A tag that the schema chooses is tried for the first character, and fits. -/
theorem exists_candidate {tag : Tag} (h : tagOf t = tag) (hne : tag ≠ .str) :
    ∃ cs test, t = Text.ofChars cs ∧ (tag, test) ∈ candidates cs.head? ∧
      test (dropLineFeed cs) = true := by
  rw [tagOf] at h
  split at h
  · exact absurd h.symm hne
  · rename_i cs hcs
    dsimp only at h
    split at h
    · rename_i tag' test hfind
      subst h
      have htest := List.find?_some hfind
      exact ⟨cs, test, Text.chars?_eq_some_iff.1 hcs, List.mem_of_find?_eq_some hfind, htest⟩
    · exact absurd h.symm hne

/-- The tests of the tags whose values are read from their texts. -/
theorem test_of_mem_candidates {first : Option Char} {tag : Tag} {test : List Char → Bool}
    (h : (tag, test) ∈ candidates first) :
    (tag = .bool → test = boolWords.contains) ∧ (tag = .float → test = isFloat) ∧
      (tag = .int → test = isInt) ∧ (tag = .timestamp → test = isTimestamp) := by
  cases first with
  | none =>
      cases List.mem_singleton.1 h
      simp
  | some c =>
      simp only [candidates, List.mem_append, List.mem_ite_nil_right, List.mem_singleton] at h
      rcases h with ((((((h | h) | h) | h) | h) | h) | h) | h
      all_goals
        cases h.2
        simp

theorem mem_of_mem_dropLineFeed {a : Char} {cs : List Char} (h : a ∈ dropLineFeed cs) :
    a ∈ cs := by
  rw [dropLineFeed] at h
  split at h
  · exact List.mem_of_mem_dropLast h
  · exact h

theorem mem_of_mem_dropSign {a : Char} {cs : List Char} (h : a ∈ dropSign cs) : a ∈ cs := by
  rw [dropSign.eq_def] at h
  split at h
  · exact List.mem_cons_of_mem _ h
  · exact List.mem_cons_of_mem _ h
  · exact h

theorem exists_isDigit_of_isNumeral {cs : List Char} (h : isNumeral cs = true) :
    ∃ a ∈ cs, a.isDigit = true := by
  cases cs with
  | nil => cases h
  | cons d rest => exact ⟨d, List.mem_cons_self, (Bool.and_eq_true_iff.1 h).1⟩

theorem exists_isDigit_of_isInt {cs : List Char} (h : isInt cs = true) :
    ∃ a ∈ cs, a.isDigit = true := by
  suffices hbody : ∃ a ∈ dropSign cs, a.isDigit = true from
    hbody.imp fun a ha => ⟨mem_of_mem_dropSign ha.1, ha.2⟩
  rw [isInt] at h
  split at h
  · rename_i heq
    exact ⟨'0', by simp [heq], by decide⟩
  · rename_i heq
    exact ⟨'0', by simp [heq], by decide⟩
  · rename_i heq
    exact ⟨'0', by simp [heq], by decide⟩
  · rename_i heq
    exact ⟨'0', by simp [heq], by decide⟩
  · rcases Bool.or_eq_true_iff.1 h with h | h
    · exact exists_isDigit_of_isNumeral h
    · obtain ⟨a, ha, hdigit⟩ := exists_isDigit_of_isNumeral (Bool.and_eq_true_iff.1 h).1
      exact ⟨a, (List.takeWhile_prefix _).mem ha, hdigit⟩

theorem point_mem_of_isFloat {cs : List Char} (h : isFloat cs = true) : '.' ∈ cs := by
  have hinfinity : ∀ w ∈ infinityWords, '.' ∈ w := by decide
  have hnan : ∀ w ∈ nanWords, '.' ∈ w := by decide
  rw [isFloat] at h
  simp only [Bool.or_eq_true, List.contains_eq_mem, decide_eq_true_eq] at h
  rcases h with (h | h) | h
  · exact mem_of_mem_dropSign (hinfinity _ h)
  · exact hnan _ h
  · split at h
    · cases h
    · rename_i heq
      rw [splitAt?] at heq
      by_contra hpoint
      rw [if_neg] at heq
      · cases heq
      · rw [List.takeWhile_eq_self_iff.2]
        · exact Nat.lt_irrefl _
        · intro a ha
          have hne : a ≠ '.' := fun h => hpoint (mem_of_mem_dropSign (h ▸ ha))
          simpa using hne

/-! ## Texts that the schema tags -/

theorem mem_boolWords_of_tagOf (h : tagOf t = .bool) (hlast : t.getLast? ≠ some (.char '\n')) :
    ∃ w ∈ boolWords, t = Text.ofChars w := by
  obtain ⟨cs, test, rfl, hmem, htest⟩ := exists_candidate h (by decide)
  rw [(test_of_mem_candidates hmem).1 rfl, dropLineFeed, if_neg] at htest
  · exact ⟨cs, by simpa using htest, rfl⟩
  · intro hcs
    exact hlast (by rw [Text.ofChars, List.getLast?_map, hcs, Option.map_some])

theorem exists_isDigit_of_tagOf (h : tagOf t = .int) :
    ∃ a : Char, a.isDigit = true ∧ .char a ∈ t := by
  obtain ⟨cs, test, rfl, hmem, htest⟩ := exists_candidate h (by decide)
  rw [(test_of_mem_candidates hmem).2.2.1 rfl] at htest
  obtain ⟨a, ha, hdigit⟩ := exists_isDigit_of_isInt htest
  exact ⟨a, hdigit, List.mem_map_of_mem (mem_of_mem_dropLineFeed ha)⟩

theorem point_mem_of_tagOf (h : tagOf t = .float) : .char '.' ∈ t := by
  obtain ⟨cs, test, rfl, hmem, htest⟩ := exists_candidate h (by decide)
  rw [(test_of_mem_candidates hmem).2.1 rfl] at htest
  exact List.mem_map_of_mem (mem_of_mem_dropLineFeed (point_mem_of_isFloat htest))

theorem isTimestamp_of_tagOf (h : tagOf t = .timestamp) :
    (t.chars?.map dropLineFeed).bind Timestamp.ofChars? ≠ none := by
  obtain ⟨cs, test, rfl, hmem, htest⟩ := exists_candidate h (by decide)
  rw [(test_of_mem_candidates hmem).2.2.2 rfl, isTimestamp] at htest
  rw [Text.chars?_eq_some_iff.2 rfl, Option.map_some, Option.bind_some]
  intro hnone
  rw [hnone] at htest
  cases htest

end Schema

/-! ## Scalar nodes -/

namespace Construction

variable {tagged : Prop} {g : Graph} {n : Nat}

theorem isValueFault_of_needsTag (h : tagged) {fault : Fault} (hfault : fault.NeedsTag) :
    IsValueFault tagged fault := .inr (.inr ⟨h, hfault⟩)

theorem meets_scalarText (g : Graph) (fuel n : Nat) :
    Meets (scalarText g fuel n) (fun _ => True) fun fault =>
      fault.isOfBlock = true ∨ fault.NeedsTag := by
  induction fuel generalizing n with
  | zero => exact .inr .endlessScalar
  | succ fuel ih =>
      rw [scalarText]
      split
      · trivial
      · exact .inl rfl
      · split
        · exact ih _
        · exact .inl rfl

/-- The text of a scalar node is there. -/
theorem meets_textOf (h : tagged ∨ (g.node n).kind = .scalar) :
    Meets (textOf g n) (fun text => tagged ∨ ∃ tag, g.node n = .scalar tag text)
      (IsValueFault tagged) := by
  rcases h with h | h
  · refine (meets_scalarText g _ n).mono (fun _ _ => .inl h) fun fault hfault => ?_
    exact hfault.elim .inl (isValueFault_of_needsTag h)
  · cases hnode : g.node n with
    | scalar tag text =>
        rw [textOf, scalarText, hnode]
        exact .inr ⟨tag, rfl⟩
    | _ => simp [hnode, Node.kind] at h

/-- What a scalar node becomes: without tags there is no fault that needs one. -/
theorem meets_scalarOf (h : tagged ∨ (g.node n).kind = .scalar ∧ (g.node n).IsBare) :
    Meets (scalarOf g n) (fun _ => True) (IsValueFault tagged) := by
  rw [scalarOf]
  refine (meets_textOf (h.imp_right And.left)).bind fun text htext => ?_
  have hbare : tagged ∨ g.tagOf n = .str ∨
      g.tagOf n = Schema.tagOf text ∧ text.getLast? ≠ some (.char '\n') := by
    rcases h with h | ⟨-, h⟩
    · exact .inl h
    · refine htext.imp_right ?_
      rintro ⟨tag, hnode⟩
      rw [hnode] at h
      rw [Graph.tagOf, hnode]
      exact h
  -- The schema chooses a tag other than the one for texts only if the text fits it.
  have hfits {tag : Tag} (htag : g.tagOf n = tag) (hne : tag ≠ .str) {p : Prop}
      (hp : Schema.tagOf text = tag → text.getLast? ≠ some (.char '\n') → ¬ p) {fault : Fault}
      (hfault : fault.NeedsTag) (hpfault : p) : IsValueFault tagged fault := by
    rcases hbare with h | h | ⟨h, hlast⟩
    · exact isValueFault_of_needsTag h hfault
    · exact absurd (htag.symm.trans h) hne
    · exact absurd hpfault (hp (h.symm.trans htag) hlast)
  split
  · trivial
  · rename_i htag
    refine Meets.bind ((Scalar.meets_bool text).mono (fun _ h => h) fun fault hfault => ?_)
      fun _ _ => trivial
    refine hfits htag (by decide) (fun h hlast hwords => ?_) hfault.1 hfault.2
    obtain ⟨w, hw, heq⟩ := Schema.mem_boolWords_of_tagOf h hlast
    exact hwords w hw heq
  · rename_i htag
    refine Meets.bind ((Scalar.meets_int text).mono (fun _ h => h) fun fault hfault => ?_)
      fun _ _ => trivial
    rcases hfault with hfault | ⟨rfl, hdigit⟩
    · exact .inl hfault
    · refine hfits htag (by decide) (fun h _ hdigit => ?_) .emptyNumber hdigit
      obtain ⟨a, ha, hmem⟩ := Schema.exists_isDigit_of_tagOf h
      exact hdigit a ha hmem
  · rename_i htag
    refine Meets.bind ((Scalar.meets_float text).mono (fun _ h => h) fun fault hfault => ?_)
      fun _ _ => trivial
    rcases hfault with hfault | hfault | ⟨rfl, hpoint⟩
    · exact .inl hfault
    · exact .inr (.inl hfault)
    · exact hfits htag (by decide) (fun h _ hpoint => hpoint (Schema.point_mem_of_tagOf h))
        .emptyNumber hpoint
  · exact Meets.bind ((Scalar.meets_binary text).mono (fun _ h => h) fun _ hfault => .inl hfault)
      fun _ _ => trivial
  · rename_i htag
    have htimestamp := (Scalar.meets_timestamp text).mono (fun _ h => h) fun fault hfault =>
      show IsValueFault tagged fault by
        rcases hfault with hfault | ⟨rfl, hnone⟩
        · exact .inl hfault
        · exact hfits htag (by decide) (fun h _ => Schema.isTimestamp_of_tagOf h)
            .notTimestamp hnone
    dsimp only
    split
    · rename_i hkind
      rcases h with h | ⟨h, -⟩
      · exact isValueFault_of_needsTag h .timestampOfMapping
      · simp [h] at hkind
    · exact Meets.bind htimestamp fun _ _ => trivial
  · trivial

end Construction

end FrontLint.Yaml
