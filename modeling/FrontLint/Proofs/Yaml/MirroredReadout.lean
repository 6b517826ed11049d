import FrontLint.Proofs.Yaml.Outcomes
import FrontLint.Proofs.Yaml.PlainReadout

/-!
# Values behind other nodes

Two constructions that are abreast give the nodes of the first one, and those behind, the same
values. So the last entries of the first mappings, which they share, give a key the same value.
-/

namespace FrontLint.Yaml

open Filter

namespace Made

variable {d n k : Nat} {m : Made} {path : List (Option Nat)}

theorem parts_shift (d : Nat) (m : Made) : (m.shift d).parts = m.parts.map (· + d) := by
  cases m <;> simp [shift, parts, shiftEntries, List.flatMap_map, List.map_flatMap]

theorem value_shift (d : Nat) (m : Made) (unlike : Nat → Bool) (value : Nat → Value) :
    (m.shift d).value unlike value =
      m.value (fun k => unlike (k + d)) fun k => value (k + d) := by
  cases m with
  | scalar | unfilled => rfl
  | list items => rw [shift, Made.value, Made.value, List.map_map, Function.comp_def]
  | pairs entries | map entries =>
      rw [shift, Made.value, Made.value, shiftEntries, List.map_map]
      rfl
  | set elements =>
      rw [shift, Made.value, Made.value, List.map_map]
      rfl

theorem RefersBehind.one_le (h : m.RefersBehind) (hk : k ∈ m.parts) : 1 ≤ k := by
  cases m with
  | scalar | unfilled => cases hk
  | list items | set items => exact h k hk
  | pairs entries | map entries => exact forall_parts_iff.2 h k hk

end Made

namespace Construction

variable {made made' : Array (Option Made)} {path : List (Option Nat)} {d n depth : Nat} {g : Graph}

theorem isUnlike_eq (made : Array (Option Made)) (n : Nat) :
    isUnlike made n = match madeAt made n with
      | some (.scalar _ unlike) => unlike
      | _ => false := by
  rw [isUnlike, madeAt]
  cases made[n]? with
  | none => rfl
  | some m =>
      cases m with
      | none => rfl
      | some m => cases m <;> rfl

/-- Two tables in which the same nodes are made to the same, but for the first ones; those of the
second table stand behind `d` others. -/
structure Mirrors (d : Nat) (made made' : Array (Option Made)) : Prop where
  madeAt : ∀ n, 1 ≤ n → madeAt made' (n + d) = (madeAt made n).map (Made.shift d)
  refersBehind : ∀ n, 1 ≤ n → ∀ m ∈ Construction.madeAt made n, m.RefersBehind

namespace Mirrors

variable (h : Mirrors d made made') (hn : 1 ≤ n)
include h hn

theorem formAt : formAt made' (n + d) = (formAt made n).shift d := by
  rw [Construction.formAt, Construction.formAt, h.madeAt n hn]
  cases Construction.madeAt made n <;> rfl

theorem refersBehind_formAt : (Construction.formAt made n).RefersBehind := by
  rw [Construction.formAt]
  cases hm : Construction.madeAt made n with
  | none => trivial
  | some m => exact h.refersBehind n hn m hm

theorem isUnlike : isUnlike made' (n + d) = isUnlike made n := by
  rw [isUnlike_eq, isUnlike_eq, h.madeAt n hn]
  cases Construction.madeAt made n with
  | none => rfl
  | some m => cases m <;> rfl

end Mirrors

/-- The number of a node in the second table. -/
def behind (d n : Nat) : Nat := if n = 0 then 0 else n + d

theorem behind_injective (d : Nat) : Function.Injective (behind d) := by
  intro n k h
  rw [behind, behind] at h
  split at h <;> split at h <;> omega

theorem inside_shift (m : Made) (hn : 1 ≤ n) :
    (m.shift d).inside (n + d) (path.map (Option.map (behind d))) =
      (m.inside n path).map (Option.map (behind d)) := by
  have hbehind : behind d n = n + d := if_neg (by omega)
  cases m <;> simp [Made.shift, Made.inside, hbehind]

theorem idxOf?_behind (hn : 1 ≤ n) :
    (path.map (Option.map (behind d))).idxOf? (some (n + d)) = path.idxOf? (some n) := by
  have hbehind : some (n + d) = Option.map (behind d) (some n) :=
    congrArg some (if_neg (by omega)).symm
  induction path with
  | nil => rfl
  | cons p path ih =>
      have heq : (Option.map (behind d) p == some (n + d)) = (p == some n) := by
        rw [hbehind, Bool.eq_iff_iff, beq_iff_eq, beq_iff_eq]
        exact (Option.map_injective (behind_injective d)).eq_iff
      rw [List.map_cons, List.idxOf?_cons, List.idxOf?_cons, ih, heq]

theorem Mirrors.valueAt (h : Mirrors d made made') (hn : 1 ≤ n) :
    valueAt made' depth (path.map (Option.map (behind d))) (n + d) = valueAt made depth path n := by
  induction depth generalizing path n with
  | zero => rfl
  | succ depth ih =>
      rw [Construction.valueAt, Construction.valueAt, idxOf?_behind hn]
      cases path.idxOf? (some n) with
      | some i => rfl
      | none =>
          dsimp only
          rw [h.formAt hn, inside_shift _ hn]
          generalize hinside : (Construction.formAt made n).inside n path = inside
          have hpos := fun k => (h.refersBehind_formAt hn).one_le (k := k)
          rw [Made.value_shift, Made.parts_shift, List.all_map]
          refine Prod.ext ?_ ?_
          · exact Made.value_congr (fun k hk => h.isUnlike (hpos k hk))
              fun k hk => congrArg Prod.fst (ih (hpos k hk))
          · rw [Bool.eq_iff_iff, List.all_eq_true, List.all_eq_true]
            exact forall₂_congr fun k hk => by rw [Function.comp_apply, ih (hpos k hk)]

/-! ## Looking up -/

variable {key : Text} {w : Frame} {s t : State} {v : Value} {closed : Bool}

/-- Where the value of a node is a mapping, the node has become one. -/
theorem exists_entries_of_settles {F : Fields} (h : run g n = .ok s)
    (hsettles : Settles s.made [] n (.map F, closed)) :
    ∃ entries, madeAt s.made n = some (.map entries) := by
  obtain ⟨depth, hdepth⟩ := (settles_succ_iff.1 hsettles).exists
  rw [valueAt_succ (by simp), Prod.mk.injEq] at hdepth
  have hvalue := hdepth.1
  cases hmade : madeAt s.made n with
  | none =>
      rw [formAt, hmade] at hvalue
      cases hvalue
  | some form =>
      rw [formAt, hmade, Option.getD_some] at hvalue
      cases form with
      | map entries => exact ⟨entries, rfl⟩
      | scalar v unlike =>
          obtain rfl : v = .map F := hvalue
          exact absurd (fitsTags_of_run h n _ hmade) (by simp [Made.Fits, Value.identity?])
      | _ => cases hvalue

/-- An entry of the first mapping with its values. -/
def entryAt (made : Array (Option Made)) (depth : Nat) : Nat × Nat → KeyedEntry :=
  keyed (isUnlike made) fun k => (valueAt made depth [some 0] k).1

theorem exists_depth_of_settles {entries : List (Nat × Nat)}
    (hmade : madeAt made 0 = some (.map entries)) (h : Settles made [] 0 (v, closed)) :
    ∀ᶠ depth in atTop, v = .map ((unique (entries.map (entryAt made depth))).map
      fun e => (e.1, e.2.2)) := by
  refine (settles_succ_iff.1 h).mono fun depth hdepth => ?_
  rw [valueAt_succ (by simp), formAt, hmade, Option.getD_some, Prod.mk.injEq] at hdepth
  exact hdepth.1.symm

theorem valueAt_scalar {unlike : Bool} (hmade : madeAt made n = some (.scalar v unlike))
    (hpath : some n ∉ path) : (valueAt made (depth + 1) path n).1 = v := by
  rw [valueAt_succ hpath, formAt, hmade]
  rfl

theorem isRegular_entryAt (h : ∀ n, ∀ m ∈ madeAt made n, m.IsRegular) (e : Nat × Nat) :
    IsRegular (entryAt made depth e) := by
  intro hunlike key
  rw [entryAt, keyed, isUnlike_eq] at hunlike
  rw [entryAt, keyed]
  cases hmade : madeAt made e.1 with
  | none => simp [hmade] at hunlike
  | some m =>
      cases m with
      | scalar v unlike =>
          obtain rfl : unlike = true := by simpa [hmade] using hunlike
          cases depth with
          | zero =>
              intro h
              cases h
          | succ depth =>
              by_cases hpath : some e.1 ∈ [some 0]
              · rw [valueAt]
                cases hidx : [some 0].idxOf? (some e.1) with
                | none => exact absurd hpath (List.idxOf?_eq_none_iff.1 hidx)
                | some i =>
                    intro h
                    cases h
              · rw [valueAt_scalar hmade hpath]
                exact h e.1 _ hmade rfl key
      | _ => simp [hmade] at hunlike

/-- What comes in front of an entry with a key changes nothing of what the key has. -/
theorem get?_unique_append {l l' : List KeyedEntry} {e : KeyedEntry}
    (hl : ∀ e ∈ l ++ l', IsRegular e) (he : e ∈ l') (hkey : e.1.identity? = some (.text key)) :
    Fields.get? ((unique (l ++ l')).map fun e => (e.1, e.2.2)) key =
      Fields.get? ((unique l').map fun e => (e.1, e.2.2)) key := by
  have hl' : ∀ e ∈ l', IsRegular e := fun e he => hl e (List.mem_append_right l he)
  rw [(get?_unique hl key).2, (get?_unique hl' key).2, List.reverse_append, List.find?_append]
  cases hfind : l'.reverse.find? fun e => e.1.identity? = some (.text key) with
  | some f => rfl
  | none =>
      exact absurd hkey (by simpa using List.find?_eq_none.1 hfind e (List.mem_reverse.2 he))

namespace Abreast

variable (hw : Abreast w t s)
include hw

theorem mirrors : Mirrors w.offset t.made s.made := ⟨hw.made, hw.refersBehind⟩

theorem isRegular_left {entries : List (Nat × Nat)} (hroot : w.root = .map entries) (n : Nat) :
    ∀ m ∈ madeAt t.made n, m.IsRegular := by
  intro m hm
  rcases Nat.eq_zero_or_pos n with rfl | hn
  · rw [hw.root, hroot] at hm
    cases hm
    trivial
  · have hregular := hw.isRegular (n + w.offset) (m.shift w.offset)
      (by rw [hw.made n hn, Option.mem_def.1 hm]; rfl)
    cases m <;> exact hregular

theorem entryAt_shift {e : Nat × Nat} (hkey : 1 ≤ e.1) (he : 1 ≤ e.2) (depth : Nat) :
    entryAt s.made depth (e.1 + w.offset, e.2 + w.offset) = entryAt t.made depth e := by
  have hvalue (n : Nat) (hn : 1 ≤ n) :
      valueAt s.made depth ([some 0].map (Option.map (behind w.offset))) (n + w.offset) =
        valueAt t.made depth [some 0] n := hw.mirrors.valueAt hn
  rw [show [some 0].map (Option.map (behind w.offset)) = [some 0] from rfl] at hvalue
  rw [entryAt, entryAt, keyed, keyed, hvalue _ hkey, hvalue _ he, hw.mirrors.isUnlike hkey]

theorem entryAt_shiftEntries {entries : List (Nat × Nat)}
    (hentries : ∀ e ∈ entries, 1 ≤ e.1 ∧ 1 ≤ e.2) (depth : Nat) :
    (shiftEntries w.offset entries).map (entryAt s.made depth) =
      entries.map (entryAt t.made depth) := by
  rw [shiftEntries, List.map_map]
  exact List.map_congr_left fun e he =>
    hw.entryAt_shift (hentries e he).1 (hentries e he).2 depth

end Abreast

/-- An entry whose key is a text has this text as its key. -/
theorem Abreast.identity?_entryAt {e : Nat × Nat} {key : Text} (hw : Abreast w t s)
    (hfilled : w.filled) (he : e ∈ w.rest) (ht : run h 0 = .ok t)
    (hnode : h.node e.1 = .scalar .str key) (depth : Nat) :
    (entryAt t.made (depth + 1) e).1.identity? = some (.text key) := by
  have he := hw.settled.suffix.subset he
  have hkeeps := keepsText_of_run ht hnode
  have hmade : madeAt t.made e.1 = some (.scalar (.text key) false) := by
    rcases (hw.ready hfilled e he).1 with hsize | hsome
    · have hdefault := Graph.node_eq_default (hw.size_graph ▸ hsize)
      rw [hkeeps.node] at hdefault
      cases hdefault
    · obtain ⟨m, hm⟩ := Option.isSome_iff_exists.1 hsome
      rw [hm, hkeeps.made m hm]
  have hzero : e.1 ≠ 0 := Nat.pos_iff_ne_zero.1 (hw.settled.back_pos e he).1
  rw [entryAt, keyed, valueAt_scalar hmade (by simpa using hzero)]
  rfl

end Construction

/-- Two mappings that end in the same entries give a key of these the same value. -/
theorem Graph.Extends.get?_eq {d : Nat} {front back : List (Nat × Nat)} {g h : Graph}
    {e : Nat × Nat} {key : Text} {v : Value} {F : Fields} (hg : Extends d front back h g)
    (he : e ∈ back) (hnode : h.node e.1 = .scalar .str key) (hv : h.value 0 = .ok v)
    (hF : g.value 0 = .ok (.map F)) : ∃ G, v = .map G ∧ Fields.get? G key = Fields.get? F key := by
  obtain ⟨t, closed, ht, hv⟩ := value_eq_ok hv
  obtain ⟨s, closed', hs, hF⟩ := value_eq_ok hF
  obtain ⟨entries, hentries⟩ := Construction.exists_entries_of_settles hs hF
  have htag := Construction.tagOf_eq_map_of_run hs hentries
  obtain ⟨w, front', hfilled, he, hroot, hroot', hw⟩ :=
    Construction.exists_abreast hg htag he (by rw [tagOf, hnode]; rfl) ht hs
  have hF := Construction.exists_depth_of_settles (hroot' ▸ hw.root') hF
  have hv := Construction.exists_depth_of_settles (hroot ▸ hw.root) hv
  -- Both readings have settled at some depth, and are compared there entry by entry.
  obtain ⟨depth, ⟨hv, hF⟩, hdepth⟩ := ((hv.and hF).and (eventually_ge_atTop 1)).exists
  obtain ⟨depth, rfl⟩ := Nat.exists_eq_add_of_le' hdepth
  obtain ⟨front, hback⟩ := hw.settled.suffix
  have hpos := fun e he => hw.settled.back_pos e (hw.settled.suffix.subset he)
  have hkey := hw.identity?_entryAt hfilled he ht hnode depth
  have hregular (e : Nat × Nat) :
      Construction.IsRegular (Construction.entryAt s.made (depth + 1) e) :=
    Construction.isRegular_entryAt hw.isRegular e
  have hregular' (e : Nat × Nat) :
      Construction.IsRegular (Construction.entryAt t.made (depth + 1) e) :=
    Construction.isRegular_entryAt (hw.isRegular_left hroot) e
  have hmem := List.mem_map_of_mem (f := Construction.entryAt t.made (depth + 1)) he
  rw [← hback, List.map_append] at hv
  rw [List.map_append, hw.entryAt_shiftEntries hpos] at hF
  refine ⟨_, hv, ?_⟩
  rw [Value.map.inj hF, Construction.get?_unique_append ?_ hmem hkey,
    Construction.get?_unique_append ?_ hmem hkey]
  · refine List.forall_mem_append.2 ⟨List.forall_mem_map.2 fun e _ => hregular e, ?_⟩
    exact List.forall_mem_map.2 fun e _ => hregular' e
  · refine List.forall_mem_append.2 ⟨List.forall_mem_map.2 fun e _ => hregular' e, ?_⟩
    exact List.forall_mem_map.2 fun e _ => hregular' e

end FrontLint.Yaml
