import FrontLint.Proofs.Yaml.Fuel
import FrontLint.Proofs.Yaml.LineEnds

/-!
# Readers and line ends

A reader finds the same in two texts that differ in the spelling of their line ends only, and it
stops at the same place of both.
-/

namespace FrontLint.Yaml

variable {α β α' β' : Type} {extra : Bool}

/-- Two computations end in results that are related, or in the same fault. If `extra` holds, both
may also have faults of the block. -/
def Agrees (extra : Bool) (R : α → α' → Prop) (r : Except Fault α) (r' : Except Fault α') : Prop :=
  match r, r' with
  | .ok a, .ok a' => R a a'
  | .error e, .error e' => e = e' ∨ extra = true ∧ e.isOfBlock = true ∧ e'.isOfBlock = true
  | _, _ => False

namespace Agrees

variable {R : α → α' → Prop} {S : β → β' → Prop} {r : Except Fault α} {r' : Except Fault α'}

theorem cases (h : Agrees extra R r r') :
    (∃ a a', r = .ok a ∧ r' = .ok a' ∧ R a a') ∨
      ∃ e e', r = .error e ∧ r' = .error e' ∧
        (e = e' ∨ extra = true ∧ e.isOfBlock = true ∧ e'.isOfBlock = true) := by
  cases r with
  | ok a =>
      cases r' with
      | ok a' => exact .inl ⟨a, a', rfl, rfl, h⟩
      | error e => exact h.elim
  | error e =>
      cases r' with
      | ok a => exact h.elim
      | error e' => exact .inr ⟨e, e', rfl, rfl, h⟩

theorem bind {f : α → Except Fault β} {f' : α' → Except Fault β'} (h : Agrees extra R r r')
    (hf : ∀ a a', R a a' → Agrees extra S (f a) (f' a')) :
    Agrees extra S (r >>= f) (r' >>= f') := by
  rcases h.cases with ⟨a, a', rfl, rfl, ha⟩ | ⟨e, e', rfl, rfl, he⟩
  · exact hf a a' ha
  · exact he

theorem mono {R' : α → α' → Prop} (h : Agrees extra R r r') (hR : ∀ a a', R a a' → R' a a') :
    Agrees extra R' r r' := by
  rcases h.cases with ⟨a, a', rfl, rfl, ha⟩ | ⟨e, e', rfl, rfl, he⟩
  · exact hR a a' ha
  · exact he

end Agrees

theorem agrees_refl {R : α → α → Prop} (hR : ∀ a, R a a) (r : Except Fault α) :
    Agrees extra R r r := by
  cases r with
  | ok a => exact hR a
  | error e => exact .inl rfl

theorem agrees_ite {R : α → α' → Prop} {b b' : Bool} {x y : Except Fault α}
    {x' y' : Except Fault α'} (hb : b = b') (hx : b' = true → Agrees extra R x x')
    (hy : b' = false → Agrees extra R y y') :
    Agrees extra R (if b = true then x else y) (if b' = true then x' else y') := by
  subst hb
  cases b with
  | true => exact hx rfl
  | false => exact hy rfl

namespace Respelled

variable {surplus : Nat → Nat} {line : Nat} {r r' : List Char}

/-- What follows a character that is no line end. -/
theorem tail_of_cons {a : Char} (h : Respelled extra surplus line (a :: r) r')
    (ha : isBreak a = false) : ∃ tail, r' = a :: tail ∧ Respelled extra surplus line r tail := by
  cases h with
  | char _ _ tail => exact ⟨_, rfl, tail⟩
  | same hb => simp [ha] at hb
  | carriageReturn => exact absurd ha (by simp [isBreak, isBreakOrEnd, endMark])
  | both => exact absurd ha (by simp [isBreak, isBreakOrEnd, endMark])

theorem tail_of_cons_right {a : Char} (h : Respelled extra surplus line r (a :: r'))
    (ha : isBreak a = false) : ∃ tail, r = a :: tail ∧ Respelled extra surplus line tail r' := by
  cases h with
  | last => exact absurd ha (by decide)
  | char _ _ tail => exact ⟨_, rfl, tail⟩
  | same hb => simp [ha] at hb
  | carriageReturn => exact absurd ha (by simp [isBreak, isBreakOrEnd, endMark])
  | both => exact absurd ha (by simp [isBreak, isBreakOrEnd, endMark])

end Respelled

namespace Cursor

theorem escapedBytes_percent (site : TagSite) (r : List Char) :
    escapedBytes site ('%' :: r) = .error site.misread ∨
      ∃ a b rest, r = a :: b :: rest ∧ isHexDigit a = true ∧ isHexDigit b = true := by
  rcases r with _ | ⟨a, _ | ⟨b, rest⟩⟩
  · exact .inl rfl
  · exact .inl rfl
  · by_cases h : (isHexDigit a && isHexDigit b) = true
    · exact .inr ⟨a, b, rest, rfl, Bool.and_eq_true_iff.1 h⟩
    · exact .inl (by rw [escapedBytes, if_neg h])

end Cursor

namespace Respelled

variable {surplus : Nat → Nat} {line : Nat} {r r' : List Char}

theorem escapedBytes_eq (site : TagSite) (h : Respelled extra surplus line r r') :
    Cursor.escapedBytes site r = Cursor.escapedBytes site r' := by
  fun_induction Cursor.escapedBytes site r generalizing r' with
  | case1 a b rest hdigits ih =>
      obtain ⟨ha, hb⟩ := Bool.and_eq_true_iff.1 hdigits
      obtain ⟨r₁, rfl, h₁⟩ := h.tail_of_cons (by decide)
      obtain ⟨r₂, rfl, h₂⟩ := h₁.tail_of_cons (not_isBreak_of_isHexDigit ha)
      obtain ⟨r₃, rfl, h₃⟩ := h₂.tail_of_cons (not_isBreak_of_isHexDigit hb)
      rw [Cursor.escapedBytes, if_pos hdigits, ih h₃]
  | case2 a b rest hdigits =>
      obtain ⟨r₁, rfl, h₁⟩ := h.tail_of_cons (by decide)
      rcases Cursor.escapedBytes_percent site r₁ with heq | ⟨a', b', rest', rfl, ha, hb⟩
      · exact heq.symm
      · obtain ⟨_, heq, h₂⟩ := h₁.tail_of_cons_right (not_isBreak_of_isHexDigit ha)
        cases heq
        obtain ⟨_, heq, -⟩ := h₂.tail_of_cons_right (not_isBreak_of_isHexDigit hb)
        cases heq
        exact absurd (Bool.and_eq_true_iff.2 ⟨ha, hb⟩) hdigits
  | case3 rest hne =>
      obtain ⟨r₁, rfl, h₁⟩ := h.tail_of_cons (by decide)
      rcases Cursor.escapedBytes_percent site r₁ with heq | ⟨a', b', rest', rfl, ha, hb⟩
      · exact heq.symm
      · obtain ⟨_, rfl, h₂⟩ := h₁.tail_of_cons_right (not_isBreak_of_isHexDigit ha)
        obtain ⟨_, rfl, -⟩ := h₂.tail_of_cons_right (not_isBreak_of_isHexDigit hb)
        exact absurd rfl (hne a' b' _)
  | case4 r hne hne' =>
      rw [Cursor.escapedBytes]
      · rintro a b rest rfl
        obtain ⟨_, rfl, -⟩ := h.tail_of_cons_right (by decide)
        exact hne' _ rfl
      · rintro rest rfl
        obtain ⟨_, rfl, -⟩ := h.tail_of_cons_right (by decide)
        exact hne' _ rfl

end Respelled

namespace Cursor

/-- The same is read, up to related places. -/
def Alongside (R : Cursor → Cursor → Prop) (x x' : α × Cursor) : Prop := x.1 = x'.1 ∧ R x.2 x'.2

/-- Cursors at the same place, or both at the ends of texts of which the second one has a line
feed more. -/
def Abreast (extra : Bool) (surplus : Nat → Nat) (c c' : Cursor) : Prop :=
  Alike extra surplus c c' ∨ AtEnd extra c c'

theorem not_isBreak_of_escapedBytes {site : TagSite} {r : List Char} {bytes : Bytes}
    (h : escapedBytes site r = .ok bytes) : ∀ a ∈ r.take (3 * bytes.length), isBreak a = false := by
  fun_induction escapedBytes site r generalizing bytes with
  | case1 a b rest hdigits ih =>
      obtain ⟨ha, hb⟩ := Bool.and_eq_true_iff.1 hdigits
      cases hrest : escapedBytes site rest with
      | error fault =>
          rw [hrest] at h
          cases h
      | ok others =>
          rw [hrest] at h
          cases h
          rw [List.length_cons, Nat.mul_add, Nat.mul_one, List.take_succ_cons, List.take_succ_cons,
            List.take_succ_cons]
          refine List.forall_mem_cons.2 ⟨by decide, List.forall_mem_cons.2 ⟨?_, ?_⟩⟩
          · exact not_isBreak_of_isHexDigit ha
          · exact List.forall_mem_cons.2 ⟨not_isBreak_of_isHexDigit hb, ih hrest⟩
  | case2 => cases h
  | case3 => cases h
  | case4 =>
      cases h
      simp

namespace Alike

variable {surplus : Nat → Nat} {c c' : Cursor}

theorem isTagChar_eq_false (a : Char) (h : isBreak a = true) : isTagChar a = false := by
  rcases cases_of_isBreak h with rfl | rfl | rfl | rfl | rfl <;> decide

theorem isNameChar_eq_false (a : Char) (h : isBreak a = true) : isNameChar a = false := by
  rcases cases_of_isBreak h with rfl | rfl | rfl | rfl | rfl <;> decide

theorem isDigit_eq_false (a : Char) (h : isBreak a = true) : a.isDigit = false := by
  rcases cases_of_isBreak h with rfl | rfl | rfl | rfl | rfl <;> decide

theorem beq_eq_false {b : Char} (hb : isBreak b = false) (a : Char) (h : isBreak a = true) :
    (a == b) = false := by
  rw [beq_eq_false_iff_ne]
  rintro rfl
  simp [hb] at h

/-! ## Names -/

theorem tagText (h : Alike extra surplus c c') (site : TagSite) (fuel : Nat) :
    Agrees extra (Alongside (Alike extra surplus)) (Cursor.tagText site fuel c)
      (Cursor.tagText site fuel c') := by
  induction fuel generalizing c c' with
  | zero => exact ⟨rfl, h⟩
  | succ fuel ih =>
      have hplain := h.advance_run isTagChar_eq_false
      rw [Cursor.tagText, Cursor.tagText]
      dsimp only
      refine agrees_ite ?_ (fun _ => ?_) fun _ => ?_
      · rw [hplain.head_beq (by decide)]
      · rw [hplain.respelled.escapedBytes_eq site]
        cases hbytes : escapedBytes site
            (Cursor.advance (c'.run isTagChar).length c').rest with
        | error fault => exact .inl rfl
        | ok bytes =>
            simp only [bind, Except.bind]
            split
            · exact .inl rfl
            · rename_i chars _
              have hrest := ih (hplain.advance (not_isBreak_of_escapedBytes hbytes))
              refine hrest.bind fun x x' hx => ?_
              exact ⟨by rw [h.run_eq isTagChar_eq_false, hx.1], hx.2⟩
      · exact ⟨h.run_eq isTagChar_eq_false, hplain⟩

theorem tagSuffix (h : Alike extra surplus c c') (site : TagSite) :
    Agrees extra (Alongside (Alike extra surplus)) (Cursor.tagSuffix site c)
      (Cursor.tagSuffix site c') := by
  rw [Cursor.tagSuffix, Cursor.tagSuffix]
  refine agrees_ite ?_ (fun _ => ?_) fun _ => .inl rfl
  · rw [h.apply_head (p := isTagChar) (by decide) fun _ => by decide, h.head_beq (by decide)]
  · rw [tagText_eq_of_lt (m := c'.rest.length + 1) (Nat.lt_succ_self _)
      (Nat.lt_succ_of_le h.length_le)]
    exact h.tagText site _

theorem tagHandle (h : Alike extra surplus c c') (site : TagSite) :
    Agrees extra (Alongside (Alike extra surplus)) (Cursor.tagHandle site c)
      (Cursor.tagHandle site c') := by
  rw [Cursor.tagHandle, Cursor.tagHandle]
  refine agrees_ite ?_ (fun _ => .inl rfl) fun hhead => ?_
  · rw [bne, bne, h.head_beq (by decide)]
  · have hmark : c'.head = '!' := by simpa using hhead
    have hnext := h.next (by rw [hmark]; decide)
    have hname := hnext.advance_run isNameChar_eq_false
    refine agrees_ite ?_ (fun _ => ⟨rfl, hnext⟩) fun _ => ?_
    · rw [peek_succ, peek_succ]
      exact hnext.head_beq (by decide)
    · dsimp only
      rw [peek_succ, peek_succ]
      refine agrees_ite ?_ (fun hclose => ?_) fun _ => .inl rfl
      · rw [hname.head_beq (by decide)]
      · have hend := hname.next (by rw [beq_iff_eq.1 hclose]; decide)
        rw [← advance_succ, ← advance_succ] at hend
        exact ⟨by rw [hnext.run_eq isNameChar_eq_false], hend⟩

/-- What stands behind a token is looked at only. -/
theorem guarded (h : Alike extra surplus c c') {x : α} {fault : Fault} {p : Char → Bool}
    (hreturn : p '\n' = p '\r') (hend : p '\n' = p endMark) :
    Agrees extra (Alongside (Alike extra surplus))
      (if p c.head = true then pure (x, c) else throw fault : Except Fault (α × Cursor))
      (if p c'.head = true then pure (x, c') else throw fault) :=
  agrees_ite (h.apply_head hreturn fun _ => hend) (fun _ => ⟨rfl, h⟩) fun _ => .inl rfl

theorem shorthandTag (h : Alike extra surplus c c') (ha : isBreak c'.head = false) :
    Agrees extra (Alongside (Alike extra surplus)) c.shorthandTag c'.shorthandTag := by
  have hnext := h.next ha
  have hword : (c.next.run fun a => !isSpaceOrBreak a) = c'.next.run fun a => !isSpaceOrBreak a :=
    hnext.run_eq fun a ha => by simp [isSpaceOrBreak, isBreakOrEnd_of_isBreak ha]
  have hsuffix (x x' : List Char × Cursor) (hx : Alongside (Alike extra surplus) x x') :
      Agrees extra (Alongside (Alike extra surplus))
        (Cursor.tagSuffix .node x.2 >>= fun y => pure (Token.tag (some x.1) y.1, y.2))
        (Cursor.tagSuffix .node x'.2 >>= fun y => pure (Token.tag (some x'.1) y.1, y.2)) :=
    (hx.2.tagSuffix .node).bind fun y y' hy => ⟨by rw [hx.1, hy.1], hy.2⟩
  rw [Cursor.shorthandTag, Cursor.shorthandTag]
  dsimp only
  rw [hword]
  split
  · exact (h.tagHandle .node).bind hsuffix
  · exact hsuffix (['!'], c.next) (['!'], c'.next) ⟨rfl, hnext⟩

theorem tag (h : Alike extra surplus c c') (ha : isBreak c'.head = false) :
    Agrees extra (Alongside (Alike extra surplus)) c.tag c'.tag := by
  have hnext := h.next ha
  have hend (x x' : Token × Cursor) (hx : Alongside (Alike extra surplus) x x') :
      Agrees extra (Alongside (Alike extra surplus))
        (if isSpaceOrBreak x.2.head = true then pure (x.1, x.2) else throw (.misread .tag) :
          Except Fault (Token × Cursor))
        (if isSpaceOrBreak x'.2.head = true then pure (x'.1, x'.2) else throw (.misread .tag)) := by
    rw [hx.1]
    exact hx.2.guarded (by decide) (by decide)
  rw [Cursor.tag, Cursor.tag, peek_succ, peek_succ]
  refine agrees_ite ?_ (fun hopen => ?_) fun _ => ?_
  · exact hnext.head_beq (by decide)
  · have hinner := hnext.next (by
      rw [show c'.next.head = '<' from beq_iff_eq.1 hopen]
      decide)
    refine (hinner.tagSuffix .node).bind fun x x' hx => ?_
    dsimp only
    refine agrees_ite ?_ (fun hclose => ?_) fun _ => .inl rfl
    · rw [hx.2.head_beq (by decide)]
    · have hbehind := hx.2.next (by rw [beq_iff_eq.1 hclose]; decide)
      exact hend (.tag none x.1, x.2.next) (.tag none x'.1, x'.2.next) ⟨by rw [hx.1], hbehind⟩
  · refine agrees_ite ?_ (fun _ => ?_) fun _ => (h.shorthandTag ha).bind hend
    · exact hnext.apply_head (by decide) fun _ => by decide
    · exact hend (.tag none ['!'], c.next) (.tag none ['!'], c'.next) ⟨rfl, hnext⟩

theorem anchorName (h : Alike extra surplus c c') (ha : isBreak c'.head = false) (part : Part) :
    Agrees extra (Alongside (Alike extra surplus)) (Cursor.anchorName part c)
      (Cursor.anchorName part c') := by
  have hnext := h.next ha
  have hname := hnext.advance_run isNameChar_eq_false
  rw [Cursor.anchorName, Cursor.anchorName]
  rw [hname.apply_head (p := endsAnchor) (by decide) fun _ => by decide,
    hnext.run_eq isNameChar_eq_false]
  rw [hnext.run_eq isNameChar_eq_false] at hname
  split
  · exact .inl rfl
  · exact ⟨rfl, hname⟩

theorem versionNumber (h : Alike extra surplus c c') :
    Agrees extra (Alongside (Alike extra surplus)) c.versionNumber c'.versionNumber := by
  have hdigits := h.advance_run isDigit_eq_false
  rw [Cursor.versionNumber, Cursor.versionNumber]
  rw [h.run_eq isDigit_eq_false] at hdigits ⊢
  split
  · exact .inl rfl
  · split
    · exact .inl rfl
    · exact ⟨rfl, hdigits⟩

theorem versionDirective (h : Alike extra surplus c c') :
    Agrees extra (Alongside (Alike extra surplus)) c.versionDirective c'.versionDirective := by
  rw [Cursor.versionDirective, Cursor.versionDirective]
  refine h.skipSpaces.versionNumber.bind fun x x' hx => ?_
  dsimp only
  refine agrees_ite ?_ (fun _ => .inl rfl) fun hdot => ?_
  · rw [bne, bne, hx.2.head_beq (by decide)]
  · have hnext := hx.2.next (by
      rw [show x'.2.head = '.' by simpa using hdot]
      decide)
    refine hnext.versionNumber.bind fun y y' hy => ?_
    rw [hx.1]
    exact hy.2.guarded (by decide) (by decide)

theorem handleDirective (h : Alike extra surplus c c') :
    Agrees extra (Alongside (Alike extra surplus)) c.handleDirective c'.handleDirective := by
  rw [Cursor.handleDirective, Cursor.handleDirective]
  refine (h.skipSpaces.tagHandle .directive).bind fun x x' hx => ?_
  dsimp only
  refine agrees_ite ?_ (fun _ => .inl rfl) fun _ => ?_
  · rw [bne, bne, hx.2.head_beq (by decide)]
  · refine (hx.2.skipSpaces.tagSuffix .directive).bind fun y y' hy => ?_
    rw [hx.1, hy.1]
    exact hy.2.guarded (by decide) (by decide)

theorem restOfLine (h : Alike extra surplus c c') (part : Part) :
    Agrees extra (Abreast extra surplus) (Cursor.restOfLine part c)
      (Cursor.restOfLine part c') := by
  have hcomment := h.skipSpaces.skipComment
  rw [Cursor.restOfLine, Cursor.restOfLine]
  refine agrees_ite ?_ (fun _ => ?_) fun _ => .inl rfl
  · exact hcomment.apply_head (by decide) fun _ => by decide
  · rcases hcomment.lineBreak?_cases with
      ⟨hnone, hnone'⟩ | ⟨b, d, d', hsome, hsome', hd⟩ | ⟨hnone, d', hsome', hend⟩
    · rw [hnone, hnone']
      exact .inl hcomment
    · rw [hsome, hsome']
      exact .inl hd
    · rw [hnone, hsome']
      exact .inr hend

theorem directive (h : Alike extra surplus c c') (ha : isBreak c'.head = false) :
    Agrees extra (Alongside (Abreast extra surplus)) c.directive c'.directive := by
  have hnext := h.next ha
  have hname := hnext.advance_run isNameChar_eq_false
  have hrest (x x' : Directive × Cursor) (hx : Alongside (Alike extra surplus) x x') :
      Agrees extra (Alongside (Abreast extra surplus))
        (x.2.restOfLine .directive >>= fun d => pure (Token.directive x.1, d))
        (x'.2.restOfLine .directive >>= fun d => pure (Token.directive x'.1, d)) :=
    (hx.2.restOfLine .directive).bind fun d d' hd => ⟨by rw [hx.1], hd⟩
  rw [Cursor.directive, Cursor.directive]
  dsimp only
  rw [hname.apply_head (p := isSpaceOrBreak) (by decide) fun _ => by decide,
    hnext.run_eq isNameChar_eq_false]
  rw [hnext.run_eq isNameChar_eq_false] at hname
  split
  · exact .inl rfl
  · split
    · exact hname.versionDirective.bind hrest
    · split
      · exact hname.handleDirective.bind hrest
      · have hskip := hname.skip (p := fun a => !isBreakOrEnd a)
          fun a ha => by simp [isBreakOrEnd_of_isBreak ha]
        generalize Cursor.skip _ _ = d at hskip ⊢
        generalize Cursor.skip _ _ = d' at hskip ⊢
        exact hrest (.other, d) (.other, d') ⟨rfl, hskip⟩

/-! ## Block scalars -/

/-- In texts with the same line ends. -/
theorem lineBreak?_cases_of_exact (h : Alike false surplus c c') :
    c.lineBreak? = none ∧ c'.lineBreak? = none ∨
      ∃ b d d', c.lineBreak? = some (b, d) ∧ c'.lineBreak? = some (b, d') ∧
        Alike false surplus d d' := by
  rcases h.lineBreak?_cases with hnone | hsome | ⟨-, d', -, hextra, -⟩
  · exact .inl hnone
  · exact .inr hsome
  · cases hextra

theorem chomping?_eq (h : Alike false surplus c c') : c.chomping? = c'.chomping? := by
  rw [Cursor.chomping?, Cursor.chomping?, h.head_beq (by decide), h.head_beq (by decide)]

theorem not_isBreak_of_chomping? {c : Cursor} {chomping : Chomping}
    (h : c.chomping? = some chomping) : isBreak c.head = false := by
  rw [Cursor.chomping?] at h
  split at h
  · rename_i hplus
    rw [beq_iff_eq.1 hplus]
    decide
  · split at h
    · rename_i hminus
      rw [beq_iff_eq.1 hminus]
      decide
    · cases h

theorem indentation? (h : Alike false surplus c c') :
    Agrees false (Alongside (Alike false surplus)) c.indentation? c'.indentation? := by
  rw [Cursor.indentation?, Cursor.indentation?]
  refine agrees_ite ?_ (fun _ => .inl rfl) fun _ => ?_
  · rw [h.head_beq (by decide)]
  · refine agrees_ite ?_ (fun hdigit => ?_) fun _ => ⟨rfl, h⟩
    · exact h.apply_head (p := Char.isDigit) (by decide) fun _ => by decide
    · have hbreak : isBreak c'.head = false := by
        cases hb : isBreak c'.head with
        | false => rfl
        | true => simp [isDigit_eq_false _ hb] at hdigit
      exact ⟨by rw [h.head_eq hbreak], h.next hbreak⟩

theorem blockHeader (h : Alike false surplus c c') :
    Agrees false (Alongside (Alike false surplus)) c.blockHeader c'.blockHeader := by
  have hend (x x' : BlockHeader × Cursor) (hx : Alongside (Alike false surplus) x x') :
      Agrees false (Alongside (Alike false surplus))
        (if isSpaceOrBreak x.2.head = true then pure (x.1, x.2)
          else throw (.misread .blockScalar) : Except Fault (BlockHeader × Cursor))
        (if isSpaceOrBreak x'.2.head = true then pure (x'.1, x'.2)
          else throw (.misread .blockScalar)) := by
    rw [hx.1]
    exact hx.2.guarded (by decide) (by decide)
  rw [Cursor.blockHeader, Cursor.blockHeader, h.chomping?_eq]
  split
  · rename_i chomping hchomping
    refine (h.next (not_isBreak_of_chomping? hchomping)).indentation?.bind fun x x' hx => ?_
    exact hend (⟨chomping, x.1⟩, x.2) (⟨chomping, x'.1⟩, x'.2) ⟨by rw [hx.1], hx.2⟩
  · refine h.indentation?.bind fun x x' hx => ?_
    obtain ⟨_, d⟩ := x
    obtain ⟨_, d'⟩ := x'
    obtain ⟨rfl, hd⟩ := hx
    dsimp only at hd ⊢
    rw [hd.chomping?_eq]
    split
    · rename_i n chomping hchomping
      exact hend (⟨chomping, some n⟩, d.next) (⟨chomping, some n⟩, d'.next)
        ⟨rfl, hd.next (not_isBreak_of_chomping? hchomping)⟩
    · exact hend (⟨.clip, _⟩, d) (⟨.clip, _⟩, d') ⟨rfl, hd⟩

theorem detectIndentation (h : Alike false surplus c c') (fuel widest : Nat) :
    ∃ breaks wide d d', Cursor.detectIndentation fuel widest c = (breaks, wide, d) ∧
      Cursor.detectIndentation fuel widest c' = (breaks, wide, d') ∧ Alike false surplus d d' := by
  induction fuel generalizing widest c c' with
  | zero => exact ⟨[], widest, c, c', rfl, rfl, h⟩
  | succ fuel ih =>
      rw [Cursor.detectIndentation, Cursor.detectIndentation, h.head_beq (by decide)]
      split
      · rename_i hspace
        have hnext := h.next (by rw [beq_iff_eq.1 hspace]; decide)
        rw [← hnext.column_eq]
        exact ih hnext _
      · rcases h.lineBreak?_cases_of_exact with ⟨hnone, hnone'⟩ | ⟨b, d, d', hsome, hsome', hd⟩
        · rw [hnone, hnone']
          exact ⟨[], widest, c, c', rfl, rfl, h⟩
        · obtain ⟨breaks, wide, e, e', heq, heq', he⟩ := ih hd widest
          rw [hsome, hsome']
          exact ⟨b :: breaks, wide, e, e', by simp only [heq], by simp only [heq'], he⟩

theorem skipIndentation (h : Alike false surplus c c') (indentation : Nat) :
    Alike false surplus (c.skipIndentation indentation) (c'.skipIndentation indentation) := by
  have hrun := h.run_eq (beq_eq_false (b := ' ') (by decide))
  rw [Cursor.skipIndentation, Cursor.skipIndentation, hrun, h.column_eq]
  refine h.advance fun a ha => ?_
  have hspaces : ∀ a ∈ c'.rest.take (c'.run (· == ' ')).length, a = ' ' := by
    have htake : c'.rest.take (c'.run (· == ' ')).length = c'.run (· == ' ') :=
      (List.prefix_iff_eq_take.1 (List.takeWhile_prefix _)).symm
    rw [htake]
    exact fun a ha => by simpa using List.mem_takeWhile_imp ha
  have hmem := (List.take_subset_take_left c'.rest (Nat.min_le_right _ _)) ha
  rw [hspaces a hmem]
  decide

theorem emptyLines (h : Alike false surplus c c') (indentation fuel : Nat) :
    ∃ breaks d d', Cursor.emptyLines indentation fuel c = (breaks, d) ∧
      Cursor.emptyLines indentation fuel c' = (breaks, d') ∧ Alike false surplus d d' := by
  induction fuel generalizing c c' with
  | zero => exact ⟨[], c, c', rfl, rfl, h⟩
  | succ fuel ih =>
      have hskip := h.skipIndentation indentation
      rw [Cursor.emptyLines, Cursor.emptyLines]
      dsimp only
      rcases hskip.lineBreak?_cases_of_exact with ⟨hnone, hnone'⟩ | ⟨b, d, d', hsome, hsome', hd⟩
      · rw [hnone, hnone']
        exact ⟨[], _, _, rfl, rfl, hskip⟩
      · obtain ⟨breaks, e, e', heq, heq', he⟩ := ih hd
        rw [hsome, hsome']
        exact ⟨b :: breaks, e, e', by simp only [heq], by simp only [heq'], he⟩

/-- With the bounds that are taken from what is ahead. -/
theorem emptyLines_of_length (h : Alike false surplus c c') (indentation : Nat) :
    ∃ breaks d d', Cursor.emptyLines indentation (c.rest.length + 1) c = (breaks, d) ∧
      Cursor.emptyLines indentation (c'.rest.length + 1) c' = (breaks, d') ∧
      Alike false surplus d d' := by
  rw [emptyLines_eq_of_lt (m := c'.rest.length + 1) (Nat.lt_succ_self _)
    (Nat.lt_succ_of_le h.length_le)]
  exact h.emptyLines indentation _

theorem isAtBlank_eq (h : Alike false surplus c c') : c.isAtBlank = c'.isAtBlank := by
  rw [Cursor.isAtBlank, Cursor.isAtBlank, h.head_beq (by decide), h.head_beq (by decide)]

theorem isAtBlockLine_eq (h : Alike false surplus c c') (indentation : Nat) :
    c.isAtBlockLine indentation = c'.isAtBlockLine indentation := by
  rw [Cursor.isAtBlockLine, Cursor.isAtBlockLine, h.column_eq,
    h.apply_head (p := (· != endMark)) (by decide) fun heq => absurd heq Bool.false_ne_true]

theorem blockLine (h : Alike false surplus c c') (indentation : Nat) :
    ∃ line lineEnd breaks d d', Cursor.blockLine indentation c = (line, lineEnd, breaks, d) ∧
      Cursor.blockLine indentation c' = (line, lineEnd, breaks, d') ∧ Alike false surplus d d' := by
  have hline : ∀ a, isBreak a = true → (!isBreakOrEnd a) = false :=
    fun a ha => by simp [isBreakOrEnd_of_isBreak ha]
  have hadvance := h.advance_run hline
  rw [Cursor.blockLine, Cursor.blockLine]
  dsimp only
  rw [h.run_eq hline] at hadvance ⊢
  rcases hadvance.lineBreak?_cases_of_exact with ⟨hnone, hnone'⟩ | ⟨b, d, d', hsome, hsome', hd⟩
  · obtain ⟨breaks, e, e', heq, heq', he⟩ := hadvance.emptyLines_of_length indentation
    rw [hnone, hnone']
    exact ⟨c'.run fun a => !isBreakOrEnd a, [], breaks, e, e', by simp only [heq],
      by simp only [heq'], he⟩
  · obtain ⟨breaks, e, e', heq, heq', he⟩ := hd.emptyLines_of_length indentation
    rw [hsome, hsome']
    exact ⟨c'.run fun a => !isBreakOrEnd a, [b], breaks, e, e', by simp only [heq],
      by simp only [heq'], he⟩

theorem blockLines (h : Alike false surplus c c') (folded : Bool) (indentation fuel : Nat) :
    ∃ text lineEnd trailing d d',
      Cursor.blockLines folded indentation fuel c = (text, lineEnd, trailing, d) ∧
      Cursor.blockLines folded indentation fuel c' = (text, lineEnd, trailing, d') ∧
      Alike false surplus d d' := by
  induction fuel generalizing c c' with
  | zero => exact ⟨[], [], [], c, c', rfl, rfl, h⟩
  | succ fuel ih =>
      obtain ⟨line, lineEnd, breaks, d, d', heq, heq', hd⟩ := h.blockLine indentation
      rw [blockLines_succ, blockLines_succ, heq, heq']
      dsimp only
      rw [hd.isAtBlockLine_eq, h.isAtBlank_eq, hd.isAtBlank_eq]
      split
      · obtain ⟨text, lineEnd', trailing, e, e', hrest, hrest', he⟩ := ih hd
        rw [hrest, hrest']
        exact ⟨_, lineEnd', trailing, e, e', rfl, rfl, he⟩
      · exact ⟨line, lineEnd, breaks, d, d', rfl, rfl, hd⟩

theorem leadingBreaks (h : Alike false surplus c c') (least : Nat) (given : Option Nat) :
    ∃ breaks indentation d d',
      Cursor.leadingBreaks least given c = (breaks, indentation, d) ∧
      Cursor.leadingBreaks least given c' = (breaks, indentation, d') ∧
      Alike false surplus d d' := by
  cases given with
  | some n =>
      obtain ⟨breaks, d, d', heq, heq', hd⟩ := h.emptyLines_of_length (least + n - 1)
      exact ⟨breaks, least + n - 1, d, d', by simp only [Cursor.leadingBreaks, heq],
        by simp only [Cursor.leadingBreaks, heq'], hd⟩
  | none =>
      obtain ⟨breaks, wide, d, d', heq, heq', hd⟩ := h.detectIndentation (c'.rest.length + 1) 0
      rw [← detectIndentation_eq_of_lt (n := c.rest.length + 1) (Nat.lt_succ_self _)
        (Nat.lt_succ_of_le h.length_le)] at heq
      exact ⟨breaks, max least wide, d, d', by simp only [Cursor.leadingBreaks, heq],
        by simp only [Cursor.leadingBreaks, heq'], hd⟩

theorem blockText (h : Alike false surplus c c') (folded : Bool) (indentation : Nat)
    (breaks : List Char) :
    ∃ text lineEnd trailing d d',
      Cursor.blockText folded indentation breaks c = (text, lineEnd, trailing, d) ∧
      Cursor.blockText folded indentation breaks c' = (text, lineEnd, trailing, d') ∧
      Alike false surplus d d' := by
  rw [Cursor.blockText, Cursor.blockText, h.isAtBlockLine_eq]
  split
  · obtain ⟨text, lineEnd, trailing, d, d', heq, heq', hd⟩ :=
      h.blockLines folded indentation (c'.rest.length + 1)
    rw [← blockLines_eq_of_lt (n := c.rest.length + 1) (Nat.lt_succ_self _)
      (Nat.lt_succ_of_le h.length_le)] at heq
    exact ⟨breaks ++ text, lineEnd, trailing, d, d', by simp only [heq], by simp only [heq'], hd⟩
  · exact ⟨[], [], breaks, c, c', rfl, rfl, h⟩

theorem blockScalar (h : Alike false surplus c c') (ha : isBreak c'.head = false) (folded : Bool)
    (indent : Int) :
    Agrees false (Alongside (Alike false surplus)) (c.blockScalar folded indent)
      (c'.blockScalar folded indent) := by
  rw [Cursor.blockScalar, Cursor.blockScalar]
  refine (h.next ha).blockHeader.bind fun x x' hx => ?_
  refine (hx.2.restOfLine .blockScalar).bind fun d d' hd => ?_
  have hd : Alike false surplus d d' := hd.resolve_right fun hend => Bool.false_ne_true hend.1
  obtain ⟨breaks, indentation, e, e', heq, heq', he⟩ :=
    hd.leadingBreaks (max 1 (indent + 1).toNat) x'.1.indentation
  obtain ⟨text, lineEnd, trailing, f, f', hf, hf', hlast⟩ :=
    he.blockText folded indentation breaks
  rw [hx.1]
  simp only [heq, heq', hf, hf']
  exact ⟨rfl, hlast⟩

end Alike

end Cursor

end FrontLint.Yaml
