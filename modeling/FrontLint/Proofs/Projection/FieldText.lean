import FrontLint.Projection
import FrontLint.Proofs.Value.Scalar

/-!
# Texts of fields

The text of a field follows from the kind of its value. Truth values, numbers, dates and moments
are written out, but for false and the zeros, which count as empty. A text stands for itself
without a line feed at its end; if it has more than one line, that is noted and it has no text.
Nothing, lists and mappings have none.
-/

namespace FrontLint

/-- The values of a block without a tag for another kind: nothing, truth values, whole numbers
that are not too long to be written, floats, texts, dates, moments, lists and mappings. -/
def Value.IsCommon : Value → Prop
  | .int n => (Nat.toDigits 10 n.natAbs).length ≤ maxDecimalDigits
  | .bytes _ | .pair _ _ | .set _ | .enclosing _ => False
  | _ => True

/-- The notes made of a field and its text, by its value. -/
inductive FieldText (key : Text) : Option Value → List Note → Option Text → Prop
  | missing : FieldText key none [] none
  | null : FieldText key (some .null) [] none
  | boolTrue : FieldText key (some (.bool true)) [] (some (Text.ofString "True"))
  | boolFalse : FieldText key (some (.bool false)) [] none
  | int {n : Int} (h : n ≠ 0) :
      FieldText key (some (.int n)) [] (some (Text.ofString (toString n)))
  | intZero : FieldText key (some (.int 0)) [] none
  | float {x : Binary64} (h : x.isZero = false) :
      FieldText key (some (.float x)) [] (some (Text.ofString x.shortestText))
  | floatZero {x : Binary64} (h : x.isZero = true) : FieldText key (some (.float x)) [] none
  | date (d : Date) : FieldText key (some (.date d)) [] (some (Text.ofString d.text))
  | moment (m : Moment) : FieldText key (some (.moment m)) [] (some (Text.ofString m.text))
  | line {t line : Text} (h : t = line ∨ t = line ++ [lineFeed]) (hne : line ≠ [])
      (hfeed : lineFeed ∉ line) : FieldText key (some (.text t)) [] (some line)
  | empty {t : Text} (h : t = [] ∨ t = [lineFeed]) : FieldText key (some (.text t)) [] none
  | multiLine {front back : Text} (h : back ≠ []) :
      FieldText key (some (.text (front ++ lineFeed :: back))) [.multiLine key] none
  | list (items : List Value) : FieldText key (some (.list items)) [] none
  | map (entries : List (Value × Value)) : FieldText key (some (.map entries)) [] none

theorem Value.text?_int [HashSeed] {n : Int} (h : (Value.int n).IsCommon) :
    (Value.int n).text? = .ok (some (Text.ofString (toString n))) := by
  have hwrite : Numeral.writeInt n = .ok (toString n) := by
    rw [Numeral.writeInt, if_neg (Nat.not_lt.2 h)]
  simp only [text?, memberText, hwrite]
  rfl

theorem lineFeed_mem_ofString {s : String} : lineFeed ∈ Text.ofString s ↔ '\n' ∈ s.toList := by
  simp [Text.ofString, Text.ofChars, lineFeed]

theorem dropFinalLineFeed_of_not_mem {t : Text} (h : lineFeed ∉ t) : dropFinalLineFeed t = t := by
  rw [dropFinalLineFeed, if_neg]
  intro hlast
  exact h (List.mem_of_getLast? hlast)

@[simp] theorem dropFinalLineFeed_concat (t : Text) : dropFinalLineFeed (t ++ [lineFeed]) = t := by
  simp [dropFinalLineFeed]

/-- A line feed that is not the last character stays. -/
theorem lineFeed_mem_dropFinalLineFeed (front : Text) {back : Text} (h : back ≠ []) :
    lineFeed ∈ dropFinalLineFeed (front ++ lineFeed :: back) := by
  rw [dropFinalLineFeed]
  split
  · rw [List.dropLast_append_of_ne_nil (by simp), List.dropLast_cons_of_ne_nil h]
    simp
  · simp

namespace Fields

variable [HashSeed] {fields : Fields} {key : Text} {v : Value}

theorem lineText?_of_none (h : fields.get? key = none) :
    fields.lineText? key = ⟨[], .ok none⟩ := by
  simp only [lineText?, h]
  rfl

theorem lineText?_of_isVoid (h : fields.get? key = some v) (hvoid : v.isVoid = true) :
    fields.lineText? key = ⟨[], .ok none⟩ := by
  simp only [lineText?, h, hvoid, if_true]
  rfl

theorem lineText?_of_text?_eq_none (h : fields.get? key = some v) (htext : v.text? = .ok none) :
    fields.lineText? key = ⟨[], .ok none⟩ := by
  cases hvoid : v.isVoid with
  | true => exact lineText?_of_isVoid h hvoid
  | false =>
      simp only [lineText?, h, hvoid, htext]
      rfl

theorem lineText?_of_text?_eq_some {text : Text} (h : fields.get? key = some v)
    (hvoid : v.isVoid = false) (htext : v.text? = .ok (some text)) :
    fields.lineText? key =
      if lineFeed ∈ dropFinalLineFeed text then ⟨[.multiLine key], .ok none⟩
      else ⟨[], .ok (if dropFinalLineFeed text = [] then none
        else some (dropFinalLineFeed text))⟩ := by
  simp only [lineText?, h, hvoid, htext, Bool.false_eq_true, if_false]
  change (if (dropFinalLineFeed text).contains lineFeed = true then
      (do Noted.note (.multiLine key); return none : Noted NumeralFault (Option Text))
    else return if (dropFinalLineFeed text).isEmpty = true then none
      else some (dropFinalLineFeed text)) = _
  simp only [List.contains_iff_mem, List.isEmpty_iff]
  split <;> rfl

/-- A scalar that is written on one line has what is written as its text. -/
theorem lineText?_of_isLine {s : String} (h : fields.get? key = some v) (hvoid : v.isVoid = false)
    (htext : v.text? = .ok (some (Text.ofString s))) (hline : IsLine s.toList) :
    fields.lineText? key = ⟨[], .ok (some (Text.ofString s))⟩ := by
  have hfeed : lineFeed ∉ Text.ofString s := by
    rw [lineFeed_mem_ofString]
    exact hline.lineFeed_not_mem
  have hne : Text.ofString s ≠ [] := by
    rw [Text.ofString, Text.ofChars, Ne, List.map_eq_nil_iff]
    exact hline.ne_nil
  rw [lineText?_of_text?_eq_some h hvoid htext, dropFinalLineFeed_of_not_mem hfeed, if_neg hfeed,
    if_neg hne]

/-- The text of a field that is a text depends on what is left without a final line feed. -/
theorem lineText?_text {t : Text} (h : fields.get? key = some (.text t)) :
    fields.lineText? key =
      if lineFeed ∈ dropFinalLineFeed t then ⟨[.multiLine key], .ok none⟩
      else ⟨[], .ok (if dropFinalLineFeed t = [] then none else some (dropFinalLineFeed t))⟩ := by
  cases t with
  | nil => exact lineText?_of_isVoid h rfl
  | cons c rest => exact lineText?_of_text?_eq_some h rfl rfl

/-- A text of one line stands for itself. -/
theorem lineText?_of_text {t : Text} (h : fields.get? key = some (.text t)) (hne : t ≠ [])
    (hfeed : lineFeed ∉ t) : fields.lineText? key = ⟨[], .ok (some t)⟩ := by
  rw [lineText?_text h, dropFinalLineFeed_of_not_mem hfeed, if_neg hfeed, if_neg hne]

end Fields

namespace FieldText

variable {fields : Fields} {key : Text} {notes : List Note} {text : Option Text}

/-- What the relation allows is what a field gives. -/
theorem lineText?_eq [HashSeed] (h : FieldText key (fields.get? key) notes text)
    (hcommon : ∀ v, fields.get? key = some v → v.IsCommon) :
    fields.lineText? key = ⟨notes, .ok text⟩ := by
  generalize hv : fields.get? key = v at h
  cases h with
  | missing => exact Fields.lineText?_of_none hv
  | null => exact Fields.lineText?_of_isVoid hv rfl
  | boolTrue => exact Fields.lineText?_of_isLine hv rfl rfl (by decide)
  | boolFalse => exact Fields.lineText?_of_isVoid hv rfl
  | @int n hn =>
      have hvoid : (Value.int n).isVoid = false := by simp [Value.isVoid, hn]
      exact Fields.lineText?_of_isLine hv hvoid (Value.text?_int (hcommon _ hv)) (isLine_int n)
  | intZero => exact Fields.lineText?_of_isVoid hv rfl
  | @float x hx => exact Fields.lineText?_of_isLine hv hx rfl x.isLine_shortestText
  | floatZero hx => exact Fields.lineText?_of_isVoid hv hx
  | date d => exact Fields.lineText?_of_isLine hv rfl rfl d.isLine_text
  | moment m => exact Fields.lineText?_of_isLine hv rfl rfl m.isLine_text
  | @line t line ht hne hfeed =>
      have hdrop : dropFinalLineFeed t = line := by
        obtain rfl | rfl := ht
        · exact dropFinalLineFeed_of_not_mem hfeed
        · exact dropFinalLineFeed_concat line
      rw [Fields.lineText?_text hv, hdrop, if_neg hfeed, if_neg hne]
  | @empty t ht =>
      have hdrop : dropFinalLineFeed t = [] := by
        obtain rfl | rfl := ht
        · rfl
        · exact dropFinalLineFeed_concat []
      rw [Fields.lineText?_text hv, hdrop]
      rfl
  | @multiLine front back hback =>
      rw [Fields.lineText?_text hv, if_pos (lineFeed_mem_dropFinalLineFeed front hback)]
  | list items => exact Fields.lineText?_of_text?_eq_none hv rfl
  | map entries => exact Fields.lineText?_of_text?_eq_none hv rfl

/-- A text is one line, with or without a line feed behind it, or it is empty, or it has a line
feed with more behind it. -/
theorem exists_of_text (key t : Text) :
    ∃ notes text, FieldText key (some (.text t)) notes text := by
  by_cases hfeed : lineFeed ∈ t
  · obtain ⟨front, back, rfl, hfront⟩ := List.eq_append_cons_of_mem hfeed
    by_cases hback : back = []
    · subst hback
      by_cases hne : front = []
      · exact ⟨_, _, .empty (.inr (by rw [hne, List.nil_append]))⟩
      · exact ⟨_, _, .line (.inr rfl) hne hfront⟩
    · exact ⟨_, _, .multiLine hback⟩
  · by_cases hne : t = []
    · exact ⟨_, _, .empty (.inl hne)⟩
    · exact ⟨_, _, .line (.inl rfl) hne hfeed⟩

theorem exists_of_isCommon (key : Text) {v : Value} (h : v.IsCommon) :
    ∃ notes text, FieldText key (some v) notes text := by
  cases v with
  | null => exact ⟨_, _, .null⟩
  | bool b =>
      cases b with
      | true => exact ⟨_, _, .boolTrue⟩
      | false => exact ⟨_, _, .boolFalse⟩
  | int n =>
      by_cases hn : n = 0
      · subst hn
        exact ⟨_, _, .intZero⟩
      · exact ⟨_, _, .int hn⟩
  | float x =>
      cases hx : x.isZero with
      | true => exact ⟨_, _, .floatZero hx⟩
      | false => exact ⟨_, _, .float hx⟩
  | text t => exact exists_of_text key t
  | date d => exact ⟨_, _, .date d⟩
  | moment m => exact ⟨_, _, .moment m⟩
  | list items => exact ⟨_, _, .list items⟩
  | map entries => exact ⟨_, _, .map entries⟩
  | bytes | pair | set | enclosing => exact h.elim

end FieldText

/-- The text of a field with a common value is found for every such value, and with it the notes
made on the way: they are those that stand beside the value. -/
theorem Fields.lineText?_eq_iff_fieldText [HashSeed] {fields : Fields} {key : Text}
    (h : ∀ v, fields.get? key = some v → v.IsCommon) :
    (∃ notes text, fields.lineText? key = ⟨notes, .ok text⟩) ∧
      ∀ notes text,
        fields.lineText? key = ⟨notes, .ok text⟩ ↔
          FieldText key (fields.get? key) notes text := by
  have hexists : ∃ notes text, FieldText key (fields.get? key) notes text := by
    cases hv : fields.get? key with
    | none => exact ⟨_, _, .missing⟩
    | some v => exact FieldText.exists_of_isCommon key (h v hv)
  obtain ⟨foundNotes, found, hfound⟩ := hexists
  have hline := hfound.lineText?_eq h
  refine ⟨⟨foundNotes, found, hline⟩, fun notes text => ⟨?_, ?_⟩⟩
  · intro heq
    obtain ⟨rfl, hok⟩ := Noted.mk.inj (hline.symm.trans heq)
    cases hok
    exact hfound
  · exact fun htext => htext.lineText?_eq h

/-- A false title above a true description. -/
def truthFields : Fields :=
  [(.text Projection.titleField, .bool false), (.text Projection.descriptionField, .bool true)]

open HashSeed

/-- Of two truth values only the true one has a text. -/
theorem lineText?_truthFields :
    truthFields.get? Projection.titleField = some (.bool false) ∧
      truthFields.lineText? Projection.titleField = ⟨[], .ok none⟩ ∧
      truthFields.lineText? Projection.descriptionField =
        ⟨[], .ok (some (Text.ofString "True"))⟩ := by
  have hfalse : truthFields.get? Projection.titleField = some (.bool false) := by rfl
  have htrue : truthFields.get? Projection.descriptionField = some (.bool true) := by rfl
  have hcommon : ∀ b v, some (Value.bool b) = some v → v.IsCommon := by
    rintro b v ⟨⟩
    trivial
  refine ⟨hfalse, ?_, ?_⟩
  · refine ((Fields.lineText?_eq_iff_fieldText (hfalse ▸ hcommon false)).2 _ _).2 ?_
    exact hfalse ▸ .boolFalse
  · refine ((Fields.lineText?_eq_iff_fieldText (htrue ▸ hcommon true)).2 _ _).2 ?_
    exact htrue ▸ .boolTrue

end FrontLint
