import FrontLint.Proofs.Document.Declarations
import FrontLint.Proofs.Document.LineEnds
import FrontLint.Proofs.Yaml.EntryGraph
import FrontLint.Proofs.Yaml.MirroredReadout

/-!
# Values of indexed keys

A key stands on the last line that declares it, and whether a line does so is seen from the line
alone. Where a token outside of all flow collections begins the line and the colon ends the key,
the entry of that line is the one whose value the fields keep: the lines from it on, a block of
their own, give the key that value, or have no fields.
-/

namespace FrontLint

namespace Yaml

open TokenStream

theorem valueOfTokens_eq_ok {σ : TokenStream} {value : Option Value}
    (h : valueOfTokens σ = .ok value) :
    ∃ g root, Graph.ofTokens σ = .ok (g, root) ∧
      (root = none ∧ value = none ∨ ∃ i v, root = some i ∧ value = some v ∧ g.value i = .ok v) := by
  rw [valueOfTokens] at h
  cases hg : Graph.ofTokens σ with
  | error fault =>
      rw [hg] at h
      cases h
  | ok x =>
      obtain ⟨g, root⟩ := x
      rw [hg] at h
      refine ⟨g, root, rfl, ?_⟩
      cases root with
      | none =>
          cases h
          exact .inl ⟨rfl, rfl⟩
      | some i =>
          have h : (g.value i >>= fun v => .ok (some v)) = .ok value := h
          cases hv : g.value i with
          | error fault =>
              rw [hv] at h
              cases h
          | ok v =>
              rw [hv] at h
              cases h
              exact .inr ⟨i, v, rfl, rfl, hv⟩

/-- The lines from an entry on give its key the value that it has in the whole block. -/
theorem get?_valueOfTokens_of_entry {front key rest : List Char} {F : Fields}
    {value : Option Value}
    (hne : key ≠ []) (hword : ∀ a ∈ key, (Code.char a).isWord = true)
    (hrest : isSeparator (rest.headD endMark) = true) (hfront : State.IsLineStart front)
    (hstr : Schema.tagOf (Text.ofChars key) = .str)
    (htoken : BeginsToken (front ++ (key ++ ':' :: rest)) front.length)
    (hhandle : Grammar.DefinesNoHandle (ofChars (front ++ (key ++ ':' :: rest))).tokens)
    (hF : valueOfTokens (ofChars (front ++ (key ++ ':' :: rest))) = .ok (some (.map F)))
    (hvalue : valueOfTokens (ofChars (key ++ ':' :: rest)) = .ok value) :
    ∃ G, value = some (.map G) ∧
      Fields.get? G (Text.ofChars key) = Fields.get? F (Text.ofChars key) := by
  obtain ⟨g, root, hg, hroot⟩ := valueOfTokens_eq_ok hF
  obtain ⟨i, v, rfl, hv, hF⟩ := hroot.resolve_left (by simp)
  cases hv
  obtain ⟨h, root, hh, hroot⟩ := valueOfTokens_eq_ok hvalue
  obtain ⟨rfl, rfl, d, front, v, back, hextends, hnode⟩ :=
    Graph.extends_of_entry hne hword hrest hfront htoken hhandle hg hh
  obtain ⟨_, w, hzero, rfl, hw⟩ := hroot.resolve_left (by simp)
  cases hzero
  rw [hstr] at hnode
  obtain ⟨G, rfl, hG⟩ := hextends.get?_eq List.mem_cons_self hnode hw hF
  exact ⟨G, rfl, hG⟩

end Yaml

/-- The lines of a block in front of a line, each with its line feed. -/
def linesBefore (lines : List Text) (i : Nat) : Text :=
  ((lines.take i).drop 1).flatMap (· ++ [lineFeed])

/-- The text of a block. -/
def blockText (lines : List Text) (closing : Nat) : Text := joinLines (interiorLines lines closing)

variable {lines : List Text} {closing i : Nat} {index : KeyIndex} {F G : Fields} {key : Text}
  {v : Value} {t : Text}

/-- A line of a block on which the grammar of the block sees an entry begin whose key is plain and
a text. -/
structure BeginsEntry (lines : List Text) (closing i : Nat) (key : Text) : Prop where
  /-- A token outside of all flow collections begins with the line. -/
  token : Yaml.TokenStream.BeginsToken (blockText lines closing).toChars
    (linesBefore lines i).length
  /-- The colon behind the key is the last character of the line, or in front of a separator. -/
  colon : ∀ text ∈ lines[i]?, ∀ c ∈ text[key.length + 1]?,
    ∃ a, c = .char a ∧ Yaml.isSeparator a = true
  tagOf_key : Yaml.Schema.tagOf key = .str

/-- A block that defines no tag handles of its own. -/
def DefinesNoHandle (lines : List Text) (closing : Nat) : Prop :=
  Yaml.Grammar.DefinesNoHandle (Yaml.TokenStream.ofChars (blockText lines closing).toChars).tokens

theorem joinLines_append (front : List Text) {back : List Text} (h : back ≠ []) :
    joinLines (front ++ back) = front.flatMap (· ++ [lineFeed]) ++ joinLines back := by
  induction front with
  | nil => rfl
  | cons line front ih =>
      rw [List.cons_append, joinLines_cons line (by simp [h]), ih]
      simp

theorem blockText_eq (lines : List Text) (closing : Nat) :
    blockText lines closing = joinLines ((lines.take closing).drop 1) := by
  rw [blockText, interiorLines_natCast]

/-- The text of a block at a line, and of the lines from it on. -/
theorem exists_blockText_eq {line : Text} (hline : lines[i]? = some line) (hpos : 0 < i)
    (hlt : i < closing) :
    ∃ more : Text, (∀ c ∈ more.head?, c = lineFeed) ∧
      blockText lines closing = linesBefore lines i ++ (line ++ more) ∧
      blockText (lines.drop (i - 1)) (closing - i + 1) = line ++ more := by
  have hback : (lines.take closing).drop i = line :: (lines.take closing).drop (i + 1) := by
    have hget : (lines.take closing)[i]? = some line := by rw [List.getElem?_take_of_lt hlt, hline]
    obtain ⟨hi, rfl⟩ := List.getElem?_eq_some_iff.1 hget
    exact List.drop_eq_getElem_cons hi
  have hfront : (lines.take closing).drop 1 =
      (lines.take i).drop 1 ++ (lines.take closing).drop i := by
    rw [List.drop_take, List.drop_take, List.drop_take,
      show closing - 1 = i - 1 + (closing - i) by omega, List.take_add, List.drop_drop,
      show 1 + (i - 1) = i by omega]
  have htail : ((lines.drop (i - 1)).take (closing - i + 1)).drop 1 =
      (lines.take closing).drop i := by
    rw [List.drop_take, List.drop_take, List.drop_drop, show i - 1 + 1 = i by omega,
      Nat.add_sub_cancel]
  rw [blockText_eq, blockText_eq, hfront, htail, hback, joinLines_append _ (by simp)]
  cases (lines.take closing).drop (i + 1) with
  | nil => exact ⟨[], nofun, by simp [joinLines, linesBefore], by simp [joinLines]⟩
  | cons next rest =>
      exact ⟨lineFeed :: joinLines (next :: rest), by simp, rfl, rfl⟩

/-- Fields are those of a value, but for a block that is empty or no mapping. -/
theorem Fields.ofValue_eq_ok {value : Option Value} (h : (Fields.ofValue value).result = .ok F) :
    value = some (.map F) ∨ F = [] := by
  rw [Fields.ofValue.eq_def] at h
  split at h <;> cases h
  · exact .inl rfl
  · exact .inr rfl
  · exact .inr rfl
  · exact .inr rfl

/-- Fields are those of the value that the tokens of a block stand for. -/
theorem Fields.ofLines_eq_ok (h : (Fields.ofLines lines 0 closing).result = .ok F) :
    ∃ cs value, blockText lines closing = Text.ofChars cs ∧
      Yaml.valueOfTokens (Yaml.TokenStream.ofChars cs) = .ok value ∧
        (Fields.ofValue value).result = .ok F := by
  rw [Fields.ofLines, if_neg (by simp), Noted.result_bind_eq_ok_iff] at h
  obtain ⟨value, hvalue, hF⟩ := h
  rw [Noted.result_ofExcept, ← blockText] at hvalue
  cases hcs : Yaml.blockChars (blockText lines closing) with
  | error fault =>
      rw [Yaml.valueOfText_of_blockChars_error hcs] at hvalue
      cases hvalue
  | ok cs =>
      rw [Yaml.valueOfText_of_blockChars hcs] at hvalue
      exact ⟨cs, value, (Yaml.meets_blockChars _).of_eq_ok hcs, hvalue, hF⟩

theorem exists_chars {cs : List Char} {front key rest : Text}
    (h : Text.ofChars cs = front ++ (key ++ colon :: rest)) :
    ∃ front' key' rest' : List Char, cs = front' ++ (key' ++ ':' :: rest') ∧
      front = Text.ofChars front' ∧ key = Text.ofChars key' ∧ rest = Text.ofChars rest' := by
  obtain ⟨front', back, rfl, rfl, hback⟩ := List.map_eq_append_iff.1 h
  obtain ⟨key', back', rfl, rfl, hback'⟩ := List.map_eq_append_iff.1 hback
  obtain ⟨a, rest', rfl, ha, rfl⟩ := List.map_eq_cons_iff.1 hback'
  cases ha
  exact ⟨front', key', rest', rfl, rfl, rfl, rfl⟩

theorem isLineStart_of_linesBefore {front : List Char}
    (h : linesBefore lines i = Text.ofChars front) :
    Yaml.TokenStream.State.IsLineStart front := by
  rw [linesBefore] at h
  rcases List.eq_nil_or_concat ((lines.take i).drop 1) with hnil | ⟨init, last, hconcat⟩
  · rw [hnil] at h
    exact .inl (List.map_eq_nil_iff.1 h.symm)
  · rw [hconcat, List.concat_eq_append, List.flatMap_append, List.flatMap_singleton,
      ← List.append_assoc] at h
    obtain ⟨front', back, rfl, -, hback⟩ := List.map_eq_append_iff.1 h.symm
    obtain ⟨a, rfl, ha⟩ := List.map_eq_singleton_iff.1 hback
    cases ha
    exact .inr ⟨front', rfl⟩

theorem isSeparator_headD {rest more : Text} {rest' : List Char}
    (hrest : ∀ c ∈ rest.head?, ∃ a, c = .char a ∧ Yaml.isSeparator a = true)
    (hmore : ∀ c ∈ more.head?, c = lineFeed) (h : rest ++ more = Text.ofChars rest') :
    Yaml.isSeparator (rest'.headD Yaml.endMark) = true := by
  cases rest' with
  | nil => decide
  | cons a rest' =>
      have hhead : (rest ++ more).head? = some (.char a) := by rw [h]; rfl
      rw [List.head?_append] at hhead
      cases hr : rest.head? with
      | some c =>
          obtain ⟨b, rfl, hb⟩ := hrest c hr
          rw [hr] at hhead
          cases hhead
          exact hb
      | none =>
          rw [hr] at hhead
          cases hmore _ hhead
          exact (by decide : Yaml.isSeparator '\n' = true)

/-- Where an entry begins on the line of a key, the lines from it on, a block of their own, give
the key the value that the whole block gives it, if they have fields. -/
theorem get?_fields_of_beginsEntry (hF : (Fields.ofLines lines 0 closing).result = .ok F)
    (hv : F.get? key = some v) (hindex : KeyIndex.ofLines? lines 0 closing = some index)
    (hi : index.line? key = some (i : Int)) (hentry : BeginsEntry lines closing i key)
    (hhandle : DefinesNoHandle lines closing)
    (hG : (Fields.ofLines (lines.drop (i - 1)) 0 (closing - i + 1 : Nat)).result = .ok G) :
    G.get? key = some v := by
  obtain ⟨n, hn, hpos, hlt, hdeclares, -⟩ :=
    (KeyIndex.line?_eq_some_iff
      (show KeyIndex.ofLines? lines (0 : Nat) closing = some index from hindex)).1 hi
  obtain rfl := Int.ofNat.inj hn
  obtain ⟨line, hline, hdeclared⟩ := KeyIndex.declares_iff.1 hdeclares
  have hkey := declaredKey?_eq_some_iff.1 hdeclared
  obtain ⟨rest, rfl⟩ := (isPrefix_of_declaredKey? hdeclared).2.2.2
  obtain ⟨more, hmore, hwhole, htail⟩ := exists_blockText_eq hline hpos hlt
  -- Both blocks are read from characters, the second one from the last ones of the first.
  obtain ⟨cs, value, hcs, hvalue, hF⟩ := Fields.ofLines_eq_ok hF
  obtain ⟨cs', value', hcs', hvalue', hG⟩ := Fields.ofLines_eq_ok hG
  obtain rfl := (Fields.ofValue_eq_ok hF).resolve_right (by rintro rfl; cases hv)
  have htoken := hentry.token
  have hcolon := hentry.colon _ hline
  rw [hcs, Text.toChars_ofChars] at htoken
  rw [DefinesNoHandle, hcs, Text.toChars_ofChars] at hhandle
  rw [hcs, List.append_assoc, List.append_assoc, List.singleton_append] at hwhole
  rw [hcs', List.append_assoc, List.append_assoc, List.singleton_append] at htail
  obtain ⟨front', key', rest', rfl, hfront, rfl, hrest⟩ := exists_chars hwhole
  obtain rfl : cs' = key' ++ ':' :: rest' := by
    rw [← Text.ofChars_inj, htail, hrest]
    simp [FrontLint.colon]
  rw [hfront, Text.ofChars, List.length_map] at htoken
  have hne : key' ≠ [] := by
    rintro rfl
    exact hkey.key_ne_nil rfl
  -- The line may end behind the colon, and then its line feed is the separator.
  have hsep : ∀ c ∈ rest.head?, ∃ a, c = .char a ∧ Yaml.isSeparator a = true := by
    intro c hc
    refine hcolon c ?_
    rw [List.getElem?_append_right (by simp), List.length_append, List.length_singleton,
      Nat.sub_self, ← List.head?_eq_getElem?]
    exact hc
  obtain ⟨G', rfl, hget⟩ := Yaml.get?_valueOfTokens_of_entry hne
    (fun a ha => hkey.isWord_of_mem _ (List.mem_map_of_mem ha))
    (isSeparator_headD hsep hmore hrest) (isLineStart_of_linesBefore hfront) hentry.tagOf_key
    htoken hhandle hvalue hvalue'
  obtain rfl := Except.ok.inj hG
  rw [hget, hv]

/-- The text that a key has. -/
def Fields.textAt? (fields : Fields) (key : Text) : Option Text :=
  match fields.get? key with
  | some (.text t) => some t
  | _ => none

theorem Fields.get?_of_textAt? {fields : Fields} (h : fields.textAt? key = some t) :
    fields.get? key = some (.text t) := by
  rw [textAt?] at h
  split at h
  · rename_i heq
    rw [heq, Option.some_inj.1 h]
  · cases h

theorem Fields.exists_get?_of_textAt? {ε : Type} {r : Except ε Fields}
    (h : r.toOption.bind (·.textAt? key) = some t) :
    ∃ F, r = .ok F ∧ F.get? key = some (.text t) := by
  obtain ⟨F, hF, ht⟩ := Option.bind_eq_some_iff.1 h
  exact ⟨F, Noted.eq_ok_of_toOption hF, get?_of_textAt? ht⟩

/-- A block in which the title is declared first and last. -/
def twoTitles : List Text := ["---", "title: a", "date: b", "title: c", "---"]

theorem beginsEntry_twoTitles : BeginsEntry twoTitles 4 3 "title" where
  token := Yaml.TokenStream.beginsToken_of_fetches 6 (by decide +kernel)
  colon text htext c hc := by
    obtain rfl : Text.ofString "title: c" = text := Option.some_inj.1 htext
    obtain rfl : Code.char ' ' = c := Option.some_inj.1 hc
    exact ⟨' ', rfl, by decide⟩
  tagOf_key := by decide +kernel

theorem definesNoHandle_twoTitles : DefinesNoHandle twoTitles 4 := by
  unfold DefinesNoHandle
  decide +kernel

/-- The last line of a title alone gives the title of the block. -/
theorem get?_title_twoTitles : ∃ F G index,
    (Fields.ofLines twoTitles 0 (4 : Nat)).result = .ok F ∧ F.get? "title" = some (.text "c") ∧
    KeyIndex.ofLines? twoTitles 0 (4 : Nat) = some index ∧
    index.line? "title" = some ((3 : Nat) : Int) ∧
    (Fields.ofLines (twoTitles.drop (3 - 1)) 0 (4 - 3 + 1 : Nat)).result = .ok G ∧
    BeginsEntry twoTitles 4 3 "title" ∧ DefinesNoHandle twoTitles 4 ∧
    G.get? "title" = some (.text "c") := by
  obtain ⟨F, hF, hv⟩ : ∃ F, (Fields.ofLines twoTitles 0 (4 : Nat)).result = .ok F ∧
      F.get? "title" = some (.text "c") := Fields.exists_get?_of_textAt? (by decide +kernel)
  obtain ⟨G, hG, -⟩ : ∃ G,
      (Fields.ofLines (twoTitles.drop (3 - 1)) 0 (4 - 3 + 1 : Nat)).result = .ok G ∧
        G.get? "title" = some (.text "c") := Fields.exists_get?_of_textAt? (by decide +kernel)
  have hline : (KeyIndex.ofLines? twoTitles 0 (4 : Nat)).bind (·.line? "title") =
      some ((3 : Nat) : Int) := by decide
  obtain ⟨index, hindex, hi⟩ := Option.bind_eq_some_iff.1 hline
  exact ⟨F, G, index, hF, hv, hindex, hi, hG, beginsEntry_twoTitles, definesNoHandle_twoTitles,
    get?_fields_of_beginsEntry hF hv hindex hi beginsEntry_twoTitles definesNoHandle_twoTitles hG⟩

/-- A key that stands on a line from which on the lines of its block, a block of their own, give it
another value or none. -/
def IsMisplaced (lines : List Text) (closing i : Nat) (key : Text) : Prop :=
  Span.find? lines = some ⟨0, closing⟩ ∧ ∃ F v index G,
    (Fields.ofLines lines 0 closing).result = .ok F ∧ F.get? key = some v ∧
    KeyIndex.ofLines? lines 0 closing = some index ∧ index.line? key = some (i : Int) ∧
    (Fields.ofLines (lines.drop (i - 1)) 0 (closing - i + 1 : Nat)).result = .ok G ∧
    G.get? key ≠ some v

theorem isMisplaced_of_textAt? (hspan : Span.find? lines = some ⟨0, closing⟩)
    (hF : (Fields.ofLines lines 0 closing).result.toOption.bind (·.textAt? key) = some t)
    (hi : (KeyIndex.ofLines? lines 0 closing).bind (·.line? key) = some (i : Int))
    (hG : ((Fields.ofLines (lines.drop (i - 1)) 0 (closing - i + 1 : Nat)).result.toOption.map
      fun G => decide (G.textAt? key = some t)) = some false) :
    IsMisplaced lines closing i key := by
  obtain ⟨F, hF, hv⟩ := Fields.exists_get?_of_textAt? hF
  obtain ⟨index, hindex, hi⟩ := Option.bind_eq_some_iff.1 hi
  obtain ⟨G, hG, hne⟩ := Option.map_eq_some_iff.1 hG
  refine ⟨hspan, F, .text t, index, G, hF, hv, hindex, hi, Noted.eq_ok_of_toOption hG,
    fun hsame => ?_⟩
  rw [decide_eq_false_iff_not] at hne
  exact hne (by rw [Fields.textAt?, hsame])

/-- A key is misplaced if the colon behind it is inside of a longer key, if its line goes on with a
scalar or a flow collection, if it is no text, and if its value is read with other tag handles. -/
theorem isMisplaced_unless_beginsEntry :
    IsMisplaced ["---", "title: a", "title:b: c", "---"] 3 2 "title" ∧
    IsMisplaced ["---", "title: \x22a", "title: b\x22", "---"] 3 2 "title" ∧
    IsMisplaced ["---", "title: a", "k: \x7bb: c,", "title: d\x7d", "---"] 4 3 "title" ∧
    IsMisplaced ["---", "\x2212\x22: a", "12: b", "---"] 3 2 "12" ∧
    IsMisplaced ["---", "%TAG !! b", "--- #",
      "title: !<tag:yaml.org,2002:str> \x7b!!value a: c, =: d\x7d", "---"] 4 3 "title" := by
  have inKey : IsMisplaced ["---", "title: a", "title:b: c", "---"] 3 2 "title" :=
    isMisplaced_of_textAt? (t := "a") (by decide) (by decide +kernel) (by decide)
      (by decide +kernel)
  have inScalar : IsMisplaced ["---", "title: \x22a", "title: b\x22", "---"] 3 2 "title" :=
    isMisplaced_of_textAt? (t := "a title: b") (by decide) (by decide +kernel) (by decide)
      (by decide +kernel)
  have inFlow : IsMisplaced ["---", "title: a", "k: \x7bb: c,", "title: d\x7d", "---"] 4 3
      "title" :=
    isMisplaced_of_textAt? (t := "a") (by decide) (by decide +kernel) (by decide)
      (by decide +kernel)
  have number : IsMisplaced ["---", "\x2212\x22: a", "12: b", "---"] 3 2 "12" :=
    isMisplaced_of_textAt? (t := "a") (by decide) (by decide +kernel) (by decide)
      (by decide +kernel)
  have handle : IsMisplaced ["---", "%TAG !! b", "--- #",
      "title: !<tag:yaml.org,2002:str> \x7b!!value a: c, =: d\x7d", "---"] 4 3 "title" :=
    isMisplaced_of_textAt? (t := "d") (by decide) (by decide +kernel) (by decide)
      (by decide +kernel)
  exact ⟨inKey, inScalar, inFlow, number, handle⟩

end FrontLint
