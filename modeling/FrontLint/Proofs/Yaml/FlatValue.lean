import FrontLint.Proofs.Yaml.FlatGraph
import FrontLint.Proofs.Yaml.ScalarMapping

/-!
# Values of flat blocks

The value of a flat block is a mapping. The values of its entries are texts, and so are its
keys but for those that write a truth value or null. A text that is a key has the value of the
last entry with that key.
-/

namespace FrontLint

namespace Yaml

/-- The value of a plain scalar that writes no number and no date. -/
def plainValue (t : Text) : Value :=
  match Schema.tagOf t with
  | .bool => .bool ((Scalar.bool t).toOption.getD false)
  | .null => .null
  | _ => .text t

namespace Schema

/-- A letter opens the forms of truth values and of null only. -/
theorem mem_candidates_of_isAlpha {a : Char} (ha : a.isAlpha = true)
    {entry : Tag × (List Char → Bool)} (h : entry ∈ candidates (some a)) :
    entry = (.bool, boolWords.contains) ∨ entry = (.null, nullWords.contains) := by
  have hne : ∀ b : Char, b.isAlpha = false → a ≠ b := fun b hb => ne_of_isAlpha ha hb
  have hdigit : a.isDigit = false := by
    rw [Bool.eq_false_iff, ne_eq, isDigit_iff]
    have := isAlpha_iff.1 ha
    omega
  have hforms : candidates (some a) =
      (if "yYnNtTfFoO".toList.contains a then [(.bool, boolWords.contains)] else []) ++
        (if "~nN".toList.contains a then [(.null, nullWords.contains)] else []) := by
    simp [candidates, hdigit, hne]
  rw [hforms, List.mem_append] at h
  rcases h with h | h
  · split at h
    · exact .inl (List.mem_singleton.1 h)
    · cases h
  · split at h
    · exact .inr (List.mem_singleton.1 h)
    · cases h

/-- A line that begins with a letter writes a truth value or null, or is a string. -/
theorem tagOf_of_isAlpha {a : Char} {rest : List Char} (ha : a.isAlpha = true)
    (hline : '\n' ∉ a :: rest) :
    tagOf (Text.ofChars (a :: rest)) = .bool ∧ a :: rest ∈ boolWords ∨
      tagOf (Text.ofChars (a :: rest)) = .null ∧ a :: rest ∈ nullWords ∨
        tagOf (Text.ofChars (a :: rest)) = .str := by
  have hchars : (Text.ofChars (a :: rest)).chars? = some (a :: rest) :=
    Text.chars?_eq_some_iff.2 rfl
  have hbody : dropLineFeed (a :: rest) = a :: rest := by
    rw [dropLineFeed, if_neg]
    intro hlast
    exact hline (List.mem_of_getLast? hlast)
  simp only [tagOf, hchars, hbody, List.head?_cons]
  cases hfind : (candidates (some a)).find? fun entry => entry.2 (a :: rest) with
  | none => exact .inr (.inr rfl)
  | some entry =>
      have hform := List.find?_some hfind
      rcases mem_candidates_of_isAlpha ha (List.mem_of_find?_eq_some hfind) with rfl | rfl
      · exact .inl ⟨rfl, by simpa using hform⟩
      · exact .inr (.inl ⟨rfl, by simpa using hform⟩)

/-- A line that begins with a letter and holds a space is a string. -/
theorem tagOf_eq_str {a : Char} {rest : List Char} (ha : a.isAlpha = true)
    (hline : '\n' ∉ a :: rest) (hspace : ' ' ∈ rest) :
    tagOf (Text.ofChars (a :: rest)) = .str := by
  have hbool : ∀ w ∈ boolWords, ' ' ∉ w := by decide
  have hnull : ∀ w ∈ nullWords, ' ' ∉ w := by decide
  rcases tagOf_of_isAlpha ha hline with ⟨-, hw⟩ | ⟨-, hw⟩ | h
  · exact absurd (List.mem_cons_of_mem a hspace) (hbool _ hw)
  · exact absurd (List.mem_cons_of_mem a hspace) (hnull _ hw)
  · exact h

end Schema

/-- Every word for a truth value has one. -/
theorem Scalar.exists_bool_of_mem_boolWords {w : List Char} (h : w ∈ Schema.boolWords) :
    ∃ b, Scalar.bool (Text.ofChars w) = .ok b := by
  have hall : ∀ w ∈ Schema.boolWords, (Scalar.bool (Text.ofChars w)).toOption.isSome = true := by
    decide
  cases hw : Scalar.bool (Text.ofChars w) with
  | ok b => exact ⟨b, rfl⟩
  | error e =>
      have hsome := hall w h
      rw [hw] at hsome
      cases hsome

/-- A plain scalar of one line that begins with a letter is made to its value. -/
theorem Construction.scalarOf_of_isAlpha {g : Graph} {n : Nat} {a : Char} {rest : List Char}
    (ha : a.isAlpha = true) (hline : '\n' ∉ a :: rest)
    (hnode : g.node n = .scalar (Schema.tagOf (Text.ofChars (a :: rest)))
      (Text.ofChars (a :: rest))) :
    g.tagOf n ∈ scalarTags ∧
      scalarOf g n = .ok (plainValue (Text.ofChars (a :: rest)), false) := by
  have htext : textOf g n = .ok (Text.ofChars (a :: rest)) := by
    rw [textOf, scalarText, hnode]
  have htag : g.tagOf n = Schema.tagOf (Text.ofChars (a :: rest)) := by
    rw [Graph.tagOf, hnode, Node.tag]
  rw [scalarOf, htext, htag, plainValue]
  rcases Schema.tagOf_of_isAlpha ha hline with ⟨h, hword⟩ | ⟨h, -⟩ | h
  · obtain ⟨b, hb⟩ := Scalar.exists_bool_of_mem_boolWords hword
    rw [h, hb]
    refine ⟨by decide, ?_⟩
    simp only [bind, Except.bind, hb]
    rfl
  · rw [h]
    exact ⟨by decide, rfl⟩
  · rw [h]
    exact ⟨by decide, rfl⟩

end Yaml

namespace FlatEntry

variable (e : FlatEntry)

/-- The key and the value of an entry, as its mapping has them. -/
def keyed : Yaml.Construction.KeyedEntry :=
  (Yaml.plainValue (Text.ofChars e.key), false, .text (Text.ofChars e.value))

theorem tagOf_value : Yaml.Schema.tagOf (Text.ofChars e.value) = .str := by
  obtain ⟨a, tail, hvalue, ha⟩ := e.value_eq_cons
  have hline := e.not_mem_value
  have hspace : ' ' ∈ tail := by
    obtain ⟨first, next, rest, -, h⟩ := e.value_eq
    have hmem : ' ' ∈ e.value := by simp [h]
    rw [hvalue, List.mem_cons] at hmem
    exact hmem.resolve_left (ne_of_isAlpha ha (by decide)).symm
  rw [hvalue] at hline ⊢
  exact Yaml.Schema.tagOf_eq_str ha hline hspace

theorem plainValue_value :
    Yaml.plainValue (Text.ofChars e.value) = .text (Text.ofChars e.value) := by
  rw [Yaml.plainValue, e.tagOf_value]

/-- The value of a node that is a plain scalar. -/
def nodeValue : Yaml.Node → Value
  | .scalar _ text => Yaml.plainValue text
  | _ => .null

theorem map_numbers {value : Nat → Value} {entries : List FlatEntry} {start : Nat}
    (h : ∀ i node, (entries.flatMap nodes)[i]? = some node → value (start + i) = nodeValue node) :
    (numbers start entries).map (Yaml.Construction.scalarEntry value) = entries.map keyed := by
  induction entries generalizing start with
  | nil => rfl
  | cons e rest ih =>
      have hkey : value start = nodeValue _ := h 0 _ rfl
      have hvalue : value (start + 1) = nodeValue _ := h 1 _ rfl
      have hrest : (numbers (start + 2) rest).map (Yaml.Construction.scalarEntry value) =
          rest.map keyed := ih fun i node hi => by
        have hnode := h (i + 2) node (by simpa [nodes] using hi)
        rwa [show start + 2 + i = start + (i + 2) by omega]
      rw [numbers, List.map_cons, List.map_cons, hrest, Yaml.Construction.scalarEntry, hkey, hvalue,
        keyed, nodeValue, nodeValue, e.plainValue_value]

theorem mem_numbers {entries : List FlatEntry} {start n : Nat}
    (h : n ∈ (numbers start entries).flatMap fun e => [e.1, e.2]) :
    ∃ i, n = start + i ∧ i < (entries.flatMap nodes).length := by
  induction entries generalizing start with
  | nil => cases h
  | cons e rest ih =>
      simp only [numbers, List.flatMap_cons, List.cons_append, List.nil_append, List.mem_cons] at h
      simp only [List.flatMap_cons, List.length_append, nodes, List.length_cons, List.length_nil]
      rcases h with rfl | rfl | h
      · exact ⟨0, rfl, by omega⟩
      · exact ⟨1, rfl, by omega⟩
      · obtain ⟨i, rfl, hi⟩ := ih h
        exact ⟨i + 2, by omega, by omega⟩

theorem scalarOf_of_mem_nodes {node : Yaml.Node} (h : node ∈ e.nodes) {g : Yaml.Graph} {n : Nat}
    (hnode : g.node n = node) : g.tagOf n ∈ Yaml.scalarTags ∧
      Yaml.Construction.scalarOf g n = .ok (nodeValue node, false) := by
  simp only [nodes, List.mem_cons, List.not_mem_nil, or_false] at h
  rcases h with rfl | rfl
  · obtain ⟨a, tail, hkey, ha⟩ := e.isAlpha_head
    have hline := e.not_mem_key
    rw [hkey] at hline hnode ⊢
    exact Yaml.Construction.scalarOf_of_isAlpha ha hline hnode
  · obtain ⟨a, tail, hvalue, ha⟩ := e.value_eq_cons
    have hline := e.not_mem_value
    rw [hvalue] at hline hnode ⊢
    exact Yaml.Construction.scalarOf_of_isAlpha ha hline hnode

end FlatEntry

namespace Yaml

theorem Graph.getElem?_ofEntries (entries : List FlatEntry) (i : Nat) :
    (ofEntries entries)[1 + i]? = (entries.flatMap FlatEntry.nodes)[i]? := by
  rw [ofEntries, Array.getElem?_append_right (by simp)]
  simp

/-- The graph of a flat block is a mapping of scalars. -/
theorem Graph.isScalarMapping_ofEntries (entries : List FlatEntry) :
    (ofEntries entries).IsScalarMapping (FlatEntry.numbers 1 entries)
      fun n => FlatEntry.nodeValue ((ofEntries entries).node n) where
  root := by simp [ofEntries]
  scalar n hn := by
    obtain ⟨i, rfl, hi⟩ := FlatEntry.mem_numbers hn
    obtain ⟨node, hnode⟩ : ∃ node, (entries.flatMap FlatEntry.nodes)[i]? = some node :=
      ⟨_, List.getElem?_eq_getElem hi⟩
    obtain ⟨e, -, he⟩ := List.mem_flatMap.1 (List.mem_of_getElem? hnode)
    have hat := getElem?_ofEntries entries i
    rw [hnode] at hat
    refine ⟨(Array.getElem?_eq_some_iff.1 hat).1, ?_⟩
    rw [node_eq_of_getElem? hat]
    exact e.scalarOf_of_mem_nodes he (node_eq_of_getElem? hat)

theorem Graph.value_ofEntries (entries : List FlatEntry) :
    (ofEntries entries).value 0 =
      .ok (.map ((Construction.unique (entries.map FlatEntry.keyed)).map
        fun e => (e.1, e.2.2))) := by
  rw [(isScalarMapping_ofEntries entries).value_eq, FlatEntry.map_numbers]
  intro i node hnode
  rw [← getElem?_ofEntries] at hnode
  rw [node_eq_of_getElem? hnode]

theorem blockChars_ofChars {cs : List Char} (h : ∀ c ∈ cs, isAcceptable (.char c) = true) :
    blockChars (Text.ofChars cs) = .ok cs := by
  induction cs with
  | nil => rfl
  | cons c cs ih =>
      rw [Text.ofChars_cons, blockChars, if_pos (h c (by simp)),
        ih fun d hd => h d (List.mem_cons_of_mem _ hd)]
      rfl

end Yaml

/-- The fields of a flat block. -/
def FlatEntry.fields (entries : List FlatEntry) : Fields :=
  (Yaml.Construction.unique (entries.map keyed)).map fun e => (e.1, e.2.2)

theorem isAcceptable_of_mem_flatBlock {entries : List FlatEntry} {c : Char}
    (h : c ∈ flatBlock entries) : Yaml.isAcceptable (.char c) = true := by
  rcases mem_flatBlock h with rfl | ⟨e, -, hc⟩
  · decide
  · rcases e.mem_chars hc with rfl | rfl | hword
    · decide
    · decide
    · obtain ⟨hlo, hhi⟩ := toNat_of_isAsciiWord hword
      refine List.any_eq_true.2 ⟨(0x20, 0x7e), by decide, ?_⟩
      rw [Code.point_char, Bool.and_eq_true, decide_eq_true_eq, decide_eq_true_eq]
      omega

/-- The value of a flat block. -/
theorem Yaml.valueOfText_flatBlock {entries : List FlatEntry} (hne : entries ≠ []) :
    valueOfText (Text.ofChars (flatBlock entries)) =
      .ok (some (.map (FlatEntry.fields entries))) := by
  rw [valueOfText, blockChars_ofChars fun c hc => isAcceptable_of_mem_flatBlock hc]
  simp only [bind, Except.bind, TokenStream.ofChars_flatBlock hne, Graph.ofTokens_flat,
    Graph.value_ofEntries]
  rfl

namespace FlatEntry

theorem fields_ne_nil {entries : List FlatEntry} (hne : entries ≠ []) : fields entries ≠ [] := by
  obtain ⟨front, e, rfl⟩ := List.eq_nil_or_concat entries |>.resolve_left hne
  rw [fields, List.concat_eq_append, List.map_append, List.map_singleton,
    Yaml.Construction.unique_concat, ne_eq, List.map_eq_nil_iff]
  exact Yaml.Construction.insertEntry_ne_nil _ _

/-- A plain scalar is a text as a key only if it is that text. -/
theorem identity?_plainValue {t key : Text} (hkey : Yaml.Schema.tagOf key = .str) :
    (Yaml.plainValue t).identity? = some (.text key) ↔ t = key := by
  constructor
  · intro h
    rw [Yaml.plainValue] at h
    split at h
    · cases h
    · cases h
    · cases h
      rfl
  · rintro rfl
    rw [Yaml.plainValue, hkey]
    rfl

/-- A field of a flat block has the value of the last entry with its key. -/
theorem get?_fields {entries : List FlatEntry} {key : Text}
    (hkey : Yaml.Schema.tagOf key = .str) {v : Value} :
    (fields entries).get? key = some v ↔
      ∃ j e, IsLastEntry entries key j e ∧ v = .text (Text.ofChars e.value) := by
  have hregular : ∀ e ∈ entries.map keyed, Yaml.Construction.IsRegular e := by
    simp [Yaml.Construction.IsRegular, keyed]
  have hsame : ((fun e => decide (e.1.identity? = some (.text key))) ∘ keyed) =
      fun e => decide (Text.ofChars e.key = key) := by
    funext e
    simp [keyed, identity?_plainValue hkey]
  rw [fields, (Yaml.Construction.get?_unique hregular key).2, ← List.map_reverse, List.find?_map,
    hsame, Option.map_map, Option.map_eq_some_iff]
  simp only [IsLastEntry.find?_reverse_eq_some_iff]
  constructor
  · rintro ⟨e, ⟨j, hj⟩, rfl⟩
    exact ⟨j, e, hj, rfl⟩
  · rintro ⟨j, e, hj, rfl⟩
    exact ⟨e, ⟨j, hj⟩, rfl⟩

end FlatEntry

end FrontLint
