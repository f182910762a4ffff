import SwaggerDoc.Proofs.Json.Tokens
import SwaggerDoc.Proofs.Yaml.Loading

/-!
The nodes that JSON is built into.

The tokens of a portable value are built into nodes of its data, whatever nodes there are before
(`Json.buildsNode`), so that a text whose root is a list or a mapping has the graph of its data
(`JsonText.exists_graph`).
-/

namespace SwaggerDoc

open Yaml Yaml.Graph

namespace Json

/-- From a number on, wherever that is, nodes are those of data. -/
def AtFrom (start : Nat) (inner : List Node) (d : Data) : Prop :=
  ∀ front later : List Node, front.length = start →
    d.At (front ++ (inner ++ later)).toArray start

/-- From a number on, nodes are those of items, which have some numbers. -/
def AllAtFrom (start : Nat) (inner : List Node) (items : List Data) (ids : List Nat) : Prop :=
  ∀ front later : List Node, front.length = start →
    AllAt (front ++ (inner ++ later)).toArray items ids

/-- From a number on, nodes are those of entries, which have some numbers. -/
def EntriesAtFrom (start : Nat) (inner : List Node) (entries : List (Text × Data))
    (ids : List (Nat × Nat)) : Prop :=
  ∀ front later : List Node, front.length = start →
    EntriesAt (front ++ (inner ++ later)).toArray entries ids

section Steps

variable {n : Nat} {ts more : List Token} {nodes nodes' : List Node} {id : Nat}
  {ids : List Nat}

theorem exists_firstToken (v : Json) : ∃ t ts, v.tokens = t :: ts ∧ IsPlainToken t ∧
    t ∉ ([.key, .value, .comma, .flowSequenceEnd, .flowMappingEnd] : List Token) := by
  cases v with
  | _ => exact ⟨_, _, rfl, trivial, by simp⟩

/-- What separates a part from those before it: the first has none before it. -/
def separator (first : Bool) : List Token := if first then [] else [.comma]

/-- The next item, which is no pair. -/
theorem flowItems_item (first : Bool) (v : Json) {b : Building}
    (item : node ⟨false, false⟩ n (building (v.tokens ++ ts) nodes) = .ok (id, b))
    (later : flowItems false n b = .ok (ids, building more nodes')) :
    flowItems first (n + 1) (building (separator first ++ (v.tokens ++ ts)) nodes) =
      .ok (id :: ids, building more nodes') := by
  obtain ⟨t, us, same, -, other⟩ := exists_firstToken v
  rw [same, List.cons_append] at item ⊢
  have noEnd : (t :: (us ++ ts)).head? ≠ some .flowSequenceEnd := fun same =>
    other (by simp [Option.some.inj same])
  have noKey : (t :: (us ++ ts)).head? ≠ some .key := fun same =>
    other (by simp [Option.some.inj same])
  have parts : (do
      let item ← node ⟨false, false⟩ n
      return item :: (← flowItems false n)) (building (t :: (us ++ ts)) nodes) =
        .ok (id :: ids, building more nodes') := by
    rw [bind_of_ok item, bind_of_ok later]
    rfl
  cases first with
  | true =>
    rw [flowItems, separator, if_pos rfl, List.nil_append, bind_of_ok (passed_other noEnd)]
    simp only [Bool.not_true, Bool.false_eq_true, if_false]
    rw [bind_of_ok (passed_other noKey), if_neg Bool.false_ne_true,
      bind_of_ok (passed_other noEnd), if_neg Bool.false_ne_true]
    exact parts
  | false =>
    rw [flowItems, separator, if_neg Bool.false_ne_true, List.singleton_append,
      bind_of_ok (passed_other (by simp))]
    simp only [Bool.not_false, Bool.false_eq_true, if_false, if_true]
    rw [bind_of_ok require_cons, bind_of_ok (passed_other noKey), if_neg Bool.false_ne_true,
      bind_of_ok (passed_other noEnd), if_neg Bool.false_ne_true]
    exact parts

theorem flowItems_end (first : Bool) :
    flowItems first (n + 1) (building (.flowSequenceEnd :: more) nodes) =
      .ok ([], building more nodes) := by
  rw [flowItems, bind_of_ok passed_cons]
  rfl

/-- The next entry, with a text as its key. -/
theorem flowEntries_entry (first : Bool) (name : Padded (List Piece)) (v : Json)
    {entries : List (Nat × Nat)} {b : Building}
    (value : node ⟨false, false⟩ (n + 1) (building (v.tokens ++ ts)
      (nodes ++ [.scalar .string (meaning name.inner)])) = .ok (id, b))
    (later : flowEntries false (n + 2) b = .ok (entries, building more nodes')) :
    flowEntries first (n + 3) (building (separator first ++
        (nameTokens name ++ (v.tokens ++ ts))) nodes) =
      .ok ((nodes.length, id) :: entries, building more nodes') := by
  obtain ⟨t, us, same, -, other⟩ := exists_firstToken v
  rw [same, List.cons_append] at value ⊢
  simp only [nameTokens, List.cons_append, List.nil_append]
  generalize meaning name.inner = key at value ⊢
  have named (us : List Token) : nodeUnless [.value, .comma, .flowMappingEnd] ⟨false, false⟩ (n + 2)
      (building (.scalar false key :: us) nodes) =
      .ok (nodes.length, building us (nodes ++ [.scalar .string key])) := by
    rw [nodeUnless_cons _ _ (by rfl), node_cons _ _ (by exact trivial), begun,
      bind_of_ok pass_cons, addNode_none]
    rfl
  have fits : ([.comma, .flowMappingEnd] : List Token).contains t = false := by
    refine Bool.eq_false_iff.mpr fun member => other ?_
    have listed := List.contains_iff_mem.mp member
    simp only [List.mem_cons, List.not_mem_nil, or_false] at listed ⊢
    rcases listed with rfl | rfl <;> simp
  have parts : (do
      let key ← nodeUnless [.value, .comma, .flowMappingEnd] ⟨false, false⟩ (n + 2)
      let value ←
        if ← passed .value then nodeUnless [.comma, .flowMappingEnd] ⟨false, false⟩ (n + 2)
        else absent
      return (key, value) :: (← flowEntries false (n + 2)))
      (building (.scalar false key :: .value :: t :: (us ++ ts)) nodes) =
        .ok ((nodes.length, id) :: entries, building more nodes') := by
    rw [bind_of_ok (named _), bind_of_ok passed_cons]
    simp only [if_true]
    rw [bind_of_ok ((nodeUnless_cons ⟨false, false⟩ (n + 1) fits).trans value), bind_of_ok later]
    rfl
  cases first with
  | true =>
    rw [flowEntries, separator, if_pos rfl, List.nil_append, bind_of_ok (passed_other (by simp))]
    simp only [Bool.not_true, Bool.false_eq_true, if_false]
    rw [bind_of_ok passed_cons, if_pos rfl]
    exact parts
  | false =>
    rw [flowEntries, separator, if_neg Bool.false_ne_true, List.singleton_append,
      bind_of_ok (passed_other (by simp))]
    simp only [Bool.not_false, Bool.false_eq_true, if_false, if_true]
    rw [bind_of_ok require_cons, bind_of_ok passed_cons, if_pos rfl]
    exact parts

theorem flowEntries_end (first : Bool) :
    flowEntries first (n + 1) (building (.flowMappingEnd :: more) nodes) =
      .ok ([], building more nodes) := by
  rw [flowEntries, bind_of_ok passed_cons]
  rfl

end Steps

/-! ## Scalars -/

section Scalars

theorem freeTag_of_word {w : Text} (word : IsWord w) : freeTag w = Implicit.tag w := by
  have noBreak : (w.getLast? == some 10) = false := by
    refine beq_eq_false_iff_ne.mpr fun last => ?_
    have inside := word.characters 10 (List.mem_of_getLast? last)
    exact absurd inside (by unfold IsWordCharacter; decide)
  rw [freeTag, noBreak, Bool.and_false]
  rfl

/-- The node of a scalar is that of an atom. -/
theorem atFrom_atom {start : Nat} {a : Atom} {tag : NodeTag} {t : Text} (same : tag = a.tag)
    (content : ∀ s : Store, Content.value s a.tag t = .ok (.scalar a.scalar, s)) :
    AtFrom start [.scalar tag t] (.atom a) := by
  rintro front later rfl
  subst same
  exact ⟨t, getElem?_append_cons front later _, content⟩

end Scalars

/-! ## Parts behind each other -/

section Parts

variable {start : Nat} {inner inner' : List Node} {d : Data}

theorem AllAtFrom.cons {items : List Data} {ids : List Nat} (first : AtFrom start inner d)
    (others : AllAtFrom (start + inner.length) inner' items ids) :
    AllAtFrom start (inner ++ inner') (d :: items) (start :: ids) := by
  rintro front later rfl
  refine ⟨_, _, rfl, ?_, ?_⟩
  · simpa using first front (inner' ++ later) rfl
  · simpa using others (front ++ inner) later List.length_append

theorem AtFrom.list {items : List Data} {ids : List Nat}
    (parts : AllAtFrom (start + 1) inner items ids) :
    AtFrom start (.sequence .sequence ids :: inner) (.list items) := by
  rintro front later rfl
  refine ⟨ids, getElem?_append_cons front _ _, ?_⟩
  simpa using parts (front ++ [.sequence .sequence ids]) later List.length_append

theorem EntriesAtFrom.cons {key : Text} {entries : List (Text × Data)} {ids : List (Nat × Nat)}
    (value : AtFrom (start + 1) inner d)
    (others : EntriesAtFrom (start + 1 + inner.length) inner' entries ids) :
    EntriesAtFrom start (.scalar .string key :: (inner ++ inner')) ((key, d) :: entries)
      ((start, start + 1) :: ids) := by
  rintro front later rfl
  refine ⟨_, _, _, rfl, ⟨_, getElem?_append_cons front _ _, fun _ => rfl⟩, ?_, ?_⟩
  · simpa using value (front ++ [.scalar .string key]) (inner' ++ later) List.length_append
  · simpa using others (front ++ .scalar .string key :: inner) later
      (by simp only [List.length_append, List.length_cons]; omega)

theorem AtFrom.map {entries : List (Text × Data)} {ids : List (Nat × Nat)}
    (parts : EntriesAtFrom (start + 1) inner entries ids) :
    AtFrom start (.mapping .mapping ids :: inner) (.map entries) := by
  rintro front later rfl
  refine ⟨ids, getElem?_append_cons front _ _, ?_⟩
  simpa using parts (front ++ [.mapping .mapping ids]) later List.length_append

end Parts

/-! ## Values -/

section Values

/-- Some tokens are built in so many steps into nodes of data, and other tokens are left. -/
def BuildsNode (n : Nat) (ts more : List Token) (d : Data) : Prop :=
  ∀ (place : Graph.Place) (nodes : List Node), ∃ inner,
    node place n (building ts nodes) = .ok (nodes.length, building more (nodes ++ inner)) ∧
      AtFrom nodes.length inner d

/-- Some tokens are built in so many steps into nodes of items. -/
def BuildsItems (first : Bool) (n : Nat) (ts more : List Token) (items : List Data) : Prop :=
  ∀ nodes : List Node, ∃ ids inner,
    flowItems first n (building ts nodes) = .ok (ids, building more (nodes ++ inner)) ∧
      AllAtFrom nodes.length inner items ids

/-- Some tokens are built in so many steps into nodes of entries. -/
def BuildsEntries (first : Bool) (n : Nat) (ts more : List Token) (entries : List (Text × Data)) :
    Prop :=
  ∀ nodes : List Node, ∃ ids inner,
    flowEntries first n (building ts nodes) = .ok (ids, building more (nodes ++ inner)) ∧
      EntriesAtFrom nodes.length inner entries ids

variable {n : Nat} {ts more : List Token}

theorem buildsNode_scalar {plain : Bool} {w : Text} {a : Atom}
    (same : (if plain then freeTag w else .string) = a.tag)
    (content : ∀ s : Store, Content.value s a.tag w = .ok (.scalar a.scalar, s)) :
    BuildsNode (n + 1) (.scalar plain w :: more) more (.atom a) := by
  refine fun place nodes => ⟨_, ?_, atFrom_atom same content⟩
  rw [node_cons place n (by exact trivial), begun, bind_of_ok pass_cons, addNode_none]

theorem BuildsItems.nil (first : Bool) :
    BuildsItems first (n + 1) (.flowSequenceEnd :: more) more [] :=
  fun _ => ⟨[], [], (flowItems_end first).trans (by rw [List.append_nil]), fun _ _ _ => rfl⟩

theorem BuildsItems.cons (first : Bool) {v : Json} {d : Data} {items : List Data}
    (item : BuildsNode n (v.tokens ++ ts) ts d) (others : BuildsItems false n ts more items) :
    BuildsItems first (n + 1) (separator first ++ (v.tokens ++ ts)) more (d :: items) := by
  intro nodes
  obtain ⟨inner, built, there⟩ := item ⟨false, false⟩ nodes
  obtain ⟨ids, inner', built', there'⟩ := others (nodes ++ inner)
  rw [List.length_append] at there'
  rw [List.append_assoc] at built'
  exact ⟨_, _, flowItems_item first v built built', .cons there there'⟩

theorem BuildsItems.list {items : List Data} (parts : BuildsItems true n ts more items) :
    BuildsNode (n + 1) (.flowSequence :: ts) more (.list items) := by
  intro place nodes
  obtain ⟨ids, inner, built, there⟩ := parts (nodes ++ [.sequence .sequence []])
  rw [List.append_assoc] at built
  rw [List.length_append] at there
  exact ⟨_, (node_cons place n (by exact trivial) _ _).trans
    ((bind_of_ok pass_cons).trans (collection_eq built)), .list there⟩

theorem BuildsEntries.nil (first : Bool) :
    BuildsEntries first (n + 1) (.flowMappingEnd :: more) more [] :=
  fun _ => ⟨[], [], (flowEntries_end first).trans (by rw [List.append_nil]), fun _ _ _ => rfl⟩

theorem BuildsEntries.cons (first : Bool) (name : Padded (List Piece)) {v : Json} {d : Data}
    {entries : List (Text × Data)} (value : BuildsNode (n + 1) (v.tokens ++ ts) ts d)
    (others : BuildsEntries false (n + 2) ts more entries) :
    BuildsEntries first (n + 3) (separator first ++ (nameTokens name ++ (v.tokens ++ ts))) more
      ((meaning name.inner, d) :: entries) := by
  intro nodes
  obtain ⟨inner, built, there⟩ := value ⟨false, false⟩
    (nodes ++ [.scalar .string (meaning name.inner)])
  obtain ⟨ids, inner', built', there'⟩ := others
    (nodes ++ [.scalar .string (meaning name.inner)] ++ inner)
  have parts := flowEntries_entry first name v built built'
  simp only [List.append_assoc, List.singleton_append] at parts
  simp only [List.length_append, List.length_singleton] at there there' parts
  exact ⟨_, _, parts, .cons there there'⟩

theorem BuildsEntries.map {entries : List (Text × Data)}
    (parts : BuildsEntries true n ts more entries) :
    BuildsNode (n + 1) (.flowMapping :: ts) more (.map entries) := by
  intro place nodes
  obtain ⟨ids, inner, built, there⟩ := parts (nodes ++ [.sequence .sequence []])
  rw [List.append_assoc] at built
  rw [List.length_append] at there
  exact ⟨_, (node_cons place n (by exact trivial) _ _).trans
    ((bind_of_ok pass_cons).trans (collection_eq built)), .map there⟩

mutual

/-- The tokens of a portable value are built into nodes of its data. -/
theorem buildsNode : (v : Json) → v.isPortable = true → {n : Nat} → 2 * v.tokens.length ≤ n →
    (more : List Token) → BuildsNode n (v.tokens ++ more) more v.data
  | .null, _, n + 1, _, more => buildsNode_scalar (a := .null) (by decide) fun _ => rfl
  | .bool true, _, n + 1, _, more => buildsNode_scalar (a := .bool true) (by decide) fun _ => rfl
  | .bool false, _, n + 1, _, more =>
    buildsNode_scalar (a := .bool false) (by decide) fun _ => rfl
  | .number negative digits numeral, portable, n + 1, _, more => by
    have sign : (if negative then [45] else [] : Text) = [] ∨
        (if negative then [45] else [] : Text) = [45] := by cases negative <;> simp
    refine buildsNode_scalar (a := .int _) ?_ fun s => ?_
    · exact (freeTag_of_word (isWord_number negative numeral)).trans (tag_of_numeral sign numeral)
    · have read := whole_of_numeral negative numeral (of_decide_eq_true portable)
      rw [Atom.tag, Content.value, read]
      rfl
  | .string pieces, _, n + 1, _, more =>
    buildsNode_scalar (a := .text (meaning pieces)) rfl fun _ => rfl
  | .emptyArray b, _, n + 2, _, more => BuildsItems.list (.nil true)
  | .array ⟨before, v, after⟩ items, portable, n + 2, fuel, more => by
    simp only [isPortable, Bool.and_eq_true] at portable
    obtain ⟨⟨⟨-, first⟩, -⟩, later⟩ := portable
    simp only [tokens, List.length_cons, List.length_append, List.length_nil] at fuel
    have parts := BuildsItems.cons true
      (buildsNode v first (n := n) (by omega) (itemTokens items ++ .flowSequenceEnd :: more))
      (buildsItems items later (by omega) more)
    simpa [tokens, data, separator] using parts.list
  | .emptyObject b, _, n + 2, _, more => BuildsEntries.map (.nil true)
  | .object ⟨name, before, v, after⟩ members, portable, n + 4, fuel, more => by
    simp only [isPortable, Bool.and_eq_true] at portable
    obtain ⟨⟨⟨⟨-, -⟩, first⟩, -⟩, later⟩ := portable
    simp only [tokens, nameTokens, List.length_cons, List.length_append, List.length_nil] at fuel
    have parts := BuildsEntries.cons true name
      (buildsNode v first (n := n + 1) (by omega) (memberTokens members ++ .flowMappingEnd :: more))
      (buildsEntries members later (by omega) more)
    simpa [tokens, data, separator] using parts.map

theorem buildsItems : (items : List (Padded Json)) → areItemsPortable items = true →
    {n : Nat} → 2 * (itemTokens items).length + 1 ≤ n → (more : List Token) →
    BuildsItems false n (itemTokens items ++ .flowSequenceEnd :: more) more (itemData items)
  | [], _, n + 1, _, more => .nil false
  | ⟨before, v, after⟩ :: items, portable, n + 1, fuel, more => by
    simp only [areItemsPortable, Bool.and_eq_true] at portable
    obtain ⟨⟨⟨-, first⟩, -⟩, later⟩ := portable
    simp only [itemTokens, List.length_cons, List.length_append] at fuel
    have parts := BuildsItems.cons false
      (buildsNode v first (n := n) (by omega) (itemTokens items ++ .flowSequenceEnd :: more))
      (buildsItems items later (by omega) more)
    simpa [itemTokens, itemData, separator] using parts

theorem buildsEntries : (members : List (Member Json)) → areMembersPortable members = true →
    {n : Nat} → 2 * (memberTokens members).length + 1 ≤ n → (more : List Token) →
    BuildsEntries false n (memberTokens members ++ .flowMappingEnd :: more) more
      (memberData members)
  | [], _, n + 1, _, more => .nil false
  | ⟨name, before, v, after⟩ :: members, portable, n + 3, fuel, more => by
    simp only [areMembersPortable, Bool.and_eq_true] at portable
    obtain ⟨⟨⟨⟨-, -⟩, first⟩, -⟩, later⟩ := portable
    simp only [memberTokens, nameTokens, List.length_cons, List.length_append,
      List.length_nil] at fuel
    have parts := BuildsEntries.cons false name
      (buildsNode v first (n := n + 1) (by omega) (memberTokens members ++ .flowMappingEnd :: more))
      (buildsEntries members later (by omega) more)
    simpa [memberTokens, memberData, separator] using parts

end

end Values

end Json

open Json in
/-- The graph of a portable text whose root is a list or a mapping. -/
theorem JsonText.exists_graph {t : JsonText} (portable : JsonText.isPortable t = true)
    (collection : t.inner.isCollection = true) :
    ∃ nodes, Graph.ofText t.characters = .ok ⟨nodes, some 0⟩ ∧ t.inner.data.At nodes 0 := by
  have readable : t.characters.all isReadable = true :=
    List.all_eq_true.mpr (JsonText.allReadable portable)
  have inner : t.inner.isPortable = true := by
    simp only [JsonText.isPortable, Bool.and_eq_true] at portable
    exact portable.1.1.2
  obtain ⟨u, us, same, plain, -⟩ := Json.exists_firstToken t.inner
  obtain ⟨nodes, root, there⟩ := buildsNode t.inner inner
    (n := stepsPerToken * (t.inner.tokens.length + 2)) (by rw [stepsPerToken]; omega) []
    ⟨true, false⟩ []
  rw [List.append_nil, same] at root
  have graph := ofTokens_cons plain root
  rw [← same] at graph
  have whole := there [] [] rfl
  refine ⟨nodes.toArray, ?_, by simpa using whole⟩
  rw [Graph.ofText, if_pos readable, JsonText.tokens_eq portable collection, graph]
  rfl

end SwaggerDoc
