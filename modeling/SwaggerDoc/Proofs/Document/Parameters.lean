import SwaggerDoc.Proofs.Document.Operations
import SwaggerDoc.Proofs.Resource.Routes

/-!
Path parameters and the placeholders of paths.

An operation on a member takes the id of the member, an operation on the collection takes nothing
from its path. The placeholder of this id is written behind the route, and the route is left as it
is. So the parameters of an operation match the placeholders of its path just if the route brings
no placeholders along and the placeholder of the id is not cut at a slash in the name
(`path_parameters_of_operations`). Validation does not see to either: it looks at the last segment of
a route, and a name is any text.
-/

namespace SwaggerDoc

/-! ## Placeholders -/

namespace Resource

/-- The name in a segment between braces. -/
def placeholder? (segment : Text) : Option Text :=
  if segment.startsWith (text "\x7b") && segment.endsWith (text "\x7d") then
    some (segment.drop 1).dropLast
  else none

/-- The names in the segments of a path that are between braces. -/
def placeholders (path : Text) : List Text := (Text.split 47 path).filterMap placeholder?

theorem placeholder?_placeholder (name : Text) : placeholder? (placeholder name) = some name := by
  rw [placeholder?, startsWith_placeholder, endsWith_placeholder, Bool.and_self, if_pos rfl]
  simp [placeholder, text]

theorem eq_placeholder {segment name : Text} (found : placeholder? segment = some name) :
    segment = placeholder name := by
  unfold placeholder? at found
  split at found
  · next braced =>
    rw [Bool.and_eq_true, Text.startsWith, Text.endsWith, List.isPrefixOf_iff_prefix,
      List.isSuffixOf_iff_suffix] at braced
    obtain ⟨⟨rest, begins⟩, front, ends⟩ := braced
    obtain rfl := Option.some.inj found
    rcases front with _ | ⟨c, inside⟩
    · rw [← begins] at ends
      simp [text] at ends
    · rw [← begins, List.cons_append] at ends
      obtain ⟨rfl, rfl⟩ := List.cons.inj ends
      rw [← begins]
      simp [placeholder, text]
  · cases found

/-- Segments end at slashes, so there is none in the name of a placeholder. -/
theorem not_mem_of_mem_placeholders {path name : Text} (member : name ∈ placeholders path) :
    47 ∉ name := by
  obtain ⟨segment, listed, found⟩ := List.mem_filterMap.mp member
  have slashless := Text.not_mem_of_mem_split listed
  rw [eq_placeholder found] at slashless
  intro slash
  exact slashless (List.mem_append_left _ (List.mem_append_right _ slash))

/-- The path of a member has the placeholders of the route and that of the id. -/
theorem placeholders_itemPath {r : Resource} (slashless : 47 ∉ r.name) :
    placeholders r.itemPath = placeholders r.route ++ [r.idParameter] := by
  have one : 47 ∉ placeholder r.idParameter :=
    not_mem_placeholder (not_mem_idParameter.mpr slashless)
  rw [placeholders, itemPath_eq, Text.split_append_separator, Text.split_of_not_mem one,
    List.filterMap_append, List.filterMap_cons_some (placeholder?_placeholder _),
    List.filterMap_nil]
  rfl

end Resource

/-! ## Path parameters -/

namespace Store

/-- The names of the parameters of an operation that are in its path. -/
def pathParameterNames (u : Store) (operation : Value) : List (Option Value) :=
  (u.parametersIn operation "path").map (u.at? · "name")

end Store

/-- The same names are on both sides, each of them once. -/
structure NamesMatch (placeholders : List Text) (parameters : List (Option Value)) : Prop where
  placeholders_nodup : placeholders.Nodup
  parameters_nodup : parameters.Nodup
  mem_iff : ∀ name, name ∈ parameters ↔ ∃ t ∈ placeholders, name = some (.ofText t)

namespace NamesMatch

variable {names : List Text}

theorem nil_iff : NamesMatch names [] ↔ names = [] := by
  constructor
  · intro ⟨_, _, same⟩
    rw [List.eq_nil_iff_forall_not_mem]
    intro t member
    cases (same _).mpr ⟨t, member, rfl⟩
  · rintro rfl
    exact ⟨.nil, .nil, by simp⟩

theorem singleton (t : Text) : NamesMatch [t] [some (.ofText t)] :=
  ⟨List.nodup_singleton _, List.nodup_singleton _, by simp⟩

theorem mem {t : Text} (same : NamesMatch names [some (.ofText t)]) : t ∈ names := by
  obtain ⟨t', member, eq⟩ := (same.mem_iff _).mp List.mem_cons_self
  exact Scalar.string.inj (Value.scalar.inj (Option.some.inj eq)) ▸ member

theorem eq_singleton {t : Text} (same : NamesMatch names [some (.ofText t)]) : names = [t] := by
  have only : ∀ t' ∈ names, t' = t := by
    intro t' member
    have named := (same.mem_iff _).mpr ⟨t', member, rfl⟩
    exact Scalar.string.inj (Value.scalar.inj (Option.some.inj (List.mem_singleton.mp named)))
  exact List.perm_singleton.mp <| (List.perm_ext_iff_of_nodup same.placeholders_nodup
    (List.nodup_singleton t)).mpr fun t' =>
      ⟨fun member => List.mem_singleton.mpr (only t' member),
        fun member => List.mem_singleton.mp member ▸ same.mem⟩

end NamesMatch

/-- A method on a member has one path parameter, a method on the collection has none. -/
theorem Operation.filter_parameters_of (r : Subject) (m : Method) :
    ∃ description, (Operation.of r m).parameters.filter (·.part == "path") =
      if m.onItem then [.id r.idParameter description] else [] := by
  cases m with
  | index => exact ⟨[], rfl⟩
  | post => exact ⟨[], rfl⟩
  | get => exact ⟨_, rfl⟩
  | put => exact ⟨_, rfl⟩
  | delete => exact ⟨_, rfl⟩

/-- Path parameters are required, and the only one is the id of a member. -/
theorem Operation.parametersIn_path {r : Resource} {m : Method} {u : Store} {v : Value}
    (stands : (Operation.of r.subject m).shape.StandsAt u v) :
    (∀ p ∈ u.parametersIn v "path", u.at? p "required" = some (.scalar (.bool true))) ∧
      u.pathParameterNames v = if m.onItem then [some (.ofText r.idParameter)] else [] := by
  have stand := Operation.parametersIn_stand stands "path"
  obtain ⟨description, filtered⟩ := Operation.filter_parameters_of r.subject m
  rw [filtered] at stand
  rw [Store.pathParameterNames]
  cases side : m.onItem with
  | false =>
    rw [side, if_neg Bool.false_ne_true] at stand
    rw [List.forall₂_nil_left_iff.mp stand]
    exact ⟨nofun, rfl⟩
  | true =>
    rw [side, if_pos rfl] at stand
    obtain ⟨p, rest, id, none, eq⟩ := List.forall₂_cons_left_iff.mp stand
    rw [eq, List.forall₂_nil_left_iff.mp none]
    constructor
    · intro p' member
      rw [List.mem_singleton.mp member]
      exact Shape.at?_of_lookup_value id rfl
    · exact congrArg (fun name => [name]) (Shape.at?_of_lookup_value id rfl)

/-- What the parameters of an operation have to do with its path. -/
structure Store.PathParameters (u : Store) (r : Resource) (o : Store.PlacedOperation)
    (path : Text) : Prop where
  path_eq : o.path = .ofText path
  required : ∀ p ∈ u.parametersIn o.value "path", u.at? p "required" = some (.scalar (.bool true))
  names : (path = r.route ∧ u.pathParameterNames o.value = []) ∨
    (path = r.itemPath ∧ u.pathParameterNames o.value = [some (.ofText r.idParameter)])
  /-- The placeholders of the path are its parameters unless the route has placeholders of its own
  or, on a member, the name has a slash in it. -/
  matches_iff : NamesMatch (Resource.placeholders path) (u.pathParameterNames o.value) ↔
    Resource.placeholders r.route = [] ∧ (path = r.route ∨ 47 ∉ r.name)

theorem Method.StandsAs.pathParameters {r : Resource} {u : Store} {m : Method}
    {o : Store.PlacedOperation} (stands : m.StandsAs r u o) : ∃ path, u.PathParameters r o path := by
  obtain ⟨required, names⟩ := Operation.parametersIn_path stands.stands
  have path := stands.path
  cases side : m.onItem with
  | false =>
    rw [side] at names path
    refine ⟨r.route, path, required, .inl ⟨rfl, names⟩, ?_⟩
    rw [names, if_neg Bool.false_ne_true, NamesMatch.nil_iff]
    exact ⟨fun none => ⟨none, .inl rfl⟩, And.left⟩
  | true =>
    rw [side] at names path
    refine ⟨r.itemPath, path, required, .inr ⟨rfl, names⟩, ?_⟩
    rw [names, if_pos rfl]
    constructor
    · intro same
      -- The id is among the placeholders, which are cut at slashes. So there is none in the name, and
      -- the placeholders are those of the route with the id behind them.
      have slashless := Resource.not_mem_idParameter.mp
        (Resource.not_mem_of_mem_placeholders same.mem)
      have all := same.eq_singleton
      rw [Resource.placeholders_itemPath slashless] at all
      exact ⟨by simpa using all, .inr slashless⟩
    · rintro ⟨none, same | slashless⟩
      · exact absurd same r.itemPath_ne_route
      · rw [Resource.placeholders_itemPath slashless, none]
        exact NamesMatch.singleton _

/-- The parameters of the operations that a resource is compiled to, wherever the document is placed.
-/
theorem path_parameters_of_operations {s : Store} {r : Resource} {v schema definition : Value}
    {j : Journal} {d : Document} (lies : r.LiesAt s v)
    (compiled : (s.compile v schema definition j).1 = .ok d) (t : Store) :
    ∃ paths, (d.shape.place t).2.at? (d.shape.place t).1 "paths" = some paths ∧
      ∀ o ∈ (d.shape.place t).2.operations paths,
        ∃ path, (d.shape.place t).2.PathParameters r o path := by
  obtain ⟨made, rfl⟩ := lies.exists_of_compile compiled
  obtain ⟨paths, behind, stand⟩ :=
    r.operations_stand made (Shape.standsAt_place (r.document made).shape t)
  refine ⟨paths, behind, fun o member => ?_⟩
  obtain ⟨m, -, stands⟩ := exists_of_mem_right stand member
  exact stands.pathParameters

namespace ParametersSample

def flat : Resource := ⟨text "/users", text "user", text "User", [.index, .put]⟩

/-- The collection of a member of another one. -/
def nested : Resource :=
  ⟨text "/orgs/\x7borgId\x7d/users", text "user", text "User", [.index, .get]⟩

/-- A resource with a slash in its name. -/
def slashed : Resource := ⟨text "/files", text "a/b", text "File", [.get]⟩

open OperationsSample

/-- The resource is accepted and compiled to a document with an operation under the path, the
parameters of which do not match the placeholders. -/
def Mismatches (r : Resource) (path : Text) : Prop :=
  Resource.check (store r) (attributes r) = .ok r ∧
    ((store r).compile (.ref 2) .null (.ref 0) ⟨none, []⟩).1 =
      .ok (r.document (.given (.ref 0))) ∧
    ∃ paths, (placed r).2.at? (placed r).1 "paths" = some paths ∧
      ∃ o ∈ (placed r).2.operations paths, o.path = .ofText path ∧
        ¬ NamesMatch (Resource.placeholders path) ((placed r).2.pathParameterNames o.value)

theorem mismatches_of {r : Resource} {m : Method} {path : Text}
    (accepted : Resource.check (store r) (attributes r) = .ok r) (enabled : m ∈ r.enabled)
    (under : r.pathOn m.onItem = .ofText path)
    (differ : ¬ NamesMatch (Resource.placeholders path)
      (if m.onItem then [some (.ofText r.idParameter)] else [])) : Mismatches r path := by
  obtain ⟨paths, behind, stand⟩ :=
    r.operations_stand (.given (.ref 0)) (Shape.standsAt_place _ (store r))
  obtain ⟨o, member, stands⟩ := exists_of_mem_left stand enabled
  rw [← (Operation.parametersIn_path stands.stands).2] at differ
  exact ⟨accepted, compiled r, paths, behind, o, member, stands.path.trans under, differ⟩

end ParametersSample

open OperationsSample ParametersSample in
/-- A placeholder inside the route is no parameter, on the collection or on a member, and neither is
a placeholder that is cut at a slash in the name. -/
theorem placeholders_without_parameters :
    Mismatches nested (text "/orgs/\x7borgId\x7d/users") ∧
      Mismatches nested (text "/orgs/\x7borgId\x7d/users/\x7buserId\x7d") ∧
      Mismatches slashed (text "/files/\x7ba/bId\x7d") := by
  have collection : ¬ NamesMatch [text "orgId"] [] := fun same =>
    absurd (NamesMatch.nil_iff.mp same) (by decide)
  have item : ¬ NamesMatch [text "orgId", text "userId"] [some (.ofText (text "userId"))] :=
    fun same => absurd same.eq_singleton (by decide)
  have cut : ¬ NamesMatch [] [some (.ofText (text "a/bId"))] :=
    fun same => absurd same.mem List.not_mem_nil
  exact ⟨mismatches_of rfl (m := .index) (by decide) rfl collection,
    mismatches_of rfl (m := .get) (by decide) rfl item,
    mismatches_of rfl (m := .get) (by decide) rfl cut⟩

open OperationsSample ParametersSample in
/-- On a route without placeholders the two match. -/
theorem path_parameters_of_sample :
    flat.LiesAt (store flat) (.ref 2) ∧
      ((store flat).compile (.ref 2) .null (.ref 0) ⟨none, []⟩).1 =
        .ok (flat.document (.given (.ref 0))) ∧
      ∃ paths, (placed flat).2.at? (placed flat).1 "paths" = some paths ∧
        ∀ o ∈ (placed flat).2.operations paths, ∃ path, o.path = .ofText path ∧
          NamesMatch (Resource.placeholders path) ((placed flat).2.pathParameterNames o.value) := by
  obtain ⟨paths, behind, fit⟩ :=
    path_parameters_of_operations (liesAt flat) (compiled flat) (store flat)
  refine ⟨liesAt flat, compiled flat, paths, behind, fun o member => ?_⟩
  obtain ⟨path, parameters⟩ := fit o member
  exact ⟨path, parameters.path_eq,
    parameters.matches_iff.mpr ⟨by decide, .inr (by decide)⟩⟩

end SwaggerDoc
