import SwaggerDoc.Proofs.Resource.Accepted
import SwaggerDoc.Proofs.Text.Split

/-!
Routes of collections and paths of members.

The path of a member ends in a segment between braces, and with a name that has no slash in it this
segment is known from the path: it is what stands behind the last slash, slashes at the end of the
path aside. So the path of a member is refused as a route (`endsInPlaceholder_itemPath`), and the path
determines the route and the name it was made from (`itemPath_injective`).
-/

namespace SwaggerDoc.Resource

/-! ## The last segment -/

/-- A segment between braces. -/
def placeholder (name : Text) : Text := text "\x7b" ++ name ++ text "\x7d"

theorem not_mem_placeholder {name : Text} (slashless : 47 ∉ name) : 47 ∉ placeholder name := by
  simp [placeholder, text, slashless]

theorem startsWith_placeholder (name : Text) :
    (placeholder name).startsWith (text "\x7b") = true := by
  rw [Text.startsWith, List.isPrefixOf_iff_prefix, placeholder, List.append_assoc]
  exact List.prefix_append _ _

theorem endsWith_placeholder (name : Text) : (placeholder name).endsWith (text "\x7d") = true :=
  List.isSuffixOf_iff_suffix.mpr (List.suffix_append _ _)

theorem itemPath_eq (r : Resource) : r.itemPath = r.route ++ 47 :: placeholder r.idParameter := by
  simp [itemPath, placeholder, text]

theorem not_mem_idParameter {r : Resource} : 47 ∉ r.idParameter ↔ 47 ∉ r.name := by
  simp [idParameter, text]

theorem lastSegment_itemPath {r : Resource} (slashless : 47 ∉ r.name) (n : Nat) :
    lastSegment (r.itemPath ++ List.replicate n 47) = placeholder r.idParameter := by
  have one : 47 ∉ placeholder r.idParameter :=
    not_mem_placeholder (not_mem_idParameter.mpr slashless)
  have braced : r.itemPath = r.route ++ text "/\x7b" ++ r.idParameter ++ [125] := rfl
  have trimmed : Text.trimEnd (· == 47) (r.itemPath ++ List.replicate n 47) = r.itemPath := by
    rw [braced]
    exact Text.trimEnd_append_replicate (by decide) n
  rw [lastSegment, trimmed, itemPath_eq, Text.split_append_separator, Text.split_of_not_mem one,
    List.getLast?_concat]
  rfl

theorem endsInPlaceholder_itemPath {r : Resource} (slashless : 47 ∉ r.name) (n : Nat) :
    endsInPlaceholder (r.itemPath ++ List.replicate n 47) = true := by
  rw [endsInPlaceholder, lastSegment_itemPath slashless, startsWith_placeholder,
    endsWith_placeholder, Bool.and_self]

/-- The path of a member determines the route and the name. -/
theorem itemPath_injective {r r' : Resource} (slashless : 47 ∉ r.name) (slashless' : 47 ∉ r'.name)
    (same : r.itemPath = r'.itemPath) : r.route = r'.route ∧ r.name = r'.name := by
  have segments : placeholder r.idParameter = placeholder r'.idParameter := by
    rw [← lastSegment_itemPath slashless 0, ← lastSegment_itemPath slashless' 0, same]
  have name : r.name = r'.name := by
    simpa [placeholder, idParameter] using segments
  refine ⟨?_, name⟩
  rw [itemPath_eq, itemPath_eq, segments] at same
  exact List.append_cancel_right same

/-- The route of the second resource is told apart from the paths of the members of the first, and
these paths are told apart from each other. -/
structure RoutesApart (r r' : Resource) : Prop where
  /-- The route is no path of a member, with or without slashes behind it. -/
  ne : ∀ n, r'.route ≠ r.itemPath ++ List.replicate n 47
  /-- Whatever is given beside it, such a path is refused as a route, and the issue says why. -/
  refused : ∀ (n : Nat) (s : Store) (entries : List (Value × Value)) (v : Value),
    lookupText? entries (text "route") = some v →
    Check.string v = .accepted (r.itemPath ++ List.replicate n 47) →
    (∀ r'' : Resource, Resource.check s entries ≠ .ok r'') ∧
      ∃ more, ofEntries s entries = .refused
        (⟨[.name (text "route")], .itemRoute (r.itemPath ++ List.replicate n 47)⟩ :: more)
  itemPath_inj : r.itemPath = r'.itemPath ↔ r.route = r'.route ∧ r.name = r'.name

/-- No accepted route is the path of a member of any resource whose name has no slash in it. -/
theorem accepted_routes_are_no_item_paths {r r' : Resource} (accepted : r'.IsAccepted)
    (slashless : 47 ∉ r.name) (slashless' : 47 ∉ r'.name) : RoutesApart r r' := by
  refine ⟨?_, ?_, ?_, ?_⟩
  · intro n same
    have ends := endsInPlaceholder_itemPath slashless n
    rw [← same, accepted.endsInPlaceholder_eq] at ends
    cases ends
  · intro n s entries v given written
    obtain ⟨more, refused⟩ := ofEntries_of_endsInPlaceholder (s := s) given written
      (endsInPlaceholder_itemPath slashless n)
    exact ⟨check_ne_ok_of_refused refused, more, refused⟩
  · exact itemPath_injective slashless slashless'
  · rintro ⟨route, name⟩
    rw [itemPath_eq, itemPath_eq, route, idParameter, idParameter, name]

/-- With a slash in the name, the path of a member passes for a route. -/
example : endsInPlaceholder (itemPath ⟨text "/users", text "a/b", text "User", []⟩) = false := by
  decide

namespace RoutesSample

/-- A resource, and one the route of which goes through a member of it. -/
def users : Resource := ⟨text "/users", text "user", text "User", []⟩

def posts : Resource := ⟨text "/users/\x7buserId\x7d/posts", text "post", text "Post", [.index]⟩

/-- The attributes of a resource with the given route. -/
def attributes (route : Text) : List (Value × Value) :=
  [(.ofText (text "route"), .ofText route), (.ofText (text "name"), .ofText posts.name),
    (.ofText (text "model_name"), .ofText posts.model), (.ofText (text "methods"), .ref 0)]

def store : Store := ⟨#[.list [.ofText (text "index")]], 1, []⟩

end RoutesSample

open RoutesSample in
/-- In the sample the route of the posts is accepted, although a member is addressed on the way, and
the path of a user with two slashes behind it is refused. -/
theorem sample_route_is_no_item_path :
    Resource.check store (attributes posts.route) = .ok posts ∧ 47 ∉ users.name ∧ 47 ∉ posts.name ∧
      users.RoutesApart posts ∧
      Resource.check store (attributes (text "/users/\x7buserId\x7d//")) =
        .error (.invalid modelName
          [⟨[.name (text "route")], .itemRoute (text "/users/\x7buserId\x7d//")⟩]) := by
  have accepted : Resource.check store (attributes posts.route) = .ok posts := rfl
  exact ⟨accepted, by decide, by decide,
    accepted_routes_are_no_item_paths (isAccepted_of_check accepted) (by decide) (by decide), rfl⟩

end SwaggerDoc.Resource
