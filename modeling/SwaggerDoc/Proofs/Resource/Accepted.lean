import SwaggerDoc.Proofs.Schema.Failing
import SwaggerDoc.Proofs.Schema.Validation
import SwaggerDoc.Resource

/-!
What validation accepts as a resource.

The check of a resource comes to a resource or to issues (`breaksOffBy_ofEntries`). The route is
checked first, so that what is wrong with it is reported whatever is wrong with the rest, and a
route that ends in a placeholder is never accepted.
-/

namespace SwaggerDoc

namespace Checked

variable {α β : Type}

/-- An issue with the first part is reported, unless the second part breaks off. -/
theorem exists_refused_of_seq {f : Checked (α → β)} {x : Checked α} {issues : List Issue}
    (refuses : f = .refused issues) (whole : x.BreaksOffBy fun _ => False) :
    ∃ more, f <*> x = .refused (issues ++ more) := by
  rw [refuses]
  cases x with
  | accepted a => exact ⟨[], by rw [List.append_nil]; rfl⟩
  | refused more => exact ⟨more, rfl⟩
  | failed fault => exact (whole fault rfl).elim

end Checked

namespace Check

open Checked

variable {causes : Fault → Prop}

theorem breaksOffBy_method (v : Value) : (method v).BreaksOffBy causes := by
  unfold method
  split
  · exact breaksOffBy_accepted _
  · split
    · split
      · exact breaksOffBy_accepted _
      · exact breaksOffBy_refused _
    · exact breaksOffBy_refused _
    · exact breaksOffBy_refused _
  · exact breaksOffBy_refused _

theorem breaksOffBy_requiredString (entries : List (Value × Value)) (name : String) :
    (Check.required entries name Check.string).BreaksOffBy causes :=
  breaksOffBy_required Check.breaksOffBy_string

theorem breaksOffBy_methods (s : Store) (entries : List (Value × Value)) :
    (Check.optional entries "methods" [] (Check.list s Check.method)).BreaksOffBy causes :=
  breaksOffBy_optional fun v _ => Check.breaksOffBy_list Check.breaksOffBy_method v

end Check

namespace Resource

open Checked

/-- The check of a resource never breaks off. -/
theorem breaksOffBy_ofEntries {causes : Fault → Prop} (s : Store)
    (entries : List (Value × Value)) : (ofEntries s entries).BreaksOffBy causes := by
  have route : (Check.required entries "route" checkRoute).BreaksOffBy causes := by
    refine breaksOffBy_required fun v => (Check.breaksOffBy_string v).andThen fun route => ?_
    split
    · exact breaksOffBy_refused _
    · exact breaksOffBy_accepted _
  exact (((route.map _).seq (Check.breaksOffBy_requiredString entries "name")).seq
    (Check.breaksOffBy_requiredString entries "model_name")).seq
    (Check.breaksOffBy_methods s entries)

/-! ## What validation accepts -/

/-- Validation of some attributes leads to the resource. -/
def IsAccepted (r : Resource) : Prop := ∃ s entries, ofEntries s entries = .accepted r

theorem isAccepted_of_check {s : Store} {entries : List (Value × Value)} {r : Resource}
    (done : check s entries = .ok r) : r.IsAccepted := by
  unfold check at done
  cases named : Check.attributes entries with
  | error fault =>
    rw [named] at done
    cases done
  | ok found =>
    rw [named] at done
    exact ⟨s, found, of_result done⟩

/-- The route of an accepted resource does not end in a placeholder. -/
theorem IsAccepted.endsInPlaceholder_eq {r : Resource} (accepted : r.IsAccepted) :
    endsInPlaceholder r.route = false := by
  obtain ⟨s, entries, done⟩ := accepted
  obtain ⟨withModel, methods, named, -, rfl⟩ := exists_of_seq done
  obtain ⟨withName, model, routed, -, rfl⟩ := exists_of_seq named
  obtain ⟨withRoute, name, first, -, rfl⟩ := exists_of_seq routed
  obtain ⟨route, passed, rfl⟩ := exists_of_map first
  have checked := of_within passed
  split at checked
  · cases checked
  · next v given =>
    obtain ⟨t, -, passed⟩ := exists_of_andThen checked
    split at passed
    · cases passed
    · next plain =>
      obtain rfl := Checked.accepted.inj passed
      simpa using plain

/-- A route that ends in a placeholder is an issue, whatever else is given. -/
theorem ofEntries_of_endsInPlaceholder {s : Store} {entries : List (Value × Value)} {v : Value}
    {route : Text} (given : lookupText? entries (text "route") = some v)
    (written : Check.string v = .accepted route) (ends : endsInPlaceholder route = true) :
    ∃ more, ofEntries s entries =
      .refused (⟨[.name (text "route")], .itemRoute route⟩ :: more) := by
  have refused : Check.required entries "route" checkRoute =
      .refused [⟨[.name (text "route")], .itemRoute route⟩] := by
    simp [Check.required, given, checkRoute, written, andThen, ends, issue, within, Issue.within]
  have withRoute : Resource.mk <$> Check.required entries "route" checkRoute =
      .refused [⟨[.name (text "route")], .itemRoute route⟩] := by
    rw [refused]
    rfl
  obtain ⟨names, withName⟩ := exists_refused_of_seq withRoute
    (Check.breaksOffBy_requiredString entries "name")
  obtain ⟨models, withModel⟩ := exists_refused_of_seq withName
    (Check.breaksOffBy_requiredString entries "model_name")
  obtain ⟨methods, whole⟩ := exists_refused_of_seq withModel (Check.breaksOffBy_methods s entries)
  exact ⟨_, whole⟩

/-- What is refused is not built. -/
theorem check_ne_ok_of_refused {s : Store} {entries : List (Value × Value)} {issues : List Issue}
    (refused : ofEntries s entries = .refused issues) (r : Resource) :
    Resource.check s entries ≠ .ok r := by
  unfold Resource.check
  rw [Check.attributes]
  split
  · simp [bind, Except.bind, refused, Checked.result]
  · nofun

end Resource

end SwaggerDoc
