import SwaggerDoc.Proofs.Document.Compiling
import SwaggerDoc.Proofs.Store.Extension
import Mathlib.Data.List.Dedup

/-!
Paths by the methods of a resource.

The paths of a document are those of the same resource with all five methods, less the operations
of the methods that are not enabled and less the paths that this leaves empty. An operation is told
apart by its path and its verb, and no two methods share both: the path of a member is longer than
the route, whatever the route and the name are.

The same paths come out when they are put together entry by entry, first the paths and then the
operations under them, as a mapping in which a later entry takes the place of an earlier one with
its key (`Assembly`): every path that is looked up is there, and nothing takes the place of
anything.
-/

namespace SwaggerDoc

namespace Method

theorem mem_all (m : Method) : m ∈ all := by
  cases m <;> simp [all]

theorem nodup_all : all.Nodup := by
  decide

theorem eq_of_verb {m n : Method} (side : m.onItem = n.onItem) (verb : m.verb = n.verb) :
    m = n := by
  cases m <;> cases n <;> simp_all [onItem, Method.verb]

end Method

namespace Resource

/-- The path of the operations on members or of those on the collection. -/
def pathOn (r : Resource) (onItem : Bool) : Value := .ofText (if onItem then r.itemPath else r.route)

/-- Whether an enabled method has its operation under the path and the verb. -/
def keeps (r : Resource) (path : Value) (verb : String) : Bool :=
  r.methods.any fun m => r.pathOn m.onItem == path && m.verb == verb

/-- Paths without the operations that no enabled method has, and without the paths left empty. -/
def select (r : Resource) (paths : List PathItem) : List PathItem :=
  (paths.map fun p => ⟨p.path, p.operations.filter fun o => r.keeps p.path o.1⟩).filter
    (!·.operations.isEmpty)

theorem itemPath_ne_route (r : Resource) : r.itemPath ≠ r.route := by
  intro same
  have longer := congrArg List.length same
  simp only [itemPath, List.length_append] at longer
  have slash : (text "/\x7b").length = 2 := rfl
  omega

theorem pathOn_injective {r : Resource} {a b : Bool} (same : r.pathOn a = r.pathOn b) : a = b := by
  have different := r.itemPath_ne_route
  cases a <;> cases b <;> simp_all [pathOn, eq_comm]

/-- Under the path and the verb of a method stands no operation of another one. -/
theorem keeps_verb (r : Resource) (m : Method) : r.keeps (r.pathOn m.onItem) m.verb = r.has m := by
  rw [Bool.eq_iff_iff, keeps, has, List.any_eq_true, List.contains_iff_mem]
  constructor
  · rintro ⟨n, enabled, both⟩
    rw [Bool.and_eq_true, beq_iff_eq, beq_iff_eq] at both
    rwa [← Method.eq_of_verb (pathOn_injective both.1) both.2]
  · intro enabled
    exact ⟨m, enabled, by simp⟩

theorem mem_enabled {r : Resource} {m : Method} : m ∈ r.enabled ↔ m ∈ r.methods := by
  simp [enabled, has, Method.mem_all]

theorem nodup_enabled (r : Resource) : r.enabled.Nodup :=
  Method.nodup_all.filter _

theorem length_enabled (r : Resource) : r.enabled.length = r.methods.dedup.length := by
  have same : r.enabled.Perm r.methods.dedup := by
    rw [List.perm_ext_iff_of_nodup r.nodup_enabled r.methods.nodup_dedup]
    intro m
    rw [mem_enabled, List.mem_dedup]
  exact same.length_eq

theorem enabled_congr {r r' : Resource} (same : ∀ m, m ∈ r.methods ↔ m ∈ r'.methods) :
    r.enabled = r'.enabled := by
  refine List.filter_congr fun m _ => ?_
  rw [Bool.eq_iff_iff, has, has, List.contains_iff_mem, List.contains_iff_mem]
  exact same m

end Resource

/-! ## Paths of a resource -/

namespace Document

variable {r : Resource} {ms : List Method}

theorem select_append (paths paths' : List PathItem) :
    r.select (paths ++ paths') = r.select paths ++ r.select paths' := by
  simp [Resource.select]

theorem select_pathItem (path : Value) (operations : List (String × Operation)) :
    r.select (pathItem path operations) =
      pathItem path (operations.filter fun o => r.keeps path o.1) := by
  rcases operations with _ | ⟨first, rest⟩
  · rfl
  · rcases kept : (first :: rest).filter fun o => r.keeps path o.1 with _ | ⟨o, others⟩
    · simp [pathItem, Resource.select, kept]
    · simp [pathItem, Resource.select, kept]

theorem filter_operationsOn (onItem : Bool) :
    (operationsOn r.subject onItem ms).filter (fun o => r.keeps (r.pathOn onItem) o.1) =
      operationsOn r.subject onItem (ms.filter r.has) := by
  rw [operationsOn, operationsOn, List.filter_map, List.filter_filter, List.filter_filter]
  congr 1
  refine List.filter_congr fun m _ => ?_
  by_cases side : m.onItem = onItem
  · subst side
    simp [r.keeps_verb m]
  · have other : (m.onItem == onItem) = false := beq_eq_false_iff_ne.mpr side
    simp [other]

/-- Deleting the operations of other methods and then the empty paths leaves the paths of the
methods that remain. -/
theorem select_pathsOf :
    r.select (pathsOf r.subject ms) = pathsOf r.subject (ms.filter r.has) := by
  rw [pathsOf, select_append, select_pathItem, select_pathItem]
  exact congrArg₂ (· ++ ·) (congrArg _ (filter_operationsOn false))
    (congrArg _ (filter_operationsOn true))

theorem operation_eq_of_collection {m : Method} (collection : m.onItem = false) :
    Operation.of r.usedSubject m = Operation.of r.subject m := by
  cases m with
  | index => rfl
  | post => rfl
  | get => cases collection
  | put => cases collection
  | delete => cases collection

/-- What is not written for want of operations on a member is not missed in the paths. -/
theorem pathsOf_usedSubject : pathsOf r.usedSubject r.enabled = pathsOf r.subject r.enabled := by
  cases item : r.enabled.any (·.onItem) with
  | true =>
    have whole : r.usedSubject = r.subject := by
      simp [Resource.usedSubject, Resource.subject, item]
    rw [whole]
  | false =>
    have none_on_item : r.enabled.filter (·.onItem == true) = [] := by
      rw [List.filter_eq_nil_iff]
      intro m listed
      simpa using List.any_eq_false.mp item m listed
    have collection : operationsOn r.usedSubject false r.enabled =
        operationsOn r.subject false r.enabled := by
      refine List.map_congr_left fun m listed => ?_
      have side : m.onItem = false := by simpa using (List.mem_filter.mp listed).2
      rw [operation_eq_of_collection side]
    have route : r.usedSubject.route = r.subject.route := rfl
    simp only [pathsOf, collection, route]
    simp only [operationsOn, none_on_item, List.map_nil, pathItem, List.isEmpty_nil, if_true]

theorem mem_pathItem {path : Value} {operations : List (String × Operation)} {p : PathItem} :
    p ∈ pathItem path operations ↔ p = ⟨path, operations⟩ ∧ operations ≠ [] := by
  rw [pathItem]
  split
  · next none =>
    have none := List.isEmpty_iff.mp none
    simp [none]
  · next some =>
    rw [List.isEmpty_iff] at some
    simp [some]

theorem mem_pathsOf_subject {p : PathItem} :
    p ∈ pathsOf r.subject ms ↔ ∃ onItem, p = ⟨r.pathOn onItem, operationsOn r.subject onItem ms⟩ ∧
      operationsOn r.subject onItem ms ≠ [] := by
  rw [pathsOf, List.mem_append, mem_pathItem, mem_pathItem]
  constructor
  · rintro (collection | item)
    · exact ⟨false, collection⟩
    · exact ⟨true, item⟩
  · rintro ⟨_ | _, side⟩
    · exact .inl side
    · exact .inr side

theorem operationsOn_ne_nil {s : Subject} {onItem : Bool} :
    operationsOn s onItem ms ≠ [] ↔ ∃ m ∈ ms, m.onItem = onItem := by
  rw [operationsOn, Ne, List.map_eq_nil_iff, List.filter_eq_nil_iff]
  simp

/-- A path is there just if one of the methods has its operation under it. -/
theorem exists_path_iff (onItem : Bool) :
    (∃ p ∈ pathsOf r.subject ms, p.path = r.pathOn onItem) ↔ ∃ m ∈ ms, m.onItem = onItem := by
  rw [← operationsOn_ne_nil (s := r.subject)]
  constructor
  · rintro ⟨p, listed, path⟩
    obtain ⟨side, rfl, some⟩ := mem_pathsOf_subject.mp listed
    rwa [Resource.pathOn_injective path] at some
  · intro some
    exact ⟨_, mem_pathsOf_subject.mpr ⟨onItem, rfl, some⟩, rfl⟩

theorem foldl_pathItem (n : Nat) (path : Value) (operations : List (String × Operation)) :
    (pathItem path operations).foldl (fun n p => n + p.operations.length) n =
      n + operations.length := by
  rcases operations with _ | ⟨first, rest⟩ <;> rfl

/-- Every method has one operation. -/
theorem operationCount_pathsOf {s : Subject} :
    (pathsOf s ms).foldl (fun n p => n + p.operations.length) 0 = ms.length := by
  rw [pathsOf, List.foldl_append, foldl_pathItem, foldl_pathItem, operationsOn, operationsOn,
    List.length_map, List.length_map]
  have sides := List.length_eq_length_filter_add (l := ms) (·.onItem)
  have collection : ms.filter (·.onItem == false) = ms.filter (!·.onItem) :=
    List.filter_congr fun m _ => by cases m.onItem <;> rfl
  have item : ms.filter (·.onItem == true) = ms.filter (·.onItem) :=
    List.filter_congr fun m _ => by cases m.onItem <;> rfl
  rw [collection, item]
  omega

theorem nodup_paths : ((pathsOf r.subject ms).map PathItem.path).Nodup := by
  have different : r.subject.route ≠ .ofText r.subject.itemPath := by
    intro same
    exact r.itemPath_ne_route (Scalar.string.inj (Value.scalar.inj same)).symm
  rw [pathsOf, List.map_append]
  simp only [pathItem]
  split <;> split <;> simp [different]

theorem nodup_verbs (distinct : ms.Nodup) {p : PathItem} (listed : p ∈ pathsOf r.subject ms) :
    (p.operations.map Prod.fst).Nodup := by
  obtain ⟨onItem, rfl, -⟩ := mem_pathsOf_subject.mp listed
  rw [operationsOn, List.map_map]
  refine List.Nodup.map_on (fun m left n right same => ?_) (distinct.filter _)
  have side (m : Method) (kept : m ∈ ms.filter (·.onItem == onItem)) : m.onItem = onItem := by
    simpa using (List.mem_filter.mp kept).2
  exact Method.eq_of_verb ((side m left).trans (side n right).symm) same

end Document

/-! ## Paths put together entry by entry -/

/-- Paths with their operations while they are put together. -/
abbrev Assembly := List (Value × List (String × Operation))

/-- Puts something under a key, in the place of what stands under it. -/
def putUnder {κ α : Type} [DecidableEq κ] (key : κ) (a : α) : List (κ × α) → List (κ × α)
  | [] => [(key, a)]
  | e :: rest => if e.1 = key then (key, a) :: rest else e :: putUnder key a rest

namespace Assembly

variable {r : Resource}

/-- The paths that are needed, with nothing under them yet. -/
def opened (r : Resource) : Assembly :=
  let collection := if r.enabled.any (!·.onItem) then putUnder (.ofText r.route) [] [] else []
  if r.enabled.any (·.onItem) then putUnder (.ofText r.itemPath) [] collection else collection

/-- Puts the operation of a method under its path, which has to be there. -/
def add (r : Resource) (a : Assembly) (m : Method) : Except Fault Assembly :=
  match a.lookup (r.pathOn m.onItem) with
  | none => .error .noKey
  | some operations =>
    .ok (putUnder (r.pathOn m.onItem) (putUnder m.verb (Operation.of r.subject m) operations) a)

/-- The paths of a resource, put together method by method. -/
def ofResource (r : Resource) : Except Fault Assembly := r.enabled.foldlM (add r) (opened r)

/-- A path of the finished document with the operations of the methods that are done. -/
def side (r : Resource) (onItem : Bool) (done : List Method) : Assembly :=
  if r.enabled.any (·.onItem == onItem) then
    [(r.pathOn onItem, Document.operationsOn r.subject onItem done)]
  else []

/-- How far the paths have come when the operations of some methods are there. -/
def after (r : Resource) (done : List Method) : Assembly := side r false done ++ side r true done

theorem putUnder_append {κ α : Type} [DecidableEq κ] {key : κ} {a : α} {front rest : List (κ × α)}
    (absent : key ∉ front.map Prod.fst) :
    putUnder key a (front ++ rest) = front ++ putUnder key a rest := by
  induction front with
  | nil => rfl
  | cons e front ih =>
    simp only [List.map_cons, List.mem_cons, not_or] at absent
    rw [List.cons_append, putUnder, if_neg (Ne.symm absent.1), ih absent.2]
    rfl

theorem opened_eq : opened r = after r [] := by
  have different : r.route ≠ r.itemPath := r.itemPath_ne_route.symm
  have collection : r.enabled.any (!·.onItem) = r.enabled.any (·.onItem == false) :=
    congrArg r.enabled.any (funext fun m => by cases m <;> rfl)
  have item : r.enabled.any (·.onItem) = r.enabled.any (·.onItem == true) :=
    congrArg r.enabled.any (funext fun m => by cases m <;> rfl)
  rw [opened, after, side, side, collection, item]
  split <;> split <;> simp [putUnder, Resource.pathOn, Document.operationsOn, different]

theorem operationsOn_append_self {m : Method} {done : List Method} (fresh : m ∉ done) :
    Document.operationsOn r.subject m.onItem (done ++ [m]) =
      putUnder m.verb (Operation.of r.subject m)
        (Document.operationsOn r.subject m.onItem done) := by
  have absent : m.verb ∉ (Document.operationsOn r.subject m.onItem done).map Prod.fst := by
    intro listed
    obtain ⟨e, operation, verb⟩ := List.mem_map.mp listed
    obtain ⟨n, kept, rfl⟩ := List.mem_map.mp operation
    obtain ⟨before, alongside⟩ := List.mem_filter.mp kept
    exact fresh (Method.eq_of_verb (by simpa using alongside) verb ▸ before)
  have last : putUnder m.verb (Operation.of r.subject m) [] = [(m.verb, .of r.subject m)] := rfl
  rw [← List.append_nil (Document.operationsOn r.subject m.onItem done), putUnder_append absent,
    last]
  simp [Document.operationsOn]

theorem side_append_of_ne {m : Method} {onItem : Bool} (other : m.onItem ≠ onItem)
    (done : List Method) : side r onItem (done ++ [m]) = side r onItem done := by
  have skipped : (m.onItem == onItem) = false := beq_eq_false_iff_ne.mpr other
  simp [side, Document.operationsOn, skipped]

theorem pathOn_true_not_mem_side (done : List Method) :
    r.pathOn true ∉ (side r false done).map Prod.fst := by
  rw [side]
  split
  · intro listed
    cases Resource.pathOn_injective (List.mem_singleton.mp listed)
  · exact List.not_mem_nil

/-- The path of an enabled method is there, and its operation joins the others under it. -/
theorem add_after {m : Method} {done : List Method} (enabled : m ∈ r.enabled) (fresh : m ∉ done) :
    add r (after r done) m = .ok (after r (done ++ [m])) := by
  have needed : r.enabled.any (·.onItem == m.onItem) = true :=
    List.any_eq_true.mpr ⟨m, enabled, beq_self_eq_true _⟩
  have before : side r m.onItem done =
      [(r.pathOn m.onItem, Document.operationsOn r.subject m.onItem done)] := if_pos needed
  have behind : side r m.onItem (done ++ [m]) =
      [(r.pathOn m.onItem, putUnder m.verb (Operation.of r.subject m)
        (Document.operationsOn r.subject m.onItem done))] := by
    rw [side, if_pos needed, operationsOn_append_self fresh]
  cases collection : m.onItem with
  | false =>
    have other : side r true (done ++ [m]) = side r true done :=
      side_append_of_ne (by simp [collection]) done
    rw [collection] at before behind
    simp [add, after, other, collection, before, behind, putUnder]
  | true =>
    have other : side r false (done ++ [m]) = side r false done :=
      side_append_of_ne (by simp [collection]) done
    have absent := pathOn_true_not_mem_side (r := r) done
    have missed : (side r false done).lookup (r.pathOn true) = none := by
      rw [List.lookup_eq_none_iff]
      intro e listed
      have different : r.pathOn true ≠ e.1 := fun same => absent (same ▸ List.mem_map_of_mem listed)
      simpa using different
    rw [collection] at before behind
    simp only [add, after, other, collection, before, behind, List.lookup_append, missed,
      Option.none_or, List.lookup_cons_self, putUnder_append absent, putUnder, if_true]

/-- The operations join one after the other, and no look-up of a path fails. -/
theorem foldlM_add {rest done : List Method} (enabled : ∀ m ∈ rest, m ∈ r.enabled)
    (distinct : (done ++ rest).Nodup) :
    rest.foldlM (add r) (after r done) = .ok (after r (done ++ rest)) := by
  induction rest generalizing done with
  | nil => simp [pure, Except.pure]
  | cons m rest ih =>
    have fresh : m ∉ done := by
      intro before
      have apart := List.disjoint_of_nodup_append distinct
      exact apart before List.mem_cons_self
    have joined : done ++ m :: rest = done ++ [m] ++ rest := by simp
    rw [List.foldlM_cons, add_after (enabled m List.mem_cons_self) fresh, joined]
    rw [joined] at distinct
    exact ih (fun n later => enabled n (List.mem_cons_of_mem _ later)) distinct

theorem side_enabled (onItem : Bool) :
    side r onItem r.enabled =
      (Document.pathItem (r.pathOn onItem) (Document.operationsOn r.subject onItem r.enabled)).map
        fun p => (p.path, p.operations) := by
  by_cases needed : Document.operationsOn r.subject onItem r.enabled = []
  · have none : r.enabled.any (·.onItem == onItem) = false := by
      rw [List.any_eq_false]
      intro m listed
      have absent := mt Document.operationsOn_ne_nil.mpr (not_not.mpr needed)
      simpa using fun same => absent ⟨m, listed, same⟩
    simp [side, none, Document.pathItem, needed]
  · obtain ⟨m, listed, same⟩ := Document.operationsOn_ne_nil.mp needed
    have some : r.enabled.any (·.onItem == onItem) = true :=
      List.any_eq_true.mpr ⟨m, listed, by simp [same]⟩
    simp [side, some, Document.pathItem, needed]

/-- Put together entry by entry, the paths are those of the document. -/
theorem ofResource_eq :
    ofResource r =
      .ok ((Document.pathsOf r.subject r.enabled).map fun p => (p.path, p.operations)) := by
  have run : r.enabled.foldlM (add r) (after r []) = .ok (after r ([] ++ r.enabled)) :=
    foldlM_add (fun _ listed => listed) (by simpa using r.nodup_enabled)
  rw [ofResource, opened_eq, run, List.nil_append, after, side_enabled, side_enabled,
    Document.pathsOf, List.map_append]
  rfl

end Assembly

/-! ## Compiled documents -/

theorem Resource.paths_document (r : Resource) (definition : ModelDefinition) :
    (r.document definition).paths = Document.pathsOf r.subject r.enabled :=
  Document.pathsOf_usedSubject

/-- Whatever the definition is made from: what an accepted resource is compiled to is its document.
-/
theorem Resource.LiesAt.exists_of_compile {s : Store} {r : Resource} {v schema definition : Value}
    {j : Journal} {d : Document} (lies : r.LiesAt s v)
    (compiled : (s.compile v schema definition j).1 = .ok d) :
    ∃ made, d = r.document made := by
  obtain ⟨methods, cell, -⟩ := id lies
  rw [Store.compile] at compiled
  split at compiled
  · obtain ⟨name, j', -, failed⟩ := Report.exists_of_bind compiled
    cases failed
  · simp only [cell] at compiled
    obtain ⟨made, j', -, compiled⟩ := Report.exists_of_bind compiled
    have document := lies.documentOf_eq cell made
    rw [document] at compiled
    exact ⟨made, (Except.ok.inj compiled).symm⟩

/-- The two definitions and the paths stand in a placed document under these keys. -/
structure Document.Stands (r : Resource) (d : Document) (t : Store) (v : Value) : Prop where
  keys_ne : r.model ≠ r.model ++ text "List"
  sections : ∃ definitions paths model listed entries,
    t.deref? v = some (.map
      [(.ofText (text "definitions"), definitions), (.ofText (text "paths"), paths)]) ∧
    t.deref? definitions = some (.map
      [(.ofText r.model, model), (.ofText (r.model ++ text "List"), listed)]) ∧
    t.deref? paths = some (.map entries) ∧
    Shape.EntriesStandAt t (d.paths.map PathItem.shape) entries

theorem Resource.stands_place (r : Resource) (definition : ModelDefinition) (s : Store) :
    (r.document definition).Stands r ((r.document definition).shape.place s).2
      ((r.document definition).shape.place s).1 := by
  constructor
  · intro same
    have longer := congrArg List.length same
    rw [List.length_append] at longer
    have word : (text "List").length = 4 := rfl
    omega
  · obtain ⟨_, cell, definitions, _, rfl, standsDefinitions, paths, _, rfl, standsPaths, rfl⟩ :=
      Shape.standsAt_place (r.document definition).shape s
    obtain ⟨_, both, model, _, rfl, -, listed, _, rfl, -, rfl⟩ := standsDefinitions
    obtain ⟨entries, cell', stand⟩ := standsPaths
    exact ⟨definitions, paths, model, listed, entries, cell, both, cell', stand⟩

/-- The paths of a document are selected from those of all five methods by the methods that are
enabled, and by nothing else. -/
structure SelectsPaths (r : Resource) (d : Document) : Prop where
  /-- The paths of any document of the resource with all methods, less the operations of those that
  are not enabled and less the paths left empty. -/
  projected : ∀ (s : Store) (ms : List Method) (v schema definition : Value) (j : Journal)
    (full : Document), (∀ m, m ∈ ms) → Resource.LiesAt s { r with methods := ms } v →
    (s.compile v schema definition j).1 = .ok full → d.paths = r.select full.paths
  /-- Order and repetitions of the methods do not count, and neither does the definition. -/
  determined : ∀ (s : Store) (ms : List Method) (v schema definition : Value) (j : Journal)
    (other : Document), (∀ m, m ∈ ms ↔ m ∈ r.methods) →
    Resource.LiesAt s { r with methods := ms } v →
    (s.compile v schema definition j).1 = .ok other → other.paths = d.paths
  /-- Put together entry by entry, no look-up fails and nothing is overwritten. -/
  assembled : Assembly.ofResource r = .ok (d.paths.map fun p => (p.path, p.operations))
  collection : (∃ p ∈ d.paths, p.path = .ofText r.route) ↔
    Method.index ∈ r.methods ∨ Method.post ∈ r.methods
  item : (∃ p ∈ d.paths, p.path = .ofText r.itemPath) ↔
    Method.get ∈ r.methods ∨ Method.put ∈ r.methods ∨ Method.delete ∈ r.methods
  count : d.operationCount = r.methods.dedup.length
  paths_nodup : (d.paths.map PathItem.path).Nodup
  verbs_nodup : ∀ p ∈ d.paths, (p.operations.map Prod.fst).Nodup
  /-- Placed anywhere, the document has the two definitions and these paths. -/
  stands : ∀ s, d.Stands r (d.shape.place s).2 (d.shape.place s).1

theorem Resource.enabled_all {r : Resource} {ms : List Method} (all : ∀ m, m ∈ ms) :
    enabled { r with methods := ms } = Method.all := by
  refine List.filter_eq_self.mpr fun m _ => ?_
  simpa [has] using all m

/-- The paths of whatever an accepted resource is compiled to are a projection of its paths with all
methods. -/
theorem compiled_paths_are_selected {s : Store} {r : Resource} {v schema definition : Value}
    {j : Journal} {d : Document} (lies : r.LiesAt s v)
    (compiled : (s.compile v schema definition j).1 = .ok d) : SelectsPaths r d := by
  obtain ⟨made, rfl⟩ := lies.exists_of_compile compiled
  have paths := r.paths_document made
  refine ⟨?_, ?_, ?_, ?_, ?_, ?_, ?_, ?_, fun s => r.stands_place made s⟩
  · intro s ms v schema definition j full all lies compiled
    obtain ⟨made', rfl⟩ := lies.exists_of_compile compiled
    rw [paths, Resource.paths_document, Resource.enabled_all all]
    exact Document.select_pathsOf.symm
  · intro s ms v schema definition j other same lies compiled
    obtain ⟨made', rfl⟩ := lies.exists_of_compile compiled
    rw [paths, Resource.paths_document, Resource.enabled_congr same]
    rfl
  · rw [paths]
    exact Assembly.ofResource_eq
  · rw [paths]
    refine (Document.exists_path_iff false).trans ?_
    simp only [Resource.mem_enabled]
    constructor
    · rintro ⟨_ | _, enabled, side⟩ <;> simp_all [Method.onItem]
    · rintro (index | post)
      · exact ⟨.index, index, rfl⟩
      · exact ⟨.post, post, rfl⟩
  · rw [paths]
    refine (Document.exists_path_iff true).trans ?_
    simp only [Resource.mem_enabled]
    constructor
    · rintro ⟨_ | _, enabled, side⟩ <;> simp_all [Method.onItem]
    · rintro (get | put | delete)
      · exact ⟨.get, get, rfl⟩
      · exact ⟨.put, put, rfl⟩
      · exact ⟨.delete, delete, rfl⟩
  · rw [Document.operationCount, paths, Document.operationCount_pathsOf, r.length_enabled]
  · rw [paths]
    exact Document.nodup_paths
  · intro p listed
    rw [paths] at listed
    exact Document.nodup_verbs r.nodup_enabled listed

namespace SelectionSample

/-- A resource that is listed and whose members are read and written. -/
def resource : Resource :=
  ⟨text "/users", text "user", text "User", [.put, .index, .get, .put]⟩

/-- A definition, the resource, and the same resource with all methods. -/
def store : Store :=
  (Resource.place (resource.place (Store.empty.alloc (.map [])).2).2
    { resource with methods := [.delete, .get, .index, .put, .post] }).2

theorem liesAt : resource.LiesAt store (.ref 2) := ⟨.ref 1, rfl, rfl⟩

theorem liesAt_all :
    Resource.LiesAt store { resource with methods := [.delete, .get, .index, .put, .post] }
      (.ref 4) := ⟨.ref 3, rfl, rfl⟩

theorem compiled : (store.compile (.ref 2) .null (.ref 0) ⟨none, []⟩).1 =
    .ok (resource.document (.given (.ref 0))) := by
  rw [liesAt.compile_given (by simp)]
  rfl

end SelectionSample

open SelectionSample in
/-- In the sample both GETs are there, and three of the five operations remain. -/
theorem selected_paths_of_sample :
    SelectsPaths resource (resource.document (.given (.ref 0))) ∧
      (resource.document (.given (.ref 0))).paths =
        resource.select (Resource.document { resource with
          methods := [.delete, .get, .index, .put, .post] } (.given (.ref 0))).paths ∧
      (resource.document (.given (.ref 0))).paths.map
          (fun p => (p.path, p.operations.map Prod.fst)) =
        [(.ofText (text "/users"), ["get"]),
          (.ofText (text "/users/\x7buserId\x7d"), ["get", "put"])] := by
  have selects := compiled_paths_are_selected liesAt compiled
  refine ⟨selects, ?_, rfl⟩
  refine selects.projected store _ (.ref 4) .null (.ref 0) ⟨none, []⟩ _ ?_ liesAt_all ?_
  · intro m
    cases m <;> decide
  · rw [liesAt_all.compile_given (by simp)]
    rfl

end SwaggerDoc
