import SwaggerDoc.Proofs.Yaml.Misspelt
import SwaggerDoc.Yaml.Graph

/-!
Graphs that are not built.

Building a graph finds that tokens do not fit together, or comes to the problem that stopped the
tokens; it has no fault of its own (`Graph.Builds`). All definitions that build nodes go on with
fewer tokens, so the steps of all of them are shown together (`Graph.AllBuild`).
-/

namespace SwaggerDoc.Yaml

namespace Graph

variable {α : Type} {problem : Option Problem}

/-- A step of building passes the problem of the tokens on, and has no other fault. -/
abbrev Builds (problem : Option Problem) (m : Build α) : Prop :=
  Keeps (fun f => problem = some (.fault f)) (fun b => b.rest.problem = problem) (fun _ => True) m

theorem builds_pure (a : α) : Builds problem (pure a) := Keeps.pure trivial

theorem builds_peek : Builds problem peek := by
  rintro ⟨⟨tokens, p⟩, nodes, anchors, handles⟩ rfl
  cases tokens with
  | cons token tokens => exact ⟨trivial, rfl⟩
  | nil =>
    cases p with
    | none => exact ⟨trivial, rfl⟩
    | some p => cases p <;> trivial

theorem builds_pass : Builds problem pass := Keeps.update fun _ same => same

theorem builds_misplaced : Builds problem (misplaced : Build α) := Keeps.malformed

theorem builds_passed (token : Token) : Builds problem (passed token) := by
  refine builds_peek.bind fun found _ => ?_
  split
  · exact builds_pass.bind fun _ _ => builds_pure _
  · exact builds_pure _

theorem builds_require (token : Token) : Builds problem (require token) := by
  refine (builds_passed token).bind fun passed _ => ?_
  split
  · exact builds_misplaced
  · exact builds_pure _

theorem builds_atAny (tokens : List Token) : Builds problem (atAny tokens) :=
  builds_peek.bind fun _ _ => builds_pure _

theorem builds_addNode (anchor : Option Text) (n : Node) : Builds problem (addNode anchor n) :=
  fun _ same => ⟨trivial, same⟩

theorem builds_complete (id : Nat) (n : Node) : Builds problem (complete id n) :=
  Keeps.update fun _ same => same

theorem builds_fullTag (name : TagName) : Builds problem (fullTag name) := by
  unfold fullTag
  split
  · exact builds_pure _
  · refine Keeps.get.bind fun b _ => ?_
    split
    · exact builds_pure _
    · exact builds_misplaced

theorem builds_anchor? : Builds problem anchor? := by
  refine builds_peek.bind fun found _ => ?_
  split
  · exact builds_pass.bind fun _ _ => builds_pure _
  · exact builds_pure _

theorem builds_tag? : Builds problem tag? := by
  refine builds_peek.bind fun found _ => ?_
  split
  · exact builds_pass.bind fun _ _ => builds_pure _
  · exact builds_pure _

theorem builds_properties : Builds problem properties := by
  refine builds_anchor?.bind fun before _ => builds_tag?.bind fun tag _ => ?_
  extract_lets later
  have laters (anchor : Option Text) : Builds problem (later anchor) := by
    cases tag with
    | some name =>
      have tagged : Builds problem (some <$> fullTag name) := (builds_fullTag name).map fun _ => id
      exact tagged.bind fun _ _ => builds_pure _
    | none => exact (builds_pure _).bind fun _ _ => builds_pure _
  split
  · exact (builds_pure _).bind fun _ _ => laters _
  · exact builds_anchor?.bind fun _ _ => laters _

theorem builds_isBound (anchor : Option Text) : Builds problem (isBound anchor) :=
  Keeps.get.bind fun _ _ => builds_pure _

theorem builds_nothing (p : Properties) : Builds problem (node.nothing p) := by
  unfold node.nothing
  split
  · exact builds_addNode _ _
  · exact builds_misplaced

/-- All steps that build nodes out of a bounded number of tokens build. -/
structure AllBuild (problem : Option Problem) (n : Nat) : Prop where
  node : ∀ place, Builds problem (node place n)
  nodeUnless : ∀ stops place, Builds problem (nodeUnless stops place n)
  bareItems : Builds problem (bareItems n)
  blockItems : Builds problem (blockItems n)
  blockEntries : Builds problem (blockEntries n)
  flowItems : ∀ first, Builds problem (flowItems first n)
  flowEntries : ∀ first, Builds problem (flowEntries first n)

section Nodes

variable {n : Nat}

/-- A collection builds if its parts do. -/
theorem builds_collection {parts : Build α} (anchor : Option Text) (make : α → Node)
    (builds : Builds problem parts) :
    Builds problem (do
      let id ← begin anchor
      complete id (make (← parts))
      return id) := by
  refine (builds_addNode anchor _).bind fun id _ => builds.bind fun found _ => ?_
  exact (builds_complete id (make found)).bind fun _ _ => builds_pure _

theorem builds_node (all : AllBuild problem n) (place : Place) :
    Builds problem (node place (n + 1)) := by
  rw [node]
  refine builds_peek.bind fun found _ => ?_
  split
  · refine builds_pass.bind fun _ _ => Keeps.get.bind fun b _ => ?_
    split
    · exact builds_pure _
    · exact builds_misplaced
  · refine builds_properties.bind fun p _ => builds_peek.bind fun next _ => ?_
    refine (builds_isBound p.anchor).bind fun bound _ => ?_
    have sequence {parts : Build (List Nat)} (builds : Builds problem parts) :=
      builds_collection p.anchor (.sequence (p.tagOr .sequence)) builds
    have mapping {parts : Build (List (Nat × Nat))} (builds : Builds problem parts) :=
      builds_collection p.anchor (.mapping (p.tagOr .mapping)) builds
    dsimp only
    split
    · exact .malformed_bind
    · split
      · exact builds_pass.bind fun _ _ => builds_addNode _ _
      · split
        · exact sequence all.bareItems
        · exact builds_nothing p
      · exact builds_pass.bind fun _ _ => sequence (all.flowItems true)
      · exact builds_pass.bind fun _ _ => mapping (all.flowEntries true)
      · split
        · exact builds_pass.bind fun _ _ => sequence all.blockItems
        · exact builds_nothing p
      · split
        · exact builds_pass.bind fun _ _ => mapping all.blockEntries
        · exact builds_nothing p
      · exact builds_nothing p

theorem builds_nodeUnless (all : AllBuild problem n) (stops : List Token) (place : Place) :
    Builds problem (nodeUnless stops place (n + 1)) := by
  rw [nodeUnless]
  refine (builds_atAny stops).bind fun stopped _ => ?_
  split
  · exact builds_addNode _ _
  · exact all.node place

theorem builds_bareItems (all : AllBuild problem n) : Builds problem (bareItems (n + 1)) := by
  rw [bareItems]
  refine (builds_passed _).bind fun found _ => ?_
  split
  · refine (all.nodeUnless _ _).bind fun item _ => ?_
    exact all.bareItems.bind fun _ _ => builds_pure _
  · exact builds_pure _

theorem builds_blockItems (all : AllBuild problem n) : Builds problem (blockItems (n + 1)) := by
  rw [blockItems]
  refine (builds_passed _).bind fun found _ => ?_
  split
  · refine (all.nodeUnless _ _).bind fun item _ => ?_
    exact all.blockItems.bind fun _ _ => builds_pure _
  · exact (builds_require _).bind fun _ _ => builds_pure _

/-- What may be left out builds. -/
theorem builds_value (all : AllBuild problem n) (stops : List Token) (place : Place)
    {later : Nat → Build α} (builds : ∀ value, Builds problem (later value)) :
    Builds problem (do
      let value ← if ← passed .value then nodeUnless stops place n else absent
      later value) := by
  refine (builds_passed _).bind fun found _ => ?_
  split
  · exact (all.nodeUnless stops place).bind fun value _ => builds value
  · exact (builds_addNode _ _).bind fun value _ => builds value

theorem builds_blockEntries (all : AllBuild problem n) :
    Builds problem (blockEntries (n + 1)) := by
  rw [blockEntries]
  refine (builds_passed _).bind fun found _ => ?_
  split
  · refine (all.nodeUnless _ _).bind fun key _ => ?_
    exact builds_value all _ _ fun value => all.blockEntries.bind fun _ _ => builds_pure _
  · exact (builds_require _).bind fun _ _ => builds_pure _

theorem builds_flowItems (all : AllBuild problem n) (first : Bool) :
    Builds problem (flowItems first (n + 1)) := by
  rw [flowItems]
  refine (builds_passed _).bind fun found _ => ?_
  split
  · exact builds_pure _
  · extract_lets later
    have laters (u : Unit) : Builds problem (later u) := by
      refine (builds_passed _).bind fun found _ => ?_
      split
      · refine (builds_addNode _ _).bind fun pair _ => (all.nodeUnless _ _).bind fun key _ => ?_
        refine builds_value all _ _ fun value => (builds_complete _ _).bind fun _ _ => ?_
        exact (all.flowItems false).bind fun _ _ => builds_pure _
      · refine (builds_passed _).bind fun found _ => ?_
        split
        · exact builds_pure _
        · refine (all.node _).bind fun item _ => ?_
          exact (all.flowItems false).bind fun _ _ => builds_pure _
    split
    · exact (builds_require _).bind fun u _ => laters u
    · exact laters ()

theorem builds_flowEntries (all : AllBuild problem n) (first : Bool) :
    Builds problem (flowEntries first (n + 1)) := by
  rw [flowEntries]
  refine (builds_passed _).bind fun found _ => ?_
  split
  · exact builds_pure _
  · extract_lets later
    have laters (u : Unit) : Builds problem (later u) := by
      refine (builds_passed _).bind fun found _ => ?_
      split
      · refine (all.nodeUnless _ _).bind fun key _ => builds_value all _ _ fun value => ?_
        exact (all.flowEntries false).bind fun _ _ => builds_pure _
      · refine (builds_passed _).bind fun found _ => ?_
        split
        · exact builds_pure _
        · refine (all.node _).bind fun key _ => (builds_addNode _ _).bind fun value _ => ?_
          exact (all.flowEntries false).bind fun _ _ => builds_pure _
    split
    · exact (builds_require _).bind fun u _ => laters u
    · exact laters ()

theorem allBuild (n : Nat) : AllBuild problem n := by
  induction n with
  | zero =>
    constructor <;> intros <;> exact builds_misplaced
  | succ n all =>
    exact ⟨builds_node all, builds_nodeUnless all, builds_bareItems all, builds_blockItems all,
      builds_blockEntries all, builds_flowItems all, builds_flowEntries all⟩

theorem builds_directives (versioned : Bool) (handles : List (Text × Text)) (n : Nat) :
    Builds problem (directives versioned handles n) := by
  induction n generalizing versioned handles with
  | zero => exact builds_misplaced
  | succ n ih =>
    rw [directives]
    refine builds_peek.bind fun found _ => ?_
    split
    · refine builds_pass.bind fun _ _ => ?_
      split
      · split
        · exact builds_misplaced
        · exact ih _ _
      · split
        · exact builds_misplaced
        · exact ih _ _
      · exact ih _ _
    · exact builds_pure _

theorem builds_passEnds (n : Nat) : Builds problem (passEnds n) := by
  induction n with
  | zero => exact builds_pure _
  | succ n ih =>
    rw [passEnds]
    refine (builds_passed _).bind fun found _ => ?_
    split
    · exact ih
    · exact builds_pure _

theorem builds_document (n : Nat) : Builds problem (document n) := by
  have all : AllBuild problem n := allBuild n
  refine builds_peek.bind fun found _ => ?_
  split
  · exact builds_pure _
  · extract_lets explicit finish
    have finishes (root : Nat) : Builds problem (finish root) := by
      refine (builds_passEnds n).bind fun _ _ => builds_peek.bind fun found _ => ?_
      split
      · exact builds_pure _
      · exact (builds_directives false [] n).bind fun _ _ => builds_misplaced
    have root := (all.node ⟨true, false⟩).bind fun root _ => finishes root
    have absent := (builds_addNode none (.scalar .null [])).bind fun root _ => finishes root
    split
    · refine (builds_directives false [] n).bind fun found _ => ?_
      have handled : Builds problem (modify fun b =>
          { b with handles := found ++ standardHandles }) := Keeps.update fun _ same => same
      refine handled.bind fun _ _ => ?_
      refine (builds_require .documentStart).bind fun _ _ => builds_peek.bind fun next _ => ?_
      split
      · exact absent
      · exact absent
      · exact absent
      · exact absent
      · exact root
    · exact root

end Nodes

/-- A graph that is not built because of a fault has it from the tokens. -/
theorem problem_of_ofTokens {t : Tokens} {fault : Fault}
    (failed : ofTokens t = .error (.fault fault)) : t.problem = some (.fault fault) := by
  have builds : Builds t.problem (document (stepsPerToken * (t.tokens.length + 2))) :=
    builds_document _
  have explained : Explained (fun f => t.problem = some (.fault f)) (fun _ => True) (ofTokens t) :=
    Explained.bind (builds ⟨t, #[], [], standardHandles⟩ rfl) fun _ _ => trivial
  rwa [failed] at explained

end Graph

/-- A text of which no graph is built because of a fault has a number in it that is too large. -/
theorem misspelt_of_ofText {t : Text} {fault : Fault}
    (failed : Graph.ofText t = .error (.fault fault)) : Misspelt (plainLines t) fault := by
  unfold Graph.ofText at failed
  split at failed
  · exact misspelt_of_problem (Graph.problem_of_ofTokens failed)
  · cases failed

end SwaggerDoc.Yaml
