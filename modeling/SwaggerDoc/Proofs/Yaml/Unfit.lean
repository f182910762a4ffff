import Mathlib.Algebra.Group.Nat.Defs
import SwaggerDoc.Proofs.Chain
import SwaggerDoc.Proofs.Outcome
import SwaggerDoc.Proofs.Yaml.Stopped
import SwaggerDoc.Yaml.Loading

/-!
Documents with a node that has no value.

A scalar has no value if its characters do not have the form that its tag asks for
(`Content.Unfit`). Three kinds of nodes more have none (`Unfit`): mappings that are said to be
timestamps, mappings that are their own default values, and mappings whose default value has
characters that do not fit.

While values are given, mappings take over the entries of the mappings that they merge, and keys for
default values become texts. What the nodes can have become (`Becomes`) is said in terms of the nodes
that the document had, so the causes are too (`cause_of_load`).
-/

namespace SwaggerDoc.Yaml

/-! ## The values of scalars -/

namespace Content

/-- The characters of a timestamp. -/
def stampText (t : Text) : Text := if t.getLast? == some 10 then t.dropLast else t

/-- Whether the calendar has the day of a timestamp and the clock its time. -/
def isReal (stamp : Implicit.Stamp) : Bool :=
  let date : Date := ⟨Text.toNat stamp.year, Text.toNat stamp.month, Text.toNat stamp.day⟩
  match stamp.clock with
  | none => date.valid
  | some (hour, minute, second) =>
    DateTime.valid ⟨date, Text.toNat hour, Text.toNat minute, Text.toNat second,
      microseconds stamp.fraction, stamp.zone.map ahead⟩

/-- The numerals of a whole number behind its sign, with the base that its beginning announces. -/
def numerals (body : Text) : Nat × List Text :=
  match body with
  | 48 :: 98 :: digits => (2, [digits])
  | 48 :: 120 :: digits => (16, [digits])
  | 48 :: _ => (8, [body])
  | _ => (10, Text.split 58 body)

/-- The characters of a number with a point behind its sign. -/
def realBody (t : Text) : Text := Implicit.unsigned (Text.lower (withoutGaps t))

/-- How characters fail to have the form that a tag asks for. -/
inductive Unfit : NodeTag → Text → Fault → Prop where
  /-- A truth value is none of the words for one. -/
  | noWord {t : Text} (other : ∀ word ∈ ["yes", "true", "on", "no", "false", "off"],
      text word ≠ Text.lower t) : Unfit .bool t .noKey
  /-- A whole number has nothing but a sign and underscores. -/
  | noDigits {t : Text} (nothing : Implicit.unsigned (withoutGaps t) = []) : Unfit .int t .noIndex
  | noNumeral {t part : Text} {base : Nat} {parts : List Text}
      (announced : numerals (Implicit.unsigned (withoutGaps t)) = (base, parts))
      (member : part ∈ parts) (unread : Literal.integer? base part = none) : Unfit .int t .badValue
  /-- A number with a point has nothing but underscores. -/
  | nothing {t : Text} (nothing : withoutGaps t = []) : Unfit .float t .noIndex
  | noNumber {t part : Text} (member : part ∈ Text.split 58 (realBody t))
      (unread : Literal.float? part = none) : Unfit .float t .badValue
  /-- A number in sixtieths has a part that counts more than any double. -/
  | tooManyParts {t : Text} {k : Nat} (many : k < (Text.split 58 (realBody t)).length)
      (large : Binary64.ofInt? (60 ^ k : Nat) = none) : Unfit .float t .tooLarge
  | noStamp {t : Text} (form : Implicit.stamp? (stampText t) = none) :
      Unfit .timestamp t .noAttribute
  | noTime {t : Text} {stamp : Implicit.Stamp} (form : Implicit.stamp? (stampText t) = some stamp)
      (never : isReal stamp = false) : Unfit .timestamp t .badValue

section Unfit

variable {t : Text} {fault : Fault}

theorem noWord_of_truth (failed : truth t = .error fault) : Unfit .bool t fault := by
  unfold truth at failed
  dsimp only at failed
  split at failed
  · cases failed
  · next noTrue =>
    split at failed
    · cases failed
    · next noFalse =>
      cases failed
      refine .noWord fun word member same => ?_
      have found : ["yes", "true", "on"].any (text · == Text.lower t) = true ∨
          ["no", "false", "off"].any (text · == Text.lower t) = true := by
        simp only [List.any_eq_true, beq_iff_eq]
        have parts : word ∈ ["yes", "true", "on"] ++ ["no", "false", "off"] := member
        exact (List.mem_append.mp parts).imp (fun listed => ⟨word, listed, same⟩)
          fun listed => ⟨word, listed, same⟩
      exact found.elim noTrue noFalse

/-- What is left behind a sign, or that there is nothing. -/
theorem signed_cases (u : Text) :
    (u = [] ∧ signed u = .error .noIndex) ∨
      ∃ negative, signed u = .ok (negative, Implicit.unsigned u) := by
  cases u with
  | nil => exact .inl ⟨rfl, rfl⟩
  | cons c rest => exact .inr ⟨c == 45, rfl⟩

theorem inBase_error {base : Nat} (failed : inBase base t = .error fault) :
    fault = .badValue ∧ Literal.integer? base t = none := by
  unfold inBase at failed
  split at failed
  · cases failed
  · next none =>
    cases failed
    exact ⟨rfl, none⟩

theorem numerals_octal {rest : Text} (noBinary : ∀ digits, rest = 98 :: digits → False)
    (noHexadecimal : ∀ digits, rest = 120 :: digits → False) :
    numerals (48 :: rest) = (8, [48 :: rest]) := by
  unfold numerals
  split
  · next same => exact absurd (List.cons.inj same).2 (noBinary _)
  · next same => exact absurd (List.cons.inj same).2 (noHexadecimal _)
  · rfl
  · next none => exact absurd rfl (none rest)

theorem numerals_decimal {body : Text} (noZero : ∀ rest, body = 48 :: rest → False) :
    numerals body = (10, Text.split 58 body) := by
  unfold numerals
  split
  · exact absurd rfl (noZero _)
  · exact absurd rfl (noZero _)
  · exact absurd rfl (noZero _)
  · rfl

theorem unfit_of_whole (failed : whole t = .error fault) : Unfit .int t fault := by
  rcases signed_cases (withoutGaps t) with ⟨empty, signs⟩ | ⟨negative, signs⟩
  · rw [whole, signs] at failed
    cases failed
    exact .noDigits (by rw [empty]; rfl)
  have one {base : Nat} {part : Text}
      (announced : numerals (Implicit.unsigned (withoutGaps t)) = (base, [part]))
      (failed : (do
        let size ← inBase base part
        return if negative then -size else size) = .error fault) : Unfit .int t fault := by
    rcases Except.error_of_bind failed with failed | ⟨_, -, failed⟩
    · obtain ⟨rfl, unread⟩ := inBase_error failed
      exact .noNumeral announced (List.mem_singleton_self part) unread
    · cases failed
  rw [whole, signs] at failed
  dsimp only [bind, Except.bind] at failed
  split at failed
  · next nothing =>
    cases failed
    exact .noDigits nothing
  · cases failed
  · next digits begins => exact one (by rw [begins]; rfl) failed
  · next digits begins => exact one (by rw [begins]; rfl) failed
  · next rest _ noBinary noHexadecimal begins =>
    exact one (by rw [begins, numerals_octal noBinary noHexadecimal]) failed
  · next noZero =>
    split at failed
    · next e found =>
      cases failed
      obtain ⟨part, member, failed⟩ := Except.exists_of_mapM_error found
      obtain ⟨rfl, unread⟩ := inBase_error failed
      exact .noNumeral (numerals_decimal noZero) member unread
    · cases failed

theorem sumOfSixtieths_error {sum : Binary64} (weight : Nat) {parts : List Binary64}
    (failed : sumOfSixtieths sum weight parts = .error fault) :
    fault = .tooLarge ∧ ∃ k < parts.length, Binary64.ofInt? (weight * 60 ^ k : Nat) = none := by
  induction parts generalizing sum weight with
  | nil => cases failed
  | cons part parts ih =>
    rw [sumOfSixtieths] at failed
    split at failed
    · next large =>
      cases failed
      exact ⟨rfl, 0, Nat.zero_lt_succ _, by simpa using large⟩
    · next w found =>
      have next : (weight : Int) * 60 = (weight * 60 : Nat) := by simp
      rw [next] at failed
      obtain ⟨same, k, bound, large⟩ := ih (weight * 60) failed
      refine ⟨same, k + 1, Nat.succ_lt_succ bound, ?_⟩
      rwa [Nat.pow_succ', ← Nat.mul_assoc]

theorem sixtieth_error (failed : sixtieth t = .error fault) :
    fault = .badValue ∧ Literal.float? t = none := by
  unfold sixtieth at failed
  split at failed
  · cases failed
  · next none =>
    cases failed
    exact ⟨rfl, none⟩

theorem unfit_of_real (failed : real t = .error fault) : Unfit .float t fault := by
  rcases signed_cases (Text.lower (withoutGaps t)) with ⟨empty, signs⟩ | ⟨negative, signs⟩
  · rw [real, signs] at failed
    cases failed
    exact .nothing (List.map_eq_nil_iff.mp empty)
  have noNumber (part : ∃ part ∈ Text.split 58 (realBody t), sixtieth part = .error fault) :
      Unfit .float t fault := by
    obtain ⟨part, member, failed⟩ := part
    obtain ⟨rfl, unread⟩ := sixtieth_error failed
    exact .noNumber member unread
  rw [real, signs] at failed
  dsimp only [bind, Except.bind] at failed
  split at failed
  · cases failed
  split at failed
  · split at failed
    · next e found =>
      cases failed
      exact noNumber (Except.exists_of_mapM_error found)
    · next parts found =>
      split at failed
      · next e large =>
        cases failed
        obtain ⟨rfl, k, bound, large⟩ := sumOfSixtieths_error 1 large
        rw [List.length_reverse, Except.length_of_mapM found] at bound
        exact .tooManyParts bound (by rwa [Nat.one_mul] at large)
      · cases failed
  · next noColon =>
    have one : Text.split 58 (realBody t) = [realBody t] :=
      Text.split_of_not_mem fun member => noColon (List.contains_iff_mem.mpr member)
    split at failed
    · next e found =>
      cases failed
      exact noNumber ⟨realBody t, one ▸ List.mem_singleton_self _, found⟩
    · cases failed

theorem unfit_of_timestamp (failed : timestamp t = .error fault) : Unfit .timestamp t fault := by
  unfold timestamp at failed
  extract_lets trimmed at failed
  have same : trimmed = stampText t := rfl
  rw [same] at failed
  split at failed
  · next form =>
    cases failed
    exact .noStamp form
  · next stamp form =>
    have never : isReal stamp = false → Unfit .timestamp t .badValue := .noTime form
    unfold isReal at never
    dsimp only at failed never
    split at failed
    · next none =>
      rw [none] at never
      split at failed
      · cases failed
      · next invalid =>
        cases failed
        exact never (by simpa using invalid)
    · next hour minute second clock =>
      rw [clock] at never
      split at failed
      · cases failed
      · next invalid =>
        cases failed
        exact never (by simpa using invalid)

/-- A scalar that is read and wrapped is at fault if reading is. -/
theorem fault_of_read {α β : Type} {r : Except Fault α} {wrap : α → β}
    (failed : (do return wrap (← ofFault r)) = Except.error (Problem.fault fault)) :
    r = .error fault := by
  cases r with
  | ok a => cases failed
  | error f =>
    cases failed
    rfl

theorem not_fault_of_octets {β : Type} {wrap : Octets → β} :
    (do return wrap (← octets t)) ≠ Except.error (Problem.fault fault) := by
  intro failed
  unfold octets at failed
  split at failed
  · cases failed
  · split at failed <;> cases failed

/-- A scalar is at fault only if it does not have the form that its tag asks for. -/
theorem unfit_of_value {s : Store} {tag : NodeTag}
    (failed : value s tag t = .error (.fault fault)) :
    Unfit tag t fault := by
  unfold value at failed
  split at failed
  · cases failed
  · cases failed
  · exact noWord_of_truth (fault_of_read failed)
  · exact unfit_of_whole (fault_of_read failed)
  · split at failed
    · cases failed
    · exact unfit_of_real (fault_of_read failed)
  · exact absurd failed not_fault_of_octets
  · exact unfit_of_timestamp (fault_of_read failed)
  · cases failed

end Unfit

end Content

/-! ## The nodes of a document -/

/-- The node with a number has a tag. -/
def Tagged (g : Array Node) (id : Nat) (tag : NodeTag) : Prop := g[id]?.map Node.tag = some tag

/-- A mapping merges another: an entry asks for it, alone or in a sequence. -/
def Merges (g : Array Node) (i j : Nat) : Prop :=
  ∃ tag entries key source, g[i]? = some (.mapping tag entries) ∧ (key, source) ∈ entries ∧
    Tagged g key .merge ∧
    (j = source ∨ ∃ tag items, g[source]? = some (.sequence tag items) ∧ j ∈ items)

/-- An entry is one of a mapping, or of one that the mapping merges. -/
def Inherits (g : Array Node) (i : Nat) (e : Nat × Nat) : Prop :=
  ∃ j tag entries, Relation.ReflTransGen (Merges g) i j ∧ g[j]? = some (.mapping tag entries) ∧
    e ∈ entries

/-- The second node is the default value of the first one, which is a mapping. -/
def Defaults (g : Array Node) (i j : Nat) : Prop :=
  ∃ key, Inherits g i (key, j) ∧ Tagged g key .default

/-- The characters of a node are its own, or those of its default value. -/
inductive HasCharacters (g : Array Node) : Nat → Text → Prop where
  | own {id : Nat} {tag : NodeTag} {t : Text} (there : g[id]? = some (.scalar tag t)) :
    HasCharacters g id t
  | default {id other : Nat} {t : Text} (leads : Defaults g id other)
      (has : HasCharacters g other t) :
    HasCharacters g id t

/-- Why a node of a document has no value although the document may be well formed. -/
inductive Unfit (g : Array Node) : Fault → Prop where
  /-- The characters of a node do not have the form that its tag asks for. -/
  | content {id : Nat} {tag : NodeTag} {t : Text} {fault : Fault} (tagged : Tagged g id tag)
    (has : HasCharacters g id t) (unfit : Content.Unfit tag t fault) : Unfit g fault
  /-- A mapping is said to be a timestamp. -/
  | stamp {id : Nat} {entries : List (Nat × Nat)} {t : Text}
    (there : g[id]? = some (.mapping .timestamp entries)) (has : HasCharacters g id t) :
    Unfit g .wrongKind
  /-- A mapping is the default value of its default value, or of that one's, and so on. -/
  | endless {id : Nat} (again : Relation.TransGen (Defaults g) id id) : Unfit g .tooDeep

/-! ## What becomes of the nodes -/

/-- A tag stays, but a key for a default value can become a text. -/
def Retagged (old new : NodeTag) : Prop := new = old ∨ old = .default ∧ new = .string

/-- What a node can have become: the entries of a mapping can be those of others that it merges. -/
inductive Becomes (g : Array Node) (id : Nat) : Node → Prop where
  | scalar {old new : NodeTag} {t : Text} (there : g[id]? = some (.scalar old t))
    (retagged : Retagged old new) : Becomes g id (.scalar new t)
  | sequence {old new : NodeTag} {items : List Nat} (there : g[id]? = some (.sequence old items))
    (retagged : Retagged old new) : Becomes g id (.sequence new items)
  | mapping {old new : NodeTag} {before after : List (Nat × Nat)}
    (there : g[id]? = some (.mapping old before)) (retagged : Retagged old new)
    (inherited : ∀ e ∈ after, Inherits g id e) : Becomes g id (.mapping new after)

section Becomes

variable {g : Array Node} {id : Nat} {n : Node}

theorem Becomes.refl (there : g[id]? = some n) : Becomes g id n := by
  cases n with
  | scalar => exact .scalar there (.inl rfl)
  | sequence => exact .sequence there (.inl rfl)
  | mapping tag entries =>
    exact .mapping there (.inl rfl) fun e member => ⟨id, tag, entries, .refl, there, member⟩

theorem Becomes.exists_tagged (becomes : Becomes g id n) :
    ∃ old, Tagged g id old ∧ Retagged old n.tag := by
  cases becomes with
  | scalar there retagged | sequence there retagged | mapping there retagged =>
    exact ⟨_, by rw [Tagged, there]; rfl, retagged⟩

/-- A tag that is no text has been there before. -/
theorem Becomes.tagged (becomes : Becomes g id n) (noText : n.tag ≠ .string) :
    Tagged g id n.tag := by
  obtain ⟨old, tagged, same | ⟨-, text⟩⟩ := becomes.exists_tagged
  · rwa [same]
  · exact absurd text noText

theorem Becomes.asText (becomes : Becomes g id n) (isDefault : n.tag = .default) :
    Becomes g id (n.withTag .string) := by
  have retag {old : NodeTag} (retagged : Retagged old .default) : Retagged old .string := by
    rcases retagged with rfl | ⟨-, other⟩
    · exact .inr ⟨rfl, rfl⟩
    · cases other
  cases becomes with
  | scalar there retagged =>
    obtain rfl := isDefault
    exact .scalar there (retag retagged)
  | sequence there retagged =>
    obtain rfl := isDefault
    exact .sequence there (retag retagged)
  | mapping there retagged inherited =>
    obtain rfl := isDefault
    exact .mapping there (retag retagged) inherited

/-- What has entries is a node. -/
theorem Inherits.lt_size {e : Nat × Nat} (inherits : Inherits g id e) : id < g.size := by
  obtain ⟨k, tag, entries, way, there, -⟩ := inherits
  rcases way.cases_head with rfl | ⟨j, ⟨tag', entries', _, _, there', -⟩, -⟩
  · exact (Array.getElem?_eq_some_iff.mp there).1
  · exact (Array.getElem?_eq_some_iff.mp there').1

/-- What a merged mapping has, the mapping that merges it has too. -/
theorem Inherits.of_merge {key source j : Nat} {e : Nat × Nat}
    (asks : Inherits g id (key, source)) (tagged : Tagged g key .merge)
    (target : j = source ∨ ∃ tag items, g[source]? = some (.sequence tag items) ∧ j ∈ items)
    (inherits : Inherits g j e) : Inherits g id e := by
  obtain ⟨i, tag, entries, way, there, member⟩ := asks
  obtain ⟨k, tag', entries', way', there', member'⟩ := inherits
  have merges : Merges g i j := ⟨tag, entries, key, source, there, member, tagged, target⟩
  exact ⟨k, tag', entries', way.trans (.head merges way'), there', member'⟩

end Becomes

namespace Loading

variable {α : Type} {g : Array Node}

/-- All nodes are what those of the document can have become. -/
structure Traces (g : Array Node) (l : Loading) : Prop where
  size : l.nodes.size = g.size
  becomes : ∀ id n, l.nodes[id]? = some n → Becomes g id n

/-- A step of loading fails only for a node of the document. -/
abbrev Loads (g : Array Node) (good : α → Prop) (m : Load α) : Prop :=
  Keeps (Unfit g) (Traces g) good m

theorem Traces.of_nodes {l l' : Loading} (traces : Traces g l) (same : l'.nodes = l.nodes) :
    Traces g l' :=
  ⟨same ▸ traces.size, same ▸ traces.becomes⟩

theorem loads_pure (a : α) : Loads g (fun _ => True) (pure a) := Keeps.pure trivial

theorem loads_each {β : Type} {f : β → Load α} {items : List β}
    (each : ∀ b ∈ items, Loads g (fun _ => True) (f b)) :
    Loads g (fun _ => True) (items.mapM f) :=
  (Keeps.mapM each).mono (fun _ cause => cause) fun _ _ => trivial

theorem loads_set {l : Loading} (traces : Traces g l) : Loads g (fun _ => True) (set l) :=
  Keeps.set traces

theorem loads_update {f : Loading → Loading} (same : ∀ l, (f l).nodes = l.nodes) :
    Loads g (fun _ => True) (modify f) :=
  Keeps.update fun l traces => traces.of_nodes (same l)

theorem loads_nodeAt {causes : Fault → Prop} (id : Nat) :
    Keeps causes (Traces g) (Becomes g id) (nodeAt id) := by
  refine Keeps.get.bind fun l traces => ?_
  split
  · next n there => exact .pure (traces.becomes id n there)
  · exact .malformed

theorem loads_setNode {id : Nat} {n : Node} (becomes : Becomes g id n) :
    Loads g (fun _ => True) (setNode id n) := by
  refine Keeps.update fun l traces => ⟨?_, fun i m there => ?_⟩
  · rw [Array.size_setIfInBounds]
    exact traces.size
  · rw [Array.getElem?_setIfInBounds] at there
    split at there
    · next same =>
      subst same
      split at there
      · obtain rfl := Option.some.inj there
        exact becomes
      · cases there
    · exact traces.becomes i m there

/-- The node with a number is a mapping, and some entries are its own or merged. -/
def HasEntries (g : Array Node) (id : Nat) (entries : List (Nat × Nat)) : Prop :=
  (∃ tag own, g[id]? = some (.mapping tag own)) ∧ ∀ e ∈ entries, Inherits g id e

theorem loads_entriesOf (id : Nat) : Loads g (HasEntries g id) (entriesOf id) := by
  refine (loads_nodeAt id).bind fun n becomes => ?_
  split
  · cases becomes with
    | mapping there retagged inherited => exact .pure ⟨⟨_, _, there⟩, inherited⟩
  · exact .malformed

theorem loads_setEntries {id : Nat} {entries : List (Nat × Nat)} (has : HasEntries g id entries) :
    Loads g (fun _ => True) (setEntries id entries) := by
  refine (loads_nodeAt id).bind fun n becomes => loads_setNode ?_
  obtain ⟨⟨tag, own, there⟩, inherited⟩ := has
  obtain ⟨old, tagged, retagged⟩ := becomes.exists_tagged
  rw [Tagged, there] at tagged
  obtain rfl : tag = old := Option.some.inj tagged
  exact .mapping there retagged inherited

theorem loads_plainKey (entry : Nat × Nat) : Loads g (fun _ => True) (plainKey entry) := by
  refine (loads_nodeAt entry.1).bind fun key becomes => ?_
  split
  · next isDefault => exact loads_setNode (becomes.asText (beq_iff_eq.mp isDefault))
  · exact loads_pure _

theorem exists_of_firstMerge? {nodes : Array Node} {entries : List (Nat × Nat)} {first more : Nat}
    (found : firstMerge? nodes (entries.drop first) = some more) :
    ∃ e, entries[first + more]? = some e ∧ Tagged nodes e.1 .merge := by
  obtain ⟨bound, asks, -⟩ := List.findIdx?_eq_some_iff_getElem.mp found
  refine ⟨_, ?_, beq_iff_eq.mp asks⟩
  rw [← List.getElem?_drop]
  exact List.getElem?_eq_getElem bound

theorem loads_mergeFrom (n : Nat) {id first : Nat} {merged : List (Nat × Nat)}
    (inherited : ∀ e ∈ merged, Inherits g id e) :
    Loads g (fun _ => True) (mergeFrom n id first merged) := by
  induction n generalizing id first merged with
  | zero => exact .malformed
  | succ n ih =>
    rw [mergeFrom]
    refine (loads_entriesOf id).bind fun entries has => Keeps.get.bind fun l traces => ?_
    split
    · refine (Keeps.forM fun e _ => loads_plainKey e).bind fun _ _ => ?_
      split
      · refine loads_setEntries ⟨has.1, fun e member => ?_⟩
        exact (List.mem_append.mp member).elim (inherited e) (has.2 e)
      · exact loads_pure _
    · next more found =>
      obtain ⟨⟨key, source⟩, there, asks⟩ := exists_of_firstMerge? found
      have inherits : Inherits g id (key, source) := has.2 _ (List.mem_of_getElem? there)
      have tagged : Tagged g key .merge := by
        obtain ⟨node, stands, tag⟩ := Option.map_eq_some_iff.mp asks
        exact tag ▸ (traces.becomes key node stands).tagged (by rw [tag]; nofun)
      have fromTarget {j : Nat} {part : List (Nat × Nat)}
          (target : j = source ∨ ∃ tag items, g[source]? = some (.sequence tag items) ∧ j ∈ items)
          (has : HasEntries g j part) : ∀ e ∈ part, Inherits g id e :=
        fun e member => inherits.of_merge tagged target (has.2 e member)
      have both {part : List (Nat × Nat)} (fromPart : ∀ e ∈ part, Inherits g id e) :
          ∀ e ∈ merged ++ part, Inherits g id e :=
        fun e member => (List.mem_append.mp member).elim (inherited e) (fromPart e)
      have rest : HasEntries g id (entries.eraseIdx (first + more)) :=
        ⟨has.1, fun e member => has.2 e (List.mem_of_mem_eraseIdx member)⟩
      extract_lets position chosen
      obtain rfl : chosen = source := by simp [chosen, position, there]
      refine (loads_setEntries rest).bind fun _ _ => ?_
      refine (loads_nodeAt chosen).bind fun node becomes => ?_
      split
      · refine (ih (List.forall_mem_nil _)).bind fun _ _ => ?_
        refine (loads_entriesOf chosen).bind fun part has => ?_
        exact ih (both (fromTarget (.inl rfl) has))
      · next tag items =>
        have listed : ∃ tag, g[chosen]? = some (.sequence tag items) := by
          cases becomes with
          | sequence there => exact ⟨_, there⟩
        have each : ∀ item ∈ items, Loads g (fun part => ∀ e ∈ part, Inherits g id e) (do
            let _ ← entriesOf item
            mergeFrom n item 0 []
            entriesOf item) := by
          intro item member
          obtain ⟨tag, there⟩ := listed
          refine (loads_entriesOf item).bind fun _ _ => ?_
          refine (ih (List.forall_mem_nil _)).bind fun _ _ => ?_
          exact (loads_entriesOf item).mono (fun _ cause => cause) fun part has =>
            fromTarget (.inr ⟨tag, items, there, member⟩) has
        refine (Keeps.mapM each).bind fun parts fromParts => ih (both fun e member => ?_)
        obtain ⟨part, listed, member⟩ := List.mem_flatten.mp member
        exact fromParts part (List.mem_reverse.mp listed) e member
      · exact .malformed

theorem loads_mergedEntries (id : Nat) : Loads g (HasEntries g id) (mergedEntries id) :=
  Keeps.get.bind fun _ _ => (loads_mergeFrom _ (List.forall_mem_nil _)).bind fun _ _ =>
    loads_entriesOf id

/-! ## Values -/

/-- Characters are found, or as many default values as were looked for. -/
theorem keeps_charactersWithin (depth id : Nat) :
    Keeps (fun fault => fault = .tooDeep ∧ Climbs (Defaults g) depth id) (Traces g)
      (HasCharacters g id)
      (charactersWithin depth id) := by
  induction depth generalizing id with
  | zero => exact .fault ⟨rfl, trivial⟩
  | succ depth ih =>
    rw [charactersWithin]
    refine (loads_nodeAt id).bind fun n becomes => ?_
    split
    · cases becomes with
      | scalar there => exact .pure (.own there)
    · exact .malformed
    · next tag entries =>
      refine Keeps.get.bind fun l traces => ?_
      dsimp only
      split
      · next entry found =>
        have leads : Defaults g id entry.2 := by
          have asks := List.find?_some found
          rw [beq_iff_eq] at asks
          obtain ⟨node, stands, tag⟩ := Option.map_eq_some_iff.mp asks
          have tagged := (traces.becomes entry.1 node stands).tagged (by rw [tag]; nofun)
          cases becomes with
          | mapping there retagged inherited =>
            exact ⟨entry.1, inherited entry (List.mem_of_find?_eq_some found), tag ▸ tagged⟩
        refine (ih entry.2).mono ?_ fun t has => .default leads has
        exact fun fault ⟨same, climbs⟩ => ⟨same, entry.2, leads, climbs⟩
      · exact .malformed

/-- Only default values that lead back to themselves are followed too far. -/
theorem loads_characters (id : Nat) : Loads g (HasCharacters g id) (characters id) := by
  refine Keeps.get.bind fun l traces => ?_
  refine (keeps_charactersWithin _ id).mono ?_ fun _ has => has
  rintro fault ⟨rfl, climbs⟩
  have steps : ∀ i j, Defaults g i j → i ∈ List.range g.size := by
    rintro i j ⟨key, inherits, -⟩
    exact List.mem_range.mpr inherits.lt_size
  obtain ⟨other, -, again⟩ := climbs.exists_cycle steps
    (by rw [List.length_range, traces.size]; exact Nat.lt_succ_self _)
  exact .endless again

/-- The value of a scalar is read, or its characters do not have the form that its tag asks for. -/
theorem loads_content {id : Nat} {n : Node} {t : Text} (s : Store) (becomes : Becomes g id n)
    (has : HasCharacters g id t) :
    Explained (Unfit g) (fun _ => True) (Content.value s n.tag t) := by
  cases read : Content.value s n.tag t with
  | ok r => exact trivial
  | error p =>
    cases p with
    | malformed => exact trivial
    | fault f =>
      have unfit := Content.unfit_of_value read
      exact .content (becomes.tagged fun text => by rw [text] at unfit; cases unfit) has unfit

theorem loads_valueOf (id : Nat) : Loads g (fun _ => True) (valueOf id) := by
  refine Keeps.get.bind fun l traces => ?_
  split
  · exact loads_pure _
  · refine (loads_nodeAt id).bind fun node becomes => ?_
    split
    · exact (loads_set (traces.of_nodes (by rfl))).bind fun _ _ => loads_pure _
    · extract_lets later
      have laters (u : Unit) : Loads g (fun _ => True) (later u) := by
        refine (loads_characters id).bind fun t has => ?_
        split
        · next tag entries _ isStamp =>
          cases becomes with
          | mapping there retagged =>
            rcases retagged with rfl | ⟨-, text⟩
            · obtain rfl := isStamp
              exact .fault (.stamp there has)
            · cases isStamp.symm.trans text
        · refine (Keeps.lift (loads_content l.store becomes has)).bind fun r _ => ?_
          exact (loads_set (traces.of_nodes (by rfl))).bind fun _ _ => loads_pure _
      split
      · exact .malformed_bind
      · exact laters ()

theorem loads_keyedValues (id : Nat) : Loads g (fun _ => True) (keyedValues id) := by
  refine (loads_mergedEntries id).bind fun entries _ => ?_
  refine loads_each fun e _ => ?_
  refine (loads_valueOf e.1).bind fun k _ => Keeps.get.bind fun l _ => ?_
  dsimp only
  split
  · exact .malformed_bind
  · exact (loads_valueOf e.2).bind fun _ _ => loads_pure _

theorem loads_itemsOf (id : Nat) : Loads g (fun _ => True) (itemsOf id) := by
  refine (loads_nodeAt id).bind fun n _ => ?_
  split
  · exact loads_pure _
  · exact .malformed

theorem loads_pairOf (id : Nat) : Loads g (fun _ => True) (pairOf id) := by
  refine (loads_nodeAt id).bind fun n _ => ?_
  split
  · refine (loads_valueOf _).bind fun k _ => (loads_valueOf _).bind fun v _ => ?_
    exact fun l traces => ⟨trivial, traces.of_nodes (by rfl)⟩
  · exact .malformed

theorem loads_contentOf (id : Nat) : Loads g (fun _ => True) (contentOf id) := by
  refine (loads_nodeAt id).bind fun n _ => ?_
  have keyed {later : List (Value × Value) → Loading → Cell} :
      Loads g (fun _ => True) (do
        let entries ← keyedValues id
        return later entries (← get)) :=
    (loads_keyedValues id).bind fun _ _ => Keeps.get.bind fun _ _ => loads_pure _
  split
  · refine (loads_itemsOf id).bind fun items _ => ?_
    exact (loads_each fun item _ => loads_valueOf item).bind fun _ _ => loads_pure _
  · refine (loads_itemsOf id).bind fun items _ => ?_
    exact (loads_each fun item _ => loads_pairOf item).bind fun _ _ => loads_pure _
  · refine (loads_itemsOf id).bind fun items _ => ?_
    exact (loads_each fun item _ => loads_pairOf item).bind fun _ _ => loads_pure _
  · exact keyed
  · exact keyed

theorem loads_fill (n : Nat) : Loads g (fun _ => True) (fill n) := by
  induction n with
  | zero => exact loads_pure _
  | succ n ih =>
    rw [fill]
    refine Keeps.get.bind fun l _ => ?_
    split
    · exact loads_pure _
    · next place id rest _ =>
      refine (loads_update fun _ => by rfl).bind fun _ _ =>
        (loads_contentOf id).bind fun cell _ => ?_
      exact (loads_update fun _ => by rfl).bind fun _ _ => ih

theorem loads_root (id : Nat) : Loads g (fun _ => True) (root id) :=
  (loads_valueOf id).bind fun _ _ => Keeps.get.bind fun _ _ => (loads_fill _).bind fun _ _ =>
    loads_pure _

end Loading

/-- A text that is not read because of a fault has a number in it that is too large, or a node that
has no value. -/
theorem cause_of_load {s : Store} {t : Text} {fault : Fault}
    (failed : load s t = .error (.fault fault)) :
    Misspelt (plainLines t) fault ∨ ∃ g, Graph.ofText t = .ok g ∧ Unfit g.nodes fault := by
  rcases Except.error_of_bind failed with unbuilt | ⟨g, built, failed⟩
  · exact .inl (misspelt_of_ofText unbuilt)
  · refine .inr ⟨g, built, ?_⟩
    split at failed
    · cases failed
    · next id _ =>
      have start : Loading.Traces g.nodes ⟨s, g.nodes, [], []⟩ := ⟨rfl, fun _ _ => Becomes.refl⟩
      have loads := Loading.loads_root id _ start
      rcases Except.error_of_bind failed with failed | ⟨_, -, failed⟩
      · have unfit := loads
        rw [show Loading.root id ⟨s, g.nodes, [], []⟩ = .error (.fault fault) from failed] at unfit
        exact unfit
      · cases failed

end SwaggerDoc.Yaml
