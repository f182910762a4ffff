import SwaggerDoc.Proofs.Outcome
import SwaggerDoc.Proofs.Session.Declared
import SwaggerDoc.Proofs.Store.Plain
import SwaggerDoc.Yaml.Loading

/-!
What a text describes.

A text describes plain data only, and all of them lie in the store: values are given to nodes in
stores of plain data (`IsSound`), and no step of that leaves any other store (`Yields`).
-/

namespace SwaggerDoc

namespace Store.IsPlain

variable {s : Store}

theorem isData (plain : s.IsPlain) : s.IsData := by
  intro v c cell
  have kind : c.isPlain = true := by
    cases v with
    | scalar x => cases cell
    | ref p => exact plain.cell cell
  cases c with
  | field f => cases kind
  | schema fields => cases kind
  | resource r => cases kind
  | _ => rfl

end Store.IsPlain

namespace Store

/-- What a mapping holds is among the entries that it was given. -/
theorem mem_of_mem_insert {s : Store} {entries : List (Value × Value)} {key value : Value}
    {e : Value × Value} (member : e ∈ s.insert entries key value) :
    (e.1 = key ∨ ∃ e' ∈ entries, e.1 = e'.1) ∧ (e.2 = value ∨ ∃ e' ∈ entries, e.2 = e'.2) := by
  induction entries with
  | nil =>
    obtain rfl := List.mem_singleton.mp member
    exact ⟨.inl rfl, .inl rfl⟩
  | cons entry rest ih =>
    rw [insert] at member
    split at member
    · rcases List.mem_cons.mp member with rfl | later
      · exact ⟨.inr ⟨entry, List.mem_cons_self, rfl⟩, .inl rfl⟩
      · have listed := List.mem_cons_of_mem entry later
        exact ⟨.inr ⟨e, listed, rfl⟩, .inr ⟨e, listed, rfl⟩⟩
    · rcases List.mem_cons.mp member with rfl | later
      · exact ⟨.inr ⟨e, List.mem_cons_self, rfl⟩, .inr ⟨e, List.mem_cons_self, rfl⟩⟩
      · obtain ⟨front, behind⟩ := ih later
        constructor
        · exact front.imp_right (Exists.imp fun _ => And.imp_left (List.mem_cons_of_mem entry))
        · exact behind.imp_right (Exists.imp fun _ => And.imp_left (List.mem_cons_of_mem entry))

theorem forall_mem_collect {s : Store} {holds : Value → Prop} {entries : List (Value × Value)}
    (all : ∀ e ∈ entries, holds e.1 ∧ holds e.2) : ∀ e ∈ s.collect entries, holds e.1 ∧ holds e.2 := by
  have step (entries found : List (Value × Value)) (given : ∀ e ∈ entries, holds e.1 ∧ holds e.2)
      (before : ∀ e ∈ found, holds e.1 ∧ holds e.2) :
      ∀ e ∈ entries.foldl (fun found e => s.insert found e.1 e.2) found, holds e.1 ∧ holds e.2 := by
    induction entries generalizing found with
    | nil => exact before
    | cons entry rest ih =>
      obtain ⟨first, others⟩ := List.forall_mem_cons.mp given
      refine ih _ others fun e member => ?_
      obtain ⟨front, behind⟩ := mem_of_mem_insert member
      constructor
      · rcases front with same | ⟨e', listed, same⟩
        · exact same ▸ first.1
        · exact same ▸ (before e' listed).1
      · rcases behind with same | ⟨e', listed, same⟩
        · exact same ▸ first.2
        · exact same ▸ (before e' listed).2
  exact step entries [] all (List.forall_mem_nil _)

end Store

namespace Yaml.Loading

variable {α β : Type} {n : Nat} {good good' : Nat → α → Prop} {next : Nat → β → Prop}

/-- All that lies in the store is plain data, and so are the values of nodes. -/
structure IsSound (l : Loading) : Prop where
  store : l.store.IsPlain
  values : ∀ e ∈ l.values, e.2.IsPlain l.store.size

/-- In sound states with at least so many places, a step leads to a sound state that has no fewer,
and to a result that is good by their number. -/
def Yields (n : Nat) (good : Nat → α → Prop) (m : Load α) : Prop :=
  ∀ l : Loading, l.IsSound → n ≤ l.store.size → ∀ a l', m l = .ok (a, l') →
    l'.IsSound ∧ l.store.size ≤ l'.store.size ∧ good l'.store.size a

/-- A run of two steps is a run of the first and then of the second. -/
theorem exists_of_bind {m : Load α} {f : α → Load β} {l l'' : Loading} {b : β}
    (done : (m >>= f) l = .ok (b, l'')) :
    ∃ a l', m l = .ok (a, l') ∧ f a l' = .ok (b, l'') := by
  obtain ⟨⟨a, l'⟩, first, later⟩ := Except.exists_ok_of_bind done
  exact ⟨a, l', first, later⟩

namespace Yields

theorem pure {a : α} (fits : ∀ k, n ≤ k → good k a) : Yields n good (Pure.pure a) := by
  intro l sound enough b l' done
  obtain ⟨rfl, rfl⟩ := Prod.mk.inj (Except.ok.inj done)
  exact ⟨sound, Nat.le_refl _, fits _ enough⟩

theorem throw {p : Problem} : Yields n good (MonadExcept.throw p) := by
  intro l sound enough a l' done
  cases done

theorem bind {m : Load α} {f : α → Load β} (first : Yields n good m)
    (later : ∀ k a, n ≤ k → good k a → Yields k next (f a)) : Yields n next (m >>= f) := by
  intro l sound enough b l'' done
  obtain ⟨a, l', here, done⟩ := exists_of_bind done
  obtain ⟨sound', grown, fits⟩ := first l sound enough a l' here
  have enough' := Nat.le_trans enough grown
  obtain ⟨sound'', grown', fits'⟩ := later _ a enough' fits l' sound' (Nat.le_refl _) b l'' done
  exact ⟨sound'', Nat.le_trans grown grown', fits'⟩

theorem mono {m : Load α} (yields : Yields n good m) (follows : ∀ k a, good k a → good' k a) :
    Yields n good' m := by
  intro l sound enough a l' done
  obtain ⟨sound', grown, fits⟩ := yields l sound enough a l' done
  exact ⟨sound', grown, follows _ a fits⟩

theorem get : Yields n (fun _ _ => True) (MonadState.get : Load Loading) := by
  intro l sound enough a l' done
  obtain ⟨rfl, rfl⟩ := Prod.mk.inj (Except.ok.inj done)
  exact ⟨sound, Nat.le_refl _, trivial⟩

/-- A change that touches neither the store nor the values. -/
theorem update {f : Loading → Loading} (store : ∀ l, (f l).store = l.store)
    (values : ∀ l, (f l).values = l.values) : Yields n (fun _ _ => True) (modify f : Load Unit) := by
  intro l sound enough a l' done
  obtain ⟨rfl, rfl⟩ := Prod.mk.inj (Except.ok.inj done)
  refine ⟨⟨?_, ?_⟩, ?_, trivial⟩
  · rw [store]
    exact sound.store
  · rw [store, values]
    exact sound.values
  · exact Nat.le_of_eq (by rw [store])

theorem mapM {f : α → Load β} {items : List α} (upward : ∀ k k' b, k ≤ k' → next k b → next k' b)
    (each : ∀ a ∈ items, ∀ k, n ≤ k → Yields k next (f a)) :
    Yields n (fun k found => ∀ b ∈ found, next k b) (items.mapM f) := by
  induction items generalizing n with
  | nil => exact pure fun k _ => List.forall_mem_nil _
  | cons a items ih =>
    rw [List.mapM_cons]
    refine bind (each a List.mem_cons_self n (Nat.le_refl n)) fun k b le first => ?_
    refine bind (ih fun c member j le' => each c (List.mem_cons_of_mem a member) j
      (Nat.le_trans le le')) fun j found le' others => ?_
    exact pure fun i le'' => List.forall_mem_cons.mpr
      ⟨upward k i b (Nat.le_trans le' le'') first, fun c member => upward j i c le'' (others c member)⟩

theorem forM {f : α → Load PUnit} {items : List α}
    (each : ∀ a ∈ items, ∀ k, n ≤ k → Yields k (fun _ _ => True) (f a)) :
    Yields n (fun _ _ => True) (items.forM f) := by
  induction items generalizing n with
  | nil => exact pure fun _ _ => trivial
  | cons a items ih =>
    refine bind (each a List.mem_cons_self n (Nat.le_refl n)) fun k _ le _ => ?_
    exact ih fun c member j le' => each c (List.mem_cons_of_mem a member) j (Nat.le_trans le le')

end Yields

/-! ## The steps -/

variable {id : Nat}

/-- A result about which nothing is said. -/
abbrev Anything (_ : Nat) (_ : α) : Prop := True

theorem yields_nodeAt : Yields n Anything (nodeAt id) := by
  refine Yields.bind Yields.get fun k l le _ => ?_
  split
  · exact Yields.pure fun _ _ => trivial
  · exact Yields.throw

theorem yields_entriesOf : Yields n Anything (entriesOf id) := by
  refine Yields.bind yields_nodeAt fun k node le _ => ?_
  split
  · exact Yields.pure fun _ _ => trivial
  · exact Yields.throw

theorem yields_setNode {node : Node} : Yields n Anything (setNode id node) :=
  Yields.update (fun _ => rfl) fun _ => rfl

theorem yields_setEntries {entries : List (Nat × Nat)} : Yields n Anything (setEntries id entries) :=
  Yields.bind yields_nodeAt fun _ _ _ _ => yields_setNode

theorem yields_plainKey {entry : Nat × Nat} : Yields n Anything (plainKey entry) := by
  refine Yields.bind yields_nodeAt fun k key le _ => ?_
  split
  · exact yields_setNode
  · exact Yields.pure fun _ _ => trivial

theorem yields_mergeFrom (rounds : Nat) {id first : Nat} {merged : List (Nat × Nat)} :
    Yields n Anything (mergeFrom rounds id first merged) := by
  induction rounds generalizing n id first merged with
  | zero => exact Yields.throw
  | succ rounds ih =>
    refine Yields.bind yields_entriesOf fun k entries le _ => ?_
    refine Yields.bind Yields.get fun k l le _ => ?_
    split
    · refine Yields.bind (Yields.forM fun entry _ _ _ => yields_plainKey) fun k _ le _ => ?_
      split
      · exact yields_setEntries
      · exact Yields.pure fun _ _ => trivial
    · next more _ =>
      refine Yields.bind yields_setEntries fun k _ le _ => ?_
      refine Yields.bind yields_nodeAt fun k source le _ => ?_
      split
      · refine Yields.bind ih fun k _ le _ => ?_
        exact Yields.bind yields_entriesOf fun k _ le _ => ih
      · next items _ =>
        have each (item : Nat) (k : Nat) : Yields k Anything (do
            let _ ← entriesOf item
            mergeFrom rounds item 0 []
            entriesOf item) :=
          Yields.bind yields_entriesOf fun k _ le _ => Yields.bind ih fun k _ le _ => yields_entriesOf
        have all : Yields k Anything (items.mapM fun item => do
            let _ ← entriesOf item
            mergeFrom rounds item 0 []
            entriesOf item) :=
          (Yields.mapM (fun _ _ _ _ _ => trivial) fun item _ k _ => each item k).mono
            fun _ _ _ => trivial
        exact Yields.bind all fun k parts le _ => ih
      · exact Yields.throw

theorem yields_mergedEntries : Yields n Anything (mergedEntries id) := by
  refine Yields.bind Yields.get fun k l le _ => ?_
  exact Yields.bind (yields_mergeFrom _) fun k _ le _ => yields_entriesOf

theorem emptyCell?_plain {tag : NodeTag} {c : Cell} (empty : emptyCell? tag = some c) :
    c.isPlain = true ∧ c.parts = [] := by
  cases tag with
  | sequence | orderedMap | pairs | mapping | set =>
    obtain rfl := Option.some.inj empty
    exact ⟨rfl, rfl⟩
  | _ => cases empty

theorem timestamp_plain {t : Text} {c : Cell} (read : Content.timestamp t = .ok c) :
    c.isPlain = true ∧ c.parts = [] := by
  unfold Content.timestamp at read
  dsimp only at read
  split at read
  · cases read
  · split at read
    · split at read
      · obtain rfl := Except.ok.inj read
        exact ⟨rfl, rfl⟩
      · cases read
    · split at read
      · obtain rfl := Except.ok.inj read
        exact ⟨rfl, rfl⟩
      · cases read

/-- The value of a scalar is plain. -/
theorem value_plain {s t : Store} {tag : NodeTag} {characters : Text} {v : Value} (plain : s.IsPlain)
    (read : Content.value s tag characters = .ok (v, t)) :
    t.IsPlain ∧ s.size ≤ t.size ∧ v.IsPlain t.size := by
  have same {x : Scalar} (kind : x.isPlain = true) (made : (Value.scalar x, s) = (v, t)) :
      t.IsPlain ∧ s.size ≤ t.size ∧ v.IsPlain t.size := by
    obtain ⟨rfl, rfl⟩ := Prod.mk.inj made
    exact ⟨plain, Nat.le_refl _, kind⟩
  cases tag with
  | null | string => exact same rfl (Except.ok.inj read)
  | bool =>
    obtain ⟨b, -, made⟩ := Except.exists_ok_of_bind read
    exact same rfl (Except.ok.inj made)
  | int =>
    obtain ⟨i, -, made⟩ := Except.exists_ok_of_bind read
    exact same rfl (Except.ok.inj made)
  | binary =>
    obtain ⟨o, -, made⟩ := Except.exists_ok_of_bind read
    exact same rfl (Except.ok.inj made)
  | float =>
    simp only [Content.value] at read
    split at read
    · exact same rfl (Except.ok.inj read)
    · obtain ⟨f, -, made⟩ := Except.exists_ok_of_bind read
      obtain ⟨rfl, rfl⟩ := Prod.mk.inj (Except.ok.inj made)
      exact plain.number f
  | timestamp =>
    obtain ⟨c, stamped, made⟩ := Except.exists_ok_of_bind read
    obtain ⟨rfl, rfl⟩ := Prod.mk.inj (Except.ok.inj made)
    obtain ⟨kind, parts⟩ : c.isPlain = true ∧ c.parts = [] := by
      cases stamp : Content.timestamp characters with
      | error f =>
        rw [stamp] at stamped
        cases stamped
      | ok c' =>
        rw [stamp] at stamped
        obtain rfl := Except.ok.inj stamped
        exact timestamp_plain stamp
    have grown : s.size < (s.alloc c).2.size := by simp
    exact ⟨plain.alloc kind (by rw [parts]; exact List.forall_mem_nil _), Nat.le_of_lt grown, grown⟩
  | _ => cases read

theorem mem_of_lookup {entries : List (Nat × Value)} {v : Value}
    (found : entries.lookup id = some v) : (id, v) ∈ entries := by
  induction entries with
  | nil => cases found
  | cons e rest ih =>
    obtain ⟨key, w⟩ := e
    rw [List.lookup_cons] at found
    split at found
    · next same =>
      obtain rfl := Option.some.inj found
      exact beq_iff_eq.mp same ▸ List.mem_cons_self
    · exact List.mem_cons_of_mem _ (ih found)

/-- A node that had no value before gets one that lies in the store. -/
theorem IsSound.add {l : Loading} (sound : l.IsSound) {s : Store} {v : Value}
    {waiting : List (Place × Nat)} (plain : s.IsPlain) (grown : l.store.size ≤ s.size)
    (fits : v.IsPlain s.size) :
    IsSound { l with store := s, values := (id, v) :: l.values, waiting } where
  store := plain
  values := List.forall_mem_cons.mpr ⟨fits, fun e member => (sound.values e member).of_le grown⟩

theorem yields_valueOf : Yields n (fun k v => v.IsPlain k) (valueOf id) := by
  intro l sound enough v l' done
  obtain ⟨_, _, here, done⟩ := exists_of_bind done
  obtain ⟨rfl, rfl⟩ := Prod.mk.inj (Except.ok.inj here)
  cases known : l.values.lookup id with
  | some w =>
    simp only [known] at done
    obtain ⟨rfl, rfl⟩ := Prod.mk.inj (Except.ok.inj done)
    exact ⟨sound, Nat.le_refl _, sound.values _ (mem_of_lookup known)⟩
  | none =>
    simp only [known] at done
    obtain ⟨node, l₁, -, done⟩ := exists_of_bind done
    cases empty : emptyCell? node.tag with
    | some c =>
      simp only [empty] at done
      obtain ⟨rfl, rfl⟩ := Prod.mk.inj (Except.ok.inj done)
      obtain ⟨kind, parts⟩ := emptyCell?_plain empty
      have grown : l.store.size < (l.store.alloc c).2.size := by simp
      have plain := sound.store.alloc kind (by rw [parts]; exact List.forall_mem_nil _)
      exact ⟨sound.add plain (Nat.le_of_lt grown) grown, Nat.le_of_lt grown, grown⟩
    | none =>
      simp only [empty] at done
      split at done
      · cases done
      · obtain ⟨t, l₂, -, done⟩ := exists_of_bind done
        generalize node.tag = tag at done
        split at done
        · cases done
        · obtain ⟨⟨w, s⟩, l₃, lifted, done⟩ := exists_of_bind done
          obtain ⟨rfl, rfl⟩ := Prod.mk.inj (Except.ok.inj done)
          cases read : Content.value l.store tag t with
          | error p =>
            rw [read] at lifted
            cases lifted
          | ok found =>
            rw [read] at lifted
            obtain ⟨rfl, -⟩ := Prod.mk.inj (Except.ok.inj lifted)
            obtain ⟨plain, grown, fits⟩ := value_plain sound.store read
            exact ⟨sound.add plain grown fits, grown, fits⟩

theorem yields_keyedValues :
    Yields n (fun k found => ∀ e ∈ found, e.1.IsPlain k ∧ e.2.IsPlain k) (keyedValues id) := by
  refine Yields.bind yields_mergedEntries fun k entries le _ => ?_
  have upward (k k' : Nat) (e : Value × Value) (le : k ≤ k') (fits : e.1.IsPlain k ∧ e.2.IsPlain k) :
      e.1.IsPlain k' ∧ e.2.IsPlain k' := ⟨fits.1.of_le le, fits.2.of_le le⟩
  refine Yields.mapM upward fun entry _ k le => ?_
  refine Yields.bind yields_valueOf fun k key le first => ?_
  refine Yields.bind Yields.get fun k' l le' _ => ?_
  split
  · exact Yields.throw
  · refine Yields.bind yields_valueOf fun k'' value le'' second => ?_
    exact Yields.pure fun j le => ⟨first.of_le (by omega), second.of_le le⟩

theorem yields_itemsOf : Yields n Anything (itemsOf id) := by
  refine Yields.bind yields_nodeAt fun k node le _ => ?_
  split
  · exact Yields.pure fun _ _ => trivial
  · exact Yields.throw

theorem yields_pairOf : Yields n (fun k v => v.IsPlain k) (pairOf id) := by
  refine Yields.bind yields_nodeAt fun k node le _ => ?_
  split
  · refine Yields.bind yields_valueOf fun k key le first => ?_
    refine Yields.bind yields_valueOf fun k' value le' second => ?_
    intro l sound enough v l' done
    obtain ⟨rfl, rfl⟩ := Prod.mk.inj (Except.ok.inj done)
    have grown : l.store.size < (l.store.alloc (.tuple [key, value])).2.size := by simp
    have parts : ∀ v ∈ [key, value], v.IsPlain l.store.size :=
      List.forall_mem_cons.mpr ⟨first.of_le (by omega), List.forall_mem_singleton.mpr
        (second.of_le enough)⟩
    refine ⟨⟨sound.store.alloc rfl parts, ?_⟩, Nat.le_of_lt grown, grown⟩
    exact fun e member => (sound.values e member).of_le (Nat.le_of_lt grown)
  · exact Yields.throw

/-- What a collection holds is plain. -/
theorem yields_contentOf :
    Yields n (fun k c => c.isPlain = true ∧ ∀ v ∈ c.parts, v.IsPlain k) (contentOf id) := by
  have upward (k k' : Nat) (v : Value) (le : k ≤ k') (plain : v.IsPlain k) : v.IsPlain k' :=
    plain.of_le le
  refine Yields.bind yields_nodeAt fun k node le _ => ?_
  split
  · refine Yields.bind yields_itemsOf fun k items le _ => ?_
    refine Yields.bind (Yields.mapM upward fun item _ k le => yields_valueOf) fun k found le fit => ?_
    exact Yields.pure fun j le => ⟨rfl, fun v member => (fit v member).of_le le⟩
  · refine Yields.bind yields_itemsOf fun k items le _ => ?_
    refine Yields.bind (Yields.mapM upward fun item _ k le => yields_pairOf) fun k found le fit => ?_
    exact Yields.pure fun j le => ⟨rfl, fun v member => (fit v member).of_le le⟩
  · refine Yields.bind yields_itemsOf fun k items le _ => ?_
    refine Yields.bind (Yields.mapM upward fun item _ k le => yields_pairOf) fun k found le fit => ?_
    exact Yields.pure fun j le => ⟨rfl, fun v member => (fit v member).of_le le⟩
  · refine Yields.bind yields_keyedValues fun k entries le fit => ?_
    refine Yields.bind Yields.get fun k' l le' _ => ?_
    refine Yields.pure fun j le'' => ⟨rfl, fun v member => ?_⟩
    obtain ⟨e, listed, rfl⟩ := List.mem_map.mp member
    exact (Store.forall_mem_collect fit e listed).1.of_le (by omega)
  · refine Yields.bind yields_keyedValues fun k entries le fit => ?_
    refine Yields.bind Yields.get fun k' l le' _ => ?_
    refine Yields.pure fun j le'' => ⟨rfl, ?_⟩
    refine Cell.forall_mem_parts_map fun e listed => ?_
    have both := Store.forall_mem_collect (s := l.store) fit e listed
    exact ⟨both.1.of_le (by omega), both.2.of_le (by omega)⟩

theorem yields_write {place : Place} {c : Cell} (kind : c.isPlain = true)
    (parts : ∀ v ∈ c.parts, v.IsPlain n) :
    Yields n Anything (modify fun l =>
      { l with store := l.store.write place (l.store.settled place c) } : Load Unit) := by
  intro l sound enough a l' done
  obtain ⟨-, rfl⟩ := Prod.mk.inj (Except.ok.inj done)
  have inside : ∀ v ∈ (l.store.settled place c).parts, v.IsPlain l.store.size :=
    fun v member => (parts v (Store.mem_parts_settled.mp member)).of_le enough
  have settled := (l.store.isPlain_settled place c).trans kind
  have size := l.store.size_write place (l.store.settled place c)
  refine ⟨⟨sound.store.write place settled inside, fun e member => ?_⟩, Nat.le_of_eq size.symm,
    trivial⟩
  exact (sound.values e member).of_le (Nat.le_of_eq size.symm)

theorem yields_fill (rounds : Nat) : Yields n Anything (fill rounds) := by
  induction rounds generalizing n with
  | zero => exact Yields.pure fun _ _ => trivial
  | succ rounds ih =>
    refine Yields.bind Yields.get fun k l le _ => ?_
    split
    · exact Yields.pure fun _ _ => trivial
    · next place id rest _ =>
      refine Yields.bind (Yields.update (fun _ => rfl) fun _ => rfl) fun k _ le _ => ?_
      refine Yields.bind yields_contentOf fun k c le fit => ?_
      exact Yields.bind (yields_write fit.1 fit.2) fun k _ le _ => ih

theorem yields_root : Yields n (fun k v => v.IsPlain k) (root id) := by
  refine Yields.bind yields_valueOf fun k v le fits => ?_
  refine Yields.bind Yields.get fun k' l le' _ => ?_
  refine Yields.bind (yields_fill _) fun k'' _ le'' _ => ?_
  exact Yields.pure fun j le => fits.of_le (by omega)

end Yaml.Loading

/-- What a text describes is plain data in a store of plain data. -/
theorem Yaml.load_isPlain {s t : Store} {characters : Text} {v : Value} (plain : s.IsPlain)
    (loaded : Yaml.load s characters = .ok (v, t)) : t.IsPlain ∧ v.IsPlain t.size := by
  obtain ⟨g, -, loaded⟩ := Except.exists_ok_of_bind loaded
  split at loaded
  · obtain ⟨rfl, rfl⟩ := Prod.mk.inj (Except.ok.inj loaded)
    exact ⟨plain, rfl⟩
  · obtain ⟨⟨w, l⟩, done, made⟩ := Except.exists_ok_of_bind loaded
    obtain ⟨rfl, rfl⟩ := Prod.mk.inj (Except.ok.inj made)
    have sound : Loading.IsSound ⟨s, g.nodes, [], []⟩ := ⟨plain, List.forall_mem_nil _⟩
    obtain ⟨sound', -, fits⟩ := Loading.yields_root _ sound (Nat.zero_le _) w l done
    exact ⟨sound'.store, fits⟩

end SwaggerDoc
