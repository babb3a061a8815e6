import Mathlib.Algebra.Ring.Nat
import Mathlib.Data.List.Nodup
import ClassDiagram.Proofs.Parts

/-! # Models under any operations

A model comes from the empty one by operations: classes, edges, notes and members are added, other
models are merged in, texts are read, and sometimes all is cleared.  After any of them the classes
are well-formed and the counts agree with what is listed; and all but the last one only add, behind
what is there.

* `Model.Grows`: nothing is taken away and nothing moves;
* `Model.grows_after`, `Model.grows_foldl`: what one operation and many add;
* `Model.WellFormed.nodup_edges`: each pair of a child and a parent has one edge;
* `Model.replay_coherent`: models after any operations.
-/

namespace ClassDiagram

/-! ## Growth -/

/-- The class has at least what it had before: members, tags and parents are added behind the old
ones, and only kinds of parents may change. -/
structure Class.Grows (c c' : Class) : Prop where
  name : c'.name = c.name
  members : c.members <+: c'.members
  tags : c.tags.items <+: c'.tags.items
  parents : c.parents.keys <+: c'.parents.keys

namespace Class

variable {c c' c'' : Class}

theorem Grows.refl (c : Class) : c.Grows c :=
  ⟨rfl, List.prefix_refl _, List.prefix_refl _, List.prefix_refl _⟩

theorem Grows.trans (h : c.Grows c') (h' : c'.Grows c'') : c.Grows c'' :=
  ⟨h'.name.trans h.name, h.members.trans h'.members, h.tags.trans h'.tags,
    h.parents.trans h'.parents⟩

theorem grows_merge (c other : Class) : c.Grows (c.merge other) :=
  ⟨rfl, List.prefix_append _ _, OrderedSet.items_prefix_insertAll _ _,
    OrderedMap.keys_prefix_extend _ _⟩

theorem grows_addMember (c : Class) (m : Member) : c.Grows (c.addMember m) :=
  ⟨rfl, List.prefix_append _ _, List.prefix_refl _, List.prefix_refl _⟩

theorem grows_addParent (c : Class) (parent : String) (kind : RelationKind) :
    c.Grows (c.addParent parent kind) :=
  ⟨rfl, List.prefix_refl _, List.prefix_refl _, OrderedMap.keys_prefix_alter _ _ _ _⟩

end Class

/-- The model has at least what it had before: new classes and notes come behind the old ones, and
the classes that were there have grown. -/
structure Model.Grows (m m' : Model) : Prop where
  names : m.names <+: m'.names
  classes : ∀ name c, m.get? name = some c → ∃ c', m'.get? name = some c' ∧ c.Grows c'
  notes : m.notes <+: m'.notes

namespace Model

variable {m m' m'' : Model}

theorem Grows.refl (m : Model) : m.Grows m :=
  ⟨List.prefix_refl _, fun _ c hc => ⟨c, hc, .refl c⟩, List.prefix_refl _⟩

theorem Grows.trans (h : m.Grows m') (h' : m'.Grows m'') : m.Grows m'' := by
  refine ⟨h.names.trans h'.names, fun name c hc => ?_, h.notes.trans h'.notes⟩
  obtain ⟨c', hc', hgrows⟩ := h.classes name c hc
  obtain ⟨c'', hc'', hgrows'⟩ := h'.classes name c' hc'
  exact ⟨c'', hc'', hgrows.trans hgrows'⟩

/-- A class that is changed may only grow; a new one goes to the end. -/
theorem grows_alter (m : Model) (name : String) (fresh : Class) {change : Class → Class}
    (h : ∀ c : Class, c.Grows (change c)) :
    m.Grows { m with classes := m.classes.alter name fresh change } where
  names := OrderedMap.keys_prefix_alter _ _ _ _
  classes k c hc := by
    have hget : m.classes.get? k = some c := hc
    show ∃ c', (m.classes.alter name fresh change).get? k = some c' ∧ c.Grows c'
    rw [OrderedMap.get?_alter]
    by_cases hk : k = name
    · subst hk
      exact ⟨change c, by rw [if_pos rfl, hget, Option.elim_some], h c⟩
    · exact ⟨c, by rw [if_neg hk, hget], .refl c⟩
  notes := List.prefix_refl _

theorem grows_addClass (m : Model) (c : Class) : m.Grows (m.addClass c) :=
  m.grows_alter c.name c fun d => d.grows_merge c

theorem grows_changeClass (m : Model) (name : String) {change : Class → Class}
    (h : ∀ c : Class, c.Grows (change c)) : m.Grows (m.changeClass name change) :=
  m.grows_alter name _ h

theorem grows_ensureClass (m : Model) (name : String) : m.Grows (m.ensureClass name) :=
  m.grows_changeClass name .refl

theorem grows_addEdge (m : Model) (e : Edge) : m.Grows (m.addEdge e) :=
  (m.grows_ensureClass e.parent).trans
    (grows_changeClass _ e.child fun c => c.grows_addParent e.parent e.kind)

theorem grows_addNote (m : Model) (n : Note) : m.Grows (m.addNote n) :=
  ⟨List.prefix_refl _, (Grows.refl m).classes, List.prefix_append _ _⟩

theorem grows_addMember (m : Model) (name : String) (member : Member) :
    m.Grows (m.addMember name member) where
  names := by
    have hsame : (m.addMember name member).names = m.names := OrderedMap.keys_modify ..
    exact hsame ▸ List.prefix_refl _
  classes k c hc := by
    have hget : (m.addMember name member).get? k = _ := OrderedMap.get?_modify ..
    rw [hget, show m.classes.get? k = some c from hc]
    by_cases hk : k = name
    · exact ⟨c.addMember member, by rw [Option.map_some, if_pos hk], c.grows_addMember member⟩
    · exact ⟨c, by rw [Option.map_some, if_neg hk], .refl c⟩
  notes := List.prefix_refl _

theorem grows_addClasses (m : Model) (cs : List Class) : m.Grows (cs.foldl addClass m) := by
  induction cs generalizing m with
  | nil => exact .refl m
  | cons c cs ih => exact (m.grows_addClass c).trans (ih (m.addClass c))

theorem grows_merge (m other : Model) : m.Grows (m.merge other) := by
  have hjoined := m.grows_addClasses other.classes.values
  exact ⟨hjoined.names, hjoined.classes, hjoined.notes.trans (List.prefix_append _ _)⟩

theorem grows_absorbed (m : Model) (text : String) : m.Grows (m.absorbed text) := by
  rw [absorbed, absorb]
  cases ofText text with
  | error _ => exact .refl m
  | ok other => exact m.grows_merge other

/-! ## Operations -/

/-- An operation on models.  The classes that come in have no tag and no parent twice; of a model
that is merged in nothing else is asked. -/
inductive Operation where
  | addClass (c : Class) (h : c.WellFormed)
  | addEdge (e : Edge)
  | addNote (n : Note)
  | ensureClass (name : String)
  | addMember (name : String) (member : Member)
  | merge (other : Model) (h : ∀ c ∈ other.classes.values, c.WellFormed)
  | absorb (text : String)
  | clear

/-- The model after an operation; a text that is refused leaves it as it was. -/
def after (m : Model) : Operation → Model
  | .addClass c _ => m.addClass c
  | .addEdge e => m.addEdge e
  | .addNote n => m.addNote n
  | .ensureClass name => m.ensureClass name
  | .addMember name member => m.addMember name member
  | .merge other _ => m.merge other
  | .absorb text => m.absorbed text
  | .clear => empty

def replay (ops : List Operation) : Model := ops.foldl after empty

theorem grows_after (m : Model) {op : Operation} (h : op ≠ .clear) : m.Grows (m.after op) := by
  cases op with
  | addClass c _ => exact m.grows_addClass c
  | addEdge e => exact m.grows_addEdge e
  | addNote n => exact m.grows_addNote n
  | ensureClass name => exact m.grows_ensureClass name
  | addMember name member => exact m.grows_addMember name member
  | merge other _ => exact m.grows_merge other
  | absorb text => exact m.grows_absorbed text
  | clear => exact absurd rfl h

theorem grows_foldl (m : Model) {ops : List Operation} (h : ∀ op ∈ ops, op ≠ .clear) :
    m.Grows (ops.foldl after m) := by
  induction ops generalizing m with
  | nil => exact .refl m
  | cons op ops ih =>
    obtain ⟨hop, hops⟩ := List.forall_mem_cons.1 h
    exact (m.grows_after hop).trans (ih (m.after op) hops)

/-! ## Well-formed models -/

namespace WellFormed

theorem absorbed (h : m.WellFormed) (text : String) : (m.absorbed text).WellFormed := by
  rw [Model.absorbed, absorb]
  cases htext : ofText text with
  | error _ => exact h
  | ok other => exact h.merge (canonical_of_ofText htext).1

theorem after (h : m.WellFormed) (op : Operation) : (m.after op).WellFormed := by
  cases op with
  | addClass _ hc => exact h.addClass hc
  | addEdge e => exact h.addEdge e
  | addNote n => exact h.addNote n
  | ensureClass name => exact h.ensureClass name
  | addMember name member => exact h.addMember name member
  | merge _ hother => exact h.merge_of_values hother
  | absorb text => exact h.absorbed text
  | clear => exact wellFormed_empty

theorem foldl_after (h : m.WellFormed) (ops : List Operation) :
    (ops.foldl Model.after m).WellFormed := by
  induction ops generalizing m with
  | nil => exact h
  | cons op ops ih => exact ih (h.after op)

theorem replay (ops : List Operation) : (replay ops).WellFormed :=
  wellFormed_empty.foldl_after ops

/-- A child and a parent are joined by one edge only. -/
theorem nodup_edges (h : m.WellFormed) : (m.edges.map fun e => (e.child, e.parent)).Nodup := by
  have hpairs : m.edges.map (fun e => (e.child, e.parent))
      = m.classes.values.flatMap fun c => c.parents.keys.map fun p => (c.name, p) := by
    simp [edges, OrderedMap.keys, List.map_flatMap, Function.comp_def]
  rw [hpairs, List.nodup_flatMap]
  constructor
  · intro c hc
    have hparents := (h.classes c.name c (h.mem_values_iff.1 hc)).parents
    exact hparents.map fun p q hpq => (Prod.mk.inj hpq).2
  · have hnames : m.classes.values.Pairwise fun c d => c.name ≠ d.name := by
      rw [← List.pairwise_map, h.map_name_values]
      exact h.distinct
    -- the pairs of two classes differ in the child
    refine hnames.imp fun {c d} hcd pair hc hd => ?_
    obtain ⟨p, _, rfl⟩ := List.mem_map.1 hc
    obtain ⟨q, _, hpq⟩ := List.mem_map.1 hd
    exact hcd (Prod.mk.inj hpq).1.symm

end WellFormed

/-! ## Models after any operations -/

theorem length_values (m : Model) : m.classes.values.length = m.classCount :=
  List.length_map ..

theorem edgeCount_eq_sum (m : Model) :
    m.edgeCount = (m.classes.values.map fun c => c.parents.size).sum := by
  rw [edgeCount, List.length_flatMap]
  rfl

theorem isEmpty_iff (m : Model) : m.isEmpty = true ↔ m.names = [] ∧ m.notes = [] := by
  simp [isEmpty, names, OrderedMap.keys]

/-- After any operations the classes have distinct names and are kept under them; the counts agree
with what is listed, where no edge comes twice; and whatever is done next, as long as it is not
cleared, the model grows. -/
theorem replay_coherent (ops : List Operation) :
    ((replay ops).names.Nodup ∧
        ∀ name c, (name, c) ∈ (replay ops).classes.entries → c.name = name) ∧
      ((replay ops).classCount = (replay ops).names.length ∧
        (replay ops).classCount = (replay ops).classes.values.length) ∧
      (((replay ops).edges.map fun e => (e.child, e.parent)).Nodup ∧
        (replay ops).edgeCount = (replay ops).edges.length ∧
        (replay ops).edgeCount = ((replay ops).classes.values.map fun c => c.parents.size).sum) ∧
      ((replay ops).isEmpty = true ↔ (replay ops).names = [] ∧ (replay ops).notes = []) ∧
      ∀ later : List Operation, (∀ op ∈ later, op ≠ .clear) →
        (replay ops).Grows (replay (ops ++ later)) := by
  have hwell := WellFormed.replay ops
  refine ⟨⟨hwell.distinct, fun name c hc => ?_⟩, ⟨?_, (length_values _).symm⟩,
    ⟨hwell.nodup_edges, (length_edges _).symm, edgeCount_eq_sum _⟩, isEmpty_iff _, ?_⟩
  · exact hwell.named name c ((OrderedMap.mem_entries_iff hwell.distinct).1 hc)
  · exact (List.length_map ..).symm
  · intro later hlater
    rw [replay, replay, List.foldl_append]
    exact grows_foldl _ hlater

/-- An edge, a text that is refused, a member of a class that is there and one of a class that is
not, and a note. -/
def draft : List Operation :=
  [.addEdge ⟨"Dog", "Animal", .inherits⟩, .absorb "classDiagram\nclass",
    .addMember "Dog" (.field { name := "age" }), .addMember "Cat" (.field { name := "lives" }),
    .addNote ⟨some "Dog", "barks"⟩]

/-- The same edge with another kind, a text with a new class, and a class that is there. -/
def revision : List Operation :=
  [.addEdge ⟨"Dog", "Animal", .implements⟩, .absorb "classDiagram\nPet <|-- Dog",
    .addClass { name := "Dog", members := [.method { name := "bark" }] }
      ⟨.nil, .nil⟩]

theorem replay_revision :
    (replay draft).names = ["Animal", "Dog"] ∧
      (replay draft).get? "Dog"
        = some ⟨"Dog", [.field { name := "age" }], ⟨[]⟩, ⟨[("Animal", .inherits)]⟩⟩ ∧
      (∀ op ∈ revision, op ≠ .clear) ∧
      (replay draft).Grows (replay (draft ++ revision)) ∧
      (replay (draft ++ revision)).edges
        = [⟨"Dog", "Animal", .implements⟩, ⟨"Dog", "Pet", .inherits⟩] := by
  have hkept : ∀ op ∈ revision, op ≠ .clear := by simp [revision]
  obtain ⟨_, _, _, _, hgrows⟩ := replay_coherent draft
  exact ⟨by decide +kernel, by decide +kernel, hkept, hgrows revision hkept, by decide +kernel⟩

end Model

end ClassDiagram
