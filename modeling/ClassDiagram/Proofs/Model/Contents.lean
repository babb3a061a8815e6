import ClassDiagram.Proofs.Model.Declared

/-! # What a built model holds

Statements come in any order, members name their owners themselves, and edges are attached to
their children only in the end.  What is built holds all of it once: each name where it first
comes up, each member, tag, note and edge in the order of the statements.

* `Chain.mem_edges_iff`: the edges of a chain join its neighbours;
* `Model.memberCount_declared`: each member is owned by one of the names;
* `ofStatements_gathers`: what a model holds, class by class, and how much it is.
-/

namespace ClassDiagram

/-! ## Edges of chains -/

namespace Chain

/-- Two neighbours in a chain with the operator between them. -/
def Joins (c : Chain) (left : String) (op : RelationOp) (right : String) : Prop :=
  ∃ i : Nat, c.operands[i]? = some left ∧ c.links[i]? = some (op, right)

/-- Each operator makes an edge of the name before it and the name behind it. -/
theorem edges_eq_zipWith (c : Chain) :
    c.edges = List.zipWith (fun left link => link.1.edge left link.2) c.operands c.links := by
  have key : ∀ (links : List (RelationOp × String)) (left : String), edgesFrom left links
      = List.zipWith (fun left link => link.1.edge left link.2) (left :: links.map Prod.snd)
          links := by
    intro links
    induction links with
    | nil => exact fun _ => rfl
    | cons link rest ih =>
      intro left
      rw [edgesFrom, ih, List.map_cons, List.zipWith_cons_cons]
  exact key c.links c.head

theorem mem_edges_iff {c : Chain} {e : Edge} :
    e ∈ c.edges ↔ ∃ left op right, c.Joins left op right ∧ op.edge left right = e := by
  rw [edges_eq_zipWith, List.mem_iff_getElem?]
  constructor
  · rintro ⟨i, hi⟩
    obtain ⟨left, ⟨op, right⟩, hleft, hlink, rfl⟩ := List.getElem?_zipWith_eq_some.1 hi
    exact ⟨left, op, right, ⟨i, hleft, hlink⟩, rfl⟩
  · rintro ⟨left, op, right, ⟨i, hleft, hlink⟩, rfl⟩
    exact ⟨i, List.getElem?_zipWith_eq_some.2 ⟨left, (op, right), hleft, hlink, rfl⟩⟩

end Chain

/-! ## Members of statements -/

namespace Statement

/-- The members in a statement, each with its owner. -/
def members : Statement → List OwnedMember
  | .declare d => d.members
  | .member owned => [owned]
  | .annotate _ _ | .relate _ | .note _ => []

theorem membersOf_eq (name : String) (s : Statement) :
    s.membersOf name = (s.members.filter (·.owner = name)).map OwnedMember.member := by
  cases s with
  | member owned =>
    by_cases h : owned.owner = name
    · simp [membersOf, members, h]
    · simp [membersOf, members, h]
  | declare _ => rfl
  | annotate _ _ => rfl
  | relate _ => rfl
  | note _ => rfl

/-- A statement speaks of the owners of its members. -/
theorem owner_mem_names {s : Statement} {owned : OwnedMember} (h : owned ∈ s.members) :
    owned.owner ∈ s.names := by
  cases s with
  | declare d => exact List.mem_cons_of_mem _ (List.mem_map_of_mem h)
  | member owned' =>
    rw [List.mem_singleton.1 h]
    exact List.mem_singleton.2 rfl
  | annotate _ _ => cases h
  | relate _ => cases h
  | note _ => cases h

end Statement

/-- Items sorted by their keys are as many as before. -/
theorem length_flatMap_filter {α κ : Type} [DecidableEq κ] (key : α → κ) {ks : List κ}
    (hks : ks.Nodup) {xs : List α} (h : ∀ x ∈ xs, key x ∈ ks) :
    (ks.flatMap fun k => xs.filter (key · = k)).length = xs.length := by
  induction ks generalizing xs with
  | nil =>
    have hnil : xs = [] := List.eq_nil_iff_forall_not_mem.2 fun x hx => nomatch h x hx
    rw [hnil]
    rfl
  | cons k ks ih =>
    obtain ⟨hk, hks⟩ := List.nodup_cons.1 hks
    have hothers : ∀ x ∈ xs.filter (key · ≠ k), key x ∈ ks := by
      intro x hx
      obtain ⟨hx, hne⟩ := List.mem_filter.1 hx
      exact (List.mem_cons.1 (h x hx)).resolve_left (of_decide_eq_true hne)
    have hsame : ks.flatMap (fun j => xs.filter (key · = j))
        = ks.flatMap fun j => (xs.filter (key · ≠ k)).filter (key · = j) := by
      refine congrArg List.flatten (List.map_congr_left fun j hj => ?_)
      have hjk : j ≠ k := by
        rintro rfl
        exact hk hj
      rw [List.filter_filter]
      refine List.filter_congr fun x _ => ?_
      by_cases hx : key x = j <;> simp [hx, hjk]
    have hsplit := List.length_eq_countP_add_countP (key · = k) (l := xs)
    rw [List.flatMap_cons, List.length_append, hsame, ih hks hothers, hsplit,
      List.countP_eq_length_filter, List.countP_eq_length_filter]
    simp

/-- Each member is owned by one of the names. -/
theorem Model.memberCount_declared (ss : List Statement) :
    (declared ss).memberCount = (ss.flatMap Statement.members).length := by
  have howners : ∀ owned ∈ ss.flatMap Statement.members,
      owned.owner ∈ (OrderedSet.ofList (ss.flatMap Statement.names)).items := by
    intro owned h
    obtain ⟨s, hs, h⟩ := List.mem_flatMap.1 h
    exact OrderedSet.mem_ofList.2 (List.mem_flatMap.2 ⟨s, hs, s.owner_mem_names h⟩)
  have hlength := length_flatMap_filter OwnedMember.owner (OrderedSet.nodup_ofList _) howners
  have hmembers : (declared ss).classes.values.flatMap (·.members)
      = ((OrderedSet.ofList (ss.flatMap Statement.names)).items.flatMap fun name =>
          (ss.flatMap Statement.members).filter (·.owner = name)).map OwnedMember.member := by
    rw [declared, OrderedMap.values, OrderedMap.tabulate, List.map_map, List.flatMap_map,
      List.map_flatMap]
    refine congrArg List.flatten (List.map_congr_left fun name _ => ?_)
    simp [Class.declared, Statement.membersOf_eq, List.filter_flatMap, List.map_flatMap]
  rw [memberCount, hmembers, List.length_map, hlength]

/-! ## What is gathered -/

/-- The class of a name, with all that statements give to it and nothing else. -/
structure Class.Gathered (ss : List Statement) (name : String) (c : Class) : Prop where
  name_eq : c.name = name
  members : c.members
    = ((ss.flatMap Statement.members).filter (·.owner = name)).map OwnedMember.member
  tags : c.tags.items = (ss.flatMap (Statement.tagsOf name)).eraseDups
  mem_parents : ∀ p, p ∈ c.parents.keys ↔ ∃ chain left op right,
    .relate chain ∈ ss ∧ chain.Joins left op right ∧
      (op.edge left right).child = name ∧ (op.edge left right).parent = p
  parents : c.parents.keys
    = (((ss.flatMap Statement.edges).filter (·.child = name)).map Edge.parent).eraseDups
  kind : ∀ p, c.parents.get? p
    = ((ss.flatMap Statement.edges).filter fun e => e.child = name ∧ e.parent = p).getLast?.map
        Edge.kind

theorem Statement.mem_flatMap_edges {ss : List Statement} {e : Edge} :
    e ∈ ss.flatMap Statement.edges ↔ ∃ chain left op right,
      .relate chain ∈ ss ∧ chain.Joins left op right ∧ op.edge left right = e := by
  rw [List.mem_flatMap]
  constructor
  · rintro ⟨s, hs, he⟩
    cases s with
    | relate chain =>
      obtain ⟨left, op, right, hjoins, he⟩ := Chain.mem_edges_iff.1 he
      exact ⟨chain, left, op, right, hs, hjoins, he⟩
    | declare _ => cases he
    | annotate _ _ => cases he
    | member _ => cases he
    | note _ => cases he
  · rintro ⟨chain, left, op, right, hs, hjoins, he⟩
    exact ⟨_, hs, Chain.mem_edges_iff.2 ⟨left, op, right, hjoins, he⟩⟩

/-- A class is declared with all that statements give to it. -/
theorem Class.gathered_declared (ss : List Statement) (name : String) :
    (Class.declared ss name).Gathered ss name := by
  have hkeys : (Class.declared ss name).parents.keys
      = (((ss.flatMap Statement.edges).filter (·.child = name)).map Edge.parent).eraseDups := by
    rw [declared, OrderedMap.keys_ofList, OrderedSet.items_ofList, List.map_map]
    rfl
  refine ⟨rfl, ?_, OrderedSet.items_ofList _, ?_, hkeys, ?_⟩
  · simp [Class.declared, Statement.membersOf_eq, List.filter_flatMap, List.map_flatMap]
  · intro p
    rw [hkeys, List.mem_eraseDups, List.mem_map]
    constructor
    · rintro ⟨e, he, rfl⟩
      obtain ⟨he, hchild⟩ := List.mem_filter.1 he
      obtain ⟨chain, left, op, right, hs, hjoins, rfl⟩ := Statement.mem_flatMap_edges.1 he
      exact ⟨chain, left, op, right, hs, hjoins, of_decide_eq_true hchild, rfl⟩
    · rintro ⟨chain, left, op, right, hs, hjoins, hchild, hparent⟩
      have he := Statement.mem_flatMap_edges.2 ⟨chain, left, op, right, hs, hjoins, rfl⟩
      exact ⟨_, List.mem_filter.2 ⟨he, decide_eq_true hchild⟩, hparent⟩
  · intro p
    rw [declared, OrderedMap.get?_ofList, OrderedMap.lastValue, List.filter_map,
      List.getLast?_map, Option.map_map, List.filter_filter]
    simp only [Function.comp_def, Bool.decide_and, Bool.and_comm]

/-- A model that is built holds what the statements say, each thing once: the names in the order
in which they first come up, and of each class all its members, tags and edges; so it holds as
many members and notes as there are in the statements. -/
theorem ofStatements_gathers {ss : List Statement} {m : Model} (h : Model.ofStatements ss = .ok m) :
    m.names = (ss.flatMap Statement.names).eraseDups ∧
      (∀ name ∈ m.names, ∃ c, m.get? name = some c ∧ c.Gathered ss name) ∧
      m.notes = ss.flatMap Statement.notes ∧
      m.summary.members = (ss.flatMap Statement.members).length ∧
      m.summary.notes = (ss.flatMap Statement.notes).length := by
  obtain ⟨_, rfl⟩ := Model.ofStatements_eq_ok_iff.1 h
  have hnames := Model.names_declared ss
  refine ⟨hnames.trans (OrderedSet.items_ofList _), ?_, rfl, Model.memberCount_declared ss, rfl⟩
  intro name hname
  rw [hnames, OrderedSet.mem_ofList] at hname
  exact ⟨Class.declared ss name, by rw [Model.get?_declared, if_pos hname],
    Class.gathered_declared ss name⟩

/-- A member of another class in a block, a tag given twice, an edge that is declared again, and a
note about a class of which nothing else is said. -/
def farm : List Statement :=
  [.declare {
      name := "Dog"
      tags := ["final", "final"]
      members := [⟨"Dog", .field { name := "age" }⟩, ⟨"Cat", .field { name := "lives" }⟩] },
    .relate {
      head := "Dog"
      links := [(.inheritsRight, "Animal"), (.inheritsLeft, "Cat")]
      label := none },
    .relate { head := "Dog", links := [(.realizesRight, "Animal")], label := none },
    .note ⟨some "Farm", "of animals"⟩]

theorem ofStatements_gathers_farm :
    ∃ m, Model.ofStatements farm = .ok m ∧ m.names = ["Dog", "Cat", "Animal", "Farm"] ∧
      (∃ c, m.get? "Dog" = some c ∧ c.tags.items = ["final"] ∧
        c.parents.get? "Animal" = some .implements) ∧
      m.summary.members = 2 ∧ m.summary.notes = 1 := by
  have hbuilt : Model.ofStatements farm = .ok (Model.declared farm) := by rfl
  obtain ⟨hnames, hclasses, _, hmembers, hnotes⟩ := ofStatements_gathers hbuilt
  obtain ⟨c, hc, hgathered⟩ := hclasses "Dog" (by decide)
  have hkind := hgathered.kind "Animal"
  exact ⟨_, hbuilt, hnames, ⟨c, hc, hgathered.tags, hkind⟩, hmembers, hnotes⟩

end ClassDiagram
