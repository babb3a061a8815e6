import ClassDiagram.Proofs.Model.Building

/-! # What statements declare

The classes of the model of some statements are those that the statements speak of, in the order
in which the names come up.  A class has the members and tags that any of them gives to it, and
the parents of the edges that leave it.

* `Model.declared`: the model that statements speak of;
* `Model.ofStatements_eq_ok_iff`: it is built just when all names are not blank.
-/

namespace ClassDiagram

namespace Statement

def names : Statement → List String
  | .declare d => d.name :: d.members.map OwnedMember.owner
  | .annotate _ owner => [owner]
  | .member owned => [owned.owner]
  | .relate chain => chain.operands
  | .note n => n.target.toList

def membersOf (name : String) : Statement → List Member
  | .declare d => (d.members.filter (·.owner = name)).map OwnedMember.member
  | .member owned => if owned.owner = name then [owned.member] else []
  | .annotate _ _ | .relate _ | .note _ => []

def tagsOf (name : String) : Statement → List String
  | .declare d => if d.name = name then d.tags else []
  | .annotate tag owner => if owner = name then [tag] else []
  | .member _ | .relate _ | .note _ => []

theorem map_name_writes (s : Statement) : s.writes.map Write.name = s.names := by
  cases s <;> simp [writes, names, Write.ofTag, Write.ofMember, Function.comp_def]

/-- A statement is named when no class that it speaks of has a blank name. -/
theorem named_iff {s : Statement} : s.Named ↔ ∀ name ∈ s.names, Text.isBlankText name = false := by
  rw [← map_name_writes, List.forall_mem_map]
  simp [Named, AllNamed, Write.isNamed]

/-- Mentions give a class nothing. -/
theorem flatMap_mentions {α : Type} {f : Write → List α} (hf : ∀ name, f { name } = [])
    (names : List String) (p : Write → Bool) :
    ((names.map fun name => ({ name } : Write)).filter p).flatMap f = [] := by
  rw [List.flatMap_eq_nil_iff]
  intro w hw
  obtain ⟨name, _, rfl⟩ := List.mem_map.1 (List.mem_filter.1 hw).1
  exact hf name

theorem members_writes (s : Statement) (name : String) :
    (s.writes.filter (·.name = name)).flatMap Write.members = s.membersOf name := by
  have hbody : ∀ members : List OwnedMember,
      ((members.map Write.ofMember).filter (·.name = name)).flatMap Write.members
        = (members.filter (·.owner = name)).map OwnedMember.member := by
    intro members
    induction members with
    | nil => rfl
    | cons owned members ih =>
      by_cases h : owned.owner = name
      · simpa [Write.ofMember, h] using ih
      · simpa [Write.ofMember, h] using ih
  cases s with
  | declare d =>
    have hd := hbody d.members
    by_cases h : d.name = name
    · simpa [writes, membersOf, h] using hd
    · simpa [writes, membersOf, h] using hd
  | annotate tag owner =>
    by_cases h : owner = name
    · simp [writes, membersOf, Write.ofTag, h]
    · simp [writes, membersOf, Write.ofTag, h]
  | member owned =>
    by_cases h : owned.owner = name
    · simp [writes, membersOf, Write.ofMember, h]
    · simp [writes, membersOf, Write.ofMember, h]
  | relate chain => exact flatMap_mentions (fun _ => rfl) chain.operands _
  | note n => exact flatMap_mentions (fun _ => rfl) n.target.toList _

theorem tags_writes (s : Statement) (name : String) :
    (s.writes.filter (·.name = name)).flatMap Write.tags = s.tagsOf name := by
  have hbody : ∀ members : List OwnedMember,
      ((members.map Write.ofMember).filter (·.name = name)).flatMap Write.tags = [] := by
    intro members
    rw [List.flatMap_eq_nil_iff]
    intro w hw
    obtain ⟨owned, _, rfl⟩ := List.mem_map.1 (List.mem_filter.1 hw).1
    rfl
  cases s with
  | declare d =>
    have hd := hbody d.members
    by_cases h : d.name = name
    · simpa [writes, tagsOf, h] using hd
    · simpa [writes, tagsOf, h] using hd
  | annotate tag owner =>
    by_cases h : owner = name
    · simp [writes, tagsOf, Write.ofTag, h]
    · simp [writes, tagsOf, Write.ofTag, h]
  | member owned => exact hbody [owned]
  | relate chain => exact flatMap_mentions (fun _ => rfl) chain.operands _
  | note n => exact flatMap_mentions (fun _ => rfl) n.target.toList _

end Statement

/-- A chain speaks of both ends of each of its edges. -/
theorem Chain.mem_operands {c : Chain} {e : Edge} (h : e ∈ c.edges) :
    e.child ∈ c.operands ∧ e.parent ∈ c.operands := by
  have key : ∀ (links : List (RelationOp × String)) (left : String), e ∈ edgesFrom left links →
      e.child ∈ left :: links.map Prod.snd ∧ e.parent ∈ left :: links.map Prod.snd := by
    intro links
    induction links with
    | nil => exact nofun
    | cons link rest ih =>
      intro left h
      obtain ⟨op, right⟩ := link
      rcases List.mem_cons.1 h with rfl | h
      · cases op <;> simp [RelationOp.edge]
      · obtain ⟨hchild, hparent⟩ := ih right h
        exact ⟨List.mem_cons_of_mem _ hchild, List.mem_cons_of_mem _ hparent⟩
  exact key c.links c.head h

theorem Statement.mem_names_of_edge {s : Statement} {e : Edge} (h : e ∈ s.edges) :
    e.child ∈ s.names ∧ e.parent ∈ s.names := by
  cases s with
  | relate chain => exact Chain.mem_operands h
  | declare _ => cases h
  | annotate _ _ => cases h
  | member _ => cases h
  | note _ => cases h

/-- A statement speaks of the target of its note. -/
theorem Statement.target_mem_names {s : Statement} {n : Note} (hn : n ∈ s.notes) {t : String}
    (ht : t ∈ n.target.toList) : t ∈ s.names := by
  cases s with
  | note n' =>
    rw [List.mem_singleton.1 hn] at ht
    exact ht
  | declare _ => cases hn
  | annotate _ _ => cases hn
  | member _ => cases hn
  | relate _ => cases hn

def Class.declared (ss : List Statement) (name : String) : Class :=
  { name
    members := ss.flatMap (·.membersOf name)
    tags := .ofList (ss.flatMap (·.tagsOf name))
    parents := .ofList (((ss.flatMap Statement.edges).filter (·.child = name)).map fun e =>
      (e.parent, e.kind)) }

/-- The model that statements speak of. -/
def Model.declared (ss : List Statement) : Model :=
  { classes := .tabulate (OrderedSet.ofList (ss.flatMap Statement.names)).items (Class.declared ss)
    notes := ss.flatMap Statement.notes }

theorem Class.written_eq_declared (ss : List Statement) (name : String) :
    Class.written (ss.flatMap Statement.writes) (ss.flatMap Statement.edges) name
      = Class.declared ss name := by
  simp only [written, declared, List.filter_flatMap, List.flatMap_assoc, Statement.members_writes,
    Statement.tags_writes]

/-- Statements speak of the parents that they declare. -/
theorem Class.parent_mem_names {ss : List Statement} {name p : String}
    (h : p ∈ (declared ss name).parents.keys) : p ∈ ss.flatMap Statement.names := by
  rw [declared, OrderedMap.keys_ofList, OrderedSet.mem_ofList, List.map_map, List.mem_map] at h
  obtain ⟨e, he, rfl⟩ := h
  obtain ⟨s, hs, he⟩ := List.mem_flatMap.1 (List.mem_filter.1 he).1
  exact List.mem_flatMap.2 ⟨s, hs, (Statement.mem_names_of_edge he).2⟩

namespace Model

/-- The names that a model mentions: the parents of its classes and the targets of its notes. -/
def mentioned (m : Model) : List String :=
  m.classes.values.flatMap (·.parents.keys) ++ m.notes.flatMap (·.target.toList)

theorem names_declared (ss : List Statement) :
    (declared ss).names = (OrderedSet.ofList (ss.flatMap Statement.names)).items :=
  OrderedMap.keys_tabulate _ _

theorem get?_declared (ss : List Statement) (k : String) :
    (declared ss).get? k
      = if k ∈ ss.flatMap Statement.names then some (Class.declared ss k) else none := by
  rw [get?, declared, OrderedMap.get?_tabulate]
  simp only [OrderedSet.mem_ofList]

theorem mem_values_declared {ss : List Statement} {c : Class} :
    c ∈ (declared ss).classes.values
      ↔ ∃ k ∈ ss.flatMap Statement.names, Class.declared ss k = c := by
  rw [declared, OrderedMap.values, OrderedMap.tabulate, List.map_map, List.mem_map]
  simp only [OrderedSet.mem_ofList, Function.comp_apply]

/-- All that is mentioned in a declared model is a class of it. -/
theorem mem_names_of_mentioned {ss : List Statement} {k : String}
    (h : k ∈ (declared ss).mentioned) : k ∈ (declared ss).names := by
  rw [names_declared, OrderedSet.mem_ofList]
  rcases List.mem_append.1 h with h | h
  · obtain ⟨c, hc, hk⟩ := List.mem_flatMap.1 h
    obtain ⟨_, _, rfl⟩ := mem_values_declared.1 hc
    exact Class.parent_mem_names hk
  · obtain ⟨n, hn, hk⟩ := List.mem_flatMap.1 h
    obtain ⟨s, hs, hn⟩ := List.mem_flatMap.1 hn
    exact List.mem_flatMap.2 ⟨s, hs, s.target_mem_names hn hk⟩

/-- Statements that all have names build the model that they speak of. -/
theorem ofStatements_of_named {ss : List Statement} (h : ∀ s ∈ ss, s.Named) :
    ofStatements ss = .ok (declared ss) := by
  obtain ⟨hfault, hbuilder⟩ := Builder.empty.visitAll_spec ss
  have hok : ofStatements ss = .ok (Builder.empty.visitAll ss).builder.finish := by
    simp only [ofStatements, hfault.2 h]
  have hnames : (ss.flatMap Statement.writes).map Write.name = ss.flatMap Statement.names := by
    rw [List.map_flatMap]
    simp only [Statement.map_name_writes]
  have hends : ∀ e ∈ ss.flatMap Statement.edges,
      e.child ∈ (ss.flatMap Statement.writes).map Write.name := by
    intro e he
    obtain ⟨s, hs, he⟩ := List.mem_flatMap.1 he
    rw [hnames, List.mem_flatMap]
    exact ⟨s, hs, (Statement.mem_names_of_edge he).1⟩
  rw [hok, hbuilder h, Builder.finish_add_empty _ _ _ hends, hnames,
    funext (Class.written_eq_declared ss)]
  rfl

/-- Statements build a model just when they all have names. -/
theorem ofStatements_eq_ok_iff {ss : List Statement} {m : Model} :
    ofStatements ss = .ok m ↔ (∀ s ∈ ss, s.Named) ∧ m = declared ss := by
  constructor
  · intro h
    have hnamed : ∀ s ∈ ss, s.Named := by
      apply (Builder.empty.visitAll_spec ss).1.1
      cases hfault : (Builder.empty.visitAll ss).fault with
      | none => rfl
      | some fault => simp [ofStatements, hfault] at h
    rw [ofStatements_of_named hnamed] at h
    cases h
    exact ⟨hnamed, rfl⟩
  · rintro ⟨hnamed, rfl⟩
    exact ofStatements_of_named hnamed

end Model

end ClassDiagram
