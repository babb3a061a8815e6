import ClassDiagram.Proofs.Layout.Canonical

/-! # Reading the canonical layout back

The lines of a class give it its tags, members and parents again, and they mention the parents.
So every class is built as it was, and each parent or target of a note that is no class becomes
an empty one.  Only the order of the classes may change.

* `Layout.names_statements`: the classes that the layout speaks of, in order;
* `Layout.declared_statements`: what it says of each of them;
* `ofText_layout`: the layout of a canonical model is accepted, and gives what its lines say;
* `ofText_layout_completed`: this is the completed model.
-/

namespace ClassDiagram

/-- The names of a model as they come up in its layout: each class in front of its parents, then
the targets of the notes. -/
def Model.walk (m : Model) : List String :=
  m.classes.values.flatMap (fun c => c.name :: c.parents.keys) ++ m.notes.flatMap (·.target.toList)

namespace Layout

section

variable {α : Type} (f : Statement → List α)

theorem flatMap_nothing {β : Type} (xs : List β) : (xs.flatMap fun _ => ([] : List α)) = [] :=
  List.flatMap_eq_nil_iff.2 fun _ _ => rfl

theorem flatMap_classStatements (c : Class) :
    (classStatements c).flatMap f
      = f (.declare (Grammar.declarationOf c.name []))
        ++ c.tags.items.flatMap (fun tag => f (.annotate tag c.name))
        ++ c.members.flatMap (fun m => f (.member ⟨c.name, m⟩))
        ++ c.parents.entries.flatMap fun e => f (parentStatement c.name e) := by
  simp [classStatements, List.flatMap_map]

theorem flatMap_statements (m : Model) :
    (statements m).flatMap f
      = m.classes.values.flatMap (fun c => (classStatements c).flatMap f)
        ++ m.notes.flatMap fun n => f (.note n) := by
  simp [statements, List.flatMap_assoc, List.flatMap_map]

end

/-! ## The order of names -/

theorem insertAll_names_parent {s : OrderedSet String} {child : String} (h : child ∈ s.items)
    (edge : String × RelationKind) :
    s.insertAll (parentStatement child edge).names = s.insert edge.1 := by
  obtain ⟨parent, kind⟩ := edge
  cases kind with
  | inherits =>
    show (s.insert parent).insert child = _
    exact OrderedSet.insert_of_mem ((s.mem_insert parent child).2 (.inl h))
  | implements =>
    show (s.insert child).insert parent = _
    rw [OrderedSet.insert_of_mem h]

theorem insertAll_names_parents {s : OrderedSet String} {child : String} (h : child ∈ s.items)
    (edges : List (String × RelationKind)) :
    s.insertAll (edges.flatMap fun e => (parentStatement child e).names)
      = s.insertAll (edges.map Prod.fst) := by
  induction edges generalizing s with
  | nil => rfl
  | cons edge edges ih =>
    rw [List.flatMap_cons, OrderedSet.insertAll_append, insertAll_names_parent h,
      ih ((s.mem_insert edge.1 child).2 (.inl h))]
    rfl

/-- The lines of a class speak of the class first and then of its parents. -/
theorem insertAll_names_class (s : OrderedSet String) (c : Class) :
    s.insertAll ((classStatements c).flatMap Statement.names)
      = s.insertAll (c.name :: c.parents.keys) := by
  have hname : c.name ∈ (s.insert c.name).items := (s.mem_insert c.name c.name).2 (.inr rfl)
  have hagain : ∀ {β : Type} (xs : List β),
      (s.insert c.name).insertAll (xs.flatMap fun _ => [c.name]) = s.insert c.name := by
    intro β xs
    apply OrderedSet.insertAll_of_subset
    intro k hk
    obtain ⟨_, _, hk⟩ := List.mem_flatMap.1 hk
    rw [List.mem_singleton.1 hk]
    exact hname
  rw [flatMap_classStatements, OrderedSet.insertAll_append, OrderedSet.insertAll_append,
    OrderedSet.insertAll_append]
  show (((s.insert c.name).insertAll (c.tags.items.flatMap fun _ => [c.name])).insertAll
    (c.members.flatMap fun _ => [c.name])).insertAll _ = _
  rw [hagain, hagain, insertAll_names_parents hname]
  rfl

/-- The layout speaks of the names of the model in the order of the walk. -/
theorem names_statements (m : Model) :
    OrderedSet.ofList ((statements m).flatMap Statement.names) = .ofList m.walk := by
  have hclasses : ∀ (cs : List Class) (s : OrderedSet String),
      s.insertAll (cs.flatMap fun c => (classStatements c).flatMap Statement.names)
        = s.insertAll (cs.flatMap fun c => c.name :: c.parents.keys) := by
    intro cs
    induction cs with
    | nil => exact fun _ => rfl
    | cons c cs ih =>
      intro s
      rw [List.flatMap_cons, OrderedSet.insertAll_append, insertAll_names_class, ih,
        ← OrderedSet.insertAll_append, List.flatMap_cons]
  rw [flatMap_statements, OrderedSet.ofList, OrderedSet.insertAll_append, hclasses,
    ← OrderedSet.insertAll_append]
  rfl

/-! ## What is said of a class -/

/-- The line of a parent adds its edge, and no member, tag or note. -/
theorem parentStatement_adds (child : String) (edge : String × RelationKind) (k : String) :
    (parentStatement child edge).membersOf k = [] ∧ (parentStatement child edge).tagsOf k = []
      ∧ (parentStatement child edge).notes = []
      ∧ (parentStatement child edge).edges = [⟨child, edge.1, edge.2⟩] := by
  obtain ⟨parent, kind⟩ := edge
  cases kind <;> exact ⟨rfl, rfl, rfl, rfl⟩

theorem members_classStatements (c : Class) (k : String) :
    (classStatements c).flatMap (·.membersOf k) = if c.name = k then c.members else [] := by
  rw [flatMap_classStatements]
  simp only [parentStatement_adds]
  by_cases h : c.name = k
  · simp [Statement.membersOf, Grammar.declarationOf, flatMap_nothing, h]
  · simp [Statement.membersOf, Grammar.declarationOf, h]

theorem tags_classStatements (c : Class) (k : String) :
    (classStatements c).flatMap (·.tagsOf k) = if c.name = k then c.tags.items else [] := by
  rw [flatMap_classStatements]
  simp only [parentStatement_adds]
  by_cases h : c.name = k
  · simp [Statement.tagsOf, Grammar.declarationOf, h]
  · simp [Statement.tagsOf, Grammar.declarationOf, h]

/-- The edges that leave `k` in the lines of a class. -/
theorem edges_classStatements (c : Class) (k : String) :
    (((classStatements c).flatMap Statement.edges).filter (·.child = k)).map
      (fun e => (e.parent, e.kind)) = if c.name = k then c.parents.entries else [] := by
  have hedges : (classStatements c).flatMap Statement.edges
      = c.parents.entries.map fun e => ⟨c.name, e.1, e.2⟩ := by
    rw [flatMap_classStatements]
    simp only [(parentStatement_adds c.name _ k).2.2.2]
    simp [Statement.edges, flatMap_nothing, List.map_eq_flatMap]
  rw [hedges]
  by_cases h : c.name = k
  · simp [List.filter_map, Function.comp_def, h]
  · simp [List.filter_map, Function.comp_def, h]

theorem notes_statements (m : Model) : (statements m).flatMap Statement.notes = m.notes := by
  have hclass : ∀ c : Class, (classStatements c).flatMap Statement.notes = [] := by
    intro c
    rw [flatMap_classStatements]
    simp only [(parentStatement_adds c.name _ c.name).2.2.1]
    simp [Statement.notes]
  rw [flatMap_statements]
  simp [hclass, Statement.notes]

/-- The layout says of a name what the model holds under it, and nothing more. -/
theorem declared_statements {m : Model} (h : m.WellFormed) (k : String) :
    Class.declared (statements m) k = (m.get? k).getD (Class.named k) := by
  have hmembers : (statements m).flatMap (·.membersOf k)
      = (m.get? k).toList.flatMap (·.members) := by
    rw [← h.flatMap_values, flatMap_statements]
    simp only [members_classStatements]
    simp [Statement.membersOf]
  have htags : (statements m).flatMap (·.tagsOf k) = (m.get? k).toList.flatMap (·.tags.items) := by
    rw [← h.flatMap_values, flatMap_statements]
    simp only [tags_classStatements]
    simp [Statement.tagsOf]
  have hedges : (((statements m).flatMap Statement.edges).filter (·.child = k)).map
      (fun e => (e.parent, e.kind)) = (m.get? k).toList.flatMap (·.parents.entries) := by
    rw [← h.flatMap_values, flatMap_statements, List.filter_append, List.map_append,
      List.filter_flatMap, List.map_flatMap]
    simp only [edges_classStatements]
    simp [Statement.edges]
  rw [Class.declared, hmembers, htags, hedges]
  cases hget : m.get? k with
  | none => rfl
  | some c =>
    have hc := h.classes k c hget
    have hname := h.named k c hget
    simp only [Option.toList_some, List.flatMap_cons, List.flatMap_nil, List.append_nil,
      Option.getD_some]
    rw [OrderedSet.ofList_items hc.tags, OrderedMap.ofList_entries hc.parents, ← hname]

end Layout

/-! ## Reading it back -/

/-- The layout of a canonical model is accepted, and read as what its lines say. -/
theorem ofText_layout {m : Model} (h : CanonicalModel m) :
    Model.ofText m.layout = .ok (Model.declared (Layout.statements m)) :=
  (ofText_of_statementsOfText (statementsOfText_layout h)).2

/-- The walk comes past the classes and what they and the notes mention. -/
theorem Model.WellFormed.mem_walk {m : Model} (h : m.WellFormed) {k : String} :
    k ∈ m.walk ↔ k ∈ m.names ∨ k ∈ m.mentioned := by
  have hname : k ∈ m.names ↔ ∃ c ∈ m.classes.values, c.name = k := by
    constructor
    · intro hk
      have hsome : m.get? k ≠ none := fun hnone => OrderedMap.get?_eq_none_iff.1 hnone hk
      obtain ⟨c, hc⟩ := Option.ne_none_iff_exists'.1 hsome
      have hck := h.named k c hc
      exact ⟨c, h.mem_values_iff.2 (by rw [hck, hc]), hck⟩
    · rintro ⟨c, hc, rfl⟩
      exact OrderedMap.mem_keys_of_get? (h.mem_values_iff.1 hc)
  rw [hname, Model.walk, Model.mentioned, List.mem_append, List.mem_append, List.mem_flatMap,
    List.mem_flatMap (l := m.classes.values)]
  constructor
  · rintro (⟨c, hc, hk⟩ | hk)
    · rcases List.mem_cons.1 hk with rfl | hk
      · exact .inl ⟨c, hc, rfl⟩
      · exact .inr (.inl ⟨c, hc, hk⟩)
    · exact .inr (.inr hk)
  · rintro (⟨c, hc, rfl⟩ | ⟨c, hc, hk⟩ | hk)
    · exact .inl ⟨c, hc, List.mem_cons_self⟩
    · exact .inl ⟨c, hc, List.mem_cons_of_mem _ hk⟩
    · exact .inr hk

/-- What the layout of a model says is the model completed. -/
theorem Model.WellFormed.get?_declared {m : Model} (h : m.WellFormed) (k : String) :
    (Model.declared (Layout.statements m)).get? k = m.completed.get? k := by
  have hwalk : k ∈ (Layout.statements m).flatMap Statement.names
      ↔ k ∈ m.names ∨ k ∈ m.mentioned := by
    rw [← OrderedSet.mem_ofList, Layout.names_statements, OrderedSet.mem_ofList, h.mem_walk]
  rw [Model.get?_declared, Layout.declared_statements h, Model.get?_completed]
  by_cases hmentioned : k ∈ m.mentioned
  · rw [if_pos (hwalk.2 (.inr hmentioned)), if_pos hmentioned]
  · rw [if_neg hmentioned]
    cases hget : m.get? k with
    | none =>
      have hnew : k ∉ m.names := OrderedMap.get?_eq_none_iff.1 hget
      rw [if_neg fun hk => (hwalk.1 hk).elim hnew hmentioned]
    | some c =>
      rw [if_pos (hwalk.2 (.inl (OrderedMap.mem_keys_of_get? hget)))]
      rfl

theorem Model.WellFormed.perm_declared {m : Model} (h : m.WellFormed) :
    (Model.declared (Layout.statements m)).classes.entries.Perm m.completed.classes.entries :=
  OrderedMap.perm_of_get? (Model.wellFormed_declared _).distinct h.completed.distinct
    h.get?_declared

/-- The layout of a canonical model is read as the model with an empty class for each parent and
each target of a note that is no class, up to the order of the classes. -/
theorem ofText_layout_completed {m : Model} (hm : m.WellFormed) (h : CanonicalModel m) :
    ∃ m', Model.ofText m.layout = .ok m' ∧
      m'.classes.entries.Perm m.completed.classes.entries ∧ m'.notes = m.completed.notes ∧
      m'.sameContent m.completed = true := by
  have hnotes : (Model.declared (Layout.statements m)).notes = m.completed.notes := by
    rw [m.completed_notes]
    exact Layout.notes_statements m
  exact ⟨_, ofText_layout h, hm.perm_declared, hnotes,
    hm.completed.sameContent_of_perm hm.perm_declared hnotes⟩

/-- A class without its parent, and a note about another one. -/
def shelf : Model :=
  { classes := ⟨[("Shelf<Item>",
      { name := "Shelf<Item>"
        members := [.method { name := "get", arguments := "int i", returnType := "Item?" }]
        tags := ⟨["final"]⟩
        parents := ⟨[("Furniture", .inherits)]⟩ })]⟩
    notes := [⟨some "Item", "not here"⟩] }

theorem shelf_wellFormed : shelf.WellFormed := by
  have hget : ∀ k c, shelf.get? k = some c → (k, c) ∈ shelf.classes.entries := fun _ _ h =>
    (OrderedMap.mem_entries_iff (by decide)).2 h
  refine ⟨by decide, ?_, ?_⟩
  · intro k c h
    obtain ⟨rfl, rfl⟩ := Prod.mk.inj (List.mem_singleton.1 (hget k c h))
    rfl
  · intro k c h
    obtain ⟨rfl, rfl⟩ := Prod.mk.inj (List.mem_singleton.1 (hget k c h))
    exact ⟨by decide, by decide⟩

theorem shelf_canonical : CanonicalModel shelf := by
  have hitem : CanonicalType "Item" := .word (by decide)
  have hname : CanonicalType "Shelf<Item>" :=
    @CanonicalType.angle "Shelf" ["Item"] [] (by decide) (by simp) (by simpa using hitem)
      (List.forall_mem_nil _)
  have hreturn : CanonicalType "Item?" :=
    @CanonicalType.bare "Item" ["?"] (by decide) (by simpa using CanonicalSuffix.nullable)
  have hargument : CanonicalArgument "int i" :=
    ⟨["int", "i"], by simp, by
      simp only [List.mem_cons, List.not_mem_nil, or_false, forall_eq_or_imp, forall_eq]
      exact ⟨.inl (.word (by decide)), .inl (.word (by decide))⟩, by decide⟩
  have harguments : CanonicalArguments "int i" := ⟨["int i"], by simpa using hargument, by decide⟩
  constructor
  · intro c hc
    rw [List.mem_singleton.1 hc]
    refine ⟨hname, ?_, ?_, ?_⟩
    · intro tag htag
      rw [List.mem_singleton.1 htag]
      decide
    · intro m hm
      rw [List.mem_singleton.1 hm]
      exact ⟨.inl (by decide), harguments, .inr hreturn⟩
    · intro p hp
      rw [List.mem_singleton.1 hp]
      exact .word (by decide)
  · intro n hn
    rw [List.mem_singleton.1 hn]
    refine ⟨?_, by simp [Quotable]⟩
    rintro _ ⟨⟩
    exact hitem

/-- The two classes that are missing are there when the layout is read. -/
theorem ofText_layout_shelf :
    ∃ m', Model.ofText shelf.layout = .ok m' ∧ m'.sameContent shelf.completed = true ∧
      shelf.completed.names = ["Shelf<Item>", "Furniture", "Item"] := by
  obtain ⟨m', hm', _, _, hsame⟩ := ofText_layout_completed shelf_wellFormed shelf_canonical
  exact ⟨m', hm', hsame, by decide⟩

end ClassDiagram
