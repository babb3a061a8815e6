import ClassDiagram.Proofs.Model.Declared

/-! # Well-formed models

Classes are kept once each, under their own names, with distinct tags and distinct parents.  All
operations on models keep it so, and what statements build is so.

* `Model.WellFormed.addClass` and the like: each operation keeps a model well-formed;
* `Model.wellFormed_declared`: what is built from statements is well-formed;
* `Model.completed`: a model with a class for every name that it mentions;
* `Model.WellFormed.sameContent_of_perm`: well-formed models with the same classes and notes have
  the same content.
-/

namespace ClassDiagram

/-! ## Classes -/

structure Class.WellFormed (c : Class) : Prop where
  tags : c.tags.items.Nodup
  parents : c.parents.keys.Nodup

namespace Class

theorem wellFormed_named (name : String) : (named name).WellFormed :=
  ⟨.nil, .nil⟩

theorem wellFormed_declared (ss : List Statement) (name : String) :
    (declared ss name).WellFormed :=
  ⟨OrderedSet.nodup_ofList _, OrderedMap.nodup_ofList _⟩

namespace WellFormed

variable {c other : Class}

theorem merge (h : c.WellFormed) : (c.merge other).WellFormed :=
  ⟨OrderedSet.nodup_insertAll h.tags _, OrderedMap.nodup_extend h.parents _⟩

theorem addMember (h : c.WellFormed) (m : Member) : (c.addMember m).WellFormed :=
  ⟨h.tags, h.parents⟩

theorem addParent (h : c.WellFormed) (parent : String) (kind : RelationKind) :
    (c.addParent parent kind).WellFormed :=
  ⟨h.tags, OrderedMap.nodup_alter h.parents _ _ _⟩

theorem sameContent_self (h : c.WellFormed) : c.sameContent c = true := by
  have htags : c.tags.agrees c.tags = true := by
    simp [OrderedSet.agrees]
  have hparents : c.parents.agrees (· == ·) c.parents = true := by
    have hfind : ∀ e ∈ c.parents.entries, c.parents.get? e.1 = some e.2 := fun _ he =>
      (OrderedMap.mem_entries_iff h.parents).1 he
    rw [OrderedMap.agrees, Bool.and_eq_true, List.all_eq_true]
    refine ⟨beq_self_eq_true _, ?_⟩
    intro e he
    rw [hfind e he]
    exact beq_self_eq_true _
  simp [sameContent, htags, hparents]

end WellFormed

end Class

/-! ## Models -/

/-- Every class is kept once, under its own name, and is well-formed. -/
structure Model.WellFormed (m : Model) : Prop where
  distinct : m.names.Nodup
  named : ∀ k c, m.get? k = some c → c.name = k
  classes : ∀ k c, m.get? k = some c → c.WellFormed

namespace Model

/-- A model is its names in order, the classes under them, and its notes. -/
theorem ext_names {m m' : Model} (hd : m'.names.Nodup) (hnames : m'.names = m.names)
    (hget : ∀ name, m'.get? name = m.get? name) (hnotes : m'.notes = m.notes) : m' = m := by
  obtain ⟨classes, notes⟩ := m
  obtain ⟨classes', notes'⟩ := m'
  have hclasses : classes' = classes := OrderedMap.ext_get? hd hnames hget
  cases hclasses
  cases hnotes
  rfl

theorem wellFormed_empty : empty.WellFormed :=
  ⟨.nil, nofun, nofun⟩

/-- What statements build is well-formed. -/
theorem wellFormed_declared (ss : List Statement) : (declared ss).WellFormed := by
  have hget : ∀ k c, (declared ss).get? k = some c → c = Class.declared ss k := by
    intro k c h
    rw [get?_declared] at h
    split at h
    · exact (Option.some.inj h).symm
    · cases h
  refine ⟨?_, ?_, ?_⟩
  · rw [names_declared]
    exact OrderedSet.nodup_ofList _
  · intro k c h
    rw [hget k c h]
    rfl
  · intro k c h
    rw [hget k c h]
    exact Class.wellFormed_declared ss k

namespace WellFormed

variable {m other : Model}

/-- A class may be changed, or a new one put at the end. -/
theorem alter (h : m.WellFormed) {name : String} {fresh : Class} {change : Class → Class}
    (hfresh : fresh.name = name ∧ fresh.WellFormed)
    (hchange : ∀ c, c.WellFormed → (change c).name = c.name ∧ (change c).WellFormed) :
    WellFormed { m with classes := m.classes.alter name fresh change } := by
  have key : ∀ k c, (m.classes.alter name fresh change).get? k = some c →
      c.name = k ∧ c.WellFormed := by
    intro k c hc
    rw [OrderedMap.get?_alter] at hc
    by_cases hk : k = name
    · subst hk
      rw [if_pos rfl] at hc
      cases hget : m.classes.get? k with
      | none =>
        rw [hget] at hc
        cases hc
        exact hfresh
      | some d =>
        rw [hget] at hc
        cases hc
        obtain ⟨hname, hwell⟩ := hchange d (h.classes k d hget)
        exact ⟨hname.trans (h.named k d hget), hwell⟩
    · rw [if_neg hk] at hc
      exact ⟨h.named k c hc, h.classes k c hc⟩
  exact ⟨OrderedMap.nodup_alter h.distinct _ _ _, fun k c hc => (key k c hc).1,
    fun k c hc => (key k c hc).2⟩

theorem addClass (h : m.WellFormed) {c : Class} (hc : c.WellFormed) : (m.addClass c).WellFormed :=
  h.alter ⟨rfl, hc⟩ fun _ hd => ⟨rfl, hd.merge⟩

/-- The class of a name may be changed, created or not, as long as it keeps its name. -/
theorem changeClass (h : m.WellFormed) (name : String) {change : Class → Class}
    (hchange : ∀ c, c.WellFormed → (change c).name = c.name ∧ (change c).WellFormed) :
    (m.changeClass name change).WellFormed :=
  h.alter (hchange _ (Class.wellFormed_named name)) hchange

theorem ensureClass (h : m.WellFormed) (name : String) : (m.ensureClass name).WellFormed :=
  h.changeClass name fun _ hd => ⟨rfl, hd⟩

theorem addMember (h : m.WellFormed) (name : String) (member : Member) :
    (m.addMember name member).WellFormed := by
  have key : ∀ k c, (m.addMember name member).get? k = some c → c.name = k ∧ c.WellFormed := by
    intro k c hc
    rw [get?, Model.addMember, OrderedMap.get?_modify] at hc
    obtain ⟨d, hd, rfl⟩ := Option.map_eq_some_iff.1 hc
    by_cases hk : k = name
    · rw [if_pos hk]
      exact ⟨h.named k d hd, (h.classes k d hd).addMember member⟩
    · rw [if_neg hk]
      exact ⟨h.named k d hd, h.classes k d hd⟩
  refine ⟨?_, fun k c hc => (key k c hc).1, fun k c hc => (key k c hc).2⟩
  rw [names, Model.addMember, OrderedMap.keys_modify]
  exact h.distinct

theorem addEdge (h : m.WellFormed) (e : Edge) : (m.addEdge e).WellFormed :=
  (h.ensureClass e.parent).changeClass e.child fun _ hd => ⟨rfl, hd.addParent _ _⟩

theorem addNote (h : m.WellFormed) (n : Note) : (m.addNote n).WellFormed :=
  ⟨h.distinct, h.named, h.classes⟩

/-- The classes of a well-formed model are found under their names. -/
theorem mem_values_iff (h : m.WellFormed) {c : Class} :
    c ∈ m.classes.values ↔ m.get? c.name = some c := by
  rw [OrderedMap.values, List.mem_map]
  constructor
  · rintro ⟨⟨k, d⟩, he, rfl⟩
    have hget := (OrderedMap.mem_entries_iff h.distinct).1 he
    have hname : d.name = k := h.named k d hget
    rw [hname]
    exact hget
  · intro hget
    exact ⟨(c.name, c), (OrderedMap.mem_entries_iff h.distinct).2 hget, rfl⟩

theorem values (h : m.WellFormed) : ∀ c ∈ m.classes.values, c.WellFormed := fun c hc =>
  h.classes c.name c (h.mem_values_iff.1 hc)

/-- The classes stand in the order of their names. -/
theorem map_name_values (h : m.WellFormed) : m.classes.values.map Class.name = m.names := by
  rw [OrderedMap.values, names, OrderedMap.keys, List.map_map]
  exact List.map_congr_left fun e he =>
    h.named e.1 e.2 ((OrderedMap.mem_entries_iff h.distinct).1 he)

theorem addClasses (h : m.WellFormed) {cs : List Class} (hcs : ∀ c ∈ cs, c.WellFormed) :
    (cs.foldl Model.addClass m).WellFormed := by
  induction cs generalizing m with
  | nil => exact h
  | cons c cs ih =>
    obtain ⟨hc, hcs⟩ := List.forall_mem_cons.1 hcs
    exact ih (h.addClass hc) hcs

/-- Of the other model only its classes matter, not the names that they are kept under. -/
theorem merge_of_values (h : m.WellFormed) (hother : ∀ c ∈ other.classes.values, c.WellFormed) :
    (m.merge other).WellFormed := by
  have hjoined := h.addClasses hother
  exact ⟨hjoined.distinct, hjoined.named, hjoined.classes⟩

theorem merge (h : m.WellFormed) (hother : other.WellFormed) : (m.merge other).WellFormed :=
  h.merge_of_values hother.values

/-- What the class of one name contributes to a list put together from all classes. -/
theorem flatMap_values {α : Type} (h : m.WellFormed) (k : String) (f : Class → List α) :
    (m.classes.values.flatMap fun c => if c.name = k then f c else [])
      = (m.get? k).toList.flatMap f := by
  rw [get?, ← OrderedMap.flatMap_entries_key h.distinct, OrderedMap.values, List.flatMap_map]
  have hentry : ∀ e ∈ m.classes.entries, e.2.name = e.1 := fun e he =>
    h.named e.1 e.2 ((OrderedMap.mem_entries_iff h.distinct).1 he)
  generalize m.classes.entries = es at hentry
  induction es with
  | nil => rfl
  | cons e es ih =>
    obtain ⟨he, hes⟩ := List.forall_mem_cons.1 hentry
    rw [List.flatMap_cons, List.flatMap_cons, ih hes, he]

/-- The same classes in whatever order and the same notes are the same content. -/
theorem sameContent_of_perm (h : other.WellFormed)
    (hclasses : m.classes.entries.Perm other.classes.entries) (hnotes : m.notes = other.notes) :
    m.sameContent other = true := by
  have hagrees : m.classes.agrees Class.sameContent other.classes = true := by
    rw [OrderedMap.agrees, Bool.and_eq_true, List.all_eq_true]
    refine ⟨beq_iff_eq.2 hclasses.length_eq, ?_⟩
    rintro ⟨k, c⟩ he
    have hget := (OrderedMap.mem_entries_iff h.distinct).1 (hclasses.mem_iff.1 he)
    rw [hget]
    exact (h.classes k c hget).sameContent_self
  rw [sameContent, hagrees, hnotes, beq_self_eq_true]
  rfl

end WellFormed

/-! ## Completion -/

/-- The model with an empty class for each mentioned name that is no class. -/
def completed (m : Model) : Model := m.mentioned.foldl ensureClass m

theorem foldl_ensureClass (m : Model) (names : List String) :
    names.foldl ensureClass m
      = { m with classes := m.classes.alterAll id Class.named (fun _ => id) names } := by
  induction names generalizing m with
  | nil => rfl
  | cons name names ih =>
    rw [List.foldl_cons, ih]
    rfl

theorem completed_notes (m : Model) : m.completed.notes = m.notes := by
  rw [completed, foldl_ensureClass]

theorem get?_completed (m : Model) (k : String) :
    m.completed.get? k
      = if k ∈ m.mentioned then some ((m.get? k).getD (Class.named k)) else m.get? k := by
  have hkeep : ∀ (names : List String) (c : Class), names.foldl (fun c _ => id c) c = c := by
    intro names c
    induction names with
    | nil => rfl
    | cons _ names ih => exact ih
  rw [completed, foldl_ensureClass]
  show (m.classes.alterAll id Class.named (fun _ => id) m.mentioned).get? k = _
  rw [OrderedMap.get?_alterAll, hkeep, List.map_id]
  rfl

theorem WellFormed.completed {m : Model} (h : m.WellFormed) : m.completed.WellFormed := by
  rw [Model.completed]
  generalize m.mentioned = names
  induction names generalizing m with
  | nil => exact h
  | cons name names ih => exact ih (h.ensureClass name)

/-- A model that mentions only its own classes is complete. -/
theorem WellFormed.completed_eq {m : Model} (h : m.WellFormed)
    (hclosed : ∀ k ∈ m.mentioned, k ∈ m.names) : m.completed = m := by
  have hclasses : m.completed.classes = m.classes := by
    apply OrderedMap.ext_get? h.completed.distinct
    · rw [Model.completed, foldl_ensureClass, OrderedMap.keys_alterAll, List.map_id]
      exact congrArg OrderedSet.items (OrderedSet.insertAll_of_subset hclosed)
    · intro k
      have hget := m.get?_completed k
      by_cases hk : k ∈ m.mentioned
      · rw [if_pos hk] at hget
        have hsome : m.get? k ≠ none := fun hnone =>
          OrderedMap.get?_eq_none_iff.1 hnone (hclosed k hk)
        obtain ⟨c, hc⟩ := Option.ne_none_iff_exists'.1 hsome
        rw [hc] at hget
        exact hget.trans hc.symm
      · rw [if_neg hk] at hget
        exact hget
  have hnotes := m.completed_notes
  cases hm : m.completed with
  | mk classes notes =>
    rw [hm] at hclasses hnotes
    cases m
    simp only at hclasses hnotes
    rw [hclasses, hnotes]

end Model

end ClassDiagram
