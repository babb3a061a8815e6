import ClassDiagram.Document
import ClassDiagram.Proofs.Model.Contents
import ClassDiagram.Proofs.Model.WellFormed

/-! # Models put together

A model that is merged into another one adds its classes one after another, each to the class of
its name if there is one.  What two lists of statements declare, merged, is what both lists one
behind the other declare: members are appended, tags and parents stand where they first came up,
and a parent that is declared again takes the later kind.

* `Model.WellFormed.get?_merge`, `Model.WellFormed.names_merge`: what a merged model holds;
* `Class.declared_append`: what statements say of a class, part by part;
* `Model.merge_declared`: what statements declare, part by part.
-/

namespace ClassDiagram

/-! ## Classes -/

namespace Statement

variable {s : Statement} {name : String}

theorem membersOf_eq_nil (h : name ∉ s.names) : s.membersOf name = [] := by
  rw [membersOf_eq, List.map_eq_nil_iff, List.filter_eq_nil_iff]
  intro owned howned howner
  exact h (of_decide_eq_true howner ▸ s.owner_mem_names howned)

theorem tagsOf_eq_nil (h : name ∉ s.names) : s.tagsOf name = [] := by
  cases s with
  | declare d =>
    have hname : d.name ≠ name := fun heq => h (List.mem_cons.2 (.inl heq.symm))
    rw [tagsOf, if_neg hname]
  | annotate tag owner =>
    have howner : owner ≠ name := fun heq => h (List.mem_singleton.2 heq.symm)
    rw [tagsOf, if_neg howner]
  | member _ => rfl
  | relate _ => rfl
  | note _ => rfl

end Statement

namespace Class

theorem merge_named (c : Class) (name : String) : c.merge (named name) = c := by
  simp [merge, named, OrderedSet.insertAll, OrderedSet.empty, OrderedMap.extend, OrderedMap.empty]

/-- A class is the class of its name with what it says. -/
theorem WellFormed.named_merge {c : Class} (h : c.WellFormed) : (named c.name).merge c = c := by
  have htags : OrderedSet.empty.insertAll c.tags.items = c.tags := OrderedSet.ofList_items h.tags
  have hparents : OrderedMap.empty.extend c.parents = c.parents := OrderedMap.extend_empty h.parents
  rw [Class.merge, named, htags, hparents, List.nil_append]

theorem declared_append (ss ss' : List Statement) (name : String) :
    (declared ss name).merge (declared ss' name) = declared (ss ++ ss') name := by
  simp only [merge, declared, OrderedSet.insertAll_ofList, ← OrderedSet.ofList_append,
    OrderedMap.extend_ofList, List.flatMap_append, List.filter_append, List.map_append]

/-- Of a class that they do not speak of, statements say nothing. -/
theorem declared_of_not_mem {ss : List Statement} {name : String}
    (h : name ∉ ss.flatMap Statement.names) : declared ss name = named name := by
  have hs : ∀ s ∈ ss, name ∉ s.names := fun s hs hname => h (List.mem_flatMap.2 ⟨s, hs, hname⟩)
  have hmembers : ss.flatMap (·.membersOf name) = [] :=
    List.flatMap_eq_nil_iff.2 fun s hmem => s.membersOf_eq_nil (hs s hmem)
  have htags : ss.flatMap (·.tagsOf name) = [] :=
    List.flatMap_eq_nil_iff.2 fun s hmem => s.tagsOf_eq_nil (hs s hmem)
  have hedges : (ss.flatMap Statement.edges).filter (·.child = name) = [] := by
    refine List.filter_eq_nil_iff.2 fun e he hchild => ?_
    obtain ⟨s, hmem, he⟩ := List.mem_flatMap.1 he
    exact hs s hmem (of_decide_eq_true hchild ▸ (Statement.mem_names_of_edge he).1)
  rw [declared, hmembers, htags, hedges]
  rfl

end Class

/-! ## Models -/

namespace Model

/-- Adding classes one after another merges each of them into the class of its name. -/
theorem foldl_addClass (m : Model) {cs : List Class} (h : ∀ c ∈ cs, c.WellFormed) :
    cs.foldl addClass m
      = { m with
          classes := m.classes.alterAll Class.name Class.named (fun c d => d.merge c) cs } := by
  induction cs generalizing m with
  | nil => rfl
  | cons c cs ih =>
    obtain ⟨hc, hcs⟩ := List.forall_mem_cons.1 h
    have hadd : m.addClass c
        = { m with
            classes := m.classes.alter c.name ((Class.named c.name).merge c) (·.merge c) } := by
      rw [addClass, hc.named_merge]
    rw [List.foldl_cons, ih _ hcs, hadd]
    rfl

namespace WellFormed

variable {m other : Model}

theorem merge_eq (hother : other.WellFormed) :
    m.merge other
      = { classes := m.classes.alterAll Class.name Class.named (fun c d => d.merge c)
            other.classes.values
          notes := m.notes ++ other.notes } := by
  rw [Model.merge, foldl_addClass m hother.values]

/-- New classes come behind the old ones. -/
theorem names_merge (hother : other.WellFormed) :
    (m.merge other).names = ((OrderedSet.mk m.names).insertAll other.names).items := by
  rw [hother.merge_eq, names, OrderedMap.keys_alterAll, hother.map_name_values]
  rfl

/-- A class of the other model is merged into the one of its name, or into a new one. -/
theorem get?_merge (hother : other.WellFormed) (name : String) :
    (m.merge other).get? name
      = if name ∈ other.names then
          (other.get? name).map ((m.get? name).getD (.named name)).merge
        else m.get? name := by
  have hsame : other.classes.values.filter (·.name = name) = (other.get? name).toList := by
    have hkey : ∀ e ∈ other.classes.entries, decide (e.2.name = name) = decide (e.1 = name) := by
      intro e he
      rw [hother.named e.1 e.2 ((OrderedMap.mem_entries_iff hother.distinct).1 he)]
    rw [OrderedMap.values, List.filter_map, get?]
    show (other.classes.entries.filter fun e => decide (e.2.name = name)).map Prod.snd = _
    rw [List.filter_congr hkey, OrderedMap.filter_entries_key hother.distinct]
    cases other.classes.get? name <;> rfl
  rw [hother.merge_eq, get?, OrderedMap.get?_alterAll, hother.map_name_values, hsame]
  by_cases hname : name ∈ other.names
  · rw [if_pos hname, if_pos hname]
    cases hget : other.get? name with
    | none => exact absurd hname (OrderedMap.get?_eq_none_iff.1 hget)
    | some c => rfl
  · rw [if_neg hname, if_neg hname]
    rfl

end WellFormed

/-- What statements say of a class can be looked up, if there is anything. -/
theorem getD_get?_declared (ss : List Statement) (name : String) :
    ((declared ss).get? name).getD (.named name) = Class.declared ss name := by
  rw [get?_declared]
  by_cases hname : name ∈ ss.flatMap Statement.names
  · rw [if_pos hname]
    rfl
  · rw [if_neg hname, Class.declared_of_not_mem hname]
    rfl

/-- Statements may be gathered in two parts. -/
theorem merge_declared (ss ss' : List Statement) :
    (declared ss).merge (declared ss') = declared (ss ++ ss') := by
  have hwell := wellFormed_declared ss'
  have hnames : ∀ name, name ∈ (ss ++ ss').flatMap Statement.names
      ↔ name ∈ ss.flatMap Statement.names ∨ name ∈ ss'.flatMap Statement.names := by
    intro name
    rw [List.flatMap_append, List.mem_append]
  refine ext_names ((wellFormed_declared ss).merge hwell).distinct ?_ ?_ ?_
  · rw [hwell.names_merge, names_declared, names_declared, names_declared,
      OrderedSet.insertAll_ofList, List.flatMap_append, OrderedSet.ofList_append]
  · intro name
    rw [hwell.get?_merge, get?_declared (ss ++ ss')]
    by_cases hnew : name ∈ ss'.flatMap Statement.names
    · have hmem : name ∈ (declared ss').names := by rwa [names_declared, OrderedSet.mem_ofList]
      rw [if_pos hmem, if_pos ((hnames name).2 (.inr hnew)), getD_get?_declared, get?_declared,
        if_pos hnew, Option.map_some, Class.declared_append]
    · -- the second part says nothing of this class
      have hmem : name ∉ (declared ss').names := by rwa [names_declared, OrderedSet.mem_ofList]
      rw [if_neg hmem, get?_declared, ← Class.declared_append, Class.declared_of_not_mem hnew,
        Class.merge_named]
      simp only [hnames, hnew, or_false]
  · rw [hwell.merge_eq]
    exact List.flatMap_append.symm

end Model

end ClassDiagram
