import ClassDiagram.Model.Builder
import ClassDiagram.Proofs.Model.Collections

/-! # Building a model

A statement writes to classes, adds edges and adds notes.  The builder does the writes one after
another and stops at the first one to a class without a name; edges and notes come last.  So what
is built is put together from all writes, edges and notes, class by class.

* `Builder.visit_performs`, `Builder.visitAll_spec`: what visits do, and when they fail;
* `Builder.get?_finish`, `Builder.keys_finish`: attaching the edges in the end;
* `Builder.finish_add_empty`: the classes that some writes and edges come to.
-/

namespace ClassDiagram

/-! ## Writes, edges and notes -/

/-- What a statement adds to the class of a name. -/
structure Write where
  name : String
  tags : List String := []
  members : List Member := []

namespace Write

def isNamed (w : Write) : Bool := !Text.isBlankText w.name

def change (w : Write) (c : Class) : Class :=
  { c with members := c.members ++ w.members, tags := c.tags.insertAll w.tags }

def ofTag (tag name : String) : Write := { name, tags := [tag] }

def ofMember (owned : OwnedMember) : Write := { name := owned.owner, members := [owned.member] }

theorem change_bare (name : String) : change { name } = id := by
  funext c
  simp [change, OrderedSet.insertAll]

theorem change_tags (name : String) (tags : List String) :
    change { name, tags } = Class.addTags tags := by
  funext c
  simp [change, Class.addTags]

theorem change_ofMember (owned : OwnedMember) :
    change (ofMember owned) = Class.addMember owned.member := by
  funext c
  simp [change, ofMember, Class.addMember, OrderedSet.insertAll]

end Write

def AllNamed (ws : List Write) : Prop := ∀ w ∈ ws, w.isNamed = true

theorem allNamed_append {ws ws' : List Write} :
    AllNamed (ws ++ ws') ↔ AllNamed ws ∧ AllNamed ws' :=
  List.forall_mem_append

namespace Statement

def writes : Statement → List Write
  | .declare d => { name := d.name, tags := d.tags } :: d.members.map .ofMember
  | .annotate tag owner => [.ofTag tag owner]
  | .member owned => [.ofMember owned]
  | .relate chain => chain.operands.map fun name => { name }
  | .note n => n.target.toList.map fun name => { name }

def edges : Statement → List Edge
  | .relate chain => chain.edges
  | .declare _ | .annotate _ _ | .member _ | .note _ => []

def notes : Statement → List Note
  | .note n => [n]
  | .declare _ | .annotate _ _ | .member _ | .relate _ => []

/-- Every class that the statement speaks of has a name. -/
def Named (s : Statement) : Prop := AllNamed s.writes

end Statement

namespace Builder

/-- The builder with some writes done and some edges and notes added. -/
def add (b : Builder) (ws : List Write) (es : List Edge) (ns : List Note) : Builder :=
  { classes := b.classes.alterAll Write.name Class.named Write.change ws
    pending := b.pending.alterAll Edge.child (fun _ => OrderedMap.empty)
      (fun e parents => parents.insert e.parent e.kind) es
    notes := b.notes ++ ns }

theorem add_nil (b : Builder) : b.add [] [] [] = b := by
  simp [add, OrderedMap.alterAll]

theorem add_add (b : Builder) (ws ws' : List Write) (es es' : List Edge) (ns ns' : List Note) :
    (b.add ws es ns).add ws' es' ns' = b.add (ws ++ ws') (es ++ es') (ns ++ ns') := by
  simp [add, OrderedMap.alterAll_append]

theorem foldl_addPending (b : Builder) (es : List Edge) :
    es.foldl addPending b = b.add [] es [] := by
  induction es generalizing b with
  | nil => exact b.add_nil.symm
  | cons e es ih =>
    rw [List.foldl_cons, ih]
    have hfirst : b.addPending e = b.add [] [e] [] := by
      simp [addPending, add, OrderedMap.alterAll]
    rw [hfirst, add_add]
    rfl

end Builder

/-! ## One visit -/

theorem takeWhile_of_not_allNamed {ws : List Write} (h : ¬ AllNamed ws) (ws' : List Write) :
    (ws ++ ws').takeWhile Write.isNamed = ws.takeWhile Write.isNamed := by
  have hshort : (ws.takeWhile Write.isNamed).length ≠ ws.length := by
    intro hlength
    have hall := (List.takeWhile_prefix Write.isNamed).eq_of_length hlength
    apply h
    intro w hw
    rw [← hall] at hw
    exact List.all_eq_true.1 List.all_takeWhile w hw
  rw [List.takeWhile_append, if_neg hshort]

/-- A visit that does writes one after another, fails at the first one without a name, and adds
edges and notes in the end. -/
structure Performs (b : Builder) (v : Visit) (ws : List Write) (es : List Edge) (ns : List Note) :
    Prop where
  fault : v.fault = none ↔ AllNamed ws
  done : AllNamed ws → v.builder = b.add ws es ns
  failed : ¬ AllNamed ws → v.builder = b.add (ws.takeWhile Write.isNamed) [] []

namespace Performs

variable {b : Builder} {v : Visit} {ws ws' : List Write} {es : List Edge} {ns : List Note}

theorem eq_done (h : Performs b v ws es ns) (hnamed : AllNamed ws) :
    v = .done (b.add ws es ns) := by
  obtain ⟨after, fault⟩ := v
  have hbuilder : after = _ := h.done hnamed
  have hfault : fault = none := h.fault.2 hnamed
  rw [hbuilder, hfault]
  rfl

/-- Adding edges and notes cannot fail. -/
theorem add (b : Builder) (es : List Edge) (ns : List Note) :
    Performs b (.done (b.add [] es ns)) [] es ns := by
  have hnil : AllNamed [] := nofun
  exact ⟨⟨fun _ => hnil, fun _ => rfl⟩, fun _ => rfl, fun h => absurd hnil h⟩

theorem andThen {next : Builder → Visit} (h : Performs b v ws [] [])
    (hnext : ∀ b, Performs b (next b) ws' es ns) :
    Performs b (v.andThen next) (ws ++ ws') es ns := by
  by_cases hnamed : AllNamed ws
  · have hsecond := hnext (b.add ws [] [])
    have hthen : v.andThen next = next (b.add ws [] []) := by
      rw [h.eq_done hnamed]
      rfl
    have hall : AllNamed (ws ++ ws') ↔ AllNamed ws' := by
      rw [allNamed_append]
      exact and_iff_right hnamed
    rw [hthen]
    refine ⟨hsecond.fault.trans hall.symm, ?_, ?_⟩
    · intro h'
      rw [hsecond.done (hall.1 h'), Builder.add_add]
      rfl
    · intro h'
      rw [hsecond.failed fun h'' => h' (hall.2 h''), Builder.add_add,
        List.takeWhile_append_of_pos hnamed]
      rfl
  · have hall : ¬ AllNamed (ws ++ ws') := fun h' => hnamed (allNamed_append.1 h').1
    obtain ⟨fault, hfault⟩ := Option.ne_none_iff_exists'.1 fun hnone => hnamed (h.fault.1 hnone)
    rw [Visit.fault_andThen hfault]
    refine ⟨?_, fun h' => absurd h' hall, ?_⟩
    · exact ⟨fun hnone => absurd (h.fault.1 hnone) hnamed, fun h' => absurd h' hall⟩
    · intro _
      rw [h.failed hnamed, takeWhile_of_not_allNamed hnamed]

end Performs

namespace Builder

theorem changeClass_performs (b : Builder) (w : Write) :
    Performs b (b.changeClass w.name w.change) [w] [] [] := by
  by_cases hblank : Text.isBlankText w.name = true
  · have hnamed : w.isNamed = false := by simp [Write.isNamed, hblank]
    have hall : ¬ AllNamed [w] := by simp [AllNamed, hnamed]
    rw [changeClass, if_pos hblank]
    refine ⟨by simp [hall], fun h => absurd h hall, fun _ => ?_⟩
    simp [hnamed, add_nil]
  · have hnamed : w.isNamed = true := by simpa [Write.isNamed] using hblank
    have hall : AllNamed [w] := by simp [AllNamed, hnamed]
    rw [changeClass, if_neg hblank]
    refine ⟨by simp [hall, Visit.done], fun _ => ?_, fun h => absurd hall h⟩
    simp [Visit.done, add, OrderedMap.alterAll]

theorem mention_performs (b : Builder) (names : List String) :
    Performs b (b.mention names) (names.map fun name => { name }) [] [] := by
  induction names generalizing b with
  | nil =>
    have hnil := Performs.add b [] []
    rw [add_nil] at hnil
    exact hnil
  | cons name rest ih =>
    have hfirst := b.changeClass_performs { name }
    rw [Write.change_bare] at hfirst
    exact hfirst.andThen fun b => ih b

theorem visitMember_performs (b : Builder) (owned : OwnedMember) :
    Performs b (b.visitMember owned) [.ofMember owned] [] [] := by
  have hchange := b.changeClass_performs (.ofMember owned)
  rw [Write.change_ofMember] at hchange
  by_cases hblank : Text.isBlankText owned.owner = true
  · have hnamed : (Write.ofMember owned).isNamed = false := by
      simp [Write.isNamed, Write.ofMember, hblank]
    have hall : ¬ AllNamed [.ofMember owned] := by simp [AllNamed, hnamed]
    rw [visitMember, if_pos hblank]
    refine ⟨by simp [hall], fun h => absurd h hall, fun _ => ?_⟩
    simp [hnamed, add_nil]
  · rw [visitMember, if_neg hblank]
    exact hchange

theorem visitMembers_performs (b : Builder) (members : List OwnedMember) :
    Performs b (b.visitMembers members) (members.map .ofMember) [] [] := by
  induction members generalizing b with
  | nil =>
    have hnil := Performs.add b [] []
    rw [add_nil] at hnil
    exact hnil
  | cons owned rest ih => exact (b.visitMember_performs owned).andThen fun b => ih b

/-- A visit does the writes of a statement up to the first one without a name; if there is none,
it adds the edges and the notes too. -/
theorem visit_performs (b : Builder) (s : Statement) :
    Performs b (b.visit s) s.writes s.edges s.notes := by
  cases s with
  | declare d =>
    have hfirst := b.changeClass_performs { name := d.name, tags := d.tags }
    rw [Write.change_tags] at hfirst
    exact hfirst.andThen fun b => b.visitMembers_performs d.members
  | annotate tag owner =>
    have hfirst := b.changeClass_performs (.ofTag tag owner)
    rw [Write.ofTag, Write.change_tags] at hfirst
    exact hfirst
  | member owned => exact b.visitMember_performs owned
  | relate chain =>
    have hlast : ∀ b : Builder,
        Performs b (.done (chain.edges.foldl addPending b)) [] chain.edges [] := by
      intro b
      rw [foldl_addPending]
      exact .add b chain.edges []
    have hall := (b.mention_performs chain.operands).andThen hlast
    rwa [List.append_nil] at hall
  | note n =>
    have hall := (b.mention_performs n.target.toList).andThen fun b => .add b [] [n]
    rwa [List.append_nil] at hall

end Builder

/-! ## All visits -/

namespace Builder

/-- Statements that all have names are visited without a failure, and all they say is kept. -/
theorem visitAll_spec (b : Builder) (ss : List Statement) :
    ((b.visitAll ss).fault = none ↔ ∀ s ∈ ss, s.Named) ∧
      ((∀ s ∈ ss, s.Named) → (b.visitAll ss).builder
        = b.add (ss.flatMap Statement.writes) (ss.flatMap Statement.edges)
            (ss.flatMap Statement.notes)) := by
  induction ss generalizing b with
  | nil => exact ⟨⟨fun _ => nofun, fun _ => rfl⟩, fun _ => b.add_nil.symm⟩
  | cons s ss ih =>
    have hfirst := b.visit_performs s
    rw [visitAll, List.forall_mem_cons]
    by_cases hnamed : s.Named
    · rw [hfirst.eq_done hnamed]
      obtain ⟨hfault, hrest⟩ := ih (b.add s.writes s.edges s.notes)
      refine ⟨hfault.trans (and_iff_right hnamed).symm, ?_⟩
      rintro ⟨_, hss⟩
      rw [List.flatMap_cons, List.flatMap_cons, List.flatMap_cons, ← add_add]
      exact hrest hss
    · obtain ⟨fault, hfault⟩ :=
        Option.ne_none_iff_exists'.1 fun hnone => hnamed (hfirst.fault.1 hnone)
      rw [Visit.fault_andThen hfault]
      refine ⟨?_, fun h => absurd h.1 hnamed⟩
      simp [hfault, hnamed]

/-! ## Attaching the edges -/

theorem finish_classes (b : Builder) :
    b.finish.classes = b.classes.alterAll Prod.fst Class.named
      (fun e c => { c with parents := c.parents.extend e.2 }) b.pending.entries :=
  rfl

/-- A class gets the edges that were kept aside for it. -/
theorem get?_finish {b : Builder} (hd : b.pending.keys.Nodup) (k : String) :
    b.finish.classes.get? k =
      match b.pending.get? k with
      | none => b.classes.get? k
      | some ps =>
        let c := (b.classes.get? k).getD (Class.named k)
        some { c with parents := c.parents.extend ps } := by
  have hkeys : k ∈ b.pending.entries.map Prod.fst ↔ b.pending.get? k ≠ none := by
    rw [Ne, OrderedMap.get?_eq_none_iff, Decidable.not_not]
    rfl
  rw [finish_classes, OrderedMap.get?_alterAll, OrderedMap.filter_entries_key hd]
  cases hget : b.pending.get? k with
  | none => rw [if_neg (by rw [hkeys, hget]; simp)]
  | some ps =>
    rw [if_pos (by rw [hkeys, hget]; simp)]
    rfl

/-- Attaching makes no class where all children are classes. -/
theorem keys_finish {b : Builder} (h : ∀ k ∈ b.pending.keys, k ∈ b.classes.keys) :
    b.finish.classes.keys = b.classes.keys := by
  rw [finish_classes, OrderedMap.keys_alterAll]
  exact congrArg OrderedSet.items (OrderedSet.insertAll_of_subset h)

end Builder

/-! ## Classes that are written to -/

/-- The class of a name after some writes and with some edges. -/
def Class.written (ws : List Write) (es : List Edge) (name : String) : Class :=
  let own := ws.filter (·.name = name)
  { name
    members := own.flatMap Write.members
    tags := .ofList (own.flatMap Write.tags)
    parents := .ofList ((es.filter (·.child = name)).map fun e => (e.parent, e.kind)) }

theorem foldl_change (ws : List Write) (c : Class) :
    ws.foldl (fun c w => w.change c) c
      = { c with
          members := c.members ++ ws.flatMap Write.members
          tags := c.tags.insertAll (ws.flatMap Write.tags) } := by
  induction ws generalizing c with
  | nil => simp [OrderedSet.insertAll]
  | cons w ws ih =>
    rw [List.foldl_cons, ih]
    simp [Write.change, OrderedSet.insertAll_append]

namespace Builder

variable (ws : List Write) (es : List Edge) (ns : List Note)

theorem keys_add_empty : (empty.add ws es ns).classes.keys
    = (OrderedSet.ofList (ws.map Write.name)).items :=
  OrderedMap.keys_alterAll Write.name Class.named Write.change OrderedMap.empty ws

theorem keys_pending_add_empty : (empty.add ws es ns).pending.keys
    = (OrderedSet.ofList (es.map Edge.child)).items :=
  OrderedMap.keys_alterAll Edge.child _ _ OrderedMap.empty es

theorem get?_add_empty (k : String) : (empty.add ws es ns).classes.get? k
    = if k ∈ ws.map Write.name then some (Class.written ws [] k) else none := by
  have hfold := OrderedMap.get?_alterAll Write.name Class.named Write.change OrderedMap.empty ws k
  rw [foldl_change] at hfold
  exact hfold

theorem get?_pending_add_empty (k : String) : (empty.add ws es ns).pending.get? k
    = if k ∈ es.map Edge.child then some (Class.written ws es k).parents else none := by
  have hfold := OrderedMap.get?_alterAll Edge.child (fun _ => OrderedMap.empty)
    (fun e (parents : OrderedMap String RelationKind) => parents.insert e.parent e.kind)
    OrderedMap.empty es k
  have hparents : (Class.written ws es k).parents
      = (es.filter (·.child = k)).foldl (fun parents e => parents.insert e.parent e.kind)
          OrderedMap.empty := List.foldl_map
  rw [hparents]
  exact hfold

/-- Where every child is written to, a class of the finished model has all its writes and edges. -/
theorem get?_finish_add_empty (hends : ∀ e ∈ es, e.child ∈ ws.map Write.name) (k : String) :
    (empty.add ws es ns).finish.classes.get? k
      = if k ∈ ws.map Write.name then some (Class.written ws es k) else none := by
  have hd : (empty.add ws es ns).pending.keys.Nodup := by
    rw [keys_pending_add_empty]
    exact OrderedSet.nodup_ofList _
  rw [get?_finish hd, get?_add_empty, get?_pending_add_empty]
  by_cases hk : k ∈ es.map Edge.child
  · have hwritten : k ∈ ws.map Write.name := by
      obtain ⟨e, he, rfl⟩ := List.mem_map.1 hk
      exact hends e he
    have hextend : (Class.written ws [] k).parents.extend (Class.written ws es k).parents
        = (Class.written ws es k).parents :=
      OrderedMap.extend_empty (OrderedMap.nodup_ofList _)
    simp only [if_pos hk, if_pos hwritten, Option.getD_some, hextend]
    rfl
  · have hnone : es.filter (·.child = k) = [] := by
      rw [List.filter_eq_nil_iff]
      intro e he hchild
      exact hk (List.mem_map.2 ⟨e, he, by simpa using hchild⟩)
    have hclass : Class.written ws es k = Class.written ws [] k := by
      simp only [Class.written, hnone]
      rfl
    rw [if_neg hk, hclass]

/-- Where every child is written to, the finished model consists of the classes that are
written to. -/
theorem finish_add_empty (hends : ∀ e ∈ es, e.child ∈ ws.map Write.name) :
    (empty.add ws es ns).finish
      = ⟨.tabulate (OrderedSet.ofList (ws.map Write.name)).items (Class.written ws es), ns⟩ := by
  have hkeys : (empty.add ws es ns).finish.classes.keys
      = (OrderedSet.ofList (ws.map Write.name)).items := by
    rw [keys_finish, keys_add_empty]
    intro k hk
    rw [keys_pending_add_empty, OrderedSet.mem_ofList, List.mem_map] at hk
    obtain ⟨e, he, rfl⟩ := hk
    rw [keys_add_empty, OrderedSet.mem_ofList]
    exact hends e he
  have hclasses : (empty.add ws es ns).finish.classes
      = .tabulate (OrderedSet.ofList (ws.map Write.name)).items (Class.written ws es) := by
    apply OrderedMap.ext_get?
    · rw [hkeys]
      exact OrderedSet.nodup_ofList _
    · rw [hkeys, OrderedMap.keys_tabulate]
    · intro k
      rw [get?_finish_add_empty ws es ns hends, OrderedMap.get?_tabulate]
      simp only [OrderedSet.mem_ofList]
  rw [← hclasses]
  rfl

end Builder

end ClassDiagram
