import ClassDiagram.Proofs.Model.Declared
import Mathlib.Data.List.TakeWhile

/-! # Visits that go on behind a failure

A statement that fails has already written to some classes, and more statements may be visited
behind it.  Its edges and notes come last, so it adds none of them, and whatever is added refers
to classes that were collected before.  So a builder refers to its own classes only, whatever was
visited.

* `Builder.builder_visit`, `Builder.visitEach_eq`: what visits leave, failed or not;
* `Builder.closed_add`: writes, edges and notes that refer to the classes written to;
* `Builder.edges_finish_add`: where the edges that were kept aside come to stand;
* `Builder.visitEach_closed`: all of this for any visits.
-/

namespace ClassDiagram

namespace Statement

/-- The writes that are done before the first one to a class without a name. -/
def doneWrites (s : Statement) : List Write := s.writes.takeWhile Write.isNamed

def isNamed (s : Statement) : Bool := s.writes.all Write.isNamed

def doneEdges (s : Statement) : List Edge := if s.isNamed then s.edges else []

def doneNotes (s : Statement) : List Note := if s.isNamed then s.notes else []

theorem isNamed_iff {s : Statement} : s.isNamed = true ↔ s.Named := List.all_eq_true

theorem allNamed_doneWrites (s : Statement) : AllNamed s.doneWrites :=
  List.all_eq_true.1 List.all_takeWhile

theorem doneWrites_of_isNamed {s : Statement} (h : s.isNamed = true) : s.doneWrites = s.writes :=
  List.takeWhile_eq_self_iff.2 (isNamed_iff.1 h)

/-- A statement that does not fail has written to all classes that it speaks of. -/
theorem map_name_doneWrites {s : Statement} (h : s.isNamed = true) :
    s.doneWrites.map Write.name = s.names := by
  rw [doneWrites_of_isNamed h, map_name_writes]

/-- An edge that is added joins classes that were written to before. -/
theorem ends_of_mem_doneEdges {s : Statement} {e : Edge} (h : e ∈ s.doneEdges) :
    e.child ∈ s.doneWrites.map Write.name ∧ e.parent ∈ s.doneWrites.map Write.name := by
  rw [doneEdges] at h
  by_cases hs : s.isNamed = true
  · rw [if_pos hs] at h
    rw [map_name_doneWrites hs]
    exact mem_names_of_edge h
  · rw [if_neg hs] at h
    cases h

/-- A note that is added is about a class that was written to before. -/
theorem target_of_mem_doneNotes {s : Statement} {n : Note} (h : n ∈ s.doneNotes) :
    ∀ name ∈ n.target.toList, name ∈ s.doneWrites.map Write.name := by
  rw [doneNotes] at h
  by_cases hs : s.isNamed = true
  · rw [if_pos hs] at h
    rw [map_name_doneWrites hs]
    exact fun name hname => target_mem_names h hname
  · rw [if_neg hs] at h
    cases h

end Statement

namespace Builder

/-! ## What visits leave -/

/-- A visit leaves the writes up to a failure, and edges and notes if there is none. -/
theorem builder_visit (b : Builder) (s : Statement) :
    (b.visit s).builder = b.add s.doneWrites s.doneEdges s.doneNotes := by
  have hvisit := b.visit_performs s
  by_cases hs : s.isNamed = true
  · rw [Statement.doneWrites_of_isNamed hs, Statement.doneEdges, Statement.doneNotes, if_pos hs,
      if_pos hs]
    exact hvisit.done (Statement.isNamed_iff.1 hs)
  · rw [Statement.doneEdges, Statement.doneNotes, if_neg hs, if_neg hs]
    exact hvisit.failed fun h => hs (Statement.isNamed_iff.2 h)

/-- A visit that fails keeps edges and notes as they were. -/
theorem pending_visit_of_fault {b : Builder} {s : Statement} (h : (b.visit s).fault ≠ none) :
    (b.visit s).builder.pending = b.pending ∧ (b.visit s).builder.notes = b.notes := by
  have hs : ¬ AllNamed s.writes := fun hnamed => h ((b.visit_performs s).fault.2 hnamed)
  rw [(b.visit_performs s).failed hs]
  exact ⟨rfl, List.append_nil _⟩

/-- The builder after visits one after another, whether they fail or not. -/
def visitEach (b : Builder) (ss : List Statement) : Builder :=
  ss.foldl (fun b s => (b.visit s).builder) b

theorem visitEach_eq (b : Builder) (ss : List Statement) :
    b.visitEach ss = b.add (ss.flatMap Statement.doneWrites) (ss.flatMap Statement.doneEdges)
      (ss.flatMap Statement.doneNotes) := by
  induction ss generalizing b with
  | nil => exact b.add_nil.symm
  | cons s ss ih =>
    show (b.visit s).builder.visitEach ss = _
    rw [ih, builder_visit, add_add]
    rfl

/-! ## References -/

/-- Every class is kept under its own name, which is not blank; every edge that is kept aside joins
such classes, and every note with a target is about one. -/
structure Closed (b : Builder) : Prop where
  named : ∀ e ∈ b.classes.entries, e.2.name = e.1 ∧ Text.isBlankText e.1 = false
  edges : ∀ e ∈ b.pendingEdges, e.child ∈ b.classes.keys ∧ e.parent ∈ b.classes.keys
  notes : ∀ n ∈ b.notes, ∀ name ∈ n.target.toList, name ∈ b.classes.keys

/-- The edges that are kept aside for one child. -/
theorem filter_pendingEdges {b : Builder} (hd : b.pending.keys.Nodup) (k : String) :
    b.pendingEdges.filter (·.child = k) = (b.pending.get? k).toList.flatMap fun parents =>
      parents.entries.map fun e => ⟨k, e.1, e.2⟩ := by
  rw [← OrderedMap.flatMap_entries_key hd, pendingEdges, List.filter_flatMap]
  congr 1
  funext ⟨child, parents⟩
  by_cases hk : child = k
  · subst hk
    rw [if_pos rfl]
    refine List.filter_eq_self.2 fun e he => ?_
    obtain ⟨_, _, rfl⟩ := List.mem_map.1 he
    exact decide_eq_true rfl
  · rw [if_neg hk]
    refine List.filter_eq_nil_iff.2 fun e he => ?_
    obtain ⟨_, _, rfl⟩ := List.mem_map.1 he
    simpa using hk

variable {ws : List Write} {es : List Edge} {ns : List Note}

theorem filter_pendingEdges_add (k : String) :
    (empty.add ws es ns).pendingEdges.filter (·.child = k)
      = (Class.written ws es k).parents.entries.map fun e => ⟨k, e.1, e.2⟩ := by
  have hd : (empty.add ws es ns).pending.keys.Nodup := by
    rw [keys_pending_add_empty]
    exact OrderedSet.nodup_ofList _
  rw [filter_pendingEdges hd, get?_pending_add_empty]
  by_cases hk : k ∈ es.map Edge.child
  · simp [hk]
  · have hnone : es.filter (·.child = k) = [] := by
      rw [List.filter_eq_nil_iff]
      intro e he hchild
      exact hk (List.mem_map.2 ⟨e, he, by simpa using hchild⟩)
    rw [if_neg hk, Class.written, hnone]
    rfl

/-- Writes to classes with names, with edges and notes that refer to these classes. -/
theorem closed_add (hnamed : AllNamed ws)
    (hedges : ∀ e ∈ es, e.child ∈ ws.map Write.name ∧ e.parent ∈ ws.map Write.name)
    (hnotes : ∀ n ∈ ns, ∀ name ∈ n.target.toList, name ∈ ws.map Write.name) :
    (empty.add ws es ns).Closed := by
  have hmem : ∀ k, k ∈ (empty.add ws es ns).classes.keys ↔ k ∈ ws.map Write.name := by
    intro k
    rw [keys_add_empty, OrderedSet.mem_ofList]
  have hd : (empty.add ws es ns).classes.keys.Nodup := by
    rw [keys_add_empty]
    exact OrderedSet.nodup_ofList _
  refine ⟨?_, ?_, ?_⟩
  · rintro ⟨k, c⟩ he
    have hget := (OrderedMap.mem_entries_iff hd).1 he
    rw [get?_add_empty] at hget
    split at hget
    · rename_i hk
      cases hget
      obtain ⟨w, hw, rfl⟩ := List.mem_map.1 hk
      exact ⟨rfl, by simpa [Write.isNamed] using hnamed w hw⟩
    · cases hget
  · intro e he
    have hfilter : e ∈ (empty.add ws es ns).pendingEdges.filter (·.child = e.child) :=
      List.mem_filter.2 ⟨he, decide_eq_true rfl⟩
    rw [filter_pendingEdges_add] at hfilter
    obtain ⟨p, hp, hparent⟩ := List.mem_map.1 hfilter
    have hkeys : p.1 ∈ (Class.written ws es e.child).parents.keys := List.mem_map_of_mem hp
    rw [Class.written, OrderedMap.keys_ofList, OrderedSet.mem_ofList, List.map_map,
      List.mem_map] at hkeys
    obtain ⟨e', he', hp'⟩ := hkeys
    obtain ⟨hmem', hchild⟩ := List.mem_filter.1 he'
    obtain ⟨hchild', hparent'⟩ := hedges e' hmem'
    rw [hmem, hmem, ← hparent, ← of_decide_eq_true hchild, ← hp']
    exact ⟨hchild', hparent'⟩
  · intro n hn name hname
    exact (hmem name).2 (hnotes n hn name hname)

/-- In the end each edge stands at its child. -/
theorem edges_finish_add (hedges : ∀ e ∈ es, e.child ∈ ws.map Write.name) :
    (empty.add ws es ns).finish.edges = (empty.add ws es ns).classes.keys.flatMap fun k =>
      (empty.add ws es ns).pendingEdges.filter (·.child = k) := by
  simp only [filter_pendingEdges_add, keys_add_empty, finish_add_empty ws es ns hedges]
  rw [Model.edges, OrderedMap.values, OrderedMap.tabulate, List.map_map, List.flatMap_map]
  rfl

/-! ## Any visits -/

section

variable (ss : List Statement)

def visitedNames : List String := (ss.flatMap Statement.doneWrites).map Write.name

theorem mem_visitedNames {ss : List Statement} {s : Statement} (hs : s ∈ ss) {name : String}
    (hname : name ∈ s.doneWrites.map Write.name) : name ∈ visitedNames ss := by
  obtain ⟨w, hw, rfl⟩ := List.mem_map.1 hname
  exact List.mem_map_of_mem (List.mem_flatMap.2 ⟨s, hs, hw⟩)

theorem allNamed_visited : AllNamed (ss.flatMap Statement.doneWrites) := by
  intro w hw
  obtain ⟨s, _, hw⟩ := List.mem_flatMap.1 hw
  exact s.allNamed_doneWrites w hw

theorem ends_visited : ∀ e ∈ ss.flatMap Statement.doneEdges,
    e.child ∈ visitedNames ss ∧ e.parent ∈ visitedNames ss := by
  intro e he
  obtain ⟨s, hs, he⟩ := List.mem_flatMap.1 he
  obtain ⟨hchild, hparent⟩ := Statement.ends_of_mem_doneEdges he
  exact ⟨mem_visitedNames hs hchild, mem_visitedNames hs hparent⟩

theorem target_visited : ∀ n ∈ ss.flatMap Statement.doneNotes, ∀ name ∈ n.target.toList,
    name ∈ visitedNames ss := by
  intro n hn name hname
  obtain ⟨s, hs, hn⟩ := List.mem_flatMap.1 hn
  exact mem_visitedNames hs (Statement.target_of_mem_doneNotes hn name hname)

theorem closed_visitEach : (empty.visitEach ss).Closed := by
  rw [visitEach_eq]
  exact closed_add (allNamed_visited ss) (ends_visited ss) (target_visited ss)

theorem names_finish_visitEach :
    (empty.visitEach ss).finish.names = (empty.visitEach ss).classes.keys := by
  refine keys_finish fun k hk => ?_
  rw [visitEach_eq, keys_pending_add_empty, OrderedSet.mem_ofList] at hk
  obtain ⟨e, he, rfl⟩ := List.mem_map.1 hk
  rw [visitEach_eq, keys_add_empty, OrderedSet.mem_ofList]
  exact (ends_visited ss e he).1

end

/-- Whatever statements were visited, failing ones among them: the builder refers to its own
classes only; one more statement adds no edge and no note if it fails; and the model has the same
classes, with the edges that were kept aside at their children. -/
theorem visitEach_closed (ss : List Statement) :
    (empty.visitEach ss).Closed ∧
      (∀ s, ((empty.visitEach ss).visit s).fault ≠ none →
        (empty.visitEach (ss ++ [s])).pendingEdges = (empty.visitEach ss).pendingEdges ∧
          (empty.visitEach (ss ++ [s])).notes = (empty.visitEach ss).notes) ∧
      (empty.visitEach ss).finish.names = (empty.visitEach ss).classes.keys ∧
      (empty.visitEach ss).finish.edges = (empty.visitEach ss).classes.keys.flatMap fun k =>
        (empty.visitEach ss).pendingEdges.filter (·.child = k) := by
  refine ⟨closed_visitEach ss, fun s hs => ?_, names_finish_visitEach ss, ?_⟩
  · have hlast : empty.visitEach (ss ++ [s]) = ((empty.visitEach ss).visit s).builder :=
      List.foldl_append
    obtain ⟨hpending, hnotes⟩ := pending_visit_of_fault hs
    rw [hlast, pendingEdges, hpending]
    exact ⟨rfl, hnotes⟩
  · rw [visitEach_eq]
    exact edges_finish_add fun e he => (ends_visited ss e he).1

/-- A chain with a blank name in the middle, a member without an owner, and statements around
them. -/
def brokenFarm : List Statement :=
  [.relate ⟨"Dog", [(.inheritsRight, "Animal")], none⟩,
    .relate ⟨"Cat", [(.inheritsRight, " "), (.inheritsLeft, "Lion")], none⟩,
    .member ⟨"\t", .field { name := "age" }⟩,
    .note ⟨some "Farm", "of animals"⟩]

/-- The chain has left a class behind, and no edge; a declaration that fails at a member leaves a
class too. -/
theorem visitEach_closed_brokenFarm :
    (empty.visitEach brokenFarm).Closed ∧
      (empty.visitEach brokenFarm).finish.names = ["Dog", "Animal", "Cat", "Farm"] ∧
      (empty.visitEach brokenFarm).finish.edges = [⟨"Dog", "Animal", .inherits⟩] ∧
      (empty.visitEach
          (brokenFarm ++ [.declare ⟨"Hen", [], [⟨"", .field { name := "egg" }⟩]⟩])).notes
        = [⟨some "Farm", "of animals"⟩] := by
  obtain ⟨hclosed, hfails, hnames, hedges⟩ := visitEach_closed brokenFarm
  obtain ⟨_, hnotes⟩ := hfails (.declare ⟨"Hen", [], [⟨"", .field { name := "egg" }⟩]⟩) (by decide)
  exact ⟨hclosed, hnames.trans (by decide), hedges.trans (by decide), hnotes.trans (by decide)⟩

end Builder

end ClassDiagram
