import ClassDiagram.Proofs.Descriptor.Notation

/-! # Names that were not found

A name that was not found stands in the note, between quotation marks.  As long as it has neither a
quotation mark nor a line feed it stays there: the classes that are read from the diagram do not
depend on such names.  Another name does not stay there.  It ends the quoted text, so that the
diagram is refused, or its own lines are read as part of the diagram.

* `Layout.classes_declared_congr`: the classes that a layout declares depend on the classes of the
  model and the targets of its notes;
* `Catalog.classes_diagram_congr`: requests that find the same types give diagrams of the same
  classes;
* `Catalog.diagram_spliced`: a name with a quotation mark may spoil the diagram or add to it.
-/

namespace ClassDiagram

def Model.targets (m : Model) : List String := m.notes.flatMap (·.target.toList)

/-- The classes that a layout declares depend on the classes of the model and the targets of its
notes, and on nothing else. -/
theorem Layout.classes_declared_congr {m m' : Model} (hm : m.WellFormed) (hm' : m'.WellFormed)
    (hclasses : m.classes = m'.classes) (htargets : m.targets = m'.targets) :
    (Model.declared (Layout.statements m)).classes
      = (Model.declared (Layout.statements m')).classes := by
  have hwalk : m.walk = m'.walk := by
    rw [Model.walk, Model.walk, hclasses]
    exact congrArg _ htargets
  have hnames : OrderedSet.ofList ((Layout.statements m).flatMap Statement.names)
      = .ofList ((Layout.statements m').flatMap Statement.names) := by
    rw [Layout.names_statements, Layout.names_statements, hwalk]
  have hmem : ∀ k, k ∈ (Layout.statements m).flatMap Statement.names
      ↔ k ∈ (Layout.statements m').flatMap Statement.names := by
    intro k
    rw [← OrderedSet.mem_ofList, hnames, OrderedSet.mem_ofList]
  refine OrderedMap.ext_get? (Model.wellFormed_declared _).distinct ?_ ?_
  · show (Model.declared _).names = (Model.declared _).names
    rw [Model.names_declared, Model.names_declared, hnames]
  · intro k
    have hget : m.get? k = m'.get? k := congrArg (·.get? k) hclasses
    show (Model.declared _).get? k = (Model.declared _).get? k
    rw [Model.get?_declared, Model.get?_declared, Layout.declared_statements hm,
      Layout.declared_statements hm', hget]
    simp only [hmem k]

/-- The note of what was not found is about no class. -/
theorem Model.targets_ofRequests (filter : MemberFilter)
    (requests : List (String × Option Descriptor)) : (ofRequests filter requests).targets = [] := by
  rw [targets, notes_ofRequests, Adapter.notes]
  split <;> rfl

namespace Catalog

/-- Names that find the same types of a catalog give diagrams that are read as the same classes,
with the same edges, whatever else was asked for, as long as it fits between quotation marks. -/
theorem classes_diagram_congr (c : Catalog) (filter : MemberFilter) (names names' : List String)
    (h : Adapter.Writable filter (c.resolve (Request.normalize names)))
    (h' : ∀ name ∈ Adapter.unresolved (c.resolve (Request.normalize names')), Quotable name.toList)
    (hfound : Adapter.found (c.resolve (Request.normalize names))
      = Adapter.found (c.resolve (Request.normalize names'))) :
    ∃ m m', Model.ofText (c.diagram filter names) = .ok m ∧
      Model.ofText (c.diagram filter names') = .ok m' ∧
      m.classes = m'.classes ∧ m.edges = m'.edges := by
  have hwritable : Adapter.Writable filter (c.resolve (Request.normalize names')) :=
    ⟨hfound ▸ h.found, h'⟩
  have hclasses : (Model.declared (Layout.statements (c.model filter names))).classes
      = (Model.declared (Layout.statements (c.model filter names'))).classes :=
    Layout.classes_declared_congr Model.wellFormed_ofRequests Model.wellFormed_ofRequests
      (Model.classes_ofRequests_congr filter hfound)
      ((Model.targets_ofRequests filter _).trans (Model.targets_ofRequests filter _).symm)
  exact ⟨_, _, ofText_layout (Model.canonical_ofRequests h),
    ofText_layout (Model.canonical_ofRequests hwritable), hclasses,
    by rw [Model.edges, Model.edges, hclasses]⟩

def shapes : Catalog := ⟨.ofList [("Shape", { name := "Shape" })]⟩

theorem writable_shape (filter : MemberFilter) : Descriptor.Writable filter { name := "Shape" } :=
  ⟨by decide, nofun⟩

theorem classes_diagram_shapes :
    ∃ m m', Model.ofText (shapes.diagram {} ["Shape", "note for"]) = .ok m ∧
      Model.ofText (shapes.diagram {} ["% circle;", "Shape"]) = .ok m' ∧
      m.classes = m'.classes ∧ m.edges = m'.edges := by
  have hfound : Adapter.found (shapes.resolve (Request.normalize ["Shape", "note for"]))
      = [{ name := "Shape" }] := by
    decide +kernel
  have hfound' : Adapter.found (shapes.resolve (Request.normalize ["% circle;", "Shape"]))
      = [{ name := "Shape" }] := by
    decide +kernel
  have hunresolved : Adapter.unresolved (shapes.resolve (Request.normalize ["Shape", "note for"]))
      = ["note for"] := by
    decide +kernel
  have hunresolved' :
      Adapter.unresolved (shapes.resolve (Request.normalize ["% circle;", "Shape"]))
        = ["% circle;"] := by
    decide +kernel
  refine classes_diagram_congr shapes {} _ _ ⟨?_, ?_⟩ ?_ (hfound.trans hfound'.symm)
  · rw [hfound]
    simpa using writable_shape {}
  · simp [hunresolved, Quotable]
  · simp [hunresolved', Quotable]

/-- A name whose quotation mark ends the text of the note. -/
def openName : String := "x\""

/-- A name that goes on with a class behind the note. -/
def splicedName : String := "x\"\nclass Evil\nnote \"y"

/-- Next to a type that can be written, a name with a quotation mark that was not found makes a
diagram that is refused, and one with two lines more makes a diagram with a class of its own. -/
theorem diagram_spliced :
    (∀ d ∈ shapes.descriptors, ∀ filter, d.Writable filter) ∧
      (shapes.resolve (Request.normalize ["Shape", openName])).filterMap (·.2)
        = (shapes.resolve (Request.normalize ["Shape", "x"])).filterMap (·.2) ∧
      (shapes.resolve (Request.normalize ["Shape", splicedName])).filterMap (·.2)
        = (shapes.resolve (Request.normalize ["Shape", "x"])).filterMap (·.2) ∧
      (Model.ofText (shapes.diagram {} ["Shape", "x"])).map Model.names = .ok ["Shape"] ∧
      (Model.ofText (shapes.diagram {} ["Shape", openName])).isOk = false ∧
      (Model.ofText (shapes.diagram {} ["Shape", splicedName])).map Model.names
        = .ok ["Shape", "Evil"] := by
  refine ⟨?_, by decide +kernel⟩
  intro d hd filter
  rw [List.mem_singleton.1 hd]
  exact writable_shape filter

end Catalog

end ClassDiagram
