import ClassDiagram.Error
import ClassDiagram.Model.Basic
import ClassDiagram.Text.Blank

/-! # From statements to a model

Statements are visited one after another.  Classes and notes are collected at once, edges are
kept aside under their child and attached to the classes at the end.

A statement with a blank name fails; what it did before that stays.  `fault_andThen`: after a
failure nothing more of the statement is done.
-/

namespace ClassDiagram

inductive BuildFault where
  /-- A class whose name is blank. -/
  | blankClassName
  /-- A member, here with its name, of a class whose name is blank. -/
  | blankOwner (member : String)
  deriving DecidableEq, Repr

namespace BuildFault

def message : BuildFault → String
  | blankClassName => "class name must not be empty"
  | blankOwner member => "member '" ++ member ++ "' has no owning class"

def error (fault : BuildFault) : Error :=
  .invalidStructure fault.message

end BuildFault

/-- What the statements visited so far say. -/
structure Builder where
  classes : OrderedMap String Class
  /-- Edges that are not attached yet: the parents of each child, with their kinds. -/
  pending : OrderedMap String (OrderedMap String RelationKind)
  notes : List Note
  deriving DecidableEq, Repr

/-- The builder after a visit, and the failure of the visit if it failed. -/
structure Visit where
  builder : Builder
  fault : Option BuildFault
  deriving DecidableEq, Repr

namespace Visit

def done (b : Builder) : Visit := ⟨b, none⟩

/-- Go on with another visit, unless this one failed. -/
def andThen (v : Visit) (next : Builder → Visit) : Visit :=
  match v.fault with
  | none => next v.builder
  | some _ => v

theorem fault_andThen {v : Visit} {fault : BuildFault} (h : v.fault = some fault)
    (next : Builder → Visit) : v.andThen next = v := by
  simp [andThen, h]

end Visit

namespace Builder

def empty : Builder := ⟨OrderedMap.empty, OrderedMap.empty, []⟩

instance : Inhabited Builder := ⟨empty⟩

/-- Change the class of a name, which is created if it is absent; a blank name fails. -/
def changeClass (b : Builder) (name : String) (change : Class → Class) : Visit :=
  if Text.isBlankText name then ⟨b, some .blankClassName⟩
  else .done { b with classes := b.classes.alter name (change (Class.named name)) change }

/-- Visit names one after another, creating the classes that are absent. -/
def mention (b : Builder) : List String → Visit
  | [] => .done b
  | name :: rest => (b.changeClass name id).andThen fun b => b.mention rest

/-- Visit a member; a class whose name is blank cannot own one. -/
def visitMember (b : Builder) (owned : OwnedMember) : Visit :=
  if Text.isBlankText owned.owner then ⟨b, some (.blankOwner owned.member.name)⟩
  else b.changeClass owned.owner (·.addMember owned.member)

def visitMembers (b : Builder) : List OwnedMember → Visit
  | [] => .done b
  | owned :: rest => (b.visitMember owned).andThen fun b => b.visitMembers rest

def addPending (b : Builder) (e : Edge) : Builder :=
  { b with
    pending :=
      b.pending.alter e.child (OrderedMap.empty.insert e.parent e.kind) (·.insert e.parent e.kind) }

def visit (b : Builder) : Statement → Visit
  | .declare d =>
    (b.changeClass d.name (·.addTags d.tags)).andThen fun b => b.visitMembers d.members
  | .annotate tag owner => b.changeClass owner (·.addTags [tag])
  | .member owned => b.visitMember owned
  | .relate chain =>
    (b.mention chain.operands).andThen fun b => .done (chain.edges.foldl addPending b)
  | .note note =>
    (b.mention note.target.toList).andThen fun b => .done { b with notes := b.notes ++ [note] }

/-- Visit statements until one fails. -/
def visitAll (b : Builder) : List Statement → Visit
  | [] => .done b
  | s :: rest => (b.visit s).andThen fun b => b.visitAll rest

/-- The edges that are kept aside, grouped by child in the order in which the children came up. -/
def pendingEdges (b : Builder) : List Edge :=
  b.pending.entries.flatMap fun (child, parents) => parents.entries.map fun (parent, kind) =>
    ⟨child, parent, kind⟩

def attach (classes : OrderedMap String Class)
    (edges : String × OrderedMap String RelationKind) : OrderedMap String Class :=
  let change (c : Class) : Class := { c with parents := c.parents.extend edges.2 }
  classes.alter edges.1 (change (Class.named edges.1)) change

/-- The model, with the edges attached to their children. -/
def finish (b : Builder) : Model :=
  { classes := b.pending.entries.foldl attach b.classes
    notes := b.notes }

end Builder

/-- The model of some statements, or the failure of the first one that fails. -/
def Model.ofStatements (statements : List Statement) : Except BuildFault Model :=
  let v := Builder.empty.visitAll statements
  match v.fault with
  | none => .ok v.builder.finish
  | some fault => .error fault

end ClassDiagram
