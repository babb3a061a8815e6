import ClassDiagram.OrderedMap
import ClassDiagram.Statement

/-! # The model of a class diagram

Classes under their names, in the order in which the names came up, and notes.  An edge of the
hierarchy lives with the child, as a parent's name and a kind.

Declaring a class again adds to it: members are appended, tags are united, and a parent that is
named again takes the later kind in its old place.  Two models have the same content when they
agree up to the order of classes, tags and parents.
-/

namespace ClassDiagram

/-- Whether two texts are equal once the letters of ASCII are written small. -/
def equalIgnoringCase (a b : String) : Bool :=
  a.toList.map Char.toLower == b.toList.map Char.toLower

structure Class where
  name : String
  members : List Member := []
  tags : OrderedSet String := OrderedSet.empty
  parents : OrderedMap String RelationKind := OrderedMap.empty
  deriving DecidableEq, Repr

namespace Class

/-- The class of which only the name is known. -/
def named (name : String) : Class := { name }

def addMember (m : Member) (c : Class) : Class :=
  { c with members := c.members ++ [m] }

def addTags (tags : List String) (c : Class) : Class :=
  { c with tags := c.tags.insertAll tags }

def addParent (parent : String) (kind : RelationKind) (c : Class) : Class :=
  { c with parents := c.parents.insert parent kind }

/-- Whether the class has a tag, in capital or small letters. -/
def hasTag (c : Class) (tag : String) : Bool :=
  c.tags.items.any (equalIgnoringCase · tag)

def isInterface (c : Class) : Bool :=
  c.hasTag "interface"

/-- Tagged as abstract, or with an abstract method. -/
def isAbstract (c : Class) : Bool :=
  c.hasTag "abstract" || c.members.any Member.isAbstract

def fields (c : Class) : List Field :=
  c.members.filterMap Member.asField?

def methods (c : Class) : List Method :=
  c.members.filterMap Member.asMethod?

/-- The class with what another declaration of it says. -/
def merge (c other : Class) : Class :=
  { c with
    members := c.members ++ other.members
    tags := c.tags.insertAll other.tags.items
    parents := c.parents.extend other.parents }

/-- Equal up to the order of tags and parents. -/
def sameContent (c other : Class) : Bool :=
  c.name == other.name && c.members == other.members && c.tags.agrees other.tags &&
    c.parents.agrees (· == ·) other.parents

end Class

structure Model where
  classes : OrderedMap String Class
  notes : List Note
  deriving DecidableEq, Repr

namespace Model

def empty : Model := ⟨OrderedMap.empty, []⟩

instance : Inhabited Model := ⟨empty⟩

/-- Add a class, merging it into the one of its name if there is one. -/
def addClass (m : Model) (c : Class) : Model :=
  { m with classes := m.classes.alter c.name c (·.merge c) }

/-- Change the class of a name, which is created if it is absent. -/
def changeClass (m : Model) (name : String) (change : Class → Class) : Model :=
  { m with classes := m.classes.alter name (change (Class.named name)) change }

/-- Create the class of a name if it is absent. -/
def ensureClass (m : Model) (name : String) : Model :=
  m.changeClass name id

/-- Add a member to a class; nothing changes if there is no such class. -/
def addMember (m : Model) (name : String) (member : Member) : Model :=
  { m with classes := m.classes.modify name (·.addMember member) }

/-- Add an edge, creating the parent and then the child where they are absent. -/
def addEdge (m : Model) (e : Edge) : Model :=
  (m.ensureClass e.parent).changeClass e.child (·.addParent e.parent e.kind)

def addNote (m : Model) (n : Note) : Model :=
  { m with notes := m.notes ++ [n] }

/-- Add all classes of another model and then its notes. -/
def merge (m other : Model) : Model :=
  let joined := other.classes.values.foldl addClass m
  { joined with notes := joined.notes ++ other.notes }

def get? (m : Model) (name : String) : Option Class :=
  m.classes.get? name

def contains (m : Model) (name : String) : Bool :=
  m.classes.contains name

def names (m : Model) : List String :=
  m.classes.keys

/-- The edges, grouped by child in the order of the classes. -/
def edges (m : Model) : List Edge :=
  m.classes.values.flatMap fun c => c.parents.entries.map fun (parent, kind) =>
    ⟨c.name, parent, kind⟩

def classCount (m : Model) : Nat :=
  m.classes.size

def memberCount (m : Model) : Nat :=
  (m.classes.values.flatMap (·.members)).length

def edgeCount (m : Model) : Nat :=
  (m.classes.values.flatMap (·.parents.entries)).length

def isEmpty (m : Model) : Bool :=
  m.classes.entries.isEmpty && m.notes.isEmpty

/-- Equal up to the order of classes, tags and parents. -/
def sameContent (m other : Model) : Bool :=
  m.classes.agrees Class.sameContent other.classes && m.notes == other.notes

theorem length_edges (m : Model) : m.edges.length = m.edgeCount := by
  simp [edges, edgeCount, List.length_flatMap]

end Model

structure Summary where
  classes : Nat
  members : Nat
  relations : Nat
  notes : Nat
  deriving DecidableEq, Repr

def Model.summary (m : Model) : Summary :=
  { classes := m.classCount
    members := m.memberCount
    relations := m.edgeCount
    notes := m.notes.length }

end ClassDiagram
