import ClassDiagram.Visibility

/-! # Type descriptors

What is known of a type without its source: its name and the number of its type parameters,
where it lives, its parents and its members.  A type is told from others by its bare name and
its arity; a catalog tells it by its full name, which also says where it lives.

* `sameType_iff`: two descriptors are of one type exactly when their references are equal.
-/

namespace ClassDiagram

/-- A type by its bare name and the number of its type parameters. -/
structure TypeRef where
  name : String
  arity : Nat := 0
  deriving DecidableEq, Repr, Inhabited

/-- A reference as it is written in metadata: the arity follows a grave accent. -/
def TypeRef.metadataName (r : TypeRef) : String :=
  if r.arity = 0 then r.name else r.name ++ "`" ++ toString r.arity

inductive MemberKind where
  | method
  | field
  | property
  deriving DecidableEq, Repr

def MemberKind.keyword : MemberKind → String
  | method => "method"
  | field => "field"
  | property => "property"

structure Parameter where
  name : String
  type : String := ""
  deriving DecidableEq, Repr

/-- A member of a described type; the type of a method is what it returns. -/
structure DescribedMember where
  kind : MemberKind
  name : String
  type : String := ""
  parameters : List Parameter := []
  visibility : Visibility := .pub
  isStatic : Bool := false
  isAbstract : Bool := false
  deriving DecidableEq, Repr

structure Descriptor where
  name : String
  arity : Nat := 0
  /-- Where the type lives, if that is known. -/
  scope : Option String := none
  base : Option TypeRef := none
  interfaces : List TypeRef := []
  /-- An abstract class or an interface. -/
  isAbstract : Bool := false
  members : List DescribedMember := []
  deriving DecidableEq, Repr

namespace Descriptor

def ref (d : Descriptor) : TypeRef := ⟨d.name, d.arity⟩

/-- The name in metadata, without where the type lives. -/
def shortName (d : Descriptor) : String := d.ref.metadataName

/-- The name in metadata, with where the type lives if that is known. -/
def fullName (d : Descriptor) : String :=
  match d.scope with
  | none => d.shortName
  | some "" => d.shortName
  | some scope => scope ++ "." ++ d.shortName

/-- The base type and then the interfaces. -/
def parents (d : Descriptor) : List TypeRef :=
  d.base.toList ++ d.interfaces

def isNamedBy (d : Descriptor) (r : TypeRef) : Bool :=
  d.ref == r

/-- Whether two descriptors are of one type, wherever it lives. -/
def sameType (d other : Descriptor) : Bool :=
  d.ref == other.ref

theorem sameType_iff (d other : Descriptor) :
    d.sameType other = true ↔ d.name = other.name ∧ d.arity = other.arity := by
  simp [sameType, ref]

end Descriptor

end ClassDiagram
