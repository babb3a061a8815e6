import ClassDiagram.Member
import ClassDiagram.Relation

/-! # Statements of a diagram

A diagram is a list of statements.  Statements name classes; what the classes are comes of all
statements together.
-/

namespace ClassDiagram

structure Note where
  target : Option String
  text : String
  deriving DecidableEq, Repr

structure OwnedMember where
  owner : String
  member : Member
  deriving DecidableEq, Repr

/-- A class with what stands in its block: tags as written, repeats kept, and members. -/
structure Declaration where
  name : String
  tags : List String
  members : List OwnedMember
  deriving DecidableEq, Repr

inductive Statement where
  | declare (declaration : Declaration)
  /-- A tag such as `interface` for a class. -/
  | annotate (tag owner : String)
  | member (owned : OwnedMember)
  | relate (chain : Chain)
  | note (note : Note)
  deriving DecidableEq, Repr

end ClassDiagram
