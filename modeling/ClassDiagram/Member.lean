import ClassDiagram.Visibility

/-! # Members of a class

A member is a field or a method.  Types and arguments are kept as the text that is shown for
them; the empty text stands for a type that is not given.
-/

namespace ClassDiagram

structure Field where
  name : String
  /-- The declared type, empty when none is given. -/
  type : String := ""
  visibility : Visibility := .pub
  isStatic : Bool := false
  deriving DecidableEq, Repr

structure Method where
  name : String
  /-- The text between the parentheses. -/
  arguments : String := ""
  /-- The return type, empty when nothing is returned. -/
  returnType : String := ""
  visibility : Visibility := .pub
  isStatic : Bool := false
  isAbstract : Bool := false
  deriving DecidableEq, Repr

inductive Member where
  | field (f : Field)
  | method (m : Method)
  deriving DecidableEq, Repr

namespace Member

def name : Member → String
  | field f => f.name
  | method m => m.name

def visibility : Member → Visibility
  | field f => f.visibility
  | method m => m.visibility

def isStatic : Member → Bool
  | field f => f.isStatic
  | method m => m.isStatic

def isMethod : Member → Bool
  | field _ => false
  | method _ => true

/-- Only methods can be abstract. -/
def isAbstract : Member → Bool
  | field _ => false
  | method m => m.isAbstract

def withVisibility (v : Visibility) : Member → Member
  | field f => field { f with visibility := v }
  | method m => method { m with visibility := v }

def asField? : Member → Option Field
  | field f => some f
  | method _ => none

def asMethod? : Member → Option Method
  | field _ => none
  | method m => some m

end Member

end ClassDiagram
