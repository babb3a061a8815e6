import ClassDiagram.Model.Basic

/-! # Source skeletons

A model is written as source code without bodies: the notes as comments, then a block for each
class with its parents, its fields as properties and its methods as stubs.
-/

namespace ClassDiagram

structure SkeletonStyle where
  /-- Spaces before a member. -/
  indentWidth : Nat := 4
  /-- The type of a field that has none. -/
  placeholder : String := "TYPE"
  deriving DecidableEq, Repr, Inhabited

namespace Skeleton

def indent (style : SkeletonStyle) : String :=
  String.ofList (List.replicate style.indentWidth ' ')

/-- What a class is declared as: an interface wins over an abstract class. -/
def keyword (c : Class) : String :=
  if c.isInterface then "interface"
  else if c.isAbstract then "abstract class"
  else "class"

/-- A field as a property with two accessors. -/
def field (style : SkeletonStyle) (f : Field) : String :=
  indent style ++ f.visibility.keyword ++ " "
    ++ (if f.isStatic then "static " else "")
    ++ (if f.type = "" then style.placeholder else f.type)
    ++ " " ++ f.name ++ " \x7b get; set; \x7d\n"

def signature (style : SkeletonStyle) (m : Method) : String :=
  indent style ++ m.visibility.keyword ++ " "
    ++ (if m.isStatic then "static " else "")
    ++ (if m.isAbstract then "abstract " else "")
    ++ (if m.returnType = "" then "void" else m.returnType)
    ++ " " ++ m.name ++ "(" ++ m.arguments ++ ")"

/-- A method: an abstract one ends with its head, another one has an empty body. -/
def method (style : SkeletonStyle) (m : Method) : String :=
  if m.isAbstract then signature style m ++ ";\n"
  else
    signature style m ++ "\n" ++ indent style ++ "\x7b\n" ++ indent style ++ "\x7d\n"

def parents (c : Class) : String :=
  if c.parents.entries.isEmpty then "" else " : " ++ ", ".intercalate c.parents.keys

/-- The block of a class: fields before methods, with an empty line between two members. -/
def classBlock (style : SkeletonStyle) (c : Class) : String :=
  "public " ++ keyword c ++ " " ++ c.name ++ parents c ++ "\n\x7b\n"
    ++ "\n".intercalate (c.fields.map (field style) ++ c.methods.map (method style))
    ++ "\x7d\n"

def note (n : Note) : String :=
  match n.target with
  | some target => "// " ++ target ++ ": " ++ n.text ++ "\n"
  | none => "// " ++ n.text ++ "\n"

end Skeleton

/-- The source skeleton of a model.  An empty line stands between two classes and between the
notes and the first class. -/
def Model.skeleton (m : Model) (style : SkeletonStyle) : String :=
  let blocks := m.classes.values.map (Skeleton.classBlock style)
  String.join (m.notes.map Skeleton.note)
    ++ (if m.notes.isEmpty then "" else if blocks.isEmpty then "" else "\n")
    ++ "\n".intercalate blocks

end ClassDiagram
