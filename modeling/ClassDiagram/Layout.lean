import ClassDiagram.Model.Basic

/-! # The canonical layout of a diagram

A model is written line by line: the header, a block for each class, then the notes.  The block
of a class holds its name, its tags, its members and its parents, and ends with an empty line.

* `Layout.member_ne_empty`: a member is never written as nothing.
-/

namespace ClassDiagram.Layout

/-- Every line but the first one begins with it. -/
def indent : String := "    "

/-- A field: sign, type, name and a dollar sign if it is static. -/
def field (f : Field) : String :=
  String.singleton f.visibility.marker
    ++ (if f.type = "" then "" else f.type ++ " ")
    ++ f.name
    ++ (if f.isStatic then "$" else "")

/-- A method: sign, name, arguments, return type, and the signs for abstract and static. -/
def method (m : Method) : String :=
  String.singleton m.visibility.marker
    ++ m.name ++ "(" ++ m.arguments ++ ")"
    ++ (if m.returnType = "" then "" else " " ++ m.returnType)
    ++ (if m.isAbstract then "*" else "")
    ++ (if m.isStatic then "$" else "")

def member : Member → String
  | .field f => field f
  | .method m => method m

def parent (child : String) (edge : String × RelationKind) : String :=
  match edge.2 with
  | .inherits => edge.1 ++ " <|-- " ++ child
  | .implements => child ++ " ..|> " ++ edge.1

/-- The lines of a class without its members' and parents' indentation. -/
def classLines (c : Class) : List String :=
  ("class " ++ c.name) ::
    (c.tags.items.map fun tag => "<<" ++ tag ++ ">> " ++ c.name)
    ++ (c.members.map fun m => c.name ++ " : " ++ member m)
    ++ c.parents.entries.map (parent c.name)

def classBlock (c : Class) : List String :=
  (classLines c).map (indent ++ ·) ++ [""]

def note (n : Note) : String :=
  match n.target with
  | some target => "note for " ++ target ++ " \"" ++ n.text ++ "\""
  | none => "note \"" ++ n.text ++ "\""

def lines (m : Model) : List String :=
  "classDiagram" :: m.classes.values.flatMap classBlock ++ m.notes.map (indent ++ note ·)

def endLines (lines : List String) : String :=
  String.join (lines.map (· ++ "\n"))

theorem member_ne_empty (m : Member) : member m ≠ "" := by
  intro h
  have := congrArg String.toList h
  cases m with
  | field f => simp [member, field] at this
  | method m => simp [member, method] at this

end Layout

def Model.layout (m : Model) : String :=
  Layout.endLines (Layout.lines m)

end ClassDiagram
