import ClassDiagram.Layout
import ClassDiagram.Model.Builder
import ClassDiagram.Parse
import ClassDiagram.Skeleton

/-! # Documents

What can be done with the text of a diagram: read its model, write it in canonical layout, write
its skeleton, count what it holds, and tell quickly whether it may be a diagram at all.  The parts
that do so are reported by name, version and format.
-/

namespace ClassDiagram

def Model.ofText (text : String) : Except Error Model :=
  match statementsOfText text with
  | .error e => .error e
  | .ok statements =>
    match Model.ofStatements statements with
    | .error fault => .error fault.error
    | .ok m => .ok m

/-- Read a text into a model; a text that is no diagram leaves the model as it was. -/
def Model.absorb (m : Model) (text : String) : Except Error Model :=
  (Model.ofText text).map m.merge

namespace Document

/-- The text of a diagram in canonical layout. -/
def reformat (text : String) : Except Error String :=
  (Model.ofText text).map Model.layout

def skeleton (style : SkeletonStyle) (text : String) : Except Error String :=
  (Model.ofText text).map (·.skeleton style)

def summary (text : String) : Except Error Summary :=
  (Model.ofText text).map Model.summary

/-! ## Recognition -/

/-- The stretches of a text between its line feeds. -/
def linesOf : List Char → List (List Char)
  | [] => [[]]
  | c :: rest =>
    if c = '\n' then [] :: linesOf rest
    else
      match linesOf rest with
      | [] => [[c]]
      | line :: others => (c :: line) :: others

/-- Whether a line says something: it is neither empty nor a comment. -/
def isContent (line : List Char) : Bool :=
  !line.isEmpty && !"%%".toList.isPrefixOf line

/-- Whether the first line that says something begins with the header. -/
def looksLikeDiagram (text : String) : Bool :=
  match ((linesOf text.toList).map (Text.strip Text.isBlank)).find? isContent with
  | some line => "classDiagram".toList.isPrefixOf line
  | none => false

end Document

/-! ## Components -/

def version : String := "0.1.0"

structure Component where
  name : String
  version : String := ClassDiagram.version
  /-- What it writes, if it writes. -/
  format : Option String := none
  deriving DecidableEq, Repr

namespace Component

/-- What reads diagrams. -/
def parser : Component := { name := "class" }

/-- What writes source skeletons. -/
def skeleton : Component := { name := "source", format := some "csharp" }

/-- What writes diagrams. -/
def layout : Component := { name := "diagram", format := some "mermaid" }

end Component

end ClassDiagram
