import ClassDiagram.Text.Position

/-! # Errors

What can go wrong between a text and its rendering, each kind with the text it is shown as.
-/

namespace ClassDiagram

inductive Error where
  /-- The text is no diagram; `offset` is the byte where reading stopped. -/
  | parse (message : String) (offset : Nat) (place : Text.Place)
  /-- The statements do not make a model. -/
  | invalidStructure (message : String)
  /-- A requested name belongs to no descriptor. -/
  | unresolvedName (name : String)
  /-- A descriptor or a catalog of them cannot be accepted. -/
  | descriptor (message : String)
  /-- A file cannot be read. -/
  | inputOutput (message : String)
  deriving DecidableEq, Repr

namespace Error

/-- A parse error at an offset of a text, with the place that the offset has there. -/
def parseAt (message : String) (text : List Char) (offset : Nat) : Error :=
  parse message offset (Text.placeAt text offset)

def message : Error → String
  | parse m _ place =>
    "Parse error: " ++ m ++ " at line " ++ toString place.line ++ ", column "
      ++ toString place.column
  | invalidStructure m => "Invalid structure: " ++ m
  | unresolvedName n => "Unresolved name: " ++ n
  | descriptor m => "Descriptor error: " ++ m
  | inputOutput m => "IO error: " ++ m

end Error

/-- What has succeeded has succeeded with its result. -/
theorem ok_of_toOption {ε α : Type} {x : Except ε α} {a : α} (h : x.toOption = some a) :
    x = .ok a := by
  cases x with
  | error _ => cases h
  | ok _ => cases h; rfl

end ClassDiagram
