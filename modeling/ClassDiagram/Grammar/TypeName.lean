import ClassDiagram.Grammar.Rule

/-! # Type names

A type name is a word, then type arguments in angles or in tildes if there are any, then array
brackets and question marks.  It is kept as one text with its arguments separated by a comma and
a space.
-/

namespace ClassDiagram.Grammar

open Rule

def word : Rule String := do
  return (← token .word).text

def keyword : Rule String := do
  return (← token .header <|> token .classWord <|> token .noteWord <|> token .forWord).text

/-- A name of a member: keywords are names there. -/
def name : Rule String :=
  word <|> keyword

/-- Array brackets, with a comma for each further dimension. -/
def arraySuffix : Rule String := do
  let commas ← between .openBracket .closeBracket (many (token .comma))
  return "[" ++ String.ofList (commas.map fun _ => ',') ++ "]"

def nullableSuffix : Rule String := do
  let _ ← token .question
  return "?"

def angleArguments (typeName : Rule String) : Rule String := do
  let arguments ← between .openAngle .closeAngle (sepBy1 typeName .comma)
  return "<" ++ ", ".intercalate arguments ++ ">"

def tildeArguments (typeName : Rule String) : Rule String := do
  let arguments ← between .tilde .tilde (sepBy1 typeName .comma)
  return "~" ++ ", ".intercalate arguments ++ "~"

/-- A type name, its arguments read by `inner`. -/
def typeNameOver (inner : Rule String) : Rule String := do
  let base ← word
  let arguments ← option (angleArguments inner <|> tildeArguments inner)
  let suffixes ← many (arraySuffix <|> nullableSuffix)
  return base ++ arguments.getD "" ++ String.join suffixes

/-- A type name whose arguments nest fewer than `depth` deep. -/
def typeNameBelow : Nat → Rule String
  | 0 => refuse
  | depth + 1 => typeNameOver (typeNameBelow depth)

/-- A type name.  Each level of arguments uses lexemes, so it nests less deep than there are
lexemes. -/
def typeName : Rule String := fun s =>
  typeNameBelow (s.length + 1) s

end ClassDiagram.Grammar
