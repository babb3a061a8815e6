import ClassDiagram.Decimal.Layout
import ClassDiagram.Text.Quoted

/-! # Faults of JSON texts

Why a JSON text cannot be read as what is asked of it, each cause with the text it is shown as.
A fault is the first one met from left to right.
-/

namespace ClassDiagram.Json

/-- What a text can end in the middle of. -/
inductive Construct where
  | value
  | list
  | object
  | string
  deriving DecidableEq, Repr

def Construct.word : Construct → String
  | value => "a value"
  | list => "a list"
  | object => "an object"
  | string => "a string"

/-- What stands in a text, as far as it must be known to refuse it. -/
inductive Content where
  | null
  | boolean (b : Bool)
  /-- A whole number of at most 64 bits. -/
  | natural (n : Nat)
  /-- The whole number `-n`, of at most 64 bits with its sign. -/
  | negative (n : Nat)
  /-- Any other number. -/
  | float (f : Float)
  | string (s : String)
  | sequence
  | map
  deriving Repr

/-- Floating-point numbers are written in positions from `10 ^ -5` up to `10 ^ 16`. -/
def floatLayout : Decimal.Layout := ⟨-5, 15⟩

/-- How a content is named where another one is expected. -/
def Content.describe : Content → String
  | null => "null"
  | boolean b => "boolean `" ++ toString b ++ "`"
  | natural n => "integer `" ++ toString n ++ "`"
  | negative n => "integer `-" ++ toString n ++ "`"
  | float f => "floating point `" ++ floatLayout.write f ++ "`"
  | string s => "string " ++ Text.quote s
  | sequence => "sequence"
  | map => "map"

inductive Fault where
  /-- The text ends inside a construct. -/
  | ended (inside : Construct)
  | noValue
  /-- A word that begins as one of the three constants does not go on as it. -/
  | noConstant
  | noColon
  | noListComma
  | noObjectComma
  | trailingComma
  | trailingText
  | keyNotString
  | badEscape
  | badNumber
  | numberTooLarge
  /-- A string has bytes that make no character. -/
  | badCharacter
  | controlCharacter
  /-- An escape names one half of a pair where it cannot stand. -/
  | loneSurrogate
  /-- The first half of a pair stands without the second. -/
  | halfPair
  | missingField (name : String)
  | duplicateField (name : String)
  | unknownVariant (name : String) (known : List String)
  | wrongType (found : Content) (expected : String)
  | wrongValue (found : Content) (expected : String)
  | wrongLength (length : Nat) (title : String) (fields : Nat)
  deriving Repr

/-- A name between grave accents. -/
def mark (name : String) : String := "`" ++ name ++ "`"

def Fault.message : Fault → String
  | ended inside => "EOF while parsing " ++ inside.word
  | noValue => "expected value"
  | noConstant => "expected ident"
  | noColon => "expected " ++ mark ":"
  | noListComma => "expected " ++ mark "," ++ " or " ++ mark "]"
  | noObjectComma => "expected " ++ mark "," ++ " or " ++ mark "\x7d"
  | trailingComma => "trailing comma"
  | trailingText => "trailing characters"
  | keyNotString => "key must be a string"
  | badEscape => "invalid escape"
  | badNumber => "invalid number"
  | numberTooLarge => "number out of range"
  | badCharacter => "invalid unicode code point"
  | controlCharacter =>
    "control character (\\u0000-\\u001F) found while parsing a string"
  | loneSurrogate => "lone leading surrogate in hex escape"
  | halfPair => "unexpected end of hex escape"
  | missingField name => "missing field " ++ mark name
  | duplicateField name => "duplicate field " ++ mark name
  | unknownVariant name known =>
    "unknown variant " ++ mark name ++ ", expected one of " ++ ", ".intercalate (known.map mark)
  | wrongType found expected =>
    "invalid type: " ++ found.describe ++ ", expected " ++ expected
  | wrongValue found expected =>
    "invalid value: " ++ found.describe ++ ", expected " ++ expected
  | wrongLength length title fields =>
    "invalid length " ++ toString length ++ ", expected struct " ++ title ++ " with "
      ++ toString fields ++ " elements"

end ClassDiagram.Json
