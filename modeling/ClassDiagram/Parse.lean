import ClassDiagram.Error
import ClassDiagram.Grammar.Statement

/-! # Reading a diagram

A text is cut into lexemes and these are read by the grammar.  Where they are no diagram, the
error is at the furthest lexeme that some rule refused.
-/

namespace ClassDiagram

/-- What stands where a diagram cannot go on. -/
inductive Refusal where
  | endOfInput
  | unrecognized (text : String)
  | unexpected (lexeme : Lexeme)
  deriving DecidableEq, Repr

namespace Refusal

def ofLexeme? : Option Lexeme → Refusal
  | none => endOfInput
  | some l => if l.token = .rawText then unrecognized l.text else unexpected l

def message : Refusal → String
  | endOfInput => "unexpected end of input"
  | unrecognized text => "unrecognized text '" ++ text ++ "'"
  | unexpected l => "unexpected " ++ l.describe

end Refusal

/-- The statements of lexemes cut out of `text`, or the number of lexemes before the refused
one. -/
def statementsOrStop (text : List Char) (lexemes : List Lexeme) :
    Except Nat (List Statement) :=
  let step := Grammar.diagram text lexemes
  match step.found with
  | some (statements, _) => .ok statements
  | none => .error step.reach

/-- The error for reading that stopped behind `stop` lexemes. -/
def refusalError (text : List Char) (lexemes : List Lexeme) (stop : Nat) : Error :=
  let refused := lexemes[stop]?
  let offset := (refused.map Lexeme.offset).getD (Text.byteCount text)
  Error.parseAt (Refusal.ofLexeme? refused).message text offset

def statementsOfLexemes (text : List Char) (lexemes : List Lexeme) :
    Except Error (List Statement) :=
  match statementsOrStop text lexemes with
  | .ok statements => .ok statements
  | .error stop => .error (refusalError text lexemes stop)

/-- The statements of the tokens that spans cut out of a text, trivia dropped. -/
def statementsOfSpans (text : String) (spans : List Span) : Except Error (List Statement) :=
  statementsOfLexemes text.toList (Lexeme.ofSpans text.toList spans)

def statementsOfText (text : String) : Except Error (List Statement) :=
  statementsOfLexemes text.toList (Lexeme.ofText text.toList)

end ClassDiagram
