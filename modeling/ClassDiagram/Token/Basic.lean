/-! # Tokens of the class diagram language

A token is a bare tag; the text it covers is kept beside it.
-/

namespace ClassDiagram

inductive Token where
  | plus
  | minus
  | hash
  | tilde
  | dollar
  | asterisk
  | colon
  | openBrace
  | closeBrace
  | openParen
  | closeParen
  | comma
  | openAngle
  | closeAngle
  | openBracket
  | closeBracket
  | question
  /-- Two opening angles; what closes them is two tokens, so that nested type arguments close. -/
  | annotationStart
  | inheritsLeft
  | inheritsRight
  | realizesRight
  | realizesLeft
  /-- The word that begins a diagram. -/
  | header
  | classWord
  | noteWord
  | forWord
  | newline
  /-- A run of spaces, tabs and carriage returns. -/
  | whitespace
  /-- Two percent signs and the rest of the line. -/
  | comment
  /-- A text in quotation marks on one line. -/
  | quotedString
  /-- An identifier, dotted or not. -/
  | word
  /-- A stretch that is no other token. -/
  | rawText
  deriving DecidableEq, Repr, Inhabited

namespace Token

/-- Tokens that carry no meaning and are dropped before reading. -/
def isTrivia : Token → Bool
  | whitespace => true
  | comment => true
  | _ => false

def describe : Token → String
  | plus => "'+'"
  | minus => "'-'"
  | hash => "'#'"
  | tilde => "'~'"
  | dollar => "'$'"
  | asterisk => "'*'"
  | colon => "':'"
  | openBrace => "'\x7b'"
  | closeBrace => "'\x7d'"
  | openParen => "'('"
  | closeParen => "')'"
  | comma => "','"
  | openAngle => "'<'"
  | closeAngle => "'>'"
  | openBracket => "'['"
  | closeBracket => "']'"
  | question => "'?'"
  | annotationStart => "'<<'"
  | inheritsLeft => "'<|--'"
  | inheritsRight => "'--|>'"
  | realizesRight => "'..|>'"
  | realizesLeft => "'<|..'"
  | header => "'classDiagram'"
  | classWord => "'class'"
  | noteWord => "'note'"
  | forWord => "'for'"
  | newline => "newline"
  | whitespace => "whitespace"
  | comment => "comment"
  | quotedString => "quoted string"
  | word => "identifier"
  | rawText => "unrecognized text"

end Token

end ClassDiagram
