import ClassDiagram.Token.Lexer

/-! # Lexemes

A lexeme is a token that matters, with its text and the byte where it starts.  Trivia make none.
-/

namespace ClassDiagram

/-- A significant token, the text it covers and the byte offset where it starts. -/
structure Lexeme where
  token : Token
  text : String
  offset : Nat
  deriving DecidableEq, Repr

namespace Lexeme

def stop (l : Lexeme) : Nat :=
  l.offset + l.text.utf8ByteSize

/-- How error messages speak of a lexeme: where the token does not fix the text, it is quoted. -/
def describe (l : Lexeme) : String :=
  match l.token with
  | .word | .rawText | .quotedString => l.token.describe ++ " '" ++ l.text ++ "'"
  | _ => l.token.describe

/-- The lexemes of pieces when the first piece starts at `offset`. -/
def ofPieces (offset : Nat) : List Piece → List Lexeme
  | [] => []
  | p :: rest =>
    let following := ofPieces (offset + Text.byteCount p.text) rest
    if p.token.isTrivia then following
    else ⟨p.token, String.ofList p.text, offset⟩ :: following

theorem ofPieces_append (offset : Nat) (ps qs : List Piece) :
    ofPieces offset (ps ++ qs)
      = ofPieces offset ps ++ ofPieces (offset + Text.byteCount (ps.flatMap Piece.text)) qs := by
  induction ps generalizing offset with
  | nil => rfl
  | cons p ps ih =>
    rw [List.cons_append, ofPieces, ofPieces, ih, List.flatMap_cons, Text.byteCount_append,
      ← Nat.add_assoc]
    by_cases h : p.token.isTrivia = true
    · simp [h]
    · simp [h]

def ofText (text : List Char) : List Lexeme :=
  ofPieces 0 (TokenCatalog.classDiagram.pieces text)

/-- The lexemes that spans cut out of a text, whether or not they cover it. -/
def ofSpans (text : List Char) (spans : List Span) : List Lexeme :=
  (spans.filter (!·.token.isTrivia)).map fun s =>
    ⟨s.token, String.ofList (Text.slice text s.offset (s.offset + s.length)), s.offset⟩

end Lexeme

end ClassDiagram
