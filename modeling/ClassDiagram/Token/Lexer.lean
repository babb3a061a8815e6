import ClassDiagram.Text.Position
import ClassDiagram.Token.Catalog

/-! # Cutting a text into tokens

A text is cut into pieces from left to right: each piece is the best match of the catalog, or,
where nothing matches, raw text up to the next character at which something does.

* `flatMap_text_pieces`: the pieces put together are the text;
* `text_ne_nil_of_mem_pieces`: no piece is empty.
-/

namespace ClassDiagram

structure Piece where
  token : Token
  text : List Char
  deriving DecidableEq, Repr

/-- Where a token lies in a text, in bytes. -/
structure Span where
  token : Token
  offset : Nat
  length : Nat
  deriving DecidableEq, Repr

namespace TokenCatalog

/-- The number of characters before the first one at which something matches. -/
def rawLength (catalog : TokenCatalog) : List Char → Nat
  | [] => 0
  | c :: rest =>
    match catalog.bestMatch (c :: rest) with
    | some _ => 0
    | none => rawLength catalog rest + 1

/-- The token at the first of some characters, and how many of the others it covers. -/
def nextPiece (catalog : TokenCatalog) (c : Char) (rest : List Char) : Token × Nat :=
  match catalog.bestMatch (c :: rest) with
  | some (token, n) => (token, n - 1)
  | none => (.rawText, rawLength catalog rest)

def pieces (catalog : TokenCatalog) : List Char → List Piece
  | [] => []
  | c :: rest =>
    let (token, n) := nextPiece catalog c rest
    ⟨token, c :: rest.take n⟩ :: pieces catalog (rest.drop n)
termination_by text => text.length
decreasing_by simp only [List.length_drop, List.length_cons]; omega

theorem flatMap_text_pieces (catalog : TokenCatalog) (text : List Char) :
    (catalog.pieces text).flatMap Piece.text = text := by
  fun_induction pieces catalog text with
  | case1 => rfl
  | case2 c rest token n h ih => simp [ih]

theorem text_ne_nil_of_mem_pieces (catalog : TokenCatalog) (text : List Char) :
    ∀ p ∈ catalog.pieces text, p.text ≠ [] := by
  fun_induction pieces catalog text with
  | case1 => simp
  | case2 c rest token n h ih =>
    intro p hp
    rcases List.mem_cons.1 hp with rfl | hp
    · simp
    · exact ih p hp

end TokenCatalog

/-- Where pieces lie when the first one starts at `offset`. -/
def spansFrom (offset : Nat) : List Piece → List Span
  | [] => []
  | p :: rest =>
    ⟨p.token, offset, Text.byteCount p.text⟩ :: spansFrom (offset + Text.byteCount p.text) rest

/-- The tokens of a text, trivia included. -/
def TokenCatalog.tokenize (catalog : TokenCatalog) (text : List Char) : List Span :=
  spansFrom 0 (catalog.pieces text)

end ClassDiagram
