import ClassDiagram.Proofs.Token.LexemeLines

/-! # Tokens line by line

A line feed stands in a token for a line end, and in no other one.  So a text can be cut at its
line feeds before it is cut into tokens: what matters of it are the lexemes of the parts, with a
line end between them.

* `Lexeme.ofSpans_tokenize`: the lexemes of a text, by its tokens;
* `ofSpans_lineFeed`: the lexemes of a text of two parts.
-/

namespace ClassDiagram

open TokenCatalog Text

/-- The spans of pieces behind `u` cut their lexemes out of the text. -/
theorem Lexeme.ofSpans_spansFrom (u : List Char) (ps : List Piece) :
    ofSpans (u ++ ps.flatMap Piece.text) (spansFrom (byteCount u) ps)
      = ofPieces (byteCount u) ps := by
  induction ps generalizing u with
  | nil => rfl
  | cons p ps ih =>
    have hrest := ih (u ++ p.text)
    rw [List.append_assoc, byteCount_append] at hrest
    rw [List.flatMap_cons, spansFrom, ofPieces, ← hrest]
    by_cases htrivia : p.token.isTrivia = true
    · simp [ofSpans, htrivia]
    · simp [ofSpans, htrivia, slice_append]

/-- The lexemes of a text are those of its tokens that are no trivia. -/
theorem Lexeme.ofSpans_tokenize (text : List Char) :
    ofSpans text (classDiagram.tokenize text) = ofText text := by
  have h := ofSpans_spansFrom [] (classDiagram.pieces text)
  rwa [List.nil_append, flatMap_text_pieces] at h

/-- A token that is a line end has one line feed, and any other token has none. -/
theorem count_slice {text : List Char} {s : Span} (hs : s ∈ classDiagram.tokenize text) :
    (slice text s.offset (s.offset + s.length)).count '\n' = if s.token = .newline then 1 else 0 := by
  obtain ⟨u, x, v, rfl, hlies, hx, hcut⟩ := isCut_of_mem_tokenize hs
  rw [hlies.slice_eq, count_of_isCut hx hcut]

/-- The lexemes of two parts of a text with a line feed between them are those of the first part, a
line end that goes up to the second part, and those of the second part at their places there.  Line
ends have one line feed each, and other tokens have none. -/
theorem ofSpans_lineFeed (a b : List Char) :
    (∃ l : Lexeme, l.token = .newline ∧ l.stop = byteCount a + 1 ∧
      Lexeme.ofSpans (a ++ '\n' :: b) (classDiagram.tokenize (a ++ '\n' :: b))
        = Lexeme.ofSpans a (classDiagram.tokenize a) ++
          l :: (Lexeme.ofSpans b (classDiagram.tokenize b)).map
            (Lexeme.shift (byteCount a + 1))) ∧
    ∀ text, ∀ s ∈ classDiagram.tokenize text,
      (slice text s.offset (s.offset + s.length)).count '\n'
        = if s.token = .newline then 1 else 0 := by
  refine ⟨?_, fun text s hs => count_slice hs⟩
  rw [Lexeme.ofSpans_tokenize, Lexeme.ofSpans_tokenize, Lexeme.ofSpans_tokenize]
  exact Lexeme.ofText_lineFeed a b

/-- The first line has an open quotation mark and ends in a carriage return, which belongs to the
line end. -/
theorem ofSpans_lineFeed_openQuote :
    (∃ l : Lexeme, l.token = .newline ∧ l.stop = 6 ∧
      Lexeme.ofSpans "A \"b\r\nC".toList (classDiagram.tokenize "A \"b\r\nC".toList)
        = [⟨.word, "A", 0⟩, ⟨.rawText, "\"", 2⟩, ⟨.word, "b", 3⟩, l, ⟨.word, "C", 6⟩]) ∧
    (slice "A \"b\r\nC".toList 4 6).count '\n' = 1 := by
  have hfirst : Lexeme.ofSpans "A \"b\r".toList (classDiagram.tokenize "A \"b\r".toList)
      = [⟨.word, "A", 0⟩, ⟨.rawText, "\"", 2⟩, ⟨.word, "b", 3⟩] := by decide +kernel
  have hsecond : (Lexeme.ofSpans "C".toList (classDiagram.tokenize "C".toList)).map
      (Lexeme.shift (byteCount "A \"b\r".toList + 1)) = [⟨.word, "C", 6⟩] := by decide +kernel
  have hspan : (⟨.newline, 4, 2⟩ : Span) ∈ classDiagram.tokenize "A \"b\r\nC".toList := by
    decide +kernel
  obtain ⟨⟨l, hl, hstop, hlexemes⟩, hcount⟩ := ofSpans_lineFeed "A \"b\r".toList "C".toList
  rw [hfirst, hsecond] at hlexemes
  exact ⟨⟨l, hl, hstop, hlexemes⟩, hcount _ ⟨.newline, 4, 2⟩ hspan⟩

end ClassDiagram
