import ClassDiagram.Token.Basic
import ClassDiagram.Token.Matcher

/-! # Catalogs of tokens

A catalog is an ordered list of tokens with their matchers.  At the start of a text the longest
match wins, and of several equally long ones the last entry.
-/

namespace ClassDiagram

/-- A token with one way of recognising it. -/
structure CatalogEntry where
  token : Token
  matcher : Matcher
  deriving DecidableEq, Repr

/-- Entries in order of registration. -/
abbrev TokenCatalog := List CatalogEntry

namespace TokenCatalog

/-- Keep the longer of the best match so far and the entry's own; the entry wins a tie.  An entry
that covers nothing does not match. -/
def prefer (text : List Char) (best : Option (Token × Nat)) (entry : CatalogEntry) :
    Option (Token × Nat) :=
  let n := entry.matcher.length text
  if n = 0 then best
  else
    match best with
    | none => some (entry.token, n)
    | some (token, m) => if m ≤ n then some (entry.token, n) else some (token, m)

/-- The winning token at the start of a text, with the number of characters it covers. -/
def bestMatch (catalog : TokenCatalog) (text : List Char) : Option (Token × Nat) :=
  catalog.foldl (prefer text) none

def literalEntry (token : Token) (text : String) : CatalogEntry :=
  ⟨token, .literal text.toList⟩

/-- The tokens of the class diagram language.  The four keywords stand after the identifier, so
that they win over it where both cover the same text. -/
def classDiagram : TokenCatalog :=
  [⟨.word, .word⟩,
   ⟨.whitespace, .blank⟩,
   literalEntry .newline "\n",
   literalEntry .newline "\r\n",
   literalEntry .plus "+",
   literalEntry .minus "-",
   literalEntry .hash "#",
   literalEntry .tilde "~",
   literalEntry .dollar "$",
   literalEntry .asterisk "*",
   literalEntry .colon ":",
   literalEntry .openBrace "\x7b",
   literalEntry .closeBrace "\x7d",
   literalEntry .openParen "(",
   literalEntry .closeParen ")",
   literalEntry .comma ",",
   literalEntry .openAngle "<",
   literalEntry .closeAngle ">",
   literalEntry .openBracket "[",
   literalEntry .closeBracket "]",
   literalEntry .question "?",
   literalEntry .annotationStart "<<",
   literalEntry .inheritsLeft "<|--",
   literalEntry .inheritsRight "--|>",
   literalEntry .realizesRight "..|>",
   literalEntry .realizesLeft "<|..",
   ⟨.comment, .comment⟩,
   ⟨.quotedString, .quoted⟩,
   literalEntry .header "classDiagram",
   literalEntry .classWord "class",
   literalEntry .noteWord "note",
   literalEntry .forWord "for"]

end TokenCatalog

end ClassDiagram
