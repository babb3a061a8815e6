import ClassDiagram.Grammar.Member
import ClassDiagram.Statement
import ClassDiagram.Text.Blank

/-! # Statements

The five kinds of statement, in the order in which they are tried: a class declaration, a tag for
a class, a chain of relations, a member of a class, a note.
-/

namespace ClassDiagram.Grammar

open Rule

def blankLines : Rule (List Lexeme) :=
  many (token .newline)

/-- A tag: a word between two opening and two closing angles. -/
def tag : Rule String := do
  let _ ← token .annotationStart
  let text ← word
  let _ ← token .closeAngle
  let _ ← token .closeAngle
  return text

inductive BodyItem where
  | tag (text : String)
  | member (member : Member)

/-- A tag or a member, with the line ends behind it. -/
def bodyItem : Rule BodyItem := do
  let item ← (do return BodyItem.tag (← tag)) <|> (do return BodyItem.member (← member))
  let _ ← blankLines
  return item

def body : Rule (List BodyItem) := do
  let _ ← token .openBrace
  let _ ← blankLines
  let items ← many bodyItem
  let _ ← token .closeBrace
  return items

namespace BodyItem

def tag? : BodyItem → Option String
  | tag text => some text
  | member _ => none

def member? : BodyItem → Option Member
  | tag _ => none
  | member m => some m

end BodyItem

/-- The declaration of a class with the items of its block, each member owned by the class. -/
def declarationOf (name : String) (items : List BodyItem) : Declaration :=
  { name
    tags := items.filterMap BodyItem.tag?
    members := (items.filterMap BodyItem.member?).map fun m => ⟨name, m⟩ }

def declaration : Rule Declaration := do
  let _ ← token .classWord
  let name ← typeName
  let items ← option body
  return declarationOf name (items.getD [])

def tagging : Rule (String × String) := do
  let text ← tag
  let owner ← typeName
  return (text, owner)

def relationOp : Rule RelationOp :=
  (do let _ ← token .inheritsLeft; return RelationOp.inheritsLeft) <|>
  (do let _ ← token .inheritsRight; return RelationOp.inheritsRight) <|>
  (do let _ ← token .realizesRight; return RelationOp.realizesRight) <|>
  (do let _ ← token .realizesLeft; return RelationOp.realizesLeft)

/-- The text between the first and the last of some lexemes, without the blanks at its ends. -/
def spannedText (text : List Char) (lexemes : List Lexeme) : String :=
  match lexemes.head?, lexemes.getLast? with
  | some first, some last =>
    String.ofList (Text.strip Text.isBlank (Text.slice text first.offset last.stop))
  | _, _ => ""

/-- A colon and the rest of the line, which may hold any lexemes but must hold one. -/
def label (text : List Char) : Rule String := do
  let _ ← token .colon
  let lexemes ← many1 (lexeme (·.token != .newline))
  return spannedText text lexemes

def link : Rule (RelationOp × String) := do
  let op ← relationOp
  let right ← typeName
  return (op, right)

def chain (text : List Char) : Rule Chain := do
  let head ← typeName
  let links ← many1 link
  let label ← option (label text)
  return { head, links, label }

def ownedMember : Rule OwnedMember := do
  let owner ← typeName
  let _ ← token .colon
  let member ← member
  return { owner, member }

/-- A note, its text without the quotation marks at its ends. -/
def note : Rule Note := do
  let _ ← token .noteWord
  let target ← option (do let _ ← token .forWord; typeName)
  let quoted ← token .quotedString
  return { target, text := String.ofList (Text.strip (· == '"') quoted.text.toList) }

/-- One statement; labels are cut out of `text`. -/
def statement (text : List Char) : Rule Statement :=
  (do return Statement.declare (← declaration)) <|>
  (do let (tag, owner) ← tagging; return Statement.annotate tag owner) <|>
  (do return Statement.relate (← chain text)) <|>
  (do return Statement.member (← ownedMember)) <|>
  (do return Statement.note (← note))

def statementLine (text : List Char) : Rule Statement := do
  let _ ← many1 (token .newline)
  statement text

/-- A whole diagram: the header, then statements on lines of their own. -/
def diagram (text : List Char) : Rule (List Statement) := do
  let _ ← blankLines
  let _ ← token .header
  let statements ← many (statementLine text)
  let _ ← blankLines
  let _ ← atEnd
  return statements

end ClassDiagram.Grammar
