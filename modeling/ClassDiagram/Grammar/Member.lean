import ClassDiagram.Grammar.TypeName
import ClassDiagram.Member

/-! # Members

A member is an optional visibility sign and then a method or a field; a method is tried first.
Without a sign a member is public.
-/

namespace ClassDiagram.Grammar

open Rule

/-- A visibility sign, public when there is none. -/
def visibility : Rule Visibility := do
  let sign ← option <|
    (do let _ ← token .plus; return Visibility.pub) <|>
    (do let _ ← token .minus; return Visibility.priv) <|>
    (do let _ ← token .hash; return Visibility.prot) <|>
    (do let _ ← token .tilde; return Visibility.internal)
  return sign.getD .pub

/-- An argument: type names and keywords, kept with single spaces between them. -/
def argument : Rule String := do
  return " ".intercalate (← many1 (typeName <|> keyword))

/-- The arguments of a method with their parentheses, kept with a comma and a space between
them. -/
def arguments : Rule String := do
  let items ← between .openParen .closeParen (option (sepBy1 argument .comma))
  return ", ".intercalate (items.getD [])

/-- The return type of a method, with or without a colon before it. -/
def returnType : Rule (Option String) :=
  option (do let _ ← flag .colon; typeName)

/-- A method.  An asterisk makes it abstract, before or behind the return type; a dollar sign
behind it makes it static. -/
def method : Rule Method := do
  let name ← name
  let arguments ← arguments
  let marked ← flag .asterisk
  let returnType ← returnType
  let classifiers ← many (token .asterisk <|> token .dollar)
  return {
    name
    arguments
    returnType := returnType.getD ""
    isStatic := classifiers.any (·.token == .dollar)
    isAbstract := marked || classifiers.any (·.token == .asterisk) }

/-- A field with its type before the name. -/
def typedField : Rule Field := do
  let type ← typeName
  let name ← name
  let isStatic ← flag .dollar
  return { name, type, isStatic }

/-- A field with its type behind the name and a colon. -/
def ascribedField : Rule Field := do
  let name ← name
  let _ ← token .colon
  let type ← typeName
  let isStatic ← flag .dollar
  return { name, type, isStatic }

def bareField : Rule Field := do
  let name ← name
  let isStatic ← flag .dollar
  return { name, isStatic }

def field : Rule Field :=
  typedField <|> ascribedField <|> bareField

def member : Rule Member := do
  let visibility ← visibility
  let member ← (do return Member.method (← method)) <|> (do return Member.field (← field))
  return member.withVisibility visibility

end ClassDiagram.Grammar
