import ClassDiagram.Grammar.Statement
import ClassDiagram.Proofs.Grammar.Reading

/-! # The grammar of class diagrams

The grammar as a relation between a value and the lexemes written for it, without any order of
trial and without greed: where a phrase may end is left open.  Each relation has the production
that it stands for above it.

The items of a block may follow each other on one line.  In a `lined` diagram they may not: at
least one line end stands between any two of them.
-/

namespace ClassDiagram.Grammar

/-- The four words of the language, which are names in the place of a member. -/
def isKeyword : Token → Bool
  | .header => true
  | .classWord => true
  | .noteWord => true
  | .forWord => true
  | _ => false

/-- `NEWLINE*` -/
def Newlines (s : List Lexeme) : Prop := ∀ l ∈ s, l.token = .newline

/-- A token that may be left out. -/
inductive IsFlag (t : Token) : Language Bool
  | absent : IsFlag t false []
  | present {l : Lexeme} : l.token = t → IsFlag t true [l]

/-- `NAME := WORD | KEYWORD` -/
inductive IsName : Language String
  | word {w : Lexeme} : w.token = .word → IsName w.text [w]
  | keyword {k : Lexeme} : isKeyword k.token = true → IsName k.text [k]

/-! ## Type names -/

/-- `suffix := "[" ","* "]" | "?"` -/
inductive IsSuffix : Language String
  | array {o c : Lexeme} {commas : List Lexeme} :
      o.token = .openBracket → (∀ l ∈ commas, l.token = .comma) → c.token = .closeBracket →
      IsSuffix ("[" ++ String.ofList (commas.map fun _ => ',') ++ "]") (o :: (commas ++ [c]))
  | nullable {q : Lexeme} : q.token = .question → IsSuffix "?" [q]

mutual

/-- `type_name := WORD arguments? suffix*` -/
inductive IsTypeName : Language String
  | mk {w : Lexeme} {arguments : String} {suffixes : List String} {u v : List Lexeme} :
      w.token = .word → IsTypeArguments arguments u → Many IsSuffix suffixes v →
      IsTypeName (w.text ++ arguments ++ String.join suffixes) (w :: (u ++ v))

/-- `arguments := "<" type_name ("," type_name)* ">" | "~" type_name ("," type_name)* "~"`, or
nothing -/
inductive IsTypeArguments : Language String
  | none : IsTypeArguments "" []
  | angle {o c : Lexeme} {names : List String} {u : List Lexeme} :
      o.token = .openAngle → IsTypeNames names u → c.token = .closeAngle →
      IsTypeArguments ("<" ++ ", ".intercalate names ++ ">") (o :: (u ++ [c]))
  | tilde {o c : Lexeme} {names : List String} {u : List Lexeme} :
      o.token = .tilde → IsTypeNames names u → c.token = .tilde →
      IsTypeArguments ("~" ++ ", ".intercalate names ++ "~") (o :: (u ++ [c]))

/-- `type_name ("," type_name)*` -/
inductive IsTypeNames : Language (List String)
  | one {n : String} {u : List Lexeme} : IsTypeName n u → IsTypeNames [n] u
  | more {n : String} {names : List String} {u v : List Lexeme} {c : Lexeme} :
      IsTypeName n u → c.token = .comma → IsTypeNames names v →
      IsTypeNames (n :: names) (u ++ c :: v)

end

/-! ## Members -/

/-- `type_name | KEYWORD` -/
inductive IsPart : Language String
  | typeName {n : String} {u : List Lexeme} : IsTypeName n u → IsPart n u
  | keyword {k : Lexeme} : isKeyword k.token = true → IsPart k.text [k]

/-- `argument := (type_name | KEYWORD)+` -/
inductive IsArgument : Language String
  | mk {parts : List String} {u : List Lexeme} :
      parts ≠ [] → Many IsPart parts u → IsArgument (" ".intercalate parts) u

/-- `"(" (argument ("," argument)*)? ")"` -/
inductive IsArguments : Language String
  | none {o c : Lexeme} : o.token = .openParen → c.token = .closeParen → IsArguments "" [o, c]
  | some {o c : Lexeme} {items : List String} {u : List Lexeme} :
      o.token = .openParen → Separated IsArgument .comma items u → c.token = .closeParen →
      IsArguments (", ".intercalate items) (o :: (u ++ [c]))

/-- `(":"? type_name)?` -/
inductive IsReturnType : Language (Option String)
  | none : IsReturnType none []
  | some {colon : Bool} {n : String} {u v : List Lexeme} :
      IsFlag .colon colon u → IsTypeName n v → IsReturnType (some n) (u ++ v)

/-- `("*" | "$")*` -/
def IsClassifiers (signs : List Lexeme) : Prop :=
  ∀ l ∈ signs, l.token = .asterisk ∨ l.token = .dollar

/-- `method := NAME "(" (argument ("," argument)*)? ")" "*"? (":"? type_name)? ("*" | "$")*` -/
inductive IsMethod : Language Method
  | mk {name arguments : String} {marked : Bool} {returnType : Option String}
      {u v w x signs : List Lexeme} :
      IsName name u → IsArguments arguments v → IsFlag .asterisk marked w →
      IsReturnType returnType x → IsClassifiers signs →
      IsMethod
        { name
          arguments
          returnType := returnType.getD ""
          isStatic := signs.any (·.token == .dollar)
          isAbstract := marked || signs.any (·.token == .asterisk) }
        (u ++ (v ++ (w ++ (x ++ signs))))

/-- `field := type_name NAME "$"? | NAME ":" type_name "$"? | NAME "$"?` -/
inductive IsField : Language Field
  | typed {type name : String} {isStatic : Bool} {u v w : List Lexeme} :
      IsTypeName type u → IsName name v → IsFlag .dollar isStatic w →
      IsField { name, type, isStatic } (u ++ (v ++ w))
  | ascribed {type name : String} {isStatic : Bool} {c : Lexeme} {u v w : List Lexeme} :
      IsName name u → c.token = .colon → IsTypeName type v → IsFlag .dollar isStatic w →
      IsField { name, type, isStatic } (u ++ c :: (v ++ w))
  | bare {name : String} {isStatic : Bool} {u v : List Lexeme} :
      IsName name u → IsFlag .dollar isStatic v → IsField { name, isStatic } (u ++ v)

/-- `visibility := "+" | "-" | "#" | "~"`, public when it is left out -/
inductive IsVisibility : Language Visibility
  | absent : IsVisibility .pub []
  | plus {l : Lexeme} : l.token = .plus → IsVisibility .pub [l]
  | minus {l : Lexeme} : l.token = .minus → IsVisibility .priv [l]
  | hash {l : Lexeme} : l.token = .hash → IsVisibility .prot [l]
  | tilde {l : Lexeme} : l.token = .tilde → IsVisibility .internal [l]

/-- `member := visibility? (method | field)` -/
inductive IsMember : Language Member
  | method {visibility : Visibility} {m : Method} {u v : List Lexeme} :
      IsVisibility visibility u → IsMethod m v →
      IsMember ((Member.method m).withVisibility visibility) (u ++ v)
  | field {visibility : Visibility} {f : Field} {u v : List Lexeme} :
      IsVisibility visibility u → IsField f v →
      IsMember ((Member.field f).withVisibility visibility) (u ++ v)

/-! ## Statements -/

/-- `annotation := "<<" WORD ">" ">"` -/
inductive IsTag : Language String
  | mk {o w c d : Lexeme} :
      o.token = .annotationStart → w.token = .word → c.token = .closeAngle →
      d.token = .closeAngle → IsTag w.text [o, w, c, d]

/-- `body_item := annotation | member` -/
inductive IsBodyItem : Language BodyItem
  | tag {text : String} {u : List Lexeme} : IsTag text u → IsBodyItem (.tag text) u
  | member {m : Member} {u : List Lexeme} : IsMember m u → IsBodyItem (.member m) u

/-- `(body_item NEWLINE*)*`; when `lined`, with a line end between any two items -/
inductive IsBodyItems (lined : Bool) : Language (List BodyItem)
  | nil : IsBodyItems lined [] []
  | cons {item : BodyItem} {items : List BodyItem} {u v w : List Lexeme} :
      IsBodyItem item u → Newlines v → IsBodyItems lined items w →
      (lined = true → v = [] → items = []) →
      IsBodyItems lined (item :: items) (u ++ (v ++ w))

/-- `"{" NEWLINE* (body_item NEWLINE*)* "}"` -/
inductive IsBody (lined : Bool) : Language (List BodyItem)
  | mk {o c : Lexeme} {items : List BodyItem} {u v : List Lexeme} :
      o.token = .openBrace → Newlines u → IsBodyItems lined items v → c.token = .closeBrace →
      IsBody lined items (o :: (u ++ (v ++ [c])))

/-- `class_decl := "class" type_name body?` -/
inductive IsDeclaration (lined : Bool) : Language Declaration
  | bare {k : Lexeme} {name : String} {u : List Lexeme} :
      k.token = .classWord → IsTypeName name u →
      IsDeclaration lined (declarationOf name []) (k :: u)
  | block {k : Lexeme} {name : String} {items : List BodyItem} {u v : List Lexeme} :
      k.token = .classWord → IsTypeName name u → IsBody lined items v →
      IsDeclaration lined (declarationOf name items) (k :: (u ++ v))

/-- `rel_op := "<|--" | "--|>" | "..|>" | "<|.."` -/
inductive IsRelationOp : Language RelationOp
  | inheritsLeft {l : Lexeme} : l.token = .inheritsLeft → IsRelationOp .inheritsLeft [l]
  | inheritsRight {l : Lexeme} : l.token = .inheritsRight → IsRelationOp .inheritsRight [l]
  | realizesRight {l : Lexeme} : l.token = .realizesRight → IsRelationOp .realizesRight [l]
  | realizesLeft {l : Lexeme} : l.token = .realizesLeft → IsRelationOp .realizesLeft [l]

/-- `rel_op type_name` -/
inductive IsLink : Language (RelationOp × String)
  | mk {op : RelationOp} {right : String} {u v : List Lexeme} :
      IsRelationOp op u → IsTypeName right v → IsLink (op, right) (u ++ v)

/-- `":" label`, the label being one or more lexemes of one line -/
inductive IsLabel (text : List Char) : Language String
  | mk {c : Lexeme} {lexemes : List Lexeme} :
      c.token = .colon → lexemes ≠ [] → (∀ l ∈ lexemes, l.token ≠ .newline) →
      IsLabel text (spannedText text lexemes) (c :: lexemes)

/-- `relation := type_name (rel_op type_name)+ (":" label)?` -/
inductive IsChain (text : List Char) : Language Chain
  | mk {head : String} {links : List (RelationOp × String)} {label : Option String}
      {u v w : List Lexeme} :
      IsTypeName head u → links ≠ [] → Many IsLink links v →
      Language.optional (IsLabel text) label w → IsChain text { head, links, label } (u ++ (v ++ w))

/-- `note := "note" ("for" type_name)? QUOTED` -/
inductive IsNote : Language Note
  | plain {k q : Lexeme} : k.token = .noteWord → q.token = .quotedString →
      IsNote { target := none, text := String.ofList (Text.strip (· == '"') q.text.toList) } [k, q]
  | about {k f q : Lexeme} {target : String} {u : List Lexeme} :
      k.token = .noteWord → f.token = .forWord → IsTypeName target u → q.token = .quotedString →
      IsNote { target := some target, text := String.ofList (Text.strip (· == '"') q.text.toList) }
        (k :: f :: (u ++ [q]))

/-- `statement := class_decl | annotation type_name | relation | type_name ":" member | note` -/
inductive IsStatement (lined : Bool) (text : List Char) : Language Statement
  | declare {d : Declaration} {u : List Lexeme} :
      IsDeclaration lined d u → IsStatement lined text (.declare d) u
  | annotate {tag owner : String} {u v : List Lexeme} :
      IsTag tag u → IsTypeName owner v → IsStatement lined text (.annotate tag owner) (u ++ v)
  | relate {chain : Chain} {u : List Lexeme} :
      IsChain text chain u → IsStatement lined text (.relate chain) u
  | member {owner : String} {member : Member} {c : Lexeme} {u v : List Lexeme} :
      IsTypeName owner u → c.token = .colon → IsMember member v →
      IsStatement lined text (.member { owner, member }) (u ++ c :: v)
  | note {note : Note} {u : List Lexeme} : IsNote note u → IsStatement lined text (.note note) u

/-- `NEWLINE+ statement` -/
inductive IsStatementLine (lined : Bool) (text : List Char) : Language Statement
  | mk {s : Statement} {u v : List Lexeme} :
      u ≠ [] → Newlines u → IsStatement lined text s v → IsStatementLine lined text s (u ++ v)

/-- `diagram := NEWLINE* "classDiagram" (NEWLINE+ statement)* NEWLINE*` -/
inductive IsDiagram (lined : Bool) (text : List Char) : Language (List Statement)
  | mk {h : Lexeme} {statements : List Statement} {u v w : List Lexeme} :
      Newlines u → h.token = .header → Many (IsStatementLine lined text) statements v →
      Newlines w → IsDiagram lined text statements (u ++ h :: (v ++ w))

end ClassDiagram.Grammar
