import ClassDiagram.Descriptor.Basic
import ClassDiagram.Error
import ClassDiagram.Json.Record
import ClassDiagram.Json.Value

/-! # Descriptors in JSON

The record formats of descriptors and of their parts, and the values they are written as.  Only
names and kinds must be given; whatever else is absent is empty, zero, false or public.

* `TypeRef.field?_name`, `Parameter.field?_name`, `DescribedMember.field?_name`,
  `Descriptor.field?_name`: every field is found under its own name.
-/

namespace ClassDiagram

open Json

/-! ## Words -/

/-- The words for a visibility; a package is what is visible internally. -/
def Visibility.words : List (String × Visibility) :=
  [("private", .priv), ("protected", .prot), ("internal", .internal), ("package", .internal),
    ("public", .pub)]

def Visibility.reader : Reader Visibility :=
  Reader.choice Visibility.words

def MemberKind.words : List (String × MemberKind) :=
  [("method", .method), ("field", .field), ("property", .property)]

def MemberKind.reader : Reader MemberKind :=
  Reader.choice MemberKind.words

/-! ## References -/

namespace TypeRef

inductive Part where
  | name
  | arity
  deriving DecidableEq, Repr

abbrev Part.Holds : Part → Type
  | name => String
  | arity => Nat

def format : RecordFormat Part Part.Holds where
  title := "TypeRef"
  fields := [.name, .arity]
  mem_fields f := by cases f <;> simp
  name
    | .name => "name"
    | .arity => "arity"
  otherName _ := none
  read
    | .name => Reader.string
    | .arity => Reader.count
  absent
    | .name => none
    | .arity => some (0 : Nat)

def reader : Reader TypeRef := do
  let v ← format.reader
  return { name := v .name, arity := v .arity }

def toJson (r : TypeRef) : Value :=
  .object [("name", .string r.name), ("arity", .natural r.arity)]

theorem field?_name (f : Part) : format.field? (format.name f) = some f := by
  cases f <;> decide

end TypeRef

/-! ## Parameters -/

namespace Parameter

inductive Part where
  | name
  | type
  deriving DecidableEq, Repr

def format : RecordFormat Part (fun _ => String) where
  title := "Parameter"
  fields := [.name, .type]
  mem_fields f := by cases f <;> simp
  name
    | .name => "name"
    | .type => "type_name"
  otherName
    | .name => none
    | .type => some "type"
  read _ := Reader.string
  absent
    | .name => none
    | .type => some ""

def reader : Reader Parameter := do
  let v ← format.reader
  return { name := v .name, type := v .type }

def toJson (p : Parameter) : Value :=
  .object [("name", .string p.name), ("type_name", .string p.type)]

theorem field?_name (f : Part) : format.field? (format.name f) = some f := by
  cases f <;> decide

end Parameter

/-! ## Members -/

namespace DescribedMember

inductive Part where
  | kind
  | name
  | type
  | parameters
  | visibility
  | isStatic
  | isAbstract
  deriving DecidableEq, Repr

abbrev Part.Holds : Part → Type
  | kind => MemberKind
  | name => String
  | type => String
  | parameters => List Parameter
  | visibility => Visibility
  | isStatic => Bool
  | isAbstract => Bool

def format : RecordFormat Part Part.Holds where
  title := "DescriptorMember"
  fields := [.kind, .name, .type, .parameters, .visibility, .isStatic, .isAbstract]
  mem_fields f := by cases f <;> simp
  name
    | .kind => "kind"
    | .name => "name"
    | .type => "type_name"
    | .parameters => "parameters"
    | .visibility => "accessibility"
    | .isStatic => "is_static"
    | .isAbstract => "is_abstract"
  otherName
    | .type => some "type"
    | _ => none
  read
    | .kind => MemberKind.reader
    | .name => Reader.string
    | .type => Reader.string
    | .parameters => Reader.list Parameter.reader
    | .visibility => Visibility.reader
    | .isStatic => Reader.boolean
    | .isAbstract => Reader.boolean
  absent
    | .kind => none
    | .name => none
    | .type => some ""
    | .parameters => some []
    | .visibility => some .pub
    | .isStatic => some false
    | .isAbstract => some false

def reader : Reader DescribedMember := do
  let v ← format.reader
  return {
    kind := v .kind
    name := v .name
    type := v .type
    parameters := v .parameters
    visibility := v .visibility
    isStatic := v .isStatic
    isAbstract := v .isAbstract }

def toJson (m : DescribedMember) : Value :=
  .object
    [("kind", .string m.kind.keyword),
      ("name", .string m.name),
      ("type_name", .string m.type),
      ("parameters", .list (m.parameters.map Parameter.toJson)),
      ("accessibility", .string m.visibility.keyword),
      ("is_static", .boolean m.isStatic),
      ("is_abstract", .boolean m.isAbstract)]

theorem field?_name (f : Part) : format.field? (format.name f) = some f := by
  cases f <;> decide

end DescribedMember

/-! ## Descriptors -/

namespace Descriptor

inductive Part where
  | name
  | arity
  | scope
  | base
  | interfaces
  | isAbstract
  | members
  deriving DecidableEq, Repr

abbrev Part.Holds : Part → Type
  | name => String
  | arity => Nat
  | scope => Option String
  | base => Option TypeRef
  | interfaces => List TypeRef
  | isAbstract => Bool
  | members => List DescribedMember

def format : RecordFormat Part Part.Holds where
  title := "TypeDescriptor"
  fields := [.name, .arity, .scope, .base, .interfaces, .isAbstract, .members]
  mem_fields f := by cases f <;> simp
  name
    | .name => "name"
    | .arity => "arity"
    | .scope => "namespace"
    | .base => "base_type"
    | .interfaces => "interfaces"
    | .isAbstract => "is_abstract"
    | .members => "members"
  otherName _ := none
  read
    | .name => Reader.string
    | .arity => Reader.count
    | .scope => Reader.optional Reader.string
    | .base => Reader.optional TypeRef.reader
    | .interfaces => Reader.list TypeRef.reader
    | .isAbstract => Reader.boolean
    | .members => Reader.list DescribedMember.reader
  absent
    | .name => none
    | .arity => some (0 : Nat)
    | .scope => some none
    | .base => some none
    | .interfaces => some []
    | .isAbstract => some false
    | .members => some []

def reader : Reader Descriptor := do
  let v ← format.reader
  return {
    name := v .name
    arity := v .arity
    scope := v .scope
    base := v .base
    interfaces := v .interfaces
    isAbstract := v .isAbstract
    members := v .members }

/-- What a descriptor is written as; where the type lives is left out when it is not known. -/
def toJson (d : Descriptor) : Value :=
  .object
    ([("name", .string d.name), ("arity", .natural d.arity)] ++
      (d.scope.map fun scope => ("namespace", Value.string scope)).toList ++
      [("base_type", (d.base.map TypeRef.toJson).getD .null),
        ("interfaces", .list (d.interfaces.map TypeRef.toJson)),
        ("is_abstract", .boolean d.isAbstract),
        ("members", .list (d.members.map DescribedMember.toJson))])

theorem field?_name (f : Part) : format.field? (format.name f) = some f := by
  cases f <;> decide

end Descriptor

/-! ## Whole texts -/

/-- What a reader finds in a text, as a result of this library. -/
def Json.Reader.result {α : Type} (r : Reader α) (s : Source) : Except Error α :=
  match r.whole s with
  | .ok a => .ok a
  | .error fault => .error (.descriptor fault.message)

def Visibility.ofJson (s : Source) : Except Error Visibility :=
  Visibility.reader.result s

end ClassDiagram
