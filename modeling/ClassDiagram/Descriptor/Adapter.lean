import ClassDiagram.Descriptor.Catalog
import ClassDiagram.Layout
import ClassDiagram.Model.Basic

/-! # Models of requested types

The types that were found become classes, in the order of the requests and each type once, with
the members that are visible enough.  An edge joins two found types; the parent's kind decides
what the edge says.  Names that were not found go into one note.

* `mem_distinct`: the types kept are among those given;
* `displayName_zero`: a type without parameters is shown by its bare name.
-/

namespace ClassDiagram

/-- How visible the members of each kind must be to be kept. -/
structure MemberFilter where
  methods : Visibility := .pub
  fields : Visibility := .pub
  properties : Visibility := .pub
  deriving DecidableEq, Repr, Inhabited

namespace MemberFilter

def uniform (floor : Visibility) : MemberFilter := ⟨floor, floor, floor⟩

def all : MemberFilter := uniform .priv

def publicOnly : MemberFilter := uniform .pub

def floor (f : MemberFilter) : MemberKind → Visibility
  | .method => f.methods
  | .field => f.fields
  | .property => f.properties

def keeps (f : MemberFilter) (m : DescribedMember) : Bool :=
  m.visibility.atLeast (f.floor m.kind)

end MemberFilter

/-! ## Members -/

namespace DescribedMember

def voidNames : List String := ["void", "Void", "System.Void"]

/-- The return type of a method, empty when it returns nothing. -/
def returnType (m : DescribedMember) : String :=
  if m.type ∈ voidNames then "" else m.type

/-- A parameter between the parentheses of a method. -/
def parameterText (p : Parameter) : String :=
  if p.type = "" then p.name
  else if p.name = "" then p.type
  else p.type ++ " " ++ p.name

/-- The member of a class that a described member becomes; a property becomes a field. -/
def toMember (m : DescribedMember) : Member :=
  match m.kind with
  | .method => .method {
      name := m.name
      arguments := ", ".intercalate (m.parameters.map parameterText)
      returnType := m.returnType
      visibility := m.visibility
      isStatic := m.isStatic
      isAbstract := m.isAbstract }
  | .field | .property => .field {
      name := m.name
      type := m.type
      visibility := m.visibility
      isStatic := m.isStatic }

end DescribedMember

/-! ## Names that are shown -/

namespace TypeRef

def parameterLetters : List String := ["T", "U", "V", "W", "X", "Y", "Z"]

/-- The name of a type parameter: a letter, or `T` with a number once the letters are used up. -/
def parameterName (i : Nat) : String :=
  (parameterLetters[i]?).getD ("T" ++ toString i)

/-- The name a type is shown by: its type parameters between angle brackets, behind the arity
when types of several arities share the bare name. -/
def displayName (r : TypeRef) (shared : Bool) : String :=
  if r.arity = 0 then r.name
  else
    r.name ++ (if shared then toString r.arity else "") ++ "<"
      ++ ", ".intercalate ((List.range r.arity).map parameterName) ++ ">"

theorem displayName_zero (name : String) (shared : Bool) :
    displayName ⟨name, 0⟩ shared = name := rfl

end TypeRef

/-! ## Models -/

namespace Adapter

/-- Each type once, where it first comes. -/
def distinct : List Descriptor → List Descriptor
  | [] => []
  | d :: ds => d :: (distinct ds).filter (!·.sameType d)

theorem mem_distinct {d : Descriptor} {ds : List Descriptor} (h : d ∈ distinct ds) : d ∈ ds := by
  induction ds with
  | nil => simp [distinct] at h
  | cons e es ih =>
    simp only [distinct, List.mem_cons, List.mem_filter] at h
    rcases h with h | h
    · exact h ▸ List.mem_cons_self
    · exact List.mem_cons_of_mem _ (ih h.1)

/-- The name a found type is shown by among all found types. -/
def className (found : List Descriptor) (d : Descriptor) : String :=
  d.ref.displayName (Nat.blt 1 (found.countP (·.name == d.name)))

def classOf (filter : MemberFilter) (found : List Descriptor) (d : Descriptor) : Class :=
  { name := className found d
    members := (d.members.filter filter.keeps).map DescribedMember.toMember }

/-- The edge from a found type to a parent, if the parent is another found type. -/
def edge? (found : List Descriptor) (d : Descriptor) (parent : TypeRef) : Option Edge :=
  match found.find? (·.isNamedBy parent) with
  | none => none
  | some p =>
    if p.sameType d then none
    else some ⟨className found d, className found p,
      if p.isAbstract then .implements else .inherits⟩

/-- The edges between found types, those of one child together. -/
def edges (found : List Descriptor) : List Edge :=
  found.flatMap fun d => d.parents.filterMap (edge? found d)

def found (requests : List (String × Option Descriptor)) : List Descriptor :=
  distinct (requests.filterMap (·.2))

/-- The names that the requests did not find, each as often as it was asked for. -/
def unresolved (requests : List (String × Option Descriptor)) : List String :=
  (requests.filter (·.2.isNone)).map (·.1)

/-- The note that names what was not found, if there is anything. -/
def notes (names : List String) : List Note :=
  if names.isEmpty then []
  else [{ target := none, text := ", ".intercalate names ++ " not found" }]

end Adapter

def Model.ofRequests (filter : MemberFilter) (requests : List (String × Option Descriptor)) :
    Model :=
  let found := Adapter.found requests
  let classes := (found.map (Adapter.classOf filter found)).foldl Model.addClass Model.empty
  let joined := (Adapter.edges found).foldl Model.addEdge classes
  (Adapter.notes (Adapter.unresolved requests)).foldl Model.addNote joined

def Catalog.model (c : Catalog) (filter : MemberFilter) (names : List String) : Model :=
  Model.ofRequests filter (c.resolve (Request.normalize names))

def Catalog.diagram (c : Catalog) (filter : MemberFilter) (names : List String) : String :=
  (c.model filter names).layout

end ClassDiagram
