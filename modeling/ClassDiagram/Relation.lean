/-! # Hierarchy relations

A class inherits from a parent or implements it.  In a diagram such edges are written as a chain
of names with operators between them; each operator joins its two neighbours and points at the
parent.

* `Chain.length_edges`: a chain has one edge per operator;
* `Chain.length_operands`: and one name more than it has operators.
-/

namespace ClassDiagram

inductive RelationKind where
  | inherits
  | implements
  deriving DecidableEq, Repr, Inhabited

def RelationKind.keyword : RelationKind → String
  | inherits => "inherits"
  | implements => "implements"

structure Edge where
  child : String
  parent : String
  kind : RelationKind
  deriving DecidableEq, Repr

/-- An operator between two names; the triangle is on the side of the parent. -/
inductive RelationOp where
  | inheritsLeft
  | inheritsRight
  | realizesRight
  | realizesLeft
  deriving DecidableEq, Repr

namespace RelationOp

def symbol : RelationOp → String
  | inheritsLeft => "<|--"
  | inheritsRight => "--|>"
  | realizesRight => "..|>"
  | realizesLeft => "<|.."

/-- The edge that an operator makes of the names at its two sides. -/
def edge (op : RelationOp) (left right : String) : Edge :=
  match op with
  | inheritsLeft => ⟨right, left, .inherits⟩
  | inheritsRight => ⟨left, right, .inherits⟩
  | realizesRight => ⟨left, right, .implements⟩
  | realizesLeft => ⟨right, left, .implements⟩

end RelationOp

/-- Names joined by operators, with an optional label that has no effect on the edges. -/
structure Chain where
  head : String
  links : List (RelationOp × String)
  label : Option String
  deriving DecidableEq, Repr

namespace Chain

def operands (c : Chain) : List String :=
  c.head :: c.links.map Prod.snd

/-- The edges of some links whose left neighbour is `left`. -/
def edgesFrom (left : String) : List (RelationOp × String) → List Edge
  | [] => []
  | (op, right) :: rest => op.edge left right :: edgesFrom right rest

def edges (c : Chain) : List Edge :=
  edgesFrom c.head c.links

theorem length_operands (c : Chain) : c.operands.length = c.links.length + 1 := by
  simp [operands]

theorem length_edgesFrom (left : String) (links : List (RelationOp × String)) :
    (edgesFrom left links).length = links.length := by
  induction links generalizing left with
  | nil => rfl
  | cons link rest ih => simp [edgesFrom, ih]

theorem length_edges (c : Chain) : c.edges.length = c.links.length :=
  length_edgesFrom c.head c.links

end Chain

end ClassDiagram
