import ClassDiagram.OrderedMap
import ClassDiagram.Text.Blank

/-! # Requested names

A type is asked for by a name as it stands in metadata, or with its type arguments between angle
brackets.  Arguments count only by their number: `Foo<A, B>` asks for the type `Foo` of arity two.
The number has no upper bound here; a counter of 32 bits with a sign holds it as long as fewer than
`2 ^ 31 - 1` commas separate the arguments, and names with more of them are outside the model.

* `metadataForm_of_no_angle`: a name without an opening bracket stands for itself.
-/

namespace ClassDiagram.Request

/-- The commas of a list of type arguments that separate its own arguments, not those of an
argument; `depth` counts the brackets that are open. -/
def topCommas (depth : Nat) : List Char → Nat
  | [] => 0
  | '<' :: rest => topCommas (depth + 1) rest
  | '>' :: rest => topCommas (depth - 1) rest
  | ',' :: rest => (if depth = 0 then 1 else 0) + topCommas depth rest
  | _ :: rest => topCommas depth rest

/-- What stands before the last closing bracket, if there is one. -/
def beforeLastAngle (cs : List Char) : Option (List Char) :=
  match cs.reverse.dropWhile (· ≠ '>') with
  | [] => none
  | _ :: before => some before.reverse

/-- The name in metadata that a name with type arguments stands for: the arguments lie between
the first opening and the last closing bracket, and their number follows a grave accent. -/
def metadataForm (name : String) : String :=
  let bare := name.toList.takeWhile (· ≠ '<')
  match name.toList.dropWhile (· ≠ '<') with
  | [] => name
  | _ :: rest =>
    match beforeLastAngle rest with
    | none => name
    | some arguments =>
      String.ofList bare ++ "`" ++ toString (topCommas 0 arguments + 1)

/-- Names as they are looked up: without blanks around them, in their metadata form, the blank
ones dropped and each once, where it first comes. -/
def normalize (names : List String) : List String :=
  (OrderedSet.ofList
    (((names.map Text.trim).filter (· ≠ "")).map metadataForm)).items

theorem metadataForm_of_no_angle {name : String} (h : '<' ∉ name.toList) :
    metadataForm name = name := by
  have h' : name.toList.dropWhile (· ≠ '<') = [] := by
    refine (Text.dropWhile_eq_nil_iff_all _ _).2 ?_
    simp only [List.all_eq_true]
    intro c hc
    have : c ≠ '<' := fun e => h (e ▸ hc)
    simpa using this
  simp only [metadataForm, h']

end ClassDiagram.Request
