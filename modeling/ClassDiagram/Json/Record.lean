import ClassDiagram.Json.Skip

/-! # Records

A record has named fields of different kinds.  In JSON it is an object, whose keys may come in
any order and may include others, or a list of its fields in order.  A field may have several
spellings; one that is not given takes the value it has when absent, if it has one.

* `Draft.set_same`, `Draft.set_other`: to fill in one field leaves the others as they are;
* `complete?_eq_some_iff`: a draft is complete exactly when each field has a value.
-/

namespace ClassDiagram.Json

/-- The format of a record whose field `f` has a value of type `V f`. -/
structure RecordFormat (F : Type) (V : F → Type) where
  title : String
  /-- The fields in order. -/
  fields : List F
  mem_fields : ∀ f, f ∈ fields
  name : F → String
  /-- Another spelling of the name. -/
  otherName : F → Option String
  read : (f : F) → Reader (V f)
  /-- The value of a field that is not given. -/
  absent : (f : F) → Option (V f)

/-- The fields of a record that have been given. -/
abbrev Draft {F : Type} (V : F → Type) := (f : F) → Option (V f)

namespace Draft

variable {F : Type} {V : F → Type}

def empty : Draft V := fun _ => none

def set [DecidableEq F] (d : Draft V) (f : F) (v : V f) : Draft V := fun g =>
  if h : f = g then some (h ▸ v) else d g

@[simp] theorem set_same [DecidableEq F] (d : Draft V) (f : F) (v : V f) :
    d.set f v f = some v := by
  simp [set]

theorem set_other [DecidableEq F] (d : Draft V) {f g : F} (v : V f) (h : f ≠ g) :
    d.set f v g = d g := by
  simp [set, h]

end Draft

namespace RecordFormat

variable {F : Type} {V : F → Type}

def field? (format : RecordFormat F V) (key : String) : Option F :=
  format.fields.find? fun f => format.name f == key || format.otherName f == some key

def value? (format : RecordFormat F V) (d : Draft V) (f : F) : Option (V f) :=
  (d f).or (format.absent f)

/-- The values of all fields, if each has one. -/
def complete? (format : RecordFormat F V) (d : Draft V) : Option ((f : F) → V f) :=
  if h : ∀ f ∈ format.fields, (format.value? d f).isSome then
    some fun f => (format.value? d f).get (h f (format.mem_fields f))
  else none

theorem complete?_eq_some_iff (format : RecordFormat F V) (d : Draft V) (v : (f : F) → V f) :
    format.complete? d = some v ↔ ∀ f, format.value? d f = some (v f) := by
  unfold complete?
  split
  · next h =>
    constructor
    · intro e f
      cases e
      simp
    · intro e
      congr 1
      funext f
      simp [e f]
  · next h =>
    constructor
    · intro e
      cases e
    · intro e
      exact absurd (fun f _ => by simp [e f]) h

/-- The values of all fields; the first field without one is missing. -/
def complete (format : RecordFormat F V) (d : Draft V) : Reader ((f : F) → V f) :=
  match format.complete? d with
  | some v => pure v
  | none =>
    match format.fields.find? fun f => (format.value? d f).isNone with
    | some f => Reader.fail (.missingField (format.name f))
    | none => Reader.fail .noValue

/-! ## As an object -/

/-- The fields behind those of a draft, up to the brace that closes the object, as many as the
bound allows.  No field is given twice. -/
def keyedWithin [DecidableEq F] (format : RecordFormat F V) :
    Nat → Bool → Draft V → Reader (Draft V)
  | 0, _, _ => Reader.fail (.ended .object)
  | bound + 1, first, d => do
    if ← Reader.anotherKey first then
      Reader.advance
      match format.field? (← Reader.stringRest) with
      | none =>
        Reader.colon
        Reader.skip
        format.keyedWithin bound false d
      | some f =>
        if (d f).isSome then Reader.fail (.duplicateField (format.name f))
        else
          Reader.colon
          let v ← format.read f
          format.keyedWithin bound false (d.set f v)
    else return d

/-- A record behind the brace that opens its object. -/
def keyed [DecidableEq F] (format : RecordFormat F V) : Reader ((f : F) → V f) := do
  let d ← format.keyedWithin ((← get).length + 1) true Draft.empty
  let v ← format.complete d
  Reader.advance
  return v

/-! ## As a list -/

/-- The fields that a list gives, in order; a list may end before fields that have a value when
absent. -/
def listedFrom [DecidableEq F] (format : RecordFormat F V) (count : Nat) (d : Draft V) :
    List F → Reader (Draft V)
  | [] => pure d
  | f :: fs => do
    if ← Reader.anotherElement (count == 0) then
      let v ← format.read f
      format.listedFrom (count + 1) (d.set f v) fs
    else if (format.absent f).isSome then format.listedFrom count d fs
    else Reader.fail (.wrongLength count format.title format.fields.length)

/-- A record behind the bracket that opens its list. -/
def listed [DecidableEq F] (format : RecordFormat F V) : Reader ((f : F) → V f) := do
  let d ← format.listedFrom 0 Draft.empty format.fields
  let v ← format.complete d
  Reader.closeList
  return v

def reader [DecidableEq F] (format : RecordFormat F V) : Reader ((f : F) → V f) := do
  match ← Reader.next .value with
  | some '\x7b' =>
    Reader.advance
    format.keyed
  | some '[' =>
    Reader.advance
    format.listed
  | _ => Reader.refuse ("struct " ++ format.title)

end RecordFormat

end ClassDiagram.Json
