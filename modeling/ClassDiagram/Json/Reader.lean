import ClassDiagram.Json.Fault
import ClassDiagram.Text.Utf8

/-! # Reading JSON from left to right

A reader takes something from the start of a source and leaves the rest, or stops at the first
fault.  Nothing is read ahead of what decides: a list or an object is read element by element,
and its punctuation is checked where it stands.

* `run_next_cons`, `run_next_blank`: the next unit is the first one behind blanks;
* `run_advance_cons`: to advance is to leave one unit behind.
-/

namespace ClassDiagram.Json

/-- What is read: characters, and `none` for a byte that belongs to none. -/
abbrev Source := List (Option Char)

def Source.ofString (s : String) : Source := s.toList.map some

def Source.ofBytes (bytes : ByteArray) : Source := Text.Utf8.characters bytes

def isBlank : Option Char → Bool
  | some ' ' | some '\n' | some '\t' | some '\r' => true
  | _ => false

/-- A way of reading the start of a source. -/
abbrev Reader := StateT Source (Except Fault)

namespace Reader

def fail {α : Type} (f : Fault) : Reader α := throw f

/-- The next unit behind blanks, which is not used yet; a source without one ends inside the
given construct. -/
def next (inside : Construct) : Reader (Option Char) := fun s =>
  match s.dropWhile isBlank with
  | [] => .error (.ended inside)
  | u :: rest => .ok (u, u :: rest)

def advance : Reader Unit := modify List.tail

@[simp] theorem run_next_blank (inside : Construct) {u : Option Char} (h : isBlank u = true)
    (s : Source) : (next inside).run (u :: s) = (next inside).run s := by
  simp [next, StateT.run, h]

@[simp] theorem run_next_cons (inside : Construct) {u : Option Char} (h : isBlank u = false)
    (s : Source) : (next inside).run (u :: s) = .ok (u, u :: s) := by
  simp [next, StateT.run, h]

@[simp] theorem run_next_nil (inside : Construct) :
    (next inside).run [] = .error (.ended inside) := rfl

@[simp] theorem run_advance_cons (u : Option Char) (s : Source) :
    advance.run (u :: s) = .ok ((), s) := rfl

/-- The given characters, which go on a word that has begun; a source can end inside it. -/
def constant : List Char → Reader Unit
  | [] => pure ()
  | c :: cs => do
    match ← get with
    | [] => fail (.ended .value)
    | u :: rest =>
      if u = some c then
        set rest
        constant cs
      else fail .noConstant

def colon : Reader Unit := do
  match ← next .object with
  | some ':' => advance
  | _ => fail .noColon

/-! ## Lists -/

/-- Whether another element follows in a list; the bracket that closes it is not used. -/
def anotherElement (first : Bool) : Reader Bool := do
  match ← next .list with
  | some ']' => return false
  | u =>
    if first then return true
    else if u = some ',' then
      advance
      match ← next .value with
      | some ']' => fail .trailingComma
      | _ => return true
    else fail .noListComma

def closeList : Reader Unit := do
  match ← next .list with
  | some ']' => advance
  | some ',' =>
    advance
    match (← get).dropWhile isBlank with
    | some ']' :: _ => fail .trailingComma
    | _ => fail .trailingText
  | _ => fail .trailingText

/-- The elements up to the end of a list, as many as the bound allows. -/
def elementsWithin {α : Type} (element : Reader α) : Nat → Bool → Reader (List α)
  | 0, _ => fail (.ended .list)
  | bound + 1, first => do
    if ← anotherElement first then
      let a ← element
      return a :: (← elementsWithin element bound false)
    else return []

/-- The elements of a list behind its opening bracket, up to and with the closing one.  Every
element takes a unit of the source, which bounds their number. -/
def elements {α : Type} (element : Reader α) : Reader (List α) := do
  let as ← elementsWithin element ((← get).length + 1) true
  closeList
  return as

/-! ## Objects -/

/-- Whether another key follows in an object; if so its opening quote is next, and if not the
brace that closes the object. -/
def anotherKey (first : Bool) : Reader Bool := do
  let u ← next .object
  if u = some '\x7d' then return false
  else if first then
    if u = some '"' then return true else fail .keyNotString
  else if u = some ',' then
    advance
    match ← next .value with
    | some '"' => return true
    | some '\x7d' => fail .trailingComma
    | _ => fail .keyNotString
  else fail .noObjectComma

/-! ## Whole texts -/

/-- What a reader finds in a source that holds nothing else. -/
def whole {α : Type} (r : Reader α) (s : Source) : Except Fault α := do
  let (a, rest) ← r.run s
  if rest.all isBlank then return a else throw .trailingText

end Reader

end ClassDiagram.Json
