import ClassDiagram.Json.Scalar

/-! # Skipping values

A value that nobody asked for is passed over.  Its form is checked, but its strings are not
decoded and its numbers are given no value.
-/

namespace ClassDiagram.Json

namespace Reader

def skipString : Reader Unit := do
  let _ ← units skipEscape

def skipElements (skipElement : Reader Unit) : Nat → Bool → Reader Unit
  | 0, _ => fail (.ended .list)
  | bound + 1, first => do
    let u ← next .list
    if u = some ']' then advance
    else if first then
      skipElement
      skipElements skipElement bound false
    else if u = some ',' then
      advance
      skipElement
      skipElements skipElement bound false
    else fail .noListComma

def skipEntry (skipElement : Reader Unit) : Reader Unit := do
  match ← next .object with
  | some '"' =>
    advance
    skipString
    colon
    skipElement
  | _ => fail .keyNotString

def skipEntries (skipElement : Reader Unit) : Nat → Bool → Reader Unit
  | 0, _ => fail (.ended .object)
  | bound + 1, first => do
    let u ← next .object
    if u = some '\x7d' then advance
    else if first then
      skipEntry skipElement
      skipEntries skipElement bound false
    else if u = some ',' then
      advance
      skipEntry skipElement
      skipEntries skipElement bound false
    else fail .noObjectComma

/-- A value nested no deeper than the bound, with no more entries in one place. -/
def skipWithin : Nat → Reader Unit
  | 0 => fail (.ended .value)
  | bound + 1 => do
    match ← next .value with
    | some 'n' => constant ['n', 'u', 'l', 'l']
    | some 't' => constant ['t', 'r', 'u', 'e']
    | some 'f' => constant ['f', 'a', 'l', 's', 'e']
    | some '"' =>
      advance
      skipString
    | some '[' =>
      advance
      skipElements (skipWithin bound) (bound + 1) true
    | some '\x7b' =>
      advance
      skipEntries (skipWithin bound) (bound + 1) true
    | some '-' =>
      advance
      let _ ← numeral .badNumber
    | u =>
      if (digit? u).isSome then
        let _ ← numeral .badNumber
      else fail .noValue

/-- Any value, passed over.  Every level of nesting and every entry takes a unit of the source,
which bounds both. -/
def skip : Reader Unit := do
  skipWithin ((← get).length + 1)

end Reader

end ClassDiagram.Json
