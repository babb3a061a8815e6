import ClassDiagram.Json.Number

/-! # Strings and other single values

A string is read up to its closing quote, its escapes are decoded, and it is refused there when
some of its bytes make no character.  A value that is not of the kind asked for is read far
enough to say what it is: a string, a number or a constant whole, a list or an object only by its
first unit.

* `hexValue?_digit`: a decimal digit is a hexadecimal one of the same value.
-/

namespace ClassDiagram.Json

def hexValue? : Option Char → Option Nat
  | some c =>
    if c.isDigit then some (c.toNat - '0'.toNat)
    else if 'a' ≤ c ∧ c ≤ 'f' then some (c.toNat - 'a'.toNat + 10)
    else if 'A' ≤ c ∧ c ≤ 'F' then some (c.toNat - 'A'.toNat + 10)
    else none
  | none => none

theorem hexValue?_digit {c : Char} (h : c.isDigit = true) :
    hexValue? (some c) = digit? (some c) := by
  simp [hexValue?, digit?, h]

def unitSize : Option Char → Nat
  | some c => c.utf8Size
  | none => 1

namespace Reader

/-! ## Escapes -/

/-- The four hexadecimal digits of an escape.  The string ends in the middle of them only when
fewer than four bytes are left. -/
def hexEscape : Reader Nat := do
  let s ← get
  let four := s.take 4
  if four.foldl (fun n u => n + unitSize u) 0 < 4 then fail (.ended .string)
  else
    match four.mapM hexValue? with
    | some ds =>
      set (s.drop 4)
      return ds.foldl (fun n d => 16 * n + d) 0
    | none => fail .badEscape

def stringUnit : Reader (Option Char) := do
  match ← get with
  | [] => fail (.ended .string)
  | u :: rest =>
    set rest
    return u

/-- A given unit that must follow the first half of a pair. -/
def pairUnit (c : Char) : Reader Unit := do
  if (← stringUnit) = some c then return () else fail .halfPair

/-- The character of a code given by escapes: a code of the upper surrogates needs one of the
lower ones behind it, and the two make one character. -/
def codeEscape : Reader Char := do
  let n ← hexEscape
  if 0xDC00 ≤ n ∧ n ≤ 0xDFFF then fail .loneSurrogate
  else if 0xD800 ≤ n ∧ n ≤ 0xDBFF then
    pairUnit '\\'
    pairUnit 'u'
    let m ← hexEscape
    if 0xDC00 ≤ m ∧ m ≤ 0xDFFF then
      return Char.ofNat ((n - 0xD800) * 0x400 + (m - 0xDC00) + 0x10000)
    else fail .loneSurrogate
  else return Char.ofNat n

def shortEscape? : Option Char → Option Char
  | some '"' => some '"'
  | some '\\' => some '\\'
  | some '/' => some '/'
  | some 'b' => some '\x08'
  | some 'f' => some '\x0c'
  | some 'n' => some '\n'
  | some 'r' => some '\r'
  | some 't' => some '\t'
  | _ => none

def escape : Reader (Option Char) := do
  let u ← stringUnit
  if u = some 'u' then return some (← codeEscape)
  else
    match shortEscape? u with
    | some c => return some c
    | none => fail .badEscape

/-- An escape whose form alone is checked. -/
def skipEscape : Reader (Option Char) := do
  let u ← stringUnit
  if u = some 'u' then
    let _ ← hexEscape
    return none
  else if (shortEscape? u).isSome then return none
  else fail .badEscape

/-! ## Strings -/

/-- The units of a string up to its closing quote, as many as the bound allows. -/
def unitsWithin (escape : Reader (Option Char)) : Nat → Reader (List (Option Char))
  | 0 => fail (.ended .string)
  | bound + 1 => do
    match ← stringUnit with
    | some '"' => return []
    | some '\\' =>
      let u ← escape
      return u :: (← unitsWithin escape bound)
    | u =>
      if u.any (·.toNat < 0x20) then fail .controlCharacter
      else return u :: (← unitsWithin escape bound)

def units (escape : Reader (Option Char)) : Reader (List (Option Char)) := do
  unitsWithin escape ((← get).length + 1)

def stringRest : Reader String := do
  match (← units escape).mapM id with
  | some cs => return String.ofList cs
  | none => fail .badCharacter

/-! ## Single values -/

/-- What stands next, read whole unless it is a list or an object. -/
def content : Reader Content := do
  match ← next .value with
  | some 'n' =>
    constant ['n', 'u', 'l', 'l']
    return .null
  | some 't' =>
    constant ['t', 'r', 'u', 'e']
    return .boolean true
  | some 'f' =>
    constant ['f', 'a', 'l', 's', 'e']
    return .boolean false
  | some '"' =>
    advance
    return .string (← stringRest)
  | some '[' => return .sequence
  | some '\x7b' => return .map
  | some '-' =>
    advance
    let n ← numeral (.ended .value)
    n.content true
  | u =>
    if (digit? u).isSome then
      let n ← numeral (.ended .value)
      n.content false
    else fail .noValue

def refuse {α : Type} (expected : String) : Reader α := do
  fail (.wrongType (← content) expected)

def string : Reader String := do
  match ← content with
  | .string s => return s
  | found => fail (.wrongType found "a string")

def boolean : Reader Bool := do
  match ← content with
  | .boolean b => return b
  | found => fail (.wrongType found "a boolean")

def count : Reader Nat := do
  match ← content with
  | .natural n => return n
  | .negative n => fail (.wrongValue (.negative n) "usize")
  | found => fail (.wrongType found "usize")

/-- The constant that stands for nothing. -/
def unit : Reader Unit := do
  match ← content with
  | .null => return ()
  | found => fail (.wrongType found "unit")

/-! ## Composite values -/

def optional {α : Type} (r : Reader α) : Reader (Option α) := do
  match ← next .value with
  | some 'n' =>
    constant ['n', 'u', 'l', 'l']
    return none
  | _ => return some (← r)

def list {α : Type} (element : Reader α) : Reader (List α) := do
  match ← next .value with
  | some '[' =>
    advance
    elements element
  | _ => refuse "a sequence"

/-- The name of a variant, whose opening quote is next. -/
def variant {α : Type} (variants : List (String × α)) : Reader α := do
  advance
  let s ← stringRest
  match variants.find? (·.1 == s) with
  | some (_, a) => return a
  | none => fail (.unknownVariant s (variants.map (·.1)))

/-- One of several variants: its name, or an object with its name as the only key, for
nothing. -/
def choice {α : Type} (variants : List (String × α)) : Reader α := do
  match ← next .value with
  | some '"' => variant variants
  | some '\x7b' =>
    advance
    if ← anotherKey true then
      let a ← variant variants
      colon
      unit
      match ← next .object with
      | some '\x7d' =>
        advance
        return a
      | _ => fail .noValue
    else fail .noValue
  | _ => fail .noValue

end Reader

end ClassDiagram.Json
