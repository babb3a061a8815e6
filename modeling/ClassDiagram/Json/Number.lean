import ClassDiagram.Json.Reader

/-! # Numbers

A number is written as whole digits, perhaps a fraction, perhaps a power of ten.  It is first
read as it is written and then given a value: a whole number where it fits in 64 bits, else a
floating-point number.  The significand of a floating-point number takes as many of the written
digits, from the left, as fit in 64 bits; it is then scaled by a power of ten with at most one
rounding, except far below the range, where it is scaled in steps of `10 ^ 308`.

* `fit_le`: a significand never exceeds 64 bits.
-/

namespace ClassDiagram.Json

/-- A number as it is written, without its sign. -/
structure Numeral where
  whole : List Nat
  fraction : List Nat
  /-- The power of ten, if one is written. -/
  exponent : Option Int
  deriving DecidableEq, Repr

/-! ## As it is written -/

def digit? : Option Char → Option Nat
  | some c => if c.isDigit then some (c.toNat - '0'.toNat) else none
  | none => none

/-- The decimal digits that a source starts with, and what follows them. -/
def splitDigits : Source → List Nat × Source
  | [] => ([], [])
  | u :: rest =>
    match digit? u with
    | some d => let (ds, s) := splitDigits rest; (d :: ds, s)
    | none => ([], u :: rest)

namespace Reader

/-- At least one decimal digit; `whenEnded` is the fault of a source without any unit. -/
def digits (whenEnded : Fault) : Reader (List Nat) := do
  let s ← get
  match splitDigits s with
  | ([], _) => fail (if s.isEmpty then whenEnded else .badNumber)
  | (ds, rest) =>
    set rest
    return ds

def fraction (whenEnded : Fault) : Reader (List Nat) := do
  match ← get with
  | some '.' :: rest =>
    set rest
    digits whenEnded
  | _ => return []

def ofDigits (ds : List Nat) : Nat :=
  ds.foldl (fun n d => 10 * n + d) 0

def exponent (whenEnded : Fault) : Reader (Option Int) := do
  match ← get with
  | some 'e' :: rest | some 'E' :: rest =>
    match rest with
    | some '+' :: rest =>
      set rest
      return some (ofDigits (← digits whenEnded))
    | some '-' :: rest =>
      set rest
      return some (-(ofDigits (← digits whenEnded) : Int))
    | _ =>
      set rest
      return some (ofDigits (← digits whenEnded))
  | _ => return none

/-- A number behind its sign.  No zero stands before another whole digit. -/
def numeral (whenEnded : Fault) : Reader Numeral := do
  match ← digits whenEnded with
  | 0 :: _ :: _ => fail .badNumber
  | whole =>
    let part ← fraction whenEnded
    return ⟨whole, part, ← exponent whenEnded⟩

end Reader

/-! ## Its value -/

def natLimit : Nat := UInt64.size - 1

/-- A significand with as many more digits as fit, and the number of digits left out. -/
def fit (significand : Nat) : List Nat → Nat × Nat
  | [] => (significand, 0)
  | d :: ds =>
    if significand * 10 + d ≤ natLimit then fit (significand * 10 + d) ds
    else (significand, (d :: ds).length)

theorem fit_le {n : Nat} (h : n ≤ natLimit) (ds : List Nat) : (fit n ds).1 ≤ natLimit := by
  induction ds generalizing n with
  | nil => exact h
  | cons d ds ih =>
    unfold fit
    split
    · next hd => exact ih hd
    · exact h

/-- A power of ten within the range of floating-point numbers. -/
def powerOfTen (n : Nat) : Float := Float.ofScientific 1 false n

def greatestPower : Nat := 308

def scale (f : Float) (power : Int) : Except Fault Float :=
  if power.natAbs ≤ greatestPower then
    if 0 ≤ power then
      let product := f * powerOfTen power.natAbs
      if product.isInf then .error .numberTooLarge else .ok product
    else .ok (f / powerOfTen power.natAbs)
  else if f == 0 then .ok f
  else if 0 ≤ power then .error .numberTooLarge
  else scale (f / powerOfTen greatestPower) (power + greatestPower)
termination_by power.natAbs
decreasing_by
  simp only [greatestPower] at *
  omega

namespace Numeral

def parts (n : Numeral) : Nat × Int :=
  let (wholePart, left) := fit 0 n.whole
  let (significand, unused) := fit wholePart n.fraction
  (significand, (left : Int) - ((n.fraction.length : Int) - unused) + n.exponent.getD 0)

/-- Whether a number is written with whole digits only, and few enough for 64 bits. -/
def isWhole (n : Numeral) : Bool :=
  n.fraction.isEmpty && n.exponent.isNone && (fit 0 n.whole).2 == 0

/-- The value of a number.  A negative one is whole down to `-2 ^ 63`, zero with a sign is
not. -/
def content (n : Numeral) (negative : Bool) : Except Fault Content :=
  let (significand, power) := n.parts
  if n.isWhole && !negative then .ok (.natural significand)
  else if n.isWhole && Nat.ble 1 significand && Nat.ble significand (Nat.pow 2 63) then
    .ok (.negative significand)
  else do
    let f ← scale (Float.ofNat significand) power
    return .float (if negative then -f else f)

end Numeral

end ClassDiagram.Json
