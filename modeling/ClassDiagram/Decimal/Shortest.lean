/-! # Shortest decimals

The fewest decimal digits that still name a binary floating-point number.  A number `m · 2 ^ q`
is the nearest one to every real in an interval around it; the ends belong to the interval
exactly when `m` is even.  A decimal names the number when it lies in that interval.  For each
count of digits, only the two neighbours of the number on that grid can be the nearest such
decimal, so the first count with a neighbour in the interval gives the answer.

All arithmetic is exact, on natural numbers.

* `Dyadic.upper_gt`, `Dyadic.lower_lt`: the number lies strictly inside its interval.
-/

namespace ClassDiagram.Decimal

/-- The finite positive number `significand · 2 ^ exponent`.  Where the significand is the least
of its binade, the neighbour below is only half as far away as the one above. -/
structure Dyadic where
  significand : Nat
  exponent : Int
  narrowBelow : Bool
  deriving DecidableEq, Repr

namespace Dyadic

/-- The number of the 63 low bits of a floating-point number of 64 bits: 11 of exponent, 52 of
fraction. -/
def ofBits (bits : Nat) : Dyadic :=
  let fraction : Nat := bits % Nat.pow 2 52
  let binade : Nat := bits / Nat.pow 2 52 % Nat.pow 2 11
  if binade = 0 then ⟨fraction, -1074, false⟩
  else ⟨Nat.pow 2 52 + fraction, (binade : Int) - 1075, fraction == 0 && binade != 1⟩

/-- Quarters of a unit in the last place, the scale on which the interval's ends are whole. -/
def middle (v : Dyadic) : Nat := 4 * v.significand

def lower (v : Dyadic) : Nat := v.middle - (if v.narrowBelow then 1 else 2)

def upper (v : Dyadic) : Nat := v.middle + 2

theorem upper_gt (v : Dyadic) : v.middle < v.upper := by
  simp [upper]

theorem lower_lt {v : Dyadic} (h : 0 < v.significand) : v.lower < v.middle := by
  unfold lower middle
  split <;> omega

/-- `quarters · 2 ^ (exponent - 2) / 10 ^ place` as a fraction of natural numbers. -/
def fraction (v : Dyadic) (quarters : Nat) (place : Int) : Nat × Nat :=
  let e := v.exponent - 2
  (quarters * Nat.pow 2 e.toNat * Nat.pow 10 (-place).toNat,
    Nat.pow 2 (-e).toNat * Nat.pow 10 place.toNat)

/-- Whether `d · 10 ^ place` lies in the interval. -/
def contains (v : Dyadic) (d : Nat) (place : Int) : Bool :=
  let (low, scale) := v.fraction v.lower place
  let (high, _) := v.fraction v.upper place
  if v.significand % 2 = 0 then Nat.ble low (d * scale) && Nat.ble (d * scale) high
  else Nat.blt low (d * scale) && Nat.blt (d * scale) high

def leadingPlace (v : Dyadic) : Int :=
  let (n, d) := v.fraction v.middle 0
  let guess : Int := (Nat.toDigits 10 n).length - (Nat.toDigits 10 d).length
  let (n', d') := v.fraction v.middle guess
  if d' ≤ n' then guess else guess - 1

/-- The decimal with its last digit at `place` that names the number: of its two neighbours
there the nearer one in the interval, the even one at a tie. -/
def nearestAt? (v : Dyadic) (place : Int) : Option Nat :=
  let (n, d) := v.fraction v.middle place
  let below := n / d
  let rest := n % d
  let first := if 2 * rest < d ∨ (2 * rest = d ∧ below % 2 = 0) then below else below + 1
  let second := if first = below then below + 1 else below
  if v.contains first place then some first
  else if v.contains second place then some second
  else none

end Dyadic

/-- The decimal `0.d₁d₂… · 10 ^ (lead + 1)`: its digits and the exponent of the first of them. -/
structure Digits where
  digits : List Char
  lead : Int
  deriving DecidableEq, Repr

namespace Digits

/-- The digits of `d · 10 ^ place`, without zeros at the end. -/
def ofNat (d : Nat) (place : Int) : Digits :=
  let ds := Nat.toDigits 10 d
  ⟨(ds.reverse.dropWhile (· == '0')).reverse, place + ds.length - 1⟩

end Digits

/-- The shortest decimal of a number whose last digit is at `place` or below, searched on the
given number of grids. -/
def shortestFrom (v : Dyadic) (place : Int) : Nat → Digits
  | 0 =>
    let (n, d) := v.fraction v.middle place
    Digits.ofNat (n / d) place
  | more + 1 =>
    match v.nearestAt? place with
    | some d => Digits.ofNat d place
    | none => shortestFrom v (place - 1) more

/-- The shortest decimal that names a number; 17 digits always suffice, and zero is the one
digit `0`. -/
def shortest (v : Dyadic) : Digits :=
  if v.significand = 0 then ⟨['0'], 0⟩ else shortestFrom v v.leadingPlace 17

end ClassDiagram.Decimal
