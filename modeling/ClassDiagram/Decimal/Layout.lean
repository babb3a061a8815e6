import ClassDiagram.Decimal.Shortest

/-! # Laying out decimals

How the shortest digits of a floating-point number are written: in positions when the leading
digit is near the point, else as one digit, a fraction and a power of ten.

* `point_mem_positional`: digits in positions always have a point.
-/

namespace ClassDiagram.Decimal

/-- The least and the greatest exponent of the leading digit that is written in positions. -/
structure Layout where
  least : Int
  most : Int
  deriving DecidableEq, Repr

/-- Digits in positions, with a point that has a digit on either side. -/
def positional (d : Digits) : List Char :=
  if d.lead < 0 then
    '0' :: '.' :: List.replicate (-d.lead - 1).toNat '0' ++ d.digits
  else
    let whole := d.lead.toNat + 1
    let part := d.digits.drop whole
    d.digits.take whole ++ List.replicate (whole - d.digits.length) '0' ++ '.' ::
      (if part.isEmpty then ['0'] else part)

/-- Digits with a power of ten, whose sign is always written and which has no leading zeros. -/
def scientific (d : Digits) : List Char :=
  let part := d.digits.drop 1
  d.digits.take 1 ++ (if part.isEmpty then [] else '.' :: part) ++
    ['e', if d.lead < 0 then '-' else '+'] ++ Nat.toDigits 10 d.lead.natAbs

namespace Layout

def digits (l : Layout) (d : Digits) : List Char :=
  if l.least ≤ d.lead ∧ d.lead ≤ l.most then positional d else scientific d

/-- A finite floating-point number of 64 bits in its shortest digits. -/
def write (l : Layout) (f : Float) : String :=
  let bits := f.toBits.toNat
  let body := l.digits (shortest (Dyadic.ofBits bits))
  String.ofList (if bits < Nat.pow 2 63 then body else '-' :: body)

end Layout

theorem point_mem_positional (d : Digits) : '.' ∈ positional d := by
  unfold positional
  split <;> simp

end ClassDiagram.Decimal
