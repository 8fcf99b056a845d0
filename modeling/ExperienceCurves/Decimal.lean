import ExperienceCurves.Binary64

/-!
Decimal notation of binary numbers. The digits of a number are the fewest that read back as it,
and of equally few the nearest to it. How the digits are set out is one record of decisions.
-/
namespace ExperienceCurves

-- Powers of whole numbers are those of the core library, whatever else is imported.
attribute [local instance (high)] instPowNat

/-- The number `digits * 10 ^ exponent`. -/
structure Decimal where
  digits : Nat
  exponent : Int
  deriving DecidableEq

namespace Decimal

def tenTo (k : Int) : Rat :=
  if 0 ≤ k then ((10 ^ k.toNat : Nat) : Rat) else mkRat 1 (10 ^ (-k).toNat)

/-- Remove zeros at the end of the digits. -/
def trim (digits : Nat) (exponent : Int) : Decimal :=
  if digits = 0 ∨ digits % 10 ≠ 0 then ⟨digits, exponent⟩ else trim (digits / 10) (exponent + 1)
termination_by digits

/-- The exponent of the leading digit of a positive number: an estimate from the binary order,
which is at most one off. -/
def leadingExponent (value : Rat) : Int :=
  let estimate := Binary64.binaryOrder value.num.natAbs value.den * 30103 / 100000
  if tenTo (estimate + 1) ≤ value then estimate + 1
  else if value < tenTo estimate then estimate - 1
  else estimate

def readsAs (d : Decimal) (x : Binary64) : Bool :=
  Binary64.ofDecimal false d.digits d.exponent == x

/-- Search the decimal grids from the coarsest: on each, only the two neighbours of the value can
read back as the number closest to it. The last grid is fine enough for every number. -/
def shortestFrom (x : Binary64) (value : Rat) : Nat → Int → Decimal
  | finer, exponent =>
      let place := value * tenTo (-exponent)
      let below := place.floor.toNat
      let rest := place - below
      let aboveIsNearer : Bool := 1 < 2 * rest || (2 * rest == 1 && below % 2 == 1)
      let nearer : Decimal := ⟨if aboveIsNearer then below + 1 else below, exponent⟩
      let farther : Decimal := ⟨if aboveIsNearer then below else below + 1, exponent⟩
      if nearer.readsAs x then nearer
      else if farther.readsAs x then farther
      else match finer with
        | 0 => nearer
        | finer + 1 => shortestFrom x value finer (exponent - 1)

/-- The shortest decimal of a finite number, without its sign. Seventeen digits suffice. -/
def shortest (x : Binary64) : Decimal :=
  let magnitude := x.abs
  let value := magnitude.toRat
  if value = 0 then ⟨0, 0⟩
  else
    let found := shortestFrom magnitude value 16 (leadingExponent value)
    trim found.digits found.exponent

/-- Which numbers are written without an exponent, and the words for what has no digits. -/
structure Layout where
  leastPositional : Int
  greatestPositional : Int
  exponentWidth : Nat
  nan : String
  infinity : String

def zeros (n : Nat) : List Char := List.replicate n '0'

/-- Digits around the point, with at least one on either side. -/
def positional (digits : List Char) (point : Int) : List Char :=
  if point ≤ 0 then '0' :: '.' :: zeros (-point).toNat ++ digits
  else if (digits.length : Int) ≤ point then
    digits ++ zeros (point.toNat - digits.length) ++ ['.', '0']
  else digits.take point.toNat ++ '.' :: digits.drop point.toNat

/-- One digit before the point, and the power of ten with its sign. -/
def scientific (width : Nat) (digits : List Char) (power : Int) : List Char :=
  let fraction := match digits.drop 1 with
    | [] => []
    | rest => '.' :: rest
  let written := Nat.toDigits 10 power.natAbs
  digits.take 1 ++ fraction ++ ['e', if power < 0 then '-' else '+'] ++
    zeros (width - written.length) ++ written

def setOut (layout : Layout) (d : Decimal) : List Char :=
  let digits := Nat.toDigits 10 d.digits
  if d.digits = 0 then ['0', '.', '0']
  else
    let point := digits.length + d.exponent
    if layout.leastPositional ≤ point - 1 ∧ point - 1 ≤ layout.greatestPositional then
      positional digits point
    else scientific layout.exponentWidth digits (point - 1)

def write (layout : Layout) (x : Binary64) : String :=
  let sign := if x.isNegative then "-" else ""
  if x.isNan then layout.nan
  else if x.isInfinite then sign ++ layout.infinity
  else sign ++ String.ofList (setOut layout (shortest x))

end Decimal

/-- Numbers have no exponent from a ten-thousandth up to sixteen digits before the point. -/
def numberLayout : Decimal.Layout :=
  { leastPositional := -4, greatestPositional := 15, exponentWidth := 2, nan := "nan",
    infinity := "inf" }

namespace Binary64

def text (x : Binary64) : String := Decimal.write numberLayout x

/-- The number nearest to the decimal with the given places after the point that is nearest to the
exact value of `x`; both times a tie goes to the even neighbour. -/
def roundedTo (places : Nat) (x : Binary64) : Binary64 :=
  if x.isFinite then
    let scaled := x.toRat * Decimal.tenTo places
    ofDecimal x.isNegative (Rounding.halfEven scaled.num.natAbs scaled.den) (-places)
  else x

end Binary64

end ExperienceCurves
