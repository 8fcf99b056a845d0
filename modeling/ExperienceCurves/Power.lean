import ExperienceCurves.Estimate

/-!
Powers of binary numbers. The exact power is bracketed ever more tightly until it is known between
which two neighbouring numbers of the format it lies. A power that is itself a number of the
format is the result; otherwise an estimate chooses one of the two neighbours.
-/
namespace ExperienceCurves.Binary64

open Enclosure

/-- The number next to an endpoint on the side of zero. -/
def truncateEndpoint (x : Endpoint) : Binary64 := ofEndpointBy truncated false x

/-- The magnitude next to the bracketed number on the side of zero, and whether it is that number.
The precisions are tried in turn, and the lower end stands if none decides. -/
def below (bracket : Nat → Bracket) : List Nat → Binary64 × Bool
  | [] => (zero false, false)
  | bits :: finer =>
      let ends := bracket bits
      let magnitude := truncateEndpoint ends.lower
      if finer = [] ∨ magnitude = truncateEndpoint ends.upper then
        (magnitude, magnitude.isFinite && !magnitude.isZero && ends.lower == ends.upper &&
          magnitude.toRat == scaled ends.lower.mantissa ends.lower.exponent)
      else below bracket finer

def workingBits : List Nat := [128, 256, 512, 1024, 2048]

/-- The power of a positive number: exact if it can be, and else a neighbour of the exact power,
the one that is estimated. -/
def powPositive (x y : Binary64) (base : Endpoint) (exponent : Exponent) : Binary64 :=
  let (base, exponent) := takeRoots base exponent.negative exponent.numerator exponent.halvings
  let (magnitude, isExact) := below (fun bits => powerBracket bits base exponent) workingBits
  if isExact then magnitude
  else
    let guess := Estimate.power x y
    if guess = magnitude.away then guess else magnitude

def isOddExponent (e : Exponent) : Bool := e.halvings == 0 && e.numerator % 2 == 1

/-- The exponent as an odd whole number: no infinity is one. -/
def isOdd : Binary64 → Bool
  | finite negative mantissa exponent _ => isOddExponent (.ofFinite negative mantissa exponent)
  | _ => false

def isWhole : Binary64 → Bool
  | finite negative mantissa exponent _ => (Exponent.ofFinite negative mantissa exponent).halvings == 0
  | _ => false

/-- The power with the customary limits: anything to the zero and one to anything is one, a zero
or infinite base keeps its sign under odd exponents, and a negative base has only whole powers. -/
def pow (x y : Binary64) : Binary64 :=
  if y.isZero || x.eq 1 then 1
  else match x, y with
    | nan, _ => nan
    | _, nan => nan
    | _, infinite down =>
        if x.abs.eq 1 then 1
        else if (x.abs.lt 1) == down then infinite false else zero false
    | infinite s, finite down _ _ _ =>
        let negative := s && y.isOdd
        if down then zero negative else infinite negative
    | finite s mantissa exponent _, finite down n e _ =>
        let negative := s && y.isOdd
        if mantissa = 0 then if down then infinite negative else zero negative
        else if s && !y.isWhole then nan
        else
          let power := powPositive x.abs y ⟨mantissa, exponent⟩ (.ofFinite down n e)
          if negative then power.neg else power

end ExperienceCurves.Binary64
