import ExperienceCurves.Rounding

/-!
Brackets around positive real numbers. Both ends of a bracket are whole mantissas times powers of
two, cut to a chosen number of bits, the lower end always downward and the upper end always
upward. Products, whole powers and inverses of brackets, and brackets of the natural logarithm
and of the exponential function by their series, give brackets of all powers.
-/
namespace ExperienceCurves.Enclosure

-- Powers of whole numbers are those of the core library, whatever else is imported.
attribute [local instance (high)] instPowNat

/-- The number `mantissa * 2 ^ exponent`. -/
structure Endpoint where
  mantissa : Nat
  exponent : Int
  deriving DecidableEq

structure Bracket where
  lower : Endpoint
  upper : Endpoint
  deriving DecidableEq

namespace Endpoint

def mul (x y : Endpoint) : Endpoint := ⟨x.mantissa * y.mantissa, x.exponent + y.exponent⟩

/-- How many low bits of the mantissa exceed `bits`. -/
def excess (bits : Nat) (x : Endpoint) : Nat := x.mantissa.log2 + 1 - bits

def cutDown (bits : Nat) (x : Endpoint) : Endpoint :=
  ⟨x.mantissa / 2 ^ excess bits x, x.exponent + excess bits x⟩

/-- A mantissa that already fits is kept, so exact numbers stay exact. -/
def cutUp (bits : Nat) (x : Endpoint) : Endpoint :=
  ⟨(x.mantissa + (2 ^ excess bits x - 1)) / 2 ^ excess bits x, x.exponent + excess bits x⟩

end Endpoint

namespace Bracket

def exact (x : Endpoint) : Bracket := ⟨x, x⟩

def one : Bracket := exact ⟨1, 0⟩

def mul (bits : Nat) (x y : Bracket) : Bracket :=
  ⟨(x.lower.mul y.lower).cutDown bits, (x.upper.mul y.upper).cutUp bits⟩

/-- Whole powers by squaring. -/
def power (bits : Nat) (x : Bracket) (n : Nat) : Bracket :=
  if n = 0 then one
  else
    let half := power bits x (n / 2)
    let square := mul bits half half
    if n % 2 = 0 then square else mul bits square x
termination_by n

def inverse (bits : Nat) (x : Bracket) : Bracket :=
  let shiftUp := bits + x.lower.mantissa.log2 + 1
  let shiftDown := bits + x.upper.mantissa.log2 + 1
  { lower := ⟨2 ^ shiftDown / x.upper.mantissa, -x.upper.exponent - shiftDown⟩
    upper := ⟨(2 ^ shiftUp + (x.lower.mantissa - 1)) / x.lower.mantissa,
               -x.lower.exponent - shiftUp⟩ }

end Bracket

/-- How a series of nonnegative terms divides, and what it adds for the terms left out after
`last`. -/
structure Direction where
  divide : Nat → Nat → Nat
  tail : Nat → Nat

def downward : Direction := ⟨fun num den => num / den, fun _ => 0⟩

/-- From where a series stops its terms at least halve, so twice the next one covers the rest. -/
def upward : Direction := ⟨fun num den => (num + (den - 1)) / den, fun last => 2 * last⟩

/-- The sum of `power / odd` over growing odd numbers, where `power` shrinks by the square of
`num / den` each time. -/
def artanhFrom (dir : Direction) (num den : Nat) : Nat → Nat → Nat → Nat
  | 0, _, power => dir.tail power
  | steps + 1, odd, power =>
      dir.divide power odd +
        artanhFrom dir num den steps (odd + 2) (dir.divide (power * (num * num)) (den * den))

/-- The area tangent of `num / den`, at most one third. -/
def artanh (dir : Direction) (bits num den : Nat) : Nat :=
  artanhFrom dir num den (bits / 3 + 2) 1 (dir.divide (num * 2 ^ bits) den)

def logTwo (dir : Direction) (bits : Nat) : Nat := 2 * artanh dir bits 1 3

/-- The terms of the exponential series from the `n`-th on. -/
def expFrom (dir : Direction) (bits argument : Nat) : Nat → Nat → Nat → Nat
  | 0, _, term => dir.tail term
  | steps + 1, n, term =>
      term + expFrom dir bits argument steps (n + 1) (dir.divide (term * argument) (2 ^ bits * n))

/-- The exponential of an argument below two. -/
def expSmall (dir : Direction) (bits argument : Nat) : Nat :=
  expFrom dir bits argument (bits / 3 + 16) 1 (2 ^ bits)

/-- Bounds of the natural logarithm of a positive number, in units of `2 ^ -bits`. With the
leading bit split off, the rest is the logarithm of a number in `[1, 2)`. -/
def log (bits : Nat) (x : Endpoint) : Int × Int :=
  let lead := 2 ^ x.mantissa.log2
  let order : Int := x.exponent + x.mantissa.log2
  let twos (low high : Nat) : Int := if 0 ≤ order then order * low else order * high
  let below := logTwo downward bits
  let above := logTwo upward bits
  let part (dir : Direction) : Int := 2 * artanh dir bits (x.mantissa - lead) (x.mantissa + lead)
  (twos below above + part downward, twos above below + part upward)

/-- Bounds of the exponential of a number between `low` and `high`, in units of `2 ^ -bits`. Whole
multiples of the logarithm of two become powers of two. -/
def exp (bits : Nat) (low high : Int) : Bracket :=
  let below := logTwo downward bits
  let above := logTwo upward bits
  let order : Int := low / above - 1
  let least := low - (if 0 ≤ order then order * above else order * below)
  let greatest := high - (if 0 ≤ order then order * below else order * above)
  { lower := ⟨expSmall downward bits least.toNat, order - bits⟩
    upper := ⟨expSmall upward bits greatest.toNat, order - bits⟩ }

/-- An exponent `± numerator / 2 ^ halvings`, which is whole only if `halvings` is zero. -/
structure Exponent where
  negative : Bool
  numerator : Nat
  halvings : Nat
  deriving DecidableEq

/-- Cancel the factors of two that `numerator / 2 ^ halvings` has in common. -/
def Exponent.reduce (negative : Bool) (numerator : Nat) : Nat → Exponent
  | 0 => ⟨negative, numerator, 0⟩
  | halvings + 1 =>
      if numerator % 2 = 0 then reduce negative (numerator / 2) halvings
      else ⟨negative, numerator, halvings + 1⟩

def Exponent.ofFinite (negative : Bool) (mantissa : Nat) (exponent : Int) : Exponent :=
  if 0 ≤ exponent then ⟨negative, mantissa * 2 ^ exponent.toNat, 0⟩
  else reduce negative mantissa (-exponent).toNat

/-- A square whose root has the same form. -/
def exactRoot? (x : Endpoint) : Option Endpoint :=
  let even : Endpoint := if x.exponent % 2 = 0 then x else ⟨2 * x.mantissa, x.exponent - 1⟩
  let root := Rounding.squareRoot even.mantissa
  if root * root = even.mantissa then some ⟨root, even.exponent / 2⟩ else none

/-- Trade halvings of the exponent for exact square roots of the base, as long as there are any. -/
def takeRoots (base : Endpoint) (negative : Bool) (numerator : Nat) : Nat → Endpoint × Exponent
  | 0 => (base, ⟨negative, numerator, 0⟩)
  | halvings + 1 =>
      match exactRoot? base with
      | some root => takeRoots root negative numerator halvings
      | none => (base, ⟨negative, numerator, halvings + 1⟩)

/-- A bracket of the power, for a positive base. -/
def powerBracket (bits : Nat) (base : Endpoint) (exponent : Exponent) : Bracket :=
  if exponent.halvings = 0 then
    let power := (Bracket.exact base).power bits exponent.numerator
    if exponent.negative then power.inverse bits else power
  else
    let (low, high) := log bits base
    let part (bound : Int) : Int := bound * exponent.numerator / 2 ^ exponent.halvings
    if exponent.negative then exp bits (-part high - 1) (-part low)
    else exp bits (part low) (part high + 1)

end ExperienceCurves.Enclosure
