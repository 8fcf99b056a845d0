import ExperienceCurves.Rounding

/-!
The binary interchange format with 53 significant bits. A finite value is a signed whole mantissa
times a power of two, kept canonical, so equal bit patterns are equal values of the type. Every
operation computes the exact rational result and rounds it once, to the nearest value of the
format and on a tie to the one with an even mantissa.
-/
namespace ExperienceCurves

-- Powers of whole numbers are those of the core library, whatever else is imported.
attribute [local instance (high)] instPowNat

/-- The bits of a full mantissa after its first one. -/
abbrev fractionBits : Nat := 52

/-- The mantissa uses the full width, except where the exponent cannot fall any further. -/
def Canonical (mantissa : Nat) (exponent : Int) : Prop :=
  mantissa < 2 ^ (fractionBits + 1) ∧ -1074 ≤ exponent ∧ exponent ≤ 971 ∧
    (2 ^ fractionBits ≤ mantissa ∨ exponent = -1074)

instance (mantissa : Nat) (exponent : Int) : Decidable (Canonical mantissa exponent) :=
  inferInstanceAs (Decidable (_ ∧ _))

inductive Binary64
  | nan
  | infinite (negative : Bool)
  | finite (negative : Bool) (mantissa : Nat) (exponent : Int)
      (canonical : Canonical mantissa exponent)
  deriving DecidableEq

namespace Binary64

open Rounding

/-- The rational number `mantissa * 2 ^ exponent`. -/
def scaled (mantissa : Nat) (exponent : Int) : Rat :=
  if 0 ≤ exponent then ((mantissa * 2 ^ exponent.toNat : Nat) : Rat)
  else mkRat mantissa (2 ^ (-exponent).toNat)

/-- The exact value of a finite number; the others count as zero. -/
def toRat : Binary64 → Rat
  | finite negative mantissa exponent _ =>
      if negative then -scaled mantissa exponent else scaled mantissa exponent
  | _ => 0

def isNan : Binary64 → Bool
  | nan => true
  | _ => false

def isInfinite : Binary64 → Bool
  | infinite _ => true
  | _ => false

def isFinite : Binary64 → Bool
  | finite .. => true
  | _ => false

def isZero : Binary64 → Bool
  | finite _ mantissa _ _ => mantissa == 0
  | _ => false

/-- The sign bit, set also for a negative zero. -/
def isNegative : Binary64 → Bool
  | nan => false
  | infinite negative => negative
  | finite negative _ _ _ => negative

def zero (negative : Bool) : Binary64 := finite negative 0 (-1074) (by decide)

/-- A mantissa of 54 bits carries into the exponent, and what is still outside the format is too
large for it. -/
def pack (negative : Bool) (mantissa : Nat) (exponent : Int) : Binary64 :=
  if h : Canonical mantissa exponent then finite negative mantissa exponent h
  else if h : mantissa = 2 ^ (fractionBits + 1) ∧ Canonical (2 ^ fractionBits) (exponent + 1) then
    finite negative (2 ^ fractionBits) (exponent + 1) h.2
  else infinite negative

/-- The exponent `k` with `2 ^ k ≤ num / den < 2 ^ (k + 1)`, for positive arguments. -/
def binaryOrder (num den : Nat) : Int :=
  let estimate : Int := (num.log2 : Int) - den.log2
  let reached :=
    if 0 ≤ estimate then den * 2 ^ estimate.toNat ≤ num else den ≤ num * 2 ^ (-estimate).toNat
  if reached then estimate else estimate - 1

/-- The number that stands for the quotient `num / den` when `divide` rounds its mantissa. -/
def ofQuotient (divide : Nat → Nat → Nat) (negative : Bool) (num den : Nat) : Binary64 :=
  if num = 0 then zero negative
  else
    let exponent := max (-1074) (binaryOrder num den - 52)
    let mantissa :=
      if 0 ≤ exponent then divide num (den * 2 ^ exponent.toNat)
      else divide (num * 2 ^ (-exponent).toNat) den
    pack negative mantissa exponent

/-- The number nearest to the quotient `num / den`. -/
def nearest : Bool → Nat → Nat → Binary64 := ofQuotient halfEven

/-- The number next to the quotient `num / den` on the side of zero. Beyond the largest finite
number there is only infinity. -/
def truncated : Bool → Nat → Nat → Binary64 := ofQuotient fun num den => num / den

/-- The number nearest to `r`. A rational zero has no sign, so the caller gives one. -/
def ofRat (negativeZero : Bool) (r : Rat) : Binary64 :=
  if r = 0 then zero negativeZero else nearest (r < 0) r.num.natAbs r.den

def ofInt (n : Int) : Binary64 := nearest (n < 0) n.natAbs 1

def ofNat (n : Nat) : Binary64 := nearest false n 1

instance (n : Nat) : OfNat Binary64 n := ⟨ofNat n⟩

/-- The number nearest to `digits * 10 ^ exponent`. -/
def ofDecimal (negative : Bool) (digits : Nat) (exponent : Int) : Binary64 :=
  if digits = 0 then zero negative
  else if 400 < exponent then infinite negative
  else if 0 ≤ exponent then nearest negative (digits * 10 ^ exponent.toNat) 1
  else if exponent < -(400 + (digits.log2 : Int)) then zero negative
  else nearest negative digits (10 ^ (-exponent).toNat)

def neg : Binary64 → Binary64
  | nan => nan
  | infinite negative => infinite !negative
  | finite negative mantissa exponent h => finite (!negative) mantissa exponent h

def abs : Binary64 → Binary64
  | nan => nan
  | infinite _ => infinite false
  | finite _ mantissa exponent h => finite false mantissa exponent h

/-- A sum that vanishes is negative only if both terms are. -/
def add : Binary64 → Binary64 → Binary64
  | nan, _ => nan
  | _, nan => nan
  | infinite s, infinite t => if s = t then infinite s else nan
  | infinite s, _ => infinite s
  | _, infinite t => infinite t
  | x, y => ofRat (x.isNegative && y.isNegative) (x.toRat + y.toRat)

def sub (x y : Binary64) : Binary64 := add x y.neg

def mul (x y : Binary64) : Binary64 :=
  let negative := x.isNegative != y.isNegative
  if x.isNan || y.isNan then nan
  else if x.isInfinite || y.isInfinite then
    if x.isZero || y.isZero then nan else infinite negative
  else ofRat negative (x.toRat * y.toRat)

def div (x y : Binary64) : Binary64 :=
  let negative := x.isNegative != y.isNegative
  if x.isNan || y.isNan || (x.isInfinite && y.isInfinite) || (x.isZero && y.isZero) then nan
  else if x.isInfinite || y.isZero then infinite negative
  else if y.isInfinite then zero negative
  else ofRat negative (x.toRat / y.toRat)

/-- The product of two numbers plus a third, rounded once. -/
def mulAdd (x y z : Binary64) : Binary64 :=
  if x.isFinite && y.isFinite && z.isFinite then
    ofRat ((x.isNegative != y.isNegative) && z.isNegative) (x.toRat * y.toRat + z.toRat)
  else add (mul x y) z

instance : Neg Binary64 := ⟨neg⟩
instance : Add Binary64 := ⟨add⟩
instance : Sub Binary64 := ⟨sub⟩
instance : Mul Binary64 := ⟨mul⟩
instance : Div Binary64 := ⟨div⟩

/-- The root of an even power of two times a large whole number, whose inexact root gets a half as
its last place, which decides every rounding as the exact root would. -/
def sqrt : Binary64 → Binary64
  | nan => nan
  | infinite negative => if negative then nan else infinite false
  | finite negative mantissa exponent _ =>
      if mantissa = 0 then zero negative
      else if negative then nan
      else
        let half := exponent / 2 - 60
        let radicand := mantissa * 2 ^ (exponent - 2 * half).toNat
        let root := squareRoot radicand
        let twice := if root * root = radicand then 2 * root else 2 * root + 1
        ofRat false (scaled twice (half - 1))

def eq : Binary64 → Binary64 → Bool
  | nan, _ => false
  | _, nan => false
  | infinite s, infinite t => s == t
  | infinite _, _ => false
  | _, infinite _ => false
  | x, y => x.toRat == y.toRat

def lt : Binary64 → Binary64 → Bool
  | nan, _ => false
  | _, nan => false
  | infinite s, infinite t => s && !t
  | infinite s, _ => s
  | _, infinite t => !t
  | x, y => x.toRat < y.toRat

def le (x y : Binary64) : Bool := lt x y || eq x y

/-- The encoding of a magnitude counts the numbers below it. -/
def encoding : Binary64 → Nat
  | finite _ mantissa exponent _ => (exponent + 1074).toNat * 2 ^ fractionBits + mantissa
  | infinite _ => 2047 * 2 ^ fractionBits
  | nan => 2047 * 2 ^ fractionBits + 1

/-- The magnitude with an encoding below that of infinity. -/
def ofEncoding (n : Nat) : Binary64 :=
  if n < 2 ^ fractionBits then pack false n (-1074)
  else pack false (n % 2 ^ fractionBits + 2 ^ fractionBits) (n / 2 ^ fractionBits - 1 - 1074)

/-- The next larger magnitude of the same sign. -/
def away (x : Binary64) : Binary64 :=
  match x with
  | finite negative .. =>
      let next := ofEncoding (x.encoding + 1)
      if negative then next.neg else next
  | x => x

/-- The largest finite value, `(2 ^ 53 - 1) * 2 ^ 971`. -/
def greatest : Nat := (2 ^ (fractionBits + 1) - 1) * 2 ^ (971 : Nat)

end Binary64

end ExperienceCurves
