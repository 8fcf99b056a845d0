import ExperienceCurves.Binary64
import ExperienceCurves.Enclosure

/-!
A quick estimate of powers, computed in the format itself. The logarithm of the base is the
logarithm of a nearby table point plus a polynomial in the small remaining ratio, carried as a
sum of two numbers. The exponential of its product with the exponent is a table root of two times
a polynomial in the small remainder. Where the exact power falls between two numbers of the
format, the estimate says which of the two is meant.
-/
namespace ExperienceCurves.Binary64

-- Powers of whole numbers are those of the core library, whatever else is imported.
attribute [local instance (high)] instPowNat

open Enclosure

/-- The number that a rounding rule for quotients gives for an endpoint, whatever its exponent. -/
def ofEndpointBy (rounded : Bool → Nat → Nat → Binary64) (negative : Bool) (x : Endpoint) :
    Binary64 :=
  let top : Int := x.exponent + x.mantissa.log2
  if x.mantissa = 0 ∨ top < -1080 then zero negative
  else if 1030 < top then infinite negative
  else if 0 ≤ x.exponent then rounded negative (x.mantissa * 2 ^ x.exponent.toNat) 1
  else rounded negative x.mantissa (2 ^ (-x.exponent).toNat)

/-- The number nearest to an endpoint. -/
def ofEndpoint : Bool → Endpoint → Binary64 := ofEndpointBy nearest

end ExperienceCurves.Binary64

namespace ExperienceCurves.Estimate

attribute [local instance (high)] instPowNat Rat.instPowNat

open Binary64 Enclosure

/-- A constant `± mantissa * 2 ^ exponent`. -/
def constant (negative : Bool) (mantissa : Nat) (exponent : Int) : Binary64 :=
  ofEndpoint negative ⟨mantissa, exponent⟩

/-- The encoding of the least number of the first interval. -/
def firstPoint : Nat := 0x3fe6955500000000

/-- The numbers of one interval share all bits of their encodings but this many. -/
def pointBits : Nat := 45

/-- The places of the part of a logarithm that is added without error. -/
def leadingBits : Nat := 43

/-- A table point of the logarithm. Numbers between about 0.7057 and twice that fall into 128
equally long intervals, each with a table point near its middle. -/
structure LogPoint where
  /-- The inverse of the point, with so few bits that products with it stay exact. -/
  inverse : Binary64
  /-- The leading part of the logarithm of the point, and what is left of it. -/
  log : Binary64
  logRest : Binary64

/-- The bits that the tables are computed with. -/
def tableBits : Nat := 160

/-- Whole multiples of a 128th above one and of a 256th below are fine enough for inverses. -/
def inverseFor (middle : Rat) : Rat :=
  let parts : Nat := if middle ≤ 1 then 128 else 256
  mkRat (parts / middle + 1 / 2).floor parts

def logPoint (index : Nat) : LogPoint :=
  let lower := ofEncoding (firstPoint + index * 2 ^ pointBits)
  let upper := ofEncoding (firstPoint + (index + 1) * 2 ^ pointBits)
  let inverse := inverseFor ((lower.toRat + upper.toRat) / 2)
  let twos (n : Nat) : Endpoint := ⟨n, -8⟩
  let exact := mkRat (-(log tableBits (twos (inverse * 256).floor.toNat)).1) (2 ^ tableBits)
  let leading := mkRat (exact * 2 ^ leadingBits + 1 / 2).floor (2 ^ leadingBits)
  { inverse := ofRat false inverse, log := ofRat false leading,
    logRest := ofRat false (exact - leading) }

def logTable : Array LogPoint := (Array.range 128).map logPoint

/-- A table point of the exponential: a power of two whose exponent is a multiple of a 128th. -/
structure ExpPoint where
  root : Binary64
  /-- The relative rest of the exact power over its rounded value. -/
  rest : Binary64

def expPoint (index : Nat) : ExpPoint :=
  let bracket := powerBracket tableBits ⟨1, 1⟩ (.reduce false index 7)
  let exact := scaled bracket.lower.mantissa bracket.lower.exponent
  let root := ofRat false exact
  { root, rest := ofRat false (exact / root.toRat - 1) }

def expTable : Array ExpPoint := (Array.range 128).map expPoint

/-- The logarithm of two in two parts. -/
def logTwoHigh : Binary64 := constant false 0x162e42fefa3800 (-53)
def logTwoLow : Binary64 := constant false 0x1ef35793c76730 (-97)

def log3 : Binary64 := constant true 0x15555555555560 (-53)
def log4 : Binary64 := constant false 0x10000000000006 (-53)
def log5 : Binary64 := constant false 0x1999999959554e (-53)
def log6 : Binary64 := constant true 0x1555555529a47a (-53)
def log7 : Binary64 := constant true 0x12495b9b4845e9 (-52)
def log8 : Binary64 := constant false 0x10002b8b263fc3 (-52)

/-- The logarithm of a positive number given by its encoding, as a sum of two numbers. -/
def logParts (encoding : Int) : Binary64 × Binary64 :=
  let offset := encoding - firstPoint
  let order := offset / 2 ^ fractionBits
  let point := (logTable[(offset / 2 ^ pointBits % 128).toNat]?).getD ⟨1, 0, 0⟩
  let z := ofEncoding (encoding - order * 2 ^ fractionBits).toNat
  let k := ofInt order
  let r := mulAdd z point.inverse (-1)
  let t1 := mulAdd k logTwoHigh point.log
  let t2 := r + t1
  let low1 := mulAdd k logTwoLow point.logRest
  let low2 := (t1 - t2) + r
  let halved := constant true 1 (-1) * r
  let square := r * halved
  let cube := r * square
  let high := t2 + square
  let low3 := mulAdd halved r (-square)
  let low4 := (t2 - high) + square
  let upper := mulAdd (mulAdd r log8 log7) square (mulAdd r log6 log5)
  let series := mulAdd square upper (mulAdd r log4 log3)
  let low := mulAdd cube series (low1 + low2 + low3 + low4)
  let sum := high + low
  (sum, (high - sum) + low)

def stepsPerUnit : Binary64 := constant false 0x171547652b82fe (-45)
def stepHigh : Binary64 := constant true 0x162e42fefa0000 (-60)
def stepLow : Binary64 := constant true 0x1cf79abc9e3b3a (-99)

/-- Adding this number rounds to a whole number, and subtracting it leaves that number. -/
def roundingShift : Binary64 := constant false 3 51

def exp2 : Binary64 := constant false 0x1ffffffffffdbd (-54)
def exp3 : Binary64 := constant false 0x1555555555543c (-55)
def exp4 : Binary64 := constant false 0x155555cf172b91 (-57)
def exp5 : Binary64 := constant false 0x11111167a4d017 (-59)

/-- A small result, whose last places fall below the format: `value` is too large by the factor
`2 ^ 1022`, as are the two terms that it was rounded from. -/
def settleSmall (scale term value : Binary64) : Binary64 :=
  let settled :=
    if value.lt 1 then
      let rest := (scale - value) + term
      let high := 1 + value
      let rest := (1 - high) + value + rest
      (high + rest) - 1
    else value
  settled * constant false 1 (-1022)

/-- The exponential of the sum of two numbers. -/
def expParts (x rest : Binary64) : Binary64 :=
  let size := x.abs
  if size.lt (constant false 1 (-54)) then 1 + x
  else if (ofNat 1024).le size then if x.isNegative then zero false else infinite false
  else
    let shifted := mulAdd x stepsPerUnit roundingShift
    let steps := shifted - roundingShift
    let count := steps.toRat.floor
    let r := rest + mulAdd steps stepLow (mulAdd steps stepHigh x)
    let point := (expTable[(count % 128).toNat]?).getD ⟨1, 0⟩
    let square := r * r
    let fraction := mulAdd (mulAdd r exp5 exp4) (square * square)
      (mulAdd (mulAdd r exp3 exp2) square (r + point.rest))
    let order := count / 128
    if size.lt (ofNat 512) || 0 ≤ count then
      let scale := point.root.toRat * scaled 1 order
      ofRat false (scale * fraction.toRat + scale)
    else
      let scale := ofRat false (point.root.toRat * scaled 1 (order + 1022))
      let term := fraction * scale
      settleSmall scale term (scale + term)

/-- The estimated power of a positive number. Exponents so small that the power rounds to one, and
so large that it leaves the format, need no logarithm. -/
def power (x y : Binary64) : Binary64 :=
  if y.abs.lt (constant false 1 (-65)) then 1
  else if (constant false 1 63).le y.abs then
    if (ofNat 1).lt x == y.isNegative then zero false else infinite false
  else
    let encoding : Int :=
      if x.encoding < 2 ^ fractionBits then
        ((x * constant false 1 52).encoding : Int) - 52 * 2 ^ fractionBits
      else x.encoding
    let (high, low) := logParts encoding
    let product := y * high
    expParts product (mulAdd y low (mulAdd high y (-product)))

end ExperienceCurves.Estimate
