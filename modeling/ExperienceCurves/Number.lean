import ExperienceCurves.Decimal
import ExperienceCurves.Fault
import ExperienceCurves.Numeral
import ExperienceCurves.Power

/-!
Numbers as curves and characters hold them: whole numbers without bound, binary numbers, and truth
values, which count as one and zero. Whole numbers compute exactly; as soon as a binary number
takes part, the whole number is rounded to one, if it is not too large. Comparisons are exact
across the kinds.
-/
namespace ExperienceCurves

-- Powers of whole numbers are those of the core library, whatever else is imported.
attribute [local instance (high)] instPowNat

inductive Number
  | truth (b : Bool)
  | int (n : Int)
  | real (x : Binary64)
  deriving DecidableEq

namespace Binary64

/-- The nearest binary number, if the whole number is in range. -/
def ofInt? (n : Int) : Except Fault Binary64 :=
  let x := ofInt n
  if x.isInfinite then .error .integerTooLarge else .ok x

def floor? : Binary64 → Except Fault Int
  | nan => .error .nanAsInteger
  | infinite _ => .error .infinityAsInteger
  | x => .ok x.toRat.floor

def ceil? : Binary64 → Except Fault Int
  | nan => .error .nanAsInteger
  | infinite _ => .error .infinityAsInteger
  | x => .ok x.toRat.ceil

/-- The whole part, cut toward zero. -/
def truncate? : Binary64 → Except Fault Int
  | nan => .error .nanAsInteger
  | infinite _ => .error .infinityAsInteger
  | x => .ok (if x.toRat < 0 then x.toRat.ceil else x.toRat.floor)

end Binary64

namespace Number

instance : Coe Int Number := ⟨int⟩
instance : Coe Binary64 Number := ⟨real⟩
instance (n : Nat) : OfNat Number n := ⟨int n⟩

/-- Truth values as whole numbers. -/
def plain : Number → Number
  | truth b => int (if b then 1 else 0)
  | n => n

def toBinary64 (n : Number) : Except Fault Binary64 :=
  match n.plain with
  | int n => Binary64.ofInt? n
  | real x => .ok x
  | truth _ => .ok 0

/-- Apply the exact operation to two whole numbers and the rounded one otherwise. -/
def combine (exact : Int → Int → Except Fault Number)
    (rounded : Binary64 → Binary64 → Except Fault Number) (x y : Number) : Except Fault Number :=
  match x.plain, y.plain with
  | int m, int n => exact m n
  | x, y => do
      let left ← x.toBinary64
      let right ← y.toBinary64
      rounded left right

def add : Number → Number → Except Fault Number :=
  combine (fun m n => .ok (int (m + n))) (fun x y => .ok (real (x + y)))

def sub : Number → Number → Except Fault Number :=
  combine (fun m n => .ok (int (m - n))) (fun x y => .ok (real (x - y)))

def mul : Number → Number → Except Fault Number :=
  combine (fun m n => .ok (int (m * n))) (fun x y => .ok (real (x * y)))

/-- The binary number nearest to a quotient of whole numbers. -/
def quotient (m n : Int) : Except Fault Number :=
  if n = 0 then .error .divisionByZero
  else
    let x := Binary64.nearest (decide (m < 0) != decide (n < 0)) m.natAbs n.natAbs
    if x.isInfinite then .error .quotientTooLarge else .ok (real x)

def div : Number → Number → Except Fault Number :=
  combine quotient fun x y =>
    if y.isZero then .error .divisionByZero else .ok (real (x / y))

/-- Whether a power is no real number: a fraction of a negative base. -/
def isComplexPower (x y : Binary64) : Bool :=
  x.lt 0 && x.isFinite && y.isFinite && y.toRat.den != 1

/-- A power that leaves the range, or of zero to a negative exponent, has no result. -/
def powReal (x y : Binary64) : Except Fault Number :=
  if x.isZero && y.isFinite && y.isNegative && !y.isZero then .error .divisionByZero
  else if isComplexPower x y then
    .error (if (x.abs.pow y).isInfinite then .powerTooLarge else .notNumber)
  else
    let power := x.pow y
    if power.isInfinite && x.isFinite && y.isFinite then .error .powerTooLarge
    else .ok (real power)

/-- A whole power of a whole number; bases of size at most one need no multiplication. -/
def wholePower (m : Int) (exponent : Nat) : Int :=
  let magnitude : Nat := if m.natAbs ≤ 1 ∧ exponent ≠ 0 then m.natAbs else m.natAbs ^ exponent
  if m < 0 ∧ exponent % 2 = 1 then -magnitude else magnitude

/-- Powers with a whole exponent: exact for a whole base, unless the exponent is negative. -/
def pow (x : Number) (exponent : Int) : Except Fault Number :=
  match x.plain with
  | int m =>
      if 0 ≤ exponent then .ok (int (wholePower m exponent.toNat))
      else do
        let base ← Binary64.ofInt? m
        let power ← Binary64.ofInt? exponent
        powReal base power
  | x => do
      let base ← x.toBinary64
      let power ← Binary64.ofInt? exponent
      powReal base power

/-- Powers with any exponent. -/
def raise (x y : Number) : Except Fault Number :=
  match y.plain with
  | int n => x.pow n
  | y => do
      let base ← x.toBinary64
      let exponent ← y.toBinary64
      powReal base exponent

/-- Quotient and remainder of a binary division. The remainder is exact, and the quotient is
rounded to the nearest whole number. -/
def divModReal (x n : Binary64) : Binary64 × Binary64 :=
  if x.isFinite && n.isFinite && !n.isZero then
    let remainder := x.toRat - n.toRat * (x.toRat / n.toRat).floor
    let rest := if remainder = 0 then Binary64.zero n.isNegative else Binary64.ofRat false remainder
    let quotient := (x - rest) / n
    let whole := Binary64.ofRat quotient.isNegative quotient.toRat.floor
    let half := Binary64.ofDecimal false 5 (-1)
    (if half.lt (quotient - whole) then whole + 1 else whole, rest)
  else (.nan, .nan)

/-- Divide by a count, with a remainder below it. -/
def divMod (x : Number) (count : Nat) : Except Fault (Number × Number) :=
  match x.plain with
  | int m =>
      if count = 0 then .error .divisionByZero else .ok (int (m / count), int (m % count))
  | x => do
      let dividend ← x.toBinary64
      let (quotient, remainder) := divModReal dividend (Binary64.ofNat count)
      return (real quotient, real remainder)

theorem divMod_int (m : Int) {count : Nat} (h : 0 < count) :
    (int m).divMod count = .ok (int (m / count), int (m % count)) := if_neg (Nat.ne_of_gt h)

/-- A whole number against a binary one, exactly. -/
def compareInt (relation : Rat → Rat → Bool) (infinite : Bool → Bool) (m : Int) (x : Binary64) :
    Bool :=
  match x with
  | .nan => false
  | .infinite negative => infinite negative
  | x => relation m x.toRat

def lt (x y : Number) : Bool :=
  match x.plain, y.plain with
  | int m, int n => m < n
  | int m, real y => compareInt (fun a b => a < b) (fun negative => !negative) m y
  | real x, int n => compareInt (fun a b => b < a) (fun negative => negative) n x
  | real x, real y => x.lt y
  | _, _ => false

def eq (x y : Number) : Bool :=
  match x.plain, y.plain with
  | int m, int n => m == n
  | int m, real y => compareInt (fun a b => a == b) (fun _ => false) m y
  | real x, int n => compareInt (fun a b => a == b) (fun _ => false) n x
  | real x, real y => x.eq y
  | _, _ => false

def le (x y : Number) : Bool := lt x y || eq x y

@[simp] theorem zero_eq : (0 : Number) = int 0 := rfl

@[simp] theorem one_eq : (1 : Number) = int 1 := rfl

@[simp] theorem add_int (m n : Int) : (int m).add (int n) = .ok (int (m + n)) := rfl

@[simp] theorem sub_int (m n : Int) : (int m).sub (int n) = .ok (int (m - n)) := rfl

@[simp] theorem lt_int (m n : Int) : (int m).lt (int n) = decide (m < n) := rfl

@[simp] theorem le_int (m n : Int) : (int m).le (int n) = decide (m ≤ n) := by
  change (decide (m < n) || m == n) = decide (m ≤ n)
  rw [Bool.eq_iff_iff, Bool.or_eq_true, beq_iff_eq, decide_eq_true_eq, decide_eq_true_eq]
  omega

/-- The larger of two numbers, the first unless the second is really above it. -/
def max (x y : Number) : Number := if lt x y then y else x

/-- The smaller of two numbers, the first unless the second is really below it. -/
def min (x y : Number) : Number := if lt y x then y else x

@[simp] theorem max_int (m n : Int) : (int m).max (int n) = int (Max.max m n) := by
  rw [max, lt_int]
  by_cases h : m < n
  · rw [if_pos (decide_eq_true h), Int.max_eq_right (Int.le_of_lt h)]
  · rw [if_neg (by simpa using h), Int.max_eq_left (Int.not_lt.mp h)]

@[simp] theorem min_int (m n : Int) : (int m).min (int n) = int (Min.min m n) := by
  rw [min, lt_int]
  by_cases h : n < m
  · rw [if_pos (decide_eq_true h), Int.min_eq_right (Int.le_of_lt h)]
  · rw [if_neg (by simpa using h), Int.min_eq_left (Int.not_lt.mp h)]

def abs (x : Number) : Number :=
  match x.plain with
  | int n => int n.natAbs
  | real x => real x.abs
  | x => x

def floor (x : Number) : Except Fault Int :=
  match x.plain with
  | int n => .ok n
  | real x => x.floor?
  | truth _ => .ok 0

/-- The whole part, cut toward zero. -/
def truncate (x : Number) : Except Fault Int :=
  match x.plain with
  | int n => .ok n
  | real x => x.truncate?
  | truth _ => .ok 0

@[simp] theorem floor_int (n : Int) : (int n).floor = .ok n := rfl

@[simp] theorem truncate_int (n : Int) : (int n).truncate = .ok n := rfl

def isZero (x : Number) : Bool :=
  match x.plain with
  | int n => n == 0
  | real x => x.isZero
  | truth b => !b

def kind : Number → Kind
  | truth _ => .truth
  | int _ => .whole
  | real _ => .binary

def holds (relation : Relation) (x y : Number) : Bool :=
  match relation with
  | .below => x.lt y
  | .atMost => x.le y
  | .above => y.lt x
  | .atLeast => y.le x

/-- Binary numbers can always be written. -/
def isWritable : Number → Bool
  | int n => Numeral.isWritable n
  | _ => true

def text : Number → String
  | truth b => if b then "True" else "False"
  | int n => toString n
  | real x => x.text

end Number

end ExperienceCurves
