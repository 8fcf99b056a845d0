import ExperienceCurves.Datum

/-!
Computing with plain data. Numbers compute and compare among each other, texts compare among each
other, and texts and lists can be repeated a whole number of times. Everything else is a fault that
names the operation and the kinds.
-/
namespace ExperienceCurves.Datum

def kind : Datum → Kind
  | null => .nothing
  | number n => n.kind
  | text _ => .text
  | list _ => .list
  | record _ => .record

/-- Texts are in the order of their first different characters. -/
def textHolds (relation : Relation) (s t : String) : Bool :=
  match relation with
  | .below => s < t
  | .atMost => s ≤ t
  | .above => t < s
  | .atLeast => t ≤ s

def holds (relation : Relation) (x y : Datum) : Except Fault Bool :=
  match x, y with
  | number m, number n => .ok (m.holds relation n)
  | text s, text t => .ok (textHolds relation s t)
  | x, y => .error (.unordered relation x.kind y.kind)

/-- The smaller of two values, the first unless the second is really below it. -/
def min (x y : Datum) : Except Fault Datum := do
  if ← y.holds .below x then return y else return x

/-- The larger of two values, the first unless the second is really above it. -/
def max (x y : Datum) : Except Fault Datum := do
  if ← y.holds .above x then return y else return x

/-- The sum with a number on the left, which only a number can be added to. -/
def addTo (x : Number) (y : Datum) : Except Fault Number :=
  match y with
  | number n => x.add n
  | y => .error (.operands .sum x.kind y.kind)

/-- The difference to a number on the right, which can only be taken from a number. -/
def less (x : Datum) (y : Number) : Except Fault Number :=
  match x with
  | number n => n.sub y
  | x => .error (.operands .difference x.kind y.kind)

/-- The longest sequence that a repetition makes. -/
def longestRepetition : Int := 2147483647

/-- How many times a sequence of some length is repeated. Less than zero times is never. -/
def repetitions (factor : Datum) (length : Nat) : Except Fault Nat :=
  match factor with
  | number n =>
      match n.plain with
      | .int count =>
          if longestRepetition < count * length then .error .tooOften else .ok count.toNat
      | n => .error (.notCount n.kind)
  | factor => .error (.notCount factor.kind)

def repeatText (s : String) (factor : Datum) : Except Fault Datum := do
  let count ← repetitions factor s.length
  return text (String.join (List.replicate count s))

def repeatList (items : List Datum) (factor : Datum) : Except Fault Datum := do
  let count ← repetitions factor items.length
  return list (List.replicate count items).flatten

/-- The product of two values, of which one may be a sequence and the other says how often it is
repeated. -/
def mul (x y : Datum) : Except Fault Datum :=
  match x, y with
  | number m, number n => number <$> m.mul n
  | text s, factor => repeatText s factor
  | list items, factor => repeatList items factor
  | factor, text s => repeatText s factor
  | factor, list items => repeatList items factor
  | x, y => .error (.operands .product x.kind y.kind)

theorem number_int (n : Int) : number (.int n) = int n := rfl

@[simp] theorem addTo_int (m n : Int) : addTo (.int m) (int n) = .ok (.int (m + n)) := rfl

@[simp] theorem less_int (m n : Int) : less (int m) (.int n) = .ok (.int (m - n)) := rfl

@[simp] theorem holds_below_int (m n : Int) :
    (int m).holds .below (int n) = .ok (decide (m < n)) := rfl

@[simp] theorem holds_above_int (m n : Int) :
    (int m).holds .above (int n) = .ok (decide (n < m)) := rfl

@[simp] theorem holds_atLeast_int (m n : Int) :
    (int m).holds .atLeast (int n) = .ok (decide (n ≤ m)) := congrArg Except.ok (Number.le_int n m)

@[simp] theorem min_int (m n : Int) : (int m).min (int n) = .ok (int (Min.min m n)) := by
  by_cases h : n < m
  · rw [Int.min_eq_right (Int.le_of_lt h)]
    simp [min, h, bind, Except.bind, pure, Except.pure]
  · rw [Int.min_eq_left (Int.not_lt.mp h)]
    simp [min, h, bind, Except.bind, pure, Except.pure]

def magnitude : Datum → Except Fault Number
  | number n => .ok n.abs
  | d => .error (.noMagnitude d.kind)

end ExperienceCurves.Datum
