import ExperienceCurves.Formula.Grammar

/-!
Values of formulas. Operands are evaluated from left to right before their operation is applied,
all in binary numbers, and the value of a whole formula is finite or the formula is undefined. A
chain of operations that group to the left is walked down to its first operand and then applied
step by step, so that its length does not nest.
-/
namespace ExperienceCurves.Formula

/-- Values given to the variables. -/
structure Bindings where
  level : Option Datum
  size : Option Datum

namespace Bindings

def empty : Bindings := ⟨none, none⟩

def value? (b : Bindings) : Variable → Option Datum
  | .level => b.level
  | .size => b.size

def bind (b : Bindings) (v : Variable) (value : Datum) : Bindings :=
  match v with
  | .level => { b with level := some value }
  | .size => { b with size := some value }

/-- Named values in order: names count in any case, other names and empty values are passed over,
and a later value for the same variable prevails. -/
def ofFields (fields : List (String × Datum)) : Bindings :=
  fields.foldl (fun b field =>
    match Variable.ofName? (String.ofList (Text.smalls field.1.toList)), field.2 with
    | _, .null => b
    | some v, value => b.bind v value
    | none, _ => b) empty

end Bindings

/-- Round to the nearest whole number, a half upward. -/
def roundHalfUp (x : Binary64) : Except Fault Binary64 := do
  return Binary64.ofInt (← (x + Binary64.ofDecimal false 5 (-1)).floor?)

def larger (x y : Binary64) : Binary64 := if x.lt y then y else x

def smaller (x y : Binary64) : Binary64 := if y.lt x then y else x

/-- The failure of a formula for a cause. -/
def undefinedAs (formula : String) (cause : Undefined) : Failure :=
  .formula (.undefined cause formula)

namespace Function

/-- Name the function in the fault of its rounding. -/
def rounded (f : Function) (formula : String) (result : Except Fault Binary64) :
    Outcome Binary64 :=
  match result with
  | .ok x => .ok x
  | .error fault => .error (undefinedAs formula (.noInteger f.name fault))

/-- The larger and the smaller take any number of arguments from two on. -/
def apply (formula : String) : Function → List Binary64 → Outcome Binary64
  | max, x :: y :: rest => .ok (rest.foldl larger (larger x y))
  | min, x :: y :: rest => .ok (rest.foldl smaller (smaller x y))
  | round, [x] => rounded round formula (roundHalfUp x)
  | floor, [x] => rounded floor formula (x.floor?.map Binary64.ofInt)
  | ceil, [x] => rounded ceil formula (x.ceil?.map Binary64.ofInt)
  | sqrt, [x] =>
      if x.lt 0 then .error (undefinedAs formula (.negativeRoot x)) else .ok x.sqrt
  | _, _ => .error .wrongShape

end Function

/-- A power of real numbers: defined only where it is real, and finite for finite operands. -/
def realPower (x y : Binary64) : Except PowerFault Binary64 :=
  let power := x.pow y
  if x.isFinite && y.isFinite then
    if power.isNan then .error .outsideDomain
    else if power.isInfinite then
      if x.isZero then .error .outsideDomain else .error .outsideRange
    else .ok power
  else .ok power

namespace Operator

def apply (formula : String) (op : Operator) (x y : Binary64) : Outcome Binary64 :=
  match op with
  | plus => .ok (x + y)
  | minus => .ok (x - y)
  | times => .ok (x * y)
  | dividedBy =>
      if y.isZero then .error (undefinedAs formula .divisionByZero) else .ok (x / y)
  | power =>
      match realPower x y with
      | .ok z => .ok z
      | .error fault => .error (undefinedAs formula (.noPower x y fault))

end Operator

theorem Operator.sizeOf_pos (op : Operator) : 0 < sizeOf op := by
  cases op <;> decide

namespace Expr

/-- Go down the left operands of a chain to its first operand. The steps that are passed, operators
with their right operands, come before those gathered so far. A power is an operand and no step. -/
def spineFrom (steps : List (Operator × Expr)) : Expr → Expr × List (Operator × Expr)
  | binary op left right =>
      if op = .power then (binary op left right, steps) else spineFrom ((op, right) :: steps) left
  | head => (head, steps)

/-- The size of the right operands in steps, of which each one counts. -/
noncomputable def weight : List (Operator × Expr) → Nat
  | [] => 0
  | (_, right) :: rest => sizeOf right + 1 + weight rest

theorem weight_spineFrom_le (steps : List (Operator × Expr)) (tree : Expr) :
    sizeOf (spineFrom steps tree).1 + weight (spineFrom steps tree).2 ≤
      sizeOf tree + weight steps := by
  fun_induction spineFrom steps tree with
  | case1 steps left right => exact Nat.le_refl _
  | case2 steps op left right hop ih =>
    simp only [weight, binary.sizeOf_spec] at ih ⊢
    omega
  | case3 steps head hhead => exact Nat.le_refl _

/-- The parts of a chain are smaller than the operation at its end. -/
theorem weight_spineFrom_lt (op : Operator) (left right : Expr) :
    sizeOf (spineFrom [(op, right)] left).1 + weight (spineFrom [(op, right)] left).2 <
      sizeOf (binary op left right) := by
  have hle := weight_spineFrom_le [(op, right)] left
  have hop := op.sizeOf_pos
  simp only [weight, binary.sizeOf_spec] at hle ⊢
  omega

mutual

def value (bindings : Bindings) (formula : String) : Expr → Outcome Binary64
  | number x => .ok x
  | named v =>
      match bindings.value? v with
      | some given => given.toBinary64
      | none => .error (.formula (.malformed (.unbound v.name) formula none))
  | neg operand => do
      let x ← value bindings formula operand
      return -x
  | binary .power left right => do
      let x ← value bindings formula left
      let y ← value bindings formula right
      Operator.power.apply formula x y
  | binary op left right => do
      let x ← value bindings formula (spineFrom [(op, right)] left).1
      carry bindings formula x (spineFrom [(op, right)] left).2
  | call f args => do
      let xs ← values bindings formula args
      f.apply formula xs
termination_by tree => sizeOf tree
decreasing_by
  all_goals first
    | decreasing_tactic
    | have := weight_spineFrom_lt op left right; omega

/-- Apply the steps of a chain, one after the other, to the value before them. -/
def carry (bindings : Bindings) (formula : String) (x : Binary64) :
    List (Operator × Expr) → Outcome Binary64
  | [] => .ok x
  | (op, right) :: rest => do
      let y ← value bindings formula right
      let z ← op.apply formula x y
      carry bindings formula z rest
termination_by steps => weight steps
decreasing_by
  all_goals simp only [weight]; omega

def values (bindings : Bindings) (formula : String) : List Expr → Outcome (List Binary64)
  | [] => .ok []
  | arg :: rest => do
      let x ← value bindings formula arg
      let xs ← values bindings formula rest
      return x :: xs
termination_by args => sizeOf args

end

end Expr

/-- The finite value of a formula. -/
def evaluate (formula : Datum) (bindings : Bindings) : Outcome Binary64 := do
  let tree ← Expr.ofDatum formula
  let x ← tree.value bindings formula.toText
  if x.isFinite then return x
  else .error (undefinedAs formula.toText (.notFinite x))

/-- The value, or nothing where the formula is to blame for having none. -/
def evaluate? (formula : Datum) (bindings : Bindings) : Outcome (Option Binary64) :=
  match evaluate formula bindings with
  | .ok x => .ok (some x)
  | .error failure => if failure.isFormula then .ok none else .error failure

/-- The message of the mistake, if the text is outside the grammar. -/
def complaint? (formula : Datum) : Outcome (Option String) :=
  match Expr.ofDatum formula with
  | .ok _ => .ok none
  | .error (.formula error) => .ok (some error.message)
  | .error failure => .error failure

/-- The value at a level and a size, or nothing for a text without content. -/
def preview (formula level size : Datum) : Outcome (Option Binary64) :=
  if !formula.isTruthy then .ok none
  else match formula with
    | .text s =>
        if s.toList.all Text.isBlank then .ok none
        else evaluate? formula (Bindings.ofFields [("level", level), ("size", size)])
    | _ => .error .notRecord

end ExperienceCurves.Formula
