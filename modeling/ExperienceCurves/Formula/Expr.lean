import ExperienceCurves.Formula.Token

/-!
Formulas as trees, and their flat form, in which every operation follows its operands.
-/
namespace ExperienceCurves.Formula

inductive Expr
  | number (x : Binary64)
  | named (v : Variable)
  | neg (operand : Expr)
  | binary (op : Operator) (left right : Expr)
  | call (f : Function) (args : List Expr)

/-- One step of the flat form. -/
inductive Instruction
  | number (x : Binary64)
  | named (v : Variable)
  | neg
  | binary (op : Operator)
  | call (f : Function) (count : Nat)
  deriving DecidableEq

namespace Expr

mutual

def flatten : Expr → List Instruction
  | number x => [.number x]
  | named v => [.named v]
  | neg operand => flatten operand ++ [.neg]
  | binary op left right => flatten left ++ flatten right ++ [.binary op]
  | call f args => flattenAll args ++ [.call f args.length]

def flattenAll : List Expr → List Instruction
  | [] => []
  | arg :: rest => flatten arg ++ flattenAll rest

end

end Expr

end ExperienceCurves.Formula
