import ExperienceCurves.Requirement

/-!
Tables of requirements: one row per level, with the running sum of the requirements and the growth
against the level before.
-/
namespace ExperienceCurves

structure TableRow where
  level : Int
  /-- Nothing where the formula of the level is undefined. -/
  exp : Option Int
  cumulativeExp : Int
  growth : Int
  growthPercent : Binary64
  deriving DecidableEq

namespace TableRow

def toDatum (row : TableRow) : Datum :=
  .record [("level", .int row.level), ("exp", Datum.ofOption .int row.exp),
    ("cumulativeExp", .int row.cumulativeExp), ("growth", .int row.growth),
    ("growthPct", .real row.growthPercent)]

/-- The growth in percent of what it grew from, to one place. -/
def percent (growth previous : Int) : Except Fault Binary64 := do
  let share ← Number.quotient growth previous
  return (← (← share.mul 100).toBinary64).roundedTo 1

/-- The row of a level after the given sum and the given previous requirement. Growth is only
defined between two requirements, and its percentage only from a positive one. -/
def make (level : Int) (exp : Option Int) (sum : Int) (previous : Option Int) :
    Except Fault TableRow :=
  match exp, previous with
  | some exp, some previous => do
      let growthPercent ← if 0 < previous then percent (exp - previous) previous else pure 0
      return ⟨level, some exp, sum + exp, exp - previous, growthPercent⟩
  | some exp, none => return ⟨level, some exp, sum + exp, 0, 0⟩
  | none, _ => return ⟨level, none, sum, 0, 0⟩

end TableRow

namespace Table

/-- The levels from `first` to `last`, in order. -/
def levels (first last : Int) : List Int :=
  (List.range (last + 1 - first).toNat).map fun (i : Nat) => first + i

def rowsFrom (requirement : Int → Outcome (Option Int)) (sum : Int) (previous : Option Int) :
    List Int → Outcome (List TableRow)
  | [] => return []
  | level :: rest => do
      let exp ← requirement level
      let row ← TableRow.make level exp sum previous
      let others ← rowsFrom requirement row.cumulativeExp exp rest
      return row :: others

/-- The rows of all levels from `first` to `last`. -/
def project (c : Option Curve) (first last : Int) : Outcome (List TableRow) :=
  rowsFrom (fun level => Requirement.atLevel c (.int level)) 0 none (levels first last)

end Table

end ExperienceCurves
