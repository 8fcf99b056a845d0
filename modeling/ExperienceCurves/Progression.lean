import ExperienceCurves.Datum.Arithmetic
import ExperienceCurves.Requirement

/-!
Progression of a character: experience is gathered until it covers the requirement of the level,
then it pays for the next level, and so on. At the maximum level experience counts no longer.
-/
namespace ExperienceCurves

/-- Level and experience of one character. -/
structure Progression where
  level : Int
  exp : Number
  /-- The requirement of the level. A stored state may hold anything here. -/
  expToNext : Datum
  maxLevel : Number
  one_le_level : 1 ≤ level
  level_le_maxLevel : (Number.int level).le maxLevel = true
  exp_not_negative : exp.lt 0 = false

namespace Progression

def usualMaxLevel : Int := 100

/-- A state, unless its level or its experience is out of bounds. -/
def make (level : Int) (exp : Number) (expToNext : Datum) (maxLevel : Number) :
    Outcome Progression :=
  if maxLevel.lt 1 then .error (Failure.refused (.maxLevelTooLow maxLevel)).written
  else if hlevel : 1 ≤ level ∧ (Number.int level).le maxLevel = true then
    if hexp : exp.lt 0 = false then
      .ok ⟨level, exp, expToNext, maxLevel, hlevel.1, hlevel.2, hexp⟩
    else .error (Failure.refused (.negativeExp exp)).written
  else .error (Failure.refused (.levelOutside level maxLevel)).written

def isCapped (s : Progression) : Bool := s.maxLevel.le (.int s.level)

def toDatum (s : Progression) : Datum :=
  .record [("level", .int s.level), ("exp", .number s.exp), ("expToNext", s.expToNext),
    ("maxLevel", .number s.maxLevel)]

/-- A stored experience that is no number is only refused once the levels are right. -/
def ofDatum (d : Datum) : Outcome Progression := do
  let level ← (← d.fieldOr "level" (.int 1)).toInt
  let exp ← d.fieldOr "exp" (.int 0)
  let expToNext ← d.fieldOr "expToNext" (.int 100)
  let maxLevel ← (← d.fieldOr "maxLevel" (.int usualMaxLevel)).toInt
  let _ ← make level 0 expToNext maxLevel
  make level (← exp.toNumber) expToNext maxLevel

/-- A new character at level one. -/
def new (c : Option Curve) (maxLevel : Datum) (growth : Option Growth) : Outcome Progression := do
  if ← maxLevel.holds .atMost (.int 1) then
    make 1 0 (.int 0) (Number.max 1 (← maxLevel.toNumber))
  else make 1 0 (.int (← Requirement.next c growth 1)) (← maxLevel.toNumber)

/-- What a grant of experience led to. -/
structure LevelUp where
  state : Progression
  levelsGained : Int

namespace LevelUp

def leveledUp (r : LevelUp) : Bool := 0 < r.levelsGained

def toDatum (r : LevelUp) : Datum :=
  .record [("state", r.state.toDatum), ("leveledUp", .truth r.leveledUp),
    ("levelsGained", .int r.levelsGained)]

end LevelUp

/-- Where a climb stands: the level, the experience left, the requirement and the levels that were
gained on the way. -/
structure Stand where
  level : Int
  exp : Number
  expToNext : Datum
  gained : Int

/-- Pay for level after level while the experience covers the requirement. With no level left to
gain the rest of the experience is lost. -/
def climb (requirement : Int → Outcome Int) : Nat → Stand → Outcome Stand
  | 0, stand => .ok stand
  | levelsLeft + 1, stand => do
      let need ← stand.expToNext.toNumber
      if need.le stand.exp then
        let rest ← stand.exp.sub need
        let next ← requirement (stand.level + 1)
        climb requirement levelsLeft
          { level := stand.level + 1, exp := if levelsLeft = 0 then 0 else rest,
            expToNext := .int next, gained := stand.gained + 1 }
      else return stand

/-- More levels than any experience pays for. -/
def outOfReach : Nat := 18446744073709551616

/-- The steps from a level to the first one that is not below the maximum. -/
def levelsLeft (level : Int) (maxLevel : Number) : Nat :=
  match maxLevel.plain with
  | .int m => (m - level).toNat
  | m =>
      match m.toBinary64.toOption.bind fun x => x.ceil?.toOption with
      | some top => (top - level).toNat
      | none => outOfReach

/-- Grant experience. A capped character gains nothing from it. -/
def grant (s : Progression) (c : Option Curve) (growth : Option Growth) (amount : Number) :
    Outcome LevelUp := do
  if amount.lt 0 then throw (Failure.refused (.negativeGrant amount)).written
  else if s.isCapped then return ⟨← make s.level 0 s.expToNext s.maxLevel, 0⟩
  else
    let exp ← s.exp.add amount
    let requirement (level : Int) := Requirement.next c growth (.int level)
    let stand ← climb requirement (levelsLeft s.level s.maxLevel)
      { level := s.level, exp, expToNext := s.expToNext, gained := 0 }
    let state ← make stand.level stand.exp stand.expToNext s.maxLevel
    return ⟨state, stand.gained⟩

/-- How much of the requirement is gathered, in percent; nothing at the maximum level. -/
def percent (s : Progression) : Outcome Number := do
  if s.isCapped then return .real 0
  else
    let need ← s.expToNext.toNumber
    if need.le 0 then return .real 0
    else
      let share ← s.exp.div need
      share.mul 100

end Progression

end ExperienceCurves
