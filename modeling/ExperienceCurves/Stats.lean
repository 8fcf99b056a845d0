import ExperienceCurves.Conversion
import ExperienceCurves.Table

/-!
Stats of a character kind: a base value for each stat and its linear growth from level to level.
-/
namespace ExperienceCurves

/-- The increase `a * (level - 1) + b` on reaching a level. -/
structure StatGrowth where
  a : Datum
  b : Datum

namespace StatGrowth

def toDatum (g : StatGrowth) : Datum := .record [("a", g.a), ("b", g.b)]

def ofDatum (d : Datum) : Outcome StatGrowth := do
  let a ← d.fieldOr "a" (.int 0)
  let b ← d.fieldOr "b" (.int 0)
  return ⟨a, b⟩

/-- The increase on reaching a level, rounded down; level one is where every stat starts. -/
def increase (g : StatGrowth) (level : Number) : Outcome Int := do
  if level.le 1 then return 0
  else
    let slope ← (← g.a.toNumber).mul (← level.sub 1)
    let sum ← slope.add (← g.b.toNumber)
    sum.floor

/-- The sum of all increases up to a level. -/
def total (g : StatGrowth) (level : Int) : Outcome Int :=
  (Table.levels 2 level).foldlM (fun sum level => do return sum + (← g.increase (.int level))) 0

end StatGrowth

structure StatsProfile where
  base : List (String × Datum)
  growth : List (String × StatGrowth)

namespace StatsProfile

def names : List String := ["hp", "sp", "attack", "defense", "speed"]

def empty : StatsProfile := ⟨[], []⟩

/-- The growth of a stat; without one it stays at its base. -/
def growthOf (p : StatsProfile) (name : String) : StatGrowth :=
  ((p.growth.find? fun entry => entry.1 = name).map Prod.snd).getD ⟨.int 0, .int 0⟩

def toDatum (p : StatsProfile) : Datum :=
  .record [("base", .record p.base),
    ("growth", .record (p.growth.map fun entry => (entry.1, entry.2.toDatum)))]

/-- What an entry is a sequence of: the characters of a text, the names of a record. -/
def partsOfDatum : Datum → Option (List Datum)
  | .text s => some (s.toList.map fun c => .text (String.singleton c))
  | .list items => some items
  | .record fields => some (fields.map fun field => .text field.1)
  | _ => none

/-- Take up an entry that is given as a pair of a name and a value. -/
def storePair (base : List (String × Datum)) (entry : Datum × Nat) :
    Outcome (List (String × Datum)) :=
  match partsOfDatum entry.1 with
  | some [.text name, value] => .ok (Datum.store name value base)
  | some [_, _] => .error .wrongShape
  | some parts => .error (.refused (.notPair entry.2 parts.length))
  | none => .error .wrongShape

/-- The base values, of which only their presence is looked at. They are given by name or as a
sequence of pairs. -/
def baseOfDatum (d : Datum) : Outcome (List (String × Datum)) :=
  if d.isTruthy then
    match d with
    | .record fields => .ok fields
    | d =>
        match partsOfDatum d with
        | some entries => entries.zipIdx.foldlM storePair []
        | none => .error .wrongShape
  else .ok []

def ofDatum (d : Datum) : Outcome StatsProfile := do
  let base ← baseOfDatum (← d.fieldOr "base" .null)
  let growth ← (← (← d.fieldOr "growth" .null).toFields).mapM fun field => do
    return (field.1, ← StatGrowth.ofDatum field.2)
  return { base, growth }

/-- A stat at a level: its base and every increase since. -/
def stat (p : StatsProfile) (level : Number) (name : String) : Outcome Number := do
  let total ← (p.growthOf name).total (← (Datum.number level).toCount)
  (← ((Datum.lookup name p.base).getD (.int 0)).toNumber).add (.int total)

/-- The stats at a level, after the level itself. -/
def atLevel (p : StatsProfile) (level : Number) : Outcome (List (String × Number)) := do
  let stats ← names.mapM fun name => do return (name, ← p.stat level name)
  return ("level", level) :: stats

/-- The stats at a level and the increase of each on reaching it. -/
def row (p : StatsProfile) (level : Number) : Outcome (List (String × Number)) := do
  let stats ← p.atLevel level
  let increases ← names.mapM fun name => do
    return (name ++ "Growth", Number.int (← (p.growthOf name).increase level))
  return stats ++ increases

def table (p : StatsProfile) (first last : Int) : Outcome (List (List (String × Number))) :=
  (Table.levels first last).mapM fun level => p.row (.int level)

end StatsProfile

/-- The experience for defeating a monster of a level. -/
def rewardAt (monsterLevel : Number) : Except Fault Int := do
  let extra ← (← monsterLevel.sub 1).mul (.real (Binary64.ofDecimal false 5 (-1)))
  (← (Number.int 20).mul (← (Number.int 1).add extra)).floor

end ExperienceCurves
