import ExperienceCurves.Editing
import ExperienceCurves.Progression
import ExperienceCurves.Stats

/-!
The built-in configurations of players and monsters. They share their curve and differ in stats.
-/
namespace ExperienceCurves

/-- Two segments up to level 20, in both forms. -/
def Curve.usual : Curve :=
  { segments :=
      [{ id := "1", startLevel := 1, endLevel := 10, formula := Editing.usualFormula },
        { id := "2", startLevel := 10, endLevel := 20, formula := Editing.usualFormula }]
    bezierSegments :=
      [{ id := "1", startLevel := 1, endLevel := 10, startExp := 100, endExp := 1500,
         control1 := .usual1, control2 := .usual2 },
        { id := "2", startLevel := 10, endLevel := 20, startExp := 1500, endExp := 10000,
          control1 := .usual1, control2 := .usual2 }]
    useBezier := false
    yAxisMax := none }

structure Preset where
  name : String
  maxLevel : Int
  curve : Curve
  stats : StatsProfile
  growth : Growth

namespace Preset

def toDatum (p : Preset) : Datum :=
  .record [("name", .text p.name), ("maxLevel", .int p.maxLevel), ("curve", p.curve.toDatum),
    ("stats", p.stats.toDatum), ("expGrowth", p.growth.toDatum)]

/-- Stats with constant increases, in the order of their names. -/
def constantStats (base increases : List Int) : StatsProfile :=
  { base := StatsProfile.names.zip (base.map Datum.int)
    growth := StatsProfile.names.zip (increases.map fun b => ⟨.int 0, .int b⟩) }

def player : Preset :=
  { name := "player", maxLevel := Progression.usualMaxLevel, curve := .usual,
    stats := constantStats [100, 50, 50, 20, 150] [20, 5, 5, 3, 2], growth := .usual }

def monster : Preset :=
  { name := "monster", maxLevel := Progression.usualMaxLevel, curve := .usual,
    stats := constantStats [80, 30, 40, 15, 60] [15, 3, 4, 2, 1], growth := .usual }

def all : List Preset := [player, monster]

def named (name : String) : Outcome Preset :=
  match all.find? fun p => p.name = name with
  | some p => .ok p
  | none => .error (.missing (.text name))

end Preset

end ExperienceCurves
