import ExperienceCurves.Preset

/-!
Profiles: a curve under a name, with everything else that characters of the profile need. The
version counts how often the profile was published.
-/
namespace ExperienceCurves

structure Profile where
  name : Word
  curve : Curve
  maxLevel : Datum := .int Progression.usualMaxLevel
  stats : StatsProfile := .empty
  /-- The growth of requirements while the curve has no segments. -/
  growth : Growth := .usual
  version : Nat := 1

namespace Profile

def ofPreset (p : Preset) : Profile :=
  { name := p.name, curve := p.curve, maxLevel := .int p.maxLevel, stats := p.stats,
    growth := p.growth }

def toDatum (p : Profile) : Datum :=
  .record [("name", .text p.name.mended), ("curve", p.curve.toDatum), ("maxLevel", p.maxLevel),
    ("stats", p.stats.toDatum), ("expGrowth", p.growth.toDatum), ("version", .int p.version)]

end Profile

end ExperienceCurves
