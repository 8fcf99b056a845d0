import ExperienceCurves.Preset
import ExperienceCurves.Yaml

/-!
Settings of the service. A configuration groups them in sections, but every section may give any of
them, the last one wins, and what nothing gives keeps its default. Values are kept as given; what
is computed with them finds out whether they are numbers.
-/
namespace ExperienceCurves

structure Settings where
  host : Datum := .text "0.0.0.0"
  port : Datum := .int 8000
  defaultMaxLevel : Datum := .int Progression.usualMaxLevel
  defaultPreset : Datum := .text Preset.player.name
  maxSegments : Datum := Editing.usualExtension.maxSegments
  appendSpan : Datum := Editing.usualExtension.span
  appendExpGrowth : Datum := Editing.usualExtension.expGrowth
  snapLevelThreshold : Datum := Editing.usualSnap.levels
  snapExpRatio : Datum := Editing.usualSnap.expRatio
  continuityEpsilon : Datum := .number Curve.usualTolerance

namespace Settings

def usual : Settings := {}

/-- Set what is known under a name; other names are ignored. -/
def set (s : Settings) (name : String) (value : Datum) : Settings :=
  match name with
  | "host" => { s with host := value }
  | "port" => { s with port := value }
  | "default_max_level" => { s with defaultMaxLevel := value }
  | "default_preset" => { s with defaultPreset := value }
  | "max_segments" => { s with maxSegments := value }
  | "append_span" => { s with appendSpan := value }
  | "append_exp_growth" => { s with appendExpGrowth := value }
  | "snap_level_threshold" => { s with snapLevelThreshold := value }
  | "snap_exp_ratio" => { s with snapExpRatio := value }
  | "continuity_epsilon" => { s with continuityEpsilon := value }
  | _ => s

def toDatum (s : Settings) : Datum :=
  .record [("host", s.host), ("port", s.port), ("default_max_level", s.defaultMaxLevel),
    ("default_preset", s.defaultPreset), ("max_segments", s.maxSegments),
    ("append_span", s.appendSpan), ("append_exp_growth", s.appendExpGrowth),
    ("snap_level_threshold", s.snapLevelThreshold), ("snap_exp_ratio", s.snapExpRatio),
    ("continuity_epsilon", s.continuityEpsilon)]

/-- Set a field of a configuration, unless nothing is given for it. -/
def apply (s : Settings) (field : String × Datum) : Settings :=
  match field.2 with
  | .null => s
  | value => s.set field.1 value

def sections : List String := ["server", "progression", "editor"]

/-- The settings of a configuration. -/
def ofDatum (config : Datum) : Outcome Settings :=
  sections.foldlM (fun s name => do
    return (← (← config.fieldOr name .null).toFields).foldl apply s) usual

/-- The settings of a written configuration, of which an empty one says nothing. -/
def ofText (text : String) : Outcome Settings :=
  match Yaml.parse? text with
  | some config => ofDatum (if config.isTruthy then config else .record [])
  | none => .error .wrongShape

def extension (s : Settings) : Editing.Extension := ⟨s.maxSegments, s.appendSpan, s.appendExpGrowth⟩

def snap (s : Settings) : Editing.Snap := ⟨s.snapLevelThreshold, s.snapExpRatio⟩

end Settings

end ExperienceCurves
