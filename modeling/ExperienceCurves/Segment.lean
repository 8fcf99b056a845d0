import ExperienceCurves.Conversion

/-!
Segments of a curve. Each has a name and covers a range of levels. A formula segment holds the
formula of the requirement at a level; a Bezier segment holds the requirements at both ends and
two control points, given as ratios of the segment.
-/
namespace ExperienceCurves

/-- What all segments have in common. -/
structure Span where
  id : String
  startLevel : Number
  endLevel : Number
  deriving DecidableEq

/-- A position along the levels, which only places the handle, and one along the requirements. -/
structure ControlPoint where
  x : Binary64
  y : Binary64
  deriving DecidableEq

structure FormulaSegment extends Span where
  formula : String
  deriving DecidableEq

structure BezierSegment extends Span where
  startExp : Number
  endExp : Number
  control1 : ControlPoint
  control2 : ControlPoint
  deriving DecidableEq

inductive Segment
  | formula (segment : FormulaSegment)
  | bezier (segment : BezierSegment)
  deriving DecidableEq

/-- Types of segments, whose span can be read and replaced. -/
class Spanned (α : Type) where
  span : α → Span
  withSpan : α → Span → α
  span_withSpan (segment : α) (s : Span) : span (withSpan segment s) = s

instance : Spanned FormulaSegment where
  span segment := segment.toSpan
  withSpan segment s := { segment with toSpan := s }
  span_withSpan _ _ := rfl

instance : Spanned BezierSegment where
  span segment := segment.toSpan
  withSpan segment s := { segment with toSpan := s }
  span_withSpan _ _ := rfl

instance : Spanned Segment where
  span
    | .formula segment => segment.toSpan
    | .bezier segment => segment.toSpan
  withSpan
    | .formula segment, s => .formula { segment with toSpan := s }
    | .bezier segment, s => .bezier { segment with toSpan := s }
  span_withSpan segment s := by cases segment <;> rfl

namespace Span

def covers (s : Span) (level : Number) : Bool :=
  s.startLevel.le level && level.le s.endLevel

/-- Only a text can name a segment. -/
def isNamed (s : Span) : Datum → Bool
  | .text name => s.id = name
  | _ => false

end Span

/-- A decimal constant of the format. -/
def decimal (digits : Nat) (places : Nat) : Binary64 := Binary64.ofDecimal false digits (-places)

namespace ControlPoint

def usual1 : ControlPoint := ⟨decimal 33 2, decimal 1 1⟩

def usual2 : ControlPoint := ⟨decimal 67 2, decimal 9 1⟩

def toDatum (p : ControlPoint) : Datum := .record [("x", .real p.x), ("y", .real p.y)]

def ofDatum (d : Datum) : Outcome ControlPoint := do
  let x ← (← d.field "x").toBinary64
  let y ← (← d.field "y").toBinary64
  return ⟨x, y⟩

end ControlPoint

namespace Span

def fields (s : Span) : List (String × Datum) :=
  [("id", .text s.id), ("startLevel", .number s.startLevel), ("endLevel", .number s.endLevel)]

def ofDatum (d : Datum) : Outcome Span := do
  let id ← (← d.field "id").written
  let startLevel ← (← d.field "startLevel").toInt
  let endLevel ← (← d.field "endLevel").toInt
  return ⟨id, startLevel, endLevel⟩

end Span

namespace FormulaSegment

def toDatum (s : FormulaSegment) : Datum :=
  .record (s.toSpan.fields ++ [("formula", .text s.formula)])

def ofDatum (d : Datum) : Outcome FormulaSegment := do
  let span ← Span.ofDatum d
  let formula ← (← d.field "formula").written
  return { toSpan := span, formula }

end FormulaSegment

namespace BezierSegment

def toDatum (s : BezierSegment) : Datum :=
  .record (s.toSpan.fields ++
    [("startExp", .number s.startExp), ("endExp", .number s.endExp),
      ("controlPoint1", s.control1.toDatum), ("controlPoint2", s.control2.toDatum)])

/-- A control point that is not given is the usual one. -/
def controlOr (usual : ControlPoint) (name : String) (d : Datum) : Outcome ControlPoint := do
  match ← d.field? name with
  | some point => ControlPoint.ofDatum point
  | none => return usual

def ofDatum (d : Datum) : Outcome BezierSegment := do
  let span ← Span.ofDatum d
  let startExp ← (← d.field "startExp").toBinary64
  let endExp ← (← d.field "endExp").toBinary64
  let control1 ← controlOr .usual1 "controlPoint1" d
  let control2 ← controlOr .usual2 "controlPoint2" d
  return { toSpan := span, startExp, endExp, control1, control2 }

end BezierSegment

end ExperienceCurves
