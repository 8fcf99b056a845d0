import ExperienceCurves.Datum.Arithmetic
import ExperienceCurves.Segment

/-!
Curves: a sequence of formula segments and a sequence of Bezier segments, of which one is active.
The other is kept for later. A level belongs to the first active segment that covers it.
-/
namespace ExperienceCurves

structure Curve where
  segments : List FormulaSegment
  bezierSegments : List BezierSegment
  useBezier : Bool
  /-- The scale of the display, which nothing computes with. -/
  yAxisMax : Option Datum

namespace Curve

def active (c : Curve) : List Segment :=
  if c.useBezier then c.bezierSegments.map .bezier else c.segments.map .formula

/-- Whether the curve says anything about levels. -/
def hasSegments (c : Curve) : Bool := !c.active.isEmpty

def segmentAt? (c : Curve) (level : Number) : Option Segment :=
  c.active.find? fun segment => (Spanned.span segment).covers level

/-- Edit the active sequence, by a rule for segments of any type. -/
def editActive (c : Curve) (edit : {α : Type} → [Spanned α] → List α → Outcome (List α)) :
    Outcome Curve :=
  if c.useBezier then do
    let bezierSegments ← edit c.bezierSegments
    return { c with bezierSegments }
  else do
    let segments ← edit c.segments
    return { c with segments }

def toDatum (c : Curve) : Datum :=
  .record ([("segments", .list (c.segments.map FormulaSegment.toDatum)),
    ("bezierSegments", .list (c.bezierSegments.map BezierSegment.toDatum)),
    ("useBezier", .truth c.useBezier)] ++
    match c.yAxisMax with
    | some scale => [("yAxisMax", scale)]
    | none => [])

def ofDatum (d : Datum) : Outcome Curve := do
  let segments ← (← (← d.fieldOr "segments" .null).toItems).mapM FormulaSegment.ofDatum
  let bezierSegments ← (← (← d.fieldOr "bezierSegments" .null).toItems).mapM BezierSegment.ofDatum
  let useBezier := (← d.fieldOr "useBezier" (.truth false)).isTruthy
  let yAxisMax := match ← d.field? "yAxisMax" with
    | some .null => none
    | scale => scale
  return { segments, bezierSegments, useBezier, yAxisMax }

end Curve

inductive Break
  | levelGap
  | levelOverlap
  | expJump
  deriving DecidableEq

def Break.text : Break → String
  | levelGap => "level_gap"
  | levelOverlap => "level_overlap"
  | expJump => "exp_jump"

/-- A break between a segment and the next: the bound that the first one ends with is expected,
the bound that the second one starts with is actual. -/
structure ContinuityIssue where
  kind : Break
  previousId : String
  segmentId : String
  expected : Number
  actual : Number
  deriving DecidableEq

namespace ContinuityIssue

def toDatum (issue : ContinuityIssue) : Datum :=
  .record [("kind", .text issue.kind.text), ("previousId", .text issue.previousId),
    ("segmentId", .text issue.segmentId), ("expected", .number issue.expected),
    ("actual", .number issue.actual)]

end ContinuityIssue

namespace Curve

/-- The difference of requirements that is tolerated between neighbours, unless said otherwise. -/
def usualTolerance : Number := .real 1

def levelIssues (previous next : Span) : List ContinuityIssue :=
  let issue (kind : Break) : ContinuityIssue :=
    { kind, previousId := previous.id, segmentId := next.id, expected := previous.endLevel,
      actual := next.startLevel }
  if previous.endLevel.lt next.startLevel then [issue .levelGap]
  else if next.startLevel.lt previous.endLevel then [issue .levelOverlap]
  else []

/-- Requirements can only be compared where both segments state them. -/
def expIssues (tolerance : Datum) : Segment → Segment → Outcome (List ContinuityIssue)
  | .bezier previous, .bezier next => do
      let difference ← previous.endExp.sub next.startExp
      if ← (Datum.number difference.abs).holds .above tolerance then
        return [{ kind := .expJump, previousId := previous.id, segmentId := next.id,
                  expected := previous.endExp, actual := next.startExp }]
      else return []
  | _, _ => return []

def issuesAlong (tolerance : Datum) : List Segment → Outcome (List ContinuityIssue)
  | previous :: next :: rest => do
      let jumps ← expIssues tolerance previous next
      let others ← issuesAlong tolerance (next :: rest)
      return levelIssues (Spanned.span previous) (Spanned.span next) ++ jumps ++ others
  | _ => return []

/-- The breaks between neighbours of the active sequence, in order. -/
def continuityIssues (c : Curve) (tolerance : Datum) : Outcome (List ContinuityIssue) :=
  issuesAlong tolerance c.active

/-- The levels that two spans share beyond a single boundary. -/
def sharedLevels (a b : Span) : Except Fault Number :=
  (a.endLevel.min b.endLevel).sub (a.startLevel.max b.startLevel)

def shareLevels (a b : Span) : Except Fault Bool := do
  return (Number.int 0).lt (← sharedLevels a b)

def overlapsAlong : List Span → Except Fault (List (String × String))
  | [] => return []
  | a :: rest => do
      let overlapping ← rest.filterM (shareLevels a)
      let others ← overlapsAlong rest
      return overlapping.map (fun b => (a.id, b.id)) ++ others

/-- The pairs of active segments that share more than a boundary level. -/
def overlaps (c : Curve) : Except Fault (List (String × String)) :=
  overlapsAlong (c.active.map Spanned.span)

end Curve

end ExperienceCurves
