import ExperienceCurves.Bezier
import ExperienceCurves.Curve
import ExperienceCurves.Text.Digit

/-!
Edits of a curve. All of them work on the active sequence and leave the other one alone. An edit
that would break a level range fails and changes nothing, except that dragged boundaries are
limited to the room there is. A boundary dragged close to its neighbour joins it.
-/
namespace ExperienceCurves

namespace Span

/-- A range has at least two levels, all of them from one to the maximum. -/
def checkRange (startLevel endLevel maxLevel : Datum) : Outcome Unit := do
  if ← startLevel.holds .atLeast endLevel then
    throw (Failure.range ⟨.reversed, startLevel, endLevel⟩).written
  else if ← startLevel.holds .below (.int 1) then
    throw (Failure.range ⟨.outside maxLevel, startLevel, endLevel⟩).written
  else if ← endLevel.holds .above maxLevel then
    throw (Failure.range ⟨.outside maxLevel, startLevel, endLevel⟩).written
  else return ()

def check (s : Span) (maxLevel : Datum) : Outcome Unit :=
  checkRange s.startLevel s.endLevel maxLevel

end Span

namespace Editing

variable {α : Type} [Spanned α]

def idOf (segment : α) : String := (Spanned.span segment).id

def withId (segment : α) (id : String) : α :=
  Spanned.withSpan segment { Spanned.span segment with id }

def withRange (segment : α) (startLevel endLevel : Number) : α :=
  Spanned.withSpan segment { Spanned.span segment with startLevel, endLevel }

/-- A name written in digits only. -/
def isNumeric (id : String) : Bool := id ≠ "" && id.toList.all Text.isDigit

/-- The least unused number above all numbers in use; some digits have no value in a numeral. Among
one more candidate than there are names, one is unused. -/
def nextId (ids : List String) : Outcome String := do
  let numbers ← (ids.filter isNumeric).mapM Datum.wholeOfText
  let first := numbers.foldl max 0 + 1
  if !Numeral.isWritable first then throw (.refused .tooLongInDigits)
  let candidates := (List.range (ids.length + 1)).map fun (i : Nat) => toString (first + i)
  return (candidates.find? fun candidate => candidate ∉ ids).getD (toString first)

/-- The segments before, at and after the first one with the given name. -/
def split? (id : Datum) : List α → Option (List α × α × List α)
  | [] => none
  | segment :: rest =>
      if (Spanned.span segment).isNamed id then some ([], segment, rest)
      else (split? id rest).map fun (before, found, after) => (segment :: before, found, after)

/-- Replace the segment with the given name, knowing its neighbours. -/
def editNamed (id : Datum) (edit : Option α → α → Option α → Outcome α) (segments : List α) :
    Outcome (List α) :=
  match split? id segments with
  | none => .error (Failure.unknownSegment id).written
  | some (before, segment, after) => do
      let edited ← edit before.getLast? segment after.head?
      return before ++ edited :: after

/-- What a segment appended without further notice looks like. -/
structure Extension where
  /-- With this many segments nothing more is appended. -/
  maxSegments : Datum
  /-- How many levels the new segment adds. -/
  span : Datum
  /-- The factor from its first to its last requirement. -/
  expGrowth : Datum

def usualExtension : Extension := ⟨.int 10, .int 10, .real (decimal 11 1)⟩

def usualFormula : String := "100 * 1.5^(x-1)"

/-- The span that continues from the last one, or starts at level one. -/
def continuation (last : Option Span) (ids : List String) (step maxLevel : Datum) :
    Outcome Span := do
  let startLevel := match last with
    | some s => s.endLevel
    | none => 1
  let reach ← Datum.addTo startLevel step
  let endLevel ← (← Datum.min reach maxLevel).toNumber
  return ⟨← nextId ids, startLevel, endLevel⟩

def nextFormula (segments : List FormulaSegment) (step maxLevel : Datum) :
    Outcome FormulaSegment := do
  let last := segments.getLast?
  let span ← continuation (last.map Spanned.span) (segments.map idOf) step maxLevel
  return { toSpan := span, formula := (last.map (·.formula)).getD usualFormula }

/-- The new segment starts at the requirement that the last one ends with and stays nearly flat
until shortly before its end. -/
def nextBezier (segments : List BezierSegment) (step maxLevel expGrowth : Datum) :
    Outcome BezierSegment := do
  let last := segments.getLast?
  let span ← continuation (last.map Spanned.span) (segments.map idOf) step maxLevel
  let startExp := (last.map (·.endExp)).getD (.real 100)
  let endExp ← (← (Datum.number startExp).mul expGrowth).toNumber
  return { toSpan := span, startExp, endExp, control1 := ⟨decimal 33 2, decimal 5 2⟩,
           control2 := ⟨decimal 67 2, decimal 5 2⟩ }

/-- A segment whose name is taken gets the next free one. -/
def renamed [Spanned β] (segments : List α) (segment : β) : Outcome β :=
  if idOf segment ∈ segments.map idOf then return withId segment (← nextId (segments.map idOf))
  else return segment

def push (segments : List α) (segment : α) (maxLevel : Datum) : Outcome (List α) := do
  (Spanned.span segment).check maxLevel
  return segments ++ [segment]

def wrongMode (segment : Span) (bezierMode : Bool) : Failure :=
  .range ⟨.wrongMode segment.id bezierMode, segment.startLevel, segment.endLevel⟩

def appendFormula (segments : List FormulaSegment) (maxLevel : Datum) (e : Extension) :
    Option Segment → Outcome (List FormulaSegment)
  | none => do push segments (← nextFormula segments e.span maxLevel) maxLevel
  | some segment => do
      match ← renamed segments segment with
      | .formula segment => push segments segment maxLevel
      | .bezier segment => throw (wrongMode segment.toSpan false)

def appendBezier (segments : List BezierSegment) (maxLevel : Datum) (e : Extension) :
    Option Segment → Outcome (List BezierSegment)
  | none => do push segments (← nextBezier segments e.span maxLevel e.expGrowth) maxLevel
  | some segment => do
      match ← renamed segments segment with
      | .bezier segment => push segments segment maxLevel
      | .formula segment => throw (wrongMode segment.toSpan true)

/-- Ranges that follow each other from `start`, each `base` levels long, and one level longer from
the `firstLong`-th on. -/
def spread (base firstLong : Number) : Nat → Number → List α → Except Fault (List α)
  | _, _, [] => return []
  | index, start, segment :: rest => do
      let span ← base.add (if firstLong.le (.int index) then 1 else 0)
      let finish ← start.add span
      let others ← spread base firstLong (index + 1) finish rest
      return withRange segment start finish :: others

/-- Divide all levels evenly among the segments, the remainder among the last ones. -/
def redistribute (maxLevel : Datum) (segments : List α) : Outcome (List α) := do
  let count := segments.length
  let total ← maxLevel.less 1
  if total.lt (.int count) then
    throw (Failure.range ⟨.tooManySegments count, .int 1, maxLevel⟩).written
  else
    let (base, remainder) ← total.divMod count
    let firstLong ← (Number.int count).sub remainder
    spread base firstLong 0 1 segments

inductive Endpoint
  | start
  | finish
  | control1
  | control2
  deriving DecidableEq

def Endpoint.ofDatum : Datum → Outcome Endpoint
  | .text "start" => .ok .start
  | .text "end" => .ok .finish
  | .text "controlPoint1" => .ok .control1
  | .text "controlPoint2" => .ok .control2
  | other => .error (Failure.refused (.notEndpoint other)).written

/-- Where a handle is dragged to, as given. -/
structure Target where
  level : Datum
  exp : Datum

/-- How close to a neighbour a boundary has to be to join it. -/
structure Snap where
  levels : Datum
  expRatio : Datum

def usualSnap : Snap := ⟨.int 1, .real (decimal 5 2)⟩

/-- The nearest level, a half upward. -/
def roundLevel (level : Number) : Except Fault Int := do
  (← level.add (.real (decimal 5 1))).floor

/-- Whether a dragged point is close to a neighbour's. Without requirements to compare, the levels
decide. -/
def isNear (snap : Snap) (level : Number) (exp : Option Number) (targetLevel : Number)
    (targetExp : Option Number) : Except Fault Bool := do
  let offset ← level.sub targetLevel
  if ← (Datum.number offset.abs).holds .above snap.levels then return false
  else match exp, targetExp with
    | some exp, some targetExp =>
        let share ← snap.expRatio.mul (.number targetExp.abs)
        let threshold ← Datum.max (.number Curve.usualTolerance) share
        let difference ← exp.sub targetExp
        (Datum.number difference.abs).holds .atMost threshold
    | _, _ => return true

/-- The level and requirement that a boundary moves to, within `[lower, upper]`, and on the
neighbour's if that is near. -/
def moveBoundary (snap : Snap) (target : Target) (lower upper : Number) (hasExp : Bool)
    (neighbour : Option (Number × Option Number)) : Outcome (Number × Option Number) := do
  let level ← target.level.toNumber
  let moved : Number := .int (← (CubicBezier.clamp lower upper (.int (← roundLevel level))).truncate)
  let exp ← if hasExp then do
      let exp ← target.exp.toNumber
      pure (some ((Number.real 0).max exp))
    else pure none
  match neighbour with
  | none => return (moved, exp)
  | some (facingLevel, facingExp) =>
      if (← isNear snap level exp facingLevel facingExp) && lower.le facingLevel &&
          facingLevel.le upper then
        return (facingLevel, if hasExp then facingExp.orElse fun _ => exp else exp)
      else return (moved, exp)

/-- The room for the start of a segment: from level one to the level before its end. -/
def startRoom (s : Span) (maxLevel : Datum) : Outcome (Number × Number) := do
  let upper ← (← Datum.min s.endLevel maxLevel).less 1
  if upper.lt 1 then throw (Failure.range ⟨.noRoomForStart, s.startLevel, s.endLevel⟩).written
  else return (1, upper)

/-- The room for the end of a segment: from the level after its start to the maximum. -/
def endRoom (s : Span) (maxLevel : Datum) : Outcome (Number × Number) := do
  let lower ← s.startLevel.add 1
  if ← (Datum.number lower).holds .above maxLevel then
    throw (Failure.range ⟨.noRoomForEnd maxLevel, s.startLevel, s.endLevel⟩).written
  else return (lower, ← maxLevel.toNumber)

def dragFormula (endpoint : Endpoint) (target : Target) (maxLevel : Datum) (snap : Snap)
    (previous : Option FormulaSegment) (s : FormulaSegment) (following : Option FormulaSegment) :
    Outcome FormulaSegment := do
  match endpoint with
  | .start =>
      let (lower, upper) ← startRoom s.toSpan maxLevel
      let facing := previous.map fun p => (p.endLevel, none)
      let (startLevel, _) ← moveBoundary snap target lower upper false facing
      return { s with startLevel }
  | .finish =>
      let (lower, upper) ← endRoom s.toSpan maxLevel
      let facing := following.map fun f => (f.startLevel, none)
      let (endLevel, _) ← moveBoundary snap target lower upper false facing
      return { s with endLevel }
  | _ => throw (.range ⟨.noControlPoints, s.startLevel, s.endLevel⟩)

/-- The requirements' ratio of a control point stays between these bounds. -/
def leastRatio : Number := .real (-decimal 5 1)

def greatestRatio : Number := .real 3

/-- A point between the ends of a segment as ratios. A segment without extent in one direction has
the given ratio there. -/
def controlAt (s : BezierSegment) (target : Target) (fallback : ControlPoint) :
    Outcome ControlPoint := do
  let span ← s.endLevel.sub s.startLevel
  let range ← s.expRange
  let x ← if span.isZero then pure fallback.x else do
      let offset ← (← target.level.toNumber).sub s.startLevel
      (CubicBezier.clamp (.real 0) (.real 1) (← offset.div span)).toBinary64
  let y ← if range.isZero then pure fallback.y else do
      let offset ← (← target.exp.toNumber).sub s.startExp
      (CubicBezier.clamp leastRatio greatestRatio (← offset.div range)).toBinary64
  return ⟨x, y⟩

def dragBezier (endpoint : Endpoint) (target : Target) (maxLevel : Datum) (snap : Snap)
    (previous : Option BezierSegment) (s : BezierSegment) (following : Option BezierSegment) :
    Outcome BezierSegment := do
  match endpoint with
  | .control1 =>
      return { s with control1 := ← controlAt s target ⟨decimal 33 2, decimal 25 2⟩ }
  | .control2 =>
      return { s with control2 := ← controlAt s target ⟨decimal 67 2, decimal 75 2⟩ }
  | .start =>
      let (lower, upper) ← startRoom s.toSpan maxLevel
      let facing := previous.map fun p => (p.endLevel, some p.endExp)
      let (startLevel, exp) ← moveBoundary snap target lower upper true facing
      return { s with startLevel, startExp := exp.getD s.startExp }
  | .finish =>
      let (lower, upper) ← endRoom s.toSpan maxLevel
      let facing := following.map fun f => (f.startLevel, some f.startExp)
      let (endLevel, exp) ← moveBoundary snap target lower upper true facing
      return { s with endLevel, endExp := exp.getD s.endExp }

end Editing

namespace Curve

open Editing

/-- Every active segment has a valid range. -/
def check (c : Curve) (maxLevel : Datum) : Outcome Unit :=
  c.active.forM fun segment => (Spanned.span segment).check maxLevel

/-- Append a segment, or one that continues the sequence. Nothing happens once the sequence is
full. -/
def append? (c : Curve) (maxLevel : Datum) (segment : Option Segment) (e : Extension) :
    Outcome (Option Curve) := do
  if ← (Datum.int c.active.length).holds .atLeast e.maxSegments then return none
  else if c.useBezier then
    let bezierSegments ← appendBezier c.bezierSegments maxLevel e segment
    return some { c with bezierSegments }
  else
    let segments ← appendFormula c.segments maxLevel e segment
    return some { c with segments }

/-- Remove all active segments with the given name. Nothing happens if there is none. -/
def delete? (c : Curve) (id : Datum) : Option Curve :=
  if c.active.any fun segment => (Spanned.span segment).isNamed id then
    some { c with
      segments := if c.useBezier then c.segments
        else c.segments.filter fun segment => !segment.toSpan.isNamed id
      bezierSegments := if c.useBezier then
          c.bezierSegments.filter fun segment => !segment.toSpan.isNamed id
        else c.bezierSegments }
  else none

/-- Divide the levels up to the maximum among the active segments. Nothing happens if there are
none. -/
def redistribute? (c : Curve) (maxLevel : Datum) : Outcome (Option Curve) :=
  if c.active.isEmpty then return none
  else some <$> c.editActive (Editing.redistribute maxLevel)

/-- Drag a handle of the segment with the given name. -/
def drag (c : Curve) (id : Datum) (endpoint : Endpoint) (target : Target) (maxLevel : Datum)
    (snap : Snap) : Outcome Curve := do
  if c.useBezier then
    let bezierSegments ← editNamed id (dragBezier endpoint target maxLevel snap) c.bezierSegments
    return { c with bezierSegments }
  else
    let segments ← editNamed id (dragFormula endpoint target maxLevel snap) c.segments
    return { c with segments }

/-- Set the level range of the segment with the given name. -/
def setRange (c : Curve) (id startLevel endLevel maxLevel : Datum) : Outcome Curve :=
  c.editActive (editNamed id fun _ segment _ => do
    Span.checkRange startLevel endLevel maxLevel
    return withRange segment (← startLevel.toNumber) (← endLevel.toNumber))

def withMode (c : Curve) (useBezier : Bool) : Curve := { c with useBezier }

/-- The scale that leaves some room above the highest final requirement. -/
def autoScale (c : Curve) : Except Fault Number :=
  match c.bezierSegments with
  | [] => return .real 10000
  | first :: rest => do
      let highest := rest.foldl (fun highest s => highest.max s.endExp) first.endExp
      return (← highest.mul (.real (decimal 13 1))).max (.real 1000)

def resetScale (c : Curve) : Outcome Curve := do
  return { c with yAxisMax := some (.number (← c.autoScale)) }

end Curve

end ExperienceCurves
