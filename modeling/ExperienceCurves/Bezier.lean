import ExperienceCurves.Datum.Arithmetic
import ExperienceCurves.Segment

/-!
Cubic Bezier curves over requirements. A level is placed linearly between the ends of its segment,
and the requirement there is the value of the Bernstein polynomial of degree three.
-/
namespace ExperienceCurves

/-- Four control values. -/
structure CubicBezier where
  p0 : Number
  p1 : Number
  p2 : Number
  p3 : Number
  deriving DecidableEq

namespace CubicBezier

/-- The polynomial at a parameter, summed from the first control value on. -/
def valueAt (c : CubicBezier) (t : Number) : Except Fault Number := do
  let u ← (Number.int 1).sub t
  let b0 ← u.pow 3
  let b1 ← (← (Number.int 3).mul (← u.pow 2)).mul t
  let b2 ← (← (Number.int 3).mul u).mul (← t.pow 2)
  let b3 ← t.pow 3
  let first ← (← b0.mul c.p0).add (← b1.mul c.p1)
  let second ← first.add (← b2.mul c.p2)
  second.add (← b3.mul c.p3)

/-- A number limited to the given bounds; what is not ordered counts as too large. -/
def clamp (low high x : Number) : Number := low.max (high.min x)

/-- The polynomial on the unit interval, constant beyond its ends. -/
def evaluate (c : CubicBezier) (t : Number) : Except Fault Number :=
  c.valueAt (clamp (.real 0) (.real 1) t)

end CubicBezier

namespace BezierSegment

def expRange (s : BezierSegment) : Except Fault Number := s.endExp.sub s.startExp

/-- The ratio of a control point as a requirement. -/
def controlExp (s : BezierSegment) (range : Number) (p : ControlPoint) : Except Fault Number := do
  s.startExp.add (← (Number.real p.y).mul range)

def curve (s : BezierSegment) : Except Fault CubicBezier := do
  let range ← s.expRange
  let p1 ← s.controlExp range s.control1
  let p2 ← s.controlExp range s.control2
  return ⟨s.startExp, p1, p2, s.endExp⟩

/-- The position of a level between the ends, from zero to one. -/
def parameter (s : BezierSegment) (level : Number) : Except Fault Number := do
  let span ← s.endLevel.sub s.startLevel
  if span.le 0 then return .real 0
  else
    let offset ← level.sub s.startLevel
    let ratio ← offset.div span
    return CubicBezier.clamp (.real 0) (.real 1) ratio

/-- The requirement at a level: the value rounded down, and never below zero. -/
def requiredExp (s : BezierSegment) (level : Number) : Except Fault Int := do
  let t ← s.parameter level
  let exp ← (← s.curve).evaluate t
  ((Number.real 0).max exp).floor

/-- Evenly spaced points of the curve, with fractional levels. -/
def samples (s : BezierSegment) (count : Datum) : Outcome (List (Number × Number)) := do
  if ← count.holds .below (.int 2) then throw (.refused .tooFewPoints)
  else
    let curve ← s.curve
    let span ← s.endLevel.sub s.startLevel
    let count ← count.toCount
    (List.range count.toNat).mapM fun (i : Nat) => do
      let t ← (Number.int i).div (.int (count - 1))
      let level ← s.startLevel.add (← t.mul span)
      let exp ← curve.evaluate t
      return (level, exp)

end BezierSegment

end ExperienceCurves
