import ExperienceCurves.Bezier
import ExperienceCurves.Curve
import ExperienceCurves.Formula.Evaluation

/-!
Requirements: the experience needed to leave a level. A segmented curve decides by the segment
that covers the level. A single growth formula serves characters without one, and the default
growth fills every gap. Requirements beyond the range of binary numbers stay at its ends.
-/
namespace ExperienceCurves

inductive GrowthKind
  | linear
  | exponential
  deriving DecidableEq

def GrowthKind.text : GrowthKind → String
  | linear => "linear"
  | exponential => "exponential"

/-- A requirement `a * level + b`, or `a * b ^ (level - 1)`. -/
structure Growth where
  kind : GrowthKind
  a : Datum
  b : Datum

namespace Growth

/-- One hundred, growing by half with each level. -/
def usual : Growth := ⟨.exponential, .int 100, .real (decimal 15 1)⟩

def toDatum (g : Growth) : Datum :=
  .record [("type", .text g.kind.text), ("a", g.a), ("b", g.b)]

def kindOfDatum : Datum → Outcome GrowthKind
  | .text "linear" => .ok .linear
  | .text "exponential" => .ok .exponential
  | other => .error (Failure.refused (.notGrowth other)).written

def ofDatum (d : Datum) : Outcome Growth := do
  let kind ← d.fieldOr "type" (.text "exponential")
  let a ← d.fieldOr "a" usual.a
  let b ← d.fieldOr "b" usual.b
  return ⟨← kindOfDatum kind, a, b⟩

end Growth

namespace Requirement

/-- The largest requirement; levels that need it are out of reach. -/
def greatest : Int := Binary64.greatest

/-- Round down, within the range of requirements. -/
def saturate (x : Number) : Except Fault Int :=
  if (Number.int greatest).le x then .ok greatest
  else if x.le (.int (-greatest)) then .ok (-greatest)
  else x.floor

/-- The end of the range on the side of a base whose product left the range of numbers. -/
def beyond (base : Number) : Int :=
  if base.isZero then 0 else if (Number.int 0).lt base then greatest else -greatest

/-- The product of a base and a power of the rate, rounded down. -/
def exponential (base rate : Datum) (level : Number) : Outcome Int := do
  let rate ← rate.toNumber
  let steps ← level.sub 1
  match rate.raise steps with
  | .error fault =>
      if fault.isOverflow then return beyond (← base.toNumber) else throw (.arithmetic fault)
  | .ok power =>
      let base ← base.toNumber
      match (base.mul power).bind saturate with
      | .ok exp => return exp
      | .error fault => if fault.isOverflow then return beyond base else throw (.arithmetic fault)

/-- The requirement of a single growth formula. -/
def ofGrowth (g : Growth) (level : Number) : Outcome Int :=
  match g.kind with
  | .exponential => exponential g.a g.b level
  | .linear => do
      let product ← (← g.a.toNumber).mul level
      let sum ← product.add (← g.b.toNumber)
      saturate sum

/-- The default growth, for levels that nothing else decides. -/
def ofDefault (level : Number) : Outcome Int := ofGrowth .usual level

/-- The requirement by a growth formula, if there is one, and otherwise by the default growth. -/
def ofGrowth? (g : Option Growth) (level : Number) : Outcome Int :=
  match g with
  | some g => ofGrowth g level
  | none => ofDefault level

def ofSegment (segment : Segment) (level : Number) : Outcome Int :=
  match segment with
  | .bezier segment => Outcome.ofFault (segment.requiredExp level)
  | .formula segment => do
      let bindings := Formula.Bindings.empty.bind .level level
      let x ← Formula.evaluate (.text segment.formula) bindings
      saturate (.real x)

/-- The requirement by the segment that covers the level. -/
def strict (c : Curve) (level : Number) : Outcome Int :=
  match c.segmentAt? level with
  | some segment => ofSegment segment level
  | none => .error (Failure.uncovered level).written

/-- The requirement at a level; nothing where the formula there is undefined. -/
def atLevel (c : Option Curve) (level : Number) : Outcome (Option Int) :=
  match c with
  | none => some <$> ofDefault level
  | some c =>
      match strict c level with
      | .ok exp => .ok (some exp)
      | .error (.uncovered _) => some <$> ofDefault level
      | .error (.formula _) => .ok none
      | .error failure => .error failure

/-- The requirement in effect. An undefined formula cannot stall progression: the default growth
steps in. -/
def effective (c : Option Curve) (growth : Option Growth) (level : Number) : Outcome Int :=
  match c with
  | some c =>
      if c.hasSegments then do
        match ← atLevel (some c) level with
        | some exp => return exp
        | none => ofDefault level
      else ofGrowth? growth level
  | none => ofGrowth? growth level

/-- The requirement that progression uses, which is never negative. -/
def next (c : Option Curve) (growth : Option Growth) (level : Number) : Outcome Int := do
  return max 0 (← effective c growth level)

theorem next_nonneg {c : Option Curve} {growth : Option Growth} {level : Number} {exp : Int}
    (h : next c growth level = .ok exp) : 0 ≤ exp := by
  obtain ⟨chosen, -, h⟩ := Outcome.bind_eq_ok_iff.1 h
  obtain rfl := Except.ok.inj h
  exact Int.le_max_left 0 chosen

end Requirement

end ExperienceCurves
