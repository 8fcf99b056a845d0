import ExperienceCurves.Ledger
import ExperienceCurves.Service.Form
import ExperienceCurves.Service.Problem
import ExperienceCurves.Settings

/-!
Views: how profiles, characters and results are shown. A curve is shown the way it would be sent,
so whatever is shown has the form of a request. What is no finite number is shown as nothing.
-/
namespace ExperienceCurves.Service.View

mutual

/-- The data with nothing in the place of infinities and of what is no number. -/
def finite : Datum → Datum
  | .number (.real x) => if x.isFinite then .real x else .null
  | .list items => .list (finiteItems items)
  | .record fields => .record (finiteFields fields)
  | d => d

def finiteItems : List Datum → List Datum
  | [] => []
  | item :: rest => finite item :: finiteItems rest

def finiteFields : List (String × Datum) → List (String × Datum)
  | [] => []
  | (name, value) :: rest => (name, finite value) :: finiteFields rest

end

/-- A value that has to have its form. -/
def shown : Checked α → Except Problem α
  | .valid a => .ok a
  | .invalid _ => .error (.internal "value does not have its form")

def whole (d : Datum) : Except Problem Datum := Datum.int <$> shown (Form.whole (.ofDatum d))

def decimal (d : Datum) : Except Problem Datum := Datum.real <$> shown (Form.decimal (.ofDatum d))

def pairs (overlaps : List (String × String)) : Datum :=
  .list (overlaps.map fun overlap => .list [.text overlap.1, .text overlap.2])

def curve (c : Curve) : Except Problem Datum := do
  let c ← shown (Form.curve (.ofDatum c.toDatum))
  return .record [("segments", .list (c.segments.map FormulaSegment.toDatum)),
    ("bezierSegments", .list (c.bezierSegments.map BezierSegment.toDatum)),
    ("useBezier", .truth c.useBezier), ("yAxisMax", c.yAxisMax.getD .null)]

def issue (i : ContinuityIssue) : Except Problem Datum := do
  let expected ← decimal (.number i.expected)
  let actual ← decimal (.number i.actual)
  return .record [("kind", .text i.kind.text), ("previousId", .text i.previousId),
    ("segmentId", .text i.segmentId), ("expected", expected), ("actual", actual)]

/-- A torn name can be written in no answer, which only turns out at the end. -/
def written : Word → Except Problem String
  | .text s => .ok s
  | .torn t => .error (.internal
      ("Error serializing to JSON: UnicodeEncodeError: " ++ t.trouble 0 fun _ => 1))

/-- A profile with the breaks and overlaps of its curve. -/
def profile (settings : Settings) (p : Profile) : Answer := do
  let shownCurve ← curve p.curve
  let found ← answered (p.curve.continuityIssues settings.continuityEpsilon)
  let continuity ← found.mapM issue
  let overlaps ← answered (Outcome.ofFault p.curve.overlaps)
  let maxLevel ← whole p.maxLevel
  let name ← written p.name
  return finite (.record [("name", .text name), ("version", .int p.version),
    ("maxLevel", maxLevel), ("curve", shownCurve), ("continuity", .list continuity),
    ("overlaps", pairs overlaps)])

def profiles (r : Registry) : Answer := do
  let rows ← r.profiles.mapM fun p => do
    return Datum.record [("name", .text (← written p.name)), ("version", .int p.version),
      ("maxLevel", p.maxLevel), ("useBezier", .truth p.curve.useBezier)]
  return finite (.record [("profiles", .list rows)])

/-- The breaks as they are, which only finite numbers can be. -/
def continuity (settings : Settings) (c : Curve) : Answer := do
  let found ← answered (c.continuityIssues settings.continuityEpsilon)
  let overlaps ← answered (Outcome.ofFault c.overlaps)
  let body := Datum.record [("continuous", .truth found.isEmpty),
    ("issues", .list (found.map ContinuityIssue.toDatum)), ("overlaps", pairs overlaps)]
  if body.isFinite then return body
  else throw (.internal Problem.notWritable)

def requirement (c : Curve) (level : Int) : Answer := do
  let exp ← answered (Requirement.atLevel (some c) (.int level))
  let id := (c.segmentAt? (.int level)).map fun segment => (Spanned.span segment).id
  return .record [("level", .int level), ("exp", Datum.ofOption .int exp),
    ("segmentId", Datum.ofOption .text id), ("undefined", .truth exp.isNone)]

def table (name : String) (c : Curve) (first last : Int) : Answer := do
  let rows ← answered (Table.project (some c) first last)
  return finite (.record [("name", .text name), ("rows", .list (rows.map TableRow.toDatum))])

def state (s : Progression) : Except Problem Datum := do
  let exp ← decimal (.number s.exp)
  let expToNext ← decimal s.expToNext
  let maxLevel ← whole s.maxLevel
  return .record [("level", .int s.level), ("exp", exp), ("expToNext", expToNext),
    ("maxLevel", maxLevel)]

def character (c : Character) : Answer := do
  let shownState ← state c.state
  let percent ← answered (do (← c.state.percent).toBinary64)
  let id ← written c.id
  let profile ← written c.profile
  return finite (.record [("characterId", .text id), ("profile", .text profile),
    ("state", shownState), ("progressPct", .real (percent.roundedTo 2))])

def levelUp (id : String) (r : Progression.LevelUp) : Answer := do
  let shownState ← state r.state
  return finite (.record [("characterId", .text id), ("state", shownState),
    ("leveledUp", .truth r.leveledUp), ("levelsGained", .int r.levelsGained)])

def stats (id : String) (level : Int) (p : StatsProfile) : Answer := do
  let stats ← answered (p.atLevel (.int level))
  let fields ← stats.mapM fun stat => do return (stat.1, ← decimal (.number stat.2))
  return finite (.record [("characterId", .text id), ("level", .int level),
    ("stats", .record fields)])

/-- The value of a formula, or the report of what is wrong with it. -/
def evaluation (form : Form.Evaluation) : Answer :=
  let bindings := (Formula.Bindings.empty.bind .level (.real form.level)).bind .size (.real form.size)
  let shownWith (value error : Datum) : Datum :=
    .record [("formula", .text form.formula), ("value", value), ("error", error)]
  match Formula.evaluate (.text form.formula) bindings with
  | .ok x => .ok (shownWith (.real x) .null)
  | .error failure =>
      match failure, failure.report? with
      | .formula _, some report => .ok (shownWith .null report)
      | _, _ => .error (.failed failure)

def validation (formula : String) : Answer := do
  let complaint ← answered (Formula.complaint? (.text formula))
  return .record [("valid", .truth complaint.isNone), ("error", Datum.ofOption .text complaint)]

def version : String := "1.0.0"

def health (r : Registry) : Datum :=
  .record [("status", .text (if r.size = 0 then "unhealthy" else "healthy")),
    ("profiles", .int r.size), ("version", .text version)]

def overview : Datum :=
  .record [("service", .text "LevelCurve API"), ("version", .text version),
    ("status", .text "operational"), ("docs", .text "/docs"),
    ("endpoints", .record [("curves", .text "/curves"), ("formulas", .text "/formulas/evaluate"),
      ("characters", .text "/characters"), ("health", .text "/health")])]

end ExperienceCurves.Service.View
