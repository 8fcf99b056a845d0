import ExperienceCurves.Service.Form
import ExperienceCurves.Service.Problem
import ExperienceCurves.Service.Request

/-!
Commands: what requests ask for. The path names a resource, the method says what to do with it, and
body and parameters give the rest. A request becomes a command or a problem before anything else is
looked at.
-/
namespace ExperienceCurves.Service

inductive Resource
  | overview
  | health
  | profiles
  | profile (name : String)
  | requirement (name level : String)
  | table (name : String)
  | continuity (name : String)
  | segments (name : String)
  | segment (name id : String)
  | redistribution (name : String)
  | handles (name : String)
  | range (name id : String)
  | mode (name : String)
  | scale (name : String)
  | evaluation
  | validation
  | characters
  | character (id : String)
  | experience (id : String)
  | stats (id : String)
  deriving DecidableEq

namespace Resource

def ofNames : List String → Option Resource
  | ["api"] => some overview
  | ["health"] => some health
  | ["curves"] => some profiles
  | ["curves", name] => some (profile name)
  | ["curves", name, "table"] => some (table name)
  | ["curves", name, "continuity"] => some (continuity name)
  | ["curves", name, "segments"] => some (segments name)
  | ["curves", name, "redistribute"] => some (redistribution name)
  | ["curves", name, "drag"] => some (handles name)
  | ["curves", name, "mode"] => some (mode name)
  | ["curves", name, "required-exp", level] => some (requirement name level)
  | ["curves", name, "segments", id] => some (segment name id)
  | ["curves", name, "y-axis", "reset"] => some (scale name)
  | ["curves", name, "segments", id, "range"] => some (range name id)
  | ["formulas", "evaluate"] => some evaluation
  | ["formulas", "validate"] => some validation
  | ["characters"] => some characters
  | ["characters", id] => some (character id)
  | ["characters", id, "experience"] => some (experience id)
  | ["characters", id, "stats"] => some (stats id)
  | _ => none

/-- The resource that a path names. Its names are not empty and a slash stands before each. -/
def named (path : List Char) : Option Resource :=
  match pieces '/' path with
  | [] :: names => if [] ∈ names then none else ofNames (names.map String.ofList)
  | _ => none

/-- The resource of a path. A line end after the path is only passed over where it is no part of a
name. -/
def ofPath (path : String) : Option Resource :=
  (named path.toList).orElse fun _ =>
    if path.toList.getLast? = some '\n' then named path.toList.dropLast else none

/-- The path without slashes at its end. -/
def withoutSlashes (path : String) : String :=
  String.ofList (path.toList.reverse.dropWhile (· = '/')).reverse

end Resource

inductive Command
  | overview
  | health
  | profiles
  | profile (name : String)
  | publish (name : String) (form : Form.Publication)
  | requirement (name : String) (level : Int)
  | table (name : String) (first last : Int)
  | continuity (name : String)
  | append (name : String) (segment : Option Segment)
  | delete (name id : String)
  | redistribute (name : String) (maxLevel : Option Int)
  | drag (name : String) (form : Form.Drag)
  | setRange (name id : String) (startLevel endLevel : Int)
  | setMode (name : String) (useBezier : Bool)
  | resetScale (name : String)
  | evaluate (form : Form.Evaluation)
  | validate (formula : String)
  | create (form : Form.Creation)
  | character (id : String)
  | grant (id : String) (amount : Binary64)
  | stats (id : String)

namespace Command

def settled : Checked α → Except Problem α
  | .valid a => .ok a
  | .invalid complaints => .error (.invalid complaints)

/-- What a body gives, if it has the form. -/
def inBody (r : Request) (read : Form.Reader α) : Except Problem α :=
  match r.body with
  | .empty => settled ((Checked.refuse .missing .null).under "body")
  | .malformed => settled ((Checked.refuse .malformed (.record [])).under "body")
  | .unreadable => .error (.rejected 400 "There was an error parsing the body")
  | .value v => settled ((read v).under "body")

/-- A whole number that is a part of the path. -/
def inPath (name written : String) : Checked Int :=
  ((Form.whole (.text (.text written))).under name).under "path"

/-- A level among the parameters. -/
def inQuery (r : Request) (name : String) (fallback : Int) : Checked Int :=
  match r.parameter? name with
  | some written => ((Form.wholeFrom 1 (.text (.text written))).under name).under "query"
  | none => .valid fallback

/-- What is asked for of a resource. -/
def ofResource (r : Request) : Resource → Method → Except Problem Command
  | .overview, .get => .ok overview
  | .health, .get => .ok health
  | .profiles, .get => .ok profiles
  | .profile name, .get => .ok (profile name)
  | .profile name, .put => publish name <$> inBody r Form.publication
  | .requirement name level, .get => requirement name <$> settled (inPath "level" level)
  | .table name, .get => settled (table name <$> inQuery r "start" 1 <*> inQuery r "end" 20)
  | .continuity name, .get => .ok (continuity name)
  | .segments name, .post => append name <$> inBody r Form.appended
  | .segment name id, .delete => .ok (delete name id)
  | .redistribution name, .post => redistribute name <$> inBody r Form.redistribution
  | .handles name, .post => drag name <$> inBody r Form.drag
  | .range name id, .patch =>
      (fun bounds => setRange name id bounds.1 bounds.2) <$> inBody r Form.range
  | .mode name, .post => setMode name <$> inBody r Form.mode
  | .scale name, .post => .ok (resetScale name)
  | .evaluation, .post => evaluate <$> inBody r Form.evaluation
  | .validation, .post => validate <$> inBody r Form.validation
  | .characters, .post => create <$> inBody r Form.creation
  | .character id, .get => .ok (character id)
  | .experience id, .post => grant id <$> inBody r Form.experience
  | .stats id, .get => .ok (stats id)
  | _, _ => .error .methodNotAllowed

/-- What is asked for, where the path leads to a resource. Where it only does without the slashes at
its end, whoever asks is sent there. -/
def ofRequest (r : Request) : Except Problem Command :=
  match Resource.ofPath r.path with
  | some resource => ofResource r resource r.method
  | none =>
      match Resource.ofPath (Resource.withoutSlashes r.path) with
      | some _ => .error .redirected
      | none => .error (.unknownPath r.path)

end Command

end ExperienceCurves.Service
