import ExperienceCurves.Service.Command
import ExperienceCurves.Service.View

/-!
The state of the service and what commands do to it. A change is made before its answer is put
together, and it stays even if the answer cannot be. Names for characters that come without one are
given with each command.
-/
namespace ExperienceCurves.Service

structure State where
  settings : Settings
  registry : Registry
  ledger : Ledger

namespace State

def seeded (settings : Settings) : State :=
  { settings, registry := Registry.seeded, ledger := Dictionary.empty }

def profileNamed (s : State) (name : Word) : Except Problem Profile :=
  match s.registry.find? name with
  | some profile => .ok profile
  | none => .error (.absent "Curve profile '" name "' not found")

def characterNamed (s : State) (id : String) : Except Problem Character :=
  match s.ledger.find? id with
  | some character => .ok character
  | none => .error (.notFound ("Character '" ++ id ++ "' not found"))

/-- Take over the registry and show what was published. -/
def commit (s : State) : Registry × Outcome Profile → State × Answer
  | (registry, .ok profile) => ({ s with registry }, View.profile s.settings profile)
  | (registry, .error failure) => ({ s with registry }, .error (.failed failure))

/-- Publish a profile with an edited curve, or show it as it is where nothing is edited. -/
def edit (s : State) (name : String) (change : Profile → Except Problem (Option Curve)) :
    State × Answer :=
  match s.profileNamed name with
  | .error problem => (s, .error problem)
  | .ok profile =>
      match change profile with
      | .error problem => (s, .error problem)
      | .ok none => (s, View.profile s.settings profile)
      | .ok (some curve) => s.commit (s.registry.publishCurve name curve)

/-- The profile that a publication stands for. A profile that is there keeps what the publication
does not give. -/
def published (s : State) (name : String) (form : Form.Publication) : Profile :=
  let given := form.maxLevel.map Datum.int
  match s.registry.find? name with
  | some current =>
      { current with curve := form.curve, maxLevel := given.getD current.maxLevel }
  | none =>
      { name := .text name, curve := form.curve, maxLevel := given.getD s.settings.defaultMaxLevel }

def publish (s : State) (name : String) (form : Form.Publication) : State × Answer :=
  s.commit (s.registry.publish (s.published name form))

def append (s : State) (name : String) (segment : Option Segment) : State × Answer :=
  s.edit name fun p => answered do
    p.curve.append? p.maxLevel segment s.settings.extension

def delete (s : State) (name id : String) : State × Answer :=
  s.edit name fun p =>
    match p.curve.delete? (.text id) with
    | some curve => .ok (some curve)
    | none => .error (.notFound ("Segment '" ++ id ++ "' not found"))

/-- Without segments there is nothing to divide among, and the same curve is published again. -/
def redistribute (s : State) (name : String) (maxLevel : Option Int) : State × Answer :=
  s.edit name fun p => answered do
    return some ((← p.curve.redistribute? ((maxLevel.map Datum.int).getD p.maxLevel)).getD p.curve)

/-- No segment has a torn name. -/
def drag (s : State) (name : String) (form : Form.Drag) : State × Answer :=
  s.edit name fun p =>
    match form.segmentId with
    | .text id => answered do
        let target : Editing.Target := ⟨.real form.level, .real form.exp⟩
        some <$> p.curve.drag (.text id) form.endpoint target p.maxLevel s.settings.snap
    | .torn t => .error (.cut "\x7b\"error\":\"segment_not_found\",\"message\":\"Segment '" t)

def setRange (s : State) (name id : String) (startLevel endLevel : Int) : State × Answer :=
  s.edit name fun p => answered do
    some <$> p.curve.setRange (.text id) (.int startLevel) (.int endLevel) p.maxLevel

def setMode (s : State) (name : String) (useBezier : Bool) : State × Answer :=
  s.edit name fun p => .ok (some (p.curve.withMode useBezier))

def resetScale (s : State) (name : String) : State × Answer :=
  s.edit name fun p => answered (some <$> p.curve.resetScale)

/-- Why a character is not created on a profile. -/
def notCreated (profile : Word) : Failure → Problem
  | .missing _ => .about 400 "Profile '" profile "' not found"
  | failure => .failed failure

/-- A name that is wanted for a character, but has one. -/
def isTaken (s : State) (id : Word) : Bool := id ≠ .text "" && (s.ledger.find? id).isSome

/-- A new character; a name that is wanted must be free. -/
def create (s : State) (freshId : String) (form : Form.Creation) : State × Answer :=
  match form.characterId.filter s.isTaken with
  | some id => (s, .error (.about 409 "Character '" id "' already exists"))
  | none =>
      match s.ledger.create s.registry form.profile form.characterId freshId with
      | (ledger, .ok character) => ({ s with ledger }, View.character character)
      | (ledger, .error failure) => ({ s with ledger }, .error (notCreated form.profile failure))

def grant (s : State) (id : String) (amount : Binary64) : State × Answer :=
  match s.characterNamed id with
  | .error problem => (s, .error problem)
  | .ok _ =>
      match s.ledger.grant s.registry id (.real amount) with
      | (ledger, .ok result) => ({ s with ledger }, View.levelUp id result)
      | (ledger, .error (.missing _)) => ({ s with ledger },
          .error (.notFound ("Curve profile for '" ++ id ++ "' no longer exists")))
      | (ledger, .error failure) => ({ s with ledger }, .error (.failed failure))

def requirement (s : State) (name : String) (level : Int) : Answer := do
  if level < 1 then throw (.rejected 422 "level must be >= 1")
  View.requirement (← s.profileNamed name).curve level

def mostRows : Int := 1000

def table (s : State) (name : String) (first last : Int) : Answer := do
  if last < first ∨ mostRows < last - first + 1 then
    throw (.rejected 422 ("Range must be non-empty and at most " ++ toString mostRows ++ " levels"))
  View.table name (← s.profileNamed name).curve first last

def stats (s : State) (id : String) : Answer := do
  let character ← s.characterNamed id
  let profile ← s.profileNamed character.profile
  View.stats id character.state.level profile.stats

/-- The state after a command, and its answer. -/
def perform (s : State) (freshId : String) : Command → State × Answer
  | .overview => (s, .ok View.overview)
  | .health => (s, .ok (View.health s.registry))
  | .profiles => (s, View.profiles s.registry)
  | .profile name => (s, do View.profile s.settings (← s.profileNamed name))
  | .requirement name level => (s, s.requirement name level)
  | .table name first last => (s, s.table name first last)
  | .continuity name => (s, do View.continuity s.settings (← s.profileNamed name).curve)
  | .evaluate form => (s, View.evaluation form)
  | .validate formula => (s, View.validation formula)
  | .character id => (s, do View.character (← s.characterNamed id))
  | .stats id => (s, s.stats id)
  | .publish name form => s.publish name form
  | .append name segment => s.append name segment
  | .delete name id => s.delete name id
  | .redistribute name maxLevel => s.redistribute name maxLevel
  | .drag name form => s.drag name form
  | .setRange name id startLevel endLevel => s.setRange name id startLevel endLevel
  | .setMode name useBezier => s.setMode name useBezier
  | .resetScale name => s.resetScale name
  | .create form => s.create freshId form
  | .grant id amount => s.grant id amount

/-- The state after a request, and its response. A request that is no command changes nothing. -/
def handle (s : State) (freshId : String) (r : Request) : State × Response :=
  match Command.ofRequest r with
  | .ok command =>
      let (s, answer) := s.perform freshId command
      (s, Response.ofAnswer answer)
  | .error problem => (s, problem.response)

end State

end ExperienceCurves.Service
