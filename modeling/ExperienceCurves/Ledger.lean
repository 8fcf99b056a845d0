import ExperienceCurves.Registry

/-!
The ledger of characters: the progression of each on its profile. A grant follows the curve that
is published when it happens, while the maximum level stays that of the character's creation. Gained
levels are announced, and stay even if that fails.
-/
namespace ExperienceCurves

structure Character where
  id : Word
  profile : Word
  state : Progression

def Character.toDatum (c : Character) : Datum :=
  .record [("characterId", .text c.id.mended), ("profile", .text c.profile.mended),
    ("state", c.state.toDatum)]

abbrev Ledger := Dictionary Word Character

namespace Ledger

def profileNamed (r : Registry) (name : Word) : Outcome Profile :=
  match r.find? name with
  | some profile => .ok profile
  | none => .error (.missing name)

/-- The wanted name of a character, or a fresh one if none is wanted. -/
def chosenId (wanted : Option Word) (freshId : String) : Word :=
  match wanted with
  | some id => if id = .text "" then freshId else id
  | none => freshId

/-- A new character at level one. -/
def newCharacter (r : Registry) (profile id : Word) : Outcome Character := do
  let profile ← profileNamed r profile
  let state ← Progression.new (some profile.curve) profile.maxLevel (some profile.growth)
  return { id, profile := profile.name, state }

/-- Add a new character, in place of any character with the same name. -/
def create (l : Ledger) (r : Registry) (profile : Word) (wanted : Option Word) (freshId : String) :
    Ledger × Outcome Character :=
  match newCharacter r profile (chosenId wanted freshId) with
  | .ok character => (l.store character.id character, .ok character)
  | .error failure => (l, .error failure)

/-- What a grant to a character comes to. -/
def credit (r : Registry) (character : Character) (amount : Datum) : Outcome Progression.LevelUp := do
  let profile ← profileNamed r character.profile
  character.state.grant (some profile.curve) (some profile.growth) (← amount.toNumber)

/-- Announce the levels that were gained. -/
def announce (id : Word) (result : Progression.LevelUp) : Outcome Progression.LevelUp := do
  if result.leveledUp then id.printed "[Ledger] "
  return result

/-- Grant experience to a character. -/
def grant (l : Ledger) (r : Registry) (id : Word) (amount : Datum) :
    Ledger × Outcome Progression.LevelUp :=
  match l.find? id with
  | none => (l, .error (.missing id))
  | some character =>
      match credit r character amount with
      | .error failure => (l, .error failure)
      | .ok result => (l.store id { character with state := result.state }, announce id result)

/-- Grants one after the other. One that fails does not stop the others. -/
def grantAll (l : Ledger) (r : Registry) :
    List (Word × Datum) → Ledger × List (Outcome Progression.LevelUp)
  | [] => (l, [])
  | (id, amount) :: rest =>
      let (l, result) := grant l r id amount
      let (l, results) := grantAll l r rest
      (l, result :: results)

end Ledger

end ExperienceCurves
