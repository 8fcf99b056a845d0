import ExperienceCurves.Dictionary
import ExperienceCurves.Profile

/-!
The registry of published profiles. Publishing replaces a profile as a whole and counts its version
up. A curve whose active segments do not fit the maximum level is refused, and what was published
before stays. What is published is announced, and stays even if that fails.
-/
namespace ExperienceCurves

abbrev Registry := Dictionary Word Profile

namespace Registry

/-- The registry with the built-in profiles. -/
def seeded : Registry :=
  (Preset.all.map Profile.ofPreset).foldl (fun r p => r.store p.name p) Dictionary.empty

/-- All profiles, in the order of their names. -/
def profiles (r : Registry) : List Profile := r.values.mergeSort fun p q => p.name ≤ q.name

def nextVersion (r : Registry) (name : Word) : Nat :=
  match r.find? name with
  | some previous => previous.version + 1
  | none => 1

/-- The profile with the version that it is published as. -/
def numbered (r : Registry) (p : Profile) : Profile := { p with version := r.nextVersion p.name }

/-- Announce a profile that was stored. -/
def announce (p : Profile) : Outcome Profile := do
  p.name.printed "[Registry] Published '"
  return p

/-- Publish a profile under its name, whatever version it comes with. -/
def publish (r : Registry) (p : Profile) : Registry × Outcome Profile :=
  match p.curve.check p.maxLevel with
  | .error failure => (r, .error failure)
  | .ok () => (r.store p.name (r.numbered p), announce (r.numbered p))

/-- Publish another curve for a profile that is there. -/
def publishCurve (r : Registry) (name : Word) (curve : Curve) : Registry × Outcome Profile :=
  match r.find? name with
  | some current => r.publish { current with curve }
  | none => (r, .error (.missing name))

end Registry

end ExperienceCurves
