import ExperienceCurves.Proofs.NumberOrder
import ExperienceCurves.Proofs.ShownProfiles

/-!
Runs of publications. A call publishes a whole profile or only another curve for one that is there,
and what it stores is remembered beside the registry. Whatever the calls are, every stored profile
keeps to its own maximum level and its version counts the publications under its name.
-/
namespace ExperienceCurves

namespace Span

end Span

namespace Curve

end Curve

namespace Profile

end Profile

namespace Registry

end Registry

/-- A call that publishes. -/
inductive Publication
  | profile (p : Profile)
  | curve (name : Word) (curve : Curve)

namespace Publication

/-- The name that is published under. -/
def name : Publication → Word
  | profile p => p.name
  | curve name _ => name

/-- The profile that is to be published, if the name of a curve is known. -/
def given? (r : Registry) : Publication → Option Profile
  | profile p => some p
  | curve name c => (r.find? name).map fun current => { current with curve := c }

def outcome (r : Registry) : Publication → Registry × Outcome Profile
  | profile p => r.publish p
  | curve name c => r.publishCurve name c

/-- The profile that passes the check, as it is stored. -/
def stored? (r : Registry) (call : Publication) : Option Profile :=
  (call.given? r).bind fun p =>
    if (p.curve.check p.maxLevel).isOk then some (r.numbered p) else none

variable {r : Registry} {call : Publication} {p stored : Profile}

theorem outcome_of_given? (h : call.given? r = some p) : call.outcome r = r.publish p := by
  cases call with
  | profile q => rw [← Option.some.inj h, outcome]
  | curve name c =>
    obtain ⟨current, hcurrent, rfl⟩ := Option.map_eq_some_iff.1 h
    rw [outcome, Registry.publishCurve, hcurrent]

theorem outcome_of_given?_eq_none (h : call.given? r = none) :
    call.outcome r = (r, .error (.missing call.name)) := by
  cases call with
  | profile q => cases h
  | curve name c =>
    have hmissing : r.find? name = none := by simpa [given?] using h
    rw [outcome, Registry.publishCurve, hmissing]
    rfl

theorem stored?_eq_some_iff : call.stored? r = some stored ↔
    ∃ p, call.given? r = some p ∧ p.curve.check p.maxLevel = .ok () ∧ r.numbered p = stored := by
  simp only [stored?, Option.bind_eq_some_iff]
  refine exists_congr fun p => and_congr_right fun _ => ?_
  cases p.curve.check p.maxLevel with
  | ok checked => simp [Except.isOk, Except.toBool]
  | error failure => simp [Except.isOk, Except.toBool]

/-- What passes the check is stored and announced. -/
theorem outcome_of_stored? (h : call.stored? r = some stored) :
    call.outcome r = (r.store stored.name stored, Registry.announce stored) := by
  obtain ⟨p, hgiven, hcheck, rfl⟩ := stored?_eq_some_iff.1 h
  rw [outcome_of_given? hgiven, Registry.publish_of_check hcheck]
  rfl

/-- A call that stores nothing fails. -/
theorem outcome_of_stored?_eq_none (h : call.stored? r = none) :
    ∃ failure, call.outcome r = (r, .error failure) := by
  cases hgiven : call.given? r with
  | none => exact ⟨_, outcome_of_given?_eq_none hgiven⟩
  | some p =>
    cases hcheck : p.curve.check p.maxLevel with
    | error failure =>
      exact ⟨failure, (outcome_of_given? hgiven).trans (Registry.publish_of_refused hcheck)⟩
    | ok checked => cases h.symm.trans (stored?_eq_some_iff.2 ⟨p, hgiven, hcheck, rfl⟩)

end Publication

namespace Registry

/-- A registry with the profiles that were stored in it so far, in order. -/
structure History where
  registry : Registry
  stored : List Profile

namespace History

/-- The history after a call. -/
def after (h : History) (call : Publication) : History :=
  ⟨(call.outcome h.registry).1, h.stored ++ (call.stored? h.registry).toList⟩

def run (start : Registry) (calls : List Publication) : History := calls.foldl after ⟨start, []⟩

/-- The stored profiles of one name, in order. -/
def under (h : History) (name : Word) : List Profile := h.stored.filter (·.name = name)

end History

/-- The versions that were there at the start: the first one of each name. -/
def versionsAt (start : Registry) (name : Word) : Nat := if (start.find? name).isSome then 1 else 0

/-- What one more call does. If it fails, nothing is changed, unless it is the announcement of a torn
name that fails. What is known and passes the check is stored under the name of the call, and no
other profile is touched. A call with a curve changes the curve and the version of its profile. -/
structure Replaces (r : Registry) (call : Publication) : Prop where
  failed : ∀ failure, (call.outcome r).2 = .error failure →
    (call.outcome r).1 = r ∨ ∃ t, call.name = .torn t
  accepted : ∀ p, call.given? r = some p → p.curve.check p.maxLevel = .ok () →
    (call.outcome r).1.find? call.name = some (r.numbered p) ∧
      ∀ name : String, call.name = name → (call.outcome r).2 = .ok (r.numbered p)
  others : ∀ other, other ≠ call.name → (call.outcome r).1.find? other = r.find? other
  stored : ∀ stored, (call.outcome r).2 = .ok stored →
    (call.outcome r).1.find? call.name = some stored
  profile : ∀ p stored, call = .profile p → (call.outcome r).2 = .ok stored →
    stored = { p with version := stored.version }
  curve : ∀ name c stored, call = .curve name c → (call.outcome r).2 = .ok stored →
    ∃ current, r.find? name = some current ∧
      stored = { current with curve := c, version := current.version + 1 }

section Runs

variable {start : Registry} {h : History} {call : Publication}

theorem History.after_of_stored? {stored : Profile} (hstored : call.stored? h.registry = some stored) :
    h.after call = ⟨h.registry.store stored.name stored, h.stored ++ [stored]⟩ := by
  rw [after, hstored, Publication.outcome_of_stored? hstored]
  rfl

theorem History.after_of_stored?_eq_none (hnone : call.stored? h.registry = none) :
    h.after call = h := by
  obtain ⟨failure, hfailed⟩ := Publication.outcome_of_stored?_eq_none hnone
  rw [after, hnone, hfailed, Option.toList_none, List.append_nil]

theorem nextVersion_of_find? {r : Registry} {name : Word} {p : Profile}
    (hp : r.find? name = some p) : r.nextVersion name = p.version + 1 := by
  rw [nextVersion, hp]

theorem nextVersion_store (r : Registry) (p : Profile) (name : Word) :
    nextVersion (r.store p.name p) name =
      if name = p.name then p.version + 1 else r.nextVersion name := by
  have hstore := Dictionary.find?_store r p.name name p
  by_cases hname : name = p.name
  · rw [if_pos hname] at hstore ⊢
    exact nextVersion_of_find? hstore
  · rw [if_neg hname] at hstore ⊢
    rw [nextVersion, hstore, nextVersion]

/-- What every call keeps. The next version of a name counts its publications, so what is stored
has just that version. -/
structure Kept (start : Registry) (h : History) : Prop where
  names : h.registry.IsKeyedBy Profile.name
  checked : ∀ name p, h.registry.find? name = some p → p.curve.check p.maxLevel = .ok ()
  version_pos : ∀ name p, h.registry.find? name = some p → 0 < p.version
  nextVersion_eq : ∀ name,
    h.registry.nextVersion name = (h.under name).length + versionsAt start name + 1
  versions_eq : ∀ name, (h.under name).map (·.version) =
    List.range' (versionsAt start name + 1) (h.under name).length

/-- Storing a profile that passed the check, under the next version of its name. -/
theorem Kept.store {p : Profile} (hh : Kept start h) (hcheck : p.curve.check p.maxLevel = .ok ())
    (hversion : p.version = h.registry.nextVersion p.name) :
    Kept start ⟨h.registry.store p.name p, h.stored ++ [p]⟩ := by
  have hfound {Q : Profile → Prop} (name : Word) (q : Profile)
      (hold : h.registry.find? name = some q → Q q) (hnew : Q p)
      (hq : (h.registry.store p.name p).find? name = some q) : Q q := by
    rw [Dictionary.find?_store] at hq
    split at hq
    · exact Option.some.inj hq ▸ hnew
    · exact hold hq
  have hunder (name : Word) :
      History.under ⟨h.registry.store p.name p, h.stored ++ [p]⟩ name =
        h.under name ++ if p.name = name then [p] else [] := by
    simp only [History.under, List.filter_append, List.filter_cons, List.filter_nil,
      decide_eq_true_eq]
  have hnext := hh.nextVersion_eq p.name
  refine ⟨hh.names.store p, ?_, ?_, ?_, ?_⟩
  · intro name q hq
    exact hfound (Q := fun q => q.curve.check q.maxLevel = .ok ()) name q (hh.checked name q)
      hcheck hq
  · intro name q hq
    exact hfound (Q := fun q => 0 < q.version) name q (hh.version_pos name q) (by omega) hq
  · intro name
    rw [nextVersion_store, hunder]
    by_cases hname : name = p.name
    · rw [if_pos hname, if_pos hname.symm, hname, List.length_append, List.length_singleton]
      omega
    · rw [if_neg hname, if_neg (Ne.symm hname), List.append_nil]
      exact hh.nextVersion_eq name
  · intro name
    rw [hunder]
    by_cases hname : p.name = name
    · subst hname
      have hlast : p.version = versionsAt start p.name + 1 + 1 * (h.under p.name).length := by
        omega
      rw [if_pos rfl, List.map_append, hh.versions_eq, List.length_append, List.length_singleton,
        List.range'_concat, List.map_singleton, hlast]
    · rw [if_neg hname, List.append_nil]
      exact hh.versions_eq name

theorem Kept.after (hh : Kept start h) (call : Publication) : Kept start (h.after call) := by
  cases hstored : call.stored? h.registry with
  | none =>
    rw [History.after_of_stored?_eq_none hstored]
    exact hh
  | some stored =>
    rw [History.after_of_stored? hstored]
    obtain ⟨p, -, hcheck, rfl⟩ := Publication.stored?_eq_some_iff.1 hstored
    exact hh.store hcheck rfl

/-- What every call keeps holds after a run, by induction over the calls. -/
theorem Kept.run (hh : Kept start h) (calls : List Publication) :
    Kept start (calls.foldl History.after h) := by
  induction calls generalizing h with
  | nil => exact hh
  | cons call rest ih => exact ih (hh.after call)

end Runs

end Registry

end ExperienceCurves
