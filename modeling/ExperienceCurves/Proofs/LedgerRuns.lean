import ExperienceCurves.Proofs.CharacterRuns
import ExperienceCurves.Proofs.PublicationRuns

/-!
Runs of the registry and the ledger, called one after the other in any mix. A record is changed by
the grants to its character, which only move it forward, and by one other call: a creation under an
id that is in use puts a new character in its place. Without such a creation a record stays, and
its level never falls. A grant to a torn id is written even though it cannot be announced.
-/
namespace ExperienceCurves

namespace Progression

/-- A grant of any amount keeps the maximum level and loses no level. -/
theorem grant_forward {s : Progression} {c : Option Curve} {growth : Option Growth}
    {amount : Number} {r : LevelUp} (h : s.grant c growth amount = .ok r) :
    r.state.maxLevel = s.maxLevel ∧ s.level ≤ r.state.level := by
  obtain ⟨-, ⟨-, hmake⟩ | ⟨-, exp, stand, -, hclimb, hmake⟩⟩ := grant_cases h
  · obtain ⟨hlevel, -, -, hmax⟩ := make_eq_ok hmake
    exact ⟨hmax, hlevel.ge⟩
  · obtain ⟨hlevel, -, -, hmax⟩ := make_eq_ok hmake
    exact ⟨hmax, hlevel ▸ (climb_level hclimb).1⟩

end Progression

/-- A registry with a ledger of characters on its profiles. -/
structure Services where
  registry : Registry
  ledger : Ledger

namespace Services

/-- A call to the ledger or to the registry. A creation comes with the id that is generated if none
is wanted. -/
inductive Call
  | create (profile : Word) (wanted : Option Word) (freshId : String)
  | grant (id : Word) (amount : Datum)
  | publish (p : Publication)

/-- What a call leads to, and whether it succeeds. -/
def outcome (s : Services) : Call → Services × Outcome Unit
  | .create profile wanted freshId =>
      let (ledger, created) := s.ledger.create s.registry profile wanted freshId
      ({ s with ledger }, Functor.discard created)
  | .grant id amount =>
      let (ledger, granted) := s.ledger.grant s.registry id amount
      ({ s with ledger }, Functor.discard granted)
  | .publish p =>
      let (registry, published) := p.outcome s.registry
      ({ s with registry }, Functor.discard published)

/-- The services after a call. -/
def after (s : Services) (call : Call) : Services := (s.outcome call).1

def run (s : Services) (calls : List Call) : Services := calls.foldl after s

/-- The call creates a character under the id, and succeeds. -/
def Creates (s : Services) (id : Word) (call : Call) : Prop :=
  ∃ profile wanted freshId, call = .create profile wanted freshId ∧
    Ledger.chosenId wanted freshId = id ∧ (s.outcome call).2 = .ok ()

/-- The call is a grant that the state of the character takes. -/
def Grants (s : Services) (id : Word) (call : Call) : Prop :=
  ∃ amount c result, call = .grant id amount ∧ s.ledger.find? id = some c ∧
    Ledger.credit s.registry c amount = .ok result

/-- What one call does to the record under an id: it keeps it, or grants to the character, or puts a
new one in its place. A grant that is written fails only if it cannot be announced. -/
inductive Changes (s : Services) (call : Call) (id : Word) (c : Character) : Character → Prop
  | kept (hgrants : ¬s.Grants id call) (hcreates : ¬s.Creates id call) : Changes s call id c c
  | granted (amount : Datum) (result : Progression.LevelUp) (hgrants : s.Grants id call)
      (hcall : call = .grant id amount) (hresult : Ledger.credit s.registry c amount = .ok result)
      (hanswer : (s.outcome call).2 = Functor.discard (Ledger.announce id result))
      (hmax : result.state.maxLevel = c.state.maxLevel)
      (hlevel : c.state.level ≤ result.state.level) :
      Changes s call id c { c with state := result.state }
  | replaced (new : Character) (hcreates : s.Creates id call) (hid : new.id = id)
      (hnew : new.state.IsNew) : Changes s call id c new

variable {s : Services} {id : Word} {c : Character} {call : Call}

/-- A creation stores its character under the chosen id, which may be in use. -/
theorem changes_create (hc : s.ledger.find? id = some c) (profile : Word) (wanted : Option Word)
    (freshId : String) :
    ∃ c', (s.after (.create profile wanted freshId)).ledger.find? id = some c' ∧
      Changes s (.create profile wanted freshId) id c c' := by
  have hgrants : ¬s.Grants id (.create profile wanted freshId) := by
    rintro ⟨amount, c', result, hcall, -⟩
    cases hcall
  rcases Ledger.create_cases s.ledger s.registry profile wanted freshId with
    ⟨failure, hcreate⟩ | ⟨new, hnew, hid, hcreate⟩
  · have hfails : s.outcome (.create profile wanted freshId) = (s, .error failure) := by
      rw [outcome, hcreate]
      rfl
    rw [after, hfails]
    refine ⟨c, hc, .kept hgrants ?_⟩
    rintro ⟨-, -, -, -, -, hok⟩
    rw [hfails] at hok
    cases hok
  · have hstores : s.outcome (.create profile wanted freshId) =
        ({ s with ledger := s.ledger.store new.id new }, .ok ()) := by
      rw [outcome, hcreate]
      rfl
    rw [after, hstores, Dictionary.find?_store]
    split
    · next hsame =>
      subst hsame
      exact ⟨new, rfl, .replaced new
        ⟨profile, wanted, freshId, rfl, hid.symm, congrArg Prod.snd hstores⟩ rfl
        (Ledger.isNew_newCharacter hnew)⟩
    · next hother =>
      refine ⟨c, hc, .kept hgrants ?_⟩
      rintro ⟨profile', wanted', freshId', hcall, hchosen, -⟩
      obtain ⟨-, rfl, rfl⟩ := Call.create.inj hcall
      exact hother (hchosen.symm.trans hid.symm)

/-- A grant stores the new state of its own character. -/
theorem changes_grant (hc : s.ledger.find? id = some c) (other : Word) (amount : Datum) :
    ∃ c', (s.after (.grant other amount)).ledger.find? id = some c' ∧
      Changes s (.grant other amount) id c c' := by
  have hcreates : ¬s.Creates id (.grant other amount) := by
    rintro ⟨profile, wanted, freshId, hcall, -⟩
    cases hcall
  rcases Ledger.grant_cases s.ledger s.registry other amount with
    ⟨failure, hfails, hgrant⟩ | ⟨d, result, hd, hcredit, hgrant⟩
  · have hsame : s.after (.grant other amount) = s := by
      rw [after, outcome, hgrant]
    rw [hsame]
    refine ⟨c, hc, .kept ?_ hcreates⟩
    rintro ⟨amount', c', result, hcall, hc', hresult⟩
    obtain ⟨rfl, rfl⟩ := Call.grant.inj hcall
    exact hfails c' result hc' hresult
  · have hstores : s.outcome (.grant other amount) =
        ({ s with ledger := s.ledger.store other { d with state := result.state } },
          Functor.discard (Ledger.announce other result)) := by
      rw [outcome, hgrant]
    rw [after, hstores, Dictionary.find?_store]
    split
    · next hsame =>
      subst hsame
      obtain rfl : c = d := Option.some.inj (hc.symm.trans hd)
      obtain ⟨p, n, -, -, hresult⟩ := Ledger.credit_eq_ok_iff.1 hcredit
      obtain ⟨hmax, hlevel⟩ := Progression.grant_forward hresult
      exact ⟨_, rfl, .granted amount result ⟨amount, c, result, rfl, hc, hcredit⟩ rfl hcredit
        (congrArg Prod.snd hstores) hmax hlevel⟩
    · next hother =>
      refine ⟨c, hc, .kept ?_ hcreates⟩
      rintro ⟨amount', c', result', hcall, -⟩
      exact hother (Call.grant.inj hcall).1.symm

/-- One call, by its kind. -/
theorem changes (hc : s.ledger.find? id = some c) (call : Call) :
    ∃ c', (s.after call).ledger.find? id = some c' ∧ Changes s call id c c' := by
  cases call with
  | create profile wanted freshId => exact changes_create hc profile wanted freshId
  | grant other amount => exact changes_grant hc other amount
  | publish p =>
    refine ⟨c, hc, .kept ?_ ?_⟩
    · rintro ⟨amount, c', result, hcall, -⟩
      cases hcall
    · rintro ⟨profile, wanted, freshId, hcall, -⟩
      cases hcall

/-- Along the run no creation under the id succeeds. -/
def Spares (s : Services) (id : Word) (calls : List Call) : Prop :=
  ∀ before call rest, calls = before ++ call :: rest → ¬(s.run before).Creates id call

/-- Along the run no grant to the id is taken. -/
def Withholds (s : Services) (id : Word) (calls : List Call) : Prop :=
  ∀ before call rest, calls = before ++ call :: rest → ¬(s.run before).Grants id call

theorem Spares.tail {calls : List Call} (h : s.Spares id (call :: calls)) :
    (s.after call).Spares id calls := fun before other rest hcalls =>
  h (call :: before) other rest (by rw [hcalls, List.cons_append])

theorem Withholds.tail {calls : List Call} (h : s.Withholds id (call :: calls)) :
    (s.after call).Withholds id calls := fun before other rest hcalls =>
  h (call :: before) other rest (by rw [hcalls, List.cons_append])

/-- A record after a run that spares it, by induction on the calls. -/
theorem run_spares {calls : List Call} (hc : s.ledger.find? id = some c)
    (hspares : s.Spares id calls) :
    ∃ c', (s.run calls).ledger.find? id = some c' ∧ c'.profile = c.profile ∧
      c'.state.maxLevel = c.state.maxLevel ∧ c.state.level ≤ c'.state.level ∧
      (s.Withholds id calls → c' = c) := by
  induction calls generalizing s c with
  | nil => exact ⟨c, hc, rfl, rfl, le_rfl, fun _ => rfl⟩
  | cons call rest ih =>
    obtain ⟨c₁, hc₁, hchange⟩ := changes hc call
    obtain ⟨c₂, hc₂, hprofile, hmax, hlevel, hsame⟩ := ih hc₁ hspares.tail
    cases hchange with
    | kept hgrants hcreates =>
      exact ⟨c₂, hc₂, hprofile, hmax, hlevel, fun h => hsame h.tail⟩
    | granted amount result hgrants hcall hresult hanswer hmax₁ hlevel₁ =>
      exact ⟨c₂, hc₂, hprofile, hmax.trans hmax₁, hlevel₁.trans hlevel,
        fun h => absurd hgrants (h [] call rest rfl)⟩
    | replaced new hcreates hid hnew => exact absurd hcreates (hspares [] call rest rfl)

/-- A record never disappears. One more call keeps it, unless it grants to the character or creates
one under its id, which starts from level one again. Along calls without such a creation profile
and maximum level stay, the level never falls, and without grants to the id nothing changes. -/
theorem record_forward (hc : s.ledger.find? id = some c) :
    (∀ call, ∃ c', (s.after call).ledger.find? id = some c' ∧ Changes s call id c c') ∧
    ∀ calls, s.Spares id calls →
      ∃ c', (s.run calls).ledger.find? id = some c' ∧ c'.profile = c.profile ∧
        c'.state.maxLevel = c.state.maxLevel ∧ c.state.level ≤ c'.state.level ∧
        (s.Withholds id calls → c' = c) :=
  ⟨changes hc, fun _ => run_spares hc⟩

/-- A new character, then grants to it and to nobody. -/
theorem record_forward_hero :
    let s : Services := (Services.mk .seeded .empty).after (.create "player" (some "hero") "")
    let calls : List Call := [.grant "ghost" (.int 5), .grant "hero" (.int 250)]
    s.Spares "hero" calls ∧ ∃ c c', s.ledger.find? "hero" = some c ∧
      (s.run calls).ledger.find? "hero" = some c' ∧ c'.profile = c.profile ∧
      c.state.level ≤ c'.state.level := by
  intro s calls
  have hspares : s.Spares "hero" calls := by
    rintro before call rest hcalls ⟨profile, wanted, freshId, rfl, -⟩
    have hmem : Call.create profile wanted freshId ∈ calls := hcalls ▸ by simp
    simp [calls] at hmem
  have hsome : (s.ledger.find? "hero").isSome = true := by decide +kernel
  obtain ⟨c, hc⟩ := Option.isSome_iff_exists.1 hsome
  obtain ⟨c', hc', hprofile, -, hlevel, -⟩ := (record_forward hc).2 calls hspares
  exact ⟨hspares, c, c', hc, hc', hprofile, hlevel⟩

/-- A character at level three is created once more, which succeeds and leaves it at level one. -/
theorem created_again_starts_over :
    let creation : Call := .create "player" (some "hero") ""
    let s : Services := (Services.mk .seeded .empty).run [creation, .grant "hero" (.int 250)]
    (s.ledger.find? "hero").map (·.state.level) = some 3 ∧ s.Creates "hero" creation ∧
      ¬s.Grants "hero" creation ∧
      ((s.after creation).ledger.find? "hero").map (·.state.level) = some 1 := by
  intro creation s
  have hsucceeds : (s.outcome creation).2.isOk = true := by decide +kernel
  obtain ⟨⟨⟩, hok⟩ := Outcome.exists_of_isOk hsucceeds
  refine ⟨by decide +kernel, ⟨"player", some "hero", "", rfl, rfl, hok⟩, ?_, by decide +kernel⟩
  rintro ⟨amount, c, result, hcall, -⟩
  simp [creation] at hcall

end Services

end ExperienceCurves
