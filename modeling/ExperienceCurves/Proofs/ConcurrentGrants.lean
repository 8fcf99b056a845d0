import ExperienceCurves.Proofs.Grants
import ExperienceCurves.Proofs.ShownProfiles

/-!
Grants that run side by side. Each takes its steps one at a time, in any order among the others:
it looks up the lock of its character, acquires it, reads the record and its profile, computes,
writes and releases. Whoever is between acquiring and releasing is alone with the record, so the
grants to a character come to one grant of their sum. What comes of a grant is announced when its
lock is free again.
-/
namespace ExperienceCurves

open Progression (LevelUp)

/-- How far a grant has come. -/
inductive Stage
  | started
  | waiting
  | entered
  | loaded (character : Character) (profile : Profile)
  | computed (character : Character) (result : LevelUp)
  | leaving (outcome : Outcome LevelUp)
  | finished (outcome : Outcome LevelUp)

/-- One grant of a whole amount. -/
structure Task where
  id : Word
  amount : Int
  stage : Stage

/-- The ledger with the locks of its characters and the grants that work on it. A lock is free or
held by the grant of some number. -/
structure Session where
  ledger : Ledger
  locks : Word → Option (Option Nat)
  tasks : List Task

namespace Session

/-- Every character has a lock, which is free, and no grant has begun. -/
def start (l : Ledger) (grants : List (Word × Int)) : Session where
  ledger := l
  locks id := (l.find? id).map fun _ => none
  tasks := grants.map fun (id, amount) => ⟨id, amount, .started⟩

def setStage (s : Session) (i : Nat) (t : Task) (stage : Stage) : Session :=
  { s with tasks := s.tasks.set i { t with stage } }

def setLock (s : Session) (id : Word) (holder : Option Nat) : Session :=
  { s with locks := fun other => if other = id then some holder else s.locks other }

def store (s : Session) (id : Word) (c : Character) : Session :=
  { s with ledger := s.ledger.store id c }

/-- The next step of a grant that is not finished. One that waits for a lock in use stays. -/
def advance (r : Registry) (s : Session) (i : Nat) (t : Task) : Session :=
  match t.stage with
  | .started =>
      match s.locks t.id with
      | none => s.setStage i t (.finished (.error (.missing t.id)))
      | some _ => s.setStage i t .waiting
  | .waiting =>
      match s.locks t.id with
      | some none => (s.setLock t.id (some i)).setStage i t .entered
      | _ => s
  | .entered =>
      match s.ledger.find? t.id with
      | none => s.setStage i t (.leaving (.error (.missing t.id)))
      | some c =>
          match Ledger.profileNamed r c.profile with
          | .ok p => s.setStage i t (.loaded c p)
          | .error failure => s.setStage i t (.leaving (.error failure))
  | .loaded c p =>
      match c.state.grant (some p.curve) (some p.growth) (.int t.amount) with
      | .ok result => s.setStage i t (.computed c result)
      | .error failure => s.setStage i t (.leaving (.error failure))
  | .computed c result =>
      (s.store t.id { c with state := result.state }).setStage i t (.leaving (.ok result))
  | .leaving outcome => (s.setLock t.id none).setStage i t (.finished outcome)
  | .finished _ => s

def step (r : Registry) (s : Session) (i : Nat) : Session :=
  match s.tasks[i]? with
  | some t => s.advance r i t
  | none => s

/-- Steps in the order of a schedule, which names the grant whose turn it is. -/
def run (r : Registry) (s : Session) (schedule : List Nat) : Session := schedule.foldl (step r) s

end Session

/-- A grant is finished. -/
def Task.IsFinished (t : Task) : Prop := ∃ outcome, t.stage = .finished outcome

def Session.IsFinished (s : Session) : Prop := ∀ t ∈ s.tasks, t.IsFinished

/-- What the caller gets: what came of the grant, if it could be announced. -/
def Task.answer? (t : Task) : Option (Outcome LevelUp) :=
  match t.stage with
  | .finished outcome => some (outcome >>= Ledger.announce t.id)
  | _ => none

/-- Undisturbed, the steps of one grant do what the ledger's grant does. -/
theorem Session.run_alone (r : Registry) (l : Ledger) (id : Word) (amount : Int) :
    let s := run r (start l [(id, amount)]) (List.replicate 6 0)
    s.ledger = (l.grant r id (.int amount)).1 ∧
      s.tasks.map Task.answer? = [some (l.grant r id (.int amount)).2] := by
  intro s
  unfold Ledger.grant
  cases hc : l.find? id with
  | none => simp [s, run, step, advance, start, setStage, List.replicate, hc, Task.answer?, bind,
      Except.bind]
  | some c =>
    unfold Ledger.credit
    cases hp : Ledger.profileNamed r c.profile with
    | error failure =>
      simp [s, run, step, advance, start, setStage, setLock, List.replicate, hc, hp, Task.answer?,
        bind, Except.bind]
    | ok p =>
      cases hresult : c.state.grant (some p.curve) (some p.growth) (.int amount) with
      | error failure =>
        simp [s, run, step, advance, start, setStage, setLock, List.replicate, hc, hp, hresult,
          Task.answer?, bind, Except.bind, Datum.int, Datum.toNumber]
      | ok result =>
        simp [s, run, step, advance, start, setStage, setLock, store, List.replicate, hc, hp,
          hresult, Task.answer?, bind, Except.bind, Datum.int, Datum.toNumber]

namespace Session

/-- The moves of a grant. It fails inside if the profile is gone or the amount is refused. -/
inductive Move (r : Registry) (s : Session) (i : Nat) (t : Task) : Session → Prop
  | unknown (hstage : t.stage = .started) (hlock : s.locks t.id = none) :
      Move r s i t (s.setStage i t (.finished (.error (.missing t.id))))
  | found (holder : Option Nat) (hstage : t.stage = .started) (hlock : s.locks t.id = some holder) :
      Move r s i t (s.setStage i t .waiting)
  | acquired (hstage : t.stage = .waiting) (hlock : s.locks t.id = some none) :
      Move r s i t ((s.setLock t.id (some i)).setStage i t .entered)
  | absent (failure : Failure) (hstage : t.stage = .entered)
      (habsent : s.ledger.find? t.id = none ∨
        ∃ c, s.ledger.find? t.id = some c ∧ r.find? c.profile = none) :
      Move r s i t (s.setStage i t (.leaving (.error failure)))
  | loaded (c : Character) (p : Profile) (hstage : t.stage = .entered)
      (hc : s.ledger.find? t.id = some c) (hp : r.find? c.profile = some p) :
      Move r s i t (s.setStage i t (.loaded c p))
  | refused (c : Character) (p : Profile) (failure : Failure) (hstage : t.stage = .loaded c p)
      (hgrant : c.state.grant (some p.curve) (some p.growth) (.int t.amount) = .error failure) :
      Move r s i t (s.setStage i t (.leaving (.error failure)))
  | computed (c : Character) (p : Profile) (result : LevelUp) (hstage : t.stage = .loaded c p)
      (hgrant : c.state.grant (some p.curve) (some p.growth) (.int t.amount) = .ok result) :
      Move r s i t (s.setStage i t (.computed c result))
  | stored (c : Character) (result : LevelUp) (hstage : t.stage = .computed c result) :
      Move r s i t
        ((s.store t.id { c with state := result.state }).setStage i t (.leaving (.ok result)))
  | released (outcome : Outcome LevelUp) (hstage : t.stage = .leaving outcome) :
      Move r s i t ((s.setLock t.id none).setStage i t (.finished outcome))

/-- A grant that does not move is finished or waits for a lock in use. -/
def Rests (s : Session) (t : Task) : Prop :=
  t.IsFinished ∨ t.stage = .waiting ∧ s.locks t.id ≠ some none

theorem advance_cases (r : Registry) (s : Session) (i : Nat) (t : Task) :
    s.advance r i t = s ∧ s.Rests t ∨ Move r s i t (s.advance r i t) := by
  unfold advance
  cases hstage : t.stage with
  | started =>
    cases hlock : s.locks t.id with
    | none => exact Or.inr (.unknown hstage hlock)
    | some holder => exact Or.inr (.found holder hstage hlock)
  | waiting =>
    cases hlock : s.locks t.id with
    | none => exact Or.inl ⟨rfl, Or.inr ⟨hstage, by simp [hlock]⟩⟩
    | some holder =>
      cases holder with
      | none => exact Or.inr (.acquired hstage hlock)
      | some j => exact Or.inl ⟨rfl, Or.inr ⟨hstage, by simp [hlock]⟩⟩
  | entered =>
    cases hc : s.ledger.find? t.id with
    | none => exact Or.inr (.absent _ hstage (Or.inl hc))
    | some c =>
      cases hp : r.find? c.profile with
      | none =>
        simp only [Ledger.profileNamed, hp]
        exact Or.inr (.absent _ hstage (Or.inr ⟨c, hc, hp⟩))
      | some p =>
        simp only [Ledger.profileNamed, hp]
        exact Or.inr (.loaded c p hstage hc hp)
  | loaded c p =>
    cases hgrant : c.state.grant (some p.curve) (some p.growth) (.int t.amount) with
    | error failure =>
      simp only [hgrant]
      exact Or.inr (.refused c p failure hstage hgrant)
    | ok result =>
      simp only [hgrant]
      exact Or.inr (.computed c p result hstage hgrant)
  | computed c result => exact Or.inr (.stored c result hstage)
  | leaving outcome => exact Or.inr (.released outcome hstage)
  | finished outcome => exact Or.inl ⟨rfl, Or.inl ⟨outcome, hstage⟩⟩

theorem step_cases (r : Registry) (s : Session) (i : Nat) :
    s.step r i = s ∧ (∀ t, s.tasks[i]? = some t → s.Rests t) ∨
      ∃ t, s.tasks[i]? = some t ∧ Move r s i t (s.step r i) := by
  unfold step
  cases ht : s.tasks[i]? with
  | none => exact Or.inl ⟨rfl, fun t h => nomatch h⟩
  | some t =>
    rcases s.advance_cases r i t with ⟨hsame, hrests⟩ | hmove
    · exact Or.inl ⟨hsame, fun u hu => Option.some.inj hu ▸ hrests⟩
    · exact Or.inr ⟨t, rfl, hmove⟩

end Session

/-- Every character is on a published profile and counts in whole numbers, and the profile says
what each level up to the maximum requires. -/
def Ledger.IsReady (r : Registry) (l : Ledger) : Prop :=
  ∀ id c, l.find? id = some c → ∃ p exp need maxLevel, r.find? c.profile = some p ∧
    c.state.Counts exp need maxLevel ∧
    Requirement.DefinedTo (some p.curve) (some p.growth) maxLevel

/-- A character that is created on a profile whose requirements are defined is ready. -/
theorem Ledger.IsReady.store {r : Registry} {l : Ledger} {profile id : Word} {c : Character}
    {p : Profile} {maxLevel : Int} (hl : l.IsReady r) (hp : r.find? profile = some p)
    (hname : p.name = profile) (hmax : p.maxLevel = .int maxLevel)
    (hdefined : Requirement.DefinedTo (some p.curve) (some p.growth) (max 1 maxLevel))
    (h : newCharacter r profile id = .ok c) : Ledger.IsReady r (l.store id c) := by
  obtain ⟨q, hq, -, hprofile, hstate⟩ := newCharacter_eq_ok h
  obtain rfl : p = q := Option.some.inj (hp.symm.trans hq)
  obtain ⟨first, hfirst, -, hsound⟩ := Progression.new_sound (some p.curve) (some p.growth) maxLevel
    fun hone => hdefined 1 le_rfl (by omega)
  rw [hmax] at hstate
  obtain rfl : first = c.state := Except.ok.inj (hfirst.symm.trans hstate)
  obtain ⟨exp, need, hcounts⟩ := hsound.exists_counts
  intro id' other hother
  rw [Dictionary.find?_store] at hother
  split at hother
  · obtain rfl := Option.some.inj hother
    exact ⟨p, exp, need, _, by rw [hprofile, hname, hp], hcounts, hdefined⟩
  · exact hl id' other hother

/-- Why a grant is refused, if it is: the character is unknown or the amount negative. -/
def Ledger.rejection? (l : Ledger) (id : Word) (amount : Int) : Option Failure :=
  match l.find? id with
  | none => some (.missing id)
  | some _ =>
      if amount < 0 then some (Failure.refused (.negativeGrant (.int amount))).written else none

namespace Ledger

variable {l : Ledger} {id : Word} {amount : Int} {c : Character}

theorem rejection?_of_unknown (h : l.find? id = none) :
    l.rejection? id amount = some (.missing id) := by
  rw [rejection?, h]

theorem rejection?_of_neg (h : l.find? id = some c) (hamount : amount < 0) :
    l.rejection? id amount = some (Failure.refused (.negativeGrant (.int amount))).written := by
  rw [rejection?, h]
  exact if_pos hamount

theorem rejection?_of_nonneg (h : l.find? id = some c) (hamount : 0 ≤ amount) :
    l.rejection? id amount = none := by
  rw [rejection?, h]
  exact if_neg (by omega)

theorem nonneg_of_rejection? (h : l.rejection? id amount = none) : 0 ≤ amount := by
  unfold rejection? at h
  split at h
  · cases h
  · split at h
    · cases h
    · omega

end Ledger

/-- The state of a character after some amounts: that of one grant of their sum, or the same as
before if there are none. -/
def Character.Credited (r : Registry) (c : Character) (amounts : List Int) (state : Progression) :
    Prop :=
  (amounts = [] → state = c.state) ∧
    (amounts ≠ [] → ∃ p result, r.find? c.profile = some p ∧
      c.state.grant (some p.curve) (some p.growth) (.int amounts.sum) = .ok result ∧
      state = result.state)

/-- One more amount is granted, and the state is then that of a grant of the new sum. -/
theorem Character.Credited.grant {r : Registry} {l : Ledger} {id : Word} {c : Character}
    {amounts : List Int} {state : Progression} {p : Profile} {amount : Int} (hready : l.IsReady r)
    (hc : l.find? id = some c) (h : c.Credited r amounts state)
    (hamounts : ∀ a ∈ amounts, 0 ≤ a) (hp : r.find? c.profile = some p) (hamount : 0 ≤ amount) :
    ∃ result, state.grant (some p.curve) (some p.growth) (.int amount) = .ok result ∧
      ∀ more : List Int, more ≠ [] → more.sum = amounts.sum + amount →
        c.Credited r more result.state := by
  obtain ⟨q, exp, need, maxLevel, hq, hcounts, hdefined⟩ := hready id c hc
  obtain rfl : p = q := Option.some.inj (hp.symm.trans hq)
  have hcredited (total : Int) (result : LevelUp) (htotal : total = amounts.sum + amount)
      (hresult : c.state.grant (some p.curve) (some p.growth) (.int total) = .ok result) :
      ∀ more : List Int, more ≠ [] → more.sum = amounts.sum + amount →
        c.Credited r more result.state := by
    intro more hne hsum
    refine ⟨fun hnil => absurd hnil hne, fun _ => ⟨p, result, hp, ?_, rfl⟩⟩
    rw [hsum, ← htotal]
    exact hresult
  by_cases hnil : amounts = []
  · obtain rfl := h.1 hnil
    obtain ⟨result, hresult⟩ := Progression.exists_grant (some p.curve) (some p.growth) c.state
      hcounts hamount fun level hlevel hlast =>
        hdefined level (by have := c.state.one_le_level; omega) hlast
    exact ⟨result, hresult, hcredited amount result (by simp [hnil]) hresult⟩
  · obtain ⟨q, first, hq, hfirst, rfl⟩ := h.2 hnil
    obtain rfl : p = q := Option.some.inj (hp.symm.trans hq)
    obtain ⟨first', second, exp', need', hfirst', -, hsecond, hboth⟩ :=
      Progression.grant_add (some p.curve) (some p.growth) c.state hcounts hdefined
        (List.sum_nonneg hamounts) hamount
    obtain rfl := Except.ok.inj (hfirst.symm.trans hfirst')
    exact ⟨second, hsecond,
      hcredited _ ⟨second.state, first.levelsGained + second.levelsGained⟩ rfl hboth⟩

namespace Stage

/-- Between acquiring the lock and releasing it. -/
def isInside : Stage → Bool
  | entered | loaded .. | computed .. | leaving _ => true
  | _ => false

/-- After writing the record. -/
def isCommitted : Stage → Bool
  | leaving (.ok _) | finished (.ok _) => true
  | _ => false

end Stage

namespace Task

/-- The answer to a grant: an error just if the ledger has a reason for one. -/
def Answered (l : Ledger) (t : Task) : Outcome LevelUp → Prop
  | .ok _ => l.rejection? t.id t.amount = none
  | .error failure => l.rejection? t.id t.amount = some failure

/-- What a grant knows at its stage is true of the session, and inside it holds the lock. -/
def Fits (r : Registry) (l : Ledger) (s : Session) (i : Nat) (t : Task) : Prop :=
  (t.stage.isInside = true → s.locks t.id = some (some i)) ∧
    match t.stage with
    | .waiting => l.find? t.id ≠ none
    | .loaded c p => s.ledger.find? t.id = some c ∧ r.find? c.profile = some p
    | .computed c result => s.ledger.find? t.id = some c ∧ ∃ p, r.find? c.profile = some p ∧
        c.state.grant (some p.curve) (some p.growth) (.int t.amount) = .ok result
    | .leaving outcome => t.Answered l outcome
    | .finished outcome => t.Answered l outcome
    | _ => True

/-- Nobody else touches the record of whoever holds its lock. -/
theorem Fits.frame {r : Registry} {l : Ledger} {s s' : Session} {i : Nat} {t : Task}
    (h : t.Fits r l s i)
    (hkeep : s.locks t.id = some (some i) →
      s'.locks t.id = some (some i) ∧ s'.ledger.find? t.id = s.ledger.find? t.id) :
    t.Fits r l s' i := by
  obtain ⟨hlock, hstage⟩ := h
  refine ⟨fun hinside => (hkeep (hlock hinside)).1, ?_⟩
  cases hcase : t.stage with
  | loaded c p =>
    rw [hcase] at hlock hstage
    have hrecord := (hkeep (hlock rfl)).2
    exact ⟨hrecord.trans hstage.1, hstage.2⟩
  | computed c result =>
    rw [hcase] at hlock hstage
    have hrecord := (hkeep (hlock rfl)).2
    exact ⟨hrecord.trans hstage.1, hstage.2⟩
  | started => trivial
  | entered => trivial
  | waiting =>
    rw [hcase] at hstage
    exact hstage
  | leaving outcome =>
    rw [hcase] at hstage
    exact hstage
  | finished outcome =>
    rw [hcase] at hstage
    exact hstage

end Task

namespace Session

variable {r : Registry} {l : Ledger} {s s' : Session} {i : Nat} {t : Task} {stage : Stage}

/-- The amounts that are written for a character. -/
def committed (s : Session) (id : Word) : List Int :=
  (s.tasks.filter fun t => t.id = id && t.stage.isCommitted).map (·.amount)

theorem getElem?_setStage (ht : s.tasks[i]? = some t) (j : Nat) :
    (s.setStage i t stage).tasks[j]? = if i = j then some { t with stage } else s.tasks[j]? := by
  have hlt : i < s.tasks.length := (List.getElem?_eq_some_iff.1 ht).1
  rw [setStage, List.getElem?_set, if_pos hlt]

/-- The tasks around one of them. -/
theorem exists_around (ht : s.tasks[i]? = some t) (stage : Stage) :
    ∃ before after, s.tasks = before ++ t :: after ∧
      (s.setStage i t stage).tasks = before ++ { t with stage } :: after := by
  obtain ⟨hlt, rfl⟩ := List.getElem?_eq_some_iff.1 ht
  obtain ⟨before, after, htasks, -, hset⟩ : ∃ before after,
      s.tasks = before ++ s.tasks[i] :: after ∧ before.length = i ∧
        s.tasks.set i { s.tasks[i] with stage } = before ++ { s.tasks[i] with stage } :: after :=
    List.exists_of_set hlt
  exact ⟨before, after, htasks, hset⟩

theorem committed_setStage (ht : s.tasks[i]? = some t)
    (hsame : stage.isCommitted = t.stage.isCommitted) (id : Word) :
    (s.setStage i t stage).committed id = s.committed id := by
  obtain ⟨before, after, htasks, hset⟩ := exists_around ht stage
  rw [committed, committed, hset, htasks]
  simp only [List.filter_append, List.filter_cons, List.map_append, hsame]
  split <;> rfl

/-- Writing the record of a character adds an amount to its own and to no other. -/
theorem committed_of_commit (ht : s.tasks[i]? = some t) (hold : t.stage.isCommitted = false)
    (hnew : stage.isCommitted = true) (id : Word) :
    if id = t.id then
      (s.setStage i t stage).committed id ≠ [] ∧
        ((s.setStage i t stage).committed id).sum = (s.committed id).sum + t.amount
    else (s.setStage i t stage).committed id = s.committed id := by
  obtain ⟨before, after, htasks, hset⟩ := exists_around ht stage
  rw [committed, committed, hset, htasks]
  simp only [List.filter_append, List.filter_cons, List.map_append, hold, hnew, Bool.and_true,
    Bool.and_false, Bool.false_eq_true, if_false, decide_eq_true_eq, List.sum_append]
  by_cases hid : t.id = id
  · rw [if_pos hid.symm, if_pos hid, List.map_cons, List.sum_cons]
    refine ⟨by simp, ?_⟩
    rw [add_left_comm, add_comm]
  · rw [if_neg (Ne.symm hid), if_neg hid]

/-- The session is in order: locks belong to the characters, who holds one is inside, every grant
fits the session, and every character has its place and is credited with what is written for it. -/
structure Orderly (r : Registry) (l : Ledger) (s : Session) : Prop where
  locks_eq_none : ∀ id, s.locks id = none ↔ l.find? id = none
  holder : ∀ id i, s.locks id = some (some i) →
    ∃ t : Task, s.tasks[i]? = some t ∧ t.id = id ∧ t.stage.isInside = true
  fits : ∀ (i : Nat) (t : Task), s.tasks[i]? = some t → t.Fits r l s i
  unknown : ∀ id, l.find? id = none → s.ledger.find? id = none
  account : ∀ id c, l.find? id = some c → ∃ c', s.ledger.find? id = some c' ∧
    c'.id = c.id ∧ c'.profile = c.profile ∧ c.Credited r (s.committed id) c'.state

theorem Orderly.committed_nonneg (h : Orderly r l s) (id : Word) :
    ∀ a ∈ s.committed id, 0 ≤ a := by
  intro a ha
  obtain ⟨t, ht, rfl⟩ := List.mem_map.1 ha
  obtain ⟨hmem, hcommitted⟩ := List.mem_filter.1 ht
  obtain ⟨-, hcommitted⟩ := Bool.and_eq_true_iff.1 hcommitted
  obtain ⟨i, hi⟩ := List.mem_iff_getElem?.1 hmem
  have hfits := (h.fits i t hi).2
  cases hstage : t.stage with
  | leaving outcome =>
    rw [hstage] at hfits hcommitted
    cases outcome with
    | ok result => exact Ledger.nonneg_of_rejection? hfits
    | error failure => cases hcommitted
  | finished outcome =>
    rw [hstage] at hfits hcommitted
    cases outcome with
    | ok result => exact Ledger.nonneg_of_rejection? hfits
    | error failure => cases hcommitted
  | started => simp [hstage, Stage.isCommitted] at hcommitted
  | waiting => simp [hstage, Stage.isCommitted] at hcommitted
  | entered => simp [hstage, Stage.isCommitted] at hcommitted
  | loaded c p => simp [hstage, Stage.isCommitted] at hcommitted
  | computed c result => simp [hstage, Stage.isCommitted] at hcommitted

/-- Whoever is inside is at work on a character of the ledger. -/
theorem Orderly.known (h : Orderly r l s) (ht : s.tasks[i]? = some t)
    (hinside : t.stage.isInside = true) : ∃ c, l.find? t.id = some c := by
  have hlock := (h.fits i t ht).1 hinside
  have hsome : l.find? t.id ≠ none := by
    rw [Ne, ← h.locks_eq_none, hlock]
    simp
  exact Option.ne_none_iff_exists'.1 hsome

/-- The record that a grant has read is there with its profile, and an amount that is not negative
is granted to it. -/
theorem Orderly.granted (h : Orderly r l s) (hready : l.IsReady r) {c : Character} {p : Profile}
    (ht : s.tasks[i]? = some t) (hinside : t.stage.isInside = true)
    (hc : s.ledger.find? t.id = some c) (hp : r.find? c.profile = some p) (hamount : 0 ≤ t.amount) :
    ∃ result, c.state.grant (some p.curve) (some p.growth) (.int t.amount) = .ok result ∧
      ∃ first, l.find? t.id = some first ∧ c.id = first.id ∧ c.profile = first.profile ∧
        ∀ more : List Int, more ≠ [] → more.sum = (s.committed t.id).sum + t.amount →
          first.Credited r more result.state := by
  obtain ⟨first, hfirst⟩ := h.known ht hinside
  obtain ⟨c', hc', hid, hprofile, hcredited⟩ := h.account t.id first hfirst
  obtain rfl : c' = c := Option.some.inj (hc'.symm.trans hc)
  obtain ⟨result, hresult, hmore⟩ :=
    hcredited.grant hready hfirst (h.committed_nonneg t.id) (hprofile ▸ hp) hamount
  exact ⟨result, hresult, first, hfirst, hid, hprofile, hmore⟩

/-- Whose lock it is that a grant holds. -/
theorem Orderly.eq_of_holder (h : Orderly r l s) (ht : s.tasks[i]? = some t) {id : Word}
    (hlock : s.locks id = some (some i)) : t.id = id ∧ t.stage.isInside = true := by
  obtain ⟨u, hu, hid, hinside⟩ := h.holder id i hlock
  obtain rfl : t = u := Option.some.inj (ht.symm.trans hu)
  exact ⟨hid, hinside⟩

/-- A step keeps the order if it leaves alone what the others hold, if what the grant knows after
it is true, and if the accounts still balance. -/
theorem Orderly.change (h : Orderly r l s) (ht : s.tasks[i]? = some t)
    (htasks : s'.tasks = s.tasks) (hnone : ∀ id, s'.locks id = none ↔ s.locks id = none)
    (hheld : ∀ id, s'.locks id = some (some i) → t.id = id ∧ stage.isInside = true)
    (hothers : ∀ id j, j ≠ i → (s'.locks id = some (some j) ↔ s.locks id = some (some j)))
    (hframe : ∀ id j, j ≠ i → s.locks id = some (some j) →
      s'.ledger.find? id = s.ledger.find? id)
    (hfits : Task.Fits r l s' i { t with stage })
    (hunknown : ∀ id, l.find? id = none → s'.ledger.find? id = s.ledger.find? id)
    (haccount : ∀ id c, l.find? id = some c → ∃ c', s'.ledger.find? id = some c' ∧
      c'.id = c.id ∧ c'.profile = c.profile ∧
        c.Credited r ((s.setStage i t stage).committed id) c'.state) :
    Orderly r l (s'.setStage i t stage) := by
  have ht' : s'.tasks[i]? = some t := htasks ▸ ht
  have hcommitted (id : Word) :
      (s'.setStage i t stage).committed id = (s.setStage i t stage).committed id := by
    rw [committed, committed, setStage, setStage, htasks]
  refine ⟨?_, ?_, ?_, ?_, ?_⟩
  · intro id
    exact (hnone id).trans (h.locks_eq_none id)
  · intro id j hj
    rw [getElem?_setStage ht']
    by_cases hij : i = j
    · subst hij
      exact ⟨_, if_pos rfl, hheld id hj⟩
    · rw [if_neg hij, htasks]
      exact h.holder id j ((hothers id j (Ne.symm hij)).1 hj)
  · intro j u hu
    rw [getElem?_setStage ht'] at hu
    split at hu
    · next hij =>
      subst hij
      exact Option.some.inj hu ▸ hfits
    · next hij =>
      rw [htasks] at hu
      refine (h.fits j u hu).frame ?_
      intro hlock
      exact ⟨(hothers u.id j (Ne.symm hij)).2 hlock, hframe u.id j (Ne.symm hij) hlock⟩
  · intro id hid
    exact (hunknown id hid).trans (h.unknown id hid)
  · intro id c hc
    rw [hcommitted]
    exact haccount id c hc

/-- A step that neither enters nor leaves nor writes. -/
theorem Orderly.setStage (h : Orderly r l s) (ht : s.tasks[i]? = some t)
    (hinside : stage.isInside = t.stage.isInside)
    (hcommitted : stage.isCommitted = t.stage.isCommitted)
    (hfits : Task.Fits r l s i { t with stage }) : Orderly r l (s.setStage i t stage) := by
  refine h.change ht rfl (fun _ => Iff.rfl) ?_ (fun _ _ _ => Iff.rfl) (fun _ _ _ _ => rfl) hfits
    (fun _ _ => rfl) ?_
  · intro id hlock
    obtain ⟨hid, hheld⟩ := h.eq_of_holder ht hlock
    exact ⟨hid, hinside.trans hheld⟩
  · intro id c hc
    rw [committed_setStage ht hcommitted]
    exact h.account id c hc

/-- A free lock is acquired. -/
theorem Orderly.acquire (h : Orderly r l s) (ht : s.tasks[i]? = some t)
    (hstage : t.stage = .waiting) (hlock : s.locks t.id = some none) :
    Orderly r l ((s.setLock t.id (some i)).setStage i t .entered) := by
  have hown : (s.setLock t.id (some i)).locks t.id = some (some i) := if_pos rfl
  have hother (id : Word) (hid : id ≠ t.id) : (s.setLock t.id (some i)).locks id = s.locks id :=
    if_neg hid
  have hout (id : Word) (hheld : s.locks id = some (some i)) : False := by
    have hinside := (h.eq_of_holder ht hheld).2
    rw [hstage] at hinside
    cases hinside
  refine h.change ht rfl ?_ ?_ ?_ (fun _ _ _ _ => rfl) ⟨fun _ => hown, trivial⟩ (fun _ _ => rfl) ?_
  · intro id
    by_cases hid : id = t.id
    · simp [hid, hown, hlock]
    · rw [hother id hid]
  · intro id hheld
    by_cases hid : id = t.id
    · exact ⟨hid.symm, rfl⟩
    · exact (hout id (hother id hid ▸ hheld)).elim
  · intro id j hj
    by_cases hid : id = t.id
    · simp [hid, hown, hlock, Ne.symm hj]
    · rw [hother id hid]
  · intro id c hc
    rw [committed_setStage ht (by rw [hstage]; rfl)]
    exact h.account id c hc

/-- The lock is released. -/
theorem Orderly.release (h : Orderly r l s) (ht : s.tasks[i]? = some t) {outcome : Outcome LevelUp}
    (hstage : t.stage = .leaving outcome) :
    Orderly r l ((s.setLock t.id none).setStage i t (.finished outcome)) := by
  obtain ⟨hlock, hanswered⟩ := h.fits i t ht
  rw [hstage] at hlock hanswered
  have hheld : s.locks t.id = some (some i) := hlock rfl
  have hfree : (s.setLock t.id none).locks t.id = some none := if_pos rfl
  have hother (id : Word) (hid : id ≠ t.id) : (s.setLock t.id none).locks id = s.locks id :=
    if_neg hid
  refine h.change ht rfl ?_ ?_ ?_ (fun _ _ _ _ => rfl) ⟨(nomatch ·), hanswered⟩
    (fun _ _ => rfl) ?_
  · intro id
    by_cases hid : id = t.id
    · simp [hid, hfree, hheld]
    · rw [hother id hid]
  · intro id hown
    by_cases hid : id = t.id
    · rw [hid, hfree] at hown
      cases hown
    · rw [hother id hid] at hown
      exact absurd (h.eq_of_holder ht hown).1.symm hid
  · intro id j hj
    by_cases hid : id = t.id
    · simp [hid, hfree, hheld, Ne.symm hj]
    · rw [hother id hid]
  · intro id c hc
    have hsame : (Stage.finished outcome).isCommitted = t.stage.isCommitted := by
      rw [hstage]
      cases outcome <;> rfl
    rw [committed_setStage ht hsame]
    exact h.account id c hc

/-- The record is written. -/
theorem Orderly.write (h : Orderly r l s) (hready : l.IsReady r) (ht : s.tasks[i]? = some t)
    {c : Character} {result : LevelUp} (hstage : t.stage = .computed c result) :
    Orderly r l
      ((s.store t.id { c with state := result.state }).setStage i t (.leaving (.ok result))) := by
  obtain ⟨hlock, hknows⟩ := h.fits i t ht
  rw [hstage] at hlock hknows
  obtain ⟨hc, p, hp, hgrant⟩ := hknows
  have hheld : s.locks t.id = some (some i) := hlock rfl
  have hinside : t.stage.isInside = true := by rw [hstage]; rfl
  have hamount : 0 ≤ t.amount := by
    by_contra hneg
    rw [Progression.grant_of_neg _ _ _ (by omega)] at hgrant
    cases hgrant
  obtain ⟨result', hresult', first, hfirst, hown, hprofile, hmore⟩ :=
    h.granted hready ht hinside hc hp hamount
  obtain rfl : result' = result := Except.ok.inj (hresult'.symm.trans hgrant)
  have hfind (id : Word) : (s.store t.id { c with state := result'.state }).ledger.find? id =
      if id = t.id then some { c with state := result'.state } else s.ledger.find? id :=
    Dictionary.find?_store s.ledger t.id id _
  refine h.change ht rfl (fun _ => Iff.rfl) ?_ (fun _ _ _ => Iff.rfl) ?_ ?_ ?_ ?_
  · intro id hown
    exact ⟨(h.eq_of_holder ht hown).1, rfl⟩
  · intro id j hj hown
    rw [hfind, if_neg]
    rintro rfl
    rw [hheld] at hown
    exact hj (Option.some.inj (Option.some.inj hown)).symm
  · exact ⟨fun _ => hheld, Ledger.rejection?_of_nonneg hfirst hamount⟩
  · intro id hid
    rw [hfind, if_neg]
    rintro rfl
    rw [hfirst] at hid
    cases hid
  · intro id other hother
    have hcommit := committed_of_commit ht (by rw [hstage]; rfl)
      (show (Stage.leaving (.ok result')).isCommitted = true from rfl) id
    rw [hfind]
    by_cases hid : id = t.id
    · subst hid
      rw [if_pos rfl] at hcommit
      obtain rfl : other = first := Option.some.inj (hother.symm.trans hfirst)
      rw [if_pos rfl]
      exact ⟨_, rfl, hown, hprofile, hmore _ hcommit.1 hcommit.2⟩
    · rw [if_neg hid] at hcommit
      rw [if_neg hid, hcommit]
      exact h.account id other hother

/-- Every move keeps the order. -/
theorem Orderly.move (h : Orderly r l s) (hready : l.IsReady r) (ht : s.tasks[i]? = some t)
    (hmove : Move r s i t s') : Orderly r l s' := by
  have hknows := (h.fits i t ht).2
  cases hmove with
  | unknown hstage hlock =>
    refine h.setStage ht (by rw [hstage]; rfl) (by rw [hstage]; rfl) ⟨(nomatch ·), ?_⟩
    exact Ledger.rejection?_of_unknown ((h.locks_eq_none t.id).1 hlock)
  | found holder hstage hlock =>
    refine h.setStage ht (by rw [hstage]; rfl) (by rw [hstage]; rfl) ⟨(nomatch ·), ?_⟩
    change l.find? t.id ≠ none
    rw [Ne, ← h.locks_eq_none, hlock]
    simp
  | acquired hstage hlock => exact h.acquire ht hstage hlock
  | absent failure hstage habsent =>
    -- the character is there, and so is its profile
    obtain ⟨first, hfirst⟩ := h.known ht (by rw [hstage]; rfl)
    obtain ⟨c, hc, -, hprofile, -⟩ := h.account t.id first hfirst
    obtain ⟨p, exp, need, maxLevel, hp, -⟩ := hready t.id first hfirst
    rcases habsent with hnone | ⟨c', hc', hnone⟩
    · rw [hc] at hnone
      cases hnone
    · obtain rfl : c = c' := Option.some.inj (hc.symm.trans hc')
      rw [hprofile, hp] at hnone
      cases hnone
  | loaded c p hstage hc hp =>
    have hlock := (h.fits i t ht).1 (by rw [hstage]; rfl)
    exact h.setStage ht (by rw [hstage]; rfl) (by rw [hstage]; rfl) ⟨fun _ => hlock, hc, hp⟩
  | refused c p failure hstage hgrant =>
    have hinside : t.stage.isInside = true := by rw [hstage]; rfl
    rw [hstage] at hknows
    obtain ⟨first, hfirst⟩ := h.known ht hinside
    have hneg : t.amount < 0 := by
      by_contra hamount
      obtain ⟨result, hresult, -⟩ := h.granted hready ht hinside hknows.1 hknows.2 (by omega)
      rw [hresult] at hgrant
      cases hgrant
    rw [Progression.grant_of_neg _ _ _ hneg] at hgrant
    obtain rfl := Except.error.inj hgrant
    exact h.setStage ht (by rw [hstage]; rfl) (by rw [hstage]; rfl)
      ⟨fun _ => (h.fits i t ht).1 hinside, Ledger.rejection?_of_neg hfirst hneg⟩
  | computed c p result hstage hgrant =>
    have hlock := (h.fits i t ht).1 (by rw [hstage]; rfl)
    rw [hstage] at hknows
    exact h.setStage ht (by rw [hstage]; rfl) (by rw [hstage]; rfl)
      ⟨fun _ => hlock, hknows.1, p, hknows.2, hgrant⟩
  | stored c result hstage => exact h.write hready ht hstage
  | released outcome hstage => exact h.release ht hstage

theorem Orderly.step (h : Orderly r l s) (hready : l.IsReady r) (i : Nat) :
    Orderly r l (s.step r i) := by
  rcases s.step_cases r i with ⟨hsame, -⟩ | ⟨t, ht, hmove⟩
  · rw [hsame]
    exact h
  · exact h.move hready ht hmove

theorem Orderly.run (h : Orderly r l s) (hready : l.IsReady r) (schedule : List Nat) :
    Orderly r l (s.run r schedule) := by
  induction schedule generalizing s with
  | nil => exact h
  | cons i rest ih => exact ih (h.step hready i)

/-- What is asked of the session: an amount for a name, in the order of the grants. -/
def requests (s : Session) : List (Word × Int) := s.tasks.map fun t => (t.id, t.amount)

/-- The amounts for a name that are not negative. -/
def credits (grants : List (Word × Int)) (id : Word) : List Int :=
  (grants.filter fun (name, amount) => name = id && 0 ≤ amount).map (·.2)

/-- With all grants finished, what is written for a character is what it was granted. -/
theorem Orderly.committed_eq (h : Orderly r l s) (hfinished : s.IsFinished) {id : Word}
    {c : Character} (hc : l.find? id = some c) : s.committed id = credits s.requests id := by
  have hsame : ∀ t ∈ s.tasks, (t.id = id && t.stage.isCommitted) = (t.id = id && 0 ≤ t.amount) := by
    intro t ht
    obtain ⟨i, hi⟩ := List.mem_iff_getElem?.1 ht
    obtain ⟨outcome, hstage⟩ := hfinished t ht
    have hanswered := (h.fits i t hi).2
    rw [hstage] at hanswered ⊢
    by_cases hid : t.id = id
    · subst hid
      cases outcome with
      | ok result =>
        have hamount := Ledger.nonneg_of_rejection? hanswered
        simp [Stage.isCommitted, hamount]
      | error failure =>
        have hneg : t.amount < 0 := by
          by_contra hamount
          have hnone := Ledger.rejection?_of_nonneg hc (show 0 ≤ t.amount by omega)
          cases hnone.symm.trans hanswered
        simp [Stage.isCommitted, hneg]
    · simp [hid]
  rw [committed, credits, requests, List.filter_map, List.map_map, List.filter_congr hsame]
  rfl

/-- What becomes of the grants on a ledger once all of them are finished. -/
structure Settled (r : Registry) (l : Ledger) (grants : List (Word × Int)) (s : Session) : Prop where
  unknown : ∀ id, l.find? id = none → s.ledger.find? id = none
  account : ∀ id c, l.find? id = some c → ∃ c', s.ledger.find? id = some c' ∧ c'.id = c.id ∧
    c'.profile = c.profile ∧ c.Credited r (credits grants id) c'.state
  answer : ∀ (i : Nat) (id : Word) (amount : Int), grants[i]? = some (id, amount) →
    ∃ outcome, s.tasks[i]? = some ⟨id, amount, .finished outcome⟩ ∧
      ∀ failure, outcome = .error failure ↔ l.rejection? id amount = some failure

theorem Orderly.settled (h : Orderly r l s) (hfinished : s.IsFinished) :
    Settled r l s.requests s where
  unknown := h.unknown
  account := by
    intro id c hc
    obtain ⟨c', hc', hid, hprofile, hcredited⟩ := h.account id c hc
    rw [h.committed_eq hfinished hc] at hcredited
    exact ⟨c', hc', hid, hprofile, hcredited⟩
  answer := by
    intro i id amount hrequest
    rw [requests, List.getElem?_map, Option.map_eq_some_iff] at hrequest
    obtain ⟨t, ht, hpair⟩ := hrequest
    obtain ⟨rfl, rfl⟩ := Prod.mk.inj hpair
    obtain ⟨outcome, hstage⟩ := hfinished t (List.mem_of_getElem? ht)
    have hanswered := (h.fits i t ht).2
    rw [hstage] at hanswered
    refine ⟨outcome, by rw [ht, ← hstage], ?_⟩
    intro failure
    cases outcome with
    | ok result =>
      have hnone : l.rejection? t.id t.amount = none := hanswered
      simp [hnone]
    | error failure' =>
      have hsome : l.rejection? t.id t.amount = some failure' := hanswered
      simp [hsome]

end Session

end ExperienceCurves
