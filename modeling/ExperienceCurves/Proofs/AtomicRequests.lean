import ExperienceCurves.Proofs.Refusals
import ExperienceCurves.Proofs.SentCommands
import ExperienceCurves.Proofs.ShownProfiles

/-!
Requests happen as a whole or not at all, with one exception. Every profile and every character that
requests lead to is stored under its own name and can be shown, and so whatever a request commits is
also answered. A request that is refused or sent to another path has changed nothing, a question
changes nothing, and an edit that is answered has published its profile under the next version. The
exception are characters with torn names: they are stored before it turns out that no answer can name
them.
-/
namespace ExperienceCurves.Service

open Requirement (greatest)

/-- The profile that a command publishes or edits. -/
def Command.edited? : Command → Option String
  | .publish name _ => some name
  | .append name _ => some name
  | .delete name _ => some name
  | .redistribute name _ => some name
  | .drag name _ => some name
  | .setRange name _ _ _ => some name
  | .setMode name _ => some name
  | .resetScale name => some name
  | _ => none

namespace State

/-- With the usual settings, all profiles and all characters are stored under their own names and
can be shown. -/
structure IsShowable (s : State) : Prop where
  settings : s.settings = .usual
  names : s.registry.IsKeyedBy Profile.name
  profile : ∀ name p, s.registry.find? name = some p → p.IsShowable
  ids : s.ledger.IsKeyedBy Character.id
  character : ∀ id c, s.ledger.find? id = some c → c.IsShowable

/-- The command appends to a profile whose active sequence is full. -/
def AtCap (s : State) : Command → Prop
  | .append name _ => ∃ p, s.registry.find? name = some p ∧ 10 ≤ p.curve.active.length
  | _ => False

/-- What can come of a command: it is refused, or shows what is there, or publishes a profile under
the next version, or stores a character. Only at the cap an edit just shows its profile, and only a
character with a torn name is stored without an answer. -/
inductive Transition (s : State) (command : Command) : State × Answer → Prop
  | refused {problem : Problem} (hrefusal : problem.IsRefusal) :
      Transition s command (s, .error problem)
  | shown {body : Datum} (hcommand : command.edited? = none ∨ s.AtCap command) :
      Transition s command (s, .ok body)
  | published {p : Profile} {name : String} {body : Datum} (hshow : p.IsShowable)
      (hcommand : command.edited? = some name) (hname : p.name = name)
      (hversion : p.version = s.registry.nextVersion p.name) (hcap : ¬ s.AtCap command) :
      Transition s command ({ s with registry := s.registry.store p.name p }, .ok body)
  | recorded {c : Character} {body : Datum} (hshow : c.IsShowable)
      (hcommand : command.edited? = none) :
      Transition s command ({ s with ledger := s.ledger.store c.id c }, .ok body)
  | torn {c : Character} {t : Torn} {message : String} (hshow : c.IsShowable)
      (hcommand : command.tornName? = some t) (hid : c.id = .torn t)
      (hfree : s.ledger.find? c.id = none) :
      Transition s command
        ({ s with ledger := s.ledger.store c.id c }, .error (.internal message))

variable {s : State} {command : Command}

theorem IsShowable.store_profile (hs : s.IsShowable) {p : Profile} (hshow : p.IsShowable) :
    IsShowable { s with registry := s.registry.store p.name p } := by
  refine ⟨hs.settings, hs.names.store p, ?_, hs.ids, hs.character⟩
  intro name found hfound
  rw [Dictionary.find?_store] at hfound
  split at hfound
  · exact Option.some.inj hfound ▸ hshow
  · exact hs.profile name found hfound

theorem IsShowable.store_character (hs : s.IsShowable) {c : Character} (hshow : c.IsShowable) :
    IsShowable { s with ledger := s.ledger.store c.id c } := by
  refine ⟨hs.settings, hs.names, hs.profile, hs.ids.store c, ?_⟩
  intro id found hfound
  rw [Dictionary.find?_store] at hfound
  split at hfound
  · exact Option.some.inj hfound ▸ hshow
  · exact hs.character id found hfound

namespace Transition

theorem isShowable {t : State × Answer} (hs : s.IsShowable) (h : Transition s command t) :
    t.1.IsShowable := by
  cases h with
  | refused => exact hs
  | shown => exact hs
  | published hshow => exact hs.store_profile hshow
  | recorded hshow => exact hs.store_character hshow
  | torn hshow => exact hs.store_character hshow

/-- A command that only asks shows something or is refused. -/
theorem of_refuses {answer : Answer} (hcommand : command.edited? = none) (h : Refuses answer) :
    Transition s command (s, answer) := by
  cases answer with
  | ok body => exact .shown (Or.inl hcommand)
  | error problem => exact .refused (h problem rfl)

end Transition

theorem answered_eq_ok_iff {α : Type} {x : Outcome α} {a : α} :
    answered x = .ok a ↔ x = .ok a := by
  cases x with
  | ok b => simp [answered]
  | error failure => simp [answered]

theorem IsShowable.exists_view (hs : s.IsShowable) {p : Profile} (hp : p.IsShowable) :
    ∃ body, View.profile s.settings p = .ok body := by
  have htolerance : s.settings.continuityEpsilon = .number Curve.usualTolerance := by
    rw [hs.settings]
    rfl
  exact View.exists_profile htolerance hp

/-- Whatever is committed is answered, since what is published can be shown. -/
theorem commit_transition {p : Profile} {name : String} {m : Int} (hs : s.IsShowable)
    (hcurve : p.curve.IsSendable) (hmax : p.maxLevel = .int m) (hm : m ≤ greatest)
    (hgrowth : p.growth = .usual) (hcommand : command.edited? = some name) (hname : p.name = name)
    (hcap : ¬ s.AtCap command) : Transition s command (s.commit (s.registry.publish p)) := by
  cases hcheck : p.curve.check p.maxLevel with
  | error failure =>
    rw [Registry.publish_of_refused hcheck]
    exact .refused (Problem.isRefusal_failed failure)
  | ok checked =>
    obtain ⟨hpublish, hshow⟩ := Registry.publish_isShowable (r := s.registry) ⟨name, hname⟩ hcurve
      hmax hm hgrowth hcheck
    obtain ⟨body, hbody⟩ := hs.exists_view hshow
    rw [hpublish, commit, hbody]
    exact .published hshow hcommand hname rfl hcap

/-- What an edit of a profile gives: a curve that can be sent, or nothing at the cap. -/
def Gives (s : State) (command : Command) : Option Curve → Prop
  | some c => c.IsSendable ∧ ¬ s.AtCap command
  | none => s.AtCap command

theorem edit_transition {name : String} {change : Profile → Except Problem (Option Curve)}
    (hs : s.IsShowable) (hcommand : command.edited? = some name) (hrefuses : ∀ p, Refuses (change p))
    (hgives : ∀ p edited, s.registry.find? name = some p → p.IsShowable →
      change p = .ok edited → s.Gives command edited) :
    Transition s command (s.edit name change) := by
  unfold edit profileNamed
  cases hfind : s.registry.find? name with
  | none => exact .refused (Problem.isRefusal_absent _ _ _)
  | some p =>
    dsimp only
    have hp := hs.profile name p hfind
    cases hedited : change p with
    | error problem => exact .refused (hrefuses p problem hedited)
    | ok edited =>
      have hgiven := hgives p edited hfind hp hedited
      cases edited with
      | none =>
        obtain ⟨body, hbody⟩ := hs.exists_view hp
        dsimp only
        rw [hbody]
        exact .shown (Or.inr hgiven)
      | some curve =>
        obtain ⟨m, hmax, hm, -⟩ := hp.maxLevel
        have hpublish : s.registry.publishCurve name curve = s.registry.publish { p with curve } := by
          unfold Registry.publishCurve
          rw [hfind]
        dsimp only
        rw [hpublish]
        exact commit_transition hs hgiven.1 hmax hm hp.growth hcommand (hs.names name p hfind) hgiven.2

/-- The profile of a publication: its name and curve are given, its maximum may be. -/
theorem published_spec {name : String} {form : Form.Publication} (hs : s.IsShowable)
    (hform : (Command.publish name form).IsSendable) :
    (s.published name form).name = name ∧ (s.published name form).curve.IsSendable ∧
      (∃ m, (s.published name form).maxLevel = .int m ∧ m ≤ greatest) ∧
      (s.published name form).growth = .usual := by
  obtain ⟨hcurve, hmax⟩ := hform
  have hgiven (fallback : Int) (hfallback : fallback ≤ greatest) :
      ∃ m, (form.maxLevel.map Datum.int).getD (.int fallback) = .int m ∧ m ≤ greatest := by
    cases hlevel : form.maxLevel with
    | none => exact ⟨fallback, rfl, hfallback⟩
    | some m => exact ⟨m, rfl, hmax m hlevel⟩
  unfold published
  cases hfind : s.registry.find? name with
  | none =>
    rw [hs.settings]
    exact ⟨rfl, hcurve, hgiven Progression.usualMaxLevel (by decide +kernel), rfl⟩
  | some current =>
    have hcurrent := hs.profile name current hfind
    obtain ⟨usual, husual, hbound, -⟩ := hcurrent.maxLevel
    dsimp only
    rw [husual]
    exact ⟨hs.names name current hfind, hcurve, hgiven usual hbound, hcurrent.growth⟩

theorem publish_transition {name : String} {form : Form.Publication} (hs : s.IsShowable)
    (hform : (Command.publish name form).IsSendable) :
    Transition s (.publish name form) (s.publish name form) := by
  obtain ⟨hname, hcurve, ⟨m, hmax, hm⟩, hgrowth⟩ := s.published_spec hs hform
  exact commit_transition hs hcurve hmax hm hgrowth rfl hname id

theorem append_transition {name : String} {segment : Option Segment} (hs : s.IsShowable)
    (hsegment : (Command.append name segment).IsSendable) :
    Transition s (.append name segment) (s.append name segment) := by
  refine edit_transition hs rfl (fun _ => .answered _) ?_
  intro p edited hfind hp hedited
  obtain ⟨m, hmax, -, -⟩ := hp.maxLevel
  rw [hs.settings, hmax] at hedited
  have hedited : p.curve.append? (.int m) segment Editing.usualExtension = .ok edited :=
    answered_eq_ok_iff.1 hedited
  cases edited with
  | none =>
    have hfull := (Datum.holds_atLeast_int _ 10).symm.trans (Curve.append?_eq_none hedited)
    have hcount := of_decide_eq_true (Except.ok.inj hfull)
    exact ⟨p, hfind, by omega⟩
  | some c =>
    have hroom := (Datum.holds_atLeast_int _ 10).symm.trans (Curve.append?_cases hedited).1
    have hcount := of_decide_eq_false (Except.ok.inj hroom)
    refine ⟨hp.curve.append? hsegment hedited, ?_⟩
    rintro ⟨q, hq, hfull⟩
    obtain rfl := Option.some.inj (hfind.symm.trans hq)
    omega

theorem delete_transition {name id : String} (hs : s.IsShowable) :
    Transition s (.delete name id) (s.delete name id) := by
  refine edit_transition hs rfl ?_ ?_
  · intro p
    split
    · exact .ok _
    · exact .error (Problem.isRefusal_notFound _)
  · intro p edited _ hp hedited
    split at hedited
    · next curve hcurve =>
      obtain rfl := Except.ok.inj hedited
      exact ⟨hp.curve.delete? hcurve, fun h => h⟩
    · cases hedited

theorem redistribute_transition {name : String} {maxLevel : Option Int} (hs : s.IsShowable) :
    Transition s (.redistribute name maxLevel) (s.redistribute name maxLevel) := by
  refine edit_transition hs rfl (fun _ => .answered _) ?_
  intro p edited _ hp hedited
  obtain ⟨usual, husual, -, -⟩ := hp.maxLevel
  have hbound : ∃ m, (maxLevel.map Datum.int).getD p.maxLevel = .int m := by
    cases maxLevel with
    | none => exact ⟨usual, husual⟩
    | some m => exact ⟨m, rfl⟩
  obtain ⟨m, hm⟩ := hbound
  rw [hm] at hedited
  obtain ⟨divided, hdivided, hedited⟩ := Outcome.bind_eq_ok_iff.1 (answered_eq_ok_iff.1 hedited)
  obtain rfl := Except.ok.inj hedited
  cases divided with
  | none => exact ⟨hp.curve, fun h => h⟩
  | some c => exact ⟨hp.curve.redistribute? hdivided, fun h => h⟩

theorem drag_transition {name : String} {form : Form.Drag} (hs : s.IsShowable) :
    Transition s (.drag name form) (s.drag name form) := by
  obtain ⟨id, endpoint, level, exp⟩ := form
  cases id with
  | text id =>
    refine edit_transition hs rfl (fun _ => .answered _) ?_
    intro p edited _ hp hedited
    obtain ⟨m, hmax, -, -⟩ := hp.maxLevel
    rw [hmax] at hedited
    obtain ⟨c, hc, rfl⟩ := Outcome.map_eq_ok_iff.1 (answered_eq_ok_iff.1 hedited)
    exact ⟨hp.curve.drag hc, fun h => h⟩
  | torn t =>
    refine edit_transition hs rfl (fun _ => .error (Problem.isRefusal_internal _)) ?_
    intro p edited _ _ hedited
    cases hedited

theorem setRange_transition {name id : String} {startLevel endLevel : Int} (hs : s.IsShowable) :
    Transition s (.setRange name id startLevel endLevel) (s.setRange name id startLevel endLevel) := by
  refine edit_transition hs rfl (fun _ => .answered _) ?_
  intro p edited _ hp hedited
  obtain ⟨m, hmax, -, -⟩ := hp.maxLevel
  rw [hmax] at hedited
  obtain ⟨c, hc, rfl⟩ := Outcome.map_eq_ok_iff.1 (answered_eq_ok_iff.1 hedited)
  exact ⟨hp.curve.setRange hc, fun h => h⟩

theorem setMode_transition {name : String} {useBezier : Bool} (hs : s.IsShowable) :
    Transition s (.setMode name useBezier) (s.setMode name useBezier) := by
  refine edit_transition hs rfl (fun _ => .ok _) ?_
  intro p edited _ hp hedited
  obtain rfl := Except.ok.inj hedited
  exact ⟨hp.curve.withMode useBezier, fun h => h⟩

theorem resetScale_transition {name : String} (hs : s.IsShowable) :
    Transition s (.resetScale name) (s.resetScale name) := by
  refine edit_transition hs rfl (fun _ => .answered _) ?_
  intro p edited _ hp hedited
  obtain ⟨c, hc, rfl⟩ := Outcome.map_eq_ok_iff.1 (answered_eq_ok_iff.1 hedited)
  exact ⟨hp.curve.resetScale hc, fun h => h⟩

theorem isRefusal_notCreated (profile : Word) (failure : Failure) :
    (notCreated profile failure).IsRefusal := by
  cases failure with
  | missing _ => exact Problem.isRefusal_about (Nat.le_refl 400) _ _ _
  | _ => exact Problem.isRefusal_failed _

/-- A name that is wanted and not taken is free. -/
theorem find?_of_not_isTaken {wanted : Option Word} {id : Word} {freshId : String}
    (hfree : wanted.filter s.isTaken = none) (hid : Ledger.chosenId wanted freshId = id)
    (hother : id ≠ freshId) : s.ledger.find? id = none := by
  unfold Ledger.chosenId at hid
  split at hid
  · next wish =>
    split at hid
    · exact absurd hid.symm hother
    · next hnonempty =>
      subst hid
      have hnot := Option.filter_eq_none_iff.1 hfree wish rfl
      simpa [isTaken, hnonempty] using hnot
  · exact absurd hid.symm hother

theorem tornName?_of_chosenId {form : Form.Creation} {freshId : String} {t : Torn}
    (h : Ledger.chosenId form.characterId freshId = .torn t) :
    (Command.create form).tornName? = some t := by
  obtain ⟨profile, wanted⟩ := form
  unfold Ledger.chosenId at h
  split at h
  · split at h
    · cases h
    · next heq _ =>
      subst heq h
      rfl
  · cases h

theorem create_transition {freshId : String} {form : Form.Creation} (hs : s.IsShowable) :
    Transition s (.create form) (s.create freshId form) := by
  unfold create
  cases htaken : form.characterId.filter s.isTaken with
  | some id => exact .refused (Problem.isRefusal_about (by decide) _ id _)
  | none =>
    dsimp only
    rcases Ledger.create_cases s.ledger s.registry form.profile form.characterId freshId with
      ⟨failure, hcreate⟩ | ⟨c, hnew, hid, hcreate⟩
    · rw [hcreate]
      exact .refused (isRefusal_notCreated form.profile failure)
    · have hshow := Ledger.isShowable_newCharacter hs.profile hnew
      rw [hcreate]
      dsimp only
      cases hword : c.id with
      | text id =>
        obtain ⟨body, hbody⟩ := View.exists_character hshow hword
        rw [hbody, ← hword]
        exact .recorded hshow rfl
      | torn t =>
        obtain ⟨message, hview⟩ := View.exists_character_torn hshow hword
        have hchosen := hid.symm.trans hword
        have hfree : s.ledger.find? c.id = none := by
          rw [hword]
          exact find?_of_not_isTaken htaken hchosen nofun
        rw [hview, ← hword]
        exact .torn hshow (tornName?_of_chosenId hchosen) hword hfree

theorem grant_transition {id : String} {amount : Binary64} (hs : s.IsShowable) :
    Transition s (.grant id amount) (s.grant id amount) := by
  unfold grant
  cases hcharacter : s.characterNamed id with
  | error problem => exact .refused (s.refuses_characterNamed id problem hcharacter)
  | ok _ =>
    dsimp only
    rcases Ledger.grant_cases s.ledger s.registry id (.real amount) with
      ⟨failure, -, hgrant⟩ | ⟨c, result, hc, hcredit, hgrant⟩
    · rw [hgrant]
      cases failure with
      | missing _ => exact .refused (Problem.isRefusal_notFound _)
      | _ => exact .refused (Problem.isRefusal_failed _)
    · have hc' := hs.character id c hc
      have hshow := Ledger.isShowable_credit hs.profile hc' hcredit
      obtain ⟨body, hbody⟩ := View.exists_levelUp id hshow
      rw [hgrant, Ledger.announce_text]
      dsimp only
      rw [hbody, ← hs.ids id c hc]
      exact Transition.recorded (c := { c with state := result.state }) ⟨hc'.profile, hshow⟩ rfl

/-- One case for each command: a question about what can be shown, or a change of it. -/
theorem perform_transition (freshId : String) (hs : s.IsShowable) (hcommand : command.IsSendable) :
    Transition s command (s.perform freshId command) := by
  cases command with
  | overview => exact .of_refuses rfl (.ok _)
  | health => exact .of_refuses rfl (.ok _)
  | profiles => exact .of_refuses rfl (View.refuses_profiles s.registry)
  | profile name =>
    exact .of_refuses rfl ((s.refuses_profileNamed name).bind fun p _ =>
      View.refuses_profile s.settings p)
  | requirement name level => exact .of_refuses rfl (s.refuses_requirement name level)
  | table name first last => exact .of_refuses rfl (s.refuses_table name first last)
  | continuity name =>
    exact .of_refuses rfl ((s.refuses_profileNamed name).bind fun p _ =>
      View.refuses_continuity s.settings p.curve)
  | evaluate form => exact .of_refuses rfl (View.refuses_evaluation form)
  | validate formula => exact .of_refuses rfl (View.refuses_validation formula)
  | character id =>
    exact .of_refuses rfl ((s.refuses_characterNamed id).bind fun c _ => View.refuses_character c)
  | stats id => exact .of_refuses rfl (s.refuses_stats id)
  | publish name form => exact publish_transition hs hcommand
  | append name segment => exact append_transition hs hcommand
  | delete name id => exact delete_transition hs
  | redistribute name maxLevel => exact redistribute_transition hs
  | drag name form => exact drag_transition hs
  | setRange name id startLevel endLevel => exact setRange_transition hs
  | setMode name useBezier => exact setMode_transition hs
  | resetScale name => exact resetScale_transition hs
  | create form => exact create_transition hs
  | grant id amount => exact grant_transition hs

/-- The state that requests lead to from the seeded one. With each comes a name for the character
that it may create without one. -/
def afterAll (requests : List (String × Request)) : State :=
  requests.foldl (fun s request => (s.handle request.1 request.2).1) (seeded .usual)

theorem handle_of_command {r : Request} (freshId : String) (h : Command.ofRequest r = .ok command) :
    s.handle freshId r =
      ((s.perform freshId command).1, Response.ofAnswer (s.perform freshId command).2) := by
  unfold handle
  rw [h]

theorem handle_of_ok {r : Request} {t : State} {body : Datum} (freshId : String)
    (h : Command.ofRequest r = .ok command) (hperform : s.perform freshId command = (t, .ok body)) :
    s.handle freshId r = (t, ⟨200, body⟩) := by
  rw [handle_of_command freshId h, hperform]
  rfl

theorem handle_of_problem {r : Request} {problem : Problem} (freshId : String)
    (h : Command.ofRequest r = .error problem) : s.handle freshId r = (s, problem.response) := by
  unfold handle
  rw [h]

theorem IsShowable.handle {r : Request} (freshId : String) (hs : s.IsShowable) :
    (s.handle freshId r).1.IsShowable := by
  cases hcommand : Command.ofRequest r with
  | error problem =>
    rw [handle_of_problem freshId hcommand]
    exact hs
  | ok command =>
    rw [handle_of_command freshId hcommand]
    exact (perform_transition freshId hs (Command.isSendable_of_ofRequest hcommand)).isShowable hs

theorem isShowable_seeded : (seeded .usual).IsShowable := by
  refine ⟨rfl, Registry.isKeyedBy_seeded, ?_, .empty _, ?_⟩
  · intro name p hp
    obtain ⟨preset, hpreset, rfl, -⟩ := Registry.preset_of_find?_seeded hp
    exact Profile.isShowable_ofPreset hpreset
  · intro id c hc
    cases hc

theorem isShowable_afterAll (requests : List (String × Request)) : (afterAll requests).IsShowable := by
  unfold afterAll
  generalize hstart : seeded .usual = start
  have hshow : start.IsShowable := hstart ▸ isShowable_seeded
  clear hstart
  induction requests generalizing start with
  | nil => exact hshow
  | cons request rest ih => exact ih _ (hshow.handle request.1)

/-- What the seeded state has and every request keeps holds after all requests. -/
theorem afterAll_induction {P : State → Prop} (hseeded : P (seeded .usual))
    (hhandle : ∀ s freshId r, s.IsShowable → P s → P (s.handle freshId r).1)
    (requests : List (String × Request)) : P (afterAll requests) := by
  have hboth : (afterAll requests).IsShowable ∧ P (afterAll requests) := by
    refine List.foldlRecOn (motive := fun s => s.IsShowable ∧ P s) requests _
      ⟨isShowable_seeded, hseeded⟩ ?_
    rintro s ⟨hs, hkept⟩ request -
    exact ⟨hs.handle request.1, hhandle s request.1 request.2 hs hkept⟩
  exact hboth.2

theorem perform_of_get {r : Request} (freshId : String) (h : Command.ofRequest r = .ok command)
    (hmethod : r.method = .get) : (s.perform freshId command).1 = s := by
  obtain ⟨resource, -, h⟩ := Command.resource_of_ofRequest h
  rw [hmethod] at h
  cases resource
  all_goals first
    | (obtain rfl := Except.ok.inj h; rfl)
    | (obtain ⟨_, _, rfl⟩ := Outcome.map_eq_ok_iff.1 h; rfl)
    | (obtain ⟨_, _, hmake, _, rfl⟩ := Checked.seq_eq_valid_iff.1 (Command.settled_eq_ok_iff.1 h)
       obtain ⟨_, _, rfl⟩ := Checked.map_eq_valid_iff.1 hmake
       rfl)
    | cases h

theorem handle_of_get {r : Request} (freshId : String) (hmethod : r.method = .get) :
    (s.handle freshId r).1 = s := by
  cases hcommand : Command.ofRequest r with
  | error problem => rw [handle_of_problem freshId hcommand]
  | ok command =>
    rw [handle_of_command freshId hcommand]
    exact perform_of_get freshId hcommand hmethod

/-- The request creates a character under a torn name of its body, which is free. The character is
stored, and the response only says that something went wrong. -/
def StoresTorn (s : State) (r : Request) (result : State × Response) : Prop :=
  result.2.status = 500 ∧ ∃ v command t c, r.body = .value v ∧ t ∈ v.tornWords ∧
    Command.ofRequest r = .ok command ∧ command.tornName? = some t ∧ c.id = .torn t ∧
    s.ledger.find? c.id = none ∧ result.1 = { s with ledger := s.ledger.store c.id c }

/-- A request is answered, or it is sent elsewhere or refused and changes nothing, or it stores a
character with a torn name. -/
theorem IsShowable.handle_cases {r : Request} (freshId : String) (hs : s.IsShowable) :
    (s.handle freshId r).2.status = 200 ∨
      ((s.handle freshId r).2.status = 307 ∨ 400 ≤ (s.handle freshId r).2.status) ∧
        (s.handle freshId r).1 = s ∨
      s.StoresTorn r (s.handle freshId r) := by
  cases hcommand : Command.ofRequest r with
  | error problem =>
    rw [handle_of_problem freshId hcommand]
    refine Or.inr (Or.inl ⟨?_, rfl⟩)
    exact (Command.redirected_or_isRefusal hcommand).imp_left fun hpath => by rw [hpath]; rfl
  | ok command =>
    rw [handle_of_command freshId hcommand]
    have h := perform_transition freshId hs (Command.isSendable_of_ofRequest hcommand)
    generalize s.perform freshId command = result at h
    cases h with
    | refused hrefusal => exact Or.inr (Or.inl ⟨Or.inr hrefusal, rfl⟩)
    | shown => exact Or.inl rfl
    | published => exact Or.inl rfl
    | recorded => exact Or.inl rfl
    | torn hshow hname hid hfree =>
      obtain ⟨v, hbody, htorn⟩ := Command.torn_of_ofRequest hcommand hname
      exact Or.inr (Or.inr ⟨rfl, v, command, _, _, hbody, htorn, hcommand, hname, hid, hfree, rfl⟩)

/-- An edit that is answered has published the profile under its next version, or shown it as it is
at the cap. -/
theorem IsShowable.handle_edit {r : Request} {name : String} (freshId : String) (hs : s.IsShowable)
    (hcommand : Command.ofRequest r = .ok command) (hname : command.edited? = some name)
    (hstatus : (s.handle freshId r).2.status = 200) :
    s.AtCap command ∧ (s.handle freshId r).1 = s ∨
      ¬ s.AtCap command ∧ ∃ stored : Profile, stored.name = name ∧
        stored.version = s.registry.nextVersion name ∧
        (s.handle freshId r).1 = { s with registry := s.registry.store name stored } := by
  rw [handle_of_command freshId hcommand] at hstatus ⊢
  have h := perform_transition freshId hs (Command.isSendable_of_ofRequest hcommand)
  generalize s.perform freshId command = result at h hstatus
  cases h with
  | refused hrefusal =>
    exfalso
    change _ = 200 at hstatus
    have hlow : 400 ≤ 200 := hstatus ▸ hrefusal
    omega
  | shown hshown =>
    rcases hshown with hnone | hcap
    · cases hnone.symm.trans hname
    · exact Or.inl ⟨hcap, rfl⟩
  | published _ hedited hstored hversion hcap =>
    obtain rfl := Option.some.inj (hedited.symm.trans hname)
    rw [hstored] at hversion ⊢
    exact Or.inr ⟨hcap, _, hstored, hversion, rfl⟩
  | recorded _ hnone => cases hnone.symm.trans hname
  | torn => cases hstatus

/-- A publication that goes through is answered. -/
theorem publish_of_ok {name : String} {form : Form.Publication} {registry : Registry}
    {stored : Profile} (hs : s.IsShowable) (hform : (Command.publish name form).IsSendable)
    (h : s.registry.publish (s.published name form) = (registry, .ok stored)) :
    ∃ body, s.publish name form = ({ s with registry }, .ok body) := by
  obtain ⟨hname, hcurve, ⟨m, hmax, hm⟩, hgrowth⟩ := s.published_spec hs hform
  cases hcheck : (s.published name form).curve.check (s.published name form).maxLevel with
  | error failure => cases h.symm.trans (Registry.publish_of_refused hcheck)
  | ok checked =>
    obtain ⟨hpublish, hshow⟩ := Registry.publish_isShowable (r := s.registry) ⟨name, hname⟩ hcurve
      hmax hm hgrowth hcheck
    obtain ⟨rfl, hstored⟩ := Prod.mk.inj (h.symm.trans hpublish)
    obtain rfl := Except.ok.inj hstored
    obtain ⟨body, hbody⟩ := hs.exists_view hshow
    exact ⟨body, by rw [publish, hpublish, commit, hbody]⟩

/-- A grant that goes through is answered. -/
theorem grant_of_ok {id : String} {amount : Binary64} {ledger : Ledger}
    {result : Progression.LevelUp} (hs : s.IsShowable)
    (h : s.ledger.grant s.registry id (.real amount) = (ledger, .ok result)) :
    ∃ body, s.grant id amount = ({ s with ledger }, .ok body) := by
  rcases Ledger.grant_cases s.ledger s.registry id (.real amount) with
    ⟨failure, -, hrefused⟩ | ⟨c, result', hc, hcredit, hgrant⟩
  · cases h.symm.trans hrefused
  · rw [Ledger.announce_text] at hgrant
    obtain ⟨rfl, hsame⟩ := Prod.mk.inj (h.symm.trans hgrant)
    obtain rfl := Except.ok.inj hsame
    have hshow := Ledger.isShowable_credit hs.profile (hs.character id c hc) hcredit
    obtain ⟨body, hbody⟩ := View.exists_levelUp id hshow
    refine ⟨body, ?_⟩
    unfold grant characterNamed
    rw [hc, hgrant]
    exact congrArg (Prod.mk _) hbody

/-- Whatever requests have been made, one more is answered, or sent to another path, or has a status
of 400 or more. Unless it is answered it leaves profiles and characters as they are, or it creates a
character under a torn name of its body that is free. A question changes nothing. An edit that is
answered has published its profile under the next version, or it was an append at the cap. What is
committed by a publication or a grant is always answered. -/
theorem handle_atomic (requests : List (String × Request)) (freshId : String) (r : Request) :
    let before := afterAll requests
    let after := (before.handle freshId r).1
    let status := (before.handle freshId r).2.status
    (status = 200 ∨ status = 307 ∨ 400 ≤ status) ∧
    (status ≠ 200 → after = before ∨ before.StoresTorn r (before.handle freshId r)) ∧
    (r.method = .get → after = before) ∧
    (∀ command name, Command.ofRequest r = .ok command → command.edited? = some name →
      status = 200 →
        before.AtCap command ∧ after = before ∨
        ¬ before.AtCap command ∧ ∃ stored : Profile, stored.name = name ∧
          stored.version = before.registry.nextVersion name ∧
          after = { before with registry := before.registry.store name stored }) ∧
    (∀ name form registry stored, Command.ofRequest r = .ok (.publish name form) →
      before.registry.publish (before.published name form) = (registry, .ok stored) →
        status = 200 ∧ after = { before with registry }) ∧
    (∀ id amount ledger result, Command.ofRequest r = .ok (.grant id amount) →
      before.ledger.grant before.registry id (.real amount) = (ledger, .ok result) →
        status = 200 ∧ after = { before with ledger }) := by
  intro before after status
  have hbefore : before.IsShowable := isShowable_afterAll requests
  refine ⟨?_, ?_, handle_of_get freshId, ?_, ?_, ?_⟩
  · rcases hbefore.handle_cases (r := r) freshId with hanswered | ⟨hother, -⟩ | ⟨hfailed, -⟩
    · exact Or.inl hanswered
    · exact Or.inr hother
    · exact Or.inr (Or.inr (by omega))
  · intro hother
    rcases hbefore.handle_cases (r := r) freshId with hanswered | ⟨-, hsame⟩ | htorn
    · exact absurd hanswered hother
    · exact Or.inl hsame
    · exact Or.inr htorn
  · intro command name hcommand hname hstatus
    exact hbefore.handle_edit freshId hcommand hname hstatus
  · intro name form registry stored hcommand hcommitted
    obtain ⟨body, hpublish⟩ :=
      publish_of_ok hbefore (Command.isSendable_of_ofRequest hcommand) hcommitted
    have hhandle := handle_of_ok freshId hcommand hpublish
    exact ⟨congrArg (fun result => result.2.status) hhandle, congrArg Prod.fst hhandle⟩
  · intro id amount ledger result hcommand hcommitted
    obtain ⟨body, hgrant⟩ := grant_of_ok hbefore hcommitted
    have hhandle := handle_of_ok freshId hcommand hgrant
    exact ⟨congrArg (fun result => result.2.status) hhandle, congrArg Prod.fst hhandle⟩

/-- Switching the mode of a built-in profile publishes its second version. -/
theorem handle_atomic_mode :
    let r : Request :=
      ⟨.post, "/curves/player/mode", "", .data (.record [("useBezier", .truth true)])⟩
    ∃ stored : Profile, stored.name = "player" ∧ stored.version = 2 ∧
      ((afterAll []).handle "fresh" r).1 =
        { afterAll [] with registry := (afterAll []).registry.store "player" stored } := by
  intro r
  have hpath : Resource.ofPath r.path = some (.mode "player") := by decide +kernel
  have hcommand : Command.ofRequest r = .ok (.setMode "player" true) := by
    unfold Command.ofRequest
    rw [hpath]
    rfl
  have hstatus : ((afterAll []).handle "fresh" r).2.status = 200 := by decide +kernel
  rcases (handle_atomic [] "fresh" r).2.2.2.1 _ "player" hcommand rfl hstatus with
    ⟨hcap, -⟩ | ⟨-, stored, hname, hversion, hafter⟩
  · exact hcap.elim
  · have hnext : (afterAll []).registry.nextVersion "player" = 2 := by decide +kernel
    exact ⟨stored, hname, hversion.trans hnext, hafter⟩

/-- A creation under half of a surrogate pair fails, and the character is there all the same. -/
theorem torn_creation_stored :
    let r : Request := ⟨.post, "/characters", "", .ofText "\x7b\"characterId\": \"\\ud800\"\x7d"⟩
    ((afterAll []).handle "fresh" r).2.status = 500 ∧
      ((afterAll []).handle "fresh" r).1.ledger.values.map (·.id) = [Word.ofPoints [0xD800]] ∧
      (afterAll []).ledger.values.map (·.id) = [] := by
  decide +kernel

end State

end ExperienceCurves.Service
