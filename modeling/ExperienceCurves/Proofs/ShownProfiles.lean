import ExperienceCurves.Proofs.Coverage
import ExperienceCurves.Proofs.EditRuns
import ExperienceCurves.Proofs.SentEdits
import ExperienceCurves.Proofs.ShownCharacters
import ExperienceCurves.Ledger

/-!
Profiles that can be shown. Their curve can be sent, and its active segments lie within a maximum
level in the range. Breaks and overlaps of such a curve are numbers that have a form, so the view of
the profile exists. What the registry publishes of a curve that can be sent is such a profile.
-/
namespace ExperienceCurves

open Requirement (greatest)

/-- The name is a text, the curve can be sent, and its active segments keep to a whole maximum in
the range. -/
structure Profile.IsShowable (p : Profile) : Prop where
  name : ∃ name : String, p.name = name
  curve : p.curve.IsSendable
  maxLevel : ∃ m : Int, p.maxLevel = .int m ∧ m ≤ greatest ∧
    ∀ s ∈ p.curve.active, (Spanned.span s).Within m
  growth : p.growth = .usual

/-- Whoever starts on a profile that can be shown can be shown. -/
theorem Profile.IsShowable.new {p : Profile} {state : Progression} (hp : p.IsShowable)
    (h : Progression.new (some p.curve) p.maxLevel (some p.growth) = .ok state) :
    state.IsShowable := by
  obtain ⟨m, hmax, hm, -⟩ := hp.maxLevel
  rw [hmax, hp.growth] at h
  exact Progression.isShowable_new hm h

theorem Curve.IsSendable.active {c : Curve} (h : c.IsSendable) : ∀ s ∈ c.active, s.IsSendable := by
  intro s hs
  cases hmode : c.useBezier with
  | false =>
    rw [Curve.active_eq_formula hmode] at hs
    obtain ⟨segment, hsegment, rfl⟩ := List.mem_map.1 hs
    exact h.formula segment hsegment
  | true =>
    rw [Curve.active_eq_bezier hmode] at hs
    obtain ⟨segment, hsegment, rfl⟩ := List.mem_map.1 hs
    exact h.bezier segment hsegment

/-- What is expected and what is there both have binary numbers. -/
def ContinuityIssue.IsShowable (i : ContinuityIssue) : Prop :=
  (∃ x, i.expected.toBinary64 = .ok x) ∧ ∃ x, i.actual.toBinary64 = .ok x

theorem Number.exists_sub {m n : Number} {x y : Binary64} (hm : m.toBinary64 = .ok x)
    (hn : n.toBinary64 = .ok y) : ∃ d, m.sub n = .ok d := by
  unfold Number.sub Number.combine
  split
  · exact ⟨_, rfl⟩
  · have hplain (k : Number) : k.plain.toBinary64 = k.toBinary64 := by
      cases k <;> rfl
    rw [hplain, hplain, hm, hn]
    exact ⟨_, rfl⟩

namespace Curve

variable {m : Int} {a b : Segment}

theorem exists_level {s : Span} (h : s.Within m) (hm : m ≤ greatest) :
    (∃ x, s.startLevel.toBinary64 = .ok x) ∧ ∃ x, s.endLevel.toBinary64 = .ok x := by
  obtain ⟨first, last, hstart, hend, hone, hlt, hlast⟩ := h
  rw [hstart, hend]
  exact ⟨⟨_, Progression.toBinary64_need (by omega) (by omega)⟩,
    ⟨_, Progression.toBinary64_need (by omega) (by omega)⟩⟩

theorem isShowable_of_levelIssues (ha : (Spanned.span a).Within m) (hb : (Spanned.span b).Within m)
    (hm : m ≤ greatest) : ∀ i ∈ levelIssues (Spanned.span a) (Spanned.span b), i.IsShowable := by
  have hshow (kind : Break) : ContinuityIssue.IsShowable ⟨kind, (Spanned.span a).id,
      (Spanned.span b).id, (Spanned.span a).endLevel, (Spanned.span b).startLevel⟩ :=
    ⟨(exists_level ha hm).2, (exists_level hb hm).1⟩
  intro i hi
  unfold levelIssues at hi
  dsimp only at hi
  split at hi
  · obtain rfl := List.mem_singleton.1 hi
    exact hshow _
  · split at hi
    · obtain rfl := List.mem_singleton.1 hi
      exact hshow _
    · cases hi

theorem exists_expIssues (tolerance : Number) (ha : a.IsSendable) (hb : b.IsSendable) :
    ∃ issues, expIssues (.number tolerance) a b = .ok issues ∧ ∀ i ∈ issues, i.IsShowable := by
  cases a with
  | formula previous => exact ⟨[], rfl, fun i hi => nomatch hi⟩
  | bezier previous =>
    cases b with
    | formula next => exact ⟨[], rfl, fun i hi => nomatch hi⟩
    | bezier next =>
      obtain ⟨x, hx, -⟩ := ha.endExp
      obtain ⟨y, hy, -⟩ := hb.startExp
      obtain ⟨difference, hdifference⟩ := Number.exists_sub hx hy
      have hunfold : expIssues (.number tolerance) (.bezier previous) (.bezier next) =
          Outcome.ofFault (previous.endExp.sub next.startExp) >>= fun difference =>
            if tolerance.lt difference.abs then
              Except.ok [⟨.expJump, previous.id, next.id, previous.endExp, next.startExp⟩]
            else Except.ok [] := rfl
      rw [hunfold, hdifference]
      by_cases hjump : tolerance.lt difference.abs = true
      · refine ⟨_, if_pos hjump, ?_⟩
        intro i hi
        obtain rfl := List.mem_singleton.1 hi
        exact ⟨⟨x, hx⟩, ⟨y, hy⟩⟩
      · exact ⟨[], if_neg hjump, fun i hi => nomatch hi⟩

/-- The breaks of a sequence, by induction along its neighbours. -/
theorem exists_issuesAlong (tolerance : Number) {segments : List Segment} (hm : m ≤ greatest)
    (hsend : ∀ s ∈ segments, s.IsSendable) (hwithin : ∀ s ∈ segments, (Spanned.span s).Within m) :
    ∃ issues, issuesAlong (.number tolerance) segments = .ok issues ∧
      ∀ i ∈ issues, i.IsShowable := by
  induction segments with
  | nil => exact ⟨[], rfl, fun i hi => nomatch hi⟩
  | cons previous rest ih =>
    cases rest with
    | nil => exact ⟨[], rfl, fun i hi => nomatch hi⟩
    | cons next rest =>
      have hnext : next ∈ previous :: next :: rest := List.mem_cons_of_mem _ List.mem_cons_self
      obtain ⟨jumps, hjumps, hjumpsShow⟩ := exists_expIssues tolerance
        (hsend previous List.mem_cons_self) (hsend next hnext)
      obtain ⟨others, hothers, hothersShow⟩ := ih
        (fun s hs => hsend s (List.mem_cons_of_mem _ hs))
        (fun s hs => hwithin s (List.mem_cons_of_mem _ hs))
      have hlevels := isShowable_of_levelIssues (hwithin previous List.mem_cons_self)
        (hwithin next hnext) hm
      refine ⟨levelIssues (Spanned.span previous) (Spanned.span next) ++ jumps ++ others, ?_, ?_⟩
      · unfold issuesAlong
        rw [hjumps, hothers]
        rfl
      · intro i hi
        rcases List.mem_append.1 hi with hi | hi
        · rcases List.mem_append.1 hi with hi | hi
          · exact hlevels i hi
          · exact hjumpsShow i hi
        · exact hothersShow i hi

theorem exists_overlaps {c : Curve} (hwithin : ∀ s ∈ c.active, (Spanned.span s).Within m) :
    ∃ pairs, c.overlaps = .ok pairs :=
  ⟨_, overlapsAlong_eq (List.forall_mem_map.2 fun s hs => (hwithin s hs).isWhole)⟩

/-- What passes the check is what keeps to the maximum, by induction along the active sequence. -/
theorem check_eq_ok_iff {c : Curve} (hc : c.IsSendable) :
    c.check (.int m) = .ok () ↔ ∀ s ∈ c.active, (Spanned.span s).Within m := by
  have hwhole : ∀ s ∈ c.active, (Spanned.span s).IsWhole := fun s hs => (hc.active s hs).isWhole
  unfold check
  generalize c.active = segments at hwhole
  induction segments with
  | nil =>
    constructor
    · exact fun _ s hs => nomatch hs
    · exact fun _ => rfl
  | cons s rest ih =>
    have hfirst : (Spanned.span s).check (.int m) = .ok () ↔ (Spanned.span s).Within m :=
      Span.check_eq_ok_iff (hwhole s List.mem_cons_self)
    have hrest := ih fun t ht => hwhole t (List.mem_cons_of_mem _ ht)
    constructor
    · intro h
      obtain ⟨⟨⟩, hchecked, h⟩ := Outcome.bind_eq_ok_iff.1 h
      exact List.forall_mem_cons.2 ⟨hfirst.1 hchecked, hrest.1 h⟩
    · intro h
      obtain ⟨hchecked, h⟩ := List.forall_mem_cons.1 h
      exact Outcome.bind_eq_ok_iff.2 ⟨(), hfirst.2 hchecked, hrest.2 h⟩

end Curve

theorem Curve.isSendable_usual : Curve.usual.IsSendable where
  formula := by
    intro s hs
    have hwithin := Curve.usual_validFor.formula.within s hs
    rcases List.mem_pair.1 hs with rfl | rfl
    · exact ⟨⟨by decide, 20, hwithin⟩, by decide, by decide⟩
    · exact ⟨⟨by decide, 20, hwithin⟩, by decide, by decide⟩
  bezier := by
    intro s hs
    have hwithin := Curve.usual_validFor.bezier.within s hs
    have hamount (n : Int) (hlow : 0 ≤ n) (hhigh : n ≤ 10000)
        (hexact : (Number.int n).eq (.real (Binary64.ofInt n)) = true) :
        (Number.int n).IsAmount := by
      have hgreatest : 10000 ≤ Binary64.greatest := by decide +kernel
      exact Number.isAmount_int hlow (by omega) hexact
    have hmiddle : (Number.int 1500).IsAmount :=
      hamount 1500 (by omega) (by omega) (by decide +kernel)
    rcases List.mem_pair.1 hs with rfl | rfl
    · exact ⟨⟨by decide, 20, hwithin⟩, hamount 100 (by omega) (by omega) (by decide +kernel),
        hmiddle⟩
    · exact ⟨⟨by decide, 20, hwithin⟩, hmiddle,
        hamount 10000 (by omega) (by omega) (by decide +kernel)⟩
  scale := fun _ h => nomatch h

theorem Profile.isShowable_ofPreset {p : Preset} (hp : p ∈ Preset.all) :
    (ofPreset p).IsShowable := by
  have hbound : (100 : Int) ≤ greatest := by decide +kernel
  have hwithin : ∀ s ∈ Curve.usual.active, (Spanned.span s).Within 100 := by
    intro s hs
    obtain ⟨segment, hsegment, rfl⟩ := List.mem_map.1 hs
    exact (Curve.usual_validFor.formula.within segment hsegment).mono (by decide)
  rcases List.mem_pair.1 hp with rfl | rfl
  · exact ⟨⟨_, rfl⟩, Curve.isSendable_usual, ⟨100, rfl, hbound, hwithin⟩, rfl⟩
  · exact ⟨⟨_, rfl⟩, Curve.isSendable_usual, ⟨100, rfl, hbound, hwithin⟩, rfl⟩

namespace Registry

/-- The built-in profiles are there under their own names. -/
theorem preset_of_find?_seeded {name : Word} {p : Profile} (h : seeded.find? name = some p) :
    ∃ preset ∈ Preset.all, Profile.ofPreset preset = p ∧ p.name = name := by
  rcases Dictionary.mem_of_find?_foldl h with ⟨hmem, hname⟩ | hnone
  · obtain ⟨preset, hpreset, heq⟩ := List.mem_map.1 hmem
    exact ⟨preset, hpreset, heq, hname⟩
  · cases hnone

theorem isKeyedBy_seeded : seeded.IsKeyedBy Profile.name := by
  intro name p hp
  obtain ⟨-, -, -, hname⟩ := preset_of_find?_seeded hp
  exact hname

variable {r : Registry} {p : Profile} {failure : Failure}

theorem publish_of_refused (h : p.curve.check p.maxLevel = .error failure) :
    r.publish p = (r, .error failure) := by
  unfold publish
  rw [h]

/-- What passes the check is stored under the next version, and then announced. -/
theorem publish_of_check (h : p.curve.check p.maxLevel = .ok ()) :
    r.publish p = (r.store p.name (r.numbered p), announce (r.numbered p)) := by
  unfold publish
  rw [h]

theorem announce_of_text {name : String} (h : p.name = name) : announce p = .ok p := by
  unfold announce
  rw [h]
  rfl

/-- A profile with a text for a name and a curve that can be sent is published as one that can be
shown, if it passes the check. -/
theorem publish_isShowable {m : Int} (hname : ∃ name : String, p.name = name)
    (hcurve : p.curve.IsSendable) (hmax : p.maxLevel = .int m) (hm : m ≤ greatest)
    (hgrowth : p.growth = .usual) (hcheck : p.curve.check p.maxLevel = .ok ()) :
    r.publish p = (r.store p.name (r.numbered p), .ok (r.numbered p)) ∧
      (r.numbered p).IsShowable := by
  obtain ⟨name, htext⟩ := hname
  have hannounced : announce (r.numbered p) = .ok (r.numbered p) := announce_of_text htext
  refine ⟨by rw [publish_of_check hcheck, hannounced], ⟨name, htext⟩, hcurve, ?_, hgrowth⟩
  rw [hmax] at hcheck
  exact ⟨m, hmax, hm, (Curve.check_eq_ok_iff hcurve).1 hcheck⟩

end Registry

namespace Ledger

variable {r : Registry} {l l' : Ledger}

theorem profileNamed_eq_ok_iff {name : Word} {p : Profile} :
    profileNamed r name = .ok p ↔ r.find? name = some p := by
  unfold profileNamed
  cases r.find? name with
  | none =>
    constructor
    · intro h
      cases h
    · intro h
      cases h
  | some q =>
    constructor
    · intro h
      exact congrArg some (Except.ok.inj h)
    · intro h
      exact congrArg Except.ok (Option.some.inj h)

/-- A new character has the id that was chosen and the name of a profile, and starts on that. -/
theorem newCharacter_eq_ok {profile id : Word} {c : Character}
    (h : newCharacter r profile id = .ok c) :
    ∃ p, r.find? profile = some p ∧ c.id = id ∧ c.profile = p.name ∧
      Progression.new (some p.curve) p.maxLevel (some p.growth) = .ok c.state := by
  obtain ⟨p, hp, h⟩ := Outcome.bind_eq_ok_iff.1 h
  obtain ⟨state, hstate, h⟩ := Outcome.bind_eq_ok_iff.1 h
  obtain rfl := Except.ok.inj h
  exact ⟨p, profileNamed_eq_ok_iff.1 hp, rfl, rfl, hstate⟩

/-- A creation stores the new character under the id that was chosen, or fails. -/
theorem create_cases (l : Ledger) (r : Registry) (profile : Word) (wanted : Option Word)
    (freshId : String) :
    (∃ failure, l.create r profile wanted freshId = (l, .error failure)) ∨
      ∃ c, newCharacter r profile (chosenId wanted freshId) = .ok c ∧
        c.id = chosenId wanted freshId ∧
        l.create r profile wanted freshId = (l.store c.id c, .ok c) := by
  unfold create
  cases hnew : newCharacter r profile (chosenId wanted freshId) with
  | error failure => exact Or.inl ⟨failure, rfl⟩
  | ok c =>
    obtain ⟨p, -, hid, -⟩ := newCharacter_eq_ok hnew
    exact Or.inr ⟨c, rfl, hid, rfl⟩

/-- A character that is created on a profile that can be shown can be shown. -/
theorem isShowable_newCharacter {profile id : Word} {c : Character}
    (hr : ∀ name p, r.find? name = some p → p.IsShowable)
    (h : newCharacter r profile id = .ok c) : c.IsShowable := by
  obtain ⟨p, hp, -, hprofile, hstate⟩ := newCharacter_eq_ok h
  have hshow := hr profile p hp
  exact ⟨hprofile ▸ hshow.name, hshow.new hstate⟩

theorem credit_eq_ok_iff {c : Character} {amount : Datum} {result : Progression.LevelUp} :
    credit r c amount = .ok result ↔ ∃ p n, r.find? c.profile = some p ∧
      amount.toNumber = .ok n ∧
      c.state.grant (some p.curve) (some p.growth) n = .ok result := by
  simp only [credit, Outcome.bind_eq_ok_iff, profileNamed_eq_ok_iff, exists_and_left]

/-- A grant that the character's own progression does not take fails and writes nothing. Otherwise
the state that comes of it is written and then announced. -/
theorem grant_cases (l : Ledger) (r : Registry) (id : Word) (amount : Datum) :
    (∃ failure, (∀ c result, l.find? id = some c → credit r c amount ≠ .ok result) ∧
      l.grant r id amount = (l, .error failure)) ∨
      ∃ c result, l.find? id = some c ∧ credit r c amount = .ok result ∧
        l.grant r id amount =
          (l.store id { c with state := result.state }, announce id result) := by
  unfold grant
  cases hc : l.find? id with
  | none =>
    refine Or.inl ⟨_, ?_, rfl⟩
    intro c result hnone
    cases hnone
  | some c =>
    dsimp only
    cases hcredit : credit r c amount with
    | error failure =>
      refine Or.inl ⟨failure, ?_, rfl⟩
      rintro c' result hc' hok
      obtain rfl := Option.some.inj hc'
      cases hcredit.symm.trans hok
    | ok result => exact Or.inr ⟨c, result, rfl, hcredit, rfl⟩

theorem announce_text (id : String) (result : Progression.LevelUp) :
    announce id result = .ok result := by
  unfold announce
  split <;> rfl

/-- A grant to a character that can be shown leaves one that can be shown. -/
theorem isShowable_credit {c : Character} {amount : Binary64} {result : Progression.LevelUp}
    (hr : ∀ name p, r.find? name = some p → p.IsShowable) (hc : c.IsShowable)
    (h : credit r c (.real amount) = .ok result) : result.state.IsShowable := by
  obtain ⟨p, n, hp, hn, hresult⟩ := credit_eq_ok_iff.1 h
  obtain rfl : .real amount = n := Except.ok.inj hn
  rw [(hr c.profile p hp).growth] at hresult
  exact Progression.isShowable_grant hc.state hresult

end Ledger

end ExperienceCurves

namespace ExperienceCurves.Service.View

theorem exists_issue {i : ContinuityIssue} (h : i.IsShowable) : ∃ d, issue i = .ok d := by
  obtain ⟨⟨expected, hexpected⟩, actual, hactual⟩ := h
  unfold issue
  rw [decimal_number hexpected, decimal_number hactual]
  exact ⟨_, rfl⟩

theorem exists_issues {issues : List ContinuityIssue} (h : ∀ i ∈ issues, i.IsShowable) :
    ∃ shown, issues.mapM issue = .ok shown := by
  induction issues with
  | nil => exact ⟨[], rfl⟩
  | cons i rest ih =>
    obtain ⟨d, hd⟩ := exists_issue (h i List.mem_cons_self)
    obtain ⟨others, hothers⟩ := ih fun j hj => h j (List.mem_cons_of_mem _ hj)
    rw [List.mapM_cons, hd, hothers]
    exact ⟨_, rfl⟩

/-- A profile that can be shown has a view, with any tolerance that is a number. -/
theorem exists_profile {settings : Settings} {tolerance : Number}
    (hsettings : settings.continuityEpsilon = .number tolerance) {p : Profile}
    (hp : p.IsShowable) : ∃ d, View.profile settings p = .ok d := by
  obtain ⟨m, hmax, hm, hwithin⟩ := hp.maxLevel
  obtain ⟨name, hname⟩ := hp.name
  have hshown := Form.curve_toDatum hp.curve
  obtain ⟨issues, hissues, hshow⟩ := Curve.exists_issuesAlong tolerance hm hp.curve.active hwithin
  obtain ⟨shownIssues, hshownIssues⟩ := exists_issues hshow
  obtain ⟨pairs, hpairs⟩ := Curve.exists_overlaps hwithin
  unfold View.profile View.curve Curve.continuityIssues
  rw [hshown, hsettings, hissues, hpairs, hmax, hname]
  change ∃ d, (issues.mapM issue >>= fun continuity => _) = _
  rw [hshownIssues]
  exact ⟨_, rfl⟩

end ExperienceCurves.Service.View
