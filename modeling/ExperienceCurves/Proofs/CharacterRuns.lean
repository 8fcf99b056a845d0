import ExperienceCurves.Proofs.AtomicRequests
import ExperienceCurves.Proofs.NumberOrder

/-!
Characters over runs of requests. Only a grant that is answered changes a record, and it only moves
the character forward: the level never falls, and at the maximum the record is final. The amounts of
grants are zero or more, infinity among them, and so the experience never falls below zero nor loses
its order.
-/
namespace ExperienceCurves

namespace Binary64

/-- Numbers that are not below zero have a sum, since only opposite infinities have none. -/
theorem isNan_add_of_nonneg {x y : Binary64} (hx : x.isNan = false) (hy : y.isNan = false)
    (hxlow : x.lt 0 = false) (hylow : y.lt 0 = false) : (x + y).isNan = false := by
  cases y with
  | nan => cases hy
  | finite negative mantissa exponent hcanonical => exact isNan_add hx rfl
  | infinite negative =>
    obtain rfl : negative = false := (lt_zero_infinite negative).symm.trans hylow
    cases x with
    | nan => cases hx
    | finite negative' mantissa exponent hcanonical => rfl
    | infinite negative' =>
      obtain rfl : negative' = false := (lt_zero_infinite negative').symm.trans hxlow
      rfl

end Binary64

namespace Number

theorem add_real {m : Number} {x : Binary64} (hm : m.toBinary64 = .ok x) (y : Binary64) :
    m.add (.real y) = .ok (.real (x + y)) :=
  combine_binary hm rfl (Or.inr rfl)

theorem lt_zero_real (x : Binary64) : (Number.real x).lt 0 = x.lt 0 := by
  cases x with
  | nan => rfl
  | infinite negative => exact (Binary64.lt_zero_infinite negative).symm
  | finite negative mantissa exponent hcanonical =>
    rw [Binary64.lt_zero_of_isFinite rfl]
    rfl

end Number

namespace Progression

/-- The bounds of a state: its level lies between one and the maximum, its experience is zero or
more, and at the maximum there is none. -/
structure InBounds (s : Progression) : Prop where
  one_le_level : 1 ≤ s.level
  level_le : ∃ m : Int, s.maxLevel = .int m ∧ s.level ≤ m
  zero_le_exp : (0 : Number).le s.exp = true
  exp_of_capped : s.isCapped = true → s.exp = .int 0

/-- A character may come from the first state to the second. -/
structure Precedes (s t : Progression) : Prop where
  maxLevel_eq : t.maxLevel = s.maxLevel
  level_le : s.level ≤ t.level
  eq_of_capped : s.isCapped = true → t = s

variable {s t u : Progression}

theorem Precedes.refl (s : Progression) : s.Precedes s := ⟨rfl, Int.le_refl _, fun _ => rfl⟩

theorem Precedes.trans (hst : s.Precedes t) (htu : t.Precedes u) : s.Precedes u where
  maxLevel_eq := htu.maxLevel_eq.trans hst.maxLevel_eq
  level_le := Int.le_trans hst.level_le htu.level_le
  eq_of_capped := by
    intro hcapped
    obtain rfl := hst.eq_of_capped hcapped
    exact htu.eq_of_capped hcapped

theorem IsShowable.inBounds (hs : s.IsShowable) (hexp : s.exp.isNan = false)
    (hcapped : s.isCapped = true → s.exp = .int 0) : s.InBounds := by
  obtain ⟨m, hmax, -⟩ := hs.maxLevel
  have hlevel := s.level_le_maxLevel
  rw [hmax, Number.le_int, decide_eq_true_eq] at hlevel
  exact ⟨s.one_le_level, ⟨m, hmax, hlevel⟩, Number.le_of_not_lt hexp rfl s.exp_not_negative, hcapped⟩

/-- The fields make up the whole state. -/
theorem eq_of_fields (hlevel : s.level = t.level) (hexp : s.exp = t.exp)
    (hneed : s.expToNext = t.expToNext) (hmax : s.maxLevel = t.maxLevel) : s = t := by
  cases s
  cases t
  subst hlevel hexp hneed hmax
  rfl

/-- A climb with a level left to gain stays, or pays for the level and goes on. -/
theorem climb_cases {requirement : Int → Outcome Int} {levels : Nat} {stand out : Stand}
    (h : climb requirement (levels + 1) stand = .ok out) :
    out = stand ∨ ∃ need rest next, stand.expToNext.toNumber = .ok need ∧
      stand.exp.sub need = .ok rest ∧
      climb requirement levels ⟨stand.level + 1, if levels = 0 then 0 else rest, .int next,
        stand.gained + 1⟩ = .ok out := by
  obtain ⟨need, hneed, h⟩ := Outcome.bind_eq_ok_iff.1 h
  split at h
  · obtain ⟨rest, hrest, h⟩ := Outcome.bind_eq_ok_iff.1 h
    obtain ⟨next, -, h⟩ := Outcome.bind_eq_ok_iff.1 h
    exact Or.inr ⟨need, rest, next, hneed, Outcome.liftM_eq_ok_iff.1 hrest, h⟩
  · exact Or.inl (Except.ok.inj h).symm

/-- Where a climb may end, by induction on the levels that are left: it stays or gains levels, and
with none left the experience is gone. -/
theorem climb_level {requirement : Int → Outcome Int} {levels : Nat} {stand out : Stand}
    (h : climb requirement levels stand = .ok out) :
    stand.level ≤ out.level ∧
      (0 < levels → stand.level + levels ≤ out.level → out.exp = .int 0) := by
  induction levels generalizing stand with
  | zero =>
    obtain rfl := Except.ok.inj h
    exact ⟨Int.le_refl _, by omega⟩
  | succ levels ih =>
    rcases climb_cases h with rfl | ⟨need, rest, next, -, -, hclimb⟩
    · exact ⟨Int.le_refl _, by omega⟩
    · obtain ⟨hlow, hlast⟩ := ih hclimb
      dsimp only at hlow hlast
      refine ⟨by omega, fun _ hout => ?_⟩
      cases levels with
      | zero =>
        obtain rfl := Except.ok.inj hclimb
        rfl
      | succ levels => exact hlast (by omega) (by omega)

/-- Paying for a level does not lose the order of the experience. -/
theorem isNan_sub_need {exp rest : Number} {need : Int} (hexp : exp.isNan = false)
    (h : exp.sub (.int need) = .ok rest) : rest.isNan = false := by
  rcases Number.plain_cases exp with ⟨whole, hwhole⟩ | ⟨x, rfl, -⟩
  · unfold Number.sub Number.combine at h
    rw [hwhole] at h
    obtain rfl := Except.ok.inj h
    rfl
  · obtain ⟨y, hy, h⟩ := Outcome.bind_eq_ok_iff.1
      (show Binary64.ofInt? need >>= (fun y => Except.ok (Number.real (x - y))) = .ok rest from h)
    obtain rfl := Except.ok.inj h
    have hfinite : y.isFinite = true := (Binary64.isInteger_of_ofInt? hy).1.isFinite
    exact Binary64.isNan_add hexp (Binary64.isFinite_neg hfinite)

/-- Climbing with an experience that has an order, by induction on the levels that are left. -/
theorem climb_isNan {requirement : Int → Outcome Int} {levels : Nat} {stand out : Stand}
    (horder : stand.exp.isNan = false) (hneed : ∃ need : Int, stand.expToNext = .int need)
    (h : climb requirement levels stand = .ok out) : out.exp.isNan = false := by
  induction levels generalizing stand with
  | zero =>
    obtain rfl := Except.ok.inj h
    exact horder
  | succ levels ih =>
    rcases climb_cases h with rfl | ⟨need, rest, next, hnumber, hrest, hclimb⟩
    · exact horder
    · obtain ⟨whole, hwhole⟩ := hneed
      rw [hwhole] at hnumber
      obtain rfl : Number.int whole = need := Except.ok.inj hnumber
      refine ih ?_ ⟨next, rfl⟩ hclimb
      dsimp only
      split
      · rfl
      · exact isNan_sub_need horder hrest

/-- What a grant that succeeds has done: at the maximum it only takes the experience, and below it
climbs with the sum. -/
theorem grant_cases {c : Option Curve} {growth : Option Growth} {amount : Number} {r : LevelUp}
    (h : s.grant c growth amount = .ok r) :
    amount.lt 0 = false ∧
      (s.isCapped = true ∧ make s.level 0 s.expToNext s.maxLevel = .ok r.state ∨
        s.isCapped = false ∧ ∃ exp stand, s.exp.add amount = .ok exp ∧
          climb (fun level => Requirement.next c growth (.int level))
            (levelsLeft s.level s.maxLevel) ⟨s.level, exp, s.expToNext, 0⟩ = .ok stand ∧
          make stand.level stand.exp stand.expToNext s.maxLevel = .ok r.state) := by
  unfold grant at h
  split at h
  · cases h
  · next hamount =>
    refine ⟨Bool.not_eq_true _ ▸ hamount, ?_⟩
    split at h
    · next hcapped =>
      obtain ⟨t, ht, h⟩ := Outcome.bind_eq_ok_iff.1 h
      obtain rfl := Except.ok.inj h
      exact Or.inl ⟨hcapped, ht⟩
    · next hcapped =>
      obtain ⟨exp, hexp, h⟩ := Outcome.bind_eq_ok_iff.1 h
      obtain ⟨stand, hstand, h⟩ := Outcome.bind_eq_ok_iff.1 h
      obtain ⟨t, ht, h⟩ := Outcome.bind_eq_ok_iff.1 h
      obtain rfl := Except.ok.inj h
      exact Or.inr ⟨Bool.not_eq_true _ ▸ hcapped, exp, stand,
        Outcome.liftM_eq_ok_iff.1 hexp, hstand, ht⟩

variable {c : Option Curve} {growth : Option Growth} {amount : Binary64} {r : LevelUp}

/-- The experience keeps its order when an amount from zero on is granted. -/
theorem IsShowable.isNan_grant (hs : s.IsShowable) (hexp : s.exp.isNan = false)
    (hamount : (0 : Binary64).le amount = true) (h : s.grant c growth (.real amount) = .ok r) :
    r.state.exp.isNan = false := by
  obtain ⟨need, hneed, -⟩ := hs.expToNext
  obtain ⟨hnan, hlow⟩ := Binary64.zero_le_iff.1 hamount
  obtain ⟨-, ⟨-, hmake⟩ | ⟨-, exp, stand, hadd, hclimb, hmake⟩⟩ := grant_cases h
  · rw [(make_eq_ok hmake).2.1]
    rfl
  · rw [(make_eq_ok hmake).2.1]
    obtain ⟨x, hx, hxlow, hxnan⟩ : ∃ x, s.exp.toBinary64 = .ok x ∧ x.lt 0 = false ∧
        x.isNan = false := by
      rcases hs.exp with hzero | ⟨x, hreal⟩
      · rw [hzero]
        exact ⟨0, rfl, Binary64.not_lt_zero_zero false, rfl⟩
      · have hsign := s.exp_not_negative
        rw [hreal] at hexp hsign ⊢
        rw [Number.lt_zero_real] at hsign
        exact ⟨x, rfl, hsign, hexp⟩
    have hsum : exp = .real (x + amount) :=
      Except.ok.inj (hadd.symm.trans (Number.add_real hx amount))
    have horder : exp.isNan = false := by
      rw [hsum]
      exact Binary64.isNan_add_of_nonneg hxnan hnan hxlow hlow
    exact climb_isNan horder ⟨need, hneed⟩ hclimb

/-- A grant from zero on only moves forward, and what it leads to is in bounds. -/
theorem InBounds.grant (hs : s.InBounds) (hshow : s.IsShowable)
    (hamount : (0 : Binary64).le amount = true) (h : s.grant c growth (.real amount) = .ok r) :
    s.Precedes r.state ∧ r.state.InBounds := by
  obtain ⟨m, hmax, hlevel⟩ := hs.level_le
  have hcapped_iff (t : Progression) (ht : t.maxLevel = s.maxLevel) :
      t.isCapped = true ↔ m ≤ t.level := by
    rw [isCapped, ht, hmax, Number.le_int, decide_eq_true_eq]
  have hexp : s.exp.isNan = false := Number.isNan_of_le hs.zero_le_exp
  have horder := hshow.isNan_grant hexp hamount h
  have hin (hcap : r.state.isCapped = true → r.state.exp = .int 0)
      (ht : r.state.maxLevel = s.maxLevel) : r.state.InBounds := by
    have hle := r.state.level_le_maxLevel
    rw [ht, hmax, Number.le_int, decide_eq_true_eq] at hle
    exact ⟨r.state.one_le_level, ⟨m, ht.trans hmax, hle⟩,
      Number.le_of_not_lt horder rfl r.state.exp_not_negative, hcap⟩
  obtain ⟨-, ⟨hcapped, hmake⟩ | ⟨hcapped, exp, stand, -, hclimb, hmake⟩⟩ := grant_cases h
  · obtain ⟨hl, he, hn, hm⟩ := make_eq_ok hmake
    have hsame : r.state = s := eq_of_fields hl (he.trans (hs.exp_of_capped hcapped).symm) hn hm
    rw [hsame]
    exact ⟨.refl s, hs⟩
  · obtain ⟨hl, he, -, hm⟩ := make_eq_ok hmake
    have hbelow : s.level < m := by
      by_contra hge
      rw [(hcapped_iff s rfl).2 (by omega)] at hcapped
      cases hcapped
    have hleft : levelsLeft s.level s.maxLevel = (m - s.level).toNat := by
      rw [hmax]
      rfl
    obtain ⟨hup, hlast⟩ := climb_level hclimb
    rw [hleft] at hlast
    dsimp only at hup hlast
    refine ⟨⟨hm, by omega, fun hcap => ?_⟩, hin (fun hcap => ?_) hm⟩
    · rw [hcap] at hcapped
      cases hcapped
    · rw [hcapped_iff r.state hm, hl] at hcap
      exact he.trans (hlast (by omega) (by omega))

/-- The state of a new character. -/
def IsNew (s : Progression) : Prop := s.level = 1 ∧ s.exp = .int 0

theorem isNew_of_new {c : Option Curve} {maxLevel : Datum} {growth : Option Growth}
    (h : new c maxLevel growth = .ok s) : s.IsNew := by
  obtain ⟨least, -, h⟩ := Outcome.bind_eq_ok_iff.1 h
  split at h
  · obtain ⟨top, -, h⟩ := Outcome.bind_eq_ok_iff.1 h
    exact ⟨(make_eq_ok h).1, (make_eq_ok h).2.1⟩
  · obtain ⟨need, -, h⟩ := Outcome.bind_eq_ok_iff.1 h
    obtain ⟨top, -, h⟩ := Outcome.bind_eq_ok_iff.1 h
    exact ⟨(make_eq_ok h).1, (make_eq_ok h).2.1⟩

end Progression

theorem Ledger.isNew_newCharacter {r : Registry} {profile id : Word} {c : Character}
    (h : newCharacter r profile id = .ok c) : c.state.IsNew := by
  obtain ⟨p, -, -, -, hstate⟩ := newCharacter_eq_ok h
  exact Progression.isNew_of_new hstate

end ExperienceCurves

namespace ExperienceCurves.Service

/-- Only a request to the experience of a character is a grant. -/
theorem Command.eq_experience_of_grant {r : Request} {id : String} {amount : Binary64}
    (h : ofRequest r = .ok (.grant id amount)) :
    r.method = .post ∧ Resource.ofPath r.path = some (.experience id) := by
  obtain ⟨resource, hresource, h⟩ := resource_of_ofRequest h
  rw [hresource]
  generalize r.method = method at h
  cases resource <;> cases method
  all_goals first
    | (obtain ⟨_, _, hgrant⟩ := Outcome.map_eq_ok_iff.1 h
       obtain ⟨rfl, -⟩ := Command.grant.inj hgrant
       exact ⟨rfl, rfl⟩)
    | (obtain ⟨_, _, hother⟩ := Outcome.map_eq_ok_iff.1 h
       cases hother)
    | cases h
    | (obtain ⟨_, _, hmake, _, hother⟩ :=
         Checked.seq_eq_valid_iff.1 (Command.settled_eq_ok_iff.1 h)
       obtain ⟨_, _, rfl⟩ := Checked.map_eq_valid_iff.1 hmake
       cases hother)

namespace State

variable {s t : State} {command : Option Command}

/-- What a command, if it is one, can do to the records: nothing, or create a character under a free
name, or grant to one character with an answer. -/
inductive Recorded (s : State) (command : Option Command) : State × Answer → Prop
  | kept {t : State} {answer : Answer} (hledger : t.ledger = s.ledger) :
      Recorded s command (t, answer)
  | created {t : State} {answer : Answer} (c : Character) (hfree : s.ledger.find? c.id = none)
      (hnew : c.state.IsNew) (hbounds : c.state.InBounds)
      (hledger : t.ledger = s.ledger.store c.id c) : Recorded s command (t, answer)
  | granted {t : State} {body : Datum} (id : String) (c : Character) (p : Profile)
      (amount : Binary64) (result : Progression.LevelUp)
      (hcommand : command = some (.grant id amount)) (hamount : (0 : Binary64).le amount = true)
      (hc : s.ledger.find? id = some c)
      (hgrant : c.state.grant (some p.curve) (some p.growth) (.real amount) = .ok result)
      (hledger : t.ledger = s.ledger.store id { c with state := result.state }) :
      Recorded s command (t, .ok body)

theorem recorded_commit (published : Registry × Outcome Profile) :
    Recorded s command (s.commit published) := by
  obtain ⟨registry, outcome⟩ := published
  cases outcome with
  | ok stored => exact .kept rfl
  | error failure => exact .kept rfl

theorem recorded_edit (name : String) (change : Profile → Except Problem (Option Curve)) :
    Recorded s command (s.edit name change) := by
  unfold edit
  split
  · exact .kept rfl
  · split
    · exact .kept rfl
    · exact .kept rfl
    · exact recorded_commit _

theorem recorded_create {freshId : String} {form : Form.Creation} (hs : s.IsShowable)
    (hfresh : s.ledger.find? freshId = none) : Recorded s command (s.create freshId form) := by
  unfold create
  cases htaken : form.characterId.filter s.isTaken with
  | some id => exact .kept rfl
  | none =>
    dsimp only
    rcases Ledger.create_cases s.ledger s.registry form.profile form.characterId freshId with
      ⟨failure, hcreate⟩ | ⟨c, hnew, hid, hcreate⟩
    · rw [hcreate]
      exact .kept rfl
    · have hstart := Ledger.isNew_newCharacter hnew
      have hnan : c.state.exp.isNan = false := by rw [hstart.2]; rfl
      have hbounds := (Ledger.isShowable_newCharacter hs.profile hnew).state.inBounds hnan
        fun _ => hstart.2
      have hfree : s.ledger.find? c.id = none := by
        by_cases hchosen : c.id = freshId
        · rw [hchosen]
          exact hfresh
        · exact find?_of_not_isTaken htaken hid.symm hchosen
      rw [hcreate]
      exact .created c hfree hstart hbounds rfl

theorem recorded_grant {id : String} {amount : Binary64} (hs : s.IsShowable)
    (hamount : (0 : Binary64).le amount = true) :
    Recorded s (some (.grant id amount)) (s.grant id amount) := by
  rcases Ledger.grant_cases s.ledger s.registry id (.real amount) with
    ⟨failure, -, hgrant⟩ | ⟨c, result, hc, hcredit, hgrant⟩
  · have hsame : (s.grant id amount).1 = s := by
      unfold grant
      rw [hgrant]
      cases s.characterNamed id with
      | error problem => rfl
      | ok c => cases failure <;> rfl
    exact .kept (congrArg State.ledger hsame)
  · rw [Ledger.announce_text] at hgrant
    obtain ⟨body, hbody⟩ := grant_of_ok hs hgrant
    obtain ⟨p, n, -, hn, hresult⟩ := Ledger.credit_eq_ok_iff.1 hcredit
    obtain rfl : .real amount = n := Except.ok.inj hn
    rw [hbody]
    exact .granted id c p amount result rfl hamount hc hresult rfl

/-- One case for each command. -/
theorem perform_recorded {freshId : String} {command : Command} (hs : s.IsShowable)
    (hfresh : s.ledger.find? freshId = none) (hcommand : command.IsSendable) :
    Recorded s (some command) (s.perform freshId command) := by
  cases command with
  | publish name form => exact recorded_commit _
  | append name segment => exact recorded_edit _ _
  | delete name id => exact recorded_edit _ _
  | redistribute name maxLevel => exact recorded_edit _ _
  | drag name form => exact recorded_edit _ _
  | setRange name id startLevel endLevel => exact recorded_edit _ _
  | setMode name useBezier =>
    exact recorded_edit name fun p => .ok (some (p.curve.withMode useBezier))
  | resetScale name => exact recorded_edit _ _
  | create form => exact recorded_create hs hfresh
  | grant id amount => exact recorded_grant hs hcommand
  | _ => exact .kept rfl

theorem handle_recorded {freshId : String} (r : Request) (hs : s.IsShowable)
    (hfresh : s.ledger.find? freshId = none) :
    ∃ answer, (s.handle freshId r).2 = Response.ofAnswer answer ∧
      Recorded s (Command.ofRequest r).toOption ((s.handle freshId r).1, answer) := by
  cases hcommand : Command.ofRequest r with
  | error problem =>
    rw [handle_of_problem freshId hcommand]
    exact ⟨.error problem, rfl, .kept rfl⟩
  | ok command =>
    rw [handle_of_command freshId hcommand]
    exact ⟨_, rfl, perform_recorded hs hfresh (Command.isSendable_of_ofRequest hcommand)⟩

/-- All characters are in bounds. -/
def HasBounds (s : State) : Prop := ∀ id c, s.ledger.find? id = some c → c.state.InBounds

/-- The state of a character comes from an earlier one of the same character, unchanged unless it
was granted to under its name with an answer. -/
def Continues (command : Option Command) (answer : Answer) (id : Word) (c c' : Character) : Prop :=
  c'.profile = c.profile ∧ c.state.Precedes c'.state ∧
    (c' = c ∨ ∃ (name : String) (amount : Binary64) (body : Datum), id = name ∧
      command = some (.grant name amount) ∧ answer = .ok body)

namespace Recorded

variable {answer : Answer}

/-- No command takes a character away or puts it back. -/
theorem continues (h : Recorded s command (t, answer)) (hs : s.IsShowable) (hbounds : s.HasBounds)
    {id : Word} {c : Character} (hc : s.ledger.find? id = some c) :
    ∃ c', t.ledger.find? id = some c' ∧ Continues command answer id c c' := by
  have hsame : Continues command answer id c c := ⟨rfl, .refl c.state, Or.inl rfl⟩
  cases h with
  | kept hledger => exact ⟨c, hledger ▸ hc, hsame⟩
  | created other hfree hnew hin hledger =>
    refine ⟨c, ?_, hsame⟩
    rw [hledger, Dictionary.find?_store, if_neg]
    · exact hc
    · rintro rfl
      cases hfree.symm.trans hc
  | granted name other p amount result hcommand hamount hother hgrant hledger =>
    rw [hledger, Dictionary.find?_store]
    by_cases hname : id = name
    · subst hname
      obtain rfl : c = other := Option.some.inj (hc.symm.trans hother)
      have hprecedes :=
        ((hbounds _ c hc).grant (hs.character _ c hc).state hamount hgrant).1
      exact ⟨_, if_pos rfl, rfl, hprecedes, Or.inr ⟨name, amount, _, rfl, hcommand, rfl⟩⟩
    · exact ⟨c, (if_neg hname).trans hc, hsame⟩

theorem hasBounds (h : Recorded s command (t, answer)) (hs : s.IsShowable)
    (hbounds : s.HasBounds) : t.HasBounds := by
  cases h with
  | kept hledger => exact fun id c hc => hbounds id c (hledger ▸ hc)
  | created c hfree hnew hin hledger =>
    intro id found hfound
    rw [hledger, Dictionary.find?_store] at hfound
    split at hfound
    · exact Option.some.inj hfound ▸ hin
    · exact hbounds id found hfound
  | granted name c p amount result hcommand hamount hc hgrant hledger =>
    intro id found hfound
    rw [hledger, Dictionary.find?_store] at hfound
    split at hfound
    · have hin := ((hbounds _ c hc).grant (hs.character _ c hc).state hamount hgrant).2
      exact Option.some.inj hfound ▸ hin
    · exact hbounds id found hfound

end Recorded

/-- The name that comes with each request is free when the request is handled. -/
def FreshNames (requests : List (String × Request)) : Prop :=
  ∀ past request, past ++ [request] <+: requests → (afterAll past).ledger.find? request.1 = none

theorem afterAll_concat (requests : List (String × Request)) (request : String × Request) :
    afterAll (requests ++ [request]) = ((afterAll requests).handle request.1 request.2).1 := by
  unfold afterAll
  rw [List.foldl_append]
  rfl

theorem FreshNames.earlier {requests more : List (String × Request)}
    (h : FreshNames (requests ++ more)) : FreshNames requests :=
  fun past request hpast => h past request (hpast.trans (List.prefix_append requests more))

theorem FreshNames.last {requests : List (String × Request)} {request : String × Request}
    (h : FreshNames (requests ++ [request])) : (afterAll requests).ledger.find? request.1 = none :=
  h requests request (List.prefix_refl _)

theorem freshNames_nil : FreshNames [] := by
  intro past request hpast
  simp at hpast

theorem FreshNames.concat {requests : List (String × Request)} {request : String × Request}
    (h : FreshNames requests) (hfree : (afterAll requests).ledger.find? request.1 = none) :
    FreshNames (requests ++ [request]) := by
  intro past other hpast
  rcases List.prefix_concat_iff.1 hpast with hwhole | hearlier
  · obtain ⟨rfl, hlast⟩ := List.append_inj' hwhole rfl
    obtain rfl := List.singleton_inj.1 hlast
    exact hfree
  · exact h past other hearlier

theorem hasBounds_afterAll {requests : List (String × Request)} (h : FreshNames requests) :
    (afterAll requests).HasBounds := by
  induction requests using List.reverseRecOn with
  | nil => exact fun _ _ hc => nomatch hc
  | append_singleton requests request ih =>
    have hshow := isShowable_afterAll requests
    obtain ⟨answer, -, hrecorded⟩ := handle_recorded request.2 hshow h.last
    rw [afterAll_concat]
    exact hrecorded.hasBounds hshow (ih h.earlier)

/-- A character that is there after some requests is there after all later ones, further on. -/
theorem precedes_afterAll {past later : List (String × Request)} (h : FreshNames (past ++ later))
    {id : Word} {c : Character} (hc : (afterAll past).ledger.find? id = some c) :
    ∃ c', (afterAll (past ++ later)).ledger.find? id = some c' ∧ c'.profile = c.profile ∧
      c.state.Precedes c'.state := by
  induction later using List.reverseRecOn with
  | nil =>
    rw [List.append_nil]
    exact ⟨c, hc, rfl, .refl c.state⟩
  | append_singleton later request ih =>
    rw [← List.append_assoc] at h ⊢
    have hshow := isShowable_afterAll (past ++ later)
    obtain ⟨answer, -, hrecorded⟩ := handle_recorded request.2 hshow h.last
    obtain ⟨c', hc', hprofile, hprecedes⟩ := ih h.earlier
    obtain ⟨c'', hc'', hprofile', hprecedes', -⟩ :=
      hrecorded.continues hshow (hasBounds_afterAll h.earlier) hc'
    rw [afterAll_concat]
    exact ⟨c'', hc'', hprofile'.trans hprofile, hprecedes.trans hprecedes'⟩

/-- How the characters stand now, compared with an earlier state. -/
structure Forward (before now : State) : Prop where
  character : ∀ id c, before.ledger.find? id = some c →
    ∃ c', now.ledger.find? id = some c' ∧ c'.id = id ∧ c'.profile = c.profile ∧
      c.state.Precedes c'.state
  inBounds : ∀ id c, now.ledger.find? id = some c → c.state.InBounds

/-- Characters only move forward, from any state that requests lead to on to any later one, and all
of them are in bounds. One more request changes a record only if it is a grant to that very
character and is answered. -/
theorem characters_forward {past later : List (String × Request)} {freshId : String} {r : Request}
    (h : FreshNames (past ++ later ++ [(freshId, r)])) :
    let now := afterAll (past ++ later)
    Forward (afterAll past) now ∧
      ∀ id c, now.ledger.find? id = some c → (now.handle freshId r).1.ledger.find? id ≠ some c →
        ∃ name : String, id = name ∧ r.method = .post ∧
          Resource.ofPath r.path = some (.experience name) ∧
          (now.handle freshId r).2.status = 200 := by
  intro now
  have hnames : FreshNames (past ++ later) := h.earlier
  have hbounds : now.HasBounds := hasBounds_afterAll hnames
  have hshow : now.IsShowable := isShowable_afterAll (past ++ later)
  refine ⟨⟨?_, hbounds⟩, ?_⟩
  · intro id c hc
    obtain ⟨c', hc', hprofile, hprecedes⟩ := precedes_afterAll hnames hc
    exact ⟨c', hc', hshow.ids id c' hc', hprofile, hprecedes⟩
  · intro id c hc hchanged
    obtain ⟨answer, hresponse, hrecorded⟩ := handle_recorded r hshow h.last
    obtain ⟨c', hc', -, -, rfl | ⟨name, amount, body, hid, hcommand, hanswer⟩⟩ :=
      hrecorded.continues hshow hbounds hc
    · exact absurd hc' hchanged
    · have hgrant : Command.ofRequest r = .ok (.grant name amount) :=
        Outcome.eq_ok_of_toOption hcommand
      obtain ⟨hmethod, hpath⟩ := Command.eq_experience_of_grant hgrant
      refine ⟨name, hid, hmethod, hpath, ?_⟩
      rw [hresponse, hanswer]
      rfl

/-- A creation under a name and a grant to it. -/
def creation (id : String) : Request :=
  ⟨.post, "/characters", "", .data (.record [("characterId", .text id)])⟩

def grantTo (id : String) (amount : Binary64) : Request :=
  ⟨.post, "/characters/" ++ id ++ "/experience", "", .data (.record [("exp", .real amount)])⟩

/-- A character is created, climbs two levels and is granted to once more. -/
theorem characters_forward_hero :
    let past := [("a", creation "hero")]
    let later := [("b", grantTo "hero" (Binary64.ofNat 250))]
    let r := grantTo "hero" 1
    FreshNames (past ++ later ++ [("c", r)]) ∧
      Forward (afterAll past) (afterAll (past ++ later)) ∧
      ((afterAll (past ++ later)).ledger.find? "hero").map (·.state.level) = some 3 ∧
      ∀ id c, (afterAll (past ++ later)).ledger.find? id = some c →
        ((afterAll (past ++ later)).handle "c" r).1.ledger.find? id ≠ some c →
          ∃ name : String, id = name ∧ r.method = .post ∧
            Resource.ofPath r.path = some (.experience name) ∧
            ((afterAll (past ++ later)).handle "c" r).2.status = 200 := by
  intro past later r
  have hnames : FreshNames (past ++ later ++ [("c", r)]) := by
    have hfirst : FreshNames ([] ++ [("a", creation "hero")]) := freshNames_nil.concat rfl
    have hsecond : FreshNames (past ++ later) := by
      refine hfirst.concat ?_
      exact Option.isNone_iff_eq_none.1 (by decide +kernel)
    refine hsecond.concat ?_
    exact Option.isNone_iff_eq_none.1 (by decide +kernel)
  have hforward := characters_forward hnames
  exact ⟨hnames, hforward.1, by decide +kernel, hforward.2⟩

end State

end ExperienceCurves.Service
