import ExperienceCurves.Proofs.RequirementBounds
import ExperienceCurves.Proofs.SentCurves
import ExperienceCurves.Service.View

/-!
Characters that can be shown. Their levels are whole numbers, their requirement lies in the range,
and their experience is none or a binary number, which may be infinite or without order. Creation
and grants lead to nothing else, and every such character has a view.
-/
namespace ExperienceCurves

open Requirement (greatest)

namespace Progression

/-- Whole levels, a requirement in the range, and experience that is none or a binary number. -/
structure IsShowable (s : Progression) : Prop where
  exp : s.exp = .int 0 ∨ s.exp.IsReal
  expToNext : ∃ need : Int, s.expToNext = .int need ∧ 0 ≤ need ∧ need ≤ greatest
  maxLevel : ∃ m : Int, s.maxLevel = .int m ∧ m ≤ greatest

theorem make_eq_ok {level : Int} {exp : Number} {expToNext : Datum} {maxLevel : Number}
    {s : Progression} (h : make level exp expToNext maxLevel = .ok s) :
    s.level = level ∧ s.exp = exp ∧ s.expToNext = expToNext ∧ s.maxLevel = maxLevel := by
  unfold make at h
  split at h
  · cases h
  · split at h
    · split at h
      · obtain rfl := Except.ok.inj h
        exact ⟨rfl, rfl, rfl, rfl⟩
      · cases h
    · cases h

variable {c : Curve} {s : Progression}

theorem isShowable_of_make {level need m : Int} {exp : Number}
    (h : make level exp (.int need) (.int m) = .ok s) (hexp : exp = .int 0 ∨ exp.IsReal)
    (hlow : 0 ≤ need) (hhigh : need ≤ greatest) (hm : m ≤ greatest) : s.IsShowable := by
  obtain ⟨-, hs, hneed, hmax⟩ := make_eq_ok h
  exact ⟨hs ▸ hexp, ⟨need, hneed, hlow, hhigh⟩, ⟨m, hmax, hm⟩⟩

theorem isShowable_new {m : Int} (hm : m ≤ greatest)
    (h : new (some c) (.int m) (some .usual) = .ok s) : s.IsShowable := by
  have hpositive := Requirement.greatest_pos
  obtain ⟨least, hleast, h⟩ := Outcome.bind_eq_ok_iff.1 h
  split at h
  · have hmax : Number.max 1 (.int m) = .int (max 1 m) := Number.max_int 1 m
    change make 1 0 (.int 0) (Number.max 1 (.int m)) = .ok s at h
    rw [hmax] at h
    exact isShowable_of_make h (Or.inl rfl) (Int.le_refl 0) (by omega) (by omega)
  · obtain ⟨need, hneed, h⟩ := Outcome.bind_eq_ok_iff.1 h
    exact isShowable_of_make h (Or.inl rfl) (Requirement.next_nonneg hneed)
      (Requirement.next_le hneed) hm

/-- Climbing with a binary experience, by induction on the levels that are left. -/
theorem climb_showable {requirement : Int → Outcome Int} {levels : Nat} {stand out : Stand}
    (hrequirement : ∀ level need, stand.level < level → level ≤ stand.level + levels →
      requirement level = .ok need → 0 ≤ need ∧ need ≤ greatest)
    (hexp : stand.exp = .int 0 ∧ levels = 0 ∨ stand.exp.IsReal)
    (hneed : ∃ need : Int, stand.expToNext = .int need ∧ 0 ≤ need ∧ need ≤ greatest)
    (h : climb requirement levels stand = .ok out) :
    (out.exp = .int 0 ∨ out.exp.IsReal) ∧
      ∃ need : Int, out.expToNext = .int need ∧ 0 ≤ need ∧ need ≤ greatest := by
  induction levels generalizing stand with
  | zero =>
    obtain rfl := Except.ok.inj h
    exact ⟨hexp.imp_left And.left, hneed⟩
  | succ levels ih =>
    have hreal : stand.exp.IsReal := hexp.resolve_left fun hnone => nomatch hnone.2
    obtain ⟨need, -, h⟩ := Outcome.bind_eq_ok_iff.1 h
    split at h
    · obtain ⟨rest, hrest, h⟩ := Outcome.bind_eq_ok_iff.1 h
      obtain ⟨next, hnext, h⟩ := Outcome.bind_eq_ok_iff.1 h
      have hbounds := hrequirement (stand.level + 1) next (by omega) (by omega) hnext
      have hahead : ∀ level need, stand.level + 1 < level → level ≤ stand.level + 1 + levels →
          requirement level = .ok need → 0 ≤ need ∧ need ≤ greatest := fun level need habove hlast =>
        hrequirement level need (by omega) (by omega)
      refine ih hahead ?_ ⟨next, rfl, hbounds⟩ h
      dsimp only
      split
      · next hlast => exact Or.inl ⟨rfl, hlast⟩
      · exact Or.inr (Number.isReal_sub_left hreal (Outcome.liftM_eq_ok_iff.1 hrest))
    · obtain rfl := Except.ok.inj h
      exact ⟨Or.inr hreal, hneed⟩

theorem isShowable_grant {amount : Binary64} {r : LevelUp} (hs : s.IsShowable)
    (h : s.grant (some c) (some .usual) (.real amount) = .ok r) : r.state.IsShowable := by
  obtain ⟨need, hneed, hlow, hhigh⟩ := hs.expToNext
  obtain ⟨m, hmax, hm⟩ := hs.maxLevel
  unfold grant at h
  split at h
  · cases h
  · split at h
    · obtain ⟨t, ht, h⟩ := Outcome.bind_eq_ok_iff.1 h
      obtain rfl := Except.ok.inj h
      rw [hneed, hmax] at ht
      exact isShowable_of_make ht (Or.inl rfl) hlow hhigh hm
    · obtain ⟨exp, hexp, h⟩ := Outcome.bind_eq_ok_iff.1 h
      obtain ⟨stand, hstand, h⟩ := Outcome.bind_eq_ok_iff.1 h
      obtain ⟨t, ht, h⟩ := Outcome.bind_eq_ok_iff.1 h
      obtain rfl := Except.ok.inj h
      have hreal := Number.isReal_add_right ⟨amount, rfl⟩ (Outcome.liftM_eq_ok_iff.1 hexp)
      have hlevels : levelsLeft s.level s.maxLevel = (m - s.level).toNat := by
        rw [hmax]
        rfl
      have hone := s.one_le_level
      have hrequirement : ∀ level next, s.level < level →
          level ≤ s.level + (levelsLeft s.level s.maxLevel : Nat) →
          Requirement.next (some c) (some .usual) (.int level) = .ok next →
          0 ≤ next ∧ next ≤ greatest := fun level next habove hlast hnext =>
        ⟨Requirement.next_nonneg hnext, Requirement.next_le hnext⟩
      obtain ⟨hstandExp, need', hneed', hlow', hhigh'⟩ := climb_showable hrequirement
        (Or.inr hreal) ⟨need, hneed, hlow, hhigh⟩ hstand
      rw [hneed', hmax] at ht
      exact isShowable_of_make ht hstandExp hlow' hhigh' hm

theorem toBinary64_need {need : Int} (hlow : 0 ≤ need) (hhigh : need ≤ greatest) :
    (Number.int need).toBinary64 = .ok (Binary64.ofInt need) := by
  have hgreatest : greatest = (Binary64.greatest : Int) := rfl
  exact Binary64.ofInt?_eq_ok (by omega)

theorem IsShowable.exists_exp (hs : s.IsShowable) : ∃ x, s.exp.toBinary64 = .ok x := by
  rcases hs.exp with hexp | ⟨x, hexp⟩
  · rw [hexp]
    exact ⟨0, rfl⟩
  · rw [hexp]
    exact ⟨x, rfl⟩

/-- A share of a requirement that is not zero is a binary number. -/
theorem exists_share {exp : Number} {need : Int} (hexp : exp = .int 0 ∨ exp.IsReal)
    (hlow : 0 < need) (hhigh : need ≤ greatest) : ∃ x, exp.div (.int need) = .ok (.real x) := by
  have hgreatest : greatest = (Binary64.greatest : Int) := rfl
  have hsize : need.natAbs ≤ Binary64.greatest := by omega
  rcases hexp with rfl | ⟨x, rfl⟩
  · exact ⟨Binary64.zero _, if_neg (by omega)⟩
  · have hunfold : (Number.real x).div (.int need) = Binary64.ofInt? need >>= fun y =>
        if y.isZero then .error .divisionByZero else .ok (.real (x / y)) := rfl
    refine ⟨x / Binary64.ofInt need, ?_⟩
    rw [hunfold, Binary64.ofInt?_eq_ok hsize]
    change (if (Binary64.ofInt need).isZero then _ else _) = _
    rw [Binary64.ofInt_isZero hsize (by omega)]
    rfl

/-- The share that is gathered is shown as a binary number. -/
theorem IsShowable.exists_percent (hs : s.IsShowable) : ∃ x, s.percent = .ok (.real x) := by
  obtain ⟨need, hneed, -, hhigh⟩ := hs.expToNext
  unfold percent
  split
  · exact ⟨0, rfl⟩
  · rw [hneed]
    change ∃ x, (if (Number.int need).le (.int 0) then pure (.real 0) else
      Outcome.ofFault (s.exp.div (.int need)) >>= fun share =>
        Outcome.ofFault (share.mul 100)) = Except.ok (.real x)
    rw [Number.le_int]
    by_cases hnone : need ≤ 0
    · exact ⟨0, if_pos (decide_eq_true hnone)⟩
    · obtain ⟨share, hshare⟩ := exists_share hs.exp (by omega) hhigh
      rw [if_neg (by simpa using hnone), hshare]
      exact ⟨share * Binary64.ofInt 100, rfl⟩

end Progression

/-- The profile has a text for a name, and the state can be shown. -/
structure Character.IsShowable (c : Character) : Prop where
  profile : ∃ name : String, c.profile = name
  state : c.state.IsShowable

end ExperienceCurves

namespace ExperienceCurves.Service.View

open Progression

/-- A number with a binary one is shown as that. -/
theorem decimal_number {n : Number} {x : Binary64} (h : n.toBinary64 = .ok x) :
    decimal (.number n) = .ok (.real x) := by
  unfold decimal Json.Value.ofDatum
  rw [Form.decimal_eq_valid h]
  rfl

theorem exists_state {s : Progression} (hs : s.IsShowable) : ∃ d, View.state s = .ok d := by
  obtain ⟨exp, hexp⟩ := hs.exists_exp
  obtain ⟨need, hneed, hlow, hhigh⟩ := hs.expToNext
  obtain ⟨m, hmax, -⟩ := hs.maxLevel
  have hdecimal := decimal_number (toBinary64_need hlow hhigh)
  unfold View.state
  rw [decimal_number hexp, hneed, ← Datum.number_int, hdecimal, hmax]
  exact ⟨_, rfl⟩

theorem exists_character {c : Character} {id : String} (hc : c.IsShowable) (hid : c.id = id) :
    ∃ d, View.character c = .ok d := by
  obtain ⟨profile, hprofile⟩ := hc.profile
  obtain ⟨shown, hshown⟩ := exists_state hc.state
  obtain ⟨percent, hpercent⟩ := hc.state.exists_percent
  unfold View.character
  rw [hshown, hpercent, hid, hprofile]
  exact ⟨_, rfl⟩

/-- A torn name keeps the view from being written, whatever the character is. -/
theorem exists_character_torn {c : Character} {t : Torn} (hc : c.IsShowable)
    (hid : c.id = .torn t) : ∃ message, View.character c = .error (.internal message) := by
  obtain ⟨shown, hshown⟩ := exists_state hc.state
  obtain ⟨percent, hpercent⟩ := hc.state.exists_percent
  unfold View.character
  rw [hshown, hpercent, hid]
  exact ⟨_, rfl⟩

theorem exists_levelUp (id : String) {r : LevelUp} (hr : r.state.IsShowable) :
    ∃ d, View.levelUp id r = .ok d := by
  obtain ⟨shown, hshown⟩ := exists_state hr
  unfold View.levelUp
  rw [hshown]
  exact ⟨_, rfl⟩

end ExperienceCurves.Service.View
