import ExperienceCurves.Proofs.SentEdits
import ExperienceCurves.Service.Command

/-!
Commands that can be sent. The curve of a publication and the segment of an append have the form
that requests require of them, and the amount of a grant is zero or more, so nothing else comes with
the command of a request. A torn name
comes with a creation, and only if the body holds it.
-/
namespace ExperienceCurves.Service

open Checked (valid)
open Requirement (greatest)

namespace Form

variable {v : Json.Value}

theorem isSendable_of_segment {s : Segment} (h : segment v = valid s) : s.IsSendable := by
  unfold segment at h
  split at h
  · next bezier _ hbezier =>
    obtain rfl := Checked.valid.inj h
    exact isSendable_of_bezierSegment hbezier
  · next formula _ hformula =>
    obtain rfl := Checked.valid.inj h
    exact isSendable_of_formulaSegment hformula
  · cases h

theorem isSendable_of_appended {given : Option Segment} (h : appended v = valid given) :
    ∀ s ∈ given, s.IsSendable := by
  intro s hs
  obtain rfl := Option.mem_def.1 hs
  obtain ⟨fields, -, h⟩ := record_eq_valid_iff.1 h
  rcases withDefault_eq_valid_iff.1 h with ⟨-, hnone⟩ | ⟨field, -, h⟩
  · cases hnone
  · rcases optional_eq_valid_iff.1 h with ⟨-, hnone⟩ | ⟨-, s', hs', hsome⟩
    · cases hnone
    · rw [Option.some.inj hsome]
      exact isSendable_of_segment hs'

theorem publication_spec {form : Publication} (h : publication v = valid form) :
    form.curve.IsSendable ∧ ∀ m ∈ form.maxLevel, 1 ≤ m ∧ m ≤ highestMaxLevel := by
  obtain ⟨fields, -, h⟩ := record_eq_valid_iff.1 h
  obtain ⟨make, maxLevel, hmake, hmax, rfl⟩ := Checked.seq_eq_valid_iff.1 h
  obtain ⟨curve, hcurve, rfl⟩ := Checked.map_eq_valid_iff.1 hmake
  obtain ⟨field, -, hcurve⟩ := required_eq_valid_iff.1 hcurve
  refine ⟨isSendable_of_curve hcurve, ?_⟩
  intro m hm
  obtain rfl : maxLevel = some m := hm
  rcases withDefault_eq_valid_iff.1 hmax with ⟨-, hnone⟩ | ⟨field, -, hmax⟩
  · cases hnone
  · rcases optional_eq_valid_iff.1 hmax with ⟨-, hnone⟩ | ⟨-, m', hm', hsome⟩
    · cases hnone
    · rw [Option.some.inj hsome]
      exact (wholeWithin_eq_valid_iff.1 hm').2

theorem zero_le_of_experience {amount : Binary64} (h : experience v = valid amount) :
    (0 : Binary64).le amount = true := by
  obtain ⟨fields, -, h⟩ := record_eq_valid_iff.1 h
  obtain ⟨field, -, hamount⟩ := required_eq_valid_iff.1 h
  exact (amount_eq_valid_iff.1 hamount).2

variable {fields : Fields} {t : Torn}

theorem mem_tornInFields {field : Word × Json.Value} (hfield : field ∈ fields)
    (h : t ∈ field.2.tornWords) : t ∈ Json.Value.tornInFields fields := by
  induction fields with
  | nil => cases hfield
  | cons first rest ih =>
    obtain ⟨name, value⟩ := first
    have hrest : t ∈ value.tornWords ++ Json.Value.tornInFields rest := by
      rcases List.mem_cons.1 hfield with rfl | hfield
      · exact List.mem_append_left _ h
      · exact List.mem_append_right _ (ih hfield)
    cases name with
    | text _ => exact hrest
    | torn _ => exact List.mem_cons_of_mem _ hrest

theorem mem_of_spelled? {name : String} {found : String × Json.Value}
    (h : spelled? name fields = some found) : ∃ field ∈ fields, field.2 = found.2 := by
  obtain ⟨field, hfind, rfl⟩ := Option.map_eq_some_iff.1 h
  exact ⟨field, List.mem_of_find?_eq_some hfind, rfl⟩

theorem mem_of_given? {name : String} {found : String × Json.Value}
    (h : given? name fields = some found) : ∃ field ∈ fields, field.2 = found.2 := by
  unfold given? at h
  cases hplain : spelled? name fields with
  | some plain =>
    rw [hplain] at h
    obtain rfl := Option.some.inj h
    exact mem_of_spelled? hplain
  | none =>
    rw [hplain] at h
    exact mem_of_spelled? h

theorem mem_tornWords_of_word (h : word v = valid (.torn t)) : t ∈ v.tornWords := by
  unfold word at h
  split at h
  · obtain rfl := Checked.valid.inj h
    exact List.mem_singleton_self t
  · cases h

/-- The torn name of a creation stands in its body. -/
theorem mem_tornWords_of_creation {form : Creation} (h : creation v = valid form)
    (hname : form.characterId = some (.torn t)) : t ∈ v.tornWords := by
  obtain ⟨fields, rfl, h⟩ := record_eq_valid_iff.1 h
  obtain ⟨make, characterId, hmake, hid, rfl⟩ := Checked.seq_eq_valid_iff.1 h
  obtain ⟨profile, -, rfl⟩ := Checked.map_eq_valid_iff.1 hmake
  obtain rfl : characterId = some (.torn t) := hname
  rcases withDefault_eq_valid_iff.1 hid with ⟨-, hnone⟩ | ⟨found, hfound, hid⟩
  · cases hnone
  · rcases optional_eq_valid_iff.1 hid with ⟨-, hnone⟩ | ⟨-, w, hw, hsome⟩
    · cases hnone
    · obtain rfl := Option.some.inj hsome
      obtain ⟨field, hfield, hvalue⟩ := mem_of_given? hfound
      exact mem_tornInFields hfield (hvalue ▸ mem_tornWords_of_word hw)

end Form

namespace Command

/-- What a command brings has the form of a request. -/
def IsSendable : Command → Prop
  | publish _ form => form.curve.IsSendable ∧ ∀ m ∈ form.maxLevel, m ≤ greatest
  | append _ segment => ∀ s ∈ segment, s.IsSendable
  | grant _ amount => (0 : Binary64).le amount = true
  | _ => True

/-- The torn name of the character that a command creates. -/
def tornName? : Command → Option Torn
  | create ⟨_, some (.torn t)⟩ => some t
  | _ => none

variable {α : Type} {r : Request}

theorem settled_eq_ok_iff {x : Checked α} {a : α} : settled x = .ok a ↔ x = valid a := by
  cases x with
  | valid b =>
    constructor
    · intro h
      exact congrArg valid (Except.ok.inj h)
    · intro h
      exact congrArg Except.ok (Checked.valid.inj h)
  | invalid complaints =>
    constructor
    · intro h
      cases h
    · intro h
      cases h

theorem exists_of_inBody {read : Form.Reader α} {a : α} (h : inBody r read = .ok a) :
    ∃ v, r.body = .value v ∧ read v = valid a := by
  unfold inBody at h
  split at h
  · cases h
  · cases h
  · cases h
  · next v hbody => exact ⟨v, hbody, Checked.under_eq_valid_iff.1 (settled_eq_ok_iff.1 h)⟩

/-- What a body gives to a command, if the form of the body gives it. -/
theorem isSendable_of_map {read : Form.Reader α} {make : α → Command} {command : Command}
    (hmake : ∀ v a, read v = valid a → (make a).IsSendable)
    (h : make <$> inBody r read = .ok command) : command.IsSendable := by
  obtain ⟨a, ha, rfl⟩ := Outcome.map_eq_ok_iff.1 h
  obtain ⟨v, -, hv⟩ := exists_of_inBody ha
  exact hmake v a hv

theorem isSendable_publish {name : String} {v : Json.Value} {form : Form.Publication}
    (h : Form.publication v = valid form) : (publish name form).IsSendable := by
  obtain ⟨hcurve, hmax⟩ := Form.publication_spec h
  have hbound : Form.highestMaxLevel ≤ greatest := by decide +kernel
  exact ⟨hcurve, fun m hm => Int.le_trans (hmax m hm).2 hbound⟩

/-- Only publications, appends and grants bring something that has to have a form. -/
theorem isSendable_of_ofResource {resource : Resource} {method : Method} {command : Command}
    (h : ofResource r resource method = .ok command) : command.IsSendable := by
  unfold ofResource at h
  split at h
  all_goals first
    | exact isSendable_of_map (fun _ _ => isSendable_publish) h
    | exact isSendable_of_map (fun _ _ => Form.isSendable_of_appended) h
    | exact isSendable_of_map (fun _ _ => Form.zero_le_of_experience) h
    | exact isSendable_of_map (fun _ _ _ => trivial) h
    | (obtain rfl := Except.ok.inj h; exact trivial)
    | (obtain ⟨_, _, rfl⟩ := Outcome.map_eq_ok_iff.1 h; exact trivial)
    | (obtain ⟨_, _, hmake, _, rfl⟩ := Checked.seq_eq_valid_iff.1 (settled_eq_ok_iff.1 h)
       obtain ⟨_, _, rfl⟩ := Checked.map_eq_valid_iff.1 hmake
       exact trivial)
    | cases h

/-- A command comes from the resource of its path. -/
theorem resource_of_ofRequest {command : Command} (h : ofRequest r = .ok command) :
    ∃ resource, Resource.ofPath r.path = some resource ∧
      ofResource r resource r.method = .ok command := by
  unfold ofRequest at h
  split at h
  · next resource hresource => exact ⟨resource, hresource, h⟩
  · split at h
    · cases h
    · cases h

theorem isSendable_of_ofRequest {command : Command} (h : ofRequest r = .ok command) :
    command.IsSendable := by
  obtain ⟨resource, -, h⟩ := resource_of_ofRequest h
  exact isSendable_of_ofResource h

variable {t : Torn}

theorem mem_tornWords_of_tornName? {form : Form.Creation} {v : Json.Value}
    (h : Form.creation v = valid form) (hname : (create form).tornName? = some t) :
    t ∈ v.tornWords := by
  obtain ⟨profile, characterId⟩ := form
  unfold tornName? at hname
  split at hname
  · next heq =>
    obtain rfl := Option.some.inj hname
    exact Form.mem_tornWords_of_creation h (congrArg Form.Creation.characterId (create.inj heq))
  · cases hname

theorem torn_of_map {read : Form.Reader α} {make : α → Command} {command : Command}
    (hmake : ∀ v a, read v = valid a → (make a).tornName? = some t → t ∈ v.tornWords)
    (h : make <$> inBody r read = .ok command) (hname : command.tornName? = some t) :
    ∃ v, r.body = .value v ∧ t ∈ v.tornWords := by
  obtain ⟨a, ha, rfl⟩ := Outcome.map_eq_ok_iff.1 h
  obtain ⟨v, hbody, hv⟩ := exists_of_inBody ha
  exact ⟨v, hbody, hmake v a hv hname⟩

/-- Only creations have torn names. -/
theorem torn_of_ofResource {resource : Resource} {method : Method} {command : Command}
    (h : ofResource r resource method = .ok command) (hname : command.tornName? = some t) :
    ∃ v, r.body = .value v ∧ t ∈ v.tornWords := by
  unfold ofResource at h
  split at h
  all_goals first
    | exact torn_of_map (fun _ _ => mem_tornWords_of_tornName?) h hname
    | exact torn_of_map (by intro _ _ _ hnone; cases hnone) h hname
    | (obtain rfl := Except.ok.inj h; cases hname)
    | (obtain ⟨_, _, rfl⟩ := Outcome.map_eq_ok_iff.1 h; cases hname)
    | (obtain ⟨_, _, hmake, _, rfl⟩ := Checked.seq_eq_valid_iff.1 (settled_eq_ok_iff.1 h)
       obtain ⟨_, _, rfl⟩ := Checked.map_eq_valid_iff.1 hmake
       cases hname)
    | cases h

/-- The torn name of a character that a request creates stands in its body. -/
theorem torn_of_ofRequest {command : Command} (h : ofRequest r = .ok command)
    (hname : command.tornName? = some t) : ∃ v, r.body = .value v ∧ t ∈ v.tornWords := by
  obtain ⟨resource, -, h⟩ := resource_of_ofRequest h
  exact torn_of_ofResource h hname

end Command

end ExperienceCurves.Service
