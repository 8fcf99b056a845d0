import ExperienceCurves.Service.Form
import Mathlib.Tactic.Common

/-!
When a checked value is valid. Values that are checked together are valid together, a list is valid
if its elements are, and a form is met if its fields are.
-/
namespace ExperienceCurves.Service

namespace Checked

variable {α β : Type}

theorem map_eq_valid_iff {f : α → β} {x : Checked α} {b : β} :
    f <$> x = valid b ↔ ∃ a, x = valid a ∧ f a = b := by
  change x.map f = valid b ↔ _
  cases x with
  | valid a =>
    constructor
    · intro h
      exact ⟨a, rfl, valid.inj h⟩
    · rintro ⟨a', ha', rfl⟩
      rw [valid.inj ha']
      rfl
  | invalid complaints =>
    constructor
    · intro h
      cases h
    · rintro ⟨a', ha', -⟩
      cases ha'

theorem seq_eq_valid_iff {f : Checked (α → β)} {x : Checked α} {b : β} :
    f <*> x = valid b ↔ ∃ g a, f = valid g ∧ x = valid a ∧ g a = b := by
  change f.seq x = valid b ↔ _
  cases f with
  | valid g =>
    cases x with
    | valid a =>
      constructor
      · intro h
        exact ⟨g, a, rfl, rfl, valid.inj h⟩
      · rintro ⟨g', a', hg', ha', rfl⟩
        rw [valid.inj hg', valid.inj ha']
        rfl
    | invalid complaints =>
      constructor
      · intro h
        cases h
      · rintro ⟨g', a', -, ha', -⟩
        cases ha'
  | invalid complaints =>
    constructor
    · intro h
      cases x <;> cases h
    · rintro ⟨g', a', hg', -, -⟩
      cases hg'

theorem filter_eq_valid_iff {x : Checked α} {given : Json.Value} {condition : α → Bool}
    {flaw : α → Flaw} {a : α} :
    x.filter given condition flaw = valid a ↔ x = valid a ∧ condition a = true := by
  cases x with
  | valid b =>
    unfold filter
    by_cases h : condition b = true
    · simp only [h, if_true, valid.injEq]
      constructor
      · rintro rfl
        exact ⟨rfl, h⟩
      · exact fun hb => hb.1
    · simp only [h, valid.injEq]
      constructor
      · intro hb
        cases hb
      · rintro ⟨rfl, hb⟩
        exact absurd hb h
  | invalid complaints =>
    constructor
    · intro h
      cases h
    · rintro ⟨h, -⟩
      cases h

theorem under_eq_valid_iff {step : Step} {x : Checked α} {a : α} :
    x.under step = valid a ↔ x = valid a := by
  cases x with
  | valid b => exact Iff.rfl
  | invalid complaints => simp [under]

theorem allFrom_eq_valid_iff {index : Nat} {elements : List (Checked α)} {as : List α} :
    allFrom index elements = valid as ↔ elements = as.map valid := by
  induction elements generalizing index as with
  | nil =>
    constructor
    · intro h
      rw [← valid.inj h]
      rfl
    · intro h
      rw [List.map_eq_nil_iff.1 h.symm]
      rfl
  | cons element rest ih =>
    unfold allFrom
    rw [seq_eq_valid_iff]
    constructor
    · rintro ⟨g, others, hg, hothers, rfl⟩
      obtain ⟨a, ha, rfl⟩ := map_eq_valid_iff.1 hg
      rw [under_eq_valid_iff.1 ha, ih.1 hothers]
      rfl
    · intro h
      cases as with
      | nil => cases h
      | cons a others =>
        obtain ⟨rfl, hrest⟩ := List.cons.inj h
        exact ⟨List.cons a, others, map_eq_valid_iff.2 ⟨a, rfl, rfl⟩, ih.2 hrest, rfl⟩

end Checked

namespace Form

open Checked

variable {α : Type} {v : Json.Value}

theorem record_eq_valid_iff {read : Fields → Checked α} {a : α} :
    record read v = valid a ↔ ∃ fields, v = .record fields ∧ read fields = valid a := by
  cases v with
  | record fields =>
    constructor
    · intro h
      exact ⟨fields, rfl, h⟩
    · rintro ⟨fields', hfields, h⟩
      rwa [Json.Value.record.inj hfields]
  | _ =>
    constructor
    · intro h
      cases h
    · rintro ⟨fields', hfields, -⟩
      cases hfields

theorem listOf_eq_valid_iff {read : Reader α} {as : List α} :
    listOf read v = valid as ↔ ∃ items, v = .list items ∧ items.map read = as.map valid := by
  cases v with
  | list items =>
    constructor
    · intro h
      exact ⟨items, rfl, allFrom_eq_valid_iff.1 h⟩
    · rintro ⟨items', hitems, h⟩
      rw [Json.Value.list.inj hitems]
      exact allFrom_eq_valid_iff.2 h
  | _ =>
    constructor
    · intro h
      cases h
    · rintro ⟨items', hitems, -⟩
      cases hitems

variable {name : String} {read : Reader α} {fields : Fields} {a : α}

theorem required_eq_valid_iff :
    required name read fields = valid a ↔
      ∃ field, given? name fields = some field ∧ read field.2 = valid a := by
  unfold required
  cases given? name fields with
  | none =>
    constructor
    · intro h
      cases h
    · rintro ⟨field, hfield, -⟩
      cases hfield
  | some field =>
    constructor
    · intro h
      exact ⟨field, rfl, under_eq_valid_iff.1 h⟩
    · rintro ⟨field', hfield, h⟩
      rw [Option.some.inj hfield]
      exact under_eq_valid_iff.2 h

theorem withDefault_eq_valid_iff {fallback : α} :
    withDefault name fallback read fields = valid a ↔
      (given? name fields = none ∧ a = fallback) ∨
        ∃ field, given? name fields = some field ∧ read field.2 = valid a := by
  unfold withDefault
  cases given? name fields with
  | none =>
    constructor
    · intro h
      exact Or.inl ⟨rfl, (valid.inj h).symm⟩
    · rintro (⟨-, rfl⟩ | ⟨field, hfield, -⟩)
      · rfl
      · cases hfield
  | some field =>
    constructor
    · intro h
      exact Or.inr ⟨field, rfl, under_eq_valid_iff.1 h⟩
    · rintro (⟨hnone, -⟩ | ⟨field', hfield, h⟩)
      · cases hnone
      · rw [Option.some.inj hfield]
        exact under_eq_valid_iff.2 h

theorem optional_eq_valid_iff {found : Option α} :
    optional read v = valid found ↔
      (v = .null ∧ found = none) ∨ v ≠ .null ∧ ∃ a, read v = valid a ∧ found = some a := by
  cases v with
  | null =>
    constructor
    · intro h
      exact Or.inl ⟨rfl, (valid.inj h).symm⟩
    · rintro (⟨-, rfl⟩ | ⟨hnull, -⟩)
      · rfl
      · exact absurd rfl hnull
  | _ =>
    constructor
    · intro h
      obtain ⟨a, ha, rfl⟩ := map_eq_valid_iff.1 h
      exact Or.inr ⟨by simp, a, ha, rfl⟩
    · rintro (⟨hnull, -⟩ | ⟨-, a, ha, rfl⟩)
      · cases hnull
      · exact map_eq_valid_iff.2 ⟨a, ha, rfl⟩

end Form

end ExperienceCurves.Service
