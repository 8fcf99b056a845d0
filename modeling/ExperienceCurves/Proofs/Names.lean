import ExperienceCurves.Editing
import Mathlib.Data.List.Nodup

/-!
Names of segments. There are more candidates for a new name than names in use, so one of them is
free, and a segment that is appended or renamed has a name of its own.
-/
namespace ExperienceCurves.Editing

theorem toString_natCast_inj {m n : ℕ} (h : toString (m : Int) = toString (n : Int)) : m = n := by
  have hdigits : Nat.toDigits 10 m = Nat.toDigits 10 n := by
    rw [← Nat.toList_repr, ← Nat.toList_repr]
    exact congrArg String.toList h
  have hvalues := congrArg (fun digits => Nat.ofDigitChars 10 digits 0) hdigits
  simpa only [Nat.ofDigitChars_toDigits (show 1 < 10 by decide) (show 10 ≤ 10 by decide)]
    using hvalues

theorem toString_natCast_ne_empty (n : ℕ) : toString (n : Int) ≠ "" := by
  intro h
  have hdigits : Nat.toDigits 10 n = [] := by
    rw [← Nat.toList_repr]
    exact congrArg String.toList h
  exact Nat.toDigits_ne_nil hdigits

theorem le_foldl_max (numbers : List Int) (least : Int) : least ≤ numbers.foldl max least := by
  induction numbers generalizing least with
  | nil => exact Int.le_refl least
  | cons n rest ih => exact Int.le_trans (Int.le_max_left least n) (ih (max least n))

/-- One more numeral than there are names, all of them different: one is no name. -/
theorem exists_unused (ids : List String) (first : ℕ) :
    ∃ i ∈ List.range (ids.length + 1), toString ((first : Int) + (i : ℕ)) ∉ ids := by
  by_contra hnone
  let candidates := (List.range (ids.length + 1)).map fun (i : ℕ) => toString ((first : Int) + i)
  have hsubset : candidates ⊆ ids := by
    intro candidate hcandidate
    obtain ⟨i, hi, rfl⟩ := List.mem_map.1 hcandidate
    by_contra hunused
    exact hnone ⟨i, hi, hunused⟩
  have hnodup : candidates.Nodup := by
    apply List.Nodup.map
    · intro i j hij
      have hsame : first + i = first + j := toString_natCast_inj hij
      omega
    · exact List.nodup_range
  have hlength := hnodup.length_le_of_subset hsubset
  simp only [candidates, List.length_map, List.length_range] at hlength
  omega

/-- The next name is a numeral that is not in use. -/
theorem nextId_spec {ids : List String} {id : String} (h : nextId ids = .ok id) :
    id ∉ ids ∧ ∃ n : ℕ, id = toString (n : Int) := by
  obtain ⟨numbers, -, h⟩ := Outcome.bind_eq_ok_iff.1 h
  obtain ⟨first, hfirst⟩ : ∃ first : ℕ, numbers.foldl max 0 + 1 = (first : Int) := by
    have hleast := le_foldl_max numbers 0
    exact ⟨(numbers.foldl max 0 + 1).toNat, by omega⟩
  dsimp only at h
  rw [hfirst] at h
  split at h
  · cases h
  · have hid := Except.ok.inj h
    obtain ⟨i, hi, hunused⟩ := exists_unused ids first
    cases hfind : ((List.range (ids.length + 1)).map fun (i : ℕ) =>
        toString ((first : Int) + i)).find? fun candidate => candidate ∉ ids with
    | none =>
      have hused := List.find?_eq_none.1 hfind _ (List.mem_map_of_mem hi)
      exact absurd (decide_eq_true hunused) hused
    | some found =>
      rw [hfind] at hid
      obtain rfl : found = id := hid
      have hfree := List.find?_some hfind
      obtain ⟨j, -, rfl⟩ := List.mem_map.1 (List.mem_of_find?_eq_some hfind)
      exact ⟨of_decide_eq_true hfree, first + j, rfl⟩

theorem nextId_ne_empty {ids : List String} {id : String} (h : nextId ids = .ok id) : id ≠ "" := by
  obtain ⟨-, n, rfl⟩ := nextId_spec h
  exact toString_natCast_ne_empty n

section Spanned

variable {α β : Type} [Spanned α] [Spanned β]

theorem idOf_withRange (segment : α) (startLevel endLevel : Number) :
    idOf (withRange segment startLevel endLevel) = idOf segment := by
  rw [idOf, withRange, Spanned.span_withSpan]
  rfl

theorem idOf_withId (segment : α) (id : String) : idOf (withId segment id) = id := by
  rw [idOf, withId, Spanned.span_withSpan]

/-- A segment keeps its name if it is free, and gets the next free one otherwise. -/
theorem renamed_spec {segments : List α} {segment result : β}
    (h : renamed segments segment = .ok result) :
    idOf result ∉ segments.map idOf ∧
      (result = segment ∨
        ∃ id, nextId (segments.map idOf) = .ok id ∧ result = withId segment id) := by
  unfold renamed at h
  split at h
  · obtain ⟨id, hid, h⟩ := Outcome.bind_eq_ok_iff.1 h
    obtain rfl := Except.ok.inj h
    refine ⟨?_, Or.inr ⟨id, hid, rfl⟩⟩
    rw [idOf_withId]
    exact (nextId_spec hid).1
  · next hfree =>
    obtain rfl := Except.ok.inj h
    exact ⟨hfree, Or.inl rfl⟩

end Spanned

end ExperienceCurves.Editing
