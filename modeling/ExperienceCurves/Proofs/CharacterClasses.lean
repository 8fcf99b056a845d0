import ExperienceCurves.Formula.Token
import Mathlib.Data.List.Chain
import Mathlib.Data.List.TakeWhile

/-!
Classes of characters and how they lie to each other. Blanks, digits and letters are apart, so that
the first character of a lexeme tells what kind of lexeme it is.
-/
namespace ExperienceCurves.Text

namespace Ranges

/-- The ranges are listed by their first characters. -/
def Ascending (ranges : Ranges) : Prop := ranges.IsChain fun a b => a.1 ≤ b.1

instance (ranges : Ranges) : Decidable ranges.Ascending :=
  inferInstanceAs (Decidable (List.IsChain _ _))

theorem Ascending.pairwise {ranges : Ranges} (h : ranges.Ascending) :
    ranges.Pairwise fun a b => a.1 ≤ b.1 := by
  have : IsTrans (Nat × Nat) fun a b => a.1 ≤ b.1 := ⟨fun _ _ _ => Nat.le_trans⟩
  exact List.isChain_iff_pairwise.1 h

/-- Go through two ascending lists side by side: the ranges of the second one that end before a
range of the first are passed over, and the next one has to start after it. -/
def passes : Ranges → Ranges → Bool
  | [], _ => true
  | a :: first, second =>
      let rest := second.dropWhile fun b => b.2.blt a.1
      rest.head?.all (fun b => a.2.blt b.1) && passes first rest

theorem apart_of_passes {first second : Ranges} (hfirst : first.Pairwise fun a b => a.1 ≤ b.1)
    (hsecond : second.Pairwise fun a b => a.1 ≤ b.1) (h : first.passes second = true) :
    ∀ a ∈ first, ∀ b ∈ second, b.2 < a.1 ∨ a.2 < b.1 := by
  induction first generalizing second with
  | nil => exact fun a ha => nomatch ha
  | cons a₀ first ih =>
    obtain ⟨hleast, hfirst⟩ := List.pairwise_cons.1 hfirst
    simp only [passes, Bool.and_eq_true] at h
    obtain ⟨hnext, hpasses⟩ := h
    intro a ha b hb
    rw [← List.takeWhile_append_dropWhile (p := fun b => b.2.blt a₀.1) (l := second)] at hb
    rcases List.mem_append.1 hb with hb | hb
    · have hpassed := List.mem_takeWhile_imp hb
      have hends : b.2 < a₀.1 := by simpa using hpassed
      rcases List.mem_cons.1 ha with rfl | ha
      · exact Or.inl hends
      · exact Or.inl (Nat.lt_of_lt_of_le hends (hleast a ha))
    · have hrest := hsecond.sublist (List.dropWhile_sublist fun b => b.2.blt a₀.1)
      rcases List.mem_cons.1 ha with rfl | ha
      · right
        cases hcase : second.dropWhile fun b => b.2.blt a.1 with
        | nil => simp [hcase] at hb
        | cons b₀ more =>
          rw [hcase] at hb hnext hrest
          have hstarts : a.2 < b₀.1 := Nat.blt_eq.mp (by simpa using hnext)
          rcases List.mem_cons.1 hb with rfl | hb
          · exact hstarts
          · exact Nat.lt_of_lt_of_le hstarts ((List.pairwise_cons.1 hrest).1 b hb)
      · exact ih hfirst hrest hpasses a ha b hb

/-- No character is in both sets. -/
theorem covers_eq_false {first second : Ranges} (hfirst : first.Ascending)
    (hsecond : second.Ascending) (h : first.passes second = true) {c : Char}
    (hc : first.covers c = true) : second.covers c = false := by
  rw [Bool.eq_false_iff, Ne, covers_iff]
  rintro ⟨b, hb, hlow, hhigh⟩
  obtain ⟨a, ha, hlow', hhigh'⟩ := (covers_iff _ _).1 hc
  have := apart_of_passes hfirst.pairwise hsecond.pairwise h a ha b hb
  omega

end Ranges

def decimalRanges : Ranges := decimalZeros.map fun first => (first, first + 9)

theorem isDigit_iff (c : Char) :
    isDigit c = true ↔ decimalRanges.covers c = true ∨ otherDigitRanges.covers c = true := by
  have hdecimal : (decimalValue? c).isSome = true ↔ decimalRanges.covers c = true := by
    simp [decimalValue?, decimalRanges, Ranges.covers, Nat.lt_succ_iff]
  rw [isDigit, Bool.or_eq_true, hdecimal]

theorem ascending_blankRanges : blankRanges.Ascending := by decide

/-- The characters that lexemes are made of, apart from signs. -/
def solidRanges : List Ranges := [letterRanges, numeralRanges, decimalRanges, otherDigitRanges]

theorem solidRanges_pass : ∀ ranges ∈ solidRanges,
    ranges.Ascending ∧ ranges.passes blankRanges = true := by
  decide +kernel

theorem letterRanges_pass : letterRanges.passes decimalRanges = true ∧
    letterRanges.passes otherDigitRanges = true := by
  decide +kernel

theorem isDigit_eq_false_of_isLetter {c : Char} (h : isLetter c = true) : isDigit c = false := by
  have hletters := (solidRanges_pass letterRanges (by simp [solidRanges])).1
  have hdecimal := (solidRanges_pass decimalRanges (by simp [solidRanges])).1
  have hother := (solidRanges_pass otherDigitRanges (by simp [solidRanges])).1
  rw [Bool.eq_false_iff, Ne, isDigit_iff, not_or, Bool.not_eq_true, Bool.not_eq_true]
  constructor
  · exact Ranges.covers_eq_false hletters hdecimal letterRanges_pass.1 h
  · exact Ranges.covers_eq_false hletters hother letterRanges_pass.2 h

theorem isBlank_eq_false_of_covers {ranges : Ranges} (h : ranges ∈ solidRanges) {c : Char}
    (hc : ranges.covers c = true) : isBlank c = false := by
  obtain ⟨hascending, hpasses⟩ := solidRanges_pass ranges h
  exact Ranges.covers_eq_false hascending ascending_blankRanges hpasses hc

theorem isBlank_eq_false_of_isDigit {c : Char} (h : isDigit c = true) : isBlank c = false := by
  rcases (isDigit_iff c).1 h with h | h
  · exact isBlank_eq_false_of_covers (by simp [solidRanges]) h
  · exact isBlank_eq_false_of_covers (by simp [solidRanges]) h

theorem isBlank_eq_false_of_isLetterOrNumeral {c : Char} (h : isLetterOrNumeral c = true) :
    isBlank c = false := by
  simp only [isLetterOrNumeral, Bool.or_eq_true] at h
  rcases h with (hletter | hdigit) | hnumeral
  · exact isBlank_eq_false_of_covers (by simp [solidRanges]) hletter
  · exact isBlank_eq_false_of_isDigit hdigit
  · exact isBlank_eq_false_of_covers (by simp [solidRanges]) hnumeral

end ExperienceCurves.Text
