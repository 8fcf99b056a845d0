/-!
Exact rounding of quotients of whole numbers, and whole square roots. Both work on unbounded
numbers, so every later rounding happens once and from the exact value.
-/
namespace ExperienceCurves.Rounding

/-- The whole number nearest to `num / den`; a tie goes to the even neighbour. -/
def halfEven (num den : Nat) : Nat :=
  let quotient := num / den
  let twice := 2 * (num % den)
  if twice < den ∨ (twice = den ∧ quotient % 2 = 0) then quotient else quotient + 1

theorem halfEven_mul_right (quotient den : Nat) (h : 0 < den) :
    halfEven (quotient * den) den = quotient := by
  simp [halfEven, Nat.mul_div_cancel _ h, h]

theorem halfEven_bounds (num den : Nat) :
    num / den ≤ halfEven num den ∧ halfEven num den ≤ num / den + 1 := by
  unfold halfEven
  dsimp only
  split <;> omega

/-- The largest whole number whose square is at most `n`. -/
def squareRoot (n : Nat) : Nat :=
  if n = 0 then 0
  else
    let doubled := 2 * squareRoot (n / 4)
    if (doubled + 1) * (doubled + 1) ≤ n then doubled + 1 else doubled
termination_by n

end ExperienceCurves.Rounding
