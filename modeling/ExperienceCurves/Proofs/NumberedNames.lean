import ExperienceCurves.Proofs.NumericNames

/-!
Names by counting. The numeral of a number is a name in digits, and it is read back as the number
if it is not too long. So the next name after the numerals from one to a number is the numeral of
the number after it.
-/
namespace ExperienceCurves.Editing

-- Powers of whole numbers are those of the core library, whatever else is imported.
attribute [local instance (high)] instPowNat

open Formula (Positional)

def numeral (n : ℕ) : String := toString (n : Int)

/-- The numerals from one to a number. -/
def numeralsTo (k : ℕ) : List String := (List.range k).map fun i => numeral (i + 1)

variable {n k : ℕ}

theorem toList_numeral (n : ℕ) : (numeral n).toList = Nat.toDigits 10 n := Nat.toList_repr

theorem isDigit_of_mem_numeral {c : Char} (h : c ∈ (numeral n).toList) : c.isDigit = true := by
  rw [toList_numeral] at h
  exact Nat.isDigit_of_mem_toDigits (by decide) (by decide) h

/-- A digit of the basic range stays as it is, and has a value. -/
theorem basic_digit {c : Char} (h : c.isDigit = true) :
    (Text.decimalValue? c).isSome = true ∧ Numeral.plain c = c := by
  simp only [Char.isDigit, Bool.and_eq_true, decide_eq_true_eq] at h
  have hlow : 48 ≤ c.toNat := UInt32.le_iff_toNat_le.1 h.1
  have hhigh : c.toNat ≤ 57 := UInt32.le_iff_toNat_le.1 h.2
  refine ⟨?_, if_pos (by omega)⟩
  rw [Text.decimalValue?, Option.isSome_map, List.find?_isSome]
  refine ⟨48, by decide, ?_⟩
  simp only [Bool.and_eq_true, decide_eq_true_eq]
  omega

theorem isNumeric_numeral (n : ℕ) : isNumeric (numeral n) = true := by
  refine isNumeric_iff.2 ⟨toString_natCast_ne_empty n, fun c hc => ?_⟩
  rw [Text.isDigit, (basic_digit (isDigit_of_mem_numeral hc)).1, Bool.true_or]

theorem positional_numeral (n : ℕ) : Positional (numeral n).toList :=
  fun _ hc _ => (basic_digit (isDigit_of_mem_numeral hc)).1

theorem ofDigits_numeral (n : ℕ) : Numeral.ofDigits (digitsOf (numeral n)) = n := by
  have hplain : digitsOf (numeral n) = (numeral n).toList :=
    (List.map_congr_left fun c hc => (basic_digit (isDigit_of_mem_numeral hc)).2).trans
      (List.map_id' _)
  rw [hplain, toList_numeral]
  exact Nat.ofDigitChars_toDigits (by decide) (by decide)

theorem length_numeral_le_iff : (numeral n).length ≤ Numeral.longest ↔ n < 10 ^ Numeral.longest := by
  rw [← not_iff_not, Nat.not_le, Nat.not_lt]
  exact longest_lt_length_iff

/-- A numeral that is not too long is read back. -/
theorem wholeOfText_numeral (h : n < 10 ^ Numeral.longest) :
    Datum.wholeOfText (numeral n) = .ok (n : Int) :=
  (wholeOfText_eq_ok_iff (isNumeric_numeral n)).2
    ⟨positional_numeral n, length_numeral_le_iff.2 h, by rw [ofDigits_numeral]⟩

theorem mem_numeralsTo {id : String} :
    id ∈ numeralsTo k ↔ ∃ n, 1 ≤ n ∧ n ≤ k ∧ id = numeral n := by
  unfold numeralsTo
  rw [List.mem_map]
  constructor
  · rintro ⟨i, hi, rfl⟩
    exact ⟨i + 1, by omega, by rw [List.mem_range] at hi; omega, rfl⟩
  · rintro ⟨n, hlow, hhigh, rfl⟩
    exact ⟨n - 1, List.mem_range.2 (by omega), by rw [Nat.sub_add_cancel hlow]⟩

theorem numeralsTo_succ (k : ℕ) : numeralsTo (k + 1) = numeralsTo k ++ [numeral (k + 1)] := by
  unfold numeralsTo
  rw [List.range_succ, List.map_append]
  rfl

/-- Counting ends at the greatest numeral that there is. -/
theorem exhausted_numeralsTo_iff : Exhausted (numeralsTo k) ↔ 10 ^ Numeral.longest ≤ k + 1 := by
  generalize hlimit : 10 ^ Numeral.longest = limit
  have hlarge : 10 ≤ limit := hlimit ▸ Nat.le_self_pow (by decide) 10
  constructor
  · rintro ⟨id, hid, -, hreason⟩
    obtain ⟨n, hlow, hhigh, rfl⟩ := mem_numeralsTo.1 hid
    rw [ofDigits_numeral, hlimit] at hreason
    rcases hreason with hbad | hlong | hgreatest
    · exact absurd (positional_numeral n) hbad
    · rw [← Nat.not_le, length_numeral_le_iff, hlimit] at hlong
      omega
    · omega
  · intro h
    refine ⟨numeral k, mem_numeralsTo.2 ⟨k, by omega, Nat.le_refl k, rfl⟩, isNumeric_numeral k,
      Or.inr (Or.inr ?_)⟩
    rw [ofDigits_numeral, hlimit]
    exact h

/-- The greatest of the numbers that the numerals up to a number are read as is that number. -/
theorem foldl_max_of_numerals {numbers : List Int} (h : k < 10 ^ Numeral.longest)
    (hall : ∀ id ∈ numeralsTo k, ∃ m ∈ numbers, Datum.wholeOfText id = .ok m)
    (hfrom : ∀ m ∈ numbers, ∃ id ∈ numeralsTo k, Datum.wholeOfText id = .ok m) :
    numbers.foldl max 0 = (k : Int) := by
  have hread {n : ℕ} {m : Int} (hn : n ≤ k) (hm : Datum.wholeOfText (numeral n) = .ok m) : n = m :=
    Except.ok.inj ((wholeOfText_numeral (by omega)).symm.trans hm)
  apply Int.le_antisymm
  · by_contra hmore
    rcases (le_foldl_max_iff numbers 0).1 (show (k : Int) + 1 ≤ numbers.foldl max 0 by omega)
      with hzero | ⟨m, hm, hlarge⟩
    · omega
    · obtain ⟨id, hid, hvalue⟩ := hfrom m hm
      obtain ⟨n, -, hn, rfl⟩ := mem_numeralsTo.1 hid
      have hnumber := hread hn hvalue
      omega
  · rw [le_foldl_max_iff]
    by_cases hzero : k = 0
    · exact Or.inl (by omega)
    · obtain ⟨m, hm, hvalue⟩ := hall _ (mem_numeralsTo.2 ⟨k, by omega, Nat.le_refl k, rfl⟩)
      exact Or.inr ⟨m, hm, Int.le_of_eq (hread (Nat.le_refl k) hvalue)⟩

/-- After the numerals up to a number the next one is free. -/
theorem nextId_numeralsTo (h : k + 1 < 10 ^ Numeral.longest) :
    nextId (numeralsTo k) = .ok (numeral (k + 1)) := by
  have hfilter : (numeralsTo k).filter isNumeric = numeralsTo k :=
    List.filter_eq_self.2 fun id hid => by
      obtain ⟨n, -, -, rfl⟩ := mem_numeralsTo.1 hid
      exact isNumeric_numeral n
  have hshort : ¬(!Numeral.isWritable ((k + 1 : ℕ) : Int)) = true := by
    rw [Bool.not_eq_true', Bool.not_eq_false]
    exact Numeral.isWritable_iff.2 h
  have hfree : numeral (k + 1) ∉ numeralsTo k := by
    intro hused
    obtain ⟨n, -, hn, heq⟩ := mem_numeralsTo.1 hused
    have := toString_natCast_inj heq
    omega
  rcases mapM_cases Datum.wholeOfText (numeralsTo k) with
    ⟨numbers, hnumbers, hall, hfrom⟩ | ⟨id, hid, failure, hfailure, -⟩
  · have hgreatest := foldl_max_of_numerals (by omega) hall hfrom
    unfold nextId
    rw [hfilter, hnumbers]
    simp only [bind, Except.bind, hgreatest]
    rw [show (k : Int) + 1 = ((k + 1 : ℕ) : Int) from rfl, if_neg hshort, List.range_succ_eq_map,
      List.map_cons, List.find?_cons_of_pos]
    · rfl
    · exact decide_eq_true hfree
  · obtain ⟨n, -, hn, rfl⟩ := mem_numeralsTo.1 hid
    cases (wholeOfText_numeral (by omega)).symm.trans hfailure

end ExperienceCurves.Editing
