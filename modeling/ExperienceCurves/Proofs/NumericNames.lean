import ExperienceCurves.Proofs.Literals
import ExperienceCurves.Proofs.Names

/-!
Names in digits. The next free name is made from the names that consist of digits, so each of them
has to be the numeral of a whole number that is not too long. Otherwise, or beside the greatest
numeral there is, no name can be made.
-/
namespace ExperienceCurves

-- Powers of whole numbers are those of the core library, whatever else is imported.
attribute [local instance (high)] instPowNat

open Formula (Positional IsSolid IsDecimalCharacter)

theorem otherDigitRanges_apart : ∀ digits ∈ Text.otherDigitRanges,
    178 ≤ digits.1 ∧ ∀ blanks ∈ Text.blankRanges, blanks.2 < digits.1 ∨ digits.2 < blanks.1 := by
  decide

/-- A digit without a decimal value stays as it is, far from everything that numerals consist of. -/
theorem plain_eq_self {c : Char} (hdigit : Text.isDigit c = true)
    (hvalue : Text.decimalValue? c = none) : Numeral.plain c = c ∧ 178 ≤ c.toNat := by
  rw [Text.isDigit, hvalue, Option.isSome_none, Bool.false_or, Text.Ranges.covers_iff] at hdigit
  obtain ⟨digits, hdigits, hfrom, hto⟩ := hdigit
  obtain ⟨hbeyond, hapart⟩ := otherDigitRanges_apart digits hdigits
  have hblank : ¬Text.isBlank c = true := by
    intro hblank
    obtain ⟨blanks, hblanks, hfirst, hlast⟩ := (Text.Ranges.covers_iff _ _).1 hblank
    have hseparate := hapart blanks hblanks
    omega
  refine ⟨?_, by omega⟩
  rw [Numeral.plain, if_neg (by omega), if_neg hblank, hvalue]

theorem not_isDigit_of_le {c : Char} (h : 178 ≤ c.toNat) : c.isDigit = false := by
  rw [Bool.eq_false_iff]
  intro hdigit
  simp only [Char.isDigit, Bool.and_eq_true, decide_eq_true_eq] at hdigit
  have hlast : c.toNat ≤ 57 := UInt32.le_iff_toNat_le.1 hdigit.2
  omega

theorem isSolid_of_le {c : Char} (h : 178 ≤ c.toNat) : IsSolid c := by
  refine ⟨?_, ?_, ?_, ?_⟩
  · have hspace : c ≠ ' ' := by
      rintro rfl
      exact absurd h (by decide)
    simp only [Text.isPlainBlank, Bool.or_eq_false_iff, beq_eq_false_iff_ne, Bool.and_eq_false_iff,
      decide_eq_false_iff_not]
    exact ⟨hspace, Or.inr (by omega)⟩
  all_goals
    rintro rfl
    exact absurd h (by decide)

/-- Just the digits with a decimal value are read as digits, and none is passed over. -/
theorem plain_digit {c : Char} (h : Text.isDigit c = true) :
    IsSolid (Numeral.plain c) ∧ (Numeral.plain c).isDigit = (Text.decimalValue? c).isSome := by
  cases hvalue : Text.decimalValue? c with
  | some value =>
    have hdigit := Formula.isDigit_plain (c := c) (by rw [hvalue]; rfl)
    exact ⟨IsDecimalCharacter.isSolid (Or.inl hdigit), hdigit⟩
  | none =>
    obtain ⟨hplain, hbeyond⟩ := plain_eq_self h hvalue
    rw [hplain]
    exact ⟨isSolid_of_le hbeyond, not_isDigit_of_le hbeyond⟩

namespace Editing

/-- The digits of a name in the basic range, as far as they have a value. -/
def digitsOf (id : String) : List Char := id.toList.map Numeral.plain

variable {id : String}

theorem isNumeric_iff : isNumeric id = true ↔ id ≠ "" ∧ ∀ c ∈ id.toList, Text.isDigit c = true := by
  simp [isNumeric]

theorem isSolid_digitsOf (h : isNumeric id = true) : ∀ c ∈ digitsOf id, IsSolid c :=
  List.forall_mem_map.2 fun c hc => (plain_digit ((isNumeric_iff.1 h).2 c hc)).1

theorem digitsOf_ne_nil (h : isNumeric id = true) : digitsOf id ≠ [] := by
  intro hempty
  exact (isNumeric_iff.1 h).1 (String.toList_eq_nil_iff.1 (List.map_eq_nil_iff.1 hempty))

theorem positional_iff (h : isNumeric id = true) :
    Positional id.toList ↔ (digitsOf id).all Char.isDigit = true := by
  rw [List.all_eq_true, digitsOf, List.forall_mem_map]
  refine forall₂_congr fun c hc => ?_
  have hdigit := (isNumeric_iff.1 h).2 c hc
  rw [(plain_digit hdigit).2]
  exact ⟨fun hvalue => hvalue hdigit, fun hvalue _ => hvalue⟩

theorem int?_eq (h : isNumeric id = true) :
    Numeral.int? id = if (digitsOf id).all Char.isDigit then
      some (Numeral.ofDigits (digitsOf id) : Int) else none := by
  have hsolid := isSolid_digitsOf h
  have hstrip : Numeral.strip (id.toList.map Numeral.plain) = digitsOf id :=
    Formula.strip_eq_self hsolid
  unfold Numeral.int?
  rw [hstrip, Formula.sign_eq_self hsolid]
  simp [Numeral.join, Formula.joinFrom_eq_self false hsolid, digitsOf_ne_nil h]

theorem leadingDigits_eq (h : isNumeric id = true) (hall : (digitsOf id).all Char.isDigit = true) :
    Numeral.leadingDigits id = digitsOf id := by
  have hsolid := isSolid_digitsOf h
  have htake : (digitsOf id).takeWhile (fun c => c.isDigit || c == '_') = digitsOf id :=
    List.takeWhile_eq_self_iff.2 fun c hc => by rw [List.all_eq_true.1 hall c hc, Bool.true_or]
  have hstrip : Numeral.strip (id.toList.map Numeral.plain) = digitsOf id :=
    Formula.strip_eq_self hsolid
  unfold Numeral.leadingDigits
  rw [hstrip, Formula.sign_eq_self hsolid]
  dsimp only
  rw [htake, Numeral.join, Formula.joinFrom_eq_self false hsolid]
  rfl

/-- A name in digits is a numeral if all its digits have a value and it is not too long. -/
theorem wholeOfText_eq_ok_iff (h : isNumeric id = true) {n : Int} :
    Datum.wholeOfText id = .ok n ↔ Positional id.toList ∧ id.length ≤ Numeral.longest ∧
      n = Numeral.ofDigits (digitsOf id) := by
  rw [positional_iff h]
  unfold Datum.wholeOfText
  rw [int?_eq h]
  by_cases hall : (digitsOf id).all Char.isDigit = true
  · have hlength : (digitsOf id).length = id.length := by
      rw [digitsOf, List.length_map, String.length_toList]
    rw [leadingDigits_eq h hall, if_pos hall]
    dsimp only
    rw [hlength]
    split
    · next hlong => simp [hall, Nat.not_le.2 hlong]
    · next hshort => simp [hall, Nat.not_lt.1 hshort, eq_comm]
  · rw [if_neg hall]
    dsimp only
    split <;> simp [hall]

theorem wholeOfText_error {failure : Failure} (h : Datum.wholeOfText id = .error failure) :
    ∃ refusal, failure = .refused refusal := by
  unfold Datum.wholeOfText at h
  dsimp only at h
  split at h
  · exact ⟨_, (Except.error.inj h).symm⟩
  · split at h
    · cases h
    · exact ⟨_, (Except.error.inj h).symm⟩

theorem le_foldl_max_iff {bound : Int} (numbers : List Int) (least : Int) :
    bound ≤ numbers.foldl max least ↔ bound ≤ least ∨ ∃ n ∈ numbers, bound ≤ n := by
  induction numbers generalizing least with
  | nil => simp
  | cons n rest ih =>
    simp only [List.foldl_cons, ih, List.mem_cons, exists_eq_or_imp, ← or_assoc]
    exact or_congr_left (by omega)

/-- Reading all of a list gives what is read from its elements, or fails as one of them does. -/
theorem mapM_cases {α β ε : Type} (f : α → Except ε β) (as : List α) :
    (∃ bs, as.mapM f = .ok bs ∧ (∀ a ∈ as, ∃ b ∈ bs, f a = .ok b) ∧
      ∀ b ∈ bs, ∃ a ∈ as, f a = .ok b) ∨
    ∃ a ∈ as, ∃ failure, f a = .error failure ∧ as.mapM f = .error failure := by
  induction as with
  | nil => exact Or.inl ⟨[], rfl, by simp, by simp⟩
  | cons a rest ih =>
    rw [List.mapM_cons]
    cases ha : f a with
    | error failure => exact Or.inr ⟨a, List.mem_cons_self, failure, ha, rfl⟩
    | ok b =>
      rcases ih with ⟨bs, hbs, hread, hfrom⟩ | ⟨a', ha', failure, hfailure, hrest⟩
      · refine Or.inl ⟨b :: bs, by rw [hbs]; rfl, ?_, ?_⟩
        · simpa [ha] using fun a ha => Or.inr (hread a ha)
        · simpa [ha] using fun b hb => Or.inr (hfrom b hb)
      · exact Or.inr ⟨a', List.mem_cons_of_mem _ ha', failure, hfailure, by rw [hrest]; rfl⟩

/-- Beside these names no new one can be made: one of them is in digits that have no value or are
too many, or it is the greatest numeral there is. -/
def Exhausted (ids : List String) : Prop :=
  ∃ id ∈ ids, isNumeric id = true ∧ (¬Positional id.toList ∨ Numeral.longest < id.length ∨
    10 ^ Numeral.longest ≤ Numeral.ofDigits (digitsOf id) + 1)

theorem longest_lt_length_iff {n : Nat} :
    Numeral.longest < (toString (n : Int)).length ↔ 10 ^ Numeral.longest ≤ n := by
  rw [← not_iff_not, Nat.not_lt, Nat.not_le]
  exact Nat.length_repr_le_iff (by decide)

theorem nextId_of_mapM {ids : List String} {numbers : List Int}
    (h : (ids.filter isNumeric).mapM Datum.wholeOfText = .ok numbers) :
    (∃ failure, nextId ids = .error failure) ↔
      10 ^ Numeral.longest ≤ (numbers.foldl max 0 + 1).toNat := by
  obtain ⟨first, hfirst⟩ : ∃ first : Nat, numbers.foldl max 0 + 1 = (first : Int) := by
    have hleast := le_foldl_max numbers 0
    exact ⟨(numbers.foldl max 0 + 1).toNat, by omega⟩
  have hwritable : (!Numeral.isWritable first) = true ↔ 10 ^ Numeral.longest ≤ first := by
    rw [Bool.not_eq_true', ← Bool.not_eq_true, Numeral.isWritable_iff, Nat.not_lt, Int.natAbs_natCast]
  rw [hfirst, Int.toNat_natCast, nextId, h]
  simp only [bind, Except.bind, hfirst, hwritable]
  split
  · next hlong => exact ⟨fun _ => hlong, fun _ => ⟨_, rfl⟩⟩
  · next hshort => exact ⟨fun ⟨_, h⟩ => (nomatch h), fun hlong => absurd hlong hshort⟩

theorem nextId_fails_iff (ids : List String) :
    (∃ failure, nextId ids = .error failure) ↔ Exhausted ids := by
  rcases mapM_cases Datum.wholeOfText (ids.filter isNumeric) with
    ⟨numbers, hnumbers, hread, hfrom⟩ | ⟨id, hid, failure, hfailure, herror⟩
  · have hvalue {id : String} (hid : id ∈ ids) (hnumeric : isNumeric id = true) :
        Positional id.toList ∧ id.length ≤ Numeral.longest ∧
          (Numeral.ofDigits (digitsOf id) : Int) ∈ numbers := by
      obtain ⟨n, hn, hread⟩ := hread id (List.mem_filter.2 ⟨hid, hnumeric⟩)
      obtain ⟨hpositional, hshort, rfl⟩ := (wholeOfText_eq_ok_iff hnumeric).1 hread
      exact ⟨hpositional, hshort, hn⟩
    have hlarge : 10 ≤ 10 ^ Numeral.longest := Nat.le_self_pow (by decide) 10
    rw [nextId_of_mapM hnumbers]
    generalize hlimit : 10 ^ Numeral.longest = limit at hlarge
    constructor
    · intro h
      have hreached : (limit : Int) - 1 ≤ numbers.foldl max 0 := by omega
      rcases (le_foldl_max_iff numbers 0).1 hreached with hzero | ⟨n, hn, hn'⟩
      · omega
      · obtain ⟨id, hid, hread⟩ := hfrom n hn
        obtain ⟨hid, hnumeric⟩ := List.mem_filter.1 hid
        obtain ⟨-, -, rfl⟩ := (wholeOfText_eq_ok_iff hnumeric).1 hread
        exact ⟨id, hid, hnumeric, Or.inr (Or.inr (by omega))⟩
    · rintro ⟨id, hid, hnumeric, hbad | hlong | hgreatest⟩
      · exact absurd (hvalue hid hnumeric).1 hbad
      · exact absurd (hvalue hid hnumeric).2.1 (Nat.not_le.2 hlong)
      · have hreached : (limit : Int) - 1 ≤ numbers.foldl max 0 :=
          (le_foldl_max_iff numbers 0).2 (Or.inr ⟨_, (hvalue hid hnumeric).2.2, by omega⟩)
        omega
  · obtain ⟨hid, hnumeric⟩ := List.mem_filter.1 hid
    have hbad : ¬Positional id.toList ∨ Numeral.longest < id.length := by
      by_contra hgood
      rw [not_or, not_not, Nat.not_lt] at hgood
      have hread := (wholeOfText_eq_ok_iff hnumeric).2 ⟨hgood.1, hgood.2, rfl⟩
      cases hread.symm.trans hfailure
    refine ⟨fun _ => ⟨id, hid, hnumeric, or_assoc.1 (Or.inl hbad)⟩, fun _ => ⟨failure, ?_⟩⟩
    rw [nextId, herror]
    rfl

theorem nextId_succeeds_iff (ids : List String) :
    (∃ id, nextId ids = .ok id) ↔ ¬Exhausted ids := by
  rw [← nextId_fails_iff]
  cases nextId ids with
  | error failure => simp
  | ok id => simp

theorem nextId_error {ids : List String} {failure : Failure} (h : nextId ids = .error failure) :
    ∃ refusal, failure = .refused refusal := by
  rcases Outcome.bind_eq_error_iff.1 h with h | ⟨numbers, -, h⟩
  · rcases mapM_cases Datum.wholeOfText (ids.filter isNumeric) with
      ⟨numbers, hnumbers, -⟩ | ⟨id, -, failure', hfailure, herror⟩
    · cases hnumbers.symm.trans h
    · obtain rfl := Except.error.inj (herror.symm.trans h)
      exact wholeOfText_error hfailure
  · dsimp only at h
    split at h
    · exact ⟨_, (Except.error.inj h).symm⟩
    · cases h

end Editing

end ExperienceCurves
