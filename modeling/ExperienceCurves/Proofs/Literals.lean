import ExperienceCurves.Proofs.Reading
import Mathlib.Data.List.TakeWhile

/-!
Literals of formulas. The scanner takes any digit into a literal, also digits that have no place in
a numeral. Where every digit of a text has a decimal value, all its literals are numerals, and the
reading of its tokens can only fail by a mistake.
-/
namespace ExperienceCurves.Formula

/-- Every digit among the characters has a value in positional notation. -/
def Positional (text : List Char) : Prop :=
  ∀ c ∈ text, Text.isDigit c = true → (Text.decimalValue? c).isSome

instance (text : List Char) : Decidable (Positional text) :=
  List.decidableBAll (fun c => Text.isDigit c = true → (Text.decimalValue? c).isSome) text

/-- Digits with at most one point among them, and at least one digit. -/
def IsLiteral (literal : List Char) : Prop :=
  ∃ whole fraction : List Char, (literal = whole ∧ fraction = [] ∨ literal = whole ++ '.' :: fraction) ∧
    whole ++ fraction ≠ [] ∧ ∀ c ∈ whole ++ fraction, Text.isDigit c = true

/-- The runs of decimal digits contain no blanks. -/
theorem blankRanges_apart : ∀ first ∈ Text.decimalZeros, ∀ blanks ∈ Text.blankRanges,
    blanks.2 < first ∨ first + 10 ≤ blanks.1 := by decide

/-- Beyond the basic range only the first run of decimal digits is missing. -/
theorem decimalZeros_basic : ∀ first ∈ Text.decimalZeros, first = 48 ∨ 127 ≤ first := by decide

theorem exists_decimalZero {c : Char} (h : (Text.decimalValue? c).isSome) :
    ∃ first ∈ Text.decimalZeros, first ≤ c.toNat ∧ c.toNat < first + 10 ∧
      Text.decimalValue? c = some (c.toNat - first) := by
  obtain ⟨value, hvalue⟩ := Option.isSome_iff_exists.1 h
  obtain ⟨first, hfind, rfl⟩ := Option.map_eq_some_iff.1 hvalue
  have hrun := List.find?_some hfind
  simp only [Bool.and_eq_true, decide_eq_true_eq] at hrun
  exact ⟨first, List.mem_of_find?_eq_some hfind, hrun.1, hrun.2, hvalue⟩

theorem isDigit_ofNat : ∀ value < 10, (Char.ofNat (48 + value)).isDigit = true := by decide

/-- A decimal digit of any script is read as one of the basic range. -/
theorem isDigit_plain {c : Char} (h : (Text.decimalValue? c).isSome) :
    (Numeral.plain c).isDigit = true := by
  obtain ⟨first, hfirst, hlow, hhigh, hvalue⟩ := exists_decimalZero h
  unfold Numeral.plain
  split
  · next hbasic =>
    rcases decimalZeros_basic first hfirst with rfl | hbeyond
    · have hdigit := isDigit_ofNat (c.toNat - 48) (by omega)
      rwa [Nat.add_sub_cancel' hlow, Char.ofNat_toNat] at hdigit
    · omega
  · have hblank : ¬Text.isBlank c = true := by
      intro hblank
      obtain ⟨blanks, hblanks, hfrom, hto⟩ := (Text.Ranges.covers_iff _ _).1 hblank
      have hapart := blankRanges_apart first hfirst blanks hblanks
      omega
    rw [if_neg hblank, hvalue]
    exact isDigit_ofNat _ (by omega)

/-- A character of a written decimal: a digit of the basic range or a point. -/
def IsDecimalCharacter (c : Char) : Prop := c.isDigit = true ∨ c = '.'

theorem IsDecimalCharacter.not_blank {c : Char} (h : IsDecimalCharacter c) :
    Text.isPlainBlank c = false := by
  rcases h with h | rfl
  · have hlow : 48 ≤ c.toNat := by
      simp only [Char.isDigit, Bool.and_eq_true, decide_eq_true_eq] at h
      exact UInt32.le_iff_toNat_le.1 h.1
    have hspace : c ≠ ' ' := by
      rintro rfl
      exact absurd hlow (by decide)
    simp only [Text.isPlainBlank, Bool.or_eq_false_iff, beq_eq_false_iff_ne, Bool.and_eq_false_iff,
      decide_eq_false_iff_not]
    exact ⟨hspace, Or.inr (by omega)⟩
  · decide

/-- A character that no reader of numerals passes over: no blank, no underscore and no sign. -/
structure IsSolid (c : Char) : Prop where
  not_blank : Text.isPlainBlank c = false
  ne_underscore : c ≠ '_'
  ne_minus : c ≠ '-'
  ne_plus : c ≠ '+'

theorem IsDecimalCharacter.isSolid {c : Char} (h : IsDecimalCharacter c) : IsSolid c := by
  refine ⟨h.not_blank, ?_, ?_, ?_⟩ <;> rintro rfl <;> rcases h with h | h <;> revert h <;> decide

theorem dropWhile_isPlainBlank {text : List Char} (h : ∀ c ∈ text, IsSolid c) :
    text.dropWhile Text.isPlainBlank = text := by
  cases text with
  | nil => rfl
  | cons c rest => rw [List.dropWhile_cons_of_neg]; rw [(h c List.mem_cons_self).not_blank]; decide

theorem strip_eq_self {text : List Char} (h : ∀ c ∈ text, IsSolid c) :
    Numeral.strip text = text := by
  have hreverse : ∀ c ∈ text.reverse, IsSolid c := fun c hc => h c (List.mem_reverse.1 hc)
  rw [Numeral.strip, dropWhile_isPlainBlank h, dropWhile_isPlainBlank hreverse, List.reverse_reverse]

theorem joinFrom_eq_self {text : List Char} (before : Bool) (h : ∀ c ∈ text, IsSolid c) :
    Numeral.joinFrom before text = some text := by
  induction text generalizing before with
  | nil => rfl
  | cons c rest ih =>
    have hunder : c ≠ '_' := (h c List.mem_cons_self).ne_underscore
    have hrest := ih c.isDigit fun c hc => h c (List.mem_cons_of_mem _ hc)
    unfold Numeral.joinFrom
    split
    · next heq => cases heq
    · next heq => exact absurd (List.cons.inj heq).1 hunder
    · next heq => exact absurd (List.cons.inj heq).1 hunder
    · next heq =>
      obtain ⟨rfl, rfl⟩ := List.cons.inj heq
      rw [hrest]
      rfl

theorem sign_eq_self {text : List Char} (h : ∀ c ∈ text, IsSolid c) :
    Numeral.sign text = (false, text) := by
  unfold Numeral.sign
  split
  · exact absurd rfl (h '-' List.mem_cons_self).ne_minus
  · exact absurd rfl (h '+' List.mem_cons_self).ne_plus
  · rfl

/-- Digits with a point at most are a decimal numeral, of which nothing is left over. -/
theorem decimal?_isSome {text whole fraction : List Char}
    (htext : text = whole ∧ fraction = [] ∨ text = whole ++ '.' :: fraction)
    (hsome : whole ++ fraction ≠ []) (hdigits : ∀ c ∈ whole ++ fraction, c.isDigit = true) :
    (Numeral.decimal? false text).isSome := by
  have hwhole : ∀ c ∈ whole, c.isDigit = true := fun c hc => hdigits c (List.mem_append_left _ hc)
  have hfraction : ∀ c ∈ fraction, c.isDigit = true := fun c hc =>
    hdigits c (List.mem_append_right _ hc)
  have hpoint : Char.isDigit '.' = false := by decide
  rcases htext with ⟨rfl, rfl⟩ | rfl
  · have htake : text.takeWhile Char.isDigit = text := List.takeWhile_eq_self_iff.2 hwhole
    have hdrop : text.dropWhile Char.isDigit = [] := List.dropWhile_eq_nil_iff.2 hwhole
    rw [List.append_nil] at hsome
    simp [Numeral.decimal?, htake, hdrop, hsome, Numeral.exponent?]
  · have htake : (whole ++ '.' :: fraction).takeWhile Char.isDigit = whole := by
      rw [List.takeWhile_append_of_pos hwhole, List.takeWhile_cons_of_neg (by simp [hpoint]),
        List.append_nil]
    have hdrop : (whole ++ '.' :: fraction).dropWhile Char.isDigit = '.' :: fraction := by
      rw [List.dropWhile_append_of_pos hwhole, List.dropWhile_cons_of_neg (by simp [hpoint])]
    have htake' : fraction.takeWhile Char.isDigit = fraction :=
      List.takeWhile_eq_self_iff.2 hfraction
    have hdrop' : fraction.dropWhile Char.isDigit = [] := List.dropWhile_eq_nil_iff.2 hfraction
    have hnone : (whole.isEmpty && fraction.isEmpty) = false := by
      rw [Bool.eq_false_iff, Ne, Bool.and_eq_true, List.isEmpty_iff, List.isEmpty_iff]
      rintro ⟨rfl, rfl⟩
      exact hsome rfl
    simp [Numeral.decimal?, htake, hdrop, htake', hdrop', hnone, Numeral.exponent?]

/-- A literal whose digits all have a decimal value is a numeral. -/
theorem binary64?_isSome {literal : List Char} (h : IsLiteral literal)
    (hpositional : Positional literal) : (Numeral.binary64? (String.ofList literal)).isSome := by
  obtain ⟨whole, fraction, hshape, hsome, hdigits⟩ := h
  have hplain : ∀ c ∈ (whole ++ fraction).map Numeral.plain, c.isDigit = true := by
    intro c hc
    obtain ⟨d, hd, rfl⟩ := List.mem_map.1 hc
    have hmem : d ∈ literal := by
      rcases hshape with ⟨rfl, rfl⟩ | rfl
      · rwa [List.append_nil] at hd
      · rcases List.mem_append.1 hd with hd | hd
        · exact List.mem_append_left _ hd
        · exact List.mem_append_right _ (List.mem_cons_of_mem _ hd)
    exact isDigit_plain (hpositional d hmem (hdigits d hd))
  rw [List.map_append] at hplain
  have htext : literal.map Numeral.plain = whole.map Numeral.plain ∧ fraction.map Numeral.plain = [] ∨
      literal.map Numeral.plain = whole.map Numeral.plain ++ '.' :: fraction.map Numeral.plain := by
    rcases hshape with ⟨rfl, rfl⟩ | rfl
    · exact Or.inl ⟨rfl, rfl⟩
    · refine Or.inr ?_
      rw [List.map_append, List.map_cons]
      rfl
  have hcharacters : ∀ c ∈ literal.map Numeral.plain, IsDecimalCharacter c := by
    intro c hc
    rcases htext with ⟨htext, -⟩ | htext
    · exact Or.inl (hplain c (List.mem_append_left _ (htext ▸ hc)))
    · rw [htext] at hc
      rcases List.mem_append.1 hc with hc | hc
      · exact Or.inl (hplain c (List.mem_append_left _ hc))
      · rcases List.mem_cons.1 hc with rfl | hc
        · exact Or.inr rfl
        · exact Or.inl (hplain c (List.mem_append_right _ hc))
  obtain ⟨x, hx⟩ := Option.isSome_iff_exists.1 (decimal?_isSome htext
    (by rw [← List.map_append]; simpa using hsome) hplain)
  have hsolid : ∀ c ∈ literal.map Numeral.plain, IsSolid c := fun c hc =>
    (hcharacters c hc).isSolid
  unfold Numeral.binary64?
  rw [String.toList_ofList, strip_eq_self hsolid, Numeral.join, joinFrom_eq_self false hsolid]
  simp [sign_eq_self hsolid, hx]

theorem isLiteral_splitNumber {text : List Char} (h : Token.startsNumber text = true) :
    IsLiteral (Token.splitNumber text).1 := by
  have hdigits : ∀ {characters : List Char}, ∀ c ∈ characters.takeWhile Text.isDigit,
      Text.isDigit c = true := fun c hc => List.mem_takeWhile_imp hc
  have hnonempty := Token.splitNumber_fst_ne_nil h
  unfold Token.splitNumber at hnonempty ⊢
  split at hnonempty
  · next rest hrest =>
    refine ⟨text.takeWhile Text.isDigit, rest.takeWhile Text.isDigit, Or.inr rfl, ?_, ?_⟩
    · intro hnone
      obtain ⟨hwhole, hfraction⟩ := List.append_eq_nil_iff.1 hnone
      have htext : text = '.' :: rest := by
        rw [← List.takeWhile_append_dropWhile (p := Text.isDigit) (l := text), hwhole, hrest]
        rfl
      rw [htext] at h
      cases rest with
      | nil => exact absurd h (by decide)
      | cons c more =>
        have hc : Text.isDigit c = true := h
        rw [List.takeWhile_cons_of_pos hc] at hfraction
        cases hfraction
    · intro c hc
      rcases List.mem_append.1 hc with hc | hc
      · exact hdigits c hc
      · exact hdigits c hc
  · refine ⟨text.takeWhile Text.isDigit, [], Or.inl ⟨rfl, rfl⟩, ?_, ?_⟩
    · rwa [List.append_nil]
    · intro c hc
      rw [List.append_nil] at hc
      exact hdigits c hc

/-- Only numbers are scanned into numbers. -/
theorem ofWord?_ne_number (word : List Char) (literal : String) :
    Lexeme.ofWord? word ≠ some (.number literal) := by
  unfold Lexeme.ofWord?
  split
  · simp
  · simp

theorem ofSymbol?_ne_number (c : Char) (literal : String) :
    Lexeme.ofSymbol? c ≠ some (.number literal) := by
  unfold Lexeme.ofSymbol?
  split <;> simp

/-- The numbers among the tokens are literals of the text. -/
theorem isLiteral_of_scanFrom {position : Nat} {text : List Char} {tokens : List Token}
    (h : Token.scanFrom position text = .ok tokens) {literal : String}
    (hliteral : .number literal ∈ tokens.map Token.lexeme) :
    IsLiteral literal.toList ∧ literal.toList ⊆ text := by
  -- the number of each token is part of what the token was cut from, the rest is by induction
  fun_induction Token.scanFrom position text generalizing tokens with
  | case1 =>
    obtain rfl := Except.ok.inj h
    simp at hliteral
  | case2 position c rest hblank ih =>
    obtain ⟨hshape, hsubset⟩ := ih h hliteral
    exact ⟨hshape, List.subset_cons_of_subset c hsubset⟩
  | case3 => cases h
  | case4 position c rest hblank hnumber digits hshorter hpoint =>
    rename_i ih
    obtain ⟨others, hothers, h⟩ := Outcome.bind_eq_ok_iff.1 h
    obtain rfl := Except.ok.inj h
    have hbefore := List.subset_append_left (Token.splitNumber (c :: rest)).1
      (Token.splitNumber (c :: rest)).2
    have hafter := List.subset_append_right (Token.splitNumber (c :: rest)).1
      (Token.splitNumber (c :: rest)).2
    rw [Token.splitNumber_append] at hbefore hafter
    rcases List.mem_cons.1 hliteral with heq | hliteral
    · obtain rfl := Lexeme.number.inj heq
      rw [String.toList_ofList]
      exact ⟨isLiteral_splitNumber hnumber, hbefore⟩
    · obtain ⟨hshape, hsubset⟩ := ih hothers hliteral
      exact ⟨hshape, List.Subset.trans hsubset hafter⟩
  | case5 position c rest hblank hnumber hstarts word hshorter lexeme hword =>
    rename_i ih
    obtain ⟨others, hothers, h⟩ := Outcome.bind_eq_ok_iff.1 h
    obtain rfl := Except.ok.inj h
    rcases List.mem_cons.1 hliteral with heq | hliteral
    · obtain rfl : .number literal = lexeme := heq
      exact absurd hword (ofWord?_ne_number _ literal)
    · obtain ⟨hshape, hsubset⟩ := ih hothers hliteral
      have hrest := (List.dropWhile_suffix Token.continuesWord (l := rest)).subset
      exact ⟨hshape, List.subset_cons_of_subset c (List.Subset.trans hsubset hrest)⟩
  | case6 => cases h
  | case7 position c rest hblank hnumber hstarts lexeme hsymbol ih =>
    obtain ⟨others, hothers, h⟩ := Outcome.bind_eq_ok_iff.1 h
    obtain rfl := Except.ok.inj h
    rcases List.mem_cons.1 hliteral with heq | hliteral
    · obtain rfl : .number literal = lexeme := heq
      exact absurd hsymbol (ofSymbol?_ne_number c literal)
    · obtain ⟨hshape, hsubset⟩ := ih hothers hliteral
      exact ⟨hshape, List.subset_cons_of_subset c hsubset⟩
  | case8 => cases h

/-- The tokens of a text whose digits all have a decimal value have numbers that can be read. -/
theorem readable_of_scan {formula : String} {tokens : List Token} (h : Token.scan formula = .ok tokens)
    (hpositional : Positional formula.toList) : Readable tokens := by
  unfold Token.scan at h
  split at h
  · next hscan =>
    obtain rfl := Except.ok.inj h
    intro literal hliteral
    obtain ⟨hshape, hsubset⟩ := isLiteral_of_scanFrom hscan hliteral
    have hisSome := binary64?_isSome hshape fun c hc => hpositional c (hsubset hc)
    rwa [String.ofList_toList] at hisSome
  · cases h

end ExperienceCurves.Formula
