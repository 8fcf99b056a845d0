import ExperienceCurves.Proofs.LetterCase
import ExperienceCurves.Proofs.Scanning

/-!
The vocabulary of formulas. The scanner compares words by their small and capital forms and takes the
digits of all scripts, so it accepts a few words and many numbers beyond those that formulas are
meant to be written with. All of these have characters outside the basic block: in it, exactly the
names of the vocabulary are accepted as words, in any case, and exactly the ten digits and the point
in numbers.
-/
namespace ExperienceCurves.Formula

open Text

/-- The names that formulas are made of. -/
def vocabulary : List String :=
  ["level", "x", "size", "MAX", "MIN", "ROUND", "FLOOR", "CEIL", "SQRT"]

/-- Words that have the same capitals as a function, but a look-alike among their letters. -/
def lookAlikeNames : List String := ["mın", "ceıl", "ſqrt", "ﬂoor"]

/-- A word that has the name of a function as its capitals is that name or looks like one. -/
theorem mem_readings_name : ∀ f ∈ Function.all, ∀ word ∈ readings 0 f.name.toList,
    ∃ name ∈ vocabulary ++ lookAlikeNames, word = name.toList.map Char.toLower := by
  decide +kernel

theorem sameLetters_of_capitals {word : List Char} {f : Function}
    (h : f.name = String.ofList (capitals word)) :
    ∃ name ∈ vocabulary ++ lookAlikeNames, SameLetters word name.toList := by
  have hcapitals : f.name.toList = capitals word := by rw [h, String.toList_ofList]
  have hmem := map_toLower_mem_readings word
  rw [← hcapitals] at hmem
  exact mem_readings_name f (by cases f <;> decide) _ hmem

/-- The names of variables are in small letters, and none of them has a letter k. -/
theorem variable_names : ∀ name ∈ ["level", "x", "size"], name ∈ vocabulary ∧ 'k' ∉ name.toList ∧
    name.toList.map Char.toLower = name.toList := by decide

theorem sameLetters_of_variable {word : List Char} {v : Variable}
    (h : Variable.ofName? (String.ofList (smalls word)) = some v) :
    ∃ name ∈ vocabulary, SameLetters word name.toList := by
  have hmem : String.ofList (smalls word) ∈ ["level", "x", "size"] := by
    unfold Variable.ofName? at h
    split at h
    · next hlevel => rcases hlevel with hlevel | hx <;> simp [*]
    · split at h
      · next hsize => simp [hsize]
      · cases h
  obtain ⟨hknown, hk, hlower⟩ := variable_names _ hmem
  rw [String.toList_ofList] at hk hlower
  refine ⟨_, hknown, ?_⟩
  rw [String.toList_ofList]
  exact sameLetters_of_smalls rfl hk hlower

/-- The words that mean something are the names of the vocabulary and their look-alikes, in any
case. -/
theorem Lexeme.ofWord?_isSome_iff (word : List Char) : (Lexeme.ofWord? word).isSome = true ↔
    ∃ name ∈ vocabulary ++ lookAlikeNames, SameLetters word name.toList := by
  constructor
  · intro h
    unfold Lexeme.ofWord? at h
    split at h
    · next v hv =>
      obtain ⟨name, hname, hsame⟩ := sameLetters_of_variable hv
      exact ⟨name, List.mem_append_left _ hname, hsame⟩
    · rw [Option.isSome_map] at h
      obtain ⟨f, hf⟩ := Option.isSome_iff_exists.1 h
      exact sameLetters_of_capitals (f := f) (by simpa using List.find?_some hf)
  · have hall : ∀ name ∈ vocabulary ++ lookAlikeNames,
        (Lexeme.ofWord? name.toList).isSome = true := by decide +kernel
    rintro ⟨name, hname, hsame⟩
    rw [Lexeme.ofWord?, hsame.smalls_eq, hsame.capitals_eq]
    exact hall name hname

/-- Of these names only those of the vocabulary are written in the basic block. -/
theorem allBasic_name : (∀ name ∈ vocabulary, AllBasic name.toList) ∧
    ∀ name ∈ lookAlikeNames, ¬AllBasic name.toList := by decide +kernel

theorem isDigit_of_isBasic {c : Char} (h : IsBasic c) : Text.isDigit c = c.isDigit :=
  h.of_ofNat (p := fun c => Text.isDigit c = c.isDigit) (by decide +kernel)

theorem isBasic_of_isDigit {c : Char} (h : c.isDigit = true) : IsBasic c := by
  simp only [Char.isDigit, Bool.and_eq_true, decide_eq_true_eq] at h
  have hhigh : c.toNat ≤ 57 := UInt32.le_iff_toNat_le.1 h.2
  rw [IsBasic]
  omega

theorem IsLiteral.count_point_le {literal : List Char} (h : IsLiteral literal) :
    literal.count '.' ≤ 1 := by
  obtain ⟨whole, fraction, hshape, -, hdigits⟩ := h
  have hnone : (whole ++ fraction).count '.' = 0 := by
    refine List.count_eq_zero.2 fun hpoint => ?_
    cases Token.isDigit_point.symm.trans (hdigits '.' hpoint)
  rw [List.count_append] at hnone
  rcases hshape with ⟨rfl, rfl⟩ | rfl
  · rw [List.count_nil] at hnone
    omega
  · rw [List.count_append, List.count_cons_self]
    omega

/-- A literal is made of the ten basic digits and a point at most if it is written in the basic
block. -/
theorem IsLiteral.allBasic_iff {literal : List Char} (h : IsLiteral literal) :
    AllBasic literal ↔ ∀ c ∈ literal, c.isDigit = true ∨ c = '.' := by
  constructor
  · intro hbasic c hc
    rw [← isDigit_of_isBasic (hbasic c hc)]
    exact h.isDigit_or c hc
  · intro hdigits c hc
    rcases hdigits c hc with hdigit | rfl
    · exact isBasic_of_isDigit hdigit
    · decide

namespace Token

/-- The lexeme is written as formulas are meant to be written: words are of the vocabulary, up to the
case of basic letters, and numbers are made of the ten basic digits and a point at most. -/
structure Piece.IsPlain (p : Piece) : Prop where
  word : Names p.lexeme → ∃ name ∈ vocabulary, SameLetters p.span name.toList
  number : ∀ literal, p.lexeme = .number literal →
    (∀ c ∈ p.span, c.isDigit = true ∨ c = '.') ∧ p.span.count '.' ≤ 1

theorem Writes.isLiteral {literal : String} {span after : List Char}
    (h : Writes (.number literal) span after) : IsLiteral span := by
  cases h with
  | number hspan hafter => exact hspan
  | symbol _ hsymbol => exact absurd hsymbol (ofSymbol?_ne_number _ literal)

theorem Writes.sameLetters {lexeme : Lexeme} {span after : List Char} (h : Writes lexeme span after)
    (hnames : Names lexeme) :
    ∃ name ∈ vocabulary ++ lookAlikeNames, SameLetters span name.toList :=
  (Lexeme.ofWord?_isSome_iff span).1 (Option.isSome_of_eq_some (h.ofWord?_eq hnames))

theorem isBasic_of_ofSymbol? {c : Char} {lexeme : Lexeme} (h : Lexeme.ofSymbol? c = some lexeme) :
    IsBasic c :=
  (by decide : ∀ s ∈ symbols, IsBasic s.1) _ (mem_symbols h)

/-- A lexeme is written as it is meant to be exactly if all its characters are basic. -/
theorem Writes.isPlain_iff {lexeme : Lexeme} {span after : List Char} (h : Writes lexeme span after)
    (position : Nat) :
    Piece.IsPlain ⟨lexeme, position, span⟩ ↔ AllBasic span := by
  obtain ⟨hvocabulary, hlookAlikes⟩ := allBasic_name
  constructor
  · intro hplain
    by_cases hnames : Names lexeme
    · obtain ⟨name, hname, hsame⟩ := hplain.word hnames
      exact hsame.allBasic_iff.2 (hvocabulary name hname)
    · cases h with
      | number hspan hafter => exact hspan.allBasic_iff.2 (hplain.number _ rfl).1
      | named hword hname => exact absurd trivial hnames
      | function hword hnot hname => exact absurd trivial hnames
      | symbol after hsymbol =>
        intro c hc
        obtain rfl := List.mem_singleton.1 hc
        exact isBasic_of_ofSymbol? hsymbol
  · intro hbasic
    refine ⟨fun hnames => ?_, ?_⟩
    · obtain ⟨name, hname, hsame⟩ := h.sameLetters hnames
      refine ⟨name, (List.mem_append.1 hname).resolve_right fun hlook => ?_, hsame⟩
      exact hlookAlikes name hlook (hsame.allBasic_iff.1 hbasic)
    · rintro literal rfl
      exact ⟨h.isLiteral.allBasic_iff.1 hbasic, h.isLiteral.count_point_le⟩

/-- Every word that is accepted is a name of the vocabulary or one of four look-alikes, up to the
case of basic letters, and every number consists of digits of any script and a point at most. The
lexemes that are written as they are meant to be are those in the basic block. -/
theorem scan_vocabulary {formula : String} {tokens : List Token} (h : scan formula = .ok tokens) :
    ∃ pieces, tokens = pieces.map Piece.token ++ [⟨.finish, formula.length⟩] ∧
      IsCut formula.toList formula.length pieces ∧
      ∀ p ∈ pieces,
        (Names p.lexeme → ∃ name ∈ vocabulary ++ lookAlikeNames, SameLetters p.span name.toList) ∧
        (∀ literal, p.lexeme = .number literal →
          (∀ c ∈ p.span, Text.isDigit c = true ∨ c = '.') ∧ p.span.count '.' ≤ 1) ∧
        (p.IsPlain ↔ AllBasic p.span) := by
  obtain ⟨pieces, hcut, rfl⟩ := exists_cut_of_scan h
  have hcovers := hcut.covers (List.nil_append _).symm rfl
  refine ⟨pieces, rfl, hcovers.isCut, fun p hp => ?_⟩
  obtain ⟨before, after, -, -, hwrites⟩ := hcovers.written p hp
  refine ⟨hwrites.sameLetters, ?_, hwrites.isPlain_iff p.position⟩
  intro literal hliteral
  rw [hliteral] at hwrites
  exact ⟨hwrites.isLiteral.isDigit_or, hwrites.isLiteral.count_point_le⟩

theorem scan_vocabulary_floor :
    let tokens : List Token := [⟨.function .floor, 0⟩, ⟨.opening, 5⟩, ⟨.named .level, 6⟩,
      ⟨.operator .times, 8⟩, ⟨.number "2.5", 10⟩, ⟨.closing, 13⟩, ⟨.finish, 14⟩]
    scan "Floor(X * 2.5)" = .ok tokens ∧
    ∃ pieces, tokens = pieces.map Piece.token ++ [⟨.finish, 14⟩] ∧
      IsCut "Floor(X * 2.5)".toList 14 pieces ∧
      ∀ p ∈ pieces,
        (Names p.lexeme → ∃ name ∈ vocabulary ++ lookAlikeNames, SameLetters p.span name.toList) ∧
        (∀ literal, p.lexeme = .number literal →
          (∀ c ∈ p.span, Text.isDigit c = true ∨ c = '.') ∧ p.span.count '.' ≤ 1) ∧
        (p.IsPlain ↔ AllBasic p.span) := by
  intro tokens
  have hscan : scan "Floor(X * 2.5)" = .ok tokens := by decide +kernel
  exact ⟨hscan, scan_vocabulary hscan⟩

/-- A text with a ligature and a digit of another script is accepted, though neither its function
nor its number is written as it is meant to be. -/
theorem ligature_scanned :
    scan "ﬂoor(٣)" = .ok [⟨.function .floor, 0⟩, ⟨.opening, 4⟩, ⟨.number "٣", 5⟩, ⟨.closing, 6⟩,
      ⟨.finish, 7⟩] ∧
    (¬∃ name ∈ vocabulary, SameLetters "ﬂoor".toList name.toList) ∧
    ¬('٣'.isDigit = true ∨ '٣' = '.') := by
  decide +kernel

end Token

end ExperienceCurves.Formula
