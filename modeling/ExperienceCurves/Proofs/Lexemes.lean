import ExperienceCurves.Proofs.CharacterClasses
import ExperienceCurves.Proofs.Literals

/-!
Lexemes in a text. The text of a formula consists of the characters that its lexemes are written
with and of blanks around them, and the scanner finds exactly these lexemes, each at the position of
its first character. It stops at the first place where no lexeme is written.
-/
namespace ExperienceCurves.Formula

open Text

/-- A literal is made of digits and points. -/
theorem IsLiteral.isDigit_or {literal : List Char} (h : IsLiteral literal) :
    ∀ c ∈ literal, isDigit c = true ∨ c = '.' := by
  obtain ⟨whole, fraction, hshape, -, hdigits⟩ := h
  intro c hc
  rcases hshape with ⟨rfl, rfl⟩ | rfl
  · exact Or.inl (hdigits c (List.mem_append_left _ hc))
  · simp only [List.mem_append, List.mem_cons] at hc hdigits
    rcases hc with hc | rfl | hc
    · exact Or.inl (hdigits c (Or.inl hc))
    · exact Or.inr rfl
    · exact Or.inl (hdigits c (Or.inr hc))

theorem IsLiteral.not_blank {literal : List Char} (h : IsLiteral literal) :
    ∀ c ∈ literal, isBlank c = false := by
  intro c hc
  rcases h.isDigit_or c hc with hdigit | rfl
  · exact isBlank_eq_false_of_isDigit hdigit
  · decide

namespace Token

/-- The characters stand for a word: they start as one, and neither they nor what follows them end
it early or go on with it. -/
structure IsWord (span after : List Char) : Prop where
  starts : ∃ c, span.head? = some c ∧ startsWord c = true
  continues : ∀ c ∈ span, continuesWord c = true
  ends : ∀ c, after.head? = some c → continuesWord c = false

/-- How lexemes are written, and before what: numbers and words go on as far as their characters
do. The end of a text is not written. -/
inductive Writes : Lexeme → List Char → List Char → Prop
  | number {span after : List Char} (hspan : IsLiteral span)
      (hafter : ∀ c, after.head? = some c → isDigit c = false ∧ c ≠ '.') :
      Writes (.number (String.ofList span)) span after
  | named {span after : List Char} {v : Variable} (hword : IsWord span after)
      (hname : Variable.ofName? (String.ofList (smalls span)) = some v) :
      Writes (.named v) span after
  | function {span after : List Char} {f : Function} (hword : IsWord span after)
      (hnot : Variable.ofName? (String.ofList (smalls span)) = none)
      (hname : f.name = String.ofList (capitals span)) : Writes (.function f) span after
  | symbol {c : Char} {lexeme : Lexeme} (after : List Char)
      (hsymbol : Lexeme.ofSymbol? c = some lexeme) : Writes lexeme [c] after

/-- What can be wrong with a text at its start. -/
inductive Misspelled : Mistake → List Char → Prop
  | number {literal : List Char} (hliteral : IsLiteral literal) (hpoint : '.' ∈ literal)
      (after : List Char) :
      Misspelled (.malformedNumber (String.ofList literal)) (literal ++ '.' :: after)
  | word {word after : List Char} (hword : IsWord word after)
      (hname : Lexeme.ofWord? word = none) :
      Misspelled (.unknownIdentifier (String.ofList word)) (word ++ after)
  | character {c : Char} {after : List Char} (hblank : isBlank c = false)
      (hnumber : startsNumber (c :: after) = false) (hword : startsWord c = false)
      (hsymbol : Lexeme.ofSymbol? c = none) : Misspelled (.unexpectedCharacter c) (c :: after)

theorem isDigit_point : isDigit '.' = false := by decide

theorem startsNumber_of_isDigit {c : Char} (h : isDigit c = true) (rest : List Char) :
    startsNumber (c :: rest) = true := by
  unfold startsNumber
  split
  · next heq =>
    obtain ⟨rfl, -⟩ := List.cons.inj heq
    cases isDigit_point.symm.trans h
  · next heq =>
    obtain ⟨rfl, -⟩ := List.cons.inj heq
    exact h
  · next heq => cases heq

/-- A number starts with a digit or a point. -/
theorem startsNumber_eq_false {c : Char} (hdigit : isDigit c = false) (hpoint : c ≠ '.')
    (rest : List Char) : startsNumber (c :: rest) = false := by
  unfold startsNumber
  split
  · next heq => exact absurd (List.cons.inj heq).1 hpoint
  · next heq =>
    obtain ⟨rfl, -⟩ := List.cons.inj heq
    exact hdigit
  · rfl

theorem isBlank_eq_false_of_startsNumber {c : Char} {rest : List Char}
    (h : startsNumber (c :: rest) = true) : isBlank c = false := by
  by_cases hdigit : isDigit c = true
  · exact isBlank_eq_false_of_isDigit hdigit
  · by_cases hpoint : c = '.'
    · subst hpoint
      decide
    · cases h.symm.trans (startsNumber_eq_false (Bool.eq_false_iff.2 hdigit) hpoint rest)

theorem startsNumber_append {span : List Char} (h : IsLiteral span) (after : List Char) :
    startsNumber (span ++ after) = true := by
  obtain ⟨whole, fraction, hshape, hsome, hdigits⟩ := h
  cases whole with
  | cons c whole =>
    have hc := hdigits c (by simp)
    rcases hshape with ⟨rfl, -⟩ | rfl <;> exact startsNumber_of_isDigit hc _
  | nil =>
    cases fraction with
    | nil => exact absurd rfl hsome
    | cons c fraction =>
      have hc := hdigits c (by simp)
      rcases hshape with ⟨-, hnil⟩ | rfl
      · cases hnil
      · exact hc

/-- Characters of a class are taken up to the first one that is not in it. -/
theorem takeWhile_append_stop {p : Char → Bool} {span after : List Char} (h : ∀ c ∈ span, p c = true)
    (hafter : ∀ c, after.head? = some c → p c = false) :
    (span ++ after).takeWhile p = span ∧ (span ++ after).dropWhile p = after := by
  rw [List.takeWhile_append_of_pos h, List.dropWhile_append_of_pos h]
  cases after with
  | nil => simp
  | cons c after =>
    have hc := hafter c rfl
    simp [hc]

theorem splitNumber_of_no_point {text : List Char}
    (h : (text.dropWhile isDigit).head? ≠ some '.') :
    splitNumber text = (text.takeWhile isDigit, text.dropWhile isDigit) := by
  unfold splitNumber
  split
  · next rest hrest => exact absurd (congrArg List.head? hrest) h
  · rfl

theorem splitNumber_of_point {text rest : List Char} (h : text.dropWhile isDigit = '.' :: rest) :
    splitNumber text =
      (text.takeWhile isDigit ++ '.' :: rest.takeWhile isDigit, rest.dropWhile isDigit) := by
  rw [splitNumber, h]
  rfl

/-- A literal is split off a text where no digit follows it, and a point only after another one. -/
theorem splitNumber_literal_append {span after : List Char} (h : IsLiteral span)
    (hdigit : ∀ c, after.head? = some c → isDigit c = false)
    (hpoint : after.head? = some '.' → '.' ∈ span) : splitNumber (span ++ after) = (span, after) := by
  obtain ⟨whole, fraction, hshape, -, hdigits⟩ := h
  have hwhole : ∀ c ∈ whole, isDigit c = true := fun c hc => hdigits c (List.mem_append_left _ hc)
  have hfraction : ∀ c ∈ fraction, isDigit c = true := fun c hc =>
    hdigits c (List.mem_append_right _ hc)
  rcases hshape with ⟨rfl, -⟩ | rfl
  · obtain ⟨htake, hdrop⟩ := takeWhile_append_stop hwhole hdigit
    rw [splitNumber_of_no_point, htake, hdrop]
    rw [hdrop]
    exact fun hafter => by cases isDigit_point.symm.trans (hwhole '.' (hpoint hafter))
  · have hstop : ∀ c, ('.' :: (fraction ++ after)).head? = some c → isDigit c = false :=
      fun c hc => Option.some.inj hc ▸ isDigit_point
    obtain ⟨htake, hdrop⟩ := takeWhile_append_stop hwhole hstop
    obtain ⟨htake', hdrop'⟩ := takeWhile_append_stop hfraction hdigit
    rw [List.append_assoc, List.cons_append, splitNumber_of_point hdrop, htake, htake', hdrop']

theorem isDigit_head?_dropWhile {text : List Char} {c : Char}
    (h : (text.dropWhile isDigit).head? = some c) : isDigit c = false := by
  have hnot := List.head?_dropWhile_not isDigit text
  rw [h] at hnot
  exact hnot

/-- No digit follows the number that is split off, and a point only if it has one already. -/
theorem head?_splitNumber {text : List Char} {c : Char}
    (h : (splitNumber text).2.head? = some c) :
    isDigit c = false ∧ (c = '.' → '.' ∈ (splitNumber text).1) := by
  by_cases hpoint : (text.dropWhile isDigit).head? = some '.'
  · obtain ⟨rest, hrest⟩ := List.head?_eq_some_iff.1 hpoint
    rw [splitNumber_of_point hrest] at h ⊢
    exact ⟨isDigit_head?_dropWhile h, fun _ => by simp⟩
  · rw [splitNumber_of_no_point hpoint] at h ⊢
    exact ⟨isDigit_head?_dropWhile h, fun hc => absurd (hc ▸ h) hpoint⟩

theorem continuesWord_of_startsWord {c : Char} (h : startsWord c = true) :
    continuesWord c = true := by
  simp only [startsWord, continuesWord, isLetterOrNumeral, Bool.or_eq_true] at h ⊢
  tauto

theorem isBlank_eq_false_of_continuesWord {c : Char} (h : continuesWord c = true) :
    isBlank c = false := by
  simp only [continuesWord, Bool.or_eq_true, decide_eq_true_eq] at h
  rcases h with h | rfl
  · exact isBlank_eq_false_of_isLetterOrNumeral h
  · decide

/-- Words and numbers do not start alike. -/
theorem startsNumber_eq_false_of_startsWord {c : Char} (h : startsWord c = true)
    (rest : List Char) : startsNumber (c :: rest) = false := by
  simp only [startsWord, Bool.or_eq_true, decide_eq_true_eq] at h
  refine startsNumber_eq_false ?_ ?_ rest
  · rcases h with h | rfl
    · exact isDigit_eq_false_of_isLetter h
    · decide
  · rintro rfl
    rcases h with h | h
    · revert h
      decide +kernel
    · revert h
      decide

/-- The symbols and what they stand for. -/
def symbols : List (Char × Lexeme) :=
  [('+', .operator .plus), ('-', .operator .minus), ('*', .operator .times),
    ('/', .operator .dividedBy), ('^', .operator .power), ('(', .opening), (')', .closing),
    (',', .comma)]

theorem mem_symbols {c : Char} {lexeme : Lexeme} (h : Lexeme.ofSymbol? c = some lexeme) :
    (c, lexeme) ∈ symbols := by
  unfold Lexeme.ofSymbol? at h
  split at h <;> cases h <;> decide

/-- Symbols start neither numbers nor words. -/
theorem of_ofSymbol? {c : Char} {lexeme : Lexeme} (h : Lexeme.ofSymbol? c = some lexeme) :
    isBlank c = false ∧ isDigit c = false ∧ c ≠ '.' ∧ continuesWord c = false := by
  have hall : ∀ s ∈ symbols, isBlank s.1 = false ∧ isDigit s.1 = false ∧ s.1 ≠ '.' ∧
      continuesWord s.1 = false := by decide +kernel
  exact hall _ (mem_symbols h)

variable {position : Nat}

theorem scanFrom_blank {c : Char} (h : isBlank c = true) (rest : List Char) :
    scanFrom position (c :: rest) = scanFrom (position + 1) rest := by
  rw [scanFrom, if_pos h]

theorem scanFrom_number {text span after : List Char} (hnumber : startsNumber text = true)
    (hsplit : splitNumber text = (span, after)) :
    scanFrom position text =
      if after.head? = some '.' then .error ⟨.malformedNumber (String.ofList span), position⟩
      else scanFrom (position + span.length) after >>= fun others =>
        .ok (⟨.number (String.ofList span), position⟩ :: others) := by
  cases text with
  | nil => cases hnumber
  | cons c rest =>
    rw [scanFrom, if_neg (by simp [isBlank_eq_false_of_startsNumber hnumber]), dif_pos hnumber]
    simp only [hsplit]
    rfl

theorem scanFrom_word {span after : List Char} (h : IsWord span after) :
    scanFrom position (span ++ after) =
      match Lexeme.ofWord? span with
      | some lexeme => scanFrom (position + span.length) after >>= fun others =>
          .ok (⟨lexeme, position⟩ :: others)
      | none => .error ⟨.unknownIdentifier (String.ofList span), position⟩ := by
  obtain ⟨c, hhead, hstarts⟩ := h.starts
  obtain ⟨more, rfl⟩ := List.head?_eq_some_iff.1 hhead
  have hblank := isBlank_eq_false_of_continuesWord (h.continues c List.mem_cons_self)
  have hnumber := startsNumber_eq_false_of_startsWord hstarts (more ++ after)
  obtain ⟨htake, hdrop⟩ := takeWhile_append_stop
    (fun d hd => h.continues d (List.mem_cons_of_mem c hd)) h.ends
  rw [List.cons_append, scanFrom, if_neg (by simp [hblank]), dif_neg (by simp [hnumber]),
    if_pos hstarts]
  simp only [htake, hdrop]
  cases Lexeme.ofWord? (c :: more) <;> rfl

theorem scanFrom_symbol {c : Char} (hblank : isBlank c = false) {after : List Char}
    (hnumber : startsNumber (c :: after) = false) (hword : startsWord c = false) :
    scanFrom position (c :: after) =
      match Lexeme.ofSymbol? c with
      | some lexeme => scanFrom (position + 1) after >>= fun others =>
          .ok (⟨lexeme, position⟩ :: others)
      | none => .error ⟨.unexpectedCharacter c, position⟩ := by
  rw [scanFrom, if_neg (by simp [hblank]), dif_neg (by simp [hnumber]), if_neg (by simp [hword])]
  cases Lexeme.ofSymbol? c <;> rfl

theorem Writes.ne_nil {lexeme : Lexeme} {span after : List Char} (h : Writes lexeme span after) :
    span ≠ [] := by
  cases h with
  | number hspan hafter =>
    rintro rfl
    have := startsNumber_append hspan []
    cases this
  | named hword hname =>
    rintro rfl
    obtain ⟨c, hhead, -⟩ := hword.starts
    cases hhead
  | function hword hnot hname =>
    rintro rfl
    obtain ⟨c, hhead, -⟩ := hword.starts
    cases hhead
  | symbol after hsymbol => exact List.cons_ne_nil _ _

/-- No blank is part of a lexeme. -/
theorem Writes.not_blank {lexeme : Lexeme} {span after : List Char} (h : Writes lexeme span after) :
    ∀ c ∈ span, isBlank c = false := by
  intro c hc
  cases h with
  | number hspan hafter => exact hspan.not_blank c hc
  | named hword hname => exact isBlank_eq_false_of_continuesWord (hword.continues c hc)
  | function hword hnot hname => exact isBlank_eq_false_of_continuesWord (hword.continues c hc)
  | symbol after hsymbol =>
    obtain rfl := List.mem_singleton.1 hc
    exact (of_ofSymbol? hsymbol).1

/-- The scanner takes a lexeme that is written and goes on after it. -/
theorem scanFrom_writes {lexeme : Lexeme} {span after : List Char} (h : Writes lexeme span after) :
    scanFrom position (span ++ after) =
      scanFrom (position + span.length) after >>= fun others =>
        .ok (⟨lexeme, position⟩ :: others) := by
  cases h with
  | number hspan hafter =>
    have hsplit := splitNumber_literal_append hspan (fun c hc => (hafter c hc).1)
      fun hpoint => absurd rfl (hafter '.' hpoint).2
    rw [scanFrom_number (startsNumber_append hspan after) hsplit, if_neg]
    exact fun hpoint => (hafter '.' hpoint).2 rfl
  | named hword hname =>
    rw [scanFrom_word hword]
    simp only [Lexeme.ofWord?, hname]
  | function hword hnot hname =>
    rw [scanFrom_word hword]
    simp only [Lexeme.ofWord?, hnot, ← hname, Function.ofName?_name]
    rfl
  | symbol after hsymbol =>
    obtain ⟨hblank, hdigit, hpoint, hword⟩ := of_ofSymbol? hsymbol
    rw [List.singleton_append, scanFrom_symbol hblank (startsNumber_eq_false hdigit hpoint _) ?_]
    · simp only [hsymbol]
      rfl
    · exact Bool.eq_false_iff.2 fun hstarts => by
        cases hword.symm.trans (continuesWord_of_startsWord hstarts)

/-- The scanner stops at a misspelling and blames it. -/
theorem scanFrom_misspelled {mistake : Mistake} {text : List Char} (h : Misspelled mistake text) :
    scanFrom position text = .error ⟨mistake, position⟩ := by
  cases h with
  | number hliteral hpoint after =>
    have hstop : ∀ c, ('.' :: after).head? = some c → isDigit c = false :=
      fun c hc => Option.some.inj hc ▸ isDigit_point
    have hsplit := splitNumber_literal_append hliteral hstop fun _ => hpoint
    rw [scanFrom_number (startsNumber_append hliteral _) hsplit, List.head?_cons, if_pos rfl]
  | word hword hname =>
    rw [scanFrom_word hword]
    simp only [hname]
  | character hblank hnumber hword hsymbol =>
    rw [scanFrom_symbol hblank hnumber hword]
    simp only [hsymbol]

theorem writes_or_misspelled_of_startsNumber {text : List Char} (h : startsNumber text = true) :
    (∃ lexeme span after, text = span ++ after ∧ Writes lexeme span after) ∨
      ∃ mistake, Misspelled mistake text := by
  have hliteral := isLiteral_splitNumber h
  have htext := splitNumber_append text
  have hafter : ∀ c, (splitNumber text).2.head? = some c → _ := fun c hc => head?_splitNumber hc
  by_cases hpoint : (splitNumber text).2.head? = some '.'
  · obtain ⟨after, hsecond⟩ := List.head?_eq_some_iff.1 hpoint
    rw [← htext, hsecond]
    exact Or.inr ⟨_, .number hliteral ((hafter '.' hpoint).2 rfl) after⟩
  · refine Or.inl ⟨_, _, _, htext.symm, .number hliteral ?_⟩
    exact fun c hc => ⟨(hafter c hc).1, fun heq => hpoint (heq ▸ hc)⟩

theorem exists_isWord {c : Char} (h : startsWord c = true) (rest : List Char) :
    ∃ span after, c :: rest = span ++ after ∧ IsWord span after := by
  refine ⟨c :: rest.takeWhile continuesWord, rest.dropWhile continuesWord, by simp, ?_, ?_, ?_⟩
  · exact ⟨c, rfl, h⟩
  · intro d hd
    rcases List.mem_cons.1 hd with rfl | hd
    · exact continuesWord_of_startsWord h
    · exact List.mem_takeWhile_imp hd
  · intro d hd
    have hnot := List.head?_dropWhile_not continuesWord rest
    rw [hd] at hnot
    exact hnot

/-- What a word means as the scanner takes it, first as a variable. -/
theorem writes_or_misspelled_of_isWord {span after : List Char} (h : IsWord span after) :
    (∃ lexeme, Writes lexeme span after) ∨ ∃ mistake, Misspelled mistake (span ++ after) := by
  cases hvariable : Variable.ofName? (String.ofList (smalls span)) with
  | some v => exact Or.inl ⟨_, .named h hvariable⟩
  | none =>
    cases hfunction : Function.ofName? (String.ofList (capitals span)) with
    | some f =>
      have hname : f.name = String.ofList (capitals span) := by
        simpa using List.find?_some hfunction
      exact Or.inl ⟨_, .function h hvariable hname⟩
    | none =>
      refine Or.inr ⟨_, .word h ?_⟩
      simp only [Lexeme.ofWord?, hvariable, hfunction]
      rfl

/-- A text is at its end, or a blank, a lexeme or a misspelling comes next. -/
theorem text_cases (text : List Char) :
    text = [] ∨ (∃ c rest, text = c :: rest ∧ isBlank c = true) ∨
      (∃ lexeme span after, text = span ++ after ∧ Writes lexeme span after) ∨
      ∃ mistake, Misspelled mistake text := by
  rcases text with _ | ⟨c, rest⟩
  · exact Or.inl rfl
  by_cases hblank : isBlank c = true
  · exact Or.inr (Or.inl ⟨c, rest, rfl, hblank⟩)
  by_cases hnumber : startsNumber (c :: rest) = true
  · exact Or.inr (Or.inr (writes_or_misspelled_of_startsNumber hnumber))
  by_cases hword : startsWord c = true
  · obtain ⟨span, after, htext, hspan⟩ := exists_isWord hword rest
    rw [htext]
    rcases writes_or_misspelled_of_isWord hspan with ⟨lexeme, hlexeme⟩ | hmistake
    · exact Or.inr (Or.inr (Or.inl ⟨lexeme, span, after, rfl, hlexeme⟩))
    · exact Or.inr (Or.inr (Or.inr hmistake))
  · cases hsymbol : Lexeme.ofSymbol? c with
    | some lexeme => exact Or.inr (Or.inr (Or.inl ⟨lexeme, [c], rest, rfl, .symbol rest hsymbol⟩))
    | none =>
      rw [Bool.not_eq_true] at hblank hnumber hword
      exact Or.inr (Or.inr (Or.inr ⟨_, .character hblank hnumber hword hsymbol⟩))

/-- A lexeme in a text, with the characters it is written with and the position of the first one. -/
structure Piece where
  lexeme : Lexeme
  position : Nat
  span : List Char

namespace Piece

def token (p : Piece) : Token := ⟨p.lexeme, p.position⟩

def stop (p : Piece) : Nat := p.position + p.span.length

end Piece

/-- A text that starts at a position is made of lexemes and blanks up to a later position, where the
rest of it starts. -/
inductive Cut : Nat → List Char → List Piece → Nat → List Char → Prop
  | stop (position : Nat) (text : List Char) : Cut position text [] position text
  | blank {position : Nat} {c : Char} {text : List Char} {pieces : List Piece} {last : Nat}
      {rest : List Char} (hblank : isBlank c = true) (h : Cut (position + 1) text pieces last rest) :
      Cut position (c :: text) pieces last rest
  | piece {position : Nat} {lexeme : Lexeme} {span after : List Char} {pieces : List Piece}
      {last : Nat} {rest : List Char} (hwrites : Writes lexeme span after)
      (h : Cut (position + span.length) after pieces last rest) :
      Cut position (span ++ after) (⟨lexeme, position, span⟩ :: pieces) last rest

theorem Cut.scanFrom_eq {text rest : List Char} {pieces : List Piece} {last : Nat}
    (h : Cut position text pieces last rest) :
    scanFrom position text = scanFrom last rest >>= fun others =>
      .ok (pieces.map Piece.token ++ others) := by
  induction h with
  | stop => exact (bind_pure _).symm
  | blank hblank h ih => rw [scanFrom_blank hblank, ih]
  | piece hwrites h ih =>
    rw [scanFrom_writes hwrites, ih]
    simp only [bind_assoc]
    rfl

theorem scanFrom_nil : scanFrom position [] = .ok [⟨.finish, position⟩] := by
  rw [scanFrom]

/-- Every text is made of lexemes and blanks up to its end or up to a misspelling. -/
theorem exists_cut (position : Nat) (text : List Char) : ∃ pieces last rest,
    Cut position text pieces last rest ∧ (rest = [] ∨ ∃ mistake, Misspelled mistake rest) := by
  rcases text_cases text with rfl | ⟨c, rest, rfl, hblank⟩ | ⟨lexeme, span, after, rfl, hwrites⟩ |
    hmistake
  · exact ⟨[], position, [], .stop position [], Or.inl rfl⟩
  · obtain ⟨pieces, last, rest', hcut, hrest⟩ := exists_cut (position + 1) rest
    exact ⟨pieces, last, rest', .blank hblank hcut, hrest⟩
  · have hshorter : after.length < (span ++ after).length := by
      have := List.length_pos_iff.2 hwrites.ne_nil
      rw [List.length_append]
      omega
    obtain ⟨pieces, last, rest, hcut, hrest⟩ := exists_cut (position + span.length) after
    exact ⟨_, last, rest, .piece hwrites hcut, hrest⟩
  · exact ⟨[], position, text, .stop position text, Or.inr hmistake⟩
termination_by text.length

end Token

end ExperienceCurves.Formula
