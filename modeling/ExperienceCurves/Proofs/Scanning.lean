import ExperienceCurves.Proofs.Lexemes

/-!
What the scanner finds in a text. The tokens stand for stretches of the text that do not meet and
that leave out nothing but blanks, each a lexeme as it is written there. A text that is refused has
lexemes in the same way up to the position that is blamed, and none at it.
-/
namespace ExperienceCurves.Formula.Token

open Text

/-- Between two positions a text is made of lexemes and blanks. -/
structure Covers (text : List Char) (start stop : Nat) (pieces : List Piece) : Prop where
  written : ∀ p ∈ pieces, ∃ before after,
    text = before ++ (p.span ++ after) ∧ before.length = p.position ∧ Writes p.lexeme p.span after
  within : ∀ p ∈ pieces, start ≤ p.position ∧ p.stop ≤ stop
  apart : pieces.Pairwise fun p q => p.stop ≤ q.position
  isBlank_iff : ∀ i c, start ≤ i → i < stop → text[i]? = some c →
    (isBlank c = true ↔ ∀ p ∈ pieces, ¬(p.position ≤ i ∧ i < p.stop))

namespace Covers

variable {text : List Char} {start stop : Nat} {pieces : List Piece}

theorem nil (text : List Char) (position : Nat) : Covers text position position [] where
  written := by simp
  within := by simp
  apart := .nil
  isBlank_iff := fun i c hstart hstop => absurd hstop (Nat.not_lt.2 hstart)

theorem blank {c : Char} (hc : text[start]? = some c) (hblank : isBlank c = true)
    (h : Covers text (start + 1) stop pieces) : Covers text start stop pieces where
  written := h.written
  within := fun p hp => ⟨Nat.le_of_succ_le (h.within p hp).1, (h.within p hp).2⟩
  apart := h.apart
  isBlank_iff i d hstart hstop hd := by
    rcases Nat.eq_or_lt_of_le hstart with rfl | hlater
    · obtain rfl := Option.some.inj (hc.symm.trans hd)
      refine iff_of_true hblank ?_
      intro p hp hinside
      have := (h.within p hp).1
      omega
    · exact h.isBlank_iff i d hlater hstop hd

theorem piece {lexeme : Lexeme} {before span after : List Char}
    (htext : text = before ++ (span ++ after)) (hbefore : before.length = start)
    (hwrites : Writes lexeme span after) (hlast : start + span.length ≤ stop)
    (h : Covers text (start + span.length) stop pieces) :
    Covers text start stop (⟨lexeme, start, span⟩ :: pieces) where
  written p hp := by
    rcases List.mem_cons.1 hp with rfl | hp
    · exact ⟨before, after, htext, hbefore, hwrites⟩
    · exact h.written p hp
  within p hp := by
    rcases List.mem_cons.1 hp with rfl | hp
    · exact ⟨Nat.le_refl _, hlast⟩
    · exact ⟨Nat.le_trans (Nat.le_add_right _ _) (h.within p hp).1, (h.within p hp).2⟩
  apart := List.pairwise_cons.2 ⟨fun p hp => (h.within p hp).1, h.apart⟩
  isBlank_iff i c hstart hstop hc := by
    rw [List.forall_mem_cons]
    by_cases hinside : i < start + span.length
    · -- the character is one of the lexeme's own
      have hnot : isBlank c = false := by
        refine hwrites.not_blank c (List.mem_iff_getElem?.2 ⟨i - start, ?_⟩)
        rw [← hc, htext, List.getElem?_append_right (hbefore ▸ hstart), hbefore,
          List.getElem?_append_left (by omega)]
      rw [hnot]
      exact iff_of_false Bool.false_ne_true fun hall => hall.1 ⟨hstart, hinside⟩
    · rw [h.isBlank_iff i c (Nat.not_lt.1 hinside) hstop hc]
      exact (and_iff_right fun hmeets => hinside hmeets.2).symm

end Covers

namespace Cut

variable {position last : Nat} {text rest : List Char} {pieces : List Piece}

theorem exists_append (h : Cut position text pieces last rest) :
    ∃ before, text = before ++ rest ∧ position + before.length = last := by
  induction h with
  | stop => exact ⟨[], rfl, rfl⟩
  | @blank position c text pieces last rest hblank h ih =>
    obtain ⟨before, rfl, hlength⟩ := ih
    refine ⟨c :: before, rfl, ?_⟩
    rw [List.length_cons]
    omega
  | @piece position lexeme span after pieces last rest hwrites h ih =>
    obtain ⟨before, rfl, hlength⟩ := ih
    refine ⟨span ++ before, (List.append_assoc _ _ _).symm, ?_⟩
    rw [List.length_append]
    omega

theorem le (h : Cut position text pieces last rest) : position ≤ last := by
  obtain ⟨before, -, hlength⟩ := h.exists_append
  omega

theorem covers (h : Cut position text pieces last rest) {whole before : List Char}
    (hwhole : whole = before ++ text) (hbefore : before.length = position) :
    Covers whole position last pieces := by
  induction h generalizing before with
  | stop => exact .nil _ _
  | @blank position c text pieces last rest hblank h ih =>
    have hc : whole[position]? = some c := by simp [hwhole, ← hbefore]
    exact .blank hc hblank (@ih (before ++ [c]) (by simpa using hwhole) (by simp [hbefore]))
  | @piece position lexeme span after pieces last rest hwrites h ih =>
    exact .piece hwhole hbefore hwrites h.le
      (@ih (before ++ span) (by simpa using hwhole) (by simp [hbefore]))

end Cut

/-- A mistake is found where the text starts or later. -/
theorem le_position_of_scanFrom {position : Nat} {text : List Char} {fault : Fault}
    (h : scanFrom position text = .error fault) : position ≤ fault.position := by
  obtain ⟨pieces, last, rest, hcut, rfl | ⟨mistake, hmistake⟩⟩ := exists_cut position text
  · rw [hcut.scanFrom_eq, scanFrom_nil] at h
    cases h
  · rw [hcut.scanFrom_eq, scanFrom_misspelled hmistake] at h
    obtain rfl := Except.error.inj h
    exact hcut.le

/-- Where a text is misspelled no lexeme is written. -/
theorem Misspelled.not_writes {mistake : Mistake} {span after : List Char}
    (h : Misspelled mistake (span ++ after)) (lexeme : Lexeme) : ¬Writes lexeme span after := by
  intro hwrites
  have hscan : scanFrom 0 (span ++ after) = .error ⟨mistake, 0⟩ := scanFrom_misspelled h
  rw [scanFrom_writes hwrites] at hscan
  rcases Outcome.bind_eq_error_iff.1 hscan with hlater | ⟨others, -, h⟩
  · have hposition := le_position_of_scanFrom hlater
    have hlength := List.length_pos_iff.2 hwrites.ne_nil
    dsimp only at hposition
    omega
  · cases h

theorem Misspelled.not_blank {mistake : Mistake} {text : List Char} (h : Misspelled mistake text) :
    ∃ c, text.head? = some c ∧ isBlank c = false := by
  cases h with
  | @number literal hliteral hpoint after =>
    have hstarts := startsNumber_append hliteral ('.' :: after)
    rcases hcase : literal ++ '.' :: after with _ | ⟨c, rest⟩
    · simp at hcase
    · rw [hcase] at hstarts
      exact ⟨c, rfl, isBlank_eq_false_of_startsNumber hstarts⟩
  | word hword hname =>
    obtain ⟨c, hhead, hstarts⟩ := hword.starts
    refine ⟨c, ?_, isBlank_eq_false_of_continuesWord (continuesWord_of_startsWord hstarts)⟩
    rw [List.head?_append, hhead]
    rfl
  | character hblank hnumber hword hsymbol => exact ⟨_, rfl, hblank⟩

/-- Variables and functions are written as words. -/
def Names : Lexeme → Prop
  | .named _ | .function _ => True
  | _ => False

instance : DecidablePred Names
  | .named _ | .function _ => isTrue trivial
  | .number _ | .operator _ | .opening | .closing | .comma | .finish => isFalse id

theorem not_names_of_ofSymbol? {c : Char} {lexeme : Lexeme} (h : Lexeme.ofSymbol? c = some lexeme) :
    ¬Names lexeme :=
  (by decide : ∀ s ∈ symbols, ¬Names s.2) _ (mem_symbols h)

theorem Writes.isWord {lexeme : Lexeme} {span after : List Char} (h : Writes lexeme span after)
    (hnames : Names lexeme) : IsWord span after := by
  cases h with
  | number hspan hafter => exact hnames.elim
  | named hword hname => exact hword
  | function hword hnot hname => exact hword
  | symbol after hsymbol => exact absurd hnames (not_names_of_ofSymbol? hsymbol)

/-- A variable or a function is what its word means. -/
theorem Writes.ofWord?_eq {lexeme : Lexeme} {span after : List Char} (h : Writes lexeme span after)
    (hnames : Names lexeme) : Lexeme.ofWord? span = some lexeme := by
  cases h with
  | number hspan hafter => exact hnames.elim
  | named hword hname => simp only [Lexeme.ofWord?, hname]
  | function hword hnot hname =>
    simp only [Lexeme.ofWord?, hnot, ← hname, Function.ofName?_name]
    rfl
  | symbol after hsymbol => exact absurd hnames (not_names_of_ofSymbol? hsymbol)

theorem text_of_ofSymbol? {c : Char} {lexeme : Lexeme} (h : Lexeme.ofSymbol? c = some lexeme) :
    lexeme.text = String.ofList [c] ∧ lexeme ≠ .finish :=
  (by decide : ∀ s ∈ symbols, s.2.text = String.ofList [s.1] ∧ s.2 ≠ .finish) _ (mem_symbols h)

/-- Numbers and symbols are their own characters. -/
theorem Writes.text_eq {lexeme : Lexeme} {span after : List Char} (h : Writes lexeme span after)
    (hnames : ¬Names lexeme) : lexeme.text = String.ofList span := by
  cases h with
  | number hspan hafter => rfl
  | named hword hname => exact absurd trivial hnames
  | function hword hnot hname => exact absurd trivial hnames
  | symbol after hsymbol => exact (text_of_ofSymbol? hsymbol).1

theorem Writes.ne_finish {lexeme : Lexeme} {span after : List Char} (h : Writes lexeme span after) :
    lexeme ≠ .finish := by
  cases h with
  | number hspan hafter => simp
  | named hword hname => simp
  | function hword hnot hname => simp
  | symbol after hsymbol => exact (text_of_ofSymbol? hsymbol).2

/-- Only a number can end in a character of a word that does not go on with what follows. -/
theorem Writes.eq_number {lexeme : Lexeme} {span after : List Char} (h : Writes lexeme span after)
    {c d : Char} (hlast : span.getLast? = some c) (hc : continuesWord c = true)
    (hnext : after.head? = some d) (hd : continuesWord d = true) :
    ∃ literal, lexeme = .number literal := by
  cases h with
  | number hspan hafter => exact ⟨_, rfl⟩
  | named hword hname => cases hd.symm.trans (hword.ends d hnext)
  | function hword hnot hname => cases hd.symm.trans (hword.ends d hnext)
  | symbol after hsymbol =>
    obtain rfl := Option.some.inj hlast
    cases hc.symm.trans (of_ofSymbol? hsymbol).2.2.2

namespace Covers

variable {text : List Char} {start stop : Nat} {pieces : List Piece}

theorem position_lt_stop (h : Covers text start stop pieces) {p : Piece} (hp : p ∈ pieces) :
    p.position < p.stop := by
  obtain ⟨before, after, -, -, hwrites⟩ := h.written p hp
  have := List.length_pos_iff.2 hwrites.ne_nil
  rw [Piece.stop]
  omega

theorem increasing (h : Covers text start stop pieces) :
    pieces.Pairwise fun p q => p.position < q.position := by
  refine h.apart.imp_of_mem ?_
  intro p q hp hq hapart
  exact Nat.lt_of_lt_of_le (h.position_lt_stop hp) hapart

/-- Of two lexemes that are not the same the one ends before the other starts. -/
theorem apart_of_mem (h : Covers text start stop pieces) {p q : Piece} (hp : p ∈ pieces)
    (hq : q ∈ pieces) : p = q ∨ p.stop ≤ q.position ∨ q.stop ≤ p.position := by
  by_cases heq : p = q
  · exact Or.inl heq
  · refine Or.inr ?_
    have hapart : pieces.Pairwise fun p q => p.stop ≤ q.position ∨ q.stop ≤ p.position :=
      h.apart.imp Or.inl
    have : Std.Symm fun p q : Piece => p.stop ≤ q.position ∨ q.stop ≤ p.position :=
      ⟨fun _ _ => Or.symm⟩
    exact hapart.forall hp hq heq

/-- A character right before a lexeme is a blank or the last one of another lexeme. -/
theorem exists_stop_eq (h : Covers text start stop pieces) {p : Piece} (hp : p ∈ pieces)
    (hstart : start < p.position) {c : Char} (hc : text[p.position - 1]? = some c)
    (hblank : isBlank c = false) : ∃ q ∈ pieces, q.stop = p.position := by
  have hstop := (h.within p hp).2
  have hlt := h.position_lt_stop hp
  have hcovered : ∃ q ∈ pieces, q.position ≤ p.position - 1 ∧ p.position - 1 < q.stop := by
    by_contra hnone
    refine Bool.eq_false_iff.1 hblank ((h.isBlank_iff _ c (by omega) (by omega) hc).2 ?_)
    exact fun q hq hinside => hnone ⟨q, hq, hinside⟩
  obtain ⟨q, hq, hfrom, hto⟩ := hcovered
  refine ⟨q, hq, ?_⟩
  rcases h.apart_of_mem hp hq with rfl | hafter | hbefore
  · omega
  · omega
  · omega

/-- A word goes back to a blank, to a symbol or to the start of the text, or else to the end of a
number. -/
theorem exists_number (h : Covers text start stop pieces) {p : Piece} (hp : p ∈ pieces)
    (hnames : Names p.lexeme) (hstart : start < p.position) {c : Char}
    (hc : text[p.position - 1]? = some c) (hcontinues : continuesWord c = true) :
    ∃ q ∈ pieces, q.stop = p.position ∧ ∃ literal, q.lexeme = .number literal := by
  have hblank := isBlank_eq_false_of_continuesWord hcontinues
  obtain ⟨q, hq, hends⟩ := h.exists_stop_eq hp hstart hc hblank
  obtain ⟨before, after, htext, hbefore, hwrites⟩ := h.written p hp
  obtain ⟨before', after', htext', hbefore', hwrites'⟩ := h.written q hq
  have hlength : 0 < q.span.length := List.length_pos_iff.2 hwrites'.ne_nil
  rw [Piece.stop] at hends
  -- what follows the one lexeme starts with the other
  have hsplit : before' ++ q.span = before ∧ after' = p.span ++ after := by
    refine List.append_inj ?_ ?_
    · rw [List.append_assoc, ← htext', htext]
    · rw [List.length_append, hbefore', hbefore, hends]
  obtain ⟨d, hhead, hd⟩ := (hwrites.isWord hnames).starts
  have hnext : after'.head? = some d := by
    rw [hsplit.2, List.head?_append, hhead]
    rfl
  have hlast : q.span.getLast? = some c := by
    rw [List.getLast?_eq_getElem?, ← hc, htext', List.getElem?_append_right (by omega),
      List.getElem?_append_left (by omega)]
    congr 1
    omega
  exact ⟨q, hq, hends, hwrites'.eq_number hlast hcontinues hnext (continuesWord_of_startsWord hd)⟩

end Covers

theorem Covers.word {text : List Char} {start stop : Nat} {pieces : List Piece}
    (h : Covers text start stop pieces) {p : Piece} (hp : p ∈ pieces) (hnames : Names p.lexeme) :
    (∀ c ∈ p.span, continuesWord c = true) ∧
      ∀ c, text[p.stop]? = some c → continuesWord c = false := by
  obtain ⟨before, after, htext, hbefore, hwrites⟩ := h.written p hp
  have hword := hwrites.isWord hnames
  refine ⟨hword.continues, fun c hc => hword.ends c ?_⟩
  have hstop : p.stop = (before ++ p.span).length := by
    rw [Piece.stop, List.length_append, hbefore]
  rw [← hc, hstop, htext, ← List.append_assoc, List.getElem?_append_right (Nat.le_refl _),
    Nat.sub_self, List.head?_eq_getElem?]

/-- The pieces are the lexemes of a text up to a position. They do not meet, there is nothing but
blanks around them and no blank in them. Words are made of the characters of words and are as long as
they can be: nothing that follows goes on with them, and before them only a number ends in such a
character. No token but the last one is the end of the text. -/
structure IsCut (text : List Char) (stop : Nat) (pieces : List Piece) : Prop where
  covers : Covers text 0 stop pieces
  increasing : pieces.Pairwise fun p q => p.position < q.position
  verbatim : ∀ p ∈ pieces, ¬Names p.lexeme → p.lexeme.text = String.ofList p.span
  word : ∀ p ∈ pieces, Names p.lexeme → (∀ c ∈ p.span, continuesWord c = true) ∧
    ∀ c, text[p.stop]? = some c → continuesWord c = false
  reaching : ∀ p ∈ pieces, Names p.lexeme → 0 < p.position →
    ∀ c, text[p.position - 1]? = some c → continuesWord c = true →
      ∃ q ∈ pieces, q.stop = p.position ∧ ∃ literal, q.lexeme = .number literal
  unfinished : ∀ p ∈ pieces, p.lexeme ≠ .finish

theorem Covers.isCut {text : List Char} {stop : Nat} {pieces : List Piece}
    (h : Covers text 0 stop pieces) : IsCut text stop pieces where
  covers := h
  increasing := h.increasing
  verbatim p hp hnames := by
    obtain ⟨before, after, -, -, hwrites⟩ := h.written p hp
    exact hwrites.text_eq hnames
  word _ hp hnames := h.word hp hnames
  reaching p hp hnames hstart c hc hcontinues := h.exists_number hp hnames hstart hc hcontinues
  unfinished p hp := by
    obtain ⟨before, after, -, -, hwrites⟩ := h.written p hp
    exact hwrites.ne_finish

theorem Cut.last_eq {formula : String} {pieces : List Piece} {last : Nat}
    (h : Cut 0 formula.toList pieces last []) : last = formula.length := by
  obtain ⟨before, htext, hlast⟩ := h.exists_append
  rw [← String.length_toList, htext, ← hlast, List.append_nil, Nat.zero_add]

/-- A text that is made of lexemes and blanks up to its end has these lexemes as its tokens. -/
theorem Cut.scan_eq {formula : String} {pieces : List Piece}
    (h : Cut 0 formula.toList pieces formula.length []) :
    scan formula = .ok (pieces.map Piece.token ++ [⟨.finish, formula.length⟩]) := by
  rw [scan, h.scanFrom_eq, scanFrom_nil]
  rfl

theorem exists_cut_of_scan {formula : String} {tokens : List Token} (h : scan formula = .ok tokens) :
    ∃ pieces, Cut 0 formula.toList pieces formula.length [] ∧
      tokens = pieces.map Piece.token ++ [⟨.finish, formula.length⟩] := by
  obtain ⟨pieces, last, rest, hcut, rfl | ⟨mistake, hmistake⟩⟩ := exists_cut 0 formula.toList
  · obtain rfl := hcut.last_eq
    exact ⟨pieces, hcut, Except.ok.inj (h.symm.trans hcut.scan_eq)⟩
  · rw [scan, hcut.scanFrom_eq, scanFrom_misspelled hmistake] at h
    cases h

/-- The tokens of a text are the lexemes that it is made of, up to its end, and then the end. A text
without tokens is made of lexemes up to the position that is blamed, where another one should start
but none is written. -/
theorem scan_cuts (formula : String) :
    (∃ pieces, scan formula = .ok (pieces.map Piece.token ++ [⟨.finish, formula.length⟩]) ∧
      IsCut formula.toList formula.length pieces) ∨
    ∃ mistake position pieces,
      scan formula = .error (.malformed mistake formula (some position)) ∧
      IsCut formula.toList position pieces ∧
      (∃ c, formula.toList[position]? = some c ∧ isBlank c = false) ∧
      Misspelled mistake (formula.toList.drop position) ∧
      ∀ lexeme span after, formula.toList.drop position = span ++ after →
        ¬Writes lexeme span after := by
  obtain ⟨pieces, last, rest, hcut, hrest⟩ := exists_cut 0 formula.toList
  have hisCut := (hcut.covers (List.nil_append _).symm rfl).isCut
  rcases hrest with rfl | ⟨mistake, hmistake⟩
  · obtain rfl := hcut.last_eq
    exact Or.inl ⟨pieces, hcut.scan_eq, hisCut⟩
  · obtain ⟨before, htext, hlast⟩ := hcut.exists_append
    have hdrop : formula.toList.drop last = rest := by
      rw [htext, ← hlast, Nat.zero_add, List.drop_left]
    refine Or.inr ⟨mistake, last, pieces, ?_, hisCut, ?_, hdrop ▸ hmistake, ?_⟩
    · rw [scan, hcut.scanFrom_eq, scanFrom_misspelled hmistake]
      rfl
    · obtain ⟨c, hhead, hblank⟩ := hmistake.not_blank
      refine ⟨c, ?_, hblank⟩
      rw [← hhead, ← hdrop, List.head?_drop]
    · intro lexeme span after hafter
      rw [hdrop] at hafter
      exact (hafter ▸ hmistake).not_writes lexeme

/-- A word may start right after a number, though numbers and words are made of common characters. It
is then no maximal run of them. -/
theorem word_after_number :
    ∃ pieces, scan "2x" = .ok (pieces.map Piece.token ++ [⟨.finish, 2⟩]) ∧
      IsCut "2x".toList 2 pieces ∧
      ∃ p ∈ pieces, p.token = ⟨.named .level, 1⟩ ∧ Names p.lexeme ∧ 0 < p.position ∧
        ∃ c, "2x".toList[p.position - 1]? = some c ∧ continuesWord c = true := by
  have hscan : scan "2x" = .ok [⟨.number "2", 0⟩, ⟨.named .level, 1⟩, ⟨.finish, 2⟩] := by
    decide +kernel
  obtain ⟨pieces, hcut, htokens⟩ := exists_cut_of_scan hscan
  have hmem : (⟨.named .level, 1⟩ : Token) ∈ pieces.map Piece.token := by
    have hall : (⟨.named .level, 1⟩ : Token) ∈ pieces.map Piece.token ++ [⟨.finish, 2⟩] := by
      change _ = pieces.map Piece.token ++ [⟨.finish, 2⟩] at htokens
      rw [← htokens]
      exact List.mem_cons_of_mem _ List.mem_cons_self
    simpa using hall
  obtain ⟨p, hp, htoken⟩ := List.mem_map.1 hmem
  obtain ⟨hlexeme, hposition⟩ := Token.mk.inj htoken
  refine ⟨pieces, htokens ▸ hscan, (hcut.covers (List.nil_append _).symm rfl).isCut, p, hp, htoken,
    ?_, ?_, '2', ?_, by decide +kernel⟩
  · rw [hlexeme]
    exact trivial
  · omega
  · rw [hposition]
    rfl

end ExperienceCurves.Formula.Token
