import ExperienceCurves.Proofs.RoundedHalves
import ExperienceCurves.Proofs.Spacing
import ExperienceCurves.Proofs.Values

/-!
Rounding functions around a formula. A formula that stands as the only argument of a function is
read there as it is read alone, so that the function gets its value. Its value rounded down, to the
nearest whole number and up fits together, unless adding a half to it carries too far.
-/
namespace ExperienceCurves.Formula

open Text

namespace Token

/-- Nothing that a number or a word could go on with. -/
def Breaks (after : List Char) : Prop :=
  ∀ c, after.head? = some c → continuesWord c = false ∧ isDigit c = false ∧ c ≠ '.'

variable {after more : List Char}

theorem breaks_closing (more : List Char) : Breaks (')' :: more) := by
  intro c hc
  obtain rfl := Option.some.inj hc
  exact ⟨by decide +kernel, by decide, by decide⟩

theorem head?_append_of_breaks {p : Char → Prop} (hafter : ∀ c, after.head? = some c → p c)
    (hmore : ∀ c, more.head? = some c → p c) : ∀ c, (after ++ more).head? = some c → p c := by
  intro c hc
  cases after with
  | nil => exact hmore c hc
  | cons d after => exact hafter c hc

theorem IsWord.append {span : List Char} (h : IsWord span after) (hmore : Breaks more) :
    IsWord span (after ++ more) where
  starts := h.starts
  continues := h.continues
  ends := head?_append_of_breaks h.ends fun c hc => (hmore c hc).1

theorem Writes.append {lexeme : Lexeme} {span : List Char} (h : Writes lexeme span after)
    (hmore : Breaks more) : Writes lexeme span (after ++ more) := by
  cases h with
  | number hspan hafter =>
    exact .number hspan (head?_append_of_breaks hafter fun c hc => (hmore c hc).2)
  | named hword hname => exact .named (hword.append hmore) hname
  | function hword hnot hname => exact .function (hword.append hmore) hnot hname
  | symbol after hsymbol => exact .symbol _ hsymbol

/-- The lexemes of a text stay what they are at another place and before more text. -/
theorem Cut.append {position last : Nat} {text rest : List Char} {pieces : List Piece}
    (h : Cut position text pieces last rest) (hmore : Breaks more) (start : Nat) :
    ∃ moved stop, Cut start (text ++ more) moved stop (rest ++ more) ∧
      moved.map Piece.lexeme = pieces.map Piece.lexeme := by
  induction h generalizing start with
  | stop => exact ⟨[], start, .stop _ _, rfl⟩
  | blank hblank h ih =>
    obtain ⟨moved, stop, hcut, hlexemes⟩ := ih (start + 1)
    exact ⟨moved, stop, .blank hblank hcut, hlexemes⟩
  | @piece position lexeme span after pieces last rest hwrites h ih =>
    obtain ⟨moved, stop, hcut, hlexemes⟩ := ih (start + span.length)
    refine ⟨⟨lexeme, start, span⟩ :: moved, stop, ?_, ?_⟩
    · rw [List.append_assoc]
      exact .piece (hwrites.append hmore) hcut
    · rw [List.map_cons, List.map_cons, hlexemes]

theorem Cut.trans {position middle last : Nat} {text between rest : List Char}
    {pieces others : List Piece} (h : Cut position text pieces middle between)
    (h' : Cut middle between others last rest) :
    Cut position text (pieces ++ others) last rest := by
  induction h with
  | stop => exact h'
  | blank hblank h ih => exact .blank hblank (ih h')
  | piece hwrites h ih => exact .piece hwrites (ih h')

end Token

/-- The text of a function with the formula as its only argument. -/
def Function.around (f : Function) (formula : String) : String := f.name ++ "(" ++ formula ++ ")"

open Token

theorem Function.writes_name (f : Function) (more : List Char) :
    Writes (.function f) f.name.toList ('(' :: more) := by
  refine .function ⟨?_, ?_, ?_⟩ ?_ ?_
  · cases f <;> exact ⟨_, rfl, rfl⟩
  · apply List.all_eq_true.1
    cases f <;> decide +kernel
  · intro c hc
    obtain rfl := Option.some.inj hc
    decide +kernel
  · cases f <;> decide +kernel
  · cases f <;> decide +kernel

theorem Function.exists_cut_around (f : Function) {formula : String} {pieces : List Piece}
    (h : Cut 0 formula.toList pieces formula.length []) :
    ∃ moved, Cut 0 (f.around formula).toList moved (f.around formula).length [] ∧
      moved.map Piece.lexeme = .function f :: .opening :: (pieces.map Piece.lexeme ++ [.closing]) := by
  obtain ⟨moved, stop, hcut, hlexemes⟩ :=
    h.append (breaks_closing []) (0 + f.name.toList.length + ['('].length)
  have hclosing : Cut stop [')'] [⟨.closing, stop, [')']⟩] (stop + 1) [] :=
    .piece (.symbol [] rfl) (.stop _ _)
  have htext : (f.around formula).toList =
      f.name.toList ++ (['('] ++ (formula.toList ++ [')'])) := by
    simp [around, String.toList_append]
  have hwhole : Cut 0 (f.name.toList ++ (['('] ++ (formula.toList ++ [')']))) _ (stop + 1) [] :=
    .piece (f.writes_name _) (.piece (.symbol _ rfl) (hcut.trans hclosing))
  rw [← htext] at hwhole
  refine ⟨_, hwhole.last_eq ▸ hwhole, ?_⟩
  rw [List.map_cons, List.map_cons, List.map_append, hlexemes]
  rfl

namespace Expr

variable {formula : String} {tree outer : Expr} {f : Function}

/-- The lexemes of a text that is read are those of a derivation of its tree. -/
theorem exists_derivation_of_cut {pieces : List Piece}
    (hcut : Cut 0 formula.toList pieces formula.length []) (h : ofText formula = .ok tree) :
    ∃ d : Derivation False .expression, d.lexemes = pieces.map Piece.lexeme ∧ d.tree = tree := by
  obtain ⟨-, tokens, hscan, hread⟩ := ofText_eq_ok_iff.1 h
  obtain rfl := Except.ok.inj (hcut.scan_eq.symm.trans hscan)
  have hfinish : ∀ token ∈ pieces.map Piece.token, token.lexeme ≠ .finish := by
    intro token htoken
    obtain ⟨p, hp, rfl⟩ := List.mem_map.1 htoken
    obtain ⟨after, hwrites⟩ := hcut.writes p hp
    exact hwrites.ne_finish
  obtain ⟨d, hlexemes, htree, -⟩ := (ofTokens_eq_ok_iff hfinish tree).1 hread
  rw [List.map_map] at hlexemes
  exact ⟨d, hlexemes, htree⟩

/-- The grammar has only one tree for a call around a formula. -/
theorem ofText_around (h : ofText formula = .ok tree)
    (hread : ofText (f.around formula) = .ok outer) : outer = .call f [tree] := by
  obtain ⟨-, tokens, hscan, -⟩ := ofText_eq_ok_iff.1 h
  obtain ⟨pieces, hcut, -⟩ := exists_cut_of_scan hscan
  obtain ⟨moved, haround, hmoved⟩ := f.exists_cut_around hcut
  obtain ⟨d, hd, rfl⟩ := exists_derivation_of_cut hcut h
  obtain ⟨d', hd', rfl⟩ := exists_derivation_of_cut haround hread
  let call : Derivation False .expression :=
    .chain (.term (.chain (.factor (.unsigned (.plain (.call f d .close)))) .stop)) .stop
  have hcall : call.lexemes = d'.lexemes := by
    rw [hd', hmoved, ← hd]
    simp [call, Derivation.lexemes]
  rw [← Derivation.eq_of_lexemes_eq hcall]
  rfl

variable {bindings : Bindings} {x : Binary64}

/-- The text of a formula makes no difference to a value. -/
theorem value_eq_ok (other : String) (h : value bindings formula tree = .ok x) :
    value bindings other tree = .ok x := by
  have hagrees := agrees_value formula other bindings tree
  rw [h] at hagrees
  generalize value bindings other tree = result at hagrees ⊢
  cases hagrees with
  | ok heq => rw [heq]

theorem value_call_single (f : Function) (h : value bindings formula tree = .ok x) :
    value bindings formula (.call f [tree]) = f.apply formula [x] := by
  rw [value_call, values, values, h]
  rfl

end Expr

variable {formula : String} {bindings : Bindings} {v : Binary64}

theorem evaluate_eq_ok_iff : evaluate (.text formula) bindings = .ok v ↔
    ∃ tree, Expr.ofText formula = .ok tree ∧ tree.value bindings formula = .ok v ∧
      v.isFinite = true := by
  constructor
  · intro h
    have hfinite := isFinite_of_evaluate h
    obtain ⟨tree, htree, h⟩ := Outcome.bind_eq_ok_iff.1 h
    obtain ⟨x, hx, h⟩ := Outcome.bind_eq_ok_iff.1 h
    split at h
    · obtain rfl := Except.ok.inj h
      exact ⟨tree, htree, hx, hfinite⟩
    · cases h
  · rintro ⟨tree, htree, hv, hfinite⟩
    exact Outcome.bind_eq_ok_iff.2 ⟨tree, htree,
      Outcome.bind_eq_ok_iff.2 ⟨v, hv, if_pos hfinite⟩⟩

/-- A function gets the value that its argument has alone. -/
theorem evaluate_around {f : Function} {y : Binary64}
    (hv : evaluate (.text formula) bindings = .ok v)
    (hread : ∃ outer, Expr.ofText (f.around formula) = .ok outer)
    (hy : f.apply (f.around formula) [v] = .ok y) (hfinite : y.isFinite = true) :
    evaluate (.text (f.around formula)) bindings = .ok y := by
  obtain ⟨tree, htree, hvalue, -⟩ := evaluate_eq_ok_iff.1 hv
  obtain ⟨outer, hread⟩ := hread
  obtain rfl := Expr.ofText_around htree hread
  refine evaluate_eq_ok_iff.2 ⟨_, hread, ?_, hfinite⟩
  rw [Expr.value_call_single f (Expr.value_eq_ok _ hvalue), hy]

theorem roundHalfUp_eq (hv : v.isFinite = true) :
    roundHalfUp v = .ok (Binary64.ofInt (v + decimal 5 1).toRat.floor) := by
  have hfloor := Binary64.floor?_eq (Binary64.floor_add_half_cases hv).1
  change ((v + decimal 5 1).floor? >>= _) = _
  rw [hfloor]
  rfl

/-- The value of a formula, rounded down, to the nearest whole number and up by the functions, with
a half upward. The three fit together unless adding a half carries too far, which makes the second
one larger by one. -/
theorem roundings_fit (hv : evaluate (.text formula) bindings = .ok v)
    (hread : ∀ f ∈ [Function.floor, .round, .ceil], ∃ outer,
      Expr.ofText (f.around formula) = .ok outer) :
    ∃ low nearest high,
      evaluate (.text (Function.floor.around formula)) bindings = .ok low ∧
      evaluate (.text (Function.round.around formula)) bindings = .ok nearest ∧
      evaluate (.text (Function.ceil.around formula)) bindings = .ok high ∧
      low.toRat = v.toRat.floor ∧ high.toRat = v.toRat.ceil ∧
      (¬v.Carries → nearest.toRat = (v.toRat + 1 / 2).floor) ∧
      (v.Carries → nearest.toRat = (v.toRat + 1 / 2).floor + 1) ∧
      (v.RoundsTo low nearest high ↔ ¬v.Carries) := by
  have hfinite := isFinite_of_evaluate hv
  obtain ⟨hsum, hnearest, hcarried⟩ := Binary64.floor_add_half_cases hfinite
  obtain ⟨hlowFinite, hlow⟩ := Binary64.ofInt_toRat (Binary64.exact_toRat hfinite).floor
  obtain ⟨hhighFinite, hhigh⟩ := Binary64.ofInt_toRat (Binary64.exact_toRat hfinite).ceil
  obtain ⟨hmiddleFinite, hmiddle⟩ := Binary64.ofInt_toRat (Binary64.exact_toRat hsum).floor
  have hvalues : (¬v.Carries → (Binary64.ofInt (v + decimal 5 1).toRat.floor).toRat =
        (v.toRat + 1 / 2).floor) ∧
      (v.Carries → (Binary64.ofInt (v + decimal 5 1).toRat.floor).toRat =
        (v.toRat + 1 / 2).floor + 1) := by
    constructor
    · intro h
      rw [hmiddle, hnearest h]
    · intro h
      rw [hmiddle, hcarried h]
      push_cast
      rfl
  refine ⟨_, _, _, ?_, ?_, ?_, hlow, hhigh, hvalues.1, hvalues.2,
    Binary64.roundsTo_iff hlow hhigh hvalues.1 hvalues.2⟩
  · apply evaluate_around hv (hread _ (by decide)) _ hlowFinite
    rw [Function.apply, Binary64.floor?_eq hfinite]
    rfl
  · apply evaluate_around hv (hread _ (by decide)) _ hmiddleFinite
    rw [Function.apply, roundHalfUp_eq hfinite]
    rfl
  · apply evaluate_around hv (hread _ (by decide)) _ hhighFinite
    rw [Function.apply, Binary64.ceil?_eq hfinite]
    rfl

/-- A half between two levels goes up. -/
theorem roundings_fit_half :
    let v : Binary64 := decimal 25 1
    let bindings : Bindings := ⟨some (.int 5), none⟩
    evaluate (.text "x/2") bindings = .ok v ∧
      (∀ f ∈ [Function.floor, .round, .ceil], ∃ outer,
        Expr.ofText (f.around "x/2") = .ok outer) ∧
      ¬v.Carries ∧ ∃ low nearest high,
        evaluate (.text "FLOOR(x/2)") bindings = .ok low ∧
        evaluate (.text "ROUND(x/2)") bindings = .ok nearest ∧
        evaluate (.text "CEIL(x/2)") bindings = .ok high ∧
        low.toRat = 2 ∧ nearest.toRat = 3 ∧ high.toRat = 3 ∧ v.RoundsTo low nearest high := by
  intro v bindings
  have hv : evaluate (.text "x/2") bindings = .ok v := Outcome.eq_ok_of_toOption (by decide +kernel)
  have hread : ∀ f ∈ [Function.floor, .round, .ceil], ∃ outer,
      Expr.ofText (f.around "x/2") = .ok outer := by
    intro f hf
    have hvalue : ((evaluate (.text (f.around "x/2")) bindings).toOption).isSome := by
      revert f
      decide +kernel
    cases h : evaluate (.text (f.around "x/2")) bindings with
    | ok y =>
      obtain ⟨outer, houter, -⟩ := evaluate_eq_ok_iff.1 h
      exact ⟨outer, houter⟩
    | error failure =>
      rw [h] at hvalue
      cases hvalue
  have hcarries : ¬v.Carries := by
    intro h
    have hhalf : v = Binary64.belowHalf := h.eq_belowHalf (by decide +kernel)
    revert hhalf
    decide +kernel
  obtain ⟨low, nearest, high, hfloor, hround, hceil, hlow, hhigh, hnearest, -, hfits⟩ :=
    roundings_fit hv hread
  refine ⟨hv, hread, hcarries, low, nearest, high, hfloor, hround, hceil, ?_, ?_, ?_,
    hfits.2 hcarries⟩
  · rw [hlow]
    decide +kernel
  · rw [hnearest hcarries]
    decide +kernel
  · rw [hhigh]
    decide +kernel

/-- An odd whole number is rounded to the next one, and the greatest number below a half to one. -/
theorem odd_number_not_kept :
    let v : Binary64 := .ofNat 4503599627370497
    let w : Binary64 := .belowHalf
    evaluate (.text "4503599627370497") .empty = .ok v ∧
      evaluate (.text "ROUND(4503599627370497)") .empty = .ok (.ofNat 4503599627370498) ∧
      evaluate (.text "CEIL(4503599627370497)") .empty = .ok v ∧
      ¬(Binary64.ofNat 4503599627370498).toRat ≤ v.toRat ∧
      evaluate (.text "0.49999999999999994") .empty = .ok w ∧
      evaluate (.text "ROUND(0.49999999999999994)") .empty = .ok 1 ∧
      ¬|(1 : Binary64).toRat - w.toRat| ≤ 1 / 2 := by
  refine ⟨?_, ?_, ?_, ?_, ?_, ?_, ?_⟩
  · exact Outcome.eq_ok_of_toOption (by decide +kernel)
  · exact Outcome.eq_ok_of_toOption (by decide +kernel)
  · exact Outcome.eq_ok_of_toOption (by decide +kernel)
  · decide +kernel
  · exact Outcome.eq_ok_of_toOption (by decide +kernel)
  · exact Outcome.eq_ok_of_toOption (by decide +kernel)
  · decide +kernel

end ExperienceCurves.Formula
