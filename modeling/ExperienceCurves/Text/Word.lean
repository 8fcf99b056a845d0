/-!
Words: strings as messages in JSON hold them. Most are texts. A word that holds half of a surrogate
pair is a sequence of code points, but no text, and nothing can encode it.
-/
namespace ExperienceCurves

namespace Word

/-- Half of a surrogate pair. -/
def isHalf (point : Nat) : Bool := 0xD800 ≤ point && point < 0xE000

theorem isHalf_toNat (c : Char) : isHalf c.toNat = false := by
  have hvalid : c.toNat < 0xD800 ∨ 0xDFFF < c.toNat ∧ c.toNat < 0x110000 := c.valid
  rw [isHalf, Bool.and_eq_false_iff, decide_eq_false_iff_not, decide_eq_false_iff_not]
  omega

end Word

/-- Code points with half of a surrogate pair among them. -/
structure Torn where
  points : List Nat
  isTorn : points.any Word.isHalf = true
  deriving DecidableEq

inductive Word
  | text (s : String)
  | torn (t : Torn)
  deriving DecidableEq

namespace Word

instance : Coe String Word := ⟨text⟩

def ofPoints (points : List Nat) : Word :=
  if h : points.any isHalf = true then torn ⟨points, h⟩
  else text (String.ofList (points.map Char.ofNat))

def points : Word → List Nat
  | text s => s.toList.map Char.toNat
  | torn t => t.points

theorem any_isHalf_text (s : String) : (text s).points.any isHalf = false := by
  rw [points, List.any_map, List.any_eq_false]
  exact fun c _ => Bool.eq_false_iff.1 (isHalf_toNat c)

theorem points_injective {v w : Word} (h : v.points = w.points) : v = w := by
  cases v with
  | text s =>
    cases w with
    | text s' =>
      have hchars : s.toList = s'.toList :=
        (List.map_inj_right fun _ _ => Char.toNat_inj.1).1 h
      exact congrArg text (String.toList_inj.1 hchars)
    | torn t =>
      have htext := any_isHalf_text s
      rw [h] at htext
      cases htext.symm.trans t.isTorn
  | torn t =>
    cases w with
    | text s =>
      have htext := any_isHalf_text s
      rw [← h] at htext
      cases htext.symm.trans t.isTorn
    | torn t' =>
      cases t
      cases t'
      exact congrArg torn (Torn.mk.injEq .. ▸ h)

/-- Words are ordered by their code points. -/
instance : LT Word := ⟨fun v w => v.points.lt w.points⟩

instance : LE Word := ⟨fun v w => v.points.le w.points⟩

instance (v w : Word) : Decidable (v < w) := List.decidableLT v.points w.points

instance (v w : Word) : Decidable (v ≤ w) := List.decidableLE v.points w.points

theorem le_trans {u v w : Word} (huv : u ≤ v) (hvw : v ≤ w) : u ≤ w := List.le_trans huv hvw

theorem le_total (v w : Word) : v ≤ w ∨ w ≤ v := List.le_total v.points w.points

theorem lt_of_le_of_ne {v w : Word} (hle : v ≤ w) (hne : v ≠ w) : v < w :=
  Decidable.byContradiction fun hnot =>
    hne (points_injective (List.le_antisymm hle (List.not_lt.1 hnot)))

/-- The text with a mark in the place of every half. -/
def mended : Word → String
  | text s => s
  | torn t =>
      String.ofList (t.points.map fun point => if isHalf point then '\uFFFD' else Char.ofNat point)

end Word

/-- What is said of the first halves that cannot be encoded. They are looked for from an offset on,
in a writing that gives each code point some width. -/
def Torn.trouble (t : Torn) (offset : Nat) (width : Nat → Nat) : String :=
  let whole := t.points.takeWhile fun point => !Word.isHalf point
  let halves := (t.points.drop whole.length).takeWhile Word.isHalf
  let first := whole.foldl (fun position point => position + width point) offset
  let what :=
    if halves.length = 1 then
      "character '\\u" ++ String.ofList (halves.flatMap (Nat.toDigits 16)) ++ "' in position " ++
        toString first
    else "characters in position " ++ toString first ++ "-" ++ toString (first + halves.length - 1)
  "'utf-8' codec can't encode " ++ what ++ ": surrogates not allowed"

end ExperienceCurves
