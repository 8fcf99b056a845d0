import ExperienceCurves.Binary64
import ExperienceCurves.Text.Blank
import ExperienceCurves.Text.Digit

/-!
Numerals in text: how words are read as numbers. Decimal digits of every script count, blanks may
surround the numeral, and a single underscore may separate two digits.
-/
namespace ExperienceCurves.Numeral

-- Powers of whole numbers are those of the core library, whatever else is imported.
attribute [local instance (high)] instPowNat

/-- Bring decimal digits and blanks of all scripts into the basic range. -/
def plain (c : Char) : Char :=
  if c.toNat < 127 then c
  else if Text.isBlank c then ' '
  else match Text.decimalValue? c with
    | some value => Char.ofNat (48 + value)
    | none => c

def strip (text : List Char) : List Char :=
  ((text.dropWhile Text.isPlainBlank).reverse.dropWhile Text.isPlainBlank).reverse

/-- Drop the underscores, if each stands between two digits. `before` tells whether a digit was
just passed. -/
def joinFrom (before : Bool) : List Char → Option (List Char)
  | [] => some []
  | '_' :: c :: rest =>
      if before && c.isDigit then (joinFrom true rest).map (c :: ·) else none
  | ['_'] => none
  | c :: rest => (joinFrom c.isDigit rest).map (c :: ·)

def join (text : List Char) : Option (List Char) := joinFrom false text

/-- The value of digits read from the left. -/
def ofDigits (digits : List Char) : Nat :=
  digits.foldl (fun value c => 10 * value + (c.toNat - 48)) 0

/-- Split off a sign; `true` stands for minus. -/
def sign : List Char → Bool × List Char
  | '-' :: rest => (true, rest)
  | '+' :: rest => (false, rest)
  | text => (false, text)

/-- The power of ten after an exponent mark, or zero without one. -/
def exponent? : List Char → Option Int
  | [] => some 0
  | mark :: rest =>
      if mark = 'e' ∨ mark = 'E' then
        let (negative, digits) := sign rest
        if digits ≠ [] ∧ digits.all Char.isDigit then
          some (if negative then -(ofDigits digits : Int) else ofDigits digits)
        else none
      else none

/-- Digits with at most one point among them and at least one digit, then an exponent. -/
def decimal? (negative : Bool) (text : List Char) : Option Binary64 :=
  let whole := text.takeWhile Char.isDigit
  let afterWhole := text.dropWhile Char.isDigit
  let (fraction, rest) := match afterWhole with
    | '.' :: more => (more.takeWhile Char.isDigit, more.dropWhile Char.isDigit)
    | _ => ([], afterWhole)
  if whole.isEmpty && fraction.isEmpty then none
  else (exponent? rest).map fun power =>
    Binary64.ofDecimal negative (ofDigits (whole ++ fraction)) (power - fraction.length)

/-- The words for infinity and for what is no number, in any case of letters. -/
def word? (negative : Bool) (text : List Char) : Option Binary64 :=
  let word := String.ofList (text.map Char.toLower)
  if word = "inf" ∨ word = "infinity" then some (.infinite negative)
  else if word = "nan" then some .nan
  else none

def binary64? (text : String) : Option Binary64 := do
  let joined ← join (strip (text.toList.map plain))
  let (negative, body) := sign joined
  (decimal? negative body).orElse fun _ => word? negative body

/-- Numerals of whole numbers have at most this many digits. -/
def longest : Nat := 4300

/-- Whether a whole number has so few digits that it can be written. -/
def isWritable (n : Int) : Bool := n.natAbs.repr.length ≤ longest

theorem isWritable_iff {n : Int} : isWritable n = true ↔ n.natAbs < 10 ^ longest :=
  decide_eq_true_iff.trans (Nat.length_repr_le_iff (by decide))

/-- The digits that a numeral of a whole number begins with. -/
def leadingDigits (text : String) : List Char :=
  let (_, body) := sign (strip (text.toList.map plain))
  (join (body.takeWhile fun c => c.isDigit || c == '_')).getD []

def int? (text : String) : Option Int := do
  let (negative, body) := sign (strip (text.toList.map plain))
  let digits ← join body
  if digits ≠ [] ∧ digits.all Char.isDigit then
    some (if negative then -(ofDigits digits : Int) else ofDigits digits)
  else none

end ExperienceCurves.Numeral
