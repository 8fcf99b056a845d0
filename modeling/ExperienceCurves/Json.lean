import ExperienceCurves.Json.Value
import ExperienceCurves.Numeral

/-!
Reading data from JSON text. Beyond the standard, the words `NaN`, `Infinity` and `-Infinity` are
numbers. A number without point and exponent is whole, a name that a record repeats keeps its last
value, and half of a surrogate pair may stand in a word. Reading stops at the first mistake, or where
a limit is passed.
-/
namespace ExperienceCurves.Json

inductive Trouble
  | malformed
  | tooManyDigits
  | tooDeep
  deriving DecidableEq

abbrev Reader (α : Type) := List Char → Option (α × List Char)

/-- What a reader finds, where nothing found is a mistake. -/
def found : Option α → Except Trouble α
  | some a => .ok a
  | none => .error .malformed

def isBlank (c : Char) : Bool := c == ' ' || c == '\t' || c == '\n' || c == '\r'

def skipBlanks (text : List Char) : List Char := text.dropWhile isBlank

/-- What follows the given start. -/
def after? : List Char → List Char → Option (List Char)
  | [], text => some text
  | c :: start, d :: text => if c = d then after? start text else none
  | _ :: _, [] => none

def hexValue? (c : Char) : Option Nat :=
  if c.isDigit then some (c.toNat - 48)
  else if 'a' ≤ c ∧ c ≤ 'f' then some (c.toNat - 87)
  else if 'A' ≤ c ∧ c ≤ 'F' then some (c.toNat - 55)
  else none

/-- Four hexadecimal digits. -/
def unit? : Reader Nat
  | a :: b :: c :: d :: rest => do
      let a ← hexValue? a
      let b ← hexValue? b
      let c ← hexValue? c
      let d ← hexValue? d
      return (((a * 16 + b) * 16 + c) * 16 + d, rest)
  | _ => none

/-- A code point by number. Two units of a surrogate pair make one code point. -/
def numbered? (text : List Char) : Option (Nat × List Char) := do
  let (high, rest) ← unit? text
  if 0xD800 ≤ high ∧ high < 0xDC00 then
    match (after? ['\\', 'u'] rest).bind unit? with
    | some (low, afterPair) =>
        if 0xDC00 ≤ low ∧ low < 0xE000 then
          return (0x10000 + (high - 0xD800) * 0x400 + (low - 0xDC00), afterPair)
        else return (high, rest)
    | none => return (high, rest)
  else return (high, rest)

def escaped? : List Char → Option (Nat × List Char)
  | '\x22' :: rest => some (34, rest)
  | '\\' :: rest => some (92, rest)
  | '/' :: rest => some (47, rest)
  | 'b' :: rest => some (8, rest)
  | 'f' :: rest => some (12, rest)
  | 'n' :: rest => some (10, rest)
  | 'r' :: rest => some (13, rest)
  | 't' :: rest => some (9, rest)
  | 'u' :: rest => numbered? rest
  | _ => none

/-- The code points up to the closing quote. -/
def stringFrom : Nat → List Nat → Reader (List Nat)
  | 0, _, _ => none
  | _, _, [] => none
  | rounds + 1, taken, c :: rest =>
      if c = '\x22' then some (taken.reverse, rest)
      else if c = '\\' then do
        let (point, rest) ← escaped? rest
        stringFrom rounds (point :: taken) rest
      else if c.toNat < 32 then none
      else stringFrom rounds (c.toNat :: taken) rest

/-- The word after an opening quote. -/
def string? (text : List Char) : Option (Word × List Char) := do
  let (taken, rest) ← stringFrom (text.length + 1) [] text
  return (.ofPoints taken, rest)

/-- A whole part without leading zeros. -/
def whole? : Reader (List Char)
  | '0' :: rest => some (['0'], rest)
  | text =>
      let digits := text.takeWhile Char.isDigit
      if digits.isEmpty then none else some (digits, text.dropWhile Char.isDigit)

/-- A point and digits, if they come next. -/
def fraction (text : List Char) : List Char × List Char :=
  match text with
  | '.' :: rest =>
      let digits := rest.takeWhile Char.isDigit
      if digits.isEmpty then ([], text) else ('.' :: digits, rest.dropWhile Char.isDigit)
  | _ => ([], text)

/-- An exponent mark and digits, if they come next. -/
def power (text : List Char) : List Char × List Char :=
  match text with
  | mark :: rest =>
      if mark = 'e' ∨ mark = 'E' then
        let signs := (rest.take 1).filter fun c => c == '+' || c == '-'
        let digits := (rest.drop signs.length).takeWhile Char.isDigit
        if digits.isEmpty then ([], text)
        else (mark :: signs ++ digits, rest.drop (signs.length + digits.length))
      else ([], text)
  | [] => ([], text)

def number (negative : Bool) (text : List Char) : Except Trouble (Number × List Char) := do
  let (digits, rest) ← found (whole? text)
  let (fractionPart, rest) := fraction rest
  let (powerPart, rest) := power rest
  if fractionPart.isEmpty && powerPart.isEmpty then
    if Numeral.longest < digits.length then throw .tooManyDigits
    let magnitude : Int := Numeral.ofDigits digits
    return (.int (if negative then -magnitude else magnitude), rest)
  else
    let x ← found (Numeral.decimal? negative (digits ++ fractionPart ++ powerPart))
    return (.real x, rest)

def words : List (List Char × Value) :=
  [("null".toList, .null), ("true".toList, .number (.truth true)),
    ("false".toList, .number (.truth false)), ("NaN".toList, .number (.real .nan)),
    ("Infinity".toList, .number (.real (.infinite false))),
    ("-Infinity".toList, .number (.real (.infinite true)))]

def word? (text : List Char) : Option (Value × List Char) :=
  words.findSome? fun word => (after? word.1 text).map fun rest => (word.2, rest)

def scalar (text : List Char) : Except Trouble (Value × List Char) :=
  match word? text with
  | some result => .ok result
  | none =>
      match text with
      | '\x22' :: rest => (found (string? rest)).map fun (w, rest) => (.text w, rest)
      | '-' :: rest => (number true rest).map fun (n, rest) => (.number n, rest)
      | _ => (number false text).map fun (n, rest) => (.number n, rest)

/-- How deep lists and records are nested at most. -/
def deepest : Nat := 960

mutual

/-- A value at the start of the text. Every call takes at least one character, so the length of
the text bounds the calls. -/
def value : Nat → Nat → List Char → Except Trouble (Value × List Char)
  | 0, _, _ => .error .malformed
  | _ + 1, 0, '[' :: _ => .error .tooDeep
  | calls + 1, depth + 1, '[' :: text =>
      match skipBlanks text with
      | ']' :: rest => .ok (.list [], rest)
      | text => (items calls depth text).map fun (items, rest) => (.list items, rest)
  | _ + 1, 0, '\x7b' :: _ => .error .tooDeep
  | calls + 1, depth + 1, '\x7b' :: text =>
      match skipBlanks text with
      | '\x7d' :: rest => .ok (.record [], rest)
      | text => (fields calls depth [] text).map fun (fields, rest) => (.record fields, rest)
  | _ + 1, _, text => scalar text

def items : Nat → Nat → List Char → Except Trouble (List Value × List Char)
  | 0, _, _ => .error .malformed
  | calls + 1, depth, text => do
      let (item, rest) ← value calls depth (skipBlanks text)
      match skipBlanks rest with
      | ',' :: rest =>
          let (others, rest) ← items calls depth rest
          return (item :: others, rest)
      | ']' :: rest => return ([item], rest)
      | _ => throw .malformed

def fields : Nat → Nat → List (Word × Value) → List Char →
    Except Trouble (List (Word × Value) × List Char)
  | 0, _, _, _ => .error .malformed
  | calls + 1, depth, before, text => do
      let quoted ← found (after? ['\x22'] (skipBlanks text))
      let (name, rest) ← found (string? quoted)
      let rest ← found (after? [':'] (skipBlanks rest))
      let (value, rest) ← value calls depth (skipBlanks rest)
      match skipBlanks rest with
      | ',' :: rest => fields calls depth (Value.store name value before) rest
      | '\x7d' :: rest => return (Value.store name value before, rest)
      | _ => throw .malformed

end

/-- The value that the whole text stands for. -/
def read (text : String) : Except Trouble Value := do
  let (value, rest) ← value (text.length + 1) deepest (skipBlanks text.toList)
  if (skipBlanks rest).isEmpty then return value else throw .malformed

/-- The plain data that the whole text stands for, where torn words are mended. -/
def parse (text : String) : Except Trouble Datum := Value.mended <$> read text

end ExperienceCurves.Json
