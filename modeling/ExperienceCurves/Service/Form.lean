import ExperienceCurves.Preset
import ExperienceCurves.Service.Checked
import ExperienceCurves.Text.Blank

/-!
Forms: what the bodies and parameters of requests have to look like. Texts that hold a numeral are
taken as numbers, whole decimals as whole numbers, and truth values as one and zero. Fields may be
named in one word with capitals or in several words with underscores; other fields are ignored.
Only names of segments, profiles and characters may be torn.
-/
namespace ExperienceCurves.Service.Form

-- Powers of whole numbers are those of the core library, whatever else is imported.
attribute [local instance (high)] instPowNat

open Checked (valid invalid refuse)
open Json (Value)

abbrev Reader (α : Type) := Value → Checked α

/-- Blanks around a numeral; separators of records are none. -/
def isSpace (c : Char) : Bool := Text.isBlank c && !(28 ≤ c.toNat && c.toNat ≤ 31)

def trim (text : List Char) : List Char :=
  ((text.dropWhile isSpace).reverse.dropWhile isSpace).reverse

/-- Whether another character follows each underscore. -/
def areSingle : List Char → Bool
  | [] => true
  | ['_'] => false
  | '_' :: '_' :: _ => false
  | _ :: rest => areSingle rest

/-- The text without underscores, each of which has to stand between two other characters. -/
def joined? (text : List Char) : Option (List Char) :=
  if text.head? ≠ some '_' ∧ areSingle text then some (text.filter (· ≠ '_')) else none

/-- The longest whole number, with its minus sign. -/
def longestWhole : Nat := 4300

/-- A whole number without leading zeros, as it is written in plain data. -/
def plainWhole (text : List Char) : Except Flaw Int :=
  let (negative, body) := match text with
    | '-' :: rest => (true, rest)
    | _ => (false, text)
  let digits := body.takeWhile Char.isDigit
  let length := digits.length + if negative then 1 else 0
  if digits.head? = some '0' ∧ body ≠ ['0'] then .error .unreadableWhole
  else if longestWhole < length then .error .wholeTooLarge
  else if digits = [] ∨ digits ≠ body then .error .unreadableWhole
  else .ok (if negative then -(Numeral.ofDigits digits : Int) else Numeral.ofDigits digits)

/-- What remains when zeros and underscores are dropped after a first zero. A minus sign may still
follow, and one character before a point stays. -/
def afterZeros (last : Char) : List Char → Option (List Char)
  | [] => some [last]
  | c :: rest =>
      if c = '0' ∨ c = '_' then afterZeros c rest
      else if c.isDigit ∨ c = '-' then some (c :: rest)
      else if c = '.' then some (last :: c :: rest)
      else none

/-- A number that starts with a digit or a minus sign, without leading zeros. -/
def withoutZeros : List Char → Option (List Char)
  | [] => none
  | c :: rest =>
      if c = '0' then afterZeros c rest
      else if c.isDigit ∨ c = '-' then some (c :: rest)
      else none

/-- Drop a point and the zeros after it, if there are any and nothing else follows. -/
def withoutFraction (text : List Char) : List Char :=
  let fraction := (text.dropWhile (· ≠ '.')).drop 1
  if fraction ≠ [] ∧ fraction.all (· == '0') then text.takeWhile (· ≠ '.') else text

/-- A plain form of a whole number: no blanks around it, no plus sign, no leading zeros, no fraction
of zeros and no underscores. -/
def simplified (text : List Char) : Option (List Char) := do
  let text := trim text
  let unsigned ← match text with
    | '+' :: '-' :: _ => none
    | '+' :: rest => some rest
    | _ => some text
  let body := withoutFraction (← withoutZeros unsigned)
  return (joined? body).getD body

/-- A whole number is read as it is written, and if that fails, in its plain form. -/
def wholeOfText (text : String) : Except Flaw Int :=
  match plainWhole text.toList with
  | .error .unreadableWhole =>
      match simplified text.toList with
      | some body => plainWhole body
      | none => .error .unreadableWhole
  | result => result

def plainDecimal? (text : List Char) : Option Binary64 :=
  let (negative, body) := Numeral.sign text
  (Numeral.decimal? negative body).orElse fun _ => Numeral.word? negative body

/-- A number with blanks around it, or with underscores in it. -/
def decimalOfText? (text : String) : Option Binary64 :=
  (plainDecimal? (trim text.toList)).orElse fun _ => (joined? text.toList).bind plainDecimal?

/-- Decimals are taken as whole numbers below this bound. -/
def wholeBound : Int := 2 ^ (63 : Nat)

def wholeOfReal (x : Binary64) : Except Flaw Int :=
  if x.isFinite then
    if x.toRat.den = 1 then
      if -wholeBound < x.toRat.num ∧ x.toRat.num < wholeBound then .ok x.toRat.num
      else .error .wholeTooLarge
    else .error .fractional
  else .error .notFinite

/-- A result, or a complaint about what was given. -/
def settle (given : Value) : Except Flaw α → Checked α
  | .ok a => valid a
  | .error flaw => refuse flaw given

def wholeOf : Value → Except Flaw Int
  | .number (.int n) => .ok n
  | .number (.truth b) => .ok (if b then 1 else 0)
  | .number (.real x) => wholeOfReal x
  | .text (.text s) => wholeOfText s
  | .text (.torn _) => .error .notUnicode
  | _ => .error .notWhole

def decimalOf : Value → Except Flaw Binary64
  | .number n =>
      match n.toBinary64 with
      | .ok x => .ok x
      | .error _ => .error .notDecimal
  | .text (.text s) =>
      match decimalOfText? s with
      | some x => .ok x
      | none => .error .unreadableDecimal
  | .text (.torn _) => .error .notUnicode
  | _ => .error .notDecimal

/-- The words for truth values, in any case of letters. -/
def truthOfText? (text : String) : Option Bool :=
  let word := text.map Char.toLower
  if word ∈ ["1", "t", "y", "on", "yes", "true"] then some true
  else if word ∈ ["0", "f", "n", "no", "off", "false"] then some false
  else none

def truthOf : Value → Except Flaw Bool
  | .number (.truth b) => .ok b
  | .number n =>
      match wholeOf (.number n) with
      | .ok 1 => .ok true
      | .ok 0 => .ok false
      | .ok m => .error (if -wholeBound ≤ m ∧ m < wholeBound then .unreadableTruth else .notTruth)
      | .error _ => .error .notTruth
  | .text (.text s) =>
      match truthOfText? s with
      | some b => .ok b
      | none => .error .unreadableTruth
  | .text (.torn _) => .error .notUnicode
  | _ => .error .notTruth

def whole : Reader Int := fun v => settle v (wholeOf v)

def decimal : Reader Binary64 := fun v => settle v (decimalOf v)

def truth : Reader Bool := fun v => settle v (truthOf v)

/-- A word, which may be torn. -/
def word : Reader Word
  | .text w => valid w
  | v => refuse .notText v

def text : Reader String
  | .text (.text s) => valid s
  | .text (.torn t) => refuse .notUnicode (.text (.torn t))
  | v => refuse .notText v

def endpoint : Reader Editing.Endpoint := fun v =>
  match Editing.Endpoint.ofDatum v.mended with
  | .ok e => valid e
  | .error _ => refuse .notChoice v

def nonempty (read : Reader String) : Reader String := fun v =>
  (read v).filter v (· ≠ "") fun _ => .textTooShort

def shorter (longest : Nat) (read : Reader String) : Reader String := fun v =>
  (read v).filter v (·.length ≤ longest) fun _ => .textTooLong

def wholeFrom (least : Int) : Reader Int := fun v =>
  (whole v).filter v (least ≤ ·) fun _ => .tooLow

def wholeWithin (least greatest : Int) : Reader Int := fun v =>
  (wholeFrom least v).filter v (· ≤ greatest) fun _ => .tooHigh

/-- A decimal from zero on, which NaN is not. -/
def amount : Reader Binary64 := fun v =>
  (decimal v).filter v (Binary64.le 0) fun _ => .tooLow

def optional (read : Reader α) : Reader (Option α)
  | .null => valid none
  | v => some <$> read v

def listOf (read : Reader α) : Reader (List α)
  | .list items => Checked.all (items.map read)
  | v => refuse .notList v

abbrev Fields := List (Word × Value)

def record (read : Fields → Checked α) : Reader α
  | .record fields => read fields
  | v => refuse .notRecord v

/-- The other spelling of a name, in small letters with underscores. -/
def underscored (name : String) : String :=
  String.ofList (name.toList.flatMap fun c => if c.isUpper then ['_', c.toLower] else [c])

/-- A field with the name that it is found by. -/
def spelled? (name : String) (fields : Fields) : Option (String × Value) :=
  (fields.find? fun field => field.1 = .text name).map fun field => (name, field.2)

/-- A field in either spelling. -/
def given? (name : String) (fields : Fields) : Option (String × Value) :=
  (spelled? name fields).orElse fun _ => spelled? (underscored name) fields

def required (name : String) (read : Reader α) (fields : Fields) : Checked α :=
  match given? name fields with
  | some field => (read field.2).under field.1
  | none => (refuse .missing (.record fields)).under name

def withDefault (name : String) (fallback : α) (read : Reader α) (fields : Fields) : Checked α :=
  match given? name fields with
  | some field => (read field.2).under field.1
  | none => valid fallback

def longestFormula : Nat := 1000

def controlPoint : Reader ControlPoint := record fun fields =>
  ControlPoint.mk <$> required "x" decimal fields <*> required "y" decimal fields

def span (fields : Fields) : Checked Span :=
  (fun id startLevel endLevel => Span.mk id (.int startLevel) (.int endLevel))
    <$> required "id" (nonempty text) fields <*> required "startLevel" (wholeFrom 1) fields
    <*> required "endLevel" (wholeFrom 1) fields

/-- The range of a segment is only looked at when all its fields are valid. -/
def ordered [Spanned α] (fields : Fields) (segment : Checked α) : Checked α :=
  segment.filter (.record fields)
    (fun s => (Spanned.span s).startLevel.lt (Spanned.span s).endLevel) fun s =>
    .refused (RangeError.message ⟨.reversed, (Spanned.span s).startLevel, (Spanned.span s).endLevel⟩)

def formulaSegment : Reader FormulaSegment := record fun fields => ordered fields <|
  FormulaSegment.mk <$> span fields
    <*> required "formula" (shorter longestFormula (nonempty text)) fields

def bezierSegment : Reader BezierSegment := record fun fields => ordered fields <|
  (fun span startExp endExp control1 control2 =>
      { toSpan := span, startExp := .real startExp, endExp := .real endExp, control1, control2 })
    <$> span fields <*> required "startExp" amount fields <*> required "endExp" amount fields
    <*> withDefault "controlPoint1" .usual1 controlPoint fields
    <*> withDefault "controlPoint2" .usual2 controlPoint fields

/-- A segment of either kind. What could be both is a Bezier segment. -/
def segment : Reader Segment := fun v =>
  match bezierSegment v, formulaSegment v with
  | .valid s, _ => valid (.bezier s)
  | .invalid _, .valid s => valid (.formula s)
  | .invalid first, .invalid second =>
      invalid (first.map (Complaint.under "BezierSegmentModel") ++
        second.map (Complaint.under "FormulaSegmentModel"))

def curve : Reader Curve := record fun fields =>
  (fun segments bezierSegments useBezier scale =>
      { segments, bezierSegments, useBezier, yAxisMax := scale.map Datum.real })
    <$> withDefault "segments" [] (listOf formulaSegment) fields
    <*> withDefault "bezierSegments" [] (listOf bezierSegment) fields
    <*> withDefault "useBezier" false truth fields
    <*> withDefault "yAxisMax" none (optional decimal) fields

structure Publication where
  curve : Curve
  maxLevel : Option Int

def highestMaxLevel : Int := 10000

def publication : Reader Publication := record fun fields =>
  Publication.mk <$> required "curve" curve fields
    <*> withDefault "maxLevel" none (optional (wholeWithin 1 highestMaxLevel)) fields

def appended : Reader (Option Segment) := record (withDefault "segment" none (optional segment))

def redistribution : Reader (Option Int) :=
  record (withDefault "maxLevel" none (optional (wholeFrom 2)))

structure Drag where
  segmentId : Word
  endpoint : Editing.Endpoint
  level : Binary64
  exp : Binary64

def drag : Reader Drag := record fun fields =>
  Drag.mk <$> required "segmentId" word fields <*> required "endpoint" endpoint fields
    <*> required "level" decimal fields <*> required "exp" decimal fields

def range : Reader (Int × Int) := record fun fields =>
  Prod.mk <$> required "startLevel" whole fields <*> required "endLevel" whole fields

def mode : Reader Bool := record (required "useBezier" truth)

structure Evaluation where
  formula : String
  level : Binary64
  size : Binary64

def formula : Fields → Checked String :=
  required "formula" (shorter longestFormula text)

def evaluation : Reader Evaluation := record fun fields =>
  Evaluation.mk <$> formula fields <*> withDefault "level" 1 decimal fields
    <*> withDefault "size" 0 decimal fields

def validation : Reader String := record formula

structure Creation where
  profile : Word
  characterId : Option Word

def creation : Reader Creation := record fun fields =>
  Creation.mk <$> withDefault "profile" (.text Preset.player.name) word fields
    <*> withDefault "characterId" none (optional word) fields

def experience : Reader Binary64 := record (required "exp" amount)

end ExperienceCurves.Service.Form
