import ExperienceCurves.Json

/-!
Reading plain data from the part of YAML that settings are written in: comments, mappings and lists
in block form, one entry a line, and scalars, plain or in quotes. Lines that belong to an entry are
indented deeper than it.
-/
namespace ExperienceCurves.Yaml

structure Line where
  indent : Nat
  text : List Char

/-- Whether a comment, or nothing, is all that follows. -/
def isOver (text : List Char) : Bool :=
  match text.dropWhile (· == ' ') with
  | [] => true
  | c :: _ => c == '#'

/-- The lines of a text, the first of which begins with the given characters, last one first. -/
def linesFrom (line : List Char) : List Char → List (List Char)
  | [] => [line.reverse]
  | '\n' :: rest => line.reverse :: linesFrom [] rest
  | c :: rest => linesFrom (c :: line) rest

def Line.ofText (text : List Char) : Line :=
  ⟨(text.takeWhile (· == ' ')).length, text.dropWhile (· == ' ')⟩

/-- The lines that say something. -/
def lines (text : String) : List Line :=
  ((linesFrom [] (text.toList.filter (· ≠ '\r'))).map Line.ofText).filter fun line =>
    !isOver line.text

/-- The text before a comment, which a blank has to precede. -/
def beforeComment : List Char → List Char
  | [] => []
  | ' ' :: '#' :: _ => []
  | c :: rest => c :: beforeComment rest

def trimEnd (text : List Char) : List Char := (text.reverse.dropWhile (· == ' ')).reverse

/-- The rest of a text in single quotes, where a quote is written twice. -/
def single? : List Char → Option (List Char × List Char)
  | [] => none
  | '\'' :: '\'' :: rest => (single? rest).map fun (taken, rest) => ('\'' :: taken, rest)
  | '\'' :: rest => some ([], rest)
  | c :: rest => (single? rest).map fun (taken, rest) => (c :: taken, rest)

/-- A text in quotes at the start. -/
def quoted? : List Char → Option (String × List Char)
  | '\'' :: rest => (single? rest).map fun (taken, rest) => (String.ofList taken, rest)
  | '\x22' :: rest => (Json.string? rest).map fun (w, rest) => (w.mended, rest)
  | _ => none

/-- A whole number without leading zeros. Underscores may stand after its first digit. -/
def whole? (text : List Char) : Option Int :=
  let (negative, digits) := Numeral.sign text
  match digits with
  | ['0'] => some 0
  | c :: _ =>
      if c.isDigit && c != '0' && digits.all fun d => d.isDigit || d == '_' then
        let magnitude : Int := Numeral.ofDigits (digits.filter Char.isDigit)
        some (if negative then -magnitude else magnitude)
      else none
  | [] => none

/-- A number with a point; an exponent has to have a sign. -/
def decimal? (text : List Char) : Option Binary64 :=
  let (negative, digits) := Numeral.sign text
  match digits.dropWhile Char.isDigit with
  | '.' :: rest =>
      match rest.dropWhile Char.isDigit with
      | [] => Numeral.decimal? negative digits
      | _ :: sign :: _ =>
          if sign = '+' ∨ sign = '-' then Numeral.decimal? negative digits else none
      | _ => none
  | _ => none

/-- The words that stand for a value, each in small letters, capitalized or in capitals. -/
def words : List (List String × Datum) :=
  [(["~", "null", "Null", "NULL"], .null),
    (["true", "True", "TRUE", "yes", "Yes", "YES", "on", "On", "ON"], .truth true),
    (["false", "False", "FALSE", "no", "No", "NO", "off", "Off", "OFF"], .truth false),
    (["[]"], .list []), (["\x7b\x7d"], .record [])]

/-- What a plain scalar stands for. -/
def plain (text : List Char) : Datum :=
  let word := String.ofList text
  match words.find? fun entry => word ∈ entry.1 with
  | some entry => entry.2
  | none =>
      match whole? text, decimal? text with
      | some n, _ => .int n
      | none, some x => .real x
      | none, none => .text word

/-- A scalar in quotes or a plain one, with a comment after it or nothing. -/
def scalar? (text : List Char) : Option Datum :=
  match text with
  | '\'' :: _ | '\x22' :: _ =>
      match quoted? text with
      | some (s, rest) => if isOver rest then some (.text s) else none
      | none => none
  | _ => some (plain (trimEnd (beforeComment text)))

/-- The characters before a colon that a blank or the end follows, and those after it. -/
def splitColon? : List Char → Option (List Char × List Char)
  | [] => none
  | [':'] => some ([], [])
  | ':' :: ' ' :: rest => some ([], rest)
  | c :: rest => (splitColon? rest).map fun (before, after) => (c :: before, after)

/-- The name of an entry and the text after its colon. -/
def field? (text : List Char) : Option (String × List Char) :=
  match quoted? text with
  | some (name, rest) =>
      match splitColon? rest with
      | some (between, after) => if isOver between then some (name, after) else none
      | none => none
  | none => (splitColon? text).map fun (name, after) => (String.ofList (trimEnd name), after)

/-- The scalars of a list, one to a line. -/
def items? (indent : Nat) (lines : List Line) : Option (List Datum) :=
  lines.mapM fun line =>
    match line.text with
    | '-' :: ' ' :: rest =>
        if line.indent = indent then scalar? (rest.dropWhile (· == ' ')) else none
    | ['-'] => if line.indent = indent then some .null else none
    | _ => none

mutual

/-- The data that lines stand for together. Every call takes a line, so the number of lines bounds
the calls. -/
def block? : Nat → List Line → Option Datum
  | 0, _ => none
  | _ + 1, [] => some .null
  | calls + 1, line :: rest =>
      if line.text.head? = some '-' && (items? line.indent (line :: rest)).isSome then
        (items? line.indent (line :: rest)).map .list
      else if (field? line.text).isSome then
        (fields? calls line.indent [] (line :: rest)).map .record
      else if rest.isEmpty then scalar? line.text
      else none

def fields? : Nat → Nat → List (String × Datum) → List Line → Option (List (String × Datum))
  | _, _, fields, [] => some fields
  | 0, _, _, _ => none
  | calls + 1, indent, fields, line :: rest => do
      let (name, after) ← if line.indent = indent then field? line.text else none
      let inner := rest.takeWhile fun other => indent < other.indent
      let value ←
        if isOver after then block? calls inner
        else if inner.isEmpty then scalar? (after.dropWhile (· == ' '))
        else none
      fields? calls indent (Datum.store name value fields)
        (rest.dropWhile fun other => indent < other.indent)

end

/-- The data of a document. -/
def parse? (text : String) : Option Datum :=
  let lines := lines text
  block? (2 * lines.length + 2) lines

end ExperienceCurves.Yaml
