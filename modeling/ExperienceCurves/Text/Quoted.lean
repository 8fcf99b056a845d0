import ExperienceCurves.Text.Printable

/-!
Text in quotes, as messages show it. Single quotes are used unless the text holds one and no double
quote. The quote in use, the backslash, and characters without a printed form are escaped.
-/
namespace ExperienceCurves.Text

def hexDigits (width n : Nat) : List Char :=
  let digits := Nat.toDigits 16 n
  List.replicate (width - digits.length) '0' ++ digits

/-- Escapes by number take two, four or eight digits. -/
def escapeByNumber (c : Char) : List Char :=
  if c.toNat < 0x100 then ['\\', 'x'] ++ hexDigits 2 c.toNat
  else if c.toNat < 0x10000 then ['\\', 'u'] ++ hexDigits 4 c.toNat
  else ['\\', 'U'] ++ hexDigits 8 c.toNat

def escape (quote c : Char) : List Char :=
  if c = quote ∨ c = '\\' then ['\\', c]
  else match c with
    | '\t' => ['\\', 't']
    | '\n' => ['\\', 'n']
    | '\r' => ['\\', 'r']
    | _ => if isPrintable c then [c] else escapeByNumber c

def quoteFor (text : List Char) : Char :=
  if '\'' ∈ text ∧ '"' ∉ text then '"' else '\''

def quoted (text : String) : String :=
  let quote := quoteFor text.toList
  String.ofList (quote :: text.toList.flatMap (escape quote) ++ [quote])

end ExperienceCurves.Text
