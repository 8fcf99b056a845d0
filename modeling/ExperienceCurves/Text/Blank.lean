import ExperienceCurves.Text.Ranges

/-!
Blank characters: the separators of the Unicode character database, version 14, together with the
controls that end lines, move the carriage or separate records.
-/
namespace ExperienceCurves.Text

def blankRanges : Ranges :=
  [(9, 13), (28, 32), (133, 133), (160, 160), (5760, 5760), (8192, 8202), (8232, 8233),
    (8239, 8239), (8287, 8287), (12288, 12288)]

def isBlank (c : Char) : Bool := blankRanges.covers c

/-- The blanks of the basic range that surround a written number. -/
def isPlainBlank (c : Char) : Bool := c == ' ' || (9 ≤ c.toNat && c.toNat ≤ 13)

end ExperienceCurves.Text
