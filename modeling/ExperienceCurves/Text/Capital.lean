/-!
Letter case as far as it reaches the basic Latin letters: capital and small forms of the basic
letters, and of the few other characters whose capital or small form consists of basic letters.
Every other character stands for itself.
-/
namespace ExperienceCurves.Text

/-- The capital form, which for ligatures and the sharp s is more than one letter. -/
def capital (c : Char) : List Char :=
  if 'a' ≤ c ∧ c ≤ 'z' then [Char.ofNat (c.toNat - 32)]
  else match c with
    | 'ß' => ['S', 'S']
    | 'ı' => ['I']
    | 'ſ' => ['S']
    | 'ﬀ' => ['F', 'F']
    | 'ﬁ' => ['F', 'I']
    | 'ﬂ' => ['F', 'L']
    | 'ﬃ' => ['F', 'F', 'I']
    | 'ﬄ' => ['F', 'F', 'L']
    | 'ﬅ' => ['S', 'T']
    | 'ﬆ' => ['S', 'T']
    | _ => [c]

/-- The small form. The sign for the unit of temperature is a letter K. -/
def small (c : Char) : Char :=
  if 'A' ≤ c ∧ c ≤ 'Z' then Char.ofNat (c.toNat + 32)
  else if c = '\u212A' then 'k'
  else c

def capitals (word : List Char) : List Char := word.flatMap capital

def smalls (word : List Char) : List Char := word.map small

end ExperienceCurves.Text
