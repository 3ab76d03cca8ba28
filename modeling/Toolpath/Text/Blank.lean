/-!
# Blank characters

`isBlank` is the white space of Unicode, 25 characters. `trim` takes blanks off both ends of a text
and `words` cuts a text at them.
-/

namespace Toolpath.Text

/-- The white space characters as closed ranges of code points, ascending and apart. -/
def blankRanges : List (Nat × Nat) :=
  [(0x09, 0x0D), (0x20, 0x20), (0x85, 0x85), (0xA0, 0xA0), (0x1680, 0x1680), (0x2000, 0x200A),
    (0x2028, 0x2029), (0x202F, 0x202F), (0x205F, 0x205F), (0x3000, 0x3000)]

def isBlank (c : Char) : Bool := blankRanges.any fun r => r.1 ≤ c.toNat && c.toNat ≤ r.2

def trimEnd (cs : List Char) : List Char := (cs.reverse.dropWhile isBlank).reverse

def trim (cs : List Char) : List Char := trimEnd (cs.dropWhile isBlank)

def consWord (word : List Char) (later : List (List Char)) : List (List Char) :=
  if word.isEmpty then later else word :: later

def splitWord : List Char → List Char × List (List Char)
  | [] => ([], [])
  | c :: cs =>
    let (word, later) := splitWord cs
    if isBlank c then ([], consWord word later) else (c :: word, later)

def words (cs : List Char) : List (List Char) :=
  let (word, later) := splitWord cs
  consWord word later

end Toolpath.Text
