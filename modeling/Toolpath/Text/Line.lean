/-!
# Lines of a text

A line ends at a line feed, and one carriage return right before the line feed belongs to the end.
-/

namespace Toolpath.Text

/-- Puts a character before the lines of the text after it. The flag says that a line feed comes
next, where a carriage return is dropped. -/
def consChar (c : Char) : List (List Char) × Bool → List (List Char) × Bool
  | (ls, beforeFeed) =>
    if c = '\n' then ([] :: ls, true)
    else if c = '\r' && beforeFeed then (ls, false)
    else match ls with
      | [] => ([[c]], false)
      | line :: later => ((c :: line) :: later, false)

/-- The lines of a text without their ends. No empty line follows a line feed at the end of the
text, and a carriage return that no line feed follows is part of its line. -/
def lines (cs : List Char) : List (List Char) := (cs.foldr consChar ([], false)).1

def numbered (ls : List (List Char)) : List (Nat × List Char) :=
  ls.zipIdx.map fun (line, i) => (i + 1, line)

end Toolpath.Text
