import Toolpath.Text.Blank

/-!
# Comments of a program

A semicolon makes the rest of its line a comment, and so do parentheses around a block, which may
nest. `interpretable?` takes the comments off a line. It replaces innermost blocks by a space, round
after round, until no block is left, and gives up the line from a parenthesis that stays open.
-/

namespace Toolpath.Program

def beforeSemicolon (cs : List Char) : List Char := cs.takeWhile (· ≠ ';')

/-- The text from a place on with its innermost blocks replaced, and the same for the text after the
next closing parenthesis if no opening one comes before it. -/
abbrev Blocks := List Char × Option (List Char)

def consBlock (c : Char) : Blocks → Blocks
  | (text, closed) =>
    if c = ')' then (c :: text, some text)
    else if c = '(' then
      match closed with
      | some rest => (' ' :: rest, none)
      | none => (c :: text, none)
    else (c :: text, closed)

/-- Every innermost block is replaced by a space. -/
def blankBlocks (cs : List Char) : List Char := (cs.foldr consBlock ([], none)).1

/-- Rounds of `blankBlocks` until one changes nothing. The first argument bounds their count; each
round that changes something takes an opening parenthesis away. -/
def blankRounds : Nat → List Char → List Char
  | 0, cs => cs
  | fuel + 1, cs =>
    let next := blankBlocks cs
    if next = cs then cs else blankRounds fuel next

/-- The line without any block in parentheses, up to an opening one without a partner. -/
def withoutBlocks (cs : List Char) : List Char :=
  (blankRounds (cs.count '(') cs).takeWhile (· ≠ '(')

/-- The trimmed line is one block from its first to its last character. -/
def isOneBlock : List Char → Bool
  | '(' :: cs => cs.getLast? = some ')' && !cs.dropLast.contains ')'
  | _ => false

/-- What is left of a line without its comments and the blanks around it, unless nothing is left. -/
def interpretable? (line : List Char) : Option (List Char) :=
  let code := Text.trim (beforeSemicolon line)
  if code.isEmpty || isOneBlock code then none
  else if !code.contains '(' then some code
  else
    let rest := Text.trim (withoutBlocks code)
    if rest.isEmpty then none else some rest

end Toolpath.Program
