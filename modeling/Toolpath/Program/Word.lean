import Toolpath.Decimal.Numeral
import Toolpath.Text.Blank

/-!
# Words of a program

A word is a letter with a number. The letters that move the tool or change how it moves have kinds
of their own; all others are kept apart.
-/

namespace Toolpath.Program

/-- What a word of the letter G asks for. -/
inductive Code where
  | rapid
  | linear
  | arcClockwise
  | arcCounterClockwise
  | planeXY
  | planeZX
  | planeYZ
  | absolute
  | incremental
  | setOrigin
  | unsupported (value : Float32)
deriving DecidableEq

/-- The code of a number. Codes are told apart to a tenth. -/
def Code.ofValue (value : Float32) : Code :=
  match Single.toSigned32 .nearest (value * 10) with
  | 0 => .rapid
  | 10 => .linear
  | 20 => .arcClockwise
  | 30 => .arcCounterClockwise
  | 170 => .planeXY
  | 180 => .planeZX
  | 190 => .planeYZ
  | 900 => .absolute
  | 910 => .incremental
  | 920 => .setOrigin
  | _ => .unsupported value

inductive Word where
  | code (c : Code)
  | x (value : Float32)
  | y (value : Float32)
  | z (value : Float32)
  /-- The centre of an arc along the first axis, counted from its start. -/
  | i (value : Float32)
  | j (value : Float32)
  | k (value : Float32)
  | r (value : Float32)
  /-- Any other letter, in upper case. -/
  | other (letter : Char) (value : Float32)
deriving DecidableEq

namespace Word

def ofLetter (letter : Char) (value : Float32) : Word :=
  if letter = 'G' then .code (.ofValue value)
  else if letter = 'X' then .x value
  else if letter = 'Y' then .y value
  else if letter = 'Z' then .z value
  else if letter = 'I' then .i value
  else if letter = 'J' then .j value
  else if letter = 'K' then .k value
  else if letter = 'R' then .r value
  else .other letter value

/-- The word that a text spells: a letter of the alphabet in either case and a number that is
finite in single precision. -/
def ofText? : List Char → Option Word
  | [] => none
  | c :: cs =>
    if c.isAlpha then
      match Decimal.Numeral.free? cs with
      | some n =>
        let value := n.toSingle
        if value.isFinite then some (ofLetter c.toUpper value) else none
      | none => none
    else none

/-- The words of a line, cut at blanks. What spells no word is passed over. -/
def ofLine (line : List Char) : List Word := (Text.words line).filterMap ofText?

end Word

end Toolpath.Program
