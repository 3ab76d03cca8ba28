import Toolpath.Arc.Basic
import Toolpath.Program.Word

/-!
# Blocks

A block is what one line of a program asks for. It has one slot for each kind of word, and the last
word of a kind is the one that counts.
-/

namespace Toolpath.Program

inductive Motion where
  | rapid
  | linear
  | arc (turn : Turn)
deriving DecidableEq, Repr

namespace Motion

def description : Motion → String
  | .rapid => "Rapid (G00)"
  | .linear => "Linear (G01)"
  | .arc .clockwise => "Arc CW (G02)"
  | .arc .counterClockwise => "Arc CCW (G03)"

def turn? : Motion → Option Turn
  | .arc turn => some turn
  | _ => none

end Motion

def Code.motion? : Code → Option Motion
  | .rapid => some .rapid
  | .linear => some .linear
  | .arcClockwise => some (.arc .clockwise)
  | .arcCounterClockwise => some (.arc .counterClockwise)
  | _ => none

def Code.plane? : Code → Option Plane
  | .planeXY => some .xy
  | .planeZX => some .zx
  | .planeYZ => some .yz
  | _ => none

/-- The distance mode that a code selects: whether coordinates are absolute. -/
def Code.absolute? : Code → Option Bool
  | .absolute => some true
  | .incremental => some false
  | _ => none

/-- What one line asks for. -/
structure Block where
  motion : Option Motion := none
  plane : Option Plane := none
  absolute : Option Bool := none
  setsOrigin : Bool := false
  x : Option Float32 := none
  y : Option Float32 := none
  z : Option Float32 := none
  i : Option Float32 := none
  j : Option Float32 := none
  k : Option Float32 := none
  r : Option Float32 := none
deriving DecidableEq

namespace Block

def addCode (b : Block) (c : Code) : Block :=
  { b with
    motion := c.motion? <|> b.motion
    plane := c.plane? <|> b.plane
    absolute := c.absolute? <|> b.absolute
    setsOrigin := b.setsOrigin || c = .setOrigin }

def add (b : Block) : Word → Block
  | .code c => b.addCode c
  | .x v => { b with x := some v }
  | .y v => { b with y := some v }
  | .z v => { b with z := some v }
  | .i v => { b with i := some v }
  | .j v => { b with j := some v }
  | .k v => { b with k := some v }
  | .r v => { b with r := some v }
  | .other _ _ => b

def ofWords (ws : List Word) : Block := ws.foldl add {}

def ofLine (line : List Char) : Block := ofWords (Word.ofLine line)

def hasCoordinates (b : Block) : Bool := b.x.isSome || b.y.isSome || b.z.isSome

/-- A coordinate after its word: replaced, or added to in incremental distance. -/
def axis (absolute : Bool) (word : Option Float32) (current : Float32) : Float32 :=
  match word with
  | some v => if absolute then v else current + v
  | none => current

def target (b : Block) (absolute : Bool) (p : Position) : Position :=
  ⟨axis absolute b.x p.x, axis absolute b.y p.y, axis absolute b.z p.z⟩

def offsetWords (b : Block) : Plane → Option Float32 × Option Float32
  | .xy => (b.i, b.j)
  | .zx => (b.k, b.i)
  | .yz => (b.j, b.k)

/-- The offset of an arc centre in a plane, if at least one of its two words is given. -/
def offset? (b : Block) (plane : Plane) : Option (Float32 × Float32) :=
  match b.offsetWords plane with
  | (none, none) => none
  | (u, v) => some (u.getD 0, v.getD 0)

end Block

end Toolpath.Program
