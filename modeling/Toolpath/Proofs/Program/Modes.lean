import Toolpath.Proofs.Program.Words

/-!
# The history of modal words

A word sets a mode, asks for a motion, or does neither; `Mark` keeps no more of it than that. The modes after a
program are those of its last marks (`Modes.ofHistory`), whatever numbers its words carry and whichever of its
motions are passed over. A line that sets the origin asks for no motion, whatever else stands in it.
-/

namespace Toolpath.Program

/-- What a word does to the modes. Its number is left out, and a coordinate only asks for a motion. -/
inductive Mark where
  | plane (p : Plane)
  | distance (absolute : Bool)
  | motion (m : Motion)
  | origin
  | coordinate
deriving DecidableEq, Repr

def Code.mark? : Code → Option Mark
  | .rapid => some (.motion .rapid)
  | .linear => some (.motion .linear)
  | .arcClockwise => some (.motion (.arc .clockwise))
  | .arcCounterClockwise => some (.motion (.arc .counterClockwise))
  | .planeXY => some (.plane .xy)
  | .planeZX => some (.plane .zx)
  | .planeYZ => some (.plane .yz)
  | .absolute => some (.distance true)
  | .incremental => some (.distance false)
  | .setOrigin => some .origin
  | .unsupported _ => none

def Word.mark? : Word → Option Mark
  | .code c => c.mark?
  | .x _ | .y _ | .z _ => some .coordinate
  | .i _ | .j _ | .k _ | .r _ | .other _ _ => none

namespace Mark

def plane? : Mark → Option Plane
  | plane p => some p
  | _ => none

def absolute? : Mark → Option Bool
  | distance absolute => some absolute
  | _ => none

def motion? : Mark → Option Motion
  | motion m => some m
  | _ => none

end Mark

def marks (ws : List Word) : List Mark := ws.filterMap Word.mark?

/-- The part of a state that words set by themselves. -/
structure Modes where
  plane : Plane
  absolute : Bool
  motion : Option Motion
  originSet : Bool
  awaitsMotion : Bool
deriving DecidableEq

def State.modes (s : State) : Modes := ⟨s.plane, s.absolute, s.motion, s.originSet, s.awaitsMotion⟩

namespace Block

/-- The line names a motion or a coordinate. -/
def asks (b : Block) : Bool := b.motion.isSome || b.hasCoordinates

end Block

/-- The modes after a block. -/
def Modes.after (m : Modes) (b : Block) : Modes :=
  { plane := b.plane.getD m.plane
    absolute := b.absolute.getD m.absolute
    motion := if b.setsOrigin then m.motion else b.motion.or m.motion
    originSet := m.originSet || b.setsOrigin
    awaitsMotion := m.awaitsMotion && (b.setsOrigin || !b.asks) }

theorem Run.Agrees.modes {r q : Run} (agrees : r.Agrees q) : r.state.modes = q.state.modes := by
  rw [agrees.state]
  rfl

end Toolpath.Program
