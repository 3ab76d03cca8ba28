import Toolpath.Arc.Polyline
import Toolpath.Path.Document
import Toolpath.Program.Block

/-!
# Modal state

What one line of a program leaves behind for the next: where the tool is, and the plane, distance
mode and motion in force. `State.step` interprets one block; its `Effect` is what the block adds to
the toolpath.
-/

namespace Toolpath.Program

/-- What one line leaves behind for the next. -/
structure State where
  position : Position := .origin
  /-- Coordinates are absolute and not steps. -/
  absolute : Bool := true
  plane : Plane := .xy
  /-- The motion of the last line that named one. -/
  motion : Option Motion := none
  /-- A line has said where the tool is. -/
  originSet : Bool := false
  /-- No line has asked for a motion. -/
  awaitsMotion : Bool := true
  line : Nat := 0
deriving DecidableEq

structure Effect where
  waypoints : List Waypoint := []
  arcs : Nat := 0
  /-- The count of waypoints that a line reports. It is kept beside them. -/
  reported : Nat := 0
deriving DecidableEq

namespace State

def distanceMode (s : State) : String :=
  if s.absolute then "Absolute (G90)" else "Incremental (G91)"

def motionDescription (s : State) : String :=
  match s.motion with
  | some m => m.description
  | none => "None"

def withModes (s : State) (b : Block) : State :=
  { s with plane := b.plane.getD s.plane, absolute := b.absolute.getD s.absolute }

/-- The motion that a block asks for: the one it names, or else the one in force if it names a
coordinate. Before any motion is in force, coordinates ask for a rapid. -/
def motionOf (s : State) (b : Block) : Option Motion :=
  match b.motion with
  | some m => some m
  | none => if b.hasCoordinates then some (s.motion.getD .rapid) else none

def setOrigin (s : State) (b : Block) : State :=
  { s with position := b.target true s.position, originSet := true }

/-- The state in which a motion is carried out: it is in force if the block named it, and the first
motion has come. -/
def beginMotion (s : State) (b : Block) : State :=
  { s with motion := b.motion <|> s.motion, awaitsMotion := false }

/-- The motion is the first of the program, a rapid, and nothing has said where the tool is. -/
def isOpeningRapid (s : State) (m : Motion) : Bool :=
  s.awaitsMotion && !s.originSet && m = .rapid

/-- The block describes an arc around a centre of its own, so that an arc back to its start may be
a full circle. -/
def namesCentre (s : State) (b : Block) (m : Motion) : Bool :=
  m.turn?.isSome && (b.offset? s.plane).any fun (u, v) => Arc.leastRadius ≤ Single.hypot u v

def arc (s : State) (b : Block) (turn : Turn) : Arc :=
  { start := s.position
    finish := b.target s.absolute s.position
    plane := s.plane
    turn := turn
    offset := b.offset? s.plane
    radius := b.r }

/-- What a motion adds to the toolpath. A rapid that opens it adds the position it starts from. -/
def motionEffect (settings : ArcSettings) (fresh : Bool) (s : State) (b : Block) : Motion → Effect
  | .arc turn =>
    let points := (s.arc b turn).points settings
    { waypoints := points.tail.map fun p => ⟨p, false⟩, arcs := 1, reported := points.length - 1 }
  | .linear => { waypoints := [⟨b.target s.absolute s.position, false⟩], reported := 1 }
  | .rapid =>
    let goal : Waypoint := ⟨b.target s.absolute s.position, true⟩
    { waypoints := if fresh then [⟨s.position, true⟩, goal] else [goal], reported := if fresh then 2 else 1 }

/-- A motion that leads nowhere is passed over, unless it opens the program or may be a full
circle. -/
def isIdle (s : State) (b : Block) (m : Motion) : Bool :=
  s.position.coincides (b.target s.absolute s.position) && !s.isOpeningRapid m
    && !s.namesCentre b m

/-- One block interpreted. The flag says that the toolpath is still empty. -/
def step (settings : ArcSettings) (fresh : Bool) (s : State) (b : Block) : State × Effect :=
  let s := s.withModes b
  if b.setsOrigin then (s.setOrigin b, {})
  else match s.motionOf b with
    | none => (s, {})
    | some m =>
      let moved := s.beginMotion b
      if s.isIdle b m then (moved, {})
      else
        ({ moved with position := b.target s.absolute s.position },
          s.motionEffect settings fresh b m)

end State

end Toolpath.Program
