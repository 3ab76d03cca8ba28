import Toolpath.Arc.Basic
import Toolpath.Settings.Basic

/-!
# Arcs as polylines

`Arc.points` turns an arc into a polyline that begins at its start and ends at its finish. The
chords are shorter on smaller circles, their count is kept within the settings, and on a circle that
is not small, points too close to the one before are left out.
-/

namespace Toolpath.Arc

def cornerSegments : Nat := 16

/-- Quarter turns on circles below this radius have the fewest chords of a corner. -/
def cornerRadius : Float32 := 3

def cornerTolerance : Float32 := 0.2

/-- Points are thinned by distance only on circles of at least this radius. -/
def spacingRadius : Float32 := 1

/-- The chord that a circle is cut into at standard detail. -/
def chordLength (radius : Float32) : Float32 :=
  if radius < 1 then 0.05
  else if radius < 3 then 0.1
  else if radius < 10 then 0.25
  else 0.5

def isCorner (radius sweep : Float32) : Bool :=
  radius < cornerRadius && (sweep.abs - Single.quarterTurn).abs < cornerTolerance

/-- The count of chords before the limits apply, possibly infinite or not a number. -/
def rawSegments (s : ArcSettings) (radius sweep : Float32) : Float32 :=
  radius * sweep.abs / (chordLength radius / Single.greater s.detailMultiplier Single.epsilon)

def segmentCount (s : ArcSettings) (radius sweep : Float32) : Nat :=
  let raw := rawSegments s radius sweep
  let most := max s.maxSegments.toNat 1
  let fewest := min (max s.minSegments.toNat 1) most
  let count := if raw.isFinite then min (max (Single.toNatural32 .up raw) fewest) most else most
  if isCorner radius sweep then max count cornerSegments else count

def sample (s : ArcSettings) (arc : Arc) (c : Circle) (startAngle sweep : Float32) (n i : Nat) :
    Position :=
  let start := (arc.plane.project arc.start).normal
  let finish := (arc.plane.project arc.finish).normal
  let t := Float32.ofNat i / Float32.ofNat n
  let angle := startAngle + t * sweep
  arc.plane.compose
    { a := c.a + c.radius * Angle.cos angle
      b := c.b + c.radius * Angle.sin angle
      normal := if s.helical then start + (finish - start) * t else start }

def samples (s : ArcSettings) (arc : Arc) (c : Circle) (sweep : Float32) : List Position :=
  let n := segmentCount s c.radius sweep
  let startAngle := arc.angleAt c arc.start
  (List.range' 1 (n - 1)).map (arc.sample s c startAngle sweep n)

/-- Points of which none is closer than `gap` to the one kept before it. -/
def spaced (gap : Float32) : Position → List Position → List Position
  | _, [] => []
  | last, p :: ps => if last.distance p < gap then spaced gap last ps else p :: spaced gap p ps

def interior (s : ArcSettings) (arc : Arc) (c : Circle) (sweep : Float32) : List Position :=
  if spacingRadius ≤ c.radius && 0 < s.minSpacing then
    spaced s.minSpacing arc.start (arc.samples s c sweep)
  else arc.samples s c sweep

/-- The polyline of the arc. Without a proper circle or a sweep it is the straight line. -/
def points (s : ArcSettings) (arc : Arc) : List Position :=
  match arc.properCircle? with
  | none => [arc.start, arc.finish]
  | some c =>
    match arc.sweepAround c with
    | none => [arc.start, arc.finish]
    | some sweep => arc.start :: arc.interior s c sweep ++ [arc.finish]

end Toolpath.Arc
