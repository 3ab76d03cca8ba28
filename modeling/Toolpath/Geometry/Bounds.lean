import Toolpath.Geometry.Position

/-!
# Bounds

The least and the greatest coordinates of a set of points. The bounds of no points are inside out,
and only valid bounds have an extent.
-/

namespace Toolpath

structure Bounds where
  minX : Float32
  maxX : Float32
  minY : Float32
  maxY : Float32
  minZ : Float32
  maxZ : Float32
deriving DecidableEq

namespace Bounds

/-- The bounds of no points: every least coordinate is the greatest number, and the reverse. -/
def empty : Bounds :=
  ⟨Single.largest, -Single.largest, Single.largest, -Single.largest, Single.largest,
    -Single.largest⟩

/-- Bounds that take in one more point. A coordinate that is not a number is passed over. -/
def insert (b : Bounds) (p : Position) : Bounds :=
  { minX := Single.lesser b.minX p.x
    maxX := Single.greater b.maxX p.x
    minY := Single.lesser b.minY p.y
    maxY := Single.greater b.maxY p.y
    minZ := Single.lesser b.minZ p.z
    maxZ := Single.greater b.maxZ p.z }

def ofList (ps : List Position) : Bounds := ps.foldl insert empty

/-- All faces are finite and no least face lies beyond its greatest one. -/
def isValid (b : Bounds) : Bool :=
  b.minX.isFinite && b.maxX.isFinite && b.minY.isFinite && b.maxY.isFinite && b.minZ.isFinite
    && b.maxZ.isFinite && b.minX ≤ b.maxX && b.minY ≤ b.maxY && b.minZ ≤ b.maxZ

def ofList? (ps : List Position) : Option Bounds :=
  let b := ofList ps
  if b.isValid then some b else none

def width (b : Bounds) : Float32 := if b.isValid then b.maxX - b.minX else 0

def height (b : Bounds) : Float32 := if b.isValid then b.maxY - b.minY else 0

def depth (b : Bounds) : Float32 := if b.isValid then b.maxZ - b.minZ else 0

def area (b : Bounds) : Float32 := b.width * b.height

/-- Bounds that grow on every side by a share of their extent, or by one unit where the third axis
is flat. Invalid bounds do not grow. -/
def pad (b : Bounds) (share : Float32) : Bounds :=
  if b.isValid then
    let x := b.width * share
    let y := b.height * share
    let z := if b.minZ < b.maxZ then b.depth * share else 1
    ⟨b.minX - x, b.maxX + x, b.minY - y, b.maxY + y, b.minZ - z, b.maxZ + z⟩
  else b

end Bounds

end Toolpath
