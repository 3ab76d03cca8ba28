import Toolpath.Binary.Angle
import Toolpath.Binary.Single
import Toolpath.Path.Segment

/-!
# Cameras and their buckets

A camera looks at a toolpath with a zoom and from an offset. Cameras that are close to each other
fall into one bucket: a quarter of a doubling of the zoom, and a square tile of the offset.
-/

namespace Toolpath

structure Camera where
  /-- Pixels a document unit. -/
  zoom : Float32 := 1
  panX : Float32 := 0
  panY : Float32 := 0
deriving DecidableEq

namespace Camera

def tileSize : Float32 := 64

def bucketsPerDoubling : Float32 := 4

/-- The bucket of a zoom. A zoom that is not finite and positive falls into that of the least
normal number. -/
def zoomBucket (zoom : Float32) : Int :=
  let zoom := if zoom.isFinite && 0 < zoom then zoom else Single.leastNormal
  Single.toSigned32 .down (Single.log2 zoom * bucketsPerDoubling)

/-- The tile of an offset; one that is not finite falls into tile zero. -/
def tile (offset : Float32) : Int :=
  if offset.isFinite then Single.toSigned32 .down (offset / tileSize) else 0

end Camera

/-- What cameras in one bucket look at through one filter. -/
structure Bucket where
  filter : Filter
  zoom : Int
  tileX : Int
  tileY : Int
deriving DecidableEq, Repr

def Bucket.of (filter : Filter) (camera : Camera) : Bucket :=
  ⟨filter, Camera.zoomBucket camera.zoom, Camera.tile camera.panX, Camera.tile camera.panY⟩

end Toolpath
