import Toolpath.Depth
import Toolpath.Detail.Simplify
import Toolpath.Program.Run
import Toolpath.View.DocumentCache
import Toolpath.View.RenderCache

/-!
# The viewer

A viewer holds settings, the document of the last text, a camera, and simplified segments to draw.
Loading the same text again does nothing, and segments are simplified once for each filter and level
of detail until the document or the settings change.
-/

namespace Toolpath

structure Viewer where
  config : Config := {}
  camera : Camera := {}
  documents : DocumentCache := {}
  renders : RenderCache := {}
  /-- The document or the settings have changed since the flag was last cleared. -/
  dirty : Bool := true

namespace Viewer

def minZoom : Float32 := 0.01

def maxZoom : Float32 := 50

def zoomStep : Float32 := 1.1

/-- One step of the camera, as a share of the canvas. -/
def panShare : Float32 := 0.1

/-- The share of the canvas that fitting leaves free on each side. -/
def fitMargin : Float32 := 0.05

def ofConfig (config : Config) : Viewer := { config := config }

def document (v : Viewer) : Document := v.documents.document

def stats (v : Viewer) : Stats := v.document.stats

def depthMap (v : Viewer) : DepthMap := DepthMap.ofList v.document.zValues

/-- Takes over settings. Unless they are the same, simplified segments are dropped, and a change of
the arc settings makes the document stale. -/
def setConfig (v : Viewer) (config : Config) : Viewer :=
  if config.same v.config then v
  else
    { v with
      config := config
      documents := if config.arcs.same v.config.arcs then v.documents else v.documents.markStale
      renders := {}
      dirty := true }

def clearDirty (v : Viewer) : Viewer := { v with dirty := false }

/-- Interprets a text, unless its document is on display. The flag says whether it was
interpreted. -/
def load (v : Viewer) (text : String) : Bool × Viewer :=
  if v.documents.needs text then
    (true,
      { v with
        documents := v.documents.update text (Document.ofProgram v.config.arcs text)
        renders := {}
        dirty := true })
  else (false, v)

/-- The segments of the document that a filter lets through, simplified for a level of detail. -/
def simplified (v : Viewer) (filter : Filter) (level : Level) : List Segment :=
  Detail.simplify v.config.detail (level.budget v.config.detail.pointBudget.toNat)
    (v.document.filtered filter)

/-- The segments to draw for a camera and a filter, from the cache where it has them. -/
def render (v : Viewer) (camera : Camera) (filter : Filter) : List Segment × Viewer :=
  let level := Level.ofZoom camera.zoom
  let found := v.renders.getOrBuild (Bucket.of filter camera) level fun _ =>
    v.simplified filter level
  (found.segments, { v with renders := found.cache })

def withZoom (v : Viewer) (zoom : Float32) : Viewer :=
  { v with camera := { v.camera with zoom := zoom } }

def withPan (v : Viewer) (x y : Float32) : Viewer :=
  { v with camera := { v.camera with panX := x, panY := y } }

def zoomIn (v : Viewer) : Viewer := v.withZoom (Single.lesser (v.camera.zoom * zoomStep) maxZoom)

def zoomOut (v : Viewer) : Viewer := v.withZoom (Single.greater (v.camera.zoom / zoomStep) minZoom)

def resetZoom (v : Viewer) : Viewer := v.withZoom 1

def resetPan (v : Viewer) : Viewer := v.withPan 0 0

def zoomPercent (v : Viewer) : Nat := Single.toNatural32 .nearest (v.camera.zoom * 100)

def panStep (v : Viewer) (extent : Float32) : Float32 := extent * panShare / v.camera.zoom

def panRight (v : Viewer) (extent : Float32) : Viewer :=
  v.withPan (v.camera.panX + v.panStep extent) v.camera.panY

def panLeft (v : Viewer) (extent : Float32) : Viewer :=
  v.withPan (v.camera.panX - v.panStep extent) v.camera.panY

def panUp (v : Viewer) (extent : Float32) : Viewer :=
  v.withPan v.camera.panX (v.camera.panY + v.panStep extent)

def panDown (v : Viewer) (extent : Float32) : Viewer :=
  v.withPan v.camera.panX (v.camera.panY - v.panStep extent)

/-- The zoom at which bounds fill a canvas but for its margins, within the limits. -/
def fitZoom (b : Bounds) (width height : Float32) : Float32 :=
  let share := 1 - fitMargin * 2
  Single.clamp minZoom maxZoom
    (Single.lesser (width * share / b.width) (height * share / b.height))

/-- Centres the points reached by cutting and zooms so that they fit a canvas. Contents that are
flat on an axis are shown at one pixel a unit, and without contents the camera goes back to its
start. -/
def fit (v : Viewer) (width height : Float32) : Viewer :=
  match v.document.cuttingBounds? with
  | none => v.resetZoom.resetPan
  | some b =>
    let centred := v.withPan (-((b.minX + b.maxX) / 2)) (-((b.minY + b.maxY) / 2))
    if b.width == 0 || b.height == 0 then centred.resetZoom
    else centred.withZoom (fitZoom b width height)

end Viewer

end Toolpath
