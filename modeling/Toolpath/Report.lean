import Toolpath.Exchange.Path
import Toolpath.Exchange.View
import Toolpath.View.Viewer

/-!
# Reports

A report sums up a toolpath: its counts and extents, its depth levels, and how many points would be
drawn at a zoom. `Report.text` is for readers and `Report.json` for programs.
-/

namespace Toolpath

open Decimal

structure DetailReport where
  zoom : Float32
  level : Level
  /-- The points that may be drawn; zero sets no limit. -/
  budget : Nat
  segments : Nat
  pointsBefore : Nat
  pointsAfter : Nat

structure Report where
  file : String
  stats : Stats
  depths : List DepthLevel
  detail : DetailReport

namespace Report

/-- The report on the document of a viewer, and the viewer with what was drawn for it. -/
def ofViewer (file : String) (v : Viewer) (zoom : Float32) : Report × Viewer :=
  let level := Level.ofZoom zoom
  let (drawn, after) := v.render { zoom := zoom } .all
  ({ file := file
     stats := v.stats
     depths := v.depthMap.levels
     detail :=
       { zoom := zoom
         level := level
         budget := level.budget v.config.detail.pointBudget.toNat
         segments := drawn.length
         pointsBefore := v.document.segmentPointCount
         pointsAfter := Segment.totalLength drawn } },
    after)

/-- Zooms are written with the fewest digits and never with an exponent, whole ones as integers. -/
def zoomStyle : Style := ⟨none, none, false, .up⟩

def zoomText (zoom : Float32) : String :=
  match specialText? zoom with
  | some word => word
  | none => String.ofList (zoomStyle.single zoom).render

def coordinate (x : Float32) : String := fixed 3 x

def axisText (name : String) (low high : Float32) : String :=
  name ++ " " ++ coordinate low ++ ".." ++ coordinate high

def boundsLine (b : Bounds) : String :=
  "Bounds: " ++ axisText "X" b.minX b.maxX ++ "  " ++ axisText "Y" b.minY b.maxY ++ "  "
    ++ axisText "Z" b.minZ b.maxZ

def depthLine (l : DepthLevel) : String :=
  "  " ++ String.ofList (padLeft 10 ' ' (coordinate l.z).toList) ++ " -> " ++ coordinate l.level

def detailLine (d : DetailReport) : String :=
  "LOD at zoom " ++ zoomText d.zoom ++ ": " ++ d.level.name ++ " (budget " ++ toString d.budget
    ++ "), " ++ toString d.pointsBefore ++ " -> " ++ toString d.pointsAfter ++ " points in "
    ++ toString d.segments ++ " segments"

def lines (r : Report) : List String :=
  let s := r.stats
  ["File: " ++ r.file,
    "Lines interpreted: " ++ toString s.lines,
    "Arcs: " ++ toString s.arcs,
    "Points: " ++ toString s.totalPoints ++ " (" ++ toString s.travelPoints ++ " travel, "
      ++ toString s.cuttingPoints ++ " cutting)",
    "Segments: " ++ toString s.travelSegments ++ " travel, " ++ toString s.cuttingSegments
      ++ " cutting"]
    ++ s.bounds.toList.map boundsLine
    ++ "Z levels:" :: r.depths.map depthLine
    ++ [detailLine r.detail]

def text (r : Report) : String := String.join (r.lines.map (· ++ "\n"))

def json (r : Report) : Json.Value :=
  .record
    [("file", .text r.file), ("stats", Json.encode r.stats), ("z_levels", Json.encode r.depths),
      ("lod", .record
        [("zoom", Json.encode r.detail.zoom), ("level", Json.encode r.detail.level),
          ("budget", .nat r.detail.budget), ("segments", .nat r.detail.segments),
          ("points_before", .nat r.detail.pointsBefore),
          ("points_after", .nat r.detail.pointsAfter)])]

end Report

end Toolpath
