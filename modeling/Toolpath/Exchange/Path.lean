import Toolpath.Depth
import Toolpath.Exchange.Geometry
import Toolpath.Path.Document

/-!
# Toolpaths as JSON

Waypoints, segments, documents, their statistics and depth levels are records.
-/

namespace Toolpath

open Json

instance : Codec Waypoint where
  encode w := .record [("position", encode w.position), ("is_travel", encode w.travel)]
  decode v := do
    let fields ← Fields.ofValue ["position", "is_travel"] v
    let position ← fields.required "position"
    let travel ← fields.required "is_travel"
    return ⟨position, travel⟩

instance : Codec Segment where
  encode s := .record [("points", encode s.points), ("is_travel", encode s.travel)]
  decode v := do
    let fields ← Fields.ofValue ["points", "is_travel"] v
    let points ← fields.required "points"
    let travel ← fields.required "is_travel"
    return ⟨points, travel⟩

instance : Codec Filter where
  encode
    | .all => .text "All"
    | .travel => .text "Travel"
    | .cutting => .text "Cutting"
  decode := decodeName [("All", .all), ("Travel", .travel), ("Cutting", .cutting)]

instance : Codec Document where
  encode d := .record
    [("points", encode d.points), ("travel_flags", encode d.travelFlags),
      ("z_values", encode d.zValues), ("segments", encode d.segments),
      ("lines_processed", encode d.lines), ("arc_count", encode d.arcs)]
  decode v := do
    let fields ← Fields.ofValue
      ["points", "travel_flags", "z_values", "segments", "lines_processed", "arc_count"] v
    let points ← fields.required "points"
    let travelFlags ← fields.required "travel_flags"
    let zValues ← fields.required "z_values"
    let segments ← fields.required "segments"
    let lines ← fields.required "lines_processed"
    let arcs ← fields.required "arc_count"
    return ⟨points, travelFlags, zValues, segments, lines, arcs⟩

instance : Codec Stats where
  encode s := .record
    [("lines_processed", encode s.lines), ("arc_count", encode s.arcs),
      ("total_points", encode s.totalPoints), ("travel_points", encode s.travelPoints),
      ("cutting_points", encode s.cuttingPoints), ("travel_segments", encode s.travelSegments),
      ("cutting_segments", encode s.cuttingSegments), ("bounds", encode s.bounds),
      ("cutting_bounds", encode s.cuttingBounds)]
  decode v := do
    let fields ← Fields.ofValue
      ["lines_processed", "arc_count", "total_points", "travel_points", "cutting_points",
        "travel_segments", "cutting_segments", "bounds", "cutting_bounds"] v
    let lines ← fields.required "lines_processed"
    let arcs ← fields.required "arc_count"
    let totalPoints ← fields.required "total_points"
    let travelPoints ← fields.required "travel_points"
    let cuttingPoints ← fields.required "cutting_points"
    let travelSegments ← fields.required "travel_segments"
    let cuttingSegments ← fields.required "cutting_segments"
    let bounds ← fields.optional "bounds"
    let cuttingBounds ← fields.optional "cutting_bounds"
    return ⟨lines, arcs, totalPoints, travelPoints, cuttingPoints, travelSegments,
      cuttingSegments, bounds, cuttingBounds⟩

instance : Codec DepthLevel where
  encode l := .record [("z", encode l.z), ("level", encode l.level)]
  decode v := do
    let fields ← Fields.ofValue ["z", "level"] v
    let z ← fields.required "z"
    let level ← fields.required "level"
    return ⟨z, level⟩

instance : Codec DepthMap where
  encode m := .record [("levels", encode m.levels)]
  decode v := do
    let fields ← Fields.ofValue ["levels"] v
    let levels ← fields.required "levels"
    return ⟨levels⟩

end Toolpath
