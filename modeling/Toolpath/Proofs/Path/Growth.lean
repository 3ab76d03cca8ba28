import Toolpath.Path.Document

/-!
# How a toolpath grows

Waypoints are added at the end of a toolpath and nowhere else. `Builder.Extends` says what adding them leaves as it
was, whatever the toolpath held before.
-/

namespace Toolpath.Builder

/-- The toolpath `c` is `b` with more waypoints behind its own. A closed segment of `b` is one of `c`; the open one
may have grown, or have been closed. -/
structure Extends (c b : Builder) (added : List Waypoint) : Prop where
  points : c.points.toList = b.points.toList ++ added.map Waypoint.position
  flags : c.travelFlags.toList = b.travelFlags.toList ++ added.map Waypoint.travel
  heights : c.zValues.toList = b.zValues.toList ++ added.map fun w => w.position.z
  closed : b.closed.toList <+: c.closed.toList

variable {b c d : Builder} {ws vs : List Waypoint}

theorem Extends.trans (first : c.Extends b ws) (second : d.Extends c vs) : d.Extends b (ws ++ vs) := by
  refine ⟨?_, ?_, ?_, first.closed.trans second.closed⟩
  · rw [second.points, first.points, List.map_append, List.append_assoc]
  · rw [second.flags, first.flags, List.map_append, List.append_assoc]
  · rw [second.heights, first.heights, List.map_append, List.append_assoc]

/-- The last waypoint added is where the toolpath ends. -/
theorem Extends.back (longer : c.Extends b ws) {w : Waypoint} (last : ws.getLast? = some w) :
    c.points.back? = some w.position := by
  rw [← Array.getLast?_toList, longer.points, List.getLast?_append, List.getLast?_map, last]
  rfl

end Toolpath.Builder
