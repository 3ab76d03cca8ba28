import Toolpath.Geometry.Position

/-!
# Depth levels

The heights of a toolpath, from the lowest to the highest, each with its level from zero to one.
Heights closer than `Position.tolerance` to the one kept below them share its level.
-/

namespace Toolpath

structure DepthLevel where
  z : Float32
  level : Float32
deriving DecidableEq

structure DepthMap where
  levels : List DepthLevel := []
deriving DecidableEq

namespace DepthMap

/-- Ascending heights without those that lie within the tolerance of the one kept before them. -/
def separate : Float32 → List Float32 → List Float32
  | _, [] => []
  | kept, z :: zs =>
    if (z - kept).abs ≤ Position.tolerance then separate kept zs else z :: separate z zs

def heights (zs : List Float32) : List Float32 :=
  match (zs.filter Float32.isFinite).mergeSort
      (fun a b => Single.orderKey a ≤ Single.orderKey b) with
  | [] => []
  | z :: later => z :: separate z later

/-- Heights with their place between the first and the last; a single one stands in the middle. -/
def ofHeights : List Float32 → DepthMap
  | [] => {}
  | [z] => ⟨[⟨z, 0.5⟩]⟩
  | low :: next :: later =>
    let range := (next :: later).getLast (by simp) - low
    ⟨(low :: next :: later).map fun z => ⟨z, (z - low) / range⟩⟩

/-- The map of a stream of heights. What is not finite is passed over. -/
def ofList (zs : List Float32) : DepthMap := ofHeights (heights zs)

/-- The level of a height, if the first height that is not clearly below it is within the
tolerance. -/
def levelOf? (m : DepthMap) (z : Float32) : Option Float32 :=
  match m.levels.dropWhile fun l => l.z < z - Position.tolerance with
  | [] => none
  | l :: _ => if (l.z - z).abs ≤ Position.tolerance then some l.level else none

end DepthMap

end Toolpath
