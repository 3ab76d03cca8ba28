import Toolpath.Geometry.Bounds
import Toolpath.Geometry.Plane
import Toolpath.Json.Codec

/-!
# Geometry as JSON

Positions and bounds are records of numbers; a plane is the names of its two axes.
-/

namespace Toolpath

open Json

instance : Codec Position where
  encode p := .record [("x", encode p.x), ("y", encode p.y), ("z", encode p.z)]
  decode v := do
    let fields ← Fields.ofValue ["x", "y", "z"] v
    let x ← fields.required "x"
    let y ← fields.required "y"
    let z ← fields.required "z"
    return ⟨x, y, z⟩

instance : Codec Plane where
  encode
    | .xy => .text "xy"
    | .zx => .text "zx"
    | .yz => .text "yz"
  decode := decodeName [("xy", .xy), ("zx", .zx), ("yz", .yz)]

instance : Codec Bounds where
  encode b := .record
    [("min_x", encode b.minX), ("max_x", encode b.maxX), ("min_y", encode b.minY),
      ("max_y", encode b.maxY), ("min_z", encode b.minZ), ("max_z", encode b.maxZ)]
  decode v := do
    let fields ← Fields.ofValue ["min_x", "max_x", "min_y", "max_y", "min_z", "max_z"] v
    let minX ← fields.required "min_x"
    let maxX ← fields.required "max_x"
    let minY ← fields.required "min_y"
    let maxY ← fields.required "max_y"
    let minZ ← fields.required "min_z"
    let maxZ ← fields.required "max_z"
    return ⟨minX, maxX, minY, maxY, minZ, maxZ⟩

end Toolpath
