import Toolpath.Geometry.Position

/-!
# Planes of circular motion

A plane names its two axes in right-hand order, so that a turn from the first towards the second is
counter-clockwise when seen against the third, its normal.
-/

namespace Toolpath

inductive Plane where
  | xy
  | zx
  | yz
deriving DecidableEq, Repr, Inhabited

structure InPlane where
  a : Float32
  b : Float32
  normal : Float32
deriving DecidableEq

namespace Plane

def project : Plane → Position → InPlane
  | .xy, p => ⟨p.x, p.y, p.z⟩
  | .zx, p => ⟨p.z, p.x, p.y⟩
  | .yz, p => ⟨p.y, p.z, p.x⟩

def compose : Plane → InPlane → Position
  | .xy, q => ⟨q.a, q.b, q.normal⟩
  | .zx, q => ⟨q.b, q.normal, q.a⟩
  | .yz, q => ⟨q.normal, q.a, q.b⟩

def code : Plane → String
  | .xy => "G17"
  | .zx => "G18"
  | .yz => "G19"

def description : Plane → String
  | .xy => "XY plane (G17)"
  | .zx => "ZX plane (G18)"
  | .yz => "YZ plane (G19)"

theorem compose_project (plane : Plane) (p : Position) : plane.compose (plane.project p) = p := by
  cases plane <;> rfl

theorem project_compose (plane : Plane) (q : InPlane) : plane.project (plane.compose q) = q := by
  cases plane <;> rfl

end Plane

end Toolpath
