import Toolpath.Geometry.Plane
import Toolpath.Proofs.Binary.Sums

/-!
# Axes in rotation

The three axes take each other's places in turn, and the planes with them. What is computed in a plane comes
out the same in the next one. Distances add up their axes in a fixed order, and agree where the two positions
have the same height over the plane.
-/

namespace Toolpath

namespace Position

/-- What was along the first axis is along the second, and so on. -/
def rotate (p : Position) : Position := ⟨p.z, p.x, p.y⟩

theorem near_rotate (epsilon : Float32) (p q : Position) : near epsilon p.rotate q.rotate = near epsilon p q := by
  simp only [near, rotate]
  ac_rfl

theorem coincides_rotate (p q : Position) : p.rotate.coincides q.rotate = p.coincides q :=
  near_rotate tolerance p q

end Position

namespace Plane

def rotate : Plane → Plane
  | .xy => .yz
  | .yz => .zx
  | .zx => .xy

theorem project_rotate (plane : Plane) (p : Position) : plane.rotate.project p.rotate = plane.project p := by
  cases plane <;> rfl

theorem compose_rotate (plane : Plane) (q : InPlane) : plane.rotate.compose q = (plane.compose q).rotate := by
  cases plane <;> rfl

end Plane

namespace InPlane

/-- The distance of two points, from the axes of the plane on. -/
def distance (q r : InPlane) : Float32 :=
  ((q.a - r.a) * (q.a - r.a) + (q.b - r.b) * (q.b - r.b) + (q.normal - r.normal) * (q.normal - r.normal)).sqrt

end InPlane

theorem Plane.distance_project {plane : Plane} {p q : Position}
    (level : (plane.project p).normal = (plane.project q).normal) :
    (plane.project p).distance (plane.project q) = p.distance q := by
  unfold InPlane.distance Position.distance Displacement.length Displacement.dot Position.minus
  cases plane with
  | xy => rfl
  | yz =>
    have height : Single.Level ((p.x - q.x) * (p.x - q.x)) := by
      rw [show p.x = q.x from level]
      exact Single.level_mul_self (Single.level_sub_self q.x)
    have sum := Single.add_level_first height (Single.unsigned_mul_self (p.y - q.y))
      (Single.unsigned_mul_self (p.z - q.z))
    exact congrArg Float32.sqrt sum.symm
  | zx =>
    have height : Single.Level ((p.y - q.y) * (p.y - q.y)) := by
      rw [show p.y = q.y from level]
      exact Single.level_mul_self (Single.level_sub_self q.y)
    have sum := Single.add_level_middle height (Single.unsigned_mul_self (p.x - q.x))
      (Single.unsigned_mul_self (p.z - q.z))
    rw [Single.add_comm ((p.x - q.x) * (p.x - q.x)) ((p.z - q.z) * (p.z - q.z))] at sum
    exact congrArg Float32.sqrt sum.symm

theorem Position.distance_rotate {plane : Plane} {p q : Position}
    (level : (plane.project p).normal = (plane.project q).normal) :
    p.rotate.distance q.rotate = p.distance q := by
  have turned : (plane.rotate.project p.rotate).normal = (plane.rotate.project q.rotate).normal := by
    rw [Plane.project_rotate, Plane.project_rotate]
    exact level
  rw [← Plane.distance_project turned, Plane.project_rotate, Plane.project_rotate, Plane.distance_project level]

end Toolpath
