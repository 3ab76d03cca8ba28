import Toolpath.Binary.Single

/-!
# Between single and double precision

A single-precision number widens without loss; a double narrows to the nearest single. `hypot` is
the length of a plane vector, computed in double precision and narrowed once.
-/

namespace Toolpath.Double

open Binary

def isNegative (x : Float) : Bool := 0x8000000000000000 ≤ x.toBits.toNat

def magnitude (x : Float) : Magnitude := double.decode (x.toBits.toNat % 0x8000000000000000)

/-- The number nearest to a signed quotient, and an infinity beyond the greatest one. -/
def ofRatio (negative : Bool) (r : Ratio) : Float :=
  let bits := match double.nearest r with
    | some m => double.encode m
    | none => 0x7FF0000000000000
  Float.ofBits (UInt64.ofNat (if negative then bits + 0x8000000000000000 else bits))

def infinity : Float := Float.ofBits 0x7FF0000000000000

def notANumber : Float := Float.ofBits 0x7FF8000000000000

end Toolpath.Double

namespace Toolpath.Single

def widen (x : Float32) : Float :=
  if x.isNaN then Double.notANumber
  else if x.isInf then (if isNegative x then -Double.infinity else Double.infinity)
  else Double.ofRatio (isNegative x) (magnitude x).ratio

def ofDouble (x : Float) : Float32 :=
  if x.isNaN then notANumber
  else if x.isInf then (if Double.isNegative x then -infinity else infinity)
  else ofRatio (Double.isNegative x) (Double.magnitude x).ratio

/-- The length of the plane vector `(x, y)`. An infinite side makes it infinite, whatever the other
side is. -/
def hypot (x y : Float32) : Float32 :=
  if x.isInf || y.isInf then infinity
  else
    let a := widen x
    let b := widen y
    ofDouble (a * a + b * b).sqrt

end Toolpath.Single
