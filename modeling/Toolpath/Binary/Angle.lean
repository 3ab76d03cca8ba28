/-!
# Angles and logarithms

The four functions whose last bit is left to the platform's single-precision mathematics library.
Nothing else in the library depends on it.
-/

namespace Toolpath.Angle

def sin (angle : Float32) : Float32 := angle.sin

def cos (angle : Float32) : Float32 := angle.cos

/-- The angle of the plane vector `(a, b)`, counted from the first axis towards the second. -/
def ofVector (a b : Float32) : Float32 := Float32.atan2 b a

end Toolpath.Angle

def Toolpath.Single.log2 (x : Float32) : Float32 := x.log2
