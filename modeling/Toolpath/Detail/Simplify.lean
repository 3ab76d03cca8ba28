import Toolpath.Detail.Feature
import Toolpath.Detail.Level
import Toolpath.Path.Segment
import Toolpath.Settings.Basic

/-!
# Simplifying segments

`simplify` thins long segments until about a budget of points is left. Of each segment it keeps the
ends, the sharp turns and every so manieth point between them; short segments stay whole, and small
features are thinned gently.
-/

namespace Toolpath.Detail

/-- Segments of at most so many points stay whole. -/
def wholeLength : Nat := 8

def sharpTurn : Float32 := 0.7

structure Vertex where
  before : Position
  here : Position
  after : Position

def vertices (points : List Position) : List Vertex :=
  (points.zip (points.tail.zip points.tail.tail)).map fun (p, q, r) => ⟨p, q, r⟩

def Vertex.isSharp (v : Vertex) : Bool := turnsBelow sharpTurn v.before v.here v.after

/-- The vertex with index `i` is kept when points are taken in strides. -/
def Vertex.isKept (stride : Nat) (v : Vertex) (i : Nat) : Bool := i % stride == 0 || v.isSharp

def keptInterior (stride : Nat) (points : List Position) : List Position :=
  ((vertices points).zipIdx 1).filterMap fun (v, i) =>
    if v.isKept stride i then some v.here else none

def thin (stride : Nat) (points : List Position) : List Position :=
  match points with
  | [] => []
  | [p] => [p]
  | first :: second :: later =>
    first :: keptInterior stride points ++ [(second :: later).getLast (by simp)]

def featureStride (length : Nat) : Nat := max (length / 20) 2

/-- The stride that brings a total down to a budget, were all points in one line. -/
def generalStride (total budget : Nat) : Nat := max ((total + budget - 1) / budget) 1

def isPreserved (settings : DetailSettings) (s : Segment) : Bool :=
  settings.keepSmallFeatures && isSmallFeature s.points settings.smallFeatureSize

def strideOf (settings : DetailSettings) (general : Nat) (s : Segment) : Nat :=
  if isPreserved settings s then featureStride s.length else general

/-- A segment thinned, unless it is short. -/
def simplifySegment (settings : DetailSettings) (general : Nat) (s : Segment) : Segment :=
  if s.length ≤ wholeLength then s
  else ⟨thin (strideOf settings general s) s.points, s.travel⟩

/-- Segments thinned to about a budget of points. They stay as they are when the budget has no limit
or suffices, or when the settings turn simplification off. -/
def simplify (settings : DetailSettings) (budget : Nat) (ss : List Segment) : List Segment :=
  let total := Segment.totalLength ss
  if budget = 0 || !settings.enabled || total ≤ budget then ss
  else ss.map (simplifySegment settings (generalStride total budget))

end Toolpath.Detail
