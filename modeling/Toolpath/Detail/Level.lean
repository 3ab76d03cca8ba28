/-!
# Levels of detail

The zoom decides the level of detail, and the level which share of the point budget may be drawn.
-/

namespace Toolpath

inductive Level where
  | full
  | medium
  | low
  | minimal
deriving DecidableEq, Repr

namespace Level

/-- The level at a zoom in pixels a unit. What is not a number counts as far out. -/
def ofZoom (zoom : Float32) : Level :=
  if 1 ≤ zoom then .full
  else if 0.2 ≤ zoom then .medium
  else if 0.05 ≤ zoom then .low
  else .minimal

/-- The share of the budget at a level is one part of so many. -/
def divisor : Level → Nat
  | .full => 1
  | .medium => 2
  | .low => 4
  | .minimal => 8

/-- The points that may be drawn at a level: a share of the budget, but at least one, and without
limit where the budget has none. -/
def budget (level : Level) (points : Nat) : Nat :=
  if points = 0 then 0 else max (points / level.divisor) 1

def name : Level → String
  | .full => "Full"
  | .medium => "Medium"
  | .low => "Low"
  | .minimal => "Minimal"

end Level

end Toolpath
