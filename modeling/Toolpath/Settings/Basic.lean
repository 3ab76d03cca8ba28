import Toolpath.Binary.Single

/-!
# Settings

What a user may tune: how finely arcs become polylines, and how far the drawn detail is reduced.
Presets name three complete configurations.
-/

namespace Toolpath

/-- How finely arcs become polylines. -/
structure ArcSettings where
  /-- Density of arc points, with one as the standard. -/
  detailMultiplier : Float32 := 1
  maxSegments : UInt32 := 300
  minSegments : UInt32 := 4
  /-- Points of a large arc closer than this to the one before are left out. -/
  minSpacing : Float32 := 0.05
  /-- The axis across the plane follows the arc instead of jumping at its end. -/
  helical : Bool := false
deriving DecidableEq

structure DetailSettings where
  enabled : Bool := true
  /-- The points that may be drawn before detail is reduced; zero sets no limit. -/
  pointBudget : UInt64 := 50000
  keepSmallFeatures : Bool := true
  /-- The area and the side below which a shape is small. -/
  smallFeatureSize : Float32 := 5
deriving DecidableEq

structure Config where
  arcs : ArcSettings := {}
  detail : DetailSettings := {}
deriving DecidableEq

/-- Two settings are the same when their numbers are equal as numbers: the sign of a zero does not
count, and what is not a number differs from itself. -/
def ArcSettings.same (s t : ArcSettings) : Bool :=
  s.detailMultiplier == t.detailMultiplier && s.maxSegments == t.maxSegments
    && s.minSegments == t.minSegments && s.minSpacing == t.minSpacing && s.helical == t.helical

def DetailSettings.same (s t : DetailSettings) : Bool :=
  s.enabled == t.enabled && s.pointBudget == t.pointBudget
    && s.keepSmallFeatures == t.keepSmallFeatures && s.smallFeatureSize == t.smallFeatureSize

def Config.same (c d : Config) : Bool := c.arcs.same d.arcs && c.detail.same d.detail

inductive Preset where
  | standard
  | highDetail
  | aggressive
deriving DecidableEq, Repr

namespace Preset

def name : Preset → String
  | .standard => "standard"
  | .highDetail => "high-detail"
  | .aggressive => "aggressive"

def config : Preset → Config
  | .standard => {}
  | .highDetail => { arcs := { detailMultiplier := 4, maxSegments := 600, minSpacing := 0.01 } }
  | .aggressive => { detail := { pointBudget := 25000, smallFeatureSize := 20 } }

/-- The preset of a name. Letters of either case and underscores for hyphens are accepted. -/
def ofName? (name : String) : Option Preset :=
  let plain := String.ofList (name.toList.map fun c => if c = '_' then '-' else c.toLower)
  if plain = "standard" || plain = "default" then some .standard
  else if plain = "high-detail" || plain = "high" then some .highDetail
  else if plain = "aggressive" then some .aggressive
  else none

end Preset

end Toolpath
