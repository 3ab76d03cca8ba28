import Toolpath.Exchange.Fault
import Toolpath.Settings.Basic

/-!
# The written form of settings

Settings are written as sections of named entries, in one order whatever the format. `entries` lists
them for a writer. `read` takes them from a value of any format with a `Spelling`; a setting that is
not given keeps its default.
-/

namespace Toolpath

inductive Setting where
  | number (x : Float32)
  | count (n : Nat)
  | flag (b : Bool)
deriving DecidableEq

/-- How the values of a format spell settings. -/
class Spelling (V : Type) where
  number : V → Except Fault Float32
  /-- A natural number up to a limit. -/
  count : Nat → V → Except Fault Nat
  flag : V → Except Fault Bool
  /-- The fields of a record that has fields of these names. -/
  fields : List String → V → Except Fault (List (String × V))

def fieldOr {V α : Type} (given : List (String × V)) (name : String) (default : α)
    (read : V → Except Fault α) : Except Fault α :=
  match given.lookup name with
  | some v => read v
  | none => .ok default

def Spelling.count32 {V : Type} [Spelling V] (v : V) : Except Fault UInt32 :=
  (Spelling.count 4294967295 v).map UInt32.ofNat

def Spelling.count64 {V : Type} [Spelling V] (v : V) : Except Fault UInt64 :=
  (Spelling.count 18446744073709551615 v).map UInt64.ofNat

namespace ArcSettings

def entries (s : ArcSettings) : List (String × Setting) :=
  [("arc_detail_multiplier", .number s.detailMultiplier),
    ("max_arc_segments", .count s.maxSegments.toNat),
    ("min_arc_segments", .count s.minSegments.toNat),
    ("min_segment_spacing", .number s.minSpacing),
    ("helical_interpolation", .flag s.helical)]

def names : List String := ({} : ArcSettings).entries.map Prod.fst

def read {V : Type} [Spelling V] (v : V) : Except Fault ArcSettings := do
  let given ← Spelling.fields names v
  let standard : ArcSettings := {}
  let detailMultiplier ←
    fieldOr given "arc_detail_multiplier" standard.detailMultiplier Spelling.number
  let maxSegments ← fieldOr given "max_arc_segments" standard.maxSegments Spelling.count32
  let minSegments ← fieldOr given "min_arc_segments" standard.minSegments Spelling.count32
  let minSpacing ← fieldOr given "min_segment_spacing" standard.minSpacing Spelling.number
  let helical ← fieldOr given "helical_interpolation" standard.helical Spelling.flag
  return ⟨detailMultiplier, maxSegments, minSegments, minSpacing, helical⟩

end ArcSettings

namespace DetailSettings

def entries (s : DetailSettings) : List (String × Setting) :=
  [("enabled", .flag s.enabled),
    ("point_budget", .count s.pointBudget.toNat),
    ("preserve_small_features", .flag s.keepSmallFeatures),
    ("small_feature_threshold", .number s.smallFeatureSize)]

def names : List String := ({} : DetailSettings).entries.map Prod.fst

def read {V : Type} [Spelling V] (v : V) : Except Fault DetailSettings := do
  let given ← Spelling.fields names v
  let standard : DetailSettings := {}
  let enabled ← fieldOr given "enabled" standard.enabled Spelling.flag
  let pointBudget ← fieldOr given "point_budget" standard.pointBudget Spelling.count64
  let keepSmallFeatures ←
    fieldOr given "preserve_small_features" standard.keepSmallFeatures Spelling.flag
  let smallFeatureSize ←
    fieldOr given "small_feature_threshold" standard.smallFeatureSize Spelling.number
  return ⟨enabled, pointBudget, keepSmallFeatures, smallFeatureSize⟩

end DetailSettings

namespace Config

def sections (c : Config) : List (String × List (String × Setting)) :=
  [("parser", c.arcs.entries), ("lod", c.detail.entries)]

def names : List String := ({} : Config).sections.map Prod.fst

def read {V : Type} [Spelling V] (v : V) : Except Fault Config := do
  let given ← Spelling.fields names v
  let arcs ← fieldOr given "parser" {} ArcSettings.read
  let detail ← fieldOr given "lod" {} DetailSettings.read
  return ⟨arcs, detail⟩

end Config

end Toolpath
