import Toolpath.Settings.Basic
import Toolpath.Settings.Error

/-!
# Checking settings

A check names the first setting that is out of range, in the order of the sections and their fields
that `ArcSettings.check` and `DetailSettings.check` follow.
-/

namespace Toolpath

def isPositive (x : Float32) : Bool := x.isFinite && 0 < x

def isNotNegative (x : Float32) : Bool := x.isFinite && 0 ≤ x

/-- The first fault of the arc settings, if there is one. -/
def ArcSettings.check (s : ArcSettings) : Except SettingsError Unit :=
  if !isPositive s.detailMultiplier then
    .error (.invalidValue "parser.arc_detail_multiplier" "must be > 0")
  else if s.minSegments = 0 then .error (.invalidValue "parser.min_arc_segments" "must be > 0")
  else if s.maxSegments < s.minSegments then
    .error (.invalidValue "parser.max_arc_segments"
      ("must be >= min_arc_segments (" ++ toString s.minSegments.toNat ++ ")"))
  else if !isNotNegative s.minSpacing then
    .error (.invalidValue "parser.min_segment_spacing" "must be >= 0")
  else .ok ()

def DetailSettings.check (s : DetailSettings) : Except SettingsError Unit :=
  if !isPositive s.smallFeatureSize then
    .error (.invalidValue "lod.small_feature_threshold" "must be > 0")
  else .ok ()

def Config.check (c : Config) : Except SettingsError Unit := do
  c.arcs.check
  c.detail.check

def Preset.named (name : String) : Except SettingsError Preset :=
  match ofName? name with
  | some preset => .ok preset
  | none => .error (.unknownPreset name)

end Toolpath
