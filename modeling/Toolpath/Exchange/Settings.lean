import Toolpath.Json.Codec
import Toolpath.Settings.Form

/-!
# Settings as JSON

Sections are objects, settings their members. A section may also be an array of its settings in
order, and settings that are left out keep their defaults.
-/

namespace Toolpath

open Json

def Setting.toJson : Setting → Value
  | .number x => encode x
  | .count n => .nat n
  | .flag b => .bool b

instance : Spelling Value where
  number := decode
  count := decodeNatural
  flag := decode
  fields names v := (Fields.ofValue names v).map Fields.given

def entriesToJson (entries : List (String × Setting)) : Value :=
  .record (entries.map fun (name, setting) => (name, setting.toJson))

instance : Codec ArcSettings where
  encode s := entriesToJson s.entries
  decode := ArcSettings.read

instance : Codec DetailSettings where
  encode s := entriesToJson s.entries
  decode := DetailSettings.read

instance : Codec Config where
  encode c := .record (c.sections.map fun (name, entries) => (name, entriesToJson entries))
  decode := Config.read

def Preset.all : List (String × Preset) :=
  [Preset.standard, .highDetail, .aggressive].map fun p => (p.name, p)

instance : Codec Preset where
  encode p := .text p.name
  decode := decodeName Preset.all

end Toolpath
