import Toolpath.Detail.Level
import Toolpath.Json.Codec
import Toolpath.View.Camera

/-!
# Views as JSON

A camera is a record and a level of detail a name.
-/

namespace Toolpath

open Json

instance : Codec Camera where
  encode c := .record
    [("zoom", encode c.zoom), ("pan_x", encode c.panX), ("pan_y", encode c.panY)]
  decode v := do
    let fields ← Fields.ofValue ["zoom", "pan_x", "pan_y"] v
    let zoom ← fields.required "zoom"
    let panX ← fields.required "pan_x"
    let panY ← fields.required "pan_y"
    return ⟨zoom, panX, panY⟩

def Level.all : List (String × Level) :=
  [Level.full, .medium, .low, .minimal].map fun l => (l.name, l)

instance : Codec Level where
  encode l := .text l.name
  decode := decodeName Level.all

end Toolpath
