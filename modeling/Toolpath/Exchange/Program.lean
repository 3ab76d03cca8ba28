import Toolpath.Exchange.Geometry
import Toolpath.Program.State

/-!
# Programs as JSON

Codes and motions are named variants, words are variants that carry their values, and the modal
state is a record.
-/

namespace Toolpath.Program

open Json

def Code.plain : List (String × Code) :=
  [("Rapid", .rapid), ("Linear", .linear), ("ArcCw", .arcClockwise),
    ("ArcCcw", .arcCounterClockwise), ("PlaneXY", .planeXY), ("PlaneZX", .planeZX),
    ("PlaneYZ", .planeYZ), ("Absolute", .absolute), ("Incremental", .incremental),
    ("SetOrigin", .setOrigin)]

def Code.name : Code → String
  | .rapid => "Rapid"
  | .linear => "Linear"
  | .arcClockwise => "ArcCw"
  | .arcCounterClockwise => "ArcCcw"
  | .planeXY => "PlaneXY"
  | .planeZX => "PlaneZX"
  | .planeYZ => "PlaneYZ"
  | .absolute => "Absolute"
  | .incremental => "Incremental"
  | .setOrigin => "SetOrigin"
  | .unsupported _ => "Unsupported"

instance : Codec Code where
  encode
    | .unsupported value => .record [("Unsupported", encode value)]
    | c => .text c.name
  decode v := do
    match ← variant? v with
    | ("Unsupported", some content) => (decode content).map Code.unsupported
    | ("Unsupported", none) => .error (.unexpected "a number")
    | _ => decodeName Code.plain v

instance : Codec Word where
  encode
    | .code c => .record [("G", encode c)]
    | .x value => .record [("X", encode value)]
    | .y value => .record [("Y", encode value)]
    | .z value => .record [("Z", encode value)]
    | .i value => .record [("I", encode value)]
    | .j value => .record [("J", encode value)]
    | .k value => .record [("K", encode value)]
    | .r value => .record [("R", encode value)]
    | .other letter value => .record [("Other", .array [encode letter, encode value])]
  decode v := do
    match ← variant? v with
    | ("G", some content) => (decode content).map Word.code
    | ("X", some content) => (decode content).map Word.x
    | ("Y", some content) => (decode content).map Word.y
    | ("Z", some content) => (decode content).map Word.z
    | ("I", some content) => (decode content).map Word.i
    | ("J", some content) => (decode content).map Word.j
    | ("K", some content) => (decode content).map Word.k
    | ("R", some content) => (decode content).map Word.r
    | ("Other", some (.array [letter, value])) =>
      return .other (← decode letter) (← decode value)
    | ("Other", _) => .error (.unexpected "a letter and a number")
    | (_, some _) => .error .unknownVariant
    | (_, none) => .error (.unexpected "a word with its value")

/-- The motions in force by name; there is none before the first. -/
def motionNames : List (String × Option Motion) :=
  [("Rapid", some .rapid), ("Linear", some .linear), ("ArcCw", some (.arc .clockwise)),
    ("ArcCcw", some (.arc .counterClockwise)), ("None", none)]

def motionName : Option Motion → String
  | some .rapid => "Rapid"
  | some .linear => "Linear"
  | some (.arc .clockwise) => "ArcCw"
  | some (.arc .counterClockwise) => "ArcCcw"
  | none => "None"

instance : Codec Turn where
  encode
    | .clockwise => .text "Clockwise"
    | .counterClockwise => .text "CounterClockwise"
  decode := decodeName [("Clockwise", .clockwise), ("CounterClockwise", .counterClockwise)]

instance : Codec State where
  encode s := .record
    [("current_position", encode s.position), ("absolute_mode", encode s.absolute),
      ("active_plane", encode s.plane), ("last_motion", .text (motionName s.motion)),
      ("initial_position_established", encode s.originSet),
      ("first_motion_pending", encode s.awaitsMotion), ("line_number", encode s.line)]
  decode v := do
    let fields ← Fields.ofValue
      ["current_position", "absolute_mode", "active_plane", "last_motion",
        "initial_position_established", "first_motion_pending", "line_number"] v
    let position ← fields.required "current_position"
    let absolute ← fields.required "absolute_mode"
    let plane ← fields.required "active_plane"
    let motion ← fields.field "last_motion" (decodeName motionNames)
    let originSet ← fields.required "initial_position_established"
    let awaitsMotion ← fields.required "first_motion_pending"
    let line ← fields.required "line_number"
    return ⟨position, absolute, plane, motion, originSet, awaitsMotion, line⟩

end Toolpath.Program
