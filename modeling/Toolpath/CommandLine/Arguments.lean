import Toolpath.Decimal.Numeral
import Toolpath.Settings.Basic

/-!
# Arguments of the command line

The arguments name one program file and may set options. `Arguments.parse` reads them from left to
right. A value is looked at only when the next argument has come, so that the fault of a later
argument may be the one that is told.
-/

namespace Toolpath.CommandLine

structure Arguments where
  file : String
  config : Option String := none
  preset : Option Preset := none
  budget : Option UInt64 := none
  zoom : Float32 := 1
  json : Bool := false
  logLevel : String := "warn"
  logJson : Bool := false
deriving DecidableEq

inductive Refusal where
  | unknownArgument
  /-- An option has no value, or a path is empty. -/
  | missingValue
  | badValue
  | unexpectedValue
  /-- Two arguments exclude each other, or one is repeated. -/
  | conflict
  | missingFile
  | helpWanted
  | versionWanted
deriving DecidableEq, Repr

inductive Slot where
  | file
  | config
  | preset
  | budget
  | zoom
  | logLevel
deriving DecidableEq, Repr

inductive Flag where
  | json
  | logJson
deriving DecidableEq, Repr

inductive Named where
  | slot (s : Slot)
  | flag (f : Flag)
  | help
  | version
deriving DecidableEq, Repr

def Named.ofLong? (name : String) : Option Named :=
  if name = "config" then some (.slot .config)
  else if name = "preset" then some (.slot .preset)
  else if name = "budget" then some (.slot .budget)
  else if name = "zoom" then some (.slot .zoom)
  else if name = "log-level" then some (.slot .logLevel)
  else if name = "json" then some (.flag .json)
  else if name = "log-json" then some (.flag .logJson)
  else if name = "help" then some .help
  else if name = "version" then some .version
  else none

def Named.ofLetter? (letter : Char) : Option Named :=
  if letter = 'h' then some .help
  else if letter = 'V' then some .version
  else none

inductive Form where
  | endOfOptions
  /-- Two hyphens, a name, and what follows the first sign of equality. -/
  | long (name : String) (value : Option String)
  /-- One hyphen and at least one letter. -/
  | letters (first : Char)
  | plain

def Form.ofText (text : String) : Form :=
  match text.toList with
  | ['-', '-'] => .endOfOptions
  | '-' :: '-' :: cs =>
    match cs.span (· ≠ '=') with
    | (name, []) => .long (String.ofList name) none
    | (name, _ :: value) => .long (String.ofList name) (some (String.ofList value))
  | '-' :: c :: _ => .letters c
  | _ => .plain

structure Given where
  file : Option String := none
  config : Option String := none
  preset : Option Preset := none
  budget : Option UInt64 := none
  zoom : Option Float32 := none
  logLevel : Option String := none
  json : Bool := false
  logJson : Bool := false

def path? (text : String) : Except Refusal String :=
  if text.isEmpty then .error .missingValue else .ok text

/-- A natural number of 64 bits. A plus may stand before its digits. -/
def budget? (text : String) : Except Refusal UInt64 :=
  let ds := match text.toList with
    | '+' :: ds => ds
    | ds => ds
  if ds.isEmpty || !ds.all Char.isDigit then .error .badValue
  else if Decimal.ofDigits ds < UInt64.size then .ok (UInt64.ofNat (Decimal.ofDigits ds))
  else .error .badValue

def orBad {α : Type} : Option α → Except Refusal α
  | some a => .ok a
  | none => .error .badValue

def fill {α : Type} (slot : Option α) (read : Except Refusal α) : Except Refusal (Option α) :=
  match slot with
  | some _ => .error .conflict
  | none => read.map some

namespace Given

def set (g : Given) (slot : Slot) (text : String) : Except Refusal Given :=
  match slot with
  | .file => (fill g.file (path? text)).map fun v => { g with file := v }
  | .config => (fill g.config (path? text)).map fun v => { g with config := v }
  | .preset => (fill g.preset (orBad (Preset.ofName? text))).map fun v => { g with preset := v }
  | .budget => (fill g.budget (budget? text)).map fun v => { g with budget := v }
  | .zoom =>
    (fill g.zoom (orBad (Decimal.single? text.toList))).map fun v => { g with zoom := v }
  | .logLevel => (fill g.logLevel (.ok text)).map fun v => { g with logLevel := v }

def raise (g : Given) : Flag → Except Refusal Given
  | .json => if g.json then .error .conflict else .ok { g with json := true }
  | .logJson => if g.logJson then .error .conflict else .ok { g with logJson := true }

def complete (g : Given) : Except Refusal Arguments :=
  if g.config.isSome && g.preset.isSome then .error .conflict
  else match g.file with
    | none => .error .missingFile
    | some file =>
      let standard : Arguments := { file := file }
      .ok
        { file := file
          config := g.config
          preset := g.preset
          budget := g.budget
          zoom := g.zoom.getD standard.zoom
          json := g.json
          logLevel := g.logLevel.getD standard.logLevel
          logJson := g.logJson }

end Given

structure Reading where
  given : Given := {}
  /-- A slot whose value has not been looked at yet, or has not come yet. -/
  pending : Option (Slot × Option String) := none
  fileNamed : Bool := false
  optionsEnded : Bool := false

namespace Reading

def settle (r : Reading) : Except Refusal Reading :=
  match r.pending with
  | none => .ok r
  | some (_, none) => .error .missingValue
  | some (slot, some text) =>
    (r.given.set slot text).map fun g => { r with given := g, pending := none }

def takeFile (r : Reading) (text : String) : Except Refusal Reading :=
  if r.fileNamed then .error .unknownArgument
  else r.settle.map fun r => { r with pending := some (.file, some text), fileNamed := true }

/-- Takes an argument that is no option: the value that a slot waits for, or else the file. -/
def takePlain (r : Reading) (text : String) : Except Refusal Reading :=
  match r.pending with
  | some (slot, none) => .ok { r with pending := some (slot, some text) }
  | _ => r.takeFile text

def takeNamed (r : Reading) (value : Option String) : Named → Except Refusal Reading
  | .slot slot => do
    let r ← r.settle
    match value with
    | some text => (r.given.set slot text).map fun g => { r with given := g }
    | none => return { r with pending := some (slot, none) }
  | .flag flag =>
    if value.isSome then .error .unexpectedValue
    else do
      let r ← r.settle
      (r.given.raise flag).map fun g => { r with given := g }
  | .help =>
    if value.isSome then .error .unexpectedValue else r.settle.bind fun _ => .error .helpWanted
  | .version =>
    if value.isSome then .error .unexpectedValue else r.settle.bind fun _ => .error .versionWanted

def takeOption (r : Reading) (value : Option String) : Option Named → Except Refusal Reading
  | some named => r.takeNamed value named
  | none => .error .unknownArgument

def take (r : Reading) (text : String) : Except Refusal Reading :=
  if r.optionsEnded then r.takeFile text
  else match Form.ofText text with
    | .endOfOptions => .ok { r with optionsEnded := true }
    | .long name value => r.takeOption value (Named.ofLong? name)
    | .letters first => r.takeOption none (Named.ofLetter? first)
    | .plain => r.takePlain text

end Reading

def Arguments.parse (texts : List String) : Except Refusal Arguments := do
  let r ← texts.foldlM Reading.take {}
  let r ← r.settle
  r.given.complete

end Toolpath.CommandLine
