import Toolpath.Exchange.Settings
import Toolpath.Settings.Check
import Toolpath.Storage.Basic
import Toolpath.Toml.Settings

/-!
# Settings in files

The extension of a file name decides its format. A configuration is checked after it is read and
before it is written, so that a refused one leaves the storage as it was.
-/

namespace Toolpath

inductive SettingsFormat where
  | json
  | toml
deriving DecidableEq, Repr

namespace SettingsFormat

def ofPath (path : String) : Except SettingsError SettingsFormat :=
  match (Path.ofText path).extension? with
  | some "json" => .ok .json
  | some "toml" => .ok .toml
  | other => .error (.unsupportedFormat (other.getD ""))

def parse (format : SettingsFormat) (text : String) : Except SettingsError Config :=
  match format with
  | .json => (Json.parse text).mapError fun fault => .json fault.message
  | .toml => (Toml.parseConfig text).mapError fun fault => .tomlReading fault.message

def render (format : SettingsFormat) (c : Config) : Except SettingsError String :=
  match format with
  | .json => .ok (Json.encode c).prettyText
  | .toml => (Toml.renderConfig c).mapError fun fault => .tomlWriting fault.message

end SettingsFormat

namespace Config

/-- The configuration of a file. The file is read before its format is looked at. -/
def load (s : Storage) (path : String) : Except SettingsError Config := do
  match s.readText? path with
  | none => throw (.storage "the file cannot be read as text")
  | some text =>
    let format ← SettingsFormat.ofPath path
    let c ← format.parse text
    c.check
    return c

def textFor (c : Config) (path : String) : Except SettingsError String := do
  c.check
  let format ← SettingsFormat.ofPath path
  format.render c

/-- Writes a configuration to a file, making its parent directories. -/
def save (c : Config) (s : Storage) (path : String) : Except SettingsError Unit × Storage :=
  match c.textFor path with
  | .error e => (.error e, s)
  | .ok text =>
    match s.save path text.toUTF8 with
    | (s, true) => (.ok (), s)
    | (s, false) => (.error (.storage "the file cannot be written"), s)

end Config

end Toolpath
