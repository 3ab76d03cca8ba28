/-!
# Errors at the edges

Interpreting a program never fails. What can fail is reading, checking and writing settings; an
error says which of these went wrong.
-/

namespace Toolpath

inductive SettingsError where
  | invalidValue (key : String) (reason : String)
  | unsupportedFormat (extension : String)
  | unknownPreset (name : String)
  | storage (detail : String)
  | json (detail : String)
  | tomlReading (detail : String)
  | tomlWriting (detail : String)
  | other (text : String)
deriving DecidableEq, Repr

namespace SettingsError

def message : SettingsError → String
  | .invalidValue key reason => "Invalid setting '" ++ key ++ "': " ++ reason
  | .unsupportedFormat extension => "Unsupported config format: " ++ extension
  | .unknownPreset name => "Unknown preset: " ++ name
  | .storage detail => "I/O error: " ++ detail
  | .json detail => "JSON error: " ++ detail
  | .tomlReading detail => "TOML error: " ++ detail
  | .tomlWriting detail => "TOML error: " ++ detail
  | .other text => text

/-- The settings themselves are at fault, and not the file or the text that holds them. -/
def isAboutSettings : SettingsError → Bool
  | .invalidValue .. | .unsupportedFormat .. | .unknownPreset .. => true
  | _ => false

def isAboutStorage : SettingsError → Bool
  | .storage .. => true
  | _ => false

end SettingsError

end Toolpath
