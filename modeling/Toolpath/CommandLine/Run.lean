import Toolpath.CommandLine.Arguments
import Toolpath.Report
import Toolpath.Settings.File

/-!
# A run of the command line

A run resolves the settings, reads the program file and reports on it. The settings come from the
file or the preset that the arguments name, else from the user's own file if there is one, else from
the defaults; a budget among the arguments comes last.
-/

namespace Toolpath.CommandLine

def version : String := "0.4.0-alpha.0"

/-- Why a run has no report: what was being done, and what went wrong. -/
structure Failure where
  context : String
  cause : SettingsError
deriving DecidableEq, Repr

/-- The failure in words. Only errors of the settings themselves are told in full. -/
def Failure.message (f : Failure) : String :=
  if f.cause.isAboutSettings then f.context ++ ": " ++ f.cause.message else f.context

def defaultConfigPath (configHome : String) : String := configHome ++ "/gcodeview/config.toml"

def loadConfig (s : Storage) (path : String) : Except Failure Config :=
  (Config.load s path).mapError fun e => ⟨"could not load config " ++ path, e⟩

/-- The configuration that the arguments lead to before a budget among them counts. -/
def baseConfig (args : Arguments) (s : Storage) (configHome : Option String) :
    Except Failure Config :=
  match args.config, args.preset, (configHome.map defaultConfigPath).filter s.has with
  | some path, _, _ => loadConfig s path
  | none, some preset, _ => .ok preset.config
  | none, none, some path => loadConfig s path
  | none, none, none => .ok {}

def withBudget (c : Config) : Option UInt64 → Config
  | some budget => { c with detail := { c.detail with pointBudget := budget } }
  | none => c

def resolveConfig (args : Arguments) (s : Storage) (configHome : Option String) :
    Except Failure Config :=
  (baseConfig args s configHome).map (withBudget · args.budget)

def readProgram (s : Storage) (path : String) : Except Failure String :=
  match s.readText? path with
  | some text => .ok text
  | none => .error ⟨"could not read " ++ path, .storage "the file cannot be read as text"⟩

def reportOn (config : Config) (file text : String) (zoom : Float32) : Report :=
  (Report.ofViewer file ((Viewer.ofConfig config).load text).2 zoom).1

def run (args : Arguments) (s : Storage) (configHome : Option String) :
    Except Failure (Config × Report) := do
  let config ← resolveConfig args s configHome
  let text ← readProgram s args.file
  return (config, reportOn config args.file text args.zoom)

def output (args : Arguments) (r : Report) : String :=
  if args.json then r.json.prettyText ++ "\n" else r.text

end Toolpath.CommandLine
