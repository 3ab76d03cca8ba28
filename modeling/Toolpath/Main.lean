import Toolpath.CommandLine.Run

/-!
# The program

Reads the files that a run may need, carries it out, and prints its report.
-/

namespace Toolpath.CommandLine

def usage : String :=
  String.intercalate "\n"
    ["Usage: gcodeview [OPTIONS] <FILE>",
      "",
      "Interpret a G-code file into toolpath geometry and report on it",
      "",
      "      --config <PATH>      Settings file (.toml or .json)",
      "      --preset <NAME>      Preset instead of a settings file",
      "                           (standard, high-detail, aggressive)",
      "      --budget <N>         Point budget (0 = unlimited)",
      "      --zoom <Z>           Zoom in pixels per unit [default: 1]",
      "      --json               Print the report as JSON",
      "      --log-level <LEVEL>  Log level [default: warn]",
      "      --log-json           Emit logs as JSON lines",
      "  -h, --help               Print help",
      "  -V, --version            Print version",
      ""]

/-- The storage with what stands at a path outside. A thing that cannot be read as a file is taken
for a directory. -/
def gather (s : Storage) (path : String) : IO Storage := do
  try
    let content ← IO.FS.readBinFile path
    return (s.save path content).1
  catch
    | .noFileOrDirectory .. => return s
    | _ =>
      let p := Path.ofText path
      return (s.makeDirectories (Storage.start p) p.parts).1

def configHome? : IO (Option String) := do
  match ← IO.getEnv "XDG_CONFIG_HOME" with
  | some dir => if dir.startsWith "/" then return some dir
  | none => pure ()
  match ← IO.getEnv "HOME" with
  | some dir => return if dir.isEmpty then none else some (dir ++ "/.config")
  | none => return none

/-- Prints why there is no run, and gives the exit status. -/
def refuse : Refusal → IO UInt32
  | .helpWanted => do
    IO.print usage
    return 0
  | .versionWanted => do
    IO.println ("gcodeview " ++ version)
    return 0
  | _ => do
    IO.eprint usage
    return 2

def perform (args : Arguments) : IO UInt32 := do
  let configHome ← configHome?
  let paths := args.file :: args.config.toList ++ (configHome.map defaultConfigPath).toList
  let storage ← paths.foldlM gather {}
  match run args storage configHome with
  | .ok (_, report) =>
    IO.print (output args report)
    return 0
  | .error failure =>
    IO.eprintln ("Error: could not interpret file " ++ args.file ++ ": " ++ failure.message)
    return 1

end Toolpath.CommandLine

def main (args : List String) : IO UInt32 :=
  match Toolpath.CommandLine.Arguments.parse args with
  | .ok arguments => Toolpath.CommandLine.perform arguments
  | .error refusal => Toolpath.CommandLine.refuse refusal
