import AbiTypes.Command.Option
import AbiTypes.Text.Terminal
import AbiTypes.Version
/-!
# Help — usage and help texts
-/
namespace AbiTypes.Command

namespace Scope

/-- The words that start a command in the scope. -/
def path (s : Scope) (program : String) : String :=
  match s with
  | .group => program
  | .signature => program ++ " signature"
  | .info => program ++ " info"
  | .doc => program ++ " doc"

def synopsis : Scope → String
  | .group => "[OPTIONS] COMMAND [ARGS]..."
  | .signature | .info => "[OPTIONS] TEXT"
  | .doc => "[OPTIONS] PARAMS..."

def usage (s : Scope) (program : String) : String := "Usage: " ++ s.path program ++ " " ++ s.synopsis ++ "\n"

def versionLines : List String := [
  "  --abi-version INTEGER RANGE  ABI version to check against (known: "
    ++ String.intercalate ", " (knownVersions.map fun v => String.ofList (Text.decimalInt v)) ++ ")",
  "                               [default: " ++ String.ofList (Text.decimalInt defaultVersion) ++ "; x>=1]"]

/-- What the scope is for, and its options. -/
def description : Scope → List String
  | .group => [
    "  Inspect ABI type signatures.",
    "",
    "Options:",
    "  -v, --verbose  Enable debug logging",
    "  --help         Show this message and exit.",
    "",
    "Commands:",
    "  doc        Render Markdown documentation for name:signature parameters.",
    "  info       Display structural information about a type signature.",
    "  signature  Print the canonical form of a type signature."]
  | .signature => [
    "  Print the canonical form of a type signature.",
    "",
    "Options:",
    "  --help  Show this message and exit."]
  | .info => [
    "  Display structural information about a type signature.",
    "",
    "Options:"] ++ versionLines ++ [
    "  --json                       Output as JSON",
    "  --help                       Show this message and exit."]
  | .doc => [
    "  Render Markdown documentation for name:signature parameters.",
    "",
    "Options:"] ++ versionLines ++ [
    "  --title TEXT                 Document title  [default: Parameters]",
    "  -o, --output TEXT            Output file (default stdout)",
    "  --help                       Show this message and exit."]

/-- **The help text of a scope.** -/
def help (s : Scope) (program : String) : String :=
  s.usage program ++ "\n" ++ String.join (s.description.map (· ++ "\n"))

def complaint (s : Scope) (program : String) (m : Misuse) : String :=
  (if m.showsUsage then
    s.usage program ++ "Try '" ++ s.path program ++ " --help' for help.\n\n"
  else "") ++ Text.uncoloured ("Error: " ++ m.message ++ "\n")

end Scope

end AbiTypes.Command
