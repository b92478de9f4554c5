import AbiTypes.Command.Help
import AbiTypes.Command.Path
import AbiTypes.Markdown
import AbiTypes.Reader
import AbiTypes.Report.Table
import AbiTypes.Text.Integer
/-!
# Command — the command line

A run is a function from the arguments to an outcome: the exit code, the two output texts, the files to write, and the
log.  What the surroundings decide is one function: where the path of a new file leads.
-/
namespace AbiTypes.Command

/-- The outcome of a run. -/
structure Outcome where
  exitCode : Nat
  output : String := ""
  complaints : String := ""
  /-- the files that the working directory holds afterwards, name and text -/
  files : List (String × String) := []
  /-- a fault that is no fault of a definition ends the run unreported -/
  escaped : Option Fault := none
  isVerbose : Bool := false
  /-- the events of the run; empty unless the log is shown -/
  log : List Event := []

structure Product where
  exitCode : Nat
  output : String
  files : List (String × String) := []

/-- Asked for a version, the number it is given as: an integer, and at least 1. -/
def version (a : Arguments) : Except Misuse Int :=
  match a.value? .abiVersion with
  | none => .ok defaultVersion
  | some given =>
    match Text.integer? given.toList with
    | none => .error (.noInteger Opt.abiVersion.long given)
    | some n => if n < 1 then .error (.tooLow Opt.abiVersion.long n) else .ok n

def oneText (a : Arguments) : Except Misuse String :=
  match a.positional with
  | [] => .error (.missingArgument "TEXT")
  | [text] => .ok text
  | _ :: extra => .error (.extraArguments extra)

def someTexts (a : Arguments) : Except Misuse (List String) :=
  match a.positional with
  | [] => .error (.missingArgument "PARAMS...")
  | texts => .ok texts

section Run

variable [Reader.Stack]

def signature (text : String) : Traced Product := do
  let t ← Ty.read text
  let signature ← .ofExcept t.print
  return ⟨0, signature ++ "\n", []⟩

/-- Reports on a signature; a version that does not support every node of the type makes the run fail. -/
def info (text : String) (version : Int) (json : Bool) : Traced Product := do
  let t ← Ty.read text
  let report ← .ofExcept t.describe
  let unsupported ← .ofExcept (Ty.printAll (t.unsupported version))
  let output ← .ofExcept (if json then report.printJson.map (· ++ "\n") else report.printPlain version unsupported)
  if unsupported.isEmpty then return ⟨0, output, []⟩
  else
    Traced.tell (.unsupportedIn version unsupported)
    return ⟨1, output, []⟩

def readParams : List String → Traced (List (Field Ty))
  | [] => .value []
  | s :: ss => do
    let p ← Field.read s
    return p :: (← readParams ss)

def doc (place : Surroundings) (texts : List String) (version : Int) (title : String) (file : Option String) :
    Traced Product := do
  let page ← Markdown.render title version (← readParams texts)
  match file with
  | none => return ⟨0, page, []⟩
  | some path =>
    match place path with
    | .ok name => return ⟨0, "", name.toList.map (·, page)⟩
    | .error cause => Traced.fail (.unwritable cause path)

/-- **A command on its arguments**: a misuse, or what it makes of them. -/
def perform (place : Surroundings) (s : Scope) (a : Arguments) : Except Misuse (Traced Product) :=
  match s with
  | .group => .error .missingCommand
  | .signature => do return signature (← oneText a)
  | .info => do
    let v ← version a
    return info (← oneText a) v (a.has .json)
  | .doc => do
    let v ← version a
    return doc place (← someTexts a) v ((a.value? .title).getD Markdown.defaultTitle) (a.value? .output)

def Outcome.ofMisuse (s : Scope) (program : String) (m : Misuse) : Outcome :=
  { exitCode := 2, complaints := s.complaint program m }

/-- The run that ends in a command's product or fault: a fault of a definition is printed, any other escapes. -/
def Outcome.ofProduct (x : Traced Product) : Outcome :=
  match x.outcome with
  | .ok p => { exitCode := p.exitCode, output := p.output, files := p.files, log := x.log }
  | .error f =>
    if f.class?.isSome then { exitCode := 1, output := "Error: " ++ f.message ++ "\n", log := x.log }
    else { exitCode := 1, escaped := some f, log := x.log }

/-- The run of a named command on the arguments behind its name. -/
def runCommand (place : Surroundings) (program : String) (s : Scope) (args : List String) : Outcome :=
  match s.readArguments args with
  | .error m => .ofMisuse s program m
  | .ok a =>
    if a.has .help then { exitCode := 0, output := s.help program }
    else
      match perform place s a with
      | .error m => .ofMisuse s program m
      | .ok x => .ofProduct x

def names : List String := ["doc", "info", "signature"]

def scope? : String → Option Scope
  | "signature" => some .signature
  | "info" => some .info
  | "doc" => some .doc
  | _ => none

/-- The run that finds no command of the name.  A name that looks like an option, as it may behind `--`, is read as the
group's option once more. -/
def runUnknown (program name : String) (rest : List String) : Outcome :=
  let unknown := Outcome.ofMisuse .group program (.noSuchCommand name (Text.closest names name))
  if isOption name then
    match Scope.group.readArguments (name :: rest) with
    | .error m => .ofMisuse .group program m
    | .ok a => if a.has .help then { exitCode := 0, output := Scope.group.help program } else unknown
  else unknown

/-- **A run of the program**: the group's own options, then a command's name and its arguments. -/
def run (place : Surroundings) (program : String) (args : List String) : Outcome :=
  if args.isEmpty then { exitCode := 2, complaints := Scope.group.help program }
  else
    match Scope.group.readArguments args with
    | .error m => .ofMisuse .group program m
    | .ok a =>
      if a.has .help then { exitCode := 0, output := Scope.group.help program }
      else
        match a.positional with
        | [] => .ofMisuse .group program .missingCommand
        | name :: rest =>
          match scope? name with
          | none => runUnknown program name rest
          | some s =>
            let o := runCommand place program s rest
            { o with isVerbose := a.has .verbose, log := if a.has .verbose then o.log else [] }

end Run

end AbiTypes.Command
