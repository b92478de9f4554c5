import AbiTypes.Command
/-!
# Main — the program

Runs a command line: writes the files, prints the texts, and exits with the code.
-/

open AbiTypes

/-- The system's number for a path through something that is no directory. -/
def notDirectoryCode : UInt32 := 20

/-- Why the system did not write a file. -/
def unwritable : IO.Error → Unwritable
  | .noFileOrDirectory _ _ _ => .missing
  | .inappropriateType _ code _ => if code = notDirectoryCode then .notDirectory else .directory
  | .invalidArgument _ _ _ => .nameTooLong
  | _ => .denied

/-- Writes the files of a run; why the first one that cannot be written cannot, if there is one. -/
def writeFiles : List (String × String) → IO (Option Unwritable)
  | [] => return none
  | (path, text) :: rest => do
    try
      IO.FS.writeFile path text
      writeFiles rest
    catch e => return some (unwritable e)

/-- Every path leads to the file it names, but for those that cannot name any. -/
def anywhere : Command.Surroundings := fun path =>
  if path.toList.contains '\x00' then .error .nullCharacter else .ok (some path)

/-- The program: a run whose file cannot be written is run again where none can be. -/
def main (args : List String) : IO UInt32 := do
  let program := (← IO.appPath).fileName.getD "cli"
  let wanted := Command.run anywhere program args
  let outcome ← match ← writeFiles wanted.files with
    | none => pure wanted
    | some cause => pure (Command.run (fun _ => .error cause) program args)
  IO.print outcome.output
  IO.eprint outcome.complaints
  for event in outcome.log do
    IO.eprintln event.message
  if let some fault := outcome.escaped then
    IO.eprintln fault.message
  return outcome.exitCode.toUInt32
