import AbiTypes.Fault
/-!
# Path — where the path of a new file leads

A path is followed part by part.  In an empty directory only the directory itself, those above it and those of the system
are there, so a path leads to a file of the directory exactly if it is a name behind any number of dots.
-/
namespace AbiTypes.Command

/-- **What the surroundings say to a path**: the name under which the working directory holds the new file, none if the
file lies elsewhere, or why it cannot be written. -/
abbrev Surroundings := String → Except Unwritable (Option String)

/-- The most bytes a part of a path may have. -/
def nameLimit : Nat := 255

/-- The most bytes a path may have. -/
def pathLimit : Nat := 4095

def isLong (name : String) : Bool := nameLimit < name.utf8ByteSize

/-- Where an empty directory's path has led so far. -/
inductive Spot
  | here
  /-- a directory of which nothing is known but that it is there -/
  | elsewhere
  | root
  | devices
  /-- the device that takes any text and keeps none, which is no directory -/
  | nullDevice
  deriving DecidableEq, Repr

def systemDirectories : List String :=
  ["bin", "boot", "dev", "etc", "home", "lib", "media", "mnt", "opt", "proc", "root", "run", "sbin", "srv", "sys", "tmp",
   "usr", "var"]

namespace Spot

def parent : Spot → Spot
  | .here | .elsewhere => .elsewhere
  | .root | .devices => .root
  | .nullDevice => .devices

/-- What a name leads to, if it is known to be there. -/
def child? (s : Spot) (name : String) : Option Spot :=
  match s with
  | .root =>
    if name = "dev" then some .devices else if systemDirectories.contains name then some .elsewhere else none
  | .devices => if name = "null" then some .nullDevice else none
  | .here | .elsewhere | .nullDevice => none

/-- Where one more part leads, if it is there. -/
def enter (s : Spot) (name : String) : Except Unwritable Spot :=
  if s = .nullDevice then .error .notDirectory
  else if name = "" ∨ name = "." then .ok s
  else if name = ".." then .ok s.parent
  else if isLong name then .error .nameTooLong
  else
    match s.child? name with
    | none => .error .missing
    | some t => .ok t

/-- What the last part of a path names, there or not; an empty one ends a directory's path. -/
def create (s : Spot) (name : String) : Except Unwritable (Option String) :=
  if s = .nullDevice then .error .notDirectory
  else if name = "" ∨ name = "." ∨ name = ".." then .error .directory
  else if isLong name then .error .nameTooLong
  else
    match s.child? name with
    | none => .ok (if s = .here then some name else none)
    | some .nullDevice => .ok none
    | some _ => .error .directory

end Spot

/-- Where the parts of a path lead; a name with nothing but empty parts behind it is taken for a directory. -/
def follow (s : Spot) : List String → Except Unwritable (Option String)
  | [] => .error .directory
  | [name] => s.create name
  | name :: rest =>
    if s ≠ .nullDevice ∧ rest.all (· = "") then .error .directory
    else do follow (← s.enter name) rest

def pathParts : List Char → List (List Char)
  | [] => [[]]
  | '/' :: cs => [] :: pathParts cs
  | c :: cs =>
    match pathParts cs with
    | [] => [[c]]
    | p :: ps => (c :: p) :: ps

/-- **Where paths lead from an empty working directory.** -/
def emptyDirectory : Surroundings := fun path =>
  if path.toList.contains '\x00' then .error .nullCharacter
  else if pathLimit < path.utf8ByteSize then .error .nameTooLong
  else if path = "" then .error .missing
  else
    match pathParts path.toList with
    | [] :: parts => follow .root (parts.map String.ofList)
    | parts => follow .here (parts.map String.ofList)

end AbiTypes.Command
