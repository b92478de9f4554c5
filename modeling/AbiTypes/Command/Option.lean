import AbiTypes.Text.Quoted
import AbiTypes.Text.Similarity
/-!
# Option — reading a list of arguments

Options may be mixed with the other arguments, up to `--`.  A long option takes its value from behind `=` or from the
next argument; short options may stand together after one dash, the last with its value.
-/
namespace AbiTypes.Command

inductive Opt
  | verbose | abiVersion | json | title | output | help
  deriving DecidableEq, Repr

namespace Opt

def long : Opt → String
  | .verbose => "--verbose"
  | .abiVersion => "--abi-version"
  | .json => "--json"
  | .title => "--title"
  | .output => "--output"
  | .help => "--help"

/-- The letter after a single dash, for the options that have one. -/
def letter? : Opt → Option Char
  | .verbose => some 'v'
  | .output => some 'o'
  | _ => none

def takesValue : Opt → Bool
  | .abiVersion | .title | .output => true
  | .verbose | .json | .help => false

end Opt

/-- Where a list of arguments is read: before the command's name, or after one of the names. -/
inductive Scope
  | group | signature | info | doc
  deriving DecidableEq, Repr

/-- The options known in a scope, in the order they are declared. -/
def Scope.options : Scope → List Opt
  | .group => [.verbose, .help]
  | .signature => [.help]
  | .info => [.abiVersion, .json, .help]
  | .doc => [.abiVersion, .title, .output, .help]

inductive Misuse
  | noSuchOption (name : String) (alike : List String)
  | needsValue (name : String)
  | takesNoValue (name : String)
  | noInteger (option : String) (given : String)
  | tooLow (option : String) (given : Int)
  | missingArgument (name : String)
  | extraArguments (args : List String)
  | missingCommand
  | noSuchCommand (name : String) (alike : List String)
  deriving DecidableEq, Repr

namespace Misuse

def hint : List String → String
  | [] => ""
  | [name] => " Did you mean " ++ Text.quoted name ++ "?"
  | names => " (Did you mean one of: " ++ String.intercalate ", " (names.map Text.quoted) ++ "?)"

def message : Misuse → String
  | .noSuchOption name alike => "No such option " ++ Text.quoted name ++ "." ++ hint alike
  | .needsValue name => "Option " ++ Text.quoted name ++ " requires an argument."
  | .takesNoValue name => "Option " ++ Text.quoted name ++ " does not take a value."
  | .noInteger option given =>
    "Invalid value for " ++ Text.quoted option ++ ": " ++ Text.quoted given ++ " is not a valid integer range."
  | .tooLow option given =>
    "Invalid value for " ++ Text.quoted option ++ ": " ++ String.ofList (Text.decimalInt given)
      ++ " is not in the range x>=1."
  | .missingArgument name => "Missing argument " ++ Text.quoted name ++ "."
  | .extraArguments [arg] => "Got unexpected extra argument (" ++ arg ++ ")"
  | .extraArguments args => "Got unexpected extra arguments (" ++ String.intercalate " " args ++ ")"
  | .missingCommand => "Missing command."
  | .noSuchCommand name alike => "No such command " ++ Text.quoted name ++ "." ++ hint alike

/-- Is the usage shown above the message?  Not where an option's value is at fault before it is read. -/
def showsUsage : Misuse → Bool
  | .needsValue _ | .takesNoValue _ => false
  | _ => true

end Misuse

/-- An option that was given; the value of a flag is empty. -/
structure Given where
  opt : Opt
  value : String
  deriving DecidableEq, Repr

/-- An option that still wants a value, and the spelling it was given by. -/
structure Pending where
  opt : Opt
  spelling : String

/-- What a list of arguments holds: the options in the order they were given, and the other arguments. -/
structure Arguments where
  given : List Given
  positional : List String
  deriving DecidableEq, Repr

/-- The text before the first equals sign, and the text after it if there is one. -/
def splitValue : List Char → List Char × Option (List Char)
  | [] => ([], none)
  | c :: cs => if c = '=' then ([], some cs) else (c :: (splitValue cs).1, (splitValue cs).2)

/-- Does the argument look like an option: a dash with something behind it? -/
def isOption (arg : String) : Bool :=
  match arg.toList with
  | '-' :: _ :: _ => true
  | _ => false

namespace Scope

def alike (s : Scope) (name : String) : List String := Text.closest (s.options.map Opt.long) name

/-- The options of a run of letters; a letter whose option takes a value takes the rest of the run, or waits for the next
argument. -/
def readLetters (s : Scope) : List Char → Except Misuse (List Given × Option Pending)
  | [] => .ok ([], none)
  | c :: cs =>
    match s.options.find? fun o => o.letter? = some c with
    | none => .error (.noSuchOption (String.ofList ['-', c]) [])
    | some o =>
      if o.takesValue then
        if cs.isEmpty then .ok ([], some ⟨o, String.ofList ['-', c]⟩) else .ok ([⟨o, String.ofList cs⟩], none)
      else do
        let (given, pending) ← s.readLetters cs
        return (⟨o, ""⟩ :: given, pending)

/-- The options of one argument, and the one among them that waits for the next argument. -/
def readOption (s : Scope) (arg : String) : Except Misuse (List Given × Option Pending) :=
  let name := String.ofList (splitValue arg.toList).1
  match s.options.find? fun o => o.long = name with
  | some o =>
    match o.takesValue, (splitValue arg.toList).2 with
    | true, some value => .ok ([⟨o, String.ofList value⟩], none)
    | true, none => .ok ([], some ⟨o, name⟩)
    | false, none => .ok ([⟨o, ""⟩], none)
    | false, some _ => .error (.takesNoValue name)
  | none =>
    match arg.toList with
    | '-' :: '-' :: _ => .error (.noSuchOption name (s.alike name))
    | cs => s.readLetters (cs.drop 1)

/-- May options stand behind the first other argument?  Not before the command's name, which ends the group's own. -/
def isMixed : Scope → Bool
  | .group => false
  | _ => true

/-- **Reads a list of arguments**, up to the first misuse. -/
def readArguments (s : Scope) : List String → Except Misuse Arguments
  | [] => .ok ⟨[], []⟩
  | arg :: rest =>
    if arg = "--" then .ok ⟨[], rest⟩
    else if isOption arg then
      match s.readOption arg with
      | .error e => .error e
      | .ok (given, none) => (s.readArguments rest).map fun a => { a with given := given ++ a.given }
      | .ok (given, some p) =>
        match rest with
        | [] => .error (.needsValue p.spelling)
        | value :: rest =>
          (s.readArguments rest).map fun a => { a with given := given ++ ⟨p.opt, value⟩ :: a.given }
    else if s.isMixed then (s.readArguments rest).map fun a => { a with positional := arg :: a.positional }
    else .ok ⟨[], arg :: rest⟩

end Scope

namespace Arguments

def has (a : Arguments) (o : Opt) : Bool := a.given.any fun g => g.opt = o

/-- The value of an option; the last one given counts. -/
def value? (a : Arguments) (o : Opt) : Option String :=
  (a.given.reverse.find? fun g => g.opt = o).map Given.value

end Arguments

end AbiTypes.Command
