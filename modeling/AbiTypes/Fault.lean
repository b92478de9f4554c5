import AbiTypes.Scalar
import AbiTypes.Text.Quoted
/-!
# Fault — what can go wrong

Each fault is a cause with its facts; the wording is in `Fault.message` alone.  The faults of a definition have a class
(`Fault.class?`) and are reported to the user; the others are faults of the request or of its surroundings.
-/
namespace AbiTypes

/-- What a text is read as: a type signature, or a parameter `name:signature`. -/
inductive Form
  | signature | param
  deriving DecidableEq, Repr, Inhabited

def Form.word : Form → String
  | .signature => "signature"
  | .param => "param"

/-- What a size belongs to. -/
inductive Sizable
  | family (s : Sized)
  | fixedArray
  deriving DecidableEq, Repr, Inhabited

/-- The name of a sizable thing in messages about its size. -/
def Sizable.label : Sizable → String
  | .family .uint => "uint"
  | .family .int => "int"
  | .family .fixedBytes => "Fixed bytes"
  | .fixedArray => "Fixed array"

/-- The grammar rule that a sizable thing is read by. -/
def Sizable.rule : Sizable → String
  | .family _ => "scalar"
  | .fixedArray => "fixed_array"

/-- Why a file cannot be written. -/
inductive Unwritable
  /-- there is nothing where the path leads through -/
  | missing
  | directory
  /-- the path leads through something that is no directory -/
  | notDirectory
  | nameTooLong
  /-- the path holds the character that ends paths -/
  | nullCharacter
  /-- the file or its directory is closed to the user -/
  | denied
  deriving DecidableEq, Repr, Inhabited

/-- A cause of failure. -/
inductive Fault
  | notMapKey
  /-- the text is outside the grammar; the column is -1 at its end -/
  | malformed (form : Form) (text : String) (column : Int)
  | tooDeep (form : Form)
  /-- a number has too many digits, to be read by a rule of the grammar, or to be written -/
  | tooManyDigits (rule : Option String) (count : Nat)
  | emptyTuple
  | noParams
  /-- components are given to a type that cannot hold them -/
  | unusedComponents (signature : String) (count : Nat)
  | sizeNotInteger (owner : Sizable) (given : String)
  | sizeNegative (owner : Sizable) (given : Int)
  /-- a value that can change is no member of a set -/
  | unhashable (variant : String)
  /-- a part that never changes is assigned to -/
  | frozen (part : String)
  /-- a file is to be written where it cannot be -/
  | unwritable (cause : Unwritable) (path : String)
  /-- a register is missing, or holds another kind of value -/
  | noSuchRegister (name : String)
  /-- a path leads to no part of a descriptor, or none has the name that is assigned to -/
  | noSuchPart
  /-- a tuple would come to contain itself -/
  | cyclic
  deriving DecidableEq, Repr, Inhabited

inductive FaultClass
  | emptyComponents | unusedComponents | invalidData
  deriving DecidableEq, Repr, Inhabited

def Unwritable.message (path : String) : Unwritable → String
  | .missing => "[Errno 2] No such file or directory: " ++ Text.quoted path
  | .directory => "[Errno 21] Is a directory: " ++ Text.quoted path
  | .notDirectory => "[Errno 20] Not a directory: " ++ Text.quoted path
  | .nameTooLong => "[Errno 36] File name too long: " ++ Text.quoted path
  | .nullCharacter => "embedded null byte"
  | .denied => "[Errno 13] Permission denied: " ++ Text.quoted path

namespace Fault

/-- **The class of a fault of a definition**; the other faults have none. -/
def class? : Fault → Option FaultClass
  | .notMapKey | .malformed _ _ _ | .tooDeep _ => some .invalidData
  | .emptyTuple | .noParams => some .emptyComponents
  | .unusedComponents _ _ => some .unusedComponents
  | _ => none

def message : Fault → String
  | .notMapKey => "Only integer and std address values can be map keys"
  | .malformed form text column =>
    "Invalid " ++ form.word ++ " " ++ Text.quoted text ++ " at column " ++ String.ofList (Text.decimalInt column)
  | .tooDeep form => "Invalid " ++ form.word ++ ": nested too deeply"
  | .tooManyDigits none _ =>
    "Exceeds the limit (" ++ toString Text.digitLimit
      ++ " digits) for integer string conversion; use sys.set_int_max_str_digits() to increase the limit"
  | .tooManyDigits (some rule) count =>
    "Error trying to process rule \"" ++ rule ++ "\":\n\nExceeds the limit (" ++ toString Text.digitLimit
      ++ " digits) for integer string conversion: value has " ++ toString count
      ++ " digits; use sys.set_int_max_str_digits() to increase the limit"
  | .emptyTuple => "Tuple must have at least one component"
  | .noParams => "No parameters to document"
  | .unusedComponents signature count => signature ++ " does not use components, got " ++ toString count
  | .sizeNotInteger owner given => owner.label ++ " size must be an integer, got " ++ given
  | .sizeNegative owner given =>
    owner.label ++ " size must not be negative, got " ++ String.ofList (Text.decimalInt given)
  | .unhashable variant => "unhashable type: '" ++ variant ++ "'"
  | .frozen part => "cannot assign to field " ++ Text.quoted part
  | .unwritable cause path => cause.message path
  | .noSuchRegister name => "no register " ++ Text.quoted name
  | .noSuchPart => "no such part"
  | .cyclic => "a tuple cannot contain itself"

end Fault

end AbiTypes
