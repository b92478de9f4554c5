import AbiTypes.Traced
import AbiTypes.Ty.Support
/-!
# Markdown — the documentation of a parameter list

A title, the signature of all parameters together, a table with a row for each, and, if there are any, the parts that the
wanted version does not support.
-/
namespace AbiTypes.Markdown

def row (p : Field Ty) : String :=
  "| " ++ p.name ++ " | `" ++ p.signature ++ "` | "
    ++ (p.kind.keyBits?.elim "-" fun n => String.ofList (Text.decimal n)) ++ " | "
    ++ String.ofList (Text.decimalInt p.kind.since) ++ " |\n"

/-- The line on a parameter's parts that the version does not support; nothing if it supports them all. -/
def warning (version : Int) (p : Field Ty) : String :=
  match p.kind.unsupportedSignatures version with
  | [] => ""
  | ss => "- " ++ p.name ++ ": " ++ String.intercalate ", " ss ++ "\n"

/-- The section on unsupported parts: a heading and the parameters' lines, or nothing. -/
def warnings (version : Int) (ps : List (Field Ty)) : String :=
  if ps.all fun p => (p.kind.unsupported version).isEmpty then ""
  else "Not supported by ABI version " ++ String.ofList (Text.decimalInt version) ++ ":\n\n"
    ++ String.join (ps.map (warning version))

/-- The page of a parameter list, whether or not its numbers can be written. -/
def page (title : String) (version : Int) (ps : List (Field Ty)) : String :=
  "\n# " ++ title ++ "\n\nSignature: `" ++ (Ty.tuple ps).signature ++ "`\n\n"
    ++ "| Name | Type | Map key bits | Min ABI version |\n| --- | --- | --- | --- |\n"
    ++ String.join (ps.map row) ++ warnings version ps

/-- The numbers of a page: the parameters' sizes, and the version if something is listed as unsupported. -/
def numbers (version : Int) (ps : List (Field Ty)) : List Nat :=
  (Ty.tuple ps).sizes ++ if ps.all fun p => (p.kind.unsupported version).isEmpty then [] else [version.natAbs]

/-- **The page of a parameter list, where its numbers can be written.** -/
def print (title : String) (version : Int) (ps : List (Field Ty)) : Except Fault String :=
  Text.written (numbers version ps) (page title version ps)

/-- **The documentation of a parameter list**, which must not be empty; the parameters are attached to one tuple of
their own on the way. -/
def render (title : String) (version : Int) (ps : List (Field Ty)) : Traced String :=
  if ps.isEmpty then .fail .noParams
  else do
    Traced.tellAll (Event.attachedTo ps.length (.tuple ps))
    .ofExcept (print title version ps)

def defaultTitle : String := "Parameters"

end AbiTypes.Markdown
