import AbiTypes.Text.Decimal
/-!
# Json — JSON values and their indented text

The text is pure ASCII: a character beyond it is written as one or two escapes of sixteen bits each.
-/
namespace AbiTypes.Text

/-- A JSON value; the members of a record keep their order. -/
inductive Json
  | null
  | number (n : Int)
  | text (s : String)
  | list (items : List Json)
  | record (members : List (String × Json))
  deriving Inhabited

namespace Json

/-- A sixteen-bit unit as an escape. -/
def unitEscape (u : Nat) : List Char := '\\' :: 'u' :: hex 4 u

/-- The sixteen-bit units of a character: itself, or a surrogate pair. -/
def units (c : Char) : List Nat :=
  if c.toNat < 0x10000 then [c.toNat]
  else [0xd800 + (c.toNat - 0x10000) / 0x400, 0xdc00 + (c.toNat - 0x10000) % 0x400]

/-- One character as it stands in a JSON string. -/
def charText (c : Char) : List Char :=
  if c = '"' ∨ c = '\\' then ['\\', c]
  else if c = '\n' then ['\\', 'n']
  else if c = '\r' then ['\\', 'r']
  else if c = '\t' then ['\\', 't']
  else if c = '\x08' then ['\\', 'b']
  else if c = '\x0c' then ['\\', 'f']
  else if 0x20 ≤ c.toNat ∧ c.toNat < 0x7f then [c]
  else (units c).flatMap unitEscape

/-- A JSON string, quotes included. -/
def stringText (s : String) : List Char :=
  '"' :: s.toList.flatMap charText ++ ['"']

/-- A new line at nesting `depth`, two blanks a level. -/
def newline (depth : Nat) : List Char := '\n' :: List.replicate (2 * depth) ' '

mutual

/-- **The indented text of a value** that stands at nesting `depth`. -/
def chars (depth : Nat) : Json → List Char
  | .null => ['n', 'u', 'l', 'l']
  | .number n => decimalInt n
  | .text s => stringText s
  | .list [] => ['[', ']']
  | .list (v :: vs) => '[' :: itemChars depth (v :: vs)
  | .record [] => ['\x7b', '\x7d']
  | .record (m :: ms) => '\x7b' :: memberChars depth (m :: ms)

/-- The items of a list, each on a line of its own one level deeper, and the closing bracket. -/
def itemChars (depth : Nat) : List Json → List Char
  | [] => newline depth ++ [']']
  | [v] => newline (depth + 1) ++ chars (depth + 1) v ++ newline depth ++ [']']
  | v :: vs => newline (depth + 1) ++ chars (depth + 1) v ++ ',' :: itemChars depth vs

/-- The members of a record, each on a line of its own one level deeper, and the closing brace. -/
def memberChars (depth : Nat) : List (String × Json) → List Char
  | [] => newline depth ++ ['\x7d']
  | [(k, v)] =>
    newline (depth + 1) ++ stringText k ++ ':' :: ' ' :: chars (depth + 1) v ++ newline depth ++ ['\x7d']
  | (k, v) :: ms =>
    newline (depth + 1) ++ stringText k ++ ':' :: ' ' :: chars (depth + 1) v ++ ',' :: memberChars depth ms

end

def render (v : Json) : String := String.ofList (v.chars 0)

end Json

end AbiTypes.Text
