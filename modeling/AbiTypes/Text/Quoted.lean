import AbiTypes.Text.Decimal
import AbiTypes.Text.Unprintable
/-!
# Quoted — text between quotes

A text is quoted with single quotes, unless it holds a single quote and no double one.  The quote in use, backslashes and
unprintable characters are written as escapes, everything else as itself.
-/
namespace AbiTypes.Text

/-- The quote a text is written between. -/
def quoteMark (cs : List Char) : Char :=
  if '\x27' ∈ cs ∧ '"' ∉ cs then '"' else '\x27'

/-- An unprintable character by its code point, in the shortest of three forms. -/
def codeEscape (c : Char) : List Char :=
  if c.toNat < 0x100 then '\\' :: 'x' :: hex 2 c.toNat
  else if c.toNat < 0x10000 then '\\' :: 'u' :: hex 4 c.toNat
  else '\\' :: 'U' :: hex 8 c.toNat

/-- One character as it stands between the quotes `q`. -/
def quotedChar (q c : Char) : List Char :=
  if c = q ∨ c = '\\' then ['\\', c]
  else if c = '\n' then ['\\', 'n']
  else if c = '\r' then ['\\', 'r']
  else if c = '\t' then ['\\', 't']
  else if isUnprintable c then codeEscape c
  else [c]

/-- **A text between quotes**, with its escapes. -/
def quotedChars (cs : List Char) : List Char :=
  quoteMark cs :: cs.flatMap (quotedChar (quoteMark cs)) ++ [quoteMark cs]

def quoted (s : String) : String := String.ofList (quotedChars s.toList)

/-- Texts in quotes, as a bracketed list. -/
def quotedList (ss : List String) : String :=
  "[" ++ String.intercalate ", " (ss.map quoted) ++ "]"

end AbiTypes.Text
