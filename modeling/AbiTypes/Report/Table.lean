import AbiTypes.Report
/-!
# Table — a report on a terminal of eighty columns

Tables have no borders.  A cell is padded to the width of its column; a column never makes a line longer than the
terminal, and a text too long for it is cut with an ellipsis.
-/
namespace AbiTypes.Report

/-- The columns of the terminal. -/
def lineWidth : Nat := 80

/-- **A text in a cell of the given width**: padded, or cut so that an ellipsis fits in. -/
def cell (width : Nat) (s : List Char) : List Char :=
  if s.length ≤ width then s ++ List.replicate (width - s.length) ' '
  else s.take (width - 1) ++ ['…']

def longest (ss : List (List Char)) : Nat := (ss.map List.length).foldl max 0

/-- A text cut into lines of the given width; every line takes a character, so the length is fuel enough. -/
def chunksWith (width : Nat) : (fuel : Nat) → List Char → List (List Char)
  | 0, _ => []
  | fuel + 1, s => if s.isEmpty then [] else s.take width :: chunksWith width fuel (s.drop width)

def chunks (width : Nat) (s : List Char) : List (List Char) := chunksWith width s.length s

/-- **A sentence and its last word on lines of the terminal**: the word goes to a line of its own if it does not fit, and
to several if it is longer than one. -/
def sentence (start word : List Char) : List (List Char) :=
  if start.length + word.length ≤ lineWidth then [start ++ word]
  else start :: chunks lineWidth word

/-- A number, or a note that there is none. -/
def optional (n : Option Nat) : List Char :=
  match n with
  | none => ['n', '/', 'a']
  | some n => Text.decimal n

/-- The rows of the first table: labels and values. -/
def rows (r : Report) : List (List Char × List Char) := [
  ("Signature".toList, r.signature.toList),
  ("Bit length".toList, optional (if r.bitLen = 0 then none else some r.bitLen)),
  ("Map key bits".toList, optional r.keyBits?),
  ("Min ABI version".toList, Text.decimalInt r.since),
  ("Depth".toList, Text.decimal r.depth)]

/-- The width of the labels, the longest of which is fixed. -/
def labelWidth : Nat := 15

/-- The width of the values: what two margins, the labels and the gap leave of a line, or less. -/
def valueWidth (r : Report) : Nat := min (longest (r.rows.map Prod.snd)) (lineWidth - (2 + labelWidth + 4 + 2))

def typeTable (r : Report) : List (List Char) :=
  r.rows.map fun (label, value) =>
    "  ".toList ++ cell labelWidth label ++ "    ".toList ++ cell r.valueWidth value ++ "  ".toList

def fieldRows (r : Report) : List (List Char × List Char) :=
  ("Name".toList, "Type".toList) :: r.fields.map fun f => (f.name.toList, f.kind.toList)

/-- The room for a column beside another one, a gap behind each: what the other leaves of a line, but half of it where the
other is wide as well. -/
def roomBeside (other : List (List Char)) : Nat := max (lineWidth / 2 - 2) (lineWidth - 4 - longest other)

def nameWidth (r : Report) : Nat := min (longest (r.fieldRows.map Prod.fst)) (roomBeside (r.fieldRows.map Prod.snd))

def typeWidth (r : Report) : Nat := min (longest (r.fieldRows.map Prod.snd)) (roomBeside (r.fieldRows.map Prod.fst))

def fieldTable (r : Report) : List (List Char) :=
  r.fieldRows.map fun (name, type) => cell r.nameWidth name ++ "  ".toList ++ cell r.typeWidth type ++ "  ".toList

/-- The lines on support in a version: one if every node is supported, else one more for each node that is not. -/
def supportLines (version : Int) (unsupported : List String) : List (List Char) :=
  if unsupported.isEmpty then sentence "Supported by ABI version ".toList (Text.decimalInt version)
  else sentence "Not supported by ABI version ".toList (Text.decimalInt version)
    ++ unsupported.flatMap fun s => chunks lineWidth ("  ".toList ++ s.toList)

/-- The lines of a report on a type, with its support in a version. -/
def lines (r : Report) (version : Int) (unsupported : List String) : List (List Char) :=
  ["Type".toList] ++ r.typeTable ++ [[]]
    ++ (if r.fields.isEmpty then [] else ["Fields".toList] ++ r.fieldTable ++ [[]])
    ++ supportLines version unsupported

/-- **A report as text**, line by line. -/
def plain (r : Report) (version : Int) (unsupported : List String) : String :=
  String.ofList ((r.lines version unsupported).flatMap (· ++ ['\n']))

/-- A report as text, where its numbers and the version can be written. -/
def printPlain (r : Report) (version : Int) (unsupported : List String) : Except Fault String :=
  Text.written (r.numbers ++ [version.natAbs]) (r.plain version unsupported)

end AbiTypes.Report
