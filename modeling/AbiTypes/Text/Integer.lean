import AbiTypes.Text.Decimal
/-!
# Integer — integers as people type them

Blanks around the number are ignored, a sign may lead, the digits may be of any script, and single underscores may part
them.  A number beyond the digit limit is refused.
-/
namespace AbiTypes.Text

/-- The blanks beyond ASCII, as closed ranges. -/
def wideBlankRanges : List (Nat × Nat) :=
  [(0x85, 0x85), (0xa0, 0xa0), (0x1680, 0x1680), (0x2000, 0x200a), (0x2028, 0x2029), (0x202f, 0x202f),
   (0x205f, 0x205f), (0x3000, 0x3000)]

/-- The zero of each run of ten decimal digits, in order. -/
def digitZeros : List Nat :=
  [0x30, 0x660, 0x6f0, 0x7c0, 0x966, 0x9e6, 0xa66, 0xae6, 0xb66, 0xbe6, 0xc66, 0xce6, 0xd66, 0xde6, 0xe50, 0xed0,
   0xf20, 0x1040, 0x1090, 0x17e0, 0x1810, 0x1946, 0x19d0, 0x1a80, 0x1a90, 0x1b50, 0x1bb0, 0x1c40, 0x1c50, 0xa620,
   0xa8d0, 0xa900, 0xa9d0, 0xa9f0, 0xaa50, 0xabf0, 0xff10, 0x104a0, 0x10d30, 0x11066, 0x110f0, 0x11136, 0x111d0,
   0x112f0, 0x11450, 0x114d0, 0x11650, 0x116c0, 0x11730, 0x118e0, 0x11950, 0x11c50, 0x11d50, 0x11da0, 0x16a60,
   0x16ac0, 0x16b50, 0x1d7ce, 0x1d7d8, 0x1d7e2, 0x1d7ec, 0x1d7f6, 0x1e140, 0x1e2f0, 0x1e950, 0x1fbf0]

/-- A blank around a typed number: the ASCII white space, or a blank beyond ASCII. -/
def isPadding (c : Char) : Bool :=
  (9 ≤ c.toNat && c.toNat ≤ 13) || c = ' ' || wideBlankRanges.any fun r => r.1 ≤ c.toNat && c.toNat ≤ r.2

/-- The value of a decimal digit of any script. -/
def digitValue? (c : Char) : Option Nat :=
  (digitZeros.find? fun z => z ≤ c.toNat && c.toNat < z + 10).map (c.toNat - ·)

/-- The digit values of a run whose digits may be parted by single underscores; none for any other text. -/
def digitRun? : List Char → Option (List Nat)
  | [] => none
  | c :: cs =>
    match digitValue? c, cs with
    | none, _ => none
    | some d, [] => some [d]
    | some d, '_' :: cs => (digitRun? cs).map (d :: ·)
    | some d, e :: cs => (digitRun? (e :: cs)).map (d :: ·)

/-- The number whose decimal digits, most significant first, are the given values. -/
def ofDigitValues (ds : List Nat) : Nat := ds.foldl (fun n d => 10 * n + d) 0

/-- The typed number without its padding and sign, read as digits within the limit. -/
def natural? (cs : List Char) : Option Nat := do
  let ds ← digitRun? cs
  if digitLimit < ds.length then none else some (ofDigitValues ds)

def trimPadding (cs : List Char) : List Char :=
  ((cs.dropWhile isPadding).reverse.dropWhile isPadding).reverse

/-- **A typed integer**, or none if the text is no integer. -/
def integer? (cs : List Char) : Option Int :=
  match trimPadding cs with
  | '+' :: ds => (natural? ds).map Int.ofNat
  | '-' :: ds => (natural? ds).map fun n => -Int.ofNat n
  | ds => (natural? ds).map Int.ofNat

end AbiTypes.Text
