/-!
# Decimal — numbers in decimal digits

A number is printed without leading zeros; a run of digits is read with any.  How many digits there may be is not of
concern here: what is read and what is written has a limit (`digitLimit`) where that is done.
-/
namespace AbiTypes.Text

def decimal (n : Nat) : List Char := Nat.toDigits 10 n

/-- The decimal digits of an integer, a minus sign before a negative one. -/
def decimalInt : Int → List Char
  | .ofNat n => decimal n
  | .negSucc n => '-' :: decimal (n + 1)

/-- The most digits a number may be written with, leading zeros counted. -/
def digitLimit : Nat := 4300

/-- The value of a run of decimal digits. -/
def ofDecimal (ds : List Char) : Nat := Nat.ofDigitChars 10 ds 0

/-- **Printing then reading gives the number back.** -/
@[simp] theorem ofDecimal_decimal (n : Nat) : ofDecimal (decimal n) = n :=
  Nat.ofDigitChars_toDigits (by decide) (by decide)

/-- The digits of a number in base sixteen, lower case, exactly `width` of them: the lowest ones. -/
def hex : (width n : Nat) → List Char
  | 0, _ => []
  | w + 1, n => hex w (n / 16) ++ [Nat.digitChar (n % 16)]

@[simp] theorem length_hex (w n : Nat) : (hex w n).length = w := by
  induction w generalizing n with
  | zero => rfl
  | succ w ih => simp [hex, ih]

end AbiTypes.Text
