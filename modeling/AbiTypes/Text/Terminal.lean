/-!
# Terminal — text without control sequences

A control sequence is an escape character, an opening bracket, parameters, intermediate characters and a final character.
Text for a terminal that shows no colours is written without them.
-/
namespace AbiTypes.Text

/-- A character between the bracket and the end of a control sequence that is part of its parameters. -/
def isParameter (c : Char) : Bool := '0' ≤ c && c ≤ '?'

/-- A character behind the parameters of a control sequence. -/
def isIntermediate (c : Char) : Bool := ' ' ≤ c && c ≤ '/'

/-- The last character of a control sequence. -/
def isFinal (c : Char) : Bool := '@' ≤ c && c ≤ '~'

/-- The text behind a control sequence whose start was read; none if it is no whole one. -/
def sequenceRest? (cs : List Char) : Option (List Char) :=
  match (cs.dropWhile isParameter).dropWhile isIntermediate with
  | [] => none
  | c :: rest => if isFinal c then some rest else none

/-- The text without control sequences; every round takes a character, so the length is fuel enough. -/
def withoutSequences : (fuel : Nat) → List Char → List Char
  | 0, cs => cs
  | _ + 1, [] => []
  | fuel + 1, c :: cs =>
    match c, cs with
    | '\x1b', '[' :: body =>
      match sequenceRest? body with
      | some rest => withoutSequences fuel rest
      | none => c :: withoutSequences fuel cs
    | _, _ => c :: withoutSequences fuel cs

/-- **The text as a terminal without colours gets it.** -/
def uncoloured (s : String) : String := String.ofList (withoutSequences s.toList.length s.toList)

end AbiTypes.Text
