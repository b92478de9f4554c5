import AbiTypes.Version
/-!
# Scalar — the types without parts

Nine plain types are one word.  Three sized families are a word directly followed by a number: `uint256`,
`fixedbytes32`.
-/
namespace AbiTypes

/-- The scalar types that are one word. -/
inductive Plain
  | unknown | bool | cell | address | bytes | gram | time | expire | pubkey
  deriving DecidableEq, Repr, Inhabited

/-- The families of scalar types that carry a number. -/
inductive Sized
  | uint | int | fixedBytes
  deriving DecidableEq, Repr, Inhabited

/-- A type without parts. -/
inductive Scalar
  | plain (word : Plain)
  | sized (family : Sized) (size : Nat)
  deriving DecidableEq, Repr, Inhabited

namespace Plain

def all : List Plain := [.unknown, .bool, .cell, .address, .bytes, .gram, .time, .expire, .pubkey]

theorem mem_all (p : Plain) : p ∈ all := by cases p <;> decide

def word : Plain → List Char
  | .unknown => ['u', 'n', 'k', 'n', 'o', 'w', 'n']
  | .bool => ['b', 'o', 'o', 'l']
  | .cell => ['c', 'e', 'l', 'l']
  | .address => ['a', 'd', 'd', 'r', 'e', 's', 's']
  | .bytes => ['b', 'y', 't', 'e', 's']
  | .gram => ['g', 'r', 'a', 'm']
  | .time => ['t', 'i', 'm', 'e']
  | .expire => ['e', 'x', 'p', 'i', 'r', 'e']
  | .pubkey => ['p', 'u', 'b', 'k', 'e', 'y']

/-- The version that introduced the type: the three message headers came with the second. -/
def since : Plain → Int
  | .time | .expire | .pubkey => 2
  | _ => 1

end Plain

namespace Sized

def all : List Sized := [.uint, .int, .fixedBytes]

theorem mem_all (s : Sized) : s ∈ all := by cases s <;> decide

def word : Sized → List Char
  | .uint => ['u', 'i', 'n', 't']
  | .int => ['i', 'n', 't']
  | .fixedBytes => ['f', 'i', 'x', 'e', 'd', 'b', 'y', 't', 'e', 's']

end Sized

namespace Scalar

def since : Scalar → Int
  | .plain p => p.since
  | .sized _ _ => 1

/-- The width of an integer type; every other type has 0, which stands for "no fixed integer width". -/
def bitLen : Scalar → Nat
  | .sized .uint n | .sized .int n => n
  | .sized .fixedBytes _ | .plain _ => 0

/-- The width of the type as a map key: integers and standard addresses only. -/
def keyBits? : Scalar → Option Nat
  | .sized .uint n | .sized .int n => some n
  | .plain .address => some addressKeyBits
  | _ => none

end Scalar

end AbiTypes
