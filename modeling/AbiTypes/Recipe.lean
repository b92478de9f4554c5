import AbiTypes.Builder
import AbiTypes.Reader
/-!
# Recipe — requests to build descriptors

A recipe names variants and sizes, holds texts to be read, and may use what registers hold.  Parts are built before the
size above them is checked, a map's key before its value, components in order; the first fault ends the building.
-/
namespace AbiTypes

/-- What a register refers to: a descriptor, or a list of components that is still open. -/
inductive Value
  | type (t : Ref)
  | list (l : ListRef)
  deriving DecidableEq, Repr

abbrev Registers := List (String × Value)

namespace Registers

def type (rs : Registers) (name : String) : Except Fault Ref :=
  match rs.lookup name with
  | some (.type t) => .ok t
  | _ => .error (.noSuchRegister name)

def list (rs : Registers) (name : String) : Except Fault ListRef :=
  match rs.lookup name with
  | some (.list l) => .ok l
  | _ => .error (.noSuchRegister name)

def put (rs : Registers) (name : String) (v : Value) : Registers := (name, v) :: rs.filter (·.1 ≠ name)

end Registers

inductive SizeArg
  | integer (n : Int)
  /-- anything else, as it is written -/
  | other (literal : String)
  deriving DecidableEq, Repr

namespace SizeArg

/-- A size by its literal: an integer if it is digits after at most one minus sign. -/
def ofLiteral (literal : String) : SizeArg :=
  match literal.toList with
  | '-' :: c :: cs =>
    if (c :: cs).all Char.isDigit then .integer (-(Text.ofDecimal (c :: cs) : Int)) else .other literal
  | c :: cs => if (c :: cs).all Char.isDigit then .integer (Text.ofDecimal (c :: cs)) else .other literal
  | [] => .other literal

/-- **The size, if it is a natural number.** -/
def check (owner : Sizable) : SizeArg → Except Fault Nat
  | .integer (.ofNat n) => .ok n
  | .integer (.negSucc n) => (Text.written [n + 1] (.negSucc n)).bind fun given => .error (.sizeNegative owner given)
  | .other literal => .error (.sizeNotInteger owner literal)

/-- **A size is built exactly as it is given.** -/
theorem check_eq_ok_iff (owner : Sizable) (size : SizeArg) (n : Nat) :
    size.check owner = .ok n ↔ size = .integer n := by
  cases size with
  | other literal => simp [check]
  | integer m =>
    cases m with
    | ofNat m =>
      rw [check, Except.ok.injEq, integer.injEq]
      exact Int.ofNat_inj.symm
    | negSucc m =>
      rw [check]
      cases Text.written [m + 1] (Int.negSucc m) <;> simp [Except.bind]

end SizeArg

mutual

/-- How to build a descriptor. -/
inductive Recipe
  | plain (word : Plain)
  | sized (family : Sized) (size : SizeArg)
  | tuple (fields : ListRecipe)
  | array (elem : Recipe)
  | fixedArray (elem : Recipe) (size : SizeArg)
  | map (key value : Recipe)
  | text (signature : String)
  /-- the descriptor in a register itself -/
  | register (name : String)

inductive FieldRecipe
  | named (name : String) (kind : Recipe)
  /-- read from `name:signature` -/
  | text (param : String)

inductive ListRecipe
  | items (fields : List FieldRecipe)
  /-- the list in a register itself -/
  | register (name : String)

end

section Build

variable [Reader.Stack]

mutual

/-- **Builds a descriptor.** -/
def Recipe.build (rs : Registers) : Recipe → Builder Ref
  | .plain p => .node (.scalar (.plain p))
  | .sized s n => do
    let size ← .lift (.ofExcept (n.check (.family s)))
    .node (.scalar (.sized s size))
  | .tuple fs => do .tuple (← fs.build rs)
  | .array e => do .node (.array (← e.build rs))
  | .fixedArray e n => do
    let t ← e.build rs
    let size ← .lift (.ofExcept (n.check .fixedArray))
    .node (.fixedArray t size)
  | .map k v => do
    let key ← k.build rs
    .node (.map key (← v.build rs))
  | .text signature => do .install (← .lift (Ty.read signature))
  | .register name => .lift (.ofExcept (rs.type name))

def FieldRecipe.build (rs : Registers) : FieldRecipe → Builder (Field Ref)
  | .named name kind => do return ⟨name, ← kind.build rs⟩
  | .text param => do
    let f ← .lift (Field.read param)
    return ⟨f.name, ← .install f.kind⟩

def ListRecipe.build (rs : Registers) : ListRecipe → Builder ListRef
  | .items fields => do .list (← ListRecipe.buildItems rs fields)
  | .register name => .lift (.ofExcept (rs.list name))

def ListRecipe.buildItems (rs : Registers) : List FieldRecipe → Builder Components
  | [] => return []
  | f :: fs => do
    let c ← f.build rs
    return c :: (← ListRecipe.buildItems rs fs)

end

end Build

end AbiTypes
