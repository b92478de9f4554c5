import AbiTypes.Ty.Print
/-!
# Support — widths, key widths and versions

Only integers have a width, only integers and standard addresses can be map keys, and only the message headers came after
the first version.
-/
namespace AbiTypes.Ty

/-- The width of an integer type, and 0 for every other type. -/
def bitLen : Ty → Nat
  | .scalar s => s.bitLen
  | _ => 0

/-- The width of the descriptor as a map key, if it can be one. -/
def keyBits? : Ty → Option Nat
  | .scalar s => s.keyBits?
  | _ => none

/-- The lowest version that supports the node itself, whatever its parts need. -/
def since : Ty → Int
  | .scalar s => s.since
  | _ => 1

def isSupported (t : Ty) (version : Int) : Bool := t.since ≤ version

theorem since_eq (t : Ty) : t.since = 1 ∨ t.since = 2 := by
  cases t with
  | scalar s =>
    cases s with
    | plain p => cases p <;> simp [since, Scalar.since, Plain.since]
    | sized s n => exact Or.inl rfl
  | _ => exact Or.inl rfl

/-- **The first known version that supports a node is the one that introduced it.** -/
theorem find?_isSupported (t : Ty) : knownVersions.find? t.isSupported = some t.since := by
  rcases t.since_eq with h | h <;> simp [knownVersions, isSupported, h]

/-- **The nodes a version does not support**, in pre-order, repeats kept. -/
def unsupported (t : Ty) (version : Int) : List Ty :=
  t.nodes.filter fun u => !u.isSupported version

def unsupportedSignatures (t : Ty) (version : Int) : List String :=
  (t.unsupported version).map fun u => u.signature

end AbiTypes.Ty
