import AbiTypes.Text.Quoted
import AbiTypes.Ty
/-!
# Literal — descriptors in constructor notation

A node is its variant's name and, in parentheses, its parts with their labels: `Array(param_type=Uint(size=8))`.
Component names are quoted.
-/
namespace AbiTypes

def Plain.variant : Plain → String
  | .unknown => "Unknown"
  | .bool => "Bool"
  | .cell => "Cell"
  | .address => "Address"
  | .bytes => "Bytes"
  | .gram => "Gram"
  | .time => "Time"
  | .expire => "Expire"
  | .pubkey => "PublicKey"

def Sized.variant : Sized → String
  | .uint => "Uint"
  | .int => "Int"
  | .fixedBytes => "FixedBytes"

def Scalar.variant : Scalar → String
  | .plain p => p.variant
  | .sized s _ => s.variant

namespace Ty

/-- The variant of a descriptor's outermost node. -/
def variant : Ty → String
  | .scalar s => s.variant
  | .tuple _ => "Tuple"
  | .array _ => "Array"
  | .fixedArray _ _ => "FixedArray"
  | .map _ _ => "Map"

def scalarChars : Scalar → List Char
  | .plain p => p.variant.toList ++ ['(', ')']
  | .sized s n => s.variant.toList ++ "(size=".toList ++ Text.decimal n ++ [')']

mutual

/-- A descriptor in constructor notation. -/
def literalChars : Ty → List Char
  | .scalar s => scalarChars s
  | .tuple fs => "Tuple(params=[".toList ++ fieldLiteralChars fs ++ [']', ')']
  | .array e => "Array(param_type=".toList ++ literalChars e ++ [')']
  | .fixedArray e n =>
    "FixedArray(param_type=".toList ++ literalChars e ++ ", size=".toList ++ Text.decimal n ++ [')']
  | .map k v => "Map(key_type=".toList ++ literalChars k ++ ", value_type=".toList ++ literalChars v ++ [')']

def fieldLiteralChars : List (Field Ty) → List Char
  | [] => []
  | [⟨n, k⟩] => "Param(name=".toList ++ Text.quotedChars n.toList ++ ", kind=".toList ++ literalChars k ++ [')']
  | ⟨n, k⟩ :: f :: fs =>
    "Param(name=".toList ++ Text.quotedChars n.toList ++ ", kind=".toList ++ literalChars k ++ ")".toList
      ++ ", ".toList ++ fieldLiteralChars (f :: fs)

end

/-- **A descriptor in constructor notation.** -/
def literal (t : Ty) : String := String.ofList t.literalChars

end Ty

def Field.literal (f : Field Ty) : String := String.ofList (Ty.fieldLiteralChars [f])

end AbiTypes
