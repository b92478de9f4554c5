import AbiTypes.Reader.Progress
import AbiTypes.Traced
/-!
# Reader — descriptors from their texts

A text is first read as a phrase, which settles whether it is in the grammar at all.  The phrase is then built bottom-up,
left to right: its digit runs become numbers, the items of a tuple are named by position, and each tuple is logged when
its components are attached.
-/
namespace AbiTypes

namespace Reader

/-- The levels of arrays, tuples and maps that can be read on any stack. -/
def sureNesting : Nat := 125

/-- The levels that can be read on none. -/
def vainNesting : Nat := 700

/-- **The stack of a run**, by the levels of arrays, tuples and maps that a text may have to be read on it.  Only reading
is measured: what walks down a descriptor that is there is taken to have room. -/
class Stack where
  levels : Nat
  sure : sureNesting ≤ levels
  lt_vain : levels < vainNesting

/-- The usual stack: of a thousand calls, reading takes two for each level. -/
instance (priority := low) usualStack : Stack where
  levels := 490
  sure := by decide
  lt_vain := by decide

def fieldName (i : Nat) : String := String.ofList ("value".toList ++ Text.decimal i)

/-- Descriptors as the components of a tuple, named by position from `i` on. -/
def named (i : Nat) : List Ty → List (Field Ty)
  | [] => []
  | t :: ts => ⟨fieldName i, t⟩ :: named (i + 1) ts

/-- The number that a run of digits stands for. -/
def number (owner : Sizable) (digits : List Char) : Traced Nat :=
  if Text.digitLimit < digits.length then .fail (.tooManyDigits owner.rule digits.length)
  else .value (Text.ofDecimal digits)

mutual

/-- The descriptor of a written type that may nest `room` levels more. -/
def build (form : Form) (room : Nat) : Phrase → Traced Ty
  | .plain p => .value (.scalar (.plain p))
  | .sized s ds => do return .scalar (.sized s (← number (.family s) ds))
  | .tuple items =>
    match room with
    | 0 => .fail (.tooDeep form)
    | room + 1 => do
      let t := Ty.tuple (named 0 (← buildItems form room items))
      Traced.tell (.attached items.length t.signature)
      return t
  | .array e =>
    match room with
    | 0 => .fail (.tooDeep form)
    | room + 1 => do return .array (← build form room e)
  | .fixedArray e ds =>
    match room with
    | 0 => .fail (.tooDeep form)
    | room + 1 => do
      let t ← build form room e
      return .fixedArray t (← number .fixedArray ds)
  | .map k v =>
    match room with
    | 0 => .fail (.tooDeep form)
    | room + 1 => do
      let key ← build form room k
      return .map key (← build form room v)

def buildItems (form : Form) (room : Nat) : List Phrase → Traced (List Ty)
  | [] => .value []
  | p :: ps => do
    let t ← build form room p
    return t :: (← buildItems form room ps)

end

end Reader

/-- **The descriptor that a signature text spells.** -/
def Ty.read [Reader.Stack] (text : String) : Traced Ty :=
  match Phrase.read text.toList with
  | .error stop => .fail (.malformed .signature text (Reader.column text.toList stop))
  | .ok p => do
    let t ← Reader.build .signature Reader.Stack.levels p
    Traced.tell (.parsed .signature text)
    return t

/-- **The parameter that a text `name:signature` spells.** -/
def Field.read [Reader.Stack] (text : String) : Traced (Field Ty) :=
  match Reader.readParam text.toList with
  | .error stop => .fail (.malformed .param text (Reader.column text.toList stop))
  | .ok (name, p) => do
    let t ← Reader.build .param Reader.Stack.levels p
    Traced.tell (.parsed .param text)
    return ⟨String.ofList name, t⟩

end AbiTypes
