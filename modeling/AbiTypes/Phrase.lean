import AbiTypes.Text.Decimal
import AbiTypes.Token
import AbiTypes.Ty
/-!
# Phrase — types as they are written

A phrase is the grammar's tree: the same shapes as a descriptor, but its numbers are the digit runs of the text and the
items of a tuple have no names.  A tuple that is read has at least one item.
-/
namespace AbiTypes

/-- A written type. -/
inductive Phrase
  | plain (word : Plain)
  | sized (family : Sized) (digits : List Char)
  | tuple (items : List Phrase)
  | array (elem : Phrase)
  | fixedArray (elem : Phrase) (digits : List Char)
  | map (key value : Phrase)
  deriving Repr, Inhabited

namespace Phrase

/-- **Induction on a written type**: in the tuple case the statement holds of every item. -/
@[induction_eliminator]
theorem induct {P : Phrase → Prop} (plain : ∀ p, P (.plain p)) (sized : ∀ s ds, P (.sized s ds))
    (tuple : ∀ ps, (∀ p ∈ ps, P p) → P (.tuple ps)) (array : ∀ e, P e → P (.array e))
    (fixedArray : ∀ e ds, P e → P (.fixedArray e ds)) (map : ∀ k v, P k → P v → P (.map k v)) (p : Phrase) : P p :=
  Phrase.rec (motive_1 := P) (motive_2 := fun ps => ∀ p ∈ ps, P p)
    plain sized tuple array fixedArray map (by simp)
    (fun p ps hp hps q hq => (List.mem_cons.1 hq).elim (fun h => h ▸ hp) (hps q)) p

mutual

def tokens : Phrase → List Token
  | .plain p => [.plain p]
  | .sized s ds => [.sized s ds]
  | .tuple items => .lparen :: itemTokens items
  | .array e => tokens e ++ [.lbracket, .rbracket]
  | .fixedArray e ds => tokens e ++ [.lbracket, .number ds, .rbracket]
  | .map k v => .map :: .lparen :: tokens k ++ .comma :: tokens v ++ [.rparen]

/-- The tokens of a tuple's items, commas between them, and of its closing parenthesis. -/
def itemTokens : List Phrase → List Token
  | [] => [.rparen]
  | [p] => tokens p ++ [.rparen]
  | p :: q :: ps => tokens p ++ .comma :: itemTokens (q :: ps)

end

end Phrase

namespace Ty

mutual

/-- The canonical written form of a descriptor: numbers without leading zeros, component names dropped. -/
def phrase : Ty → Phrase
  | .scalar (.plain p) => .plain p
  | .scalar (.sized s n) => .sized s (Text.decimal n)
  | .tuple fs => .tuple (fieldPhrases fs)
  | .array e => .array (phrase e)
  | .fixedArray e n => .fixedArray (phrase e) (Text.decimal n)
  | .map k v => .map (phrase k) (phrase v)

def fieldPhrases : List (Field Ty) → List Phrase
  | [] => []
  | ⟨_, k⟩ :: fs => phrase k :: fieldPhrases fs

end

theorem fieldPhrases_eq_map : ∀ fs : List (Field Ty), fieldPhrases fs = fs.map fun f => f.kind.phrase
  | [] => rfl
  | f :: fs => by rw [fieldPhrases, fieldPhrases_eq_map fs, List.map_cons]

/-- The canonical text of a descriptor: the tokens of its written form with nothing between them. -/
def spelled (t : Ty) : List Char := t.phrase.tokens.flatMap Token.spell

/-- **The signature of a descriptor**: its canonical text, whether or not its numbers can be written (`Ty.print`). -/
def signature (t : Ty) : String := String.ofList t.spelled

end Ty

namespace Field

def signature (f : Field Ty) : String := f.kind.signature

/-- A component as `name: signature`. -/
def text (f : Field Ty) : String := f.name ++ ": " ++ f.signature

end Field

end AbiTypes
