import AbiTypes.Scalar
/-!
# Ty — ABI type descriptors

A descriptor is a tree: scalars at the leaves; tuples of named components, arrays and maps above them.  `Ty` is the tree
as a value; `Store` holds the same trees with tuples that can be shared and changed.
-/
namespace AbiTypes

/-- A named element of a parameter list: the kind is a descriptor, in one of its forms. -/
structure Field (α : Type) where
  name : String
  kind : α
  deriving DecidableEq, Repr, Inhabited

inductive Ty
  | scalar (s : Scalar)
  | tuple (fields : List (Field Ty))
  | array (elem : Ty)
  | fixedArray (elem : Ty) (size : Nat)
  | map (key value : Ty)
  deriving Repr, Inhabited

namespace Ty

/-- **Induction on a descriptor**: in the tuple case the statement holds of every component's kind. -/
@[induction_eliminator]
theorem induct {P : Ty → Prop} (scalar : ∀ s, P (.scalar s))
    (tuple : ∀ fs, (∀ f ∈ fs, P f.kind) → P (.tuple fs)) (array : ∀ e, P e → P (.array e))
    (fixedArray : ∀ e n, P e → P (.fixedArray e n)) (map : ∀ k v, P k → P v → P (.map k v)) (t : Ty) : P t :=
  Ty.rec (motive_1 := P) (motive_2 := fun fs => ∀ f ∈ fs, P f.kind) (motive_3 := fun f => P f.kind)
    scalar tuple array fixedArray map (by simp)
    (fun f fs hf hfs g hg => (List.mem_cons.1 hg).elim (fun h => h ▸ hf) (hfs g)) (fun _ _ h => h) t

mutual

/-- Equality of descriptors is structural: the same shape, sizes and component names. -/
protected def decEq : (a b : Ty) → Decidable (a = b)
  | .scalar a, .scalar b => decidable_of_iff (a = b) (by simp)
  | .tuple as, .tuple bs =>
    match Ty.decEqFields as bs with
    | isTrue h => isTrue (by rw [h])
    | isFalse h => isFalse (by simpa using h)
  | .array a, .array b =>
    match Ty.decEq a b with
    | isTrue h => isTrue (by rw [h])
    | isFalse h => isFalse (by simpa using h)
  | .fixedArray a m, .fixedArray b n =>
    match Ty.decEq a b with
    | isTrue h => decidable_of_iff (m = n) (by simp [h])
    | isFalse h => isFalse (by simp [h])
  | .map j a, .map k b =>
    match Ty.decEq j k with
    | isTrue h =>
      match Ty.decEq a b with
      | isTrue g => isTrue (by rw [h, g])
      | isFalse g => isFalse (by simp [g])
    | isFalse h => isFalse (by simp [h])
  | .scalar _, .tuple _ | .scalar _, .array _ | .scalar _, .fixedArray _ _ | .scalar _, .map _ _
  | .tuple _, .scalar _ | .tuple _, .array _ | .tuple _, .fixedArray _ _ | .tuple _, .map _ _
  | .array _, .scalar _ | .array _, .tuple _ | .array _, .fixedArray _ _ | .array _, .map _ _
  | .fixedArray _ _, .scalar _ | .fixedArray _ _, .tuple _ | .fixedArray _ _, .array _ | .fixedArray _ _, .map _ _
  | .map _ _, .scalar _ | .map _ _, .tuple _ | .map _ _, .array _ | .map _ _, .fixedArray _ _ => isFalse nofun

protected def decEqFields : (as bs : List (Field Ty)) → Decidable (as = bs)
  | [], [] => isTrue rfl
  | [], _ :: _ | _ :: _, [] => isFalse nofun
  | ⟨m, a⟩ :: as, ⟨n, b⟩ :: bs =>
    match Ty.decEq a b with
    | isTrue h =>
      match Ty.decEqFields as bs with
      | isTrue g => decidable_of_iff (m = n) (by simp [h, g])
      | isFalse g => isFalse (by simp [g])
    | isFalse h => isFalse (by simp [h])

end

instance : DecidableEq Ty := Ty.decEq

end Ty

namespace Field

/-- The same name on another form of the kind. -/
def mapKind {α β : Type} (g : α → β) (f : Field α) : Field β := ⟨f.name, g f.kind⟩

@[simp] theorem name_mapKind {α β : Type} (g : α → β) (f : Field α) : (f.mapKind g).name = f.name := rfl

@[simp] theorem kind_mapKind {α β : Type} (g : α → β) (f : Field α) : (f.mapKind g).kind = g f.kind := rfl

end Field

end AbiTypes
