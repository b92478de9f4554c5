import AbiTypes.Ty
/-!
# Walk — the parts of a descriptor

Children, the nodes in pre-order, their sizes, and the depth.
-/
namespace AbiTypes.Ty

/-- The direct parts of a descriptor, a map's key before its value. -/
def children : Ty → List Ty
  | .scalar _ => []
  | .tuple fs => fs.map Field.kind
  | .array e | .fixedArray e _ => [e]
  | .map k v => [k, v]

@[simp] theorem children_tuple (fs : List (Field Ty)) : (Ty.tuple fs).children = fs.map Field.kind := rfl

@[simp] theorem children_array (e : Ty) : (Ty.array e).children = [e] := rfl

@[simp] theorem children_fixedArray (e : Ty) (n : Nat) : (Ty.fixedArray e n).children = [e] := rfl

@[simp] theorem children_map (k v : Ty) : (Ty.map k v).children = [k, v] := rfl

/-- **Induction on the parts of a descriptor**, for what holds of all variants alike. -/
theorem induct_children {P : Ty → Prop} (children : ∀ t, (∀ c ∈ t.children, P c) → P t) (t : Ty) : P t := by
  induction t with
  | scalar s => exact children _ nofun
  | tuple fs ih => exact children _ (List.forall_mem_map.2 ih)
  | array e ih => exact children _ (List.forall_mem_singleton.2 ih)
  | fixedArray e n ih => exact children _ (List.forall_mem_singleton.2 ih)
  | map k v ihk ihv => exact children _ (List.forall_mem_cons.2 ⟨ihk, List.forall_mem_singleton.2 ihv⟩)

mutual

/-- **Every node of a descriptor in pre-order**, the descriptor itself first. -/
def nodes : Ty → List Ty
  | .scalar s => [.scalar s]
  | .tuple fs => .tuple fs :: fieldNodes fs
  | .array e => .array e :: nodes e
  | .fixedArray e n => .fixedArray e n :: nodes e
  | .map k v => .map k v :: nodes k ++ nodes v

def fieldNodes : List (Field Ty) → List Ty
  | [] => []
  | ⟨_, k⟩ :: fs => nodes k ++ fieldNodes fs

end

mutual

/-- The nesting depth: scalars and the empty tuple have depth 1. -/
def depth : Ty → Nat
  | .scalar _ => 1
  | .tuple fs => 1 + fieldDepth fs
  | .array e | .fixedArray e _ => 1 + depth e
  | .map k v => 1 + max (depth k) (depth v)

def fieldDepth : List (Field Ty) → Nat
  | [] => 0
  | ⟨_, k⟩ :: fs => max (depth k) (fieldDepth fs)

end

theorem fieldNodes_eq (fs : List (Field Ty)) : fieldNodes fs = fs.flatMap (fun f => f.kind.nodes) := by
  induction fs with
  | nil => simp [fieldNodes]
  | cons f fs ih => simp [fieldNodes, ih]

/-- **The nodes are the descriptor and the nodes of its children, in order.** -/
theorem nodes_eq (t : Ty) : t.nodes = t :: t.children.flatMap nodes := by
  cases t <;> simp [nodes, children, fieldNodes_eq, List.flatMap_map]

theorem mem_nodes_iff {u t : Ty} : u ∈ t.nodes ↔ u = t ∨ ∃ c ∈ t.children, u ∈ c.nodes := by
  rw [nodes_eq, List.mem_cons, List.mem_flatMap]

theorem mem_nodes_trans {t u w : Ty} (hu : u ∈ t.nodes) (hw : w ∈ u.nodes) : w ∈ t.nodes := by
  induction t using induct_children with
  | children t ih =>
    obtain rfl | ⟨c, hc, hu⟩ := mem_nodes_iff.1 hu
    · exact hw
    · exact mem_nodes_iff.2 (.inr ⟨c, hc, ih c hc hu⟩)

/-- The size of a node, if it has one. -/
def size? : Ty → Option Nat
  | .scalar (.sized _ n) | .fixedArray _ n => some n
  | _ => none

/-- The sizes of all nodes of a descriptor. -/
def sizes (t : Ty) : List Nat := t.nodes.filterMap size?

theorem mem_sizes_iff {n : Nat} {t : Ty} : n ∈ t.sizes ↔ ∃ u ∈ t.nodes, n ∈ u.size? := List.mem_filterMap

/-- **The sizes are that of the node itself and those of its children.** -/
theorem sizes_eq (t : Ty) : t.sizes = t.size?.toList ++ t.children.flatMap sizes := by
  unfold sizes
  rw [nodes_eq, List.filterMap_cons, List.filterMap_flatMap]
  cases t.size? <;> rfl

end AbiTypes.Ty
