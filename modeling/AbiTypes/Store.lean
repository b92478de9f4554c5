import AbiTypes.Fault
import AbiTypes.Phrase
/-!
# Store — descriptors as objects

A store holds descriptors and lists of components, each under a reference, its identity; a reference may stand in many
places.  A tuple refers to a list of its own, and to give it components is to give it another list; every other
descriptor stays what it was built as.  What a descriptor looks like at the moment is its view, a plain `Ty`.
-/
namespace AbiTypes

/-- The identity of a descriptor. -/
abbrev Ref := Nat

/-- The identity of a list of components. -/
abbrev ListRef := Nat

abbrev Components := List (Field Ref)

/-- A descriptor: its variant, its size, and what it refers to. -/
inductive Node
  | scalar (s : Scalar)
  | tuple (params : ListRef)
  | array (elem : Ref)
  | fixedArray (elem : Ref) (size : Nat)
  | map (key value : Ref)
  deriving DecidableEq, Repr, Inhabited

/-- The parts of a descriptor, by the names they are assigned to under. -/
def Node.parts : Node → List String
  | .scalar (.plain _) => []
  | .scalar (.sized _ _) => ["size"]
  | .tuple _ => ["params"]
  | .array _ => ["param_type"]
  | .fixedArray _ _ => ["param_type", "size"]
  | .map _ _ => ["key_type", "value_type"]

structure Store where
  nodes : Array Node
  lists : Array Components
  deriving Repr

namespace Store

def empty : Store := ⟨#[], #[]⟩

def node? (s : Store) (r : Ref) : Option Node := s.nodes[r]?

def items? (s : Store) (l : ListRef) : Option Components := s.lists[l]?

/-- The store with a new descriptor, under the first reference that is free. -/
def addNode (s : Store) (n : Node) : Store := ⟨s.nodes.push n, s.lists⟩

/-- The store with a new list. -/
def addList (s : Store) (cs : Components) : Store := ⟨s.nodes, s.lists.push cs⟩

def setNode (s : Store) (r : Ref) (n : Node) : Store := ⟨s.nodes.setIfInBounds r n, s.lists⟩

def setList (s : Store) (l : ListRef) (cs : Components) : Store := ⟨s.nodes, s.lists.setIfInBounds l cs⟩

/-- The store with a new tuple of the given components, in a list of its own. -/
def addTuple (s : Store) (cs : Components) : Store := (s.addList cs).addNode (.tuple s.lists.size)

/-- **The store in which a tuple has the given components**, in a new list of its own. -/
def giveTuple (s : Store) (r : Ref) (cs : Components) : Store := (s.addList cs).setNode r (.tuple s.lists.size)

/-- The components of a tuple now. -/
def components? (s : Store) (r : Ref) : Option Components :=
  match s.node? r with
  | some (.tuple l) => s.items? l
  | _ => none

@[simp] theorem items?_addNode (s : Store) (n : Node) (l : ListRef) : (s.addNode n).items? l = s.items? l := rfl

@[simp] theorem node?_addList (s : Store) (cs : Components) (r : Ref) : (s.addList cs).node? r = s.node? r := rfl

/-- A new descriptor is what it was built as, and every descriptor that was there stays what it is. -/
theorem node?_addNode (s : Store) (n : Node) (r : Ref) :
    (s.addNode n).node? r = if r = s.nodes.size then some n else s.node? r :=
  Array.getElem?_push

theorem items?_addList (s : Store) (cs : Components) (l : ListRef) :
    (s.addList cs).items? l = if l = s.lists.size then some cs else s.items? l :=
  Array.getElem?_push

/-- **A descriptor is changed alone.** -/
theorem node?_setNode (s : Store) (r q : Ref) (n : Node) :
    (s.setNode r n).node? q = if r = q ∧ r < s.nodes.size then some n else s.node? q := by
  rw [node?, setNode, Array.getElem?_setIfInBounds]
  by_cases h : r = q
  · subst h
    by_cases hr : r < s.nodes.size
    · simp [hr]
    · simp [hr, node?]
  · simp [h, node?]

/-- **A list is changed alone.** -/
theorem items?_setList (s : Store) (l m : ListRef) (cs : Components) :
    (s.setList l cs).items? m = if l = m ∧ l < s.lists.size then some cs else s.items? m := by
  rw [items?, setList, Array.getElem?_setIfInBounds]
  by_cases h : l = m
  · subst h
    by_cases hl : l < s.lists.size
    · simp [hl]
    · simp [hl, items?]
  · simp [h, items?]

theorem node?_addTuple (s : Store) (cs : Components) (r : Ref) :
    (s.addTuple cs).node? r = if r = s.nodes.size then some (.tuple s.lists.size) else s.node? r :=
  node?_addNode _ _ r

theorem items?_addTuple (s : Store) (cs : Components) (l : ListRef) :
    (s.addTuple cs).items? l = if l = s.lists.size then some cs else s.items? l :=
  items?_addList s cs l

theorem node?_giveTuple (s : Store) (r q : Ref) (cs : Components) :
    (s.giveTuple r cs).node? q = if r = q ∧ r < s.nodes.size then some (.tuple s.lists.size) else s.node? q :=
  node?_setNode _ r q _

theorem items?_giveTuple (s : Store) (r : Ref) (cs : Components) (l : ListRef) :
    (s.giveTuple r cs).items? l = if l = s.lists.size then some cs else s.items? l :=
  items?_addList s cs l

section Size

variable (s : Store) (r : Ref) (n : Node) (l : ListRef) (cs : Components)

@[simp] theorem size_nodes_addNode : (s.addNode n).nodes.size = s.nodes.size + 1 := Array.size_push n

@[simp] theorem size_lists_addNode : (s.addNode n).lists.size = s.lists.size := rfl

@[simp] theorem size_nodes_addList : (s.addList cs).nodes.size = s.nodes.size := rfl

@[simp] theorem size_lists_addList : (s.addList cs).lists.size = s.lists.size + 1 := Array.size_push cs

@[simp] theorem size_nodes_setNode : (s.setNode r n).nodes.size = s.nodes.size := Array.size_setIfInBounds

@[simp] theorem size_lists_setNode : (s.setNode r n).lists.size = s.lists.size := rfl

@[simp] theorem size_nodes_setList : (s.setList l cs).nodes.size = s.nodes.size := rfl

@[simp] theorem size_lists_setList : (s.setList l cs).lists.size = s.lists.size := Array.size_setIfInBounds

@[simp] theorem size_nodes_addTuple : (s.addTuple cs).nodes.size = s.nodes.size + 1 := Array.size_push _

@[simp] theorem size_lists_addTuple : (s.addTuple cs).lists.size = s.lists.size + 1 := Array.size_push cs

@[simp] theorem size_nodes_giveTuple : (s.giveTuple r cs).nodes.size = s.nodes.size := Array.size_setIfInBounds

@[simp] theorem size_lists_giveTuple : (s.giveTuple r cs).lists.size = s.lists.size + 1 := Array.size_push cs

end Size

theorem lt_of_node? {s : Store} {r : Ref} {n : Node} (h : s.node? r = some n) : r < s.nodes.size :=
  (Array.getElem?_eq_some_iff.1 h).1

theorem lt_of_items? {s : Store} {l : ListRef} {cs : Components} (h : s.items? l = some cs) : l < s.lists.size :=
  (Array.getElem?_eq_some_iff.1 h).1

theorem exists_node? {s : Store} {r : Ref} (h : r < s.nodes.size) : ∃ n, s.node? r = some n :=
  ⟨_, Array.getElem?_eq_getElem h⟩

theorem exists_items? {s : Store} {l : ListRef} (h : l < s.lists.size) : ∃ cs, s.items? l = some cs :=
  ⟨_, Array.getElem?_eq_getElem h⟩

/-! ## Looking at descriptors

What is found by going from descriptor to descriptor is found within as many steps as there are descriptors: a way that
does not come back to where it was meets each of them at most once. -/

/-- What a step finds, given what is found behind it, within so many steps. -/
def within {α : Type} (step : (Ref → Option α) → Ref → Option α) : (fuel : Nat) → Ref → Option α
  | 0, _ => none
  | fuel + 1, r => step (within step fuel) r

/-- Components with what is found of their kinds. -/
def fieldsWith {α : Type} (find : Ref → Option α) : Components → Option (List (Field α))
  | [] => some []
  | c :: cs => (find c.kind).bind fun k => (fieldsWith find cs).map (⟨c.name, k⟩ :: ·)

/-- The tree of a descriptor, given the trees of its parts. -/
def viewStep (s : Store) (view? : Ref → Option Ty) (r : Ref) : Option Ty :=
  match s.node? r with
  | none => none
  | some (.scalar c) => some (.scalar c)
  | some (.tuple l) => ((s.items? l).bind (fieldsWith view?)).map .tuple
  | some (.array e) => (view? e).map .array
  | some (.fixedArray e n) => (view? e).map (.fixedArray · n)
  | some (.map k v) => (view? k).bind fun key => (view? v).map (.map key)

/-- **The tree that a descriptor looks like now**; a descriptor that leads into a cycle has none. -/
def view? (s : Store) : Ref → Option Ty := within s.viewStep s.nodes.size

def viewFields? (s : Store) (cs : Components) : Option (List (Field Ty)) := fieldsWith s.view? cs

/-- One step to where components given to a descriptor go: arrays pass them on to their elements, maps to their values;
keys and the components of a tuple never receive any. -/
def slotStep (s : Store) (slot? : Ref → Option Ref) (r : Ref) : Option Ref :=
  match s.node? r with
  | none => none
  | some (.array e) | some (.fixedArray e _) => slot? e
  | some (.map _ v) => slot? v
  | some (.scalar _) | some (.tuple _) => some r

/-- **Where components given to a descriptor end**: at a tuple or at a scalar. -/
def slot? (s : Store) : Ref → Option Ref := within s.slotStep s.nodes.size

/-- A step down into a descriptor. -/
inductive Turn
  | elem
  | key
  | value
  | component (index : Nat)
  deriving DecidableEq, Repr

/-- The part of a descriptor that one turn leads to. -/
def part? (s : Store) (r : Ref) (turn : Turn) : Option Ref :=
  match s.node? r, turn with
  | some (.array e), .elem | some (.fixedArray e _), .elem => some e
  | some (.map k _), .key => some k
  | some (.map _ v), .value => some v
  | some (.tuple l), .component i => ((s.items? l).bind (·[i]?)).map Field.kind
  | _, _ => none

/-- **The part of a descriptor that a path leads to**: the part itself, not a copy. -/
def follow? (s : Store) (r : Ref) : List Turn → Option Ref
  | [] => some r
  | p :: ps => (s.part? r p).bind fun c => s.follow? c ps

end Store

end AbiTypes
