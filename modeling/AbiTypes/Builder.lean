import AbiTypes.Store
import AbiTypes.Traced
import AbiTypes.Ty.Print
/-!
# Builder — computations over a store

A computation over a store logs, may fail, and leaves a store, also when it fails: what was built before the failure is
still there, although nothing may refer to it.  On the way it keeps a record of which tuples were given which
components.
-/
namespace AbiTypes

/-- A tuple was given components, by its constructor or by an attachment. -/
structure Gift where
  tuple : Ref
  components : Components
  deriving DecidableEq, Repr

/-- What a computation over a store came to. -/
structure Ran (α : Type) where
  log : List Event
  gifts : List Gift
  outcome : Except Fault α
  store : Store

def Builder (α : Type) := Store → Ran α

namespace Builder

def value {α : Type} (a : α) : Builder α := fun s => ⟨[], [], .ok a, s⟩

/-- **One computation after the other**: the second runs only if the first succeeds, and on the store it left. -/
def andThen {α β : Type} (x : Builder α) (f : α → Builder β) : Builder β := fun s =>
  let first := x s
  match first.outcome with
  | .ok a =>
    let second := f a first.store
    ⟨first.log ++ second.log, first.gifts ++ second.gifts, second.outcome, second.store⟩
  | .error e => ⟨first.log, first.gifts, .error e, first.store⟩

instance : Monad Builder where
  pure := value
  bind := andThen

section Bind

variable {α β : Type} {x : Builder α} {f : α → Builder β} {s s' : Store} {log : List Event} {gifts : List Gift}

theorem bind_of_ok {a : α} (h : x s = ⟨log, gifts, .ok a, s'⟩) :
    (x >>= f) s = ⟨log ++ (f a s').log, gifts ++ (f a s').gifts, (f a s').outcome, (f a s').store⟩ := by
  change andThen x f s = _
  rw [andThen, h]

theorem bind_of_error {e : Fault} (h : x s = ⟨log, gifts, .error e, s'⟩) :
    (x >>= f) s = ⟨log, gifts, .error e, s'⟩ := by
  change andThen x f s = _
  rw [andThen, h]

/-- **A sequence that succeeds is both of its parts, one after the other.** -/
theorem of_bind_ok {b : β} (h : ((x >>= f) s).outcome = .ok b) :
    ∃ a, (x s).outcome = .ok a ∧ (f a (x s).store).outcome = .ok b ∧ ((x >>= f) s).store = (f a (x s).store).store := by
  rcases hran : x s with ⟨log, gifts, outcome, s'⟩
  cases outcome with
  | error e =>
    rw [bind_of_error hran] at h
    cases h
  | ok a =>
    rw [bind_of_ok hran] at h ⊢
    exact ⟨a, rfl, h, rfl⟩

end Bind

/-- A computation that leaves the store alone. -/
def lift {α : Type} (x : Traced α) : Builder α := fun s => ⟨x.log, [], x.outcome, s⟩

def fail {α : Type} (f : Fault) : Builder α := lift (.fail f)

/-- What is found in the store. -/
def found {α : Type} (f : Fault) (find : Store → Option α) : Builder α := fun s =>
  ⟨[], [], match find s with | some a => .ok a | none => .error f, s⟩

theorem outcome_found {α : Type} {f : Fault} {find : Store → Option α} {s : Store} {a : α} :
    (found f find s).outcome = .ok a ↔ find s = some a := by
  unfold found
  cases find s <;> simp

/-- A new descriptor. -/
def node (n : Node) : Builder Ref := fun s => ⟨[], [], .ok s.nodes.size, s.addNode n⟩

/-- A new list. -/
def list (cs : Components) : Builder ListRef := fun s => ⟨[], [], .ok s.lists.size, s.addList cs⟩

/-- A list as it is now. -/
def items (l : ListRef) : Builder Components := found .noSuchPart (·.items? l)

/-- Another content for a list. -/
def refill (l : ListRef) (cs : Components) : Builder Unit := fun s => ⟨[], [], .ok (), s.setList l cs⟩

/-- A new tuple of the given components. -/
def newTuple (cs : Components) : Builder Ref := fun s => ⟨[], [⟨s.nodes.size, cs⟩], .ok s.nodes.size, s.addTuple cs⟩

/-- The given components for a tuple that is there. -/
def give (r : Ref) (cs : Components) : Builder Unit := fun s => ⟨[], [⟨r, cs⟩], .ok (), s.giveTuple r cs⟩

/-- **The constructor of tuples** copies the list it is given. -/
def tuple (l : ListRef) : Builder Ref := do newTuple (← items l)

/-- A tuple tells how many components it was given, and its signature with them, if that can be written. -/
def tellAttached (r : Ref) (count : Nat) : Builder Unit := fun s =>
  ⟨(s.view? r).toList.flatMap (Event.attachedTo count), [], .ok (), s⟩

/-- A descriptor that passes nothing on receives components: a tuple takes a copy of them and refuses to have none, a
scalar refuses to have any, by its signature. -/
def receive (r : Ref) (cs : Components) : Node → Builder Unit
  | .tuple _ =>
    if cs = [] then fail .emptyTuple
    else do
      give r cs
      tellAttached r cs.length
  | .scalar c =>
    if cs = [] then return ()
    else do
      let signature ← lift (.ofExcept (Ty.scalar c).print)
      fail (.unusedComponents signature cs.length)
  | .array _ | .fixedArray _ _ | .map _ _ => fail .cyclic

/-- **Attaches the components in a list to a descriptor**, at its slot. -/
def attach (t : Ref) (l : ListRef) : Builder Unit := do
  let cs ← items l
  let r ← found .cyclic (·.slot? t)
  receive r cs (← found .cyclic (·.node? r))

/-- A part of a descriptor is replaced: the components of a tuple can be, by none as well, and every other part is
frozen. -/
def replace (part : String) (r : Ref) (cs : Components) (n : Node) : Builder Unit :=
  if part ∉ n.parts then fail .noSuchPart
  else
    match n with
    | .tuple _ => give r cs
    | _ => fail (.frozen part)

/-- **Assigns the components in a list to a part of a descriptor.** -/
def assign (part : String) (t : Ref) (l : ListRef) : Builder Unit := do
  let cs ← items l
  replace part t cs (← found .cyclic (·.node? t))

mutual

/-- A tree as new descriptors, all of its parts new as well. -/
def install : Ty → Builder Ref
  | .scalar c => node (.scalar c)
  | .tuple fs => do tuple (← list (← installFields fs))
  | .array e => do node (.array (← install e))
  | .fixedArray e n => do node (.fixedArray (← install e) n)
  | .map k v => do
    let key ← install k
    node (.map key (← install v))

def installFields : List (Field Ty) → Builder Components
  | [] => return []
  | ⟨n, k⟩ :: fs => do
    let t ← install k
    return ⟨n, t⟩ :: (← installFields fs)

end

/-- What a computation comes to on its own, over an empty store. -/
def alone {α : Type} (x : Builder α) : Traced α := ⟨(x .empty).log, (x .empty).outcome⟩

end Builder

end AbiTypes
