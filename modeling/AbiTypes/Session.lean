import AbiTypes.Markdown
import AbiTypes.Recipe
import AbiTypes.Report
import AbiTypes.Ty.Literal
/-!
# Session — registers over a store

A session holds named references into one store and takes steps.  A step that fails leaves the registers as they are;
the store keeps what the step built before it failed, but nothing refers to that.
-/
namespace AbiTypes

inductive Query
  | signature | text | literal | type | bitLen | keyBits | since | depth | children | nodes | report | hash
  | isSupported (version : Int)
  | unsupported (version : Int)
  deriving DecidableEq, Repr

inductive Answer
  | done
  | flag (b : Bool)
  | number (n : Int)
  | text (s : String)
  | texts (ss : List String)
  | type (t : Ty)
  | report (r : Report)
  deriving DecidableEq, Repr

namespace Ty

/-- The descriptor as the member of a set; only scalars can be one, for only they never change. -/
def member (t : Ty) : Except Fault Scalar :=
  match t with
  | .scalar s => .ok s
  | _ => .error (.unhashable t.variant)

/-- **The answer to a question about a descriptor.** -/
def answer (t : Ty) : Query → Except Fault Answer
  | .signature | .text => t.print.map .text
  | .literal => (Text.written t.sizes t.literal).map .text
  | .type => .ok (.type t)
  | .bitLen => .ok (.number t.bitLen)
  | .keyBits =>
    match t.keyBits? with
    | some n => .ok (.number n)
    | none => .error .notMapKey
  | .since => .ok (.number t.since)
  | .depth => .ok (.number t.depth)
  | .children => (printAll t.children).map .texts
  | .nodes => (printAll t.nodes).map .texts
  | .report => t.describe.map .report
  | .hash => t.member.map fun _ => .text "hashable"
  | .isSupported v => .ok (.flag (t.isSupported v))
  | .unsupported v => (printAll (t.unsupported v)).map .texts

end Ty

/-- What a session can be asked to do. -/
inductive Step
  | new (reg : String) (type : Recipe)
  /-- put a part of a descriptor into a register -/
  | get (reg source : String) (path : List Store.Turn)
  | list (reg : String) (fields : ListRecipe)
  | append (reg : String) (field : FieldRecipe)
  | clear (reg : String)
  | attach (reg : String) (fields : ListRecipe)
  /-- assign components to a part of a descriptor -/
  | assign (reg part : String) (fields : List FieldRecipe := [])
  | equal (a b : String)
  | distinct (regs : List String)
  | render (fields : ListRecipe) (version : Int) (title : String)
  | ask (reg : String) (query : Query)

/-- What a value looks like now. -/
inductive ValueView
  | type (t : Ty)
  | fields (fs : List (Field Ty))
  deriving DecidableEq

namespace ValueView

/-- A descriptor's signature, or a list's components as texts. -/
def summary : ValueView → Answer
  | .type t => .text t.signature
  | .fields fs => .texts (fs.map Field.text)

/-- The value as the member of a set; a list is none. -/
def member : ValueView → Except Fault Scalar
  | .type t => t.member
  | .fields _ => .error (.unhashable "list")

/-- The answer to a question about a value; of a list only the set member is asked. -/
def answer : ValueView → Query → Except Fault Answer
  | .type t, q => t.answer q
  | v, .hash => v.member.map fun _ => .text "hashable"
  | _, _ => .error .noSuchPart

end ValueView

/-- What a value looks like now. -/
def Store.viewValue? (s : Store) : Value → Option ValueView
  | .type t => (s.view? t).map .type
  | .list l => do return .fields (← s.viewFields? (← s.items? l))

/-- Registers over a store. -/
structure Session where
  store : Store
  registers : Registers

/-- A value in a register as it looks now. -/
def Registers.look (rs : Registers) (name : String) : Builder ValueView := do
  let v ← .found (.noSuchRegister name) fun _ => rs.lookup name
  .found .cyclic (·.viewValue? v)

/-- The members of a set of registers, from left to right; the first that can be none is a fault. -/
def Registers.members (rs : Registers) : List String → Builder (List Scalar)
  | [] => return []
  | name :: names => do
    let v ← rs.look name
    let m ← .lift (.ofExcept v.member)
    return m :: (← rs.members names)

/-- Attaches the components in a list to a new tuple. -/
def Builder.combine (l : ListRef) : Builder Unit := do attach (← tuple (← list [])) l

/-- **The documentation of the components in a list**, which are attached to a tuple of their own on the way. -/
def Builder.render (title : String) (version : Int) (l : ListRef) : Builder String := do
  let cs ← items l
  if cs = [] then fail .noParams
  else
    combine l
    let fs ← found .cyclic (·.viewFields? cs)
    lift (.ofExcept (Markdown.print title version fs))

section Run

variable [Reader.Stack]

/-- Supplies the descriptor in a register with the components in a list, in one way or another. -/
def Registers.supply (rs : Registers) (reg : String) (fields : ListRecipe) (way : Ref → ListRef → Builder Unit) :
    Builder (Answer × Registers) := do
  let t ← .lift (.ofExcept (rs.type reg))
  let l ← fields.build rs
  way t l
  return (.done, rs)

/-- **What a step does**: its answer, and the registers after it. -/
def Step.act (rs : Registers) : Step → Builder (Answer × Registers)
  | .new reg type => do
    let t ← type.build rs
    return (.done, rs.put reg (.type t))
  | .get reg source path => do
    let t ← .lift (.ofExcept (rs.type source))
    let u ← .found .noSuchPart (·.follow? t path)
    return (.done, rs.put reg (.type u))
  | .list reg fields => do
    let cs ← .items (← fields.build rs)
    let l ← .list cs
    return (.done, rs.put reg (.list l))
  | .append reg field => do
    let l ← .lift (.ofExcept (rs.list reg))
    let c ← field.build rs
    let cs ← .items l
    .refill l (cs ++ [c])
    return (.done, rs)
  | .clear reg => do
    let l ← .lift (.ofExcept (rs.list reg))
    .refill l []
    return (.done, rs)
  | .attach reg fields => rs.supply reg fields .attach
  | .assign reg part fields => rs.supply reg (.items fields) (.assign part)
  | .equal a b => do
    let x ← rs.look a
    let y ← rs.look b
    return (.flag (x = y), rs)
  | .distinct regs => do
    let ms ← rs.members regs
    return (.number ms.eraseDups.length, rs)
  | .render fields version title => do
    let l ← fields.build rs
    let text ← .render title version l
    return (.text text, rs)
  | .ask reg query => do
    let v ← rs.look reg
    let a ← .lift (.ofExcept (v.answer query))
    return (a, rs)

namespace Session

def empty : Session := ⟨.empty, []⟩

/-- What every register looks like now. -/
def state (s : Session) : List (String × Answer) :=
  s.registers.filterMap fun (name, v) => (s.store.viewValue? v).map fun w => (name, w.summary)

/-- One step from a session. -/
def step (s : Session) (st : Step) : Ran (Answer × Registers) := st.act s.registers s.store

/-- The outcome of a step, and what every register looks like after it. -/
structure Reply where
  outcome : Except Fault Answer
  state : List (String × Answer)

/-- **The session after a step**: the store as the step leaves it; the registers change only if it succeeds. -/
def after (s : Session) (st : Step) : Session where
  store := (s.step st).store
  registers :=
    match (s.step st).outcome with
    | .ok (_, rs) => rs
    | .error _ => s.registers

def reply (s : Session) (st : Step) : Reply :=
  ⟨(s.step st).outcome.map Prod.fst, (s.after st).state⟩

/-- **The replies to a list of steps**, and everything that was logged. -/
def run (s : Session) : List Step → List Event × List Reply
  | [] => ([], [])
  | st :: rest =>
    let (log, replies) := (s.after st).run rest
    ((s.step st).log ++ log, s.reply st :: replies)

end Session

/-- The descriptor that a recipe without registers builds. -/
def Recipe.type (r : Recipe) : Traced Ty :=
  Builder.alone do
    let t ← r.build []
    .found .cyclic (·.view? t)

def ListRecipe.fields (r : ListRecipe) : Traced (List (Field Ty)) :=
  Builder.alone do
    let cs ← .items (← r.build [])
    .found .cyclic (·.viewFields? cs)

end Run

end AbiTypes
