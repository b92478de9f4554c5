import AbiTypes.Ty.Print
/-!
# Traced — computations that fail and keep a log

The events of a computation stay in its log, also when it fails afterwards.
-/
namespace AbiTypes

/-- Something worth telling a reader of the debug log. -/
inductive Event
  /-- a tuple received its components; the signature is the tuple's own -/
  | attached (count : Nat) (signature : String)
  | parsed (form : Form) (text : String)
  | unsupportedIn (version : Int) (signatures : List String)
  deriving DecidableEq, Repr, Inhabited

def Event.message : Event → String
  | .attached count signature => "Attached " ++ toString count ++ " components: " ++ signature
  | .parsed form text => "Parsed " ++ form.word ++ " " ++ Text.quoted text
  | .unsupportedIn version signatures =>
    "Unsupported in ABI v" ++ String.ofList (Text.decimalInt version) ++ ": " ++ Text.quotedList signatures

/-- What is told of an attachment to a tuple; nothing if its signature cannot be written. -/
def Event.attachedTo (count : Nat) (t : Ty) : List Event := t.print.toOption.toList.map (.attached count ·)

/-- The outcome of a computation, and what it logged. -/
structure Traced (α : Type) where
  log : List Event
  outcome : Except Fault α

namespace Traced

def value {α : Type} (a : α) : Traced α := ⟨[], .ok a⟩

def fail {α : Type} (f : Fault) : Traced α := ⟨[], .error f⟩

/-- An outcome, with nothing to tell. -/
def ofExcept {α : Type} (e : Except Fault α) : Traced α := ⟨[], e⟩

def tell (e : Event) : Traced Unit := ⟨[e], .ok ()⟩

def tellAll (es : List Event) : Traced Unit := ⟨es, .ok ()⟩

/-- **One computation after the other**: the second runs only if the first succeeds, and logs after it. -/
def andThen {α β : Type} (x : Traced α) (f : α → Traced β) : Traced β :=
  match x.outcome with
  | .ok a => ⟨x.log ++ (f a).log, (f a).outcome⟩
  | .error e => ⟨x.log, .error e⟩

instance : Monad Traced where
  pure := value
  bind := andThen

@[simp] theorem pure_eq {α : Type} (a : α) : (pure a : Traced α) = ⟨[], .ok a⟩ := rfl

@[simp] theorem bind_ok {α β : Type} (l : List Event) (a : α) (f : α → Traced β) :
    (⟨l, .ok a⟩ : Traced α) >>= f = ⟨l ++ (f a).log, (f a).outcome⟩ := rfl

@[simp] theorem bind_error {α β : Type} (l : List Event) (e : Fault) (f : α → Traced β) :
    (⟨l, .error e⟩ : Traced α) >>= f = ⟨l, .error e⟩ := rfl

/-- **A sequence succeeds exactly if both of its parts do.** -/
theorem outcome_bind_eq_ok_iff {α β : Type} {x : Traced α} {f : α → Traced β} {b : β} :
    (x >>= f).outcome = .ok b ↔ ∃ a, x.outcome = .ok a ∧ (f a).outcome = .ok b := by
  obtain ⟨l, o⟩ := x
  cases o with
  | error e => simp
  | ok a => simp

/-- **A sequence fails if its first part does**, or if that succeeds and the second part fails. -/
theorem outcome_bind_eq_error_iff {α β : Type} {x : Traced α} {f : α → Traced β} {e : Fault} :
    (x >>= f).outcome = .error e ↔ x.outcome = .error e ∨ ∃ a, x.outcome = .ok a ∧ (f a).outcome = .error e := by
  obtain ⟨l, o⟩ := x
  cases o with
  | error e => simp
  | ok a => simp

/-- Telling of a success changes no outcome. -/
theorem outcome_bind_tell {α β : Type} (x : Traced α) (e : Event) (g : α → β) :
    (x >>= fun a => do tell e; return g a).outcome = x.outcome.map g := by
  obtain ⟨l, o⟩ := x
  cases o <;> rfl

/-- **Traced computations compose like functions**, so a sequence may be cut at any place. -/
instance : LawfulMonad Traced := LawfulMonad.mk' Traced
  (fun ⟨l, o⟩ => by cases o <;> simp [Functor.map, andThen, value])
  (fun a f => by simp)
  (fun ⟨l, o⟩ f g => by
    cases o with
    | error e => rfl
    | ok a =>
      simp only [bind_ok]
      cases h : (f a).outcome with
      | error e => simp [Bind.bind, andThen, h]
      | ok b => simp [Bind.bind, andThen, h, List.append_assoc])

end Traced

end AbiTypes
