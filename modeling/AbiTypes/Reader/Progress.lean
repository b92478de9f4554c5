import AbiTypes.Phrase
/-!
# Progress — a type read in part

Reading goes token by token.  The progress so far is what stands open, innermost first, and what is at hand; a token that
cannot come next is refused.  Whatever the progress, more tokens can complete it, so a text is refused at the first token
that no signature continues with.
-/
namespace AbiTypes.Reader

/-- What stands open around the type at hand: a tuple with the items read before, the latest first, or half a map. -/
inductive Frame
  | tuple (items : List Phrase)
  | mapKey
  | mapValue (key : Phrase)
  deriving Repr

/-- What is at hand. -/
inductive Focus
  /-- a type must start -/
  | wanted
  | mapWord
  /-- a type was read; a suffix may follow -/
  | complete (type : Phrase)
  | bracket (elem : Phrase)
  | size (elem : Phrase) (digits : List Char)
  deriving Repr

/-- How far a type has been read. -/
structure Progress where
  focus : Focus
  frames : List Frame
  deriving Repr

namespace Progress

def start : Progress := ⟨.wanted, []⟩

/-- **One more token**, if it can come next. -/
def step? : Progress → Token → Option Progress
  | ⟨.wanted, fs⟩, .plain p => some ⟨.complete (.plain p), fs⟩
  | ⟨.wanted, fs⟩, .sized s ds => some ⟨.complete (.sized s ds), fs⟩
  | ⟨.wanted, fs⟩, .map => some ⟨.mapWord, fs⟩
  | ⟨.wanted, fs⟩, .lparen => some ⟨.wanted, .tuple [] :: fs⟩
  | ⟨.mapWord, fs⟩, .lparen => some ⟨.wanted, .mapKey :: fs⟩
  | ⟨.complete t, fs⟩, .lbracket => some ⟨.bracket t, fs⟩
  | ⟨.complete t, .tuple ts :: fs⟩, .comma => some ⟨.wanted, .tuple (t :: ts) :: fs⟩
  | ⟨.complete t, .mapKey :: fs⟩, .comma => some ⟨.wanted, .mapValue t :: fs⟩
  | ⟨.complete t, .tuple ts :: fs⟩, .rparen => some ⟨.complete (.tuple (t :: ts).reverse), fs⟩
  | ⟨.complete t, .mapValue k :: fs⟩, .rparen => some ⟨.complete (.map k t), fs⟩
  | ⟨.bracket t, fs⟩, .rbracket => some ⟨.complete (.array t), fs⟩
  | ⟨.bracket t, fs⟩, .number ds => some ⟨.size t ds, fs⟩
  | ⟨.size t ds, fs⟩, .rbracket => some ⟨.complete (.fixedArray t ds), fs⟩
  | _, _ => none

/-- The type that was read, if the text may end here. -/
def type? : Progress → Option Phrase
  | ⟨.complete t, []⟩ => some t
  | _ => none

/-- The progress after some lexemes, or the text from the first one that cannot come next. -/
def run : Progress → List Lexeme → Except (List Char) Progress
  | p, [] => .ok p
  | p, l :: ls =>
    match p.step? l.token with
    | none => .error l.start
    | some q => run q ls

end Progress

end AbiTypes.Reader

namespace AbiTypes

/-- **The written type that a text spells**, or the text from where it can no longer be one: empty if it only ends too
early. -/
def Phrase.read (cs : List Char) : Except (List Char) Phrase :=
  match Reader.Progress.start.run (lex cs).1 with
  | .error stop => .error stop
  | .ok p =>
    match (lex cs).2 with
    | [] =>
      match p.type? with
      | some t => .ok t
      | none => .error []
    | stop => .error stop

namespace Reader

/-- May the character start a name? -/
def isNameStart (c : Char) : Bool := c.isAlpha || c = '_'

/-- May the character stand in a name? -/
def isNameChar (c : Char) : Bool := c.isAlphanum || c = '_'

/-- The name and the written type that a parameter text spells, or the text from where it can no longer be one. -/
def readParam (cs : List Char) : Except (List Char) (List Char × Phrase) :=
  match skipBlanks cs with
  | [] => .error []
  | c :: rest =>
    if isNameStart c then
      match skipBlanks (rest.dropWhile isNameChar) with
      | ':' :: rest' => (Phrase.read rest').map fun p => (c :: rest.takeWhile isNameChar, p)
      | stop => .error stop
    else .error (c :: rest)

/-- **The column of a failure**: the characters of its line up to where reading stopped, counted from 1; -1 at the end of
the text. -/
def column (cs stop : List Char) : Int :=
  if stop.isEmpty then -1
  else 1 + ((cs.take (cs.length - stop.length)).reverse.takeWhile (· ≠ '\n')).length

end Reader

end AbiTypes
