import AbiTypes.Scalar
/-!
# Token — the words and marks of a signature

A sized type is one token, its number included; a number on its own is an array's size.
-/
namespace AbiTypes

/-- A token; the digit runs are kept as they are written. -/
inductive Token
  | plain (word : Plain)
  | sized (family : Sized) (digits : List Char)
  | map
  | lparen
  | rparen
  | comma
  | lbracket
  | rbracket
  | number (digits : List Char)
  deriving DecidableEq, Repr, Inhabited

namespace Token

/-- The word before the parts of a map. -/
def mapWord : List Char := ['m', 'a', 'p']

def spell : Token → List Char
  | .plain p => p.word
  | .sized s ds => s.word ++ ds
  | .map => mapWord
  | .lparen => ['(']
  | .rparen => [')']
  | .comma => [',']
  | .lbracket => ['[']
  | .rbracket => [']']
  | .number ds => ds

/-- A word at the start of the text: the token, and the text after it. -/
def scanWord? (cs : List Char) : Option (Token × List Char) :=
  match Plain.all.findSome? fun p => (p.word.isPrefixOf? cs).map (p, ·) with
  | some (p, rest) => some (.plain p, rest)
  | none =>
    match Sized.all.findSome? fun s => (s.word.isPrefixOf? cs).map (s, ·) with
    | some (s, rest) =>
      if (rest.takeWhile Char.isDigit).isEmpty then none
      else some (.sized s (rest.takeWhile Char.isDigit), rest.dropWhile Char.isDigit)
    | none => (mapWord.isPrefixOf? cs).map (.map, ·)

/-- **The token at the start of a text**, the longest one there is, and the text after it. -/
def scan? : List Char → Option (Token × List Char)
  | [] => none
  | '(' :: cs => some (.lparen, cs)
  | ')' :: cs => some (.rparen, cs)
  | ',' :: cs => some (.comma, cs)
  | '[' :: cs => some (.lbracket, cs)
  | ']' :: cs => some (.rbracket, cs)
  | c :: cs =>
    if c.isDigit then some (.number ((c :: cs).takeWhile Char.isDigit), (c :: cs).dropWhile Char.isDigit)
    else scanWord? (c :: cs)

theorem eq_append_of_isPrefixOf? : ∀ {p cs rest : List Char}, p.isPrefixOf? cs = some rest → cs = p ++ rest
  | [], _, _, h => Option.some.inj h
  | _ :: _, [], _, h => by cases h
  | a :: p, c :: cs, rest, h => by
    have hac : (if a == c then p.isPrefixOf? cs else none) = some rest := h
    split at hac
    · rename_i hc
      rw [List.cons_append, ← eq_append_of_isPrefixOf? hac, beq_iff_eq.1 hc]
    · cases hac

theorem scanWord?_eq_append {cs rest : List Char} {t : Token} (h : scanWord? cs = some (t, rest)) :
    cs = t.spell ++ rest := by
  unfold scanWord? at h
  split at h
  · rename_i p r hp
    obtain ⟨q, -, hq⟩ := List.exists_of_findSome?_eq_some hp
    obtain ⟨r', hr, he⟩ := Option.map_eq_some_iff.1 hq
    simp only [Prod.mk.injEq, Option.some.injEq] at he h
    obtain ⟨rfl, rfl⟩ := he
    obtain ⟨rfl, rfl⟩ := h
    exact eq_append_of_isPrefixOf? hr
  · split at h
    · rename_i s r hs
      obtain ⟨q, -, hq⟩ := List.exists_of_findSome?_eq_some hs
      obtain ⟨r', hr, he⟩ := Option.map_eq_some_iff.1 hq
      simp only [Prod.mk.injEq] at he
      obtain ⟨rfl, rfl⟩ := he
      split at h
      · cases h
      · simp only [Option.some.injEq, Prod.mk.injEq] at h
        obtain ⟨rfl, rfl⟩ := h
        rw [eq_append_of_isPrefixOf? hr, spell, List.append_assoc, List.takeWhile_append_dropWhile]
    · obtain ⟨r', hr, he⟩ := Option.map_eq_some_iff.1 h
      simp only [Prod.mk.injEq] at he
      obtain ⟨rfl, rfl⟩ := he
      exact eq_append_of_isPrefixOf? hr

/-- **A token that was found is the text's beginning, as it is spelled there.** -/
theorem scan?_eq_append {cs rest : List Char} {t : Token} (h : scan? cs = some (t, rest)) : cs = t.spell ++ rest := by
  unfold scan? at h
  split at h
  · cases h
  case h_7 c cs _ _ _ _ _ =>
    split at h
    · simp only [Option.some.injEq, Prod.mk.injEq] at h
      obtain ⟨rfl, rfl⟩ := h
      rw [spell, List.takeWhile_append_dropWhile]
    · exact scanWord?_eq_append h
  all_goals
    simp only [Option.some.injEq, Prod.mk.injEq] at h
    obtain ⟨rfl, rfl⟩ := h
    rfl

/-- A token that was found takes a character. -/
theorem length_lt_of_scan? {cs rest : List Char} {t : Token} (h : scan? cs = some (t, rest)) :
    rest.length < cs.length := by
  have hne : t.spell ≠ [] := by
    unfold scan? at h
    split at h
    · cases h
    case h_7 c cs _ _ _ _ _ =>
      split at h
      · rename_i hd
        simp only [Option.some.injEq, Prod.mk.injEq] at h
        obtain ⟨rfl, -⟩ := h
        simp [spell, hd]
      · unfold scanWord? at h
        split at h
        · simp only [Option.some.injEq, Prod.mk.injEq] at h
          obtain ⟨rfl, -⟩ := h
          rename_i p _ _
          cases p <;> simp [spell, Plain.word]
        · split at h
          · split at h
            · cases h
            · simp only [Option.some.injEq, Prod.mk.injEq] at h
              obtain ⟨rfl, -⟩ := h
              rename_i s _ _ _
              cases s <;> simp [spell, Sized.word]
          · obtain ⟨r, -, he⟩ := Option.map_eq_some_iff.1 h
            simp only [Prod.mk.injEq] at he
            obtain ⟨rfl, -⟩ := he
            simp [spell, mapWord]
    all_goals
      simp only [Option.some.injEq, Prod.mk.injEq] at h
      obtain ⟨rfl, -⟩ := h
      simp [spell]
  have := congrArg List.length (scan?_eq_append h)
  have := List.length_pos_iff.2 hne
  rw [List.length_append] at *
  omega

end Token

def isBlank (c : Char) : Bool := c = ' ' || c = '\t' || c = '\x0c' || c = '\r' || c = '\n'

def skipBlanks (cs : List Char) : List Char := cs.dropWhile isBlank

/-- A token of a text, and the text from its first character on. -/
structure Lexeme where
  token : Token
  start : List Char
  deriving Repr

/-- The lexemes of a text, and the text from where no token starts; every lexeme takes a character, so one more than the
length is fuel enough. -/
def lexWith : (fuel : Nat) → List Char → List Lexeme × List Char
  | 0, cs => ([], cs)
  | fuel + 1, cs =>
    match Token.scan? (skipBlanks cs) with
    | none => ([], skipBlanks cs)
    | some (t, rest) => (⟨t, skipBlanks cs⟩ :: (lexWith fuel rest).1, (lexWith fuel rest).2)

/-- **The lexemes of a text** as far as tokens and blanks go, and the text that is left: empty if they reach the end. -/
def lex (cs : List Char) : List Lexeme × List Char := lexWith (cs.length + 1) cs

theorem length_skipBlanks_le (cs : List Char) : (skipBlanks cs).length ≤ cs.length :=
  (List.dropWhile_sublist _).length_le

theorem lexWith_eq : ∀ (m n : Nat) (cs : List Char), cs.length < m → cs.length < n → lexWith m cs = lexWith n cs
  | 0, _, _, h, _ => absurd h (Nat.not_lt_zero _)
  | _ + 1, 0, _, _, h => absurd h (Nat.not_lt_zero _)
  | m + 1, n + 1, cs, hm, hn => by
    unfold lexWith
    split
    · rfl
    · rename_i t rest h
      have := Token.length_lt_of_scan? h
      have := length_skipBlanks_le cs
      rw [lexWith_eq m n rest (by omega) (by omega)]

/-- **The lexemes of a text where a token starts**: that token, and the lexemes of the rest. -/
theorem lex_of_some {cs rest : List Char} {t : Token} (h : Token.scan? (skipBlanks cs) = some (t, rest)) :
    lex cs = (⟨t, skipBlanks cs⟩ :: (lex rest).1, (lex rest).2) := by
  have := Token.length_lt_of_scan? h
  have := length_skipBlanks_le cs
  unfold lex
  rw [lexWith, h]
  simp only
  rw [lexWith_eq cs.length (rest.length + 1) rest (by omega) (by omega)]

/-- **Where no token starts there is no lexeme**, and the text is left. -/
theorem lex_of_none {cs : List Char} (h : Token.scan? (skipBlanks cs) = none) : lex cs = ([], skipBlanks cs) := by
  unfold lex
  rw [lexWith, h]

end AbiTypes
