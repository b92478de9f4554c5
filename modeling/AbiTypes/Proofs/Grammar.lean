import AbiTypes.Reader
/-!
# Grammar — the texts of types

The grammar as a relation, apart from the reader.  A text is a layout of tokens with blanks around them
(`Layout`); the tokens derive a written type, one constructor a rule (`Derives`); the written type stands for a
descriptor (`Phrase.type`).  A phrase has at most one list of tokens (`derives_iff`), so the rules are checked phrase by
phrase (`Phrase.WellFormed`).
-/
namespace AbiTypes

/-- A run of decimal digits, at least one. -/
def IsNumeral (ds : List Char) : Prop := ds ≠ [] ∧ ∀ c ∈ ds, c.isDigit = true

/-- The digits of a token, if it has any. -/
def Token.digits? : Token → Option (List Char)
  | .sized _ ds | .number ds => some ds
  | _ => none

/-- Nothing but blanks. -/
def IsGap (cs : List Char) : Prop := ∀ c ∈ cs, isBlank c = true

/-- **The texts that spell a list of tokens**: each token in one piece, and blanks, or nothing, before, between and after
them. -/
inductive Layout : List Char → List Token → Prop
  | done {gap : List Char} (hg : IsGap gap) : Layout gap []
  | token {gap cs : List Char} {ts : List Token} (hg : IsGap gap) (t : Token) (h : Layout cs ts) :
    Layout (gap ++ t.spell ++ cs) (t :: ts)

mutual

/-- **The grammar of types**: the tokens that derive a written type. -/
inductive Derives : List Token → Phrase → Prop
  | plain (p : Plain) : Derives [.plain p] (.plain p)
  | sized (s : Sized) {ds : List Char} (hd : IsNumeral ds) : Derives [.sized s ds] (.sized s ds)
  | tuple {ts : List Token} {ps : List Phrase} (h : DerivesItems ts ps) :
    Derives (.lparen :: ts ++ [.rparen]) (.tuple ps)
  | array {ts : List Token} {e : Phrase} (h : Derives ts e) : Derives (ts ++ [.lbracket, .rbracket]) (.array e)
  | fixedArray {ts : List Token} {e : Phrase} {ds : List Char} (h : Derives ts e) (hd : IsNumeral ds) :
    Derives (ts ++ [.lbracket, .number ds, .rbracket]) (.fixedArray e ds)
  | map {ts us : List Token} {k v : Phrase} (hk : Derives ts k) (hv : Derives us v) :
    Derives (.map :: .lparen :: ts ++ .comma :: us ++ [.rparen]) (.map k v)

/-- The items of a tuple: one type, or more with commas between them. -/
inductive DerivesItems : List Token → List Phrase → Prop
  | one {ts : List Token} {p : Phrase} (h : Derives ts p) : DerivesItems ts [p]
  | cons {ts us : List Token} {p : Phrase} {ps : List Phrase} (h : Derives ts p) (hs : DerivesItems us ps) :
    DerivesItems (ts ++ .comma :: us) (p :: ps)

end

/-- **A text spells a written type.** -/
def Spells (cs : List Char) (p : Phrase) : Prop := ∃ ts, Layout cs ts ∧ Derives ts p

namespace Phrase

mutual

/-- **The descriptor that a written type stands for**: its numbers by their decimal values, the items of a tuple named by
position. -/
def type : Phrase → Ty
  | .plain p => .scalar (.plain p)
  | .sized s ds => .scalar (.sized s (Text.ofDecimal ds))
  | .tuple ps => .tuple ((itemTypes ps).mapIdx fun i t => ⟨"value" ++ toString i, t⟩)
  | .array e => .array e.type
  | .fixedArray e ds => .fixedArray e.type (Text.ofDecimal ds)
  | .map k v => .map k.type v.type

def itemTypes : List Phrase → List Ty
  | [] => []
  | p :: ps => p.type :: itemTypes ps

end

mutual

/-- The levels of arrays, tuples and maps in a written type. -/
def nesting : Phrase → Nat
  | .plain _ | .sized _ _ => 0
  | .tuple ps => 1 + itemNesting ps
  | .array e | .fixedArray e _ => 1 + e.nesting
  | .map k v => 1 + max k.nesting v.nesting

def itemNesting : List Phrase → Nat
  | [] => 0
  | p :: ps => max p.nesting (itemNesting ps)

end

mutual

/-- The digit runs of a written type, from left to right. -/
def numerals : Phrase → List (List Char)
  | .plain _ => []
  | .sized _ ds => [ds]
  | .tuple ps => itemNumerals ps
  | .array e => e.numerals
  | .fixedArray e ds => e.numerals ++ [ds]
  | .map k v => k.numerals ++ v.numerals

def itemNumerals : List Phrase → List (List Char)
  | [] => []
  | p :: ps => p.numerals ++ itemNumerals ps

end

theorem itemTypes_eq_map : ∀ ps : List Phrase, itemTypes ps = ps.map type
  | [] => rfl
  | p :: ps => by rw [itemTypes, itemTypes_eq_map ps, List.map_cons]

theorem itemNumerals_eq_flatMap : ∀ ps : List Phrase, itemNumerals ps = ps.flatMap numerals
  | [] => rfl
  | p :: ps => by rw [itemNumerals, itemNumerals_eq_flatMap ps, List.flatMap_cons]

mutual

/-- **The digit runs of a phrase are those of its tokens.** -/
theorem filterMap_digits?_tokens : ∀ p : Phrase, p.tokens.filterMap Token.digits? = p.numerals
  | .plain _ => rfl
  | .sized _ _ => rfl
  | .tuple ps => filterMap_digits?_itemTokens ps
  | .array e => by simp [tokens, numerals, List.filterMap_cons, Token.digits?, filterMap_digits?_tokens e]
  | .fixedArray e ds => by simp [tokens, numerals, List.filterMap_cons, Token.digits?, filterMap_digits?_tokens e]
  | .map k v => by
    simp [tokens, numerals, List.filterMap_cons, Token.digits?, filterMap_digits?_tokens k, filterMap_digits?_tokens v]

theorem filterMap_digits?_itemTokens : ∀ ps : List Phrase,
    (itemTokens ps).filterMap Token.digits? = itemNumerals ps
  | [] => rfl
  | [p] => by simp [itemTokens, itemNumerals, List.filterMap_cons, Token.digits?, filterMap_digits?_tokens p]
  | p :: q :: ps => by
    simp [itemTokens, itemNumerals, List.filterMap_cons, Token.digits?, filterMap_digits?_tokens p,
      filterMap_digits?_itemTokens (q :: ps)]

end

/-- **Within the reader's limits**: the nesting and the length of every digit run. -/
def InReach [Reader.Stack] (p : Phrase) : Prop :=
  p.nesting ≤ Reader.Stack.levels ∧ ∀ ds ∈ p.numerals, ds.length ≤ Text.digitLimit

/-- **What the rules ask of a phrase**: every number has digits and nothing else, every tuple has an item. -/
inductive WellFormed : Phrase → Prop
  | plain (p : Plain) : WellFormed (.plain p)
  | sized (s : Sized) {ds : List Char} (hd : IsNumeral ds) : WellFormed (.sized s ds)
  | tuple {ps : List Phrase} (hne : ps ≠ []) (h : ∀ p ∈ ps, WellFormed p) : WellFormed (.tuple ps)
  | array {e : Phrase} (h : WellFormed e) : WellFormed (.array e)
  | fixedArray {e : Phrase} {ds : List Char} (h : WellFormed e) (hd : IsNumeral ds) : WellFormed (.fixedArray e ds)
  | map {k v : Phrase} (hk : WellFormed k) (hv : WellFormed v) : WellFormed (.map k v)

theorem WellFormed.isNumeral {p : Phrase} (h : p.WellFormed) : ∀ ds ∈ p.numerals, IsNumeral ds := by
  induction h with
  | plain p => exact fun ds hd => nomatch hd
  | sized s hd => simpa [numerals] using hd
  | tuple hne h ih =>
    rw [numerals, itemNumerals_eq_flatMap]
    intro ds hd
    obtain ⟨p, hp, hd⟩ := List.mem_flatMap.1 hd
    exact ih p hp ds hd
  | array _ ih => exact ih
  | fixedArray _ hd ih =>
    rw [numerals]
    intro ds hds
    rcases List.mem_append.1 hds with hds | hds
    · exact ih ds hds
    · exact List.mem_singleton.1 hds ▸ hd
  | map _ _ ihk ihv =>
    rw [numerals]
    exact fun ds hds => (List.mem_append.1 hds).elim (ihk ds) (ihv ds)

end Phrase

mutual

theorem Derives.eq_tokens : ∀ {ts : List Token} {p : Phrase}, Derives ts p → ts = p.tokens ∧ p.WellFormed
  | _, _, .plain p => ⟨rfl, .plain p⟩
  | _, _, .sized s hd => ⟨rfl, .sized s hd⟩
  | _, _, .tuple h => by
    obtain ⟨ht, hne, hw⟩ := h.eq_itemTokens
    exact ⟨by rw [List.cons_append, ht, Phrase.tokens], .tuple hne hw⟩
  | _, _, .array h => by
    obtain ⟨rfl, hw⟩ := h.eq_tokens
    exact ⟨rfl, .array hw⟩
  | _, _, .fixedArray h hd => by
    obtain ⟨rfl, hw⟩ := h.eq_tokens
    exact ⟨rfl, .fixedArray hw hd⟩
  | _, _, .map hk hv => by
    obtain ⟨rfl, hwk⟩ := hk.eq_tokens
    obtain ⟨rfl, hwv⟩ := hv.eq_tokens
    exact ⟨by simp [Phrase.tokens], .map hwk hwv⟩

theorem DerivesItems.eq_itemTokens : ∀ {ts : List Token} {ps : List Phrase}, DerivesItems ts ps →
    ts ++ [.rparen] = Phrase.itemTokens ps ∧ ps ≠ [] ∧ ∀ p ∈ ps, p.WellFormed
  | _, _, .one h => by
    obtain ⟨rfl, hw⟩ := h.eq_tokens
    exact ⟨rfl, by simp, by simpa using hw⟩
  | _, _, .cons h hs => by
    obtain ⟨rfl, hw⟩ := h.eq_tokens
    obtain ⟨ht, hne, hws⟩ := hs.eq_itemTokens
    obtain ⟨q, qs, rfl⟩ := List.exists_cons_of_ne_nil hne
    exact ⟨by rw [Phrase.itemTokens, ← ht]; simp, by simp, List.forall_mem_cons.2 ⟨hw, hws⟩⟩

end

theorem derivesItems_of_derives : ∀ {ps : List Phrase}, ps ≠ [] → (∀ p ∈ ps, Derives p.tokens p) →
    ∃ ts, DerivesItems ts ps ∧ ts ++ [.rparen] = Phrase.itemTokens ps
  | [], hne, _ => absurd rfl hne
  | [p], _, h => ⟨p.tokens, .one (h p (by simp)), rfl⟩
  | p :: q :: ps, _, h => by
    obtain ⟨hp, hps⟩ := List.forall_mem_cons.1 h
    obtain ⟨ts, hts, he⟩ := derivesItems_of_derives (List.cons_ne_nil q ps) hps
    exact ⟨p.tokens ++ .comma :: ts, .cons hp hts, by rw [Phrase.itemTokens, ← he]; simp⟩

theorem Phrase.WellFormed.derives {p : Phrase} (h : p.WellFormed) : Derives p.tokens p := by
  induction h with
  | plain p => exact .plain p
  | sized s hd => exact .sized s hd
  | tuple hne _ ih =>
    obtain ⟨ts, hts, he⟩ := derivesItems_of_derives hne ih
    rw [Phrase.tokens, ← he]
    exact .tuple hts
  | array _ ih => exact .array ih
  | fixedArray _ hd ih => exact .fixedArray ih hd
  | map _ _ ihk ihv =>
    rw [Phrase.tokens]
    simpa using Derives.map ihk ihv

/-- **The tokens that derive a phrase are its own**, and the rules are checked phrase by phrase. -/
theorem derives_iff {ts : List Token} {p : Phrase} : Derives ts p ↔ ts = p.tokens ∧ p.WellFormed :=
  ⟨Derives.eq_tokens, fun ⟨ht, hw⟩ => ht ▸ hw.derives⟩

end AbiTypes
