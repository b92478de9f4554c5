import AbiTypes.Proofs.Grammar
import Mathlib.Data.List.Chain
/-!
# Lexing — the tokens of a text

Lexing undoes layout: the lexemes of a text that spells tokens are those tokens (`Layout.lex_eq`), once no number follows
anything but an opening bracket, for only there could the digits of two tokens run together.  And whatever the text, the
lexemes lay out the part of it before the text that is left (`layout_lex`).
-/
namespace AbiTypes

/-- The text does not start with a digit. -/
def NoDigitAhead (cs : List Char) : Prop := ∀ c ∈ cs.head?, c.isDigit = false

theorem noDigitAhead_cons {c : Char} {cs : List Char} : NoDigitAhead (c :: cs) ↔ c.isDigit = false := by
  simp [NoDigitAhead]

theorem isNameChar_eq_false_of_isBlank {c : Char} (h : isBlank c = true) : Reader.isNameChar c = false := by
  simp only [isBlank, Bool.or_eq_true, decide_eq_true_eq] at h
  rcases h with (((rfl | rfl) | rfl) | rfl) | rfl <;> rfl

theorem isDigit_eq_false_of_isBlank {c : Char} (h : isBlank c = true) : c.isDigit = false := by
  have hc := isNameChar_eq_false_of_isBlank h
  simp only [Reader.isNameChar, Char.isAlphanum, Bool.or_eq_false_iff] at hc
  exact hc.1.2

theorem isBlank_eq_false_of_isDigit {c : Char} (h : c.isDigit = true) : isBlank c = false := by
  cases hb : isBlank c with
  | false => rfl
  | true => rw [isDigit_eq_false_of_isBlank hb] at h; cases h

theorem takeWhile_isDigit_append {ds rest : List Char} (hd : ∀ c ∈ ds, c.isDigit = true) (hr : NoDigitAhead rest) :
    (ds ++ rest).takeWhile Char.isDigit = ds ∧ (ds ++ rest).dropWhile Char.isDigit = rest := by
  rw [List.takeWhile_append_of_pos hd, List.dropWhile_append_of_pos hd]
  cases rest with
  | nil => exact ⟨List.append_nil ds, rfl⟩
  | cons c rest =>
    have hc : c.isDigit = false := noDigitAhead_cons.1 hr
    simp [hc]

theorem skipBlanks_of_isGap {gap : List Char} (hg : IsGap gap) (cs : List Char) :
    skipBlanks (gap ++ cs) = skipBlanks cs :=
  List.dropWhile_append_of_pos hg

theorem isGap_takeWhile (cs : List Char) : IsGap (cs.takeWhile isBlank) := fun _ hc =>
  List.all_eq_true.1 List.all_takeWhile _ hc

theorem layout_flatMap_spell : ∀ ts : List Token, Layout (ts.flatMap Token.spell) ts
  | [] => .done nofun
  | t :: ts => @Layout.token [] _ _ nofun t (layout_flatMap_spell ts)

theorem Layout.append_gap {gap cs : List Char} {ts : List Token} (hg : IsGap gap) (h : Layout cs ts) :
    Layout (gap ++ cs) ts := by
  have happ : ∀ {gap'}, IsGap gap' → IsGap (gap ++ gap') := fun hg' c hc =>
    (List.mem_append.1 hc).elim (hg c) (hg' c)
  cases h with
  | done hg' => exact .done (happ hg')
  | token hg' t h =>
    rw [← List.append_assoc, ← List.append_assoc]
    exact .token (happ hg') t h

namespace Token

/-- What a token holds as its digits are digits, and there are some. -/
def IsProper (t : Token) : Prop := ∀ ds ∈ t.digits?, IsNumeral ds

/-- A number comes after an opening bracket only. -/
def Apart (a b : Token) : Prop := ∀ ds, b = .number ds → a = .lbracket

/-- A token starts with a character that is no blank, and with a digit only if it is a number. -/
theorem spell_eq_cons {t : Token} (ht : t.IsProper) :
    ∃ c cs, t.spell = c :: cs ∧ isBlank c = false ∧ ((∀ ds, t ≠ .number ds) → c.isDigit = false) := by
  cases t with
  | plain p => cases p <;> exact ⟨_, _, rfl, rfl, fun _ => rfl⟩
  | sized s ds => cases s <;> exact ⟨_, _, rfl, rfl, fun _ => rfl⟩
  | number ds =>
    obtain ⟨hne, hd⟩ := ht ds rfl
    obtain ⟨c, cs, rfl⟩ := List.exists_cons_of_ne_nil hne
    exact ⟨c, cs, rfl, isBlank_eq_false_of_isDigit (hd c (by simp)), fun h => absurd rfl (h _)⟩
  | _ => exact ⟨_, _, rfl, rfl, fun _ => rfl⟩

theorem scan?_sizedWord (s : Sized) (cs : List Char) : scan? (s.word ++ cs) =
    if (cs.takeWhile Char.isDigit).isEmpty then none
    else some (.sized s (cs.takeWhile Char.isDigit), cs.dropWhile Char.isDigit) := by
  cases s <;> rfl

theorem scan?_of_isDigit {c : Char} {cs : List Char} (hc : c.isDigit = true) : scan? (c :: cs) =
    some (.number ((c :: cs).takeWhile Char.isDigit), (c :: cs).dropWhile Char.isDigit) := by
  unfold scan?
  split <;> simp_all

/-- **A token that is spelled is found again**, whatever follows, unless its digits could go on. -/
theorem scan?_spell_append {t : Token} (ht : t.IsProper) {rest : List Char}
    (hr : t = .lbracket ∨ NoDigitAhead rest) : scan? (t.spell ++ rest) = some (t, rest) := by
  cases t with
  | plain p => cases p <;> rfl
  | sized s ds =>
    obtain ⟨hne, hd⟩ := ht ds rfl
    obtain ⟨h1, h2⟩ := takeWhile_isDigit_append hd (hr.resolve_left (by simp))
    rw [spell, List.append_assoc, scan?_sizedWord, h1, h2, if_neg (by simpa using hne)]
  | number ds =>
    obtain ⟨hne, hd⟩ := ht ds rfl
    obtain ⟨h1, h2⟩ := takeWhile_isDigit_append hd (hr.resolve_left (by simp))
    obtain ⟨c, cs, rfl⟩ := List.exists_cons_of_ne_nil hne
    rw [spell, List.cons_append, scan?_of_isDigit (hd c (by simp)), ← List.cons_append, h1, h2]
  | _ => rfl

theorem isProper_of_scan? {cs rest : List Char} {t : Token} (h : scan? cs = some (t, rest)) : t.IsProper := by
  have hdigits : ∀ cs : List Char, ∀ c ∈ cs.takeWhile Char.isDigit, c.isDigit = true := fun cs c hc =>
    List.all_eq_true.1 List.all_takeWhile c hc
  have hword : ∀ {cs : List Char}, scanWord? cs = some (t, rest) → t.IsProper := by
    intro cs h
    unfold scanWord? at h
    split at h
    · cases h
      exact nofun
    · split at h
      · rename_i r _
        split at h
        · cases h
        · rename_i hne
          cases h
          rintro ds ⟨⟩
          exact ⟨by simpa using hne, hdigits r⟩
      · obtain ⟨_, -, he⟩ := Option.map_eq_some_iff.1 h
        cases he
        exact nofun
  unfold scan? at h
  split at h
  · cases h
  case h_7 c cs _ _ _ _ _ =>
    split at h
    · rename_i hc
      cases h
      rintro ds ⟨⟩
      exact ⟨by simp [hc], hdigits (c :: cs)⟩
    · exact hword h
  all_goals
    cases h
    exact nofun

end Token

theorem Phrase.isProper_of_mem_tokens {p : Phrase} (h : ∀ ds ∈ p.numerals, IsNumeral ds) :
    ∀ t ∈ p.tokens, t.IsProper := fun t ht ds hd =>
  h ds (p.filterMap_digits?_tokens ▸ List.mem_filterMap.2 ⟨t, ht, hd⟩)

theorem Layout.noDigitAhead {cs : List Char} {ts : List Token} (h : Layout cs ts) (hp : ∀ t ∈ ts, t.IsProper)
    (hn : ∀ ds, .number ds ∉ ts.head?) : NoDigitAhead cs := by
  have hgap : ∀ {gap : List Char} (rest : List Char), IsGap gap → NoDigitAhead rest → NoDigitAhead (gap ++ rest) := by
    intro gap rest hg hr
    cases gap with
    | nil => exact hr
    | cons c gap => exact noDigitAhead_cons.2 (isDigit_eq_false_of_isBlank (hg c (by simp)))
  cases h with
  | done hg => simpa using hgap [] hg (by simp [NoDigitAhead])
  | token hg t h =>
    obtain ⟨c, cs, hs, -, hd⟩ := Token.spell_eq_cons (hp t (by simp))
    rw [List.append_assoc]
    refine hgap _ hg ?_
    rw [hs]
    exact noDigitAhead_cons.2 (hd fun ds ht => hn ds (by simp [ht]))

/-- Behind a token whose digits could go on no digit follows, once the tokens are apart. -/
theorem Layout.noDigitAhead_of_isChain {cs : List Char} {t : Token} {ts : List Token} (h : Layout cs ts)
    (hp : ∀ u ∈ ts, u.IsProper) (ha : (t :: ts).IsChain Token.Apart) : t = .lbracket ∨ NoDigitAhead cs := by
  by_cases hn : ∃ ds, .number ds ∈ ts.head?
  · obtain ⟨ds, hds⟩ := hn
    obtain ⟨us, rfl⟩ := List.head?_eq_some_iff.1 hds
    exact Or.inl ((List.isChain_cons_cons.1 ha).1 ds rfl)
  · exact Or.inr (h.noDigitAhead hp fun ds hds => hn ⟨ds, hds⟩)

/-- **Lexing undoes layout**: the lexemes of a text that spells tokens are those tokens, and nothing is left. -/
theorem Layout.lex_eq {cs : List Char} {ts : List Token} (h : Layout cs ts) (hp : ∀ t ∈ ts, t.IsProper)
    (ha : ts.IsChain Token.Apart) : (lex cs).1.map Lexeme.token = ts ∧ (lex cs).2 = [] := by
  induction h with
  | @done gap hg =>
    have hnil : skipBlanks gap = [] := by simpa [skipBlanks] using skipBlanks_of_isGap hg []
    rw [lex_of_none (by rw [hnil, Token.scan?])]
    exact ⟨rfl, hnil⟩
  | @token gap cs ts hg t h ih =>
    have hps : ∀ t ∈ ts, t.IsProper := fun u hu => hp u (by simp [hu])
    have ht : t.IsProper := hp t (by simp)
    -- the token ends where it should: its digits cannot go on in what follows
    have hrest := h.noDigitAhead_of_isChain hps ha
    obtain ⟨c, ds, hs, hb, -⟩ := Token.spell_eq_cons ht
    have hskip : skipBlanks (gap ++ t.spell ++ cs) = t.spell ++ cs := by
      rw [List.append_assoc, skipBlanks_of_isGap hg, hs]
      simp [skipBlanks, hb]
    obtain ⟨h1, h2⟩ := ih hps ha.tail
    rw [lex_of_some (by rw [hskip]; exact Token.scan?_spell_append ht hrest)]
    exact ⟨by rw [List.map_cons, h1], h2⟩

/-- **The lexemes of any text lay out the part of it before the text that is left**, and their numbers have digits. -/
theorem layout_lex (cs : List Char) : ∃ pre, cs = pre ++ (lex cs).2 ∧
    Layout pre ((lex cs).1.map Lexeme.token) ∧ ∀ l ∈ (lex cs).1, l.token.IsProper := by
  cases h : Token.scan? (skipBlanks cs) with
  | none =>
    rw [lex_of_none h]
    exact ⟨cs.takeWhile isBlank, List.takeWhile_append_dropWhile.symm, .done (isGap_takeWhile cs), by simp⟩
  | some r =>
    obtain ⟨t, rest⟩ := r
    have := Token.length_lt_of_scan? h
    have := length_skipBlanks_le cs
    obtain ⟨pre, hcs, hl, hp⟩ := layout_lex rest
    rw [lex_of_some h]
    refine ⟨cs.takeWhile isBlank ++ t.spell ++ pre, ?_, .token (isGap_takeWhile cs) t hl,
      List.forall_mem_cons.2 ⟨Token.isProper_of_scan? h, hp⟩⟩
    calc cs = cs.takeWhile isBlank ++ skipBlanks cs := List.takeWhile_append_dropWhile.symm
      _ = cs.takeWhile isBlank ++ (t.spell ++ rest) := by rw [Token.scan?_eq_append h]
      _ = cs.takeWhile isBlank ++ t.spell ++ pre ++ (lex rest).2 := by
        rw [List.append_assoc _ pre, ← hcs, List.append_assoc]
termination_by cs.length

end AbiTypes
