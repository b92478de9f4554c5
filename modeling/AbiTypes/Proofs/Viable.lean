import AbiTypes.Proofs.RoundTrip
import Mathlib.Order.Bounds.Basic
/-!
# Viable — where a text stops being a type

A text is viable if it is whole tokens and blanks, and some grammatical sequence starts with its tokens
(`Form.Viable`).  The reader stops at the end of the longest viable beginning of a text: what it has read can always be
completed (`Progress.exists_completion`), and it reads as far as any viable beginning goes
(`Progress.length_stop_le_of_layout`).  So **the column of a refused text is that of its longest viable beginning**.
-/
namespace AbiTypes

/-! ## The two forms by their tokens -/

/-- A token of a text of either form: in a parameter a name and a colon come before the type. -/
inductive Piece
  | name (chars : List Char)
  | colon
  | token (t : Token)

def Piece.spell : Piece → List Char
  | .name cs => cs
  | .colon => [':']
  | .token t => t.spell

/-- **The texts that are cut into pieces**: each piece whole, and blanks, or nothing, before, between and after them. -/
inductive Cut : List Char → List Piece → Prop
  | done {gap : List Char} (hg : IsGap gap) : Cut gap []
  | piece {gap cs : List Char} {xs : List Piece} (hg : IsGap gap) (x : Piece) (h : Cut cs xs) :
    Cut (gap ++ x.spell ++ cs) (x :: xs)

namespace Form

/-- **The grammatical sequences of a form.** -/
inductive Derives : Form → List Piece → Prop
  | signature {ts : List Token} {p : Phrase} (h : AbiTypes.Derives ts p) : Derives .signature (ts.map .token)
  | param {name : List Char} {ts : List Token} {p : Phrase} (hn : IsIdentifier name) (h : AbiTypes.Derives ts p) :
    Derives .param (.name name :: .colon :: ts.map .token)

/-- A text is grammatical. -/
def Spells (form : Form) (cs : List Char) : Prop := ∃ xs, Cut cs xs ∧ form.Derives xs

/-- **A viable text**: whole tokens and blanks, of which some grammatical sequence starts with the tokens. -/
def Viable (form : Form) (cs : List Char) : Prop := ∃ xs ys, Cut cs xs ∧ form.Derives (xs ++ ys)

/-- What reading a text of a form comes to, but for the descriptor. -/
def read [Reader.Stack] (form : Form) (text : String) : Except Fault Unit :=
  match form with
  | .signature => (Ty.read text).outcome.map fun _ => ()
  | .param => (Field.read text).outcome.map fun _ => ()

end Form

/-- The column behind the first `n` characters of a text: the characters since the last line feed, counted from 1, or -1
if nothing is behind them. -/
def columnAfter (cs : List Char) (n : Nat) : Int :=
  if n = cs.length then -1 else 1 + ((cs.take n).reverse.takeWhile (· ≠ '\n')).length

theorem cut_map_token_iff : ∀ {ts : List Token} {cs : List Char}, Cut cs (ts.map .token) ↔ Layout cs ts
  | [], cs => ⟨fun | .done hg => .done hg, fun | .done hg => .done hg⟩
  | t :: ts, cs => by
    constructor
    · intro h
      cases h with
      | piece hg x h => exact .token hg t (cut_map_token_iff.1 h)
    · intro h
      cases h with
      | token hg t h => exact .piece hg (.token t) (cut_map_token_iff.2 h)

/-! ## What was read can be completed -/

namespace Reader.Progress

theorem foldlM_bind {q r : Progress} {ts us : List Token} (h : ts.foldlM step? q = some r) :
    (ts ++ us).foldlM step? q = us.foldlM step? r := by
  rw [List.foldlM_append, h, Option.bind_eq_bind, Option.bind_some]

theorem exists_closing : ∀ (fs : List Frame) (t : Phrase), ∃ (us : List Token) (p : Phrase),
    us.foldlM step? ⟨.complete t, fs⟩ = some ⟨.complete p, []⟩ ∧ ∀ u ∈ us, u.IsProper
  | [], t => ⟨[], t, rfl, by simp⟩
  | .tuple ts :: fs, t => by
    obtain ⟨us, p, h, hp⟩ := exists_closing fs (.tuple (t :: ts).reverse)
    exact ⟨.rparen :: us, p, h, List.forall_mem_cons.2 ⟨nofun, hp⟩⟩
  | .mapKey :: fs, t => by
    obtain ⟨us, p, h, hp⟩ := exists_closing fs (.map t (.plain .bool))
    exact ⟨.comma :: .plain .bool :: .rparen :: us, p, h, by simpa [Token.IsProper, Token.digits?] using hp⟩
  | .mapValue k :: fs, t => by
    obtain ⟨us, p, h, hp⟩ := exists_closing fs (.map k t)
    exact ⟨.rparen :: us, p, h, List.forall_mem_cons.2 ⟨nofun, hp⟩⟩

/-- **Whatever was read, more tokens complete it.** -/
theorem exists_completion (q : Progress) : ∃ (us : List Token) (p : Phrase),
    us.foldlM step? q = some ⟨.complete p, []⟩ ∧ ∀ u ∈ us, u.IsProper := by
  obtain ⟨focus, fs⟩ := q
  cases focus with
  | wanted =>
    obtain ⟨us, p, h, hp⟩ := exists_closing fs (.plain .bool)
    exact ⟨.plain .bool :: us, p, h, by simpa [Token.IsProper, Token.digits?] using hp⟩
  | mapWord =>
    obtain ⟨us, p, h, hp⟩ := exists_closing (.mapKey :: fs) (.plain .bool)
    exact ⟨.lparen :: .plain .bool :: us, p, h, by simpa [Token.IsProper, Token.digits?] using hp⟩
  | complete t => exact exists_closing fs t
  | bracket e =>
    obtain ⟨us, p, h, hp⟩ := exists_closing fs (.array e)
    exact ⟨.rbracket :: us, p, h, by simpa [Token.IsProper, Token.digits?] using hp⟩
  | size e ds =>
    obtain ⟨us, p, h, hp⟩ := exists_closing fs (.fixedArray e ds)
    exact ⟨.rbracket :: us, p, h, by simpa [Token.IsProper, Token.digits?] using hp⟩

theorem derives_of_foldlM {ts : List Token} {p : Phrase} (h : ts.foldlM step? start = some ⟨.complete p, []⟩)
    (hp : ∀ t ∈ ts, t.IsProper) : Derives ts p := by
  obtain ⟨ht, hw⟩ := tokens_of_foldlM h wellFormed_start hp
  exact derives_iff.2 ⟨ht.symm, hw.1⟩

theorem exists_foldlM_of_derives {ts us : List Token} {p : Phrase} (h : Derives (ts ++ us) p) :
    (∃ q, ts.foldlM step? start = some q) ∧ (∀ t ∈ ts, t.IsProper) ∧ ts.IsChain Token.Apart := by
  obtain ⟨ht, hw⟩ := derives_iff.1 h
  have hrun : (ts ++ us).foldlM step? start = some ⟨.complete p, []⟩ := by
    rw [ht, ← advance_false]
    exact Phrase.foldlM_tokens p (Or.inr hw) []
  rw [List.foldlM_append] at hrun
  obtain ⟨q, hq, -⟩ := Option.bind_eq_some_iff.1 hrun
  have hchain := p.isChain_tokens
  have hproper := Phrase.isProper_of_mem_tokens hw.isNumeral
  rw [← ht] at hchain hproper
  exact ⟨⟨q, hq⟩, fun t ht => hproper t (List.mem_append_left us ht), hchain.left_of_append⟩

/-! ## Where reading stops -/

/-- The text from where reading stops, after some progress. -/
def stop (q : Progress) (cs : List Char) : List Char :=
  match q.run (lex cs).1 with
  | .error rest => rest
  | .ok _ => (lex cs).2

theorem stop_of_none {cs : List Char} (q : Progress) (h : Token.scan? (skipBlanks cs) = none) :
    q.stop cs = skipBlanks cs := by
  rw [stop, lex_of_none h, run]

theorem stop_of_refused {q : Progress} {cs rest : List Char} {t : Token}
    (h : Token.scan? (skipBlanks cs) = some (t, rest)) (hq : q.step? t = none) : q.stop cs = skipBlanks cs := by
  rw [stop, lex_of_some h, run, hq]

theorem stop_of_step? {q r : Progress} {cs rest : List Char} {t : Token}
    (h : Token.scan? (skipBlanks cs) = some (t, rest)) (hq : q.step? t = some r) : q.stop cs = r.stop rest := by
  rw [stop, lex_of_some h, run, hq, stop]

theorem stop_eq_of_read_eq_error {cs rest : List Char} (h : Phrase.read cs = .error rest) : start.stop cs = rest := by
  unfold Phrase.read at h
  unfold stop
  cases hr : start.run (lex cs).1 with
  | error left =>
    rw [hr] at h
    exact Except.error.inj h
  | ok q =>
    rw [hr] at h
    change (lex cs).2 = rest
    cases hleft : (lex cs).2 with
    | cons c left =>
      rw [hleft] at h
      exact Except.error.inj h
    | nil =>
      rw [hleft] at h
      cases ht : q.type? with
      | some t => simp [ht] at h
      | none => simpa [ht] using h

theorem stop_eq_of_map_eq_error {α : Type} {g : Phrase → α} {cs rest : List Char}
    (h : (Phrase.read cs).map g = .error rest) : start.stop cs = rest := by
  cases hp : Phrase.read cs with
  | error s =>
    rw [hp] at h
    rw [stop_eq_of_read_eq_error hp]
    exact Except.error.inj h
  | ok p =>
    rw [hp] at h
    cases h

/-- **What was read before the stop** lays out tokens that can follow the progress. -/
theorem exists_layout_stop (q : Progress) (cs : List Char) : ∃ pre ts r, cs = pre ++ q.stop cs ∧ Layout pre ts ∧
    (∀ t ∈ ts, t.IsProper) ∧ ts.foldlM step? q = some r := by
  have hblanks : cs = cs.takeWhile isBlank ++ skipBlanks cs := List.takeWhile_append_dropWhile.symm
  cases h : Token.scan? (skipBlanks cs) with
  | none =>
    rw [stop_of_none q h]
    exact ⟨_, [], q, hblanks, .done (isGap_takeWhile cs), by simp, rfl⟩
  | some found =>
    obtain ⟨t, rest⟩ := found
    cases hq : q.step? t with
    | none =>
      rw [stop_of_refused h hq]
      exact ⟨_, [], q, hblanks, .done (isGap_takeWhile cs), by simp, rfl⟩
    | some r =>
      have := Token.length_lt_of_scan? h
      have := length_skipBlanks_le cs
      obtain ⟨pre, ts, s, hrest, hl, hp, hs⟩ := exists_layout_stop r rest
      rw [stop_of_step? h hq]
      refine ⟨cs.takeWhile isBlank ++ t.spell ++ pre, t :: ts, s, ?_, .token (isGap_takeWhile cs) t hl,
        List.forall_mem_cons.2 ⟨Token.isProper_of_scan? h, hp⟩, ?_⟩
      · calc cs = cs.takeWhile isBlank ++ skipBlanks cs := hblanks
          _ = cs.takeWhile isBlank ++ (t.spell ++ rest) := by rw [Token.scan?_eq_append h]
          _ = cs.takeWhile isBlank ++ t.spell ++ pre ++ r.stop rest := by
            rw [List.append_assoc _ pre, ← hrest, List.append_assoc]
      · rw [List.foldlM_cons, hq]
        exact hs
termination_by cs.length

theorem length_stop_le (q : Progress) (cs : List Char) : (q.stop cs).length ≤ (skipBlanks cs).length := by
  cases h : Token.scan? (skipBlanks cs) with
  | none => rw [stop_of_none q h]
  | some found =>
    obtain ⟨t, rest⟩ := found
    cases hq : q.step? t with
    | none => rw [stop_of_refused h hq]
    | some r =>
      obtain ⟨pre, ts, s, hrest, -, -, -⟩ := exists_layout_stop r rest
      have := Token.length_lt_of_scan? h
      have := congrArg List.length hrest
      rw [List.length_append] at this
      rw [stop_of_step? h hq]
      omega

end Reader.Progress

/-! ## No viable beginning goes further -/

theorem length_dropWhile_isDigit_le (cs : List Char) : (cs.dropWhile Char.isDigit).length ≤ cs.length :=
  (List.dropWhile_sublist _).length_le

/-- **A token that is spelled is found again, or a longer one of its kind**, which can come wherever it can. -/
theorem Token.scan?_spell_append_isSome {t : Token} (ht : t.IsProper) (rest : List Char) :
    ∃ u rest', scan? (t.spell ++ rest) = some (u, rest') ∧ rest'.length ≤ rest.length ∧
      ∀ q : Reader.Progress, (q.step? t).isSome → (q.step? u).isSome := by
  have hdigits : ∀ {ds : List Char}, (∀ c ∈ ds, c.isDigit = true) →
      (ds ++ rest).takeWhile Char.isDigit = ds ++ rest.takeWhile Char.isDigit ∧
        (ds ++ rest).dropWhile Char.isDigit = rest.dropWhile Char.isDigit := fun hd =>
    ⟨List.takeWhile_append_of_pos hd, List.dropWhile_append_of_pos hd⟩
  cases t with
  | sized s ds =>
    obtain ⟨hne, hd⟩ := ht ds rfl
    obtain ⟨h1, h2⟩ := hdigits hd
    refine ⟨.sized s (ds ++ rest.takeWhile Char.isDigit), rest.dropWhile Char.isDigit, ?_,
      length_dropWhile_isDigit_le rest, fun q hq => ?_⟩
    · rw [spell, List.append_assoc, scan?_sizedWord, h1, h2, if_neg (by simp [hne])]
    · obtain ⟨focus, fs⟩ := q
      cases focus with
      | wanted => rfl
      | _ => cases hq
  | number ds =>
    obtain ⟨hne, hd⟩ := ht ds rfl
    obtain ⟨h1, h2⟩ := hdigits hd
    refine ⟨.number (ds ++ rest.takeWhile Char.isDigit), rest.dropWhile Char.isDigit, ?_,
      length_dropWhile_isDigit_le rest, fun q hq => ?_⟩
    · obtain ⟨c, cs, rfl⟩ := List.exists_cons_of_ne_nil hne
      rw [spell, List.cons_append, scan?_of_isDigit (hd c (by simp)), ← List.cons_append, h1, h2]
    · obtain ⟨focus, fs⟩ := q
      cases focus with
      | bracket e => rfl
      | _ => cases hq
  | plain p => exact ⟨.plain p, rest, by cases p <;> rfl, Nat.le_refl _, fun q hq => hq⟩
  | _ => exact ⟨_, rest, rfl, Nat.le_refl _, fun q hq => hq⟩

namespace Reader.Progress

/-- **Reading goes as far as tokens go that can follow.** -/
theorem length_stop_le_of_layout {pre : List Char} {ts : List Token} (h : Layout pre ts) (hp : ∀ t ∈ ts, t.IsProper)
    (ha : ts.IsChain Token.Apart) (rest : List Char) {q r : Progress} (hr : ts.foldlM step? q = some r) :
    (q.stop (pre ++ rest)).length ≤ rest.length := by
  induction h generalizing q with
  | @done gap hg =>
    have hskip := length_skipBlanks_le rest
    rw [← skipBlanks_of_isGap hg rest] at hskip
    exact (length_stop_le q _).trans hskip
  | @token gap cs ts hg t h ih =>
    have hps : ∀ u ∈ ts, u.IsProper := fun u hu => hp u (by simp [hu])
    have ht : t.IsProper := hp t (by simp)
    rw [List.foldlM_cons] at hr
    obtain ⟨s, hs, hr⟩ := Option.bind_eq_some_iff.1 hr
    obtain ⟨c, ds, hspell, hb, -⟩ := Token.spell_eq_cons ht
    have hskip : skipBlanks (gap ++ t.spell ++ cs ++ rest) = t.spell ++ (cs ++ rest) := by
      rw [List.append_assoc, List.append_assoc, skipBlanks_of_isGap hg, hspell]
      simp [skipBlanks, hb]
    -- behind the last token its digits may go on, and only there
    by_cases hend : t = .lbracket ∨ NoDigitAhead (cs ++ rest)
    · rw [stop_of_step? (by rw [hskip]; exact Token.scan?_spell_append ht hend) hs]
      exact ih hps ha.tail hr
    · obtain rfl : cs = [] := by
        cases cs with
        | nil => rfl
        | cons d cs =>
          refine absurd ?_ hend
          refine (h.noDigitAhead_of_isChain hps ha).imp_right fun hd => ?_
          exact noDigitAhead_cons.2 (noDigitAhead_cons.1 hd)
      obtain ⟨u, rest', hscan, hlen, hu⟩ := Token.scan?_spell_append_isSome ht rest
      obtain ⟨s', hs'⟩ := Option.isSome_iff_exists.1 (hu q (by rw [hs]; rfl))
      rw [stop_of_step? (by rw [hskip]; exact hscan) hs']
      exact (length_stop_le s' rest').trans ((length_skipBlanks_le rest').trans hlen)

end Reader.Progress

/-! ## Parameters -/

theorem isBlank_eq_false_of_isNameStart {c : Char} (h : c.isAlpha ∨ c = '_') : isBlank c = false := by
  refine Bool.eq_false_iff.2 fun hb => ?_
  have hno := isNameChar_eq_false_of_isBlank hb
  rcases h with h | h <;> simp [Reader.isNameChar, Char.isAlphanum, h] at hno

theorem skipBlanks_identifier {gap name : List Char} (hg : IsGap gap) (hn : IsIdentifier name) (cs : List Char) :
    skipBlanks (gap ++ name ++ cs) = name ++ cs := by
  obtain ⟨c, ds, rfl, hc, -⟩ := hn
  rw [List.append_assoc, skipBlanks_of_isGap hg, List.cons_append]
  simp [skipBlanks, isBlank_eq_false_of_isNameStart hc]

theorem dropWhile_isNameChar_of_isGap {gap : List Char} (hg : IsGap gap) (cs : List Char) :
    (gap ++ cs).dropWhile Reader.isNameChar = gap ++ cs ∨ gap = [] := by
  cases gap with
  | nil => exact Or.inr rfl
  | cons b gap =>
    have hb := isNameChar_eq_false_of_isBlank (hg b (by simp))
    exact Or.inl (by simp [hb])

theorem length_skipBlanks_dropWhile_le {gap : List Char} (hg : IsGap gap) (cs : List Char) :
    (skipBlanks ((gap ++ cs).dropWhile Reader.isNameChar)).length ≤ cs.length := by
  rcases dropWhile_isNameChar_of_isGap hg cs with h | rfl
  · rw [h, skipBlanks_of_isGap hg]
    exact length_skipBlanks_le cs
  · exact (length_skipBlanks_le _).trans (List.dropWhile_sublist _).length_le

theorem skipBlanks_dropWhile_colon {gap : List Char} (hg : IsGap gap) (cs : List Char) :
    skipBlanks ((gap ++ ':' :: cs).dropWhile Reader.isNameChar) = ':' :: cs := by
  have hcolon : skipBlanks (':' :: cs) = ':' :: cs := rfl
  rcases dropWhile_isNameChar_of_isGap hg (':' :: cs) with h | rfl
  · rw [h, skipBlanks_of_isGap hg, hcolon]
  · exact hcolon

namespace Reader

theorem readParam_identifier {gap name : List Char} (hg : IsGap gap) (hn : IsIdentifier name) (cs : List Char) :
    readParam (gap ++ name ++ cs) =
      match skipBlanks (cs.dropWhile isNameChar) with
      | ':' :: rest => (Phrase.read rest).map fun p => (name ++ cs.takeWhile isNameChar, p)
      | stop => .error stop := by
  have hskip := skipBlanks_identifier hg hn cs
  obtain ⟨c, ds, rfl, hc, hds⟩ := hn
  have hstart : isNameStart c = true := by simpa [isNameStart] using hc
  have hchars : ∀ d ∈ ds, isNameChar d = true := fun d hd => by simpa [isNameChar] using hds d hd
  rw [List.cons_append] at hskip
  rw [readParam, hskip]
  simp only [hstart, if_true, List.dropWhile_append_of_pos hchars, List.takeWhile_append_of_pos hchars]
  rfl

/-- **The ways of a parameter text**: no name, a name without a colon behind it, or both and then the text of a type. -/
theorem readParam_cases (cs : List Char) :
    (readParam cs = .error (skipBlanks cs) ∧ ∀ c ∈ (skipBlanks cs).head?, isNameStart c = false) ∨
    ∃ gap name gap' rest, cs = gap ++ name ++ (gap' ++ rest) ∧ IsGap gap ∧ IsIdentifier name ∧ IsGap gap' ∧
      (readParam cs = .error rest ∨
        ∃ rest', rest = ':' :: rest' ∧ readParam cs = (Phrase.read rest').map fun p => (name, p)) := by
  have hblanks : ∀ cs : List Char, cs = cs.takeWhile isBlank ++ skipBlanks cs := fun cs =>
    List.takeWhile_append_dropWhile.symm
  cases hskip : skipBlanks cs with
  | nil =>
    left
    rw [readParam, hskip]
    simp
  | cons c rest =>
    cases hc : isNameStart c with
    | false =>
      left
      rw [readParam, hskip]
      simp [hc]
    | true =>
      right
      have hname : IsIdentifier (c :: rest.takeWhile isNameChar) :=
        ⟨c, _, rfl, by simpa [isNameStart] using hc, fun d hd => by
          simpa [isNameChar] using List.all_eq_true.1 List.all_takeWhile d hd⟩
      have hcs : cs = cs.takeWhile isBlank ++ (c :: rest.takeWhile isNameChar) ++
          ((rest.dropWhile isNameChar).takeWhile isBlank ++ skipBlanks (rest.dropWhile isNameChar)) := by
        rw [← hblanks (rest.dropWhile isNameChar), List.append_assoc, List.cons_append,
          List.takeWhile_append_dropWhile, ← hskip, ← hblanks]
      refine ⟨_, _, _, _, hcs, isGap_takeWhile cs, hname, isGap_takeWhile _, ?_⟩
      rw [readParam, hskip]
      simp only [hc, if_true]
      split
      · rename_i rest' hcolon
        exact Or.inr ⟨rest', hcolon, rfl⟩
      · exact Or.inl rfl

end Reader

theorem Reader.length_le_of_readParam {cs stop : List Char} (h : readParam cs = .error stop) :
    stop.length ≤ (skipBlanks cs).length := by
  rcases readParam_cases cs with ⟨hr, -⟩ | ⟨gap, name, gap', rest, rfl, hg, hn, -, hr⟩
  · rw [Except.error.inj (h.symm.trans hr)]
  · rw [skipBlanks_identifier hg hn]
    rcases hr with hr | ⟨rest, rfl, hr⟩
    · rw [Except.error.inj (h.symm.trans hr)]
      simp only [List.length_append]
      omega
    · have := Progress.length_stop_le Progress.start rest
      have := length_skipBlanks_le rest
      rw [← Progress.stop_eq_of_map_eq_error (hr.symm.trans h)]
      simp only [List.length_append, List.length_cons]
      omega

theorem derives_bool : Derives [.plain .bool] (.plain .bool) := .plain .bool

theorem Form.derives_param_append {xs ys : List Piece} (h : Form.Derives .param (xs ++ ys)) : xs = [] ∨
    ∃ name, IsIdentifier name ∧ (xs = [.name name] ∨
      ∃ ts us p, xs = .name name :: .colon :: ts.map .token ∧ AbiTypes.Derives (ts ++ us) p) := by
  generalize hzs : xs ++ ys = zs at h
  cases h with
  | @param name ts p hn h =>
    rcases List.append_eq_cons_iff.1 hzs with ⟨rfl, -⟩ | ⟨xs, rfl, hxs⟩
    · exact Or.inl rfl
    · refine Or.inr ⟨name, hn, ?_⟩
      rcases List.append_eq_cons_iff.1 hxs.symm with ⟨rfl, -⟩ | ⟨zs, rfl, hmap⟩
      · exact Or.inl rfl
      · obtain ⟨ts, us, rfl, rfl, rfl⟩ := List.map_eq_append_iff.1 hmap
        exact Or.inr ⟨ts, us, p, rfl, h⟩

/-! ## The stop of a refused text -/

namespace Form

/-- The reader of a form refuses a text from where `stop` is left. -/
def Refuses (form : Form) (cs stop : List Char) : Prop :=
  match form with
  | .signature => Phrase.read cs = .error stop
  | .param => Reader.readParam cs = .error stop

theorem Refuses.read_eq [Reader.Stack] {form : Form} {text : String} {stop : List Char}
    (h : form.Refuses text.toList stop) :
    form.read text = .error (.malformed form text (Reader.column text.toList stop)) := by
  cases form with
  | signature =>
    have hs : Phrase.read text.toList = .error stop := h
    rw [read, Ty.read, hs]
    rfl
  | param =>
    have hs : Reader.readParam text.toList = .error stop := h
    rw [read, Field.read, hs]
    rfl

theorem exists_refuses {form : Form} {cs : List Char} (h : ¬ form.Spells cs) : ∃ stop, form.Refuses cs stop := by
  cases form with
  | signature =>
    cases hr : Phrase.read cs with
    | error stop => exact ⟨stop, hr⟩
    | ok p =>
      obtain ⟨ts, hl, hd⟩ := Phrase.read_eq_ok_iff.1 hr
      exact absurd ⟨_, cut_map_token_iff.2 hl, .signature hd⟩ h
  | param =>
    rcases Reader.readParam_cases cs with ⟨hr, -⟩ | ⟨gap, name, gap', rest, rfl, hg, hn, hg', hr⟩
    · exact ⟨_, hr⟩
    rcases hr with hr | ⟨rest, rfl, hr⟩
    · exact ⟨_, hr⟩
    cases hp : Phrase.read rest with
    | error stop =>
      rw [hp] at hr
      exact ⟨stop, hr⟩
    | ok p =>
      obtain ⟨ts, hl, hd⟩ := Phrase.read_eq_ok_iff.1 hp
      have hcut := Cut.piece hg (.name name) (.piece hg' .colon (cut_map_token_iff.2 hl))
      rw [Piece.spell, Piece.spell, List.append_assoc gap' [':'], List.singleton_append] at hcut
      exact absurd ⟨_, hcut, .param hn hd⟩ h

theorem viable_signature_stop (cs : List Char) : ∃ pre ts us p, cs = pre ++ Reader.Progress.start.stop cs ∧
    Layout pre ts ∧ AbiTypes.Derives (ts ++ us) p := by
  obtain ⟨pre, ts, r, hcs, hl, hp, hr⟩ := Reader.Progress.start.exists_layout_stop cs
  obtain ⟨us, p, hus, hpus⟩ := r.exists_completion
  refine ⟨pre, ts, us, p, hcs, hl, Reader.Progress.derives_of_foldlM ?_ ?_⟩
  · rw [Reader.Progress.foldlM_bind hr, hus]
  · exact fun t ht => (List.mem_append.1 ht).elim (hp t) (hpus t)

/-- **The text before a stop is viable.** -/
theorem Refuses.viable {form : Form} {cs stop : List Char} (h : form.Refuses cs stop) :
    ∃ pre, cs = pre ++ stop ∧ form.Viable pre := by
  cases form with
  | signature =>
    obtain ⟨pre, ts, us, p, hcs, hl, hd⟩ := viable_signature_stop cs
    rw [Reader.Progress.stop_eq_of_read_eq_error h] at hcs
    refine ⟨pre, hcs, ts.map .token, us.map .token, cut_map_token_iff.2 hl, ?_⟩
    rw [← List.map_append]
    exact .signature hd
  | param =>
    have hr : Reader.readParam cs = .error stop := h
    have hname : IsIdentifier ['a'] := ⟨'a', [], rfl, Or.inl rfl, nofun⟩
    rcases Reader.readParam_cases cs with ⟨hr', -⟩ | ⟨gap, name, gap', rest, rfl, hg, hn, hg', hr'⟩
    · obtain rfl := Except.error.inj (hr.symm.trans hr')
      exact ⟨_, List.takeWhile_append_dropWhile.symm, [], _, .done (isGap_takeWhile cs), .param hname derives_bool⟩
    rcases hr' with hr' | ⟨rest', rfl, hr'⟩
    · obtain rfl := Except.error.inj (hr.symm.trans hr')
      exact ⟨gap ++ name ++ gap', by simp, [.name name], _, .piece hg (.name name) (.done hg'),
        .param hn derives_bool⟩
    · rw [hr'] at hr
      obtain ⟨pre, ts, us, p, hcs, hl, hd⟩ := viable_signature_stop rest'
      rw [Reader.Progress.stop_eq_of_map_eq_error hr] at hcs
      refine ⟨gap ++ name ++ (gap' ++ [':'] ++ pre), by rw [hcs]; simp, .name name :: .colon :: ts.map .token,
        us.map .token, .piece hg (.name name) (.piece hg' .colon (cut_map_token_iff.2 hl)), ?_⟩
      rw [List.cons_append, List.cons_append, ← List.map_append]
      exact .param hn hd

/-- **No viable beginning goes beyond the stop.** -/
theorem Refuses.length_le {form : Form} {pre rest stop : List Char} (h : form.Refuses (pre ++ rest) stop)
    (hv : form.Viable pre) : stop.length ≤ rest.length := by
  obtain ⟨xs, ys, hcut, hd⟩ := hv
  cases form with
  | signature =>
    generalize hzs : xs ++ ys = zs at hd
    cases hd with
    | @signature ts p hd =>
      obtain ⟨ts, us, rfl, rfl, rfl⟩ := List.map_eq_append_iff.1 hzs.symm
      obtain ⟨⟨q, hq⟩, hp, ha⟩ := Reader.Progress.exists_foldlM_of_derives hd
      rw [← Reader.Progress.stop_eq_of_read_eq_error h]
      exact Reader.Progress.length_stop_le_of_layout (cut_map_token_iff.1 hcut) hp ha rest hq
  | param =>
    have hr : Reader.readParam (pre ++ rest) = .error stop := h
    rcases derives_param_append hd with rfl | ⟨name, hn, rfl | ⟨ts, us, p, rfl, hts⟩⟩
    · cases hcut with
      | done hg =>
        have hle := Reader.length_le_of_readParam hr
        rw [skipBlanks_of_isGap hg] at hle
        exact hle.trans (length_skipBlanks_le rest)
    · rcases hcut with _ | ⟨hg, -, hcut⟩
      cases hcut with
      | done hg' =>
        rw [Piece.spell, List.append_assoc _ _ rest, Reader.readParam_identifier hg hn] at hr
        have hle := length_skipBlanks_dropWhile_le hg' rest
        split at hr
        · rename_i rest' hcolon
          have := Reader.Progress.length_stop_le Reader.Progress.start rest'
          have := length_skipBlanks_le rest'
          rw [← Reader.Progress.stop_eq_of_map_eq_error hr]
          rw [hcolon, List.length_cons] at hle
          omega
        · rw [← Except.error.inj hr]
          exact hle
    · rcases hcut with _ | ⟨hg, -, hcut⟩
      rcases hcut with _ | ⟨hg', -, hcut⟩
      obtain ⟨⟨q, hq⟩, hp, ha⟩ := Reader.Progress.exists_foldlM_of_derives hts
      rw [Piece.spell, Piece.spell, List.append_assoc _ (_ ++ _) rest, Reader.readParam_identifier hg hn,
        List.append_assoc, List.append_assoc, List.singleton_append, skipBlanks_dropWhile_colon hg'] at hr
      rw [← Reader.Progress.stop_eq_of_map_eq_error hr]
      exact Reader.Progress.length_stop_le_of_layout (cut_map_token_iff.1 hcut) hp ha rest hq

theorem column_eq_columnAfter (pre stop : List Char) :
    Reader.column (pre ++ stop) stop = columnAfter (pre ++ stop) pre.length := by
  have hlen : pre.length = (pre ++ stop).length ↔ stop = [] := by
    rw [List.length_append, ← List.length_eq_zero_iff]
    omega
  rw [Reader.column, columnAfter]
  by_cases h : stop = []
  · rw [if_pos (by rw [h]; rfl), if_pos (hlen.2 h)]
  · rw [if_neg (by simpa using h), if_neg (fun he => h (hlen.1 he)), List.length_append, Nat.add_sub_cancel]

/-- **The column of a refused text** is that of its longest viable beginning: a text that is not grammatical is refused
as malformed, behind the longest beginning that is whole tokens and blanks and that some grammatical text could start
with. -/
theorem read_eq_malformed_of_not_spells [Reader.Stack] {form : Form} {text : String} (h : ¬ form.Spells text.toList) :
    ∃ n, IsGreatest {k | k ≤ text.toList.length ∧ form.Viable (text.toList.take k)} n ∧
      let fault := Fault.malformed form text (columnAfter text.toList n)
      form.read text = .error fault ∧ fault.class? = some .invalidData ∧
      fault.message = "Invalid " ++ form.word ++ " " ++ Text.quoted text ++ " at column "
        ++ String.ofList (Text.decimalInt (columnAfter text.toList n)) := by
  obtain ⟨stop, hs⟩ := exists_refuses h
  obtain ⟨pre, hcs, hv⟩ := hs.viable
  refine ⟨pre.length, ⟨⟨by rw [hcs]; simp, by rwa [hcs, List.take_left]⟩, ?_⟩, ?_, rfl, rfl⟩
  · rintro k ⟨hk, hvk⟩
    rw [← List.take_append_drop k text.toList] at hs
    have hle := hs.length_le hvk
    have hlen := congrArg List.length hcs
    rw [List.length_append] at hlen
    rw [List.length_drop] at hle
    omega
  · rw [hs.read_eq, hcs, column_eq_columnAfter]

theorem read_eq_malformed_of_not_spells_bracket :
    let text := "to : map(uint08,\n (bool] , cell)"
    ¬ Form.param.Spells text.toList ∧
    ∃ n, IsGreatest {k | k ≤ text.toList.length ∧ Form.param.Viable (text.toList.take k)} n ∧
      columnAfter text.toList n = 7 := by
  intro text
  have hr : Reader.readParam "to : map(uint08,\n (bool] , cell)".toList = .error "] , cell)".toList := by rfl
  have hs : Form.param.Refuses text.toList "] , cell)".toList := hr
  have h : ¬ Form.param.Spells text.toList := fun ⟨xs, hcut, hd⟩ => by
    rw [← List.append_nil text.toList] at hs
    exact absurd (hs.length_le ⟨xs, [], hcut, by rwa [List.append_nil]⟩) (by decide)
  obtain ⟨n, hn, hread, -⟩ := read_eq_malformed_of_not_spells h
  have hcolumn : Reader.column text.toList "] , cell)".toList = 7 := by decide
  rw [hs.read_eq, hcolumn] at hread
  exact ⟨h, n, hn, (Fault.malformed.inj (Except.error.inj hread)).2.2.symm⟩

end Form

end AbiTypes
