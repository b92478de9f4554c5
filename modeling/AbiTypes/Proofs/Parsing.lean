import AbiTypes.Proofs.Lexing
/-!
# Parsing — the phrases of a list of tokens

A progress stands for the tokens read so far (`Progress.tokens`), and a step adds its token to them, so what a run has
read when it ends is its phrase's tokens.  The other way round, a phrase's tokens lead from a wanted type to that phrase,
whatever stands open around it (`Phrase.foldlM_tokens`).  Together: **a text is read as a phrase exactly if it spells it**
(`Phrase.read_eq_ok_iff`).
-/
namespace AbiTypes

theorem Phrase.itemTokens_append_singleton (p : Phrase) (ps : List Phrase) :
    itemTokens (ps ++ [p]) = ps.flatMap (fun q => q.tokens ++ [.comma]) ++ p.tokens ++ [.rparen] := by
  induction ps with
  | nil => rfl
  | cons q ps ih =>
    cases ps with
    | nil => simp [itemTokens]
    | cons r ps =>
      rw [List.cons_append] at ih
      rw [List.cons_append, List.cons_append, itemTokens, ih]
      simp

namespace Reader

/-- The tokens that opened a frame, and those of what was read in it. -/
def Frame.tokens : Frame → List Token
  | .tuple ps => .lparen :: ps.reverse.flatMap fun p => p.tokens ++ [.comma]
  | .mapKey => [.map, .lparen]
  | .mapValue k => .map :: .lparen :: k.tokens ++ [.comma]

/-- The tokens of what is at hand. -/
def Focus.tokens : Focus → List Token
  | .wanted => []
  | .mapWord => [.map]
  | .complete p => p.tokens
  | .bracket e => e.tokens ++ [.lbracket]
  | .size e ds => e.tokens ++ [.lbracket, .number ds]

/-- The phrases read in a frame keep the grammar's rules. -/
def Frame.WellFormed : Frame → Prop
  | .tuple ps => ∀ p ∈ ps, p.WellFormed
  | .mapKey => True
  | .mapValue k => k.WellFormed

theorem Frame.WellFormed.cons {p : Phrase} {ps : List Phrase} (hp : p.WellFormed)
    (hps : Frame.WellFormed (.tuple ps)) : Frame.WellFormed (.tuple (p :: ps)) :=
  List.forall_mem_cons.2 ⟨hp, hps⟩

def Focus.WellFormed : Focus → Prop
  | .wanted | .mapWord => True
  | .complete p | .bracket p => p.WellFormed
  | .size e ds => e.WellFormed ∧ IsNumeral ds

namespace Progress

/-- **The tokens read so far.** -/
def tokens (q : Progress) : List Token := q.frames.reverse.flatMap Frame.tokens ++ q.focus.tokens

/-- Everything read so far keeps the grammar's rules. -/
def WellFormed (q : Progress) : Prop := q.focus.WellFormed ∧ ∀ f ∈ q.frames, f.WellFormed

theorem wellFormed_start : start.WellFormed := ⟨trivial, by simp [start]⟩

/-- **A step adds its token to the tokens read.** -/
theorem tokens_of_step? {q r : Progress} {t : Token} (h : q.step? t = some r) : r.tokens = q.tokens ++ [t] := by
  unfold step? at h
  split at h <;> cases h <;>
    simp [tokens, Frame.tokens, Focus.tokens, Phrase.tokens, Phrase.itemTokens_append_singleton]

/-- **A step keeps to the grammar's rules.** -/
theorem wellFormed_of_step? {q r : Progress} {t : Token} (hq : q.WellFormed) (ht : t.IsProper)
    (h : q.step? t = some r) : r.WellFormed := by
  obtain ⟨hf, hfs⟩ := hq
  unfold step? at h
  split at h <;> cases h
  case h_1 => exact ⟨.plain _, hfs⟩
  case h_2 => exact ⟨.sized _ (ht _ rfl), hfs⟩
  case h_3 => exact ⟨trivial, hfs⟩
  case h_4 => exact ⟨trivial, List.forall_mem_cons.2 ⟨by simp [Frame.WellFormed], hfs⟩⟩
  case h_5 => exact ⟨trivial, List.forall_mem_cons.2 ⟨trivial, hfs⟩⟩
  case h_6 => exact ⟨hf, hfs⟩
  case h_7 =>
    obtain ⟨hps, hfs⟩ := List.forall_mem_cons.1 hfs
    exact ⟨trivial, List.forall_mem_cons.2 ⟨.cons hf hps, hfs⟩⟩
  case h_8 => exact ⟨trivial, List.forall_mem_cons.2 ⟨hf, (List.forall_mem_cons.1 hfs).2⟩⟩
  case h_9 =>
    obtain ⟨hps, hfs⟩ := List.forall_mem_cons.1 hfs
    exact ⟨.tuple (by simp) fun q hq => Frame.WellFormed.cons hf hps q (List.mem_reverse.1 hq), hfs⟩
  case h_10 =>
    obtain ⟨hk, hfs⟩ := List.forall_mem_cons.1 hfs
    exact ⟨.map hk hf, hfs⟩
  case h_11 => exact ⟨.array hf, hfs⟩
  case h_12 => exact ⟨⟨hf, ht _ rfl⟩, hfs⟩
  case h_13 => exact ⟨.fixedArray hf.1 hf.2, hfs⟩

theorem run_eq_ok_iff {r : Progress} : ∀ {ls : List Lexeme} {q : Progress},
    q.run ls = .ok r ↔ (ls.map Lexeme.token).foldlM step? q = some r
  | [], q => by simp [run]
  | l :: ls, q => by
    rw [run, List.map_cons, List.foldlM_cons]
    cases h : q.step? l.token with
    | none => simp
    | some s => simpa using run_eq_ok_iff

/-- **What a run has read**: the tokens of its start and its own, all by the grammar's rules. -/
theorem tokens_of_foldlM {r : Progress} : ∀ {ts : List Token} {q : Progress}, ts.foldlM step? q = some r →
    q.WellFormed → (∀ t ∈ ts, t.IsProper) → r.tokens = q.tokens ++ ts ∧ r.WellFormed
  | [], q, h, hq, _ => by
    obtain rfl : q = r := by simpa using h
    exact ⟨by simp, hq⟩
  | t :: ts, q, h, hq, ht => by
    rw [List.foldlM_cons] at h
    obtain ⟨s, hs, h⟩ := Option.bind_eq_some_iff.1 h
    obtain ⟨ht, hts⟩ := List.forall_mem_cons.1 ht
    obtain ⟨he, hr⟩ := tokens_of_foldlM h (wellFormed_of_step? hq ht hs) hts
    exact ⟨by rw [he, tokens_of_step? hs]; simp, hr⟩

/-! ## From tokens to phrases

Reading refuses a tuple without items.  Whether the tokens of two phrases can be the same is a question about all
phrases, so the way from tokens to phrases is followed with that step added as well (`advance true`). -/

/-- A tuple closed without items. -/
def closeEmpty? : Progress → Token → Option Progress
  | ⟨.wanted, .tuple [] :: fs⟩, .rparen => some ⟨.complete (.tuple []), fs⟩
  | _, _ => none

/-- **One more token**, where a tuple may be without items if `empties` is set. -/
def advance (empties : Bool) (q : Progress) (t : Token) : Option Progress :=
  (q.step? t).or (if empties then q.closeEmpty? t else none)

theorem advance_false : advance false = step? := by
  funext q t
  exact Option.or_none

theorem foldlM_advance_cons {e : Bool} {q r : Progress} {t : Token} (ts : List Token) (h : q.step? t = some r) :
    (t :: ts).foldlM (advance e) q = ts.foldlM (advance e) r := by
  rw [List.foldlM_cons, advance, h]
  rfl

theorem eq_rparen_of_closeEmpty? {q r : Progress} {t : Token} (h : q.closeEmpty? t = some r) :
    t = .rparen ∧ r.focus = .complete (.tuple []) := by
  unfold closeEmpty? at h
  split at h <;> cases h
  exact ⟨rfl, rfl⟩

theorem focus_of_step?_number {q r : Progress} {ds : List Char} (h : q.step? (.number ds) = some r) :
    ∃ p, q.focus = .bracket p := by
  obtain ⟨focus, fs⟩ := q
  cases focus with
  | bracket p => exact ⟨p, rfl⟩
  | _ => cases h

theorem eq_lbracket_of_step? {q r : Progress} {t : Token} {p : Phrase} (h : q.step? t = some r)
    (hr : r.focus = .bracket p) : t = .lbracket := by
  unfold step? at h
  split at h <;> cases h <;> first | rfl | cases hr

theorem eq_lbracket_of_advance {e : Bool} {q r s : Progress} {t : Token} {ds : List Char}
    (ht : q.advance e t = some r) (hn : r.advance e (.number ds) = some s) : t = .lbracket := by
  have hclose : ∀ {q r : Progress} {t : Token}, (if e then q.closeEmpty? t else none) = some r →
      t = .rparen ∧ r.focus = .complete (.tuple []) := fun {q r t} h => by
    cases e with
    | false => cases h
    | true => exact eq_rparen_of_closeEmpty? h
  rcases Option.or_eq_some_iff.1 hn with h | ⟨-, h⟩
  · obtain ⟨p, hp⟩ := focus_of_step?_number h
    rcases Option.or_eq_some_iff.1 ht with h | ⟨-, h⟩
    · exact eq_lbracket_of_step? h hp
    · rw [(hclose h).2] at hp
      cases hp
  · cases (hclose h).1

/-- **The tokens of a run are apart**: every number among them comes after an opening bracket. -/
theorem isChain_of_foldlM {e : Bool} {r : Progress} : ∀ {ts : List Token} {q : Progress},
    ts.foldlM (advance e) q = some r → ts.IsChain Token.Apart
  | [], _, _ => .nil
  | [t], _, _ => .singleton t
  | t :: u :: ts, q, h => by
    rw [List.foldlM_cons] at h
    obtain ⟨s, hs, h⟩ := Option.bind_eq_some_iff.1 h
    refine List.isChain_cons_cons.2 ⟨?_, isChain_of_foldlM h⟩
    rintro ds rfl
    rw [List.foldlM_cons] at h
    obtain ⟨s', hs', -⟩ := Option.bind_eq_some_iff.1 h
    exact eq_lbracket_of_advance hs hs'

end Progress
end Reader

open Reader Progress in
theorem Phrase.foldlM_itemTokens {e : Bool} : ∀ (ps : List Phrase) (done : List Phrase) (fs : List Frame),
    ps ≠ [] → (∀ p ∈ ps, ∀ fs, p.tokens.foldlM (advance e) ⟨.wanted, fs⟩ = some ⟨.complete p, fs⟩) →
    (itemTokens ps).foldlM (advance e) ⟨.wanted, .tuple done :: fs⟩ = some ⟨.complete (.tuple (done.reverse ++ ps)), fs⟩
  | [], _, _, hne, _ => absurd rfl hne
  | [p], done, fs, _, h => by
    rw [itemTokens, List.foldlM_append, h p (by simp), Option.bind_eq_bind, Option.bind_some,
      foldlM_advance_cons [] rfl]
    simp
  | p :: q :: ps, done, fs, _, h => by
    obtain ⟨hp, hps⟩ := List.forall_mem_cons.1 h
    rw [itemTokens, List.foldlM_append, hp, Option.bind_eq_bind, Option.bind_some, foldlM_advance_cons _ rfl,
      foldlM_itemTokens (q :: ps) (p :: done) fs (by simp) hps]
    simp

open Reader Progress in
/-- **A phrase's tokens lead from a wanted type to the phrase**, whatever stands open around it; for a phrase that breaks
the rules, with empty tuples let in. -/
theorem Phrase.foldlM_tokens {e : Bool} (p : Phrase) (h : e = true ∨ p.WellFormed) (fs : List Frame) :
    p.tokens.foldlM (advance e) ⟨.wanted, fs⟩ = some ⟨.complete p, fs⟩ := by
  -- the parts of a phrase are read with more standing open than the phrase itself
  induction p generalizing fs with
  | plain p => exact foldlM_advance_cons [] rfl
  | sized s ds => exact foldlM_advance_cons [] rfl
  | tuple ps ih =>
    rw [tokens, foldlM_advance_cons _ rfl]
    by_cases hne : ps = []
    · obtain rfl : e = true := h.resolve_right fun hw => by cases hw; contradiction
      subst hne
      rfl
    · exact foldlM_itemTokens ps [] fs hne fun p hp => ih p hp (h.imp_right fun | .tuple _ hw => hw p hp)
  | array p ih =>
    rw [tokens, List.foldlM_append, ih (h.imp_right fun | .array hw => hw)]
    rfl
  | fixedArray p ds ih =>
    rw [tokens, List.foldlM_append, ih (h.imp_right fun | .fixedArray hw _ => hw)]
    rfl
  | map k v ihk ihv =>
    have hk := ihk (h.imp_right fun | .map hk _ => hk) (.mapKey :: fs)
    have hv := ihv (h.imp_right fun | .map _ hv => hv) (.mapValue k :: fs)
    calc (Phrase.map k v).tokens.foldlM (advance e) ⟨.wanted, fs⟩
        = (k.tokens ++ Token.comma :: (v.tokens ++ [Token.rparen])).foldlM (advance e) ⟨.wanted, .mapKey :: fs⟩ := by
          simp only [tokens, List.cons_append, List.append_assoc]
          rw [foldlM_advance_cons _ rfl, foldlM_advance_cons _ rfl]
      _ = (v.tokens ++ [Token.rparen]).foldlM (advance e) ⟨.wanted, .mapValue k :: fs⟩ := by
          rw [List.foldlM_append, hk, Option.bind_eq_bind, Option.bind_some, foldlM_advance_cons _ rfl]
      _ = some ⟨.complete (.map k v), fs⟩ := by
          rw [List.foldlM_append, hv]
          rfl

/-! ## Reading is the grammar -/

namespace Phrase

/-- **A phrase's tokens are its own**: no two phrases share them. -/
theorem tokens_injective : Function.Injective Phrase.tokens := fun p q h => by
  have hp := foldlM_tokens (e := true) p (Or.inl rfl) []
  rw [h, foldlM_tokens q (Or.inl rfl) []] at hp
  cases hp
  rfl

theorem isChain_tokens (p : Phrase) : p.tokens.IsChain Token.Apart :=
  Reader.Progress.isChain_of_foldlM (foldlM_tokens (e := true) p (Or.inl rfl) [])

theorem read_eq_ok_iff_run {cs : List Char} {p : Phrase} :
    Phrase.read cs = .ok p ↔ Reader.Progress.start.run (lex cs).1 = .ok ⟨.complete p, []⟩ ∧ (lex cs).2 = [] := by
  unfold Phrase.read
  split
  · rename_i h
    simp [h]
  · rename_i q h
    rw [h]
    split
    · rename_i hnil
      have hq : q.type? = some p ↔ q = ⟨.complete p, []⟩ := by
        unfold Reader.Progress.type?
        split <;> simp_all
      simp only [hnil, Except.ok.injEq, and_true, ← hq]
      cases q.type? <;> simp
    · simp_all

/-- **A text is read as a phrase exactly if it spells it.** -/
theorem read_eq_ok_iff {cs : List Char} {p : Phrase} : Phrase.read cs = .ok p ↔ Spells cs p := by
  rw [read_eq_ok_iff_run, Reader.Progress.run_eq_ok_iff]
  constructor
  · rintro ⟨hrun, hnil⟩
    obtain ⟨pre, hcs, hl, hp⟩ := layout_lex cs
    obtain rfl : cs = pre := by rw [hcs, hnil, List.append_nil]
    obtain ⟨ht, hw⟩ := Reader.Progress.tokens_of_foldlM hrun Reader.Progress.wellFormed_start
      (fun t ht => by obtain ⟨l, hl, rfl⟩ := List.mem_map.1 ht; exact hp l hl)
    exact ⟨_, hl, derives_iff.2 ⟨ht.symm, hw.1⟩⟩
  · rintro ⟨ts, hl, hd⟩
    obtain ⟨rfl, hw⟩ := derives_iff.1 hd
    obtain ⟨hts, hnil⟩ := hl.lex_eq (isProper_of_mem_tokens hw.isNumeral) (isChain_tokens p)
    rw [hts, ← Reader.Progress.advance_false]
    exact ⟨foldlM_tokens p (Or.inr hw) [], hnil⟩

end Phrase

end AbiTypes
