import AbiTypes.Command
import AbiTypes.Proofs.Trimmed
/-!
# Canonical — the canonical text of a signature

The signature of a descriptor that was read is its text without blanks and without redundant zeros.  Two facts carry
this: the characters that are no blanks are the tokens' own, and dropping zeros character by character acts on each token
by itself, for the digits of two tokens never meet.  The other way round, other blanks and more zeros change nothing that
is read.
-/
namespace AbiTypes

/-- **A text without blanks and without the redundant zeros of its digit runs.** -/
def canonicalText (text : String) : String := String.ofList (dropZeros false (text.toList.filter fun c => !isBlank c))

/-- The tokens of a text. -/
def tokensOf (text : String) : List Token := (lex text.toList).1.map Lexeme.token

namespace Token

theorem all_word (s : Sized) : s.word.all (fun c => !isBlank c && !c.isDigit) = true := by
  cases s <;> rfl

theorem all_spell {t : Token} (ht : t.digits? = none) : t.spell.all (fun c => !isBlank c && !c.isDigit) = true := by
  cases t with
  | plain p => cases p <;> rfl
  | sized s ds => cases ht
  | number ds => cases ht
  | _ => rfl

theorem isBlank_isDigit_of_all {w : List Char} (h : w.all (fun c => !isBlank c && !c.isDigit) = true) :
    ∀ c ∈ w, isBlank c = false ∧ c.isDigit = false := by
  intro c hc
  simpa using List.all_eq_true.1 h c hc

theorem isBlank_of_mem_spell {t : Token} (ht : t.IsProper) : ∀ c ∈ t.spell, isBlank c = false := by
  have hdigits : ∀ {ds : List Char}, IsNumeral ds → ∀ c ∈ ds, isBlank c = false := fun h c hc =>
    isBlank_eq_false_of_isDigit (h.2 c hc)
  intro c hc
  cases t with
  | sized s ds =>
    rcases List.mem_append.1 hc with hc | hc
    · exact (isBlank_isDigit_of_all (all_word s) c hc).1
    · exact hdigits (ht ds rfl) c hc
  | number ds => exact hdigits (ht ds rfl) c hc
  | _ => exact (isBlank_isDigit_of_all (all_spell rfl) c hc).1

end Token

theorem Layout.filter_eq {cs : List Char} {ts : List Token} (h : Layout cs ts) (hp : ∀ t ∈ ts, t.IsProper) :
    cs.filter (fun c => !isBlank c) = ts.flatMap Token.spell := by
  have hgap : ∀ {gap : List Char}, IsGap gap → gap.filter (fun c => !isBlank c) = [] := fun hg =>
    List.filter_eq_nil_iff.2 fun c hc => by simp [hg c hc]
  induction h with
  | done hg => exact hgap hg
  | token hg t h ih =>
    obtain ⟨ht, hps⟩ := List.forall_mem_cons.1 hp
    rw [List.filter_append, List.filter_append, hgap hg, ih hps, List.nil_append, List.flatMap_cons,
      List.filter_eq_self.2 fun c hc => by rw [Token.isBlank_of_mem_spell ht c hc]; rfl]

/-- **Zeros are dropped token by token.** -/
theorem dropZeros_flatMap_spell : ∀ {ts : List Token}, (∀ t ∈ ts, t.IsProper) → ts.IsChain Token.Apart →
    dropZeros false (ts.flatMap Token.spell) = (ts.map Token.trimmed).flatMap Token.spell
  | [], _, _ => rfl
  | t :: ts, hp, ha => by
    obtain ⟨ht, hps⟩ := List.forall_mem_cons.1 hp
    have ih := dropZeros_flatMap_spell hps ha.tail
    have hr := (layout_flatMap_spell ts).noDigitAhead_of_isChain hps ha
    rw [List.flatMap_cons, List.map_cons, List.flatMap_cons, ← ih]
    cases t with
    | sized s ds =>
      have hword : ∀ c ∈ s.word, c.isDigit = false := fun c hc =>
        (Token.isBlank_isDigit_of_all (Token.all_word s) c hc).2
      have hrest : NoDigitAhead (ts.flatMap Token.spell) := hr.resolve_left (by simp)
      rw [Token.spell, List.append_assoc, dropZeros_word_append hword, dropZeros_append hrest (ht ds rfl),
        Token.trimmed, Token.spell, List.append_assoc]
    | number ds => exact dropZeros_append (hr.resolve_left (by simp)) (ht ds rfl)
    | _ => exact dropZeros_word_append fun c hc => (Token.isBlank_isDigit_of_all (Token.all_spell rfl) c hc).2

theorem Phrase.read_dash (cs : List Char) : Phrase.read ('-' :: cs) = .error ('-' :: cs) := rfl

theorem Spells.tokensOf_eq {text : String} {p : Phrase} (h : Spells text.toList p) :
    tokensOf text = p.tokens ∧ Layout text.toList (tokensOf text) := by
  obtain ⟨ts, hl, hd⟩ := h
  obtain ⟨rfl, hw⟩ := derives_iff.1 hd
  have ht := (hl.lex_eq (Phrase.isProper_of_mem_tokens hw.isNumeral) p.isChain_tokens).1
  exact ⟨ht, by rw [tokensOf, ht]; exact hl⟩

theorem Spells.canonicalText_eq {text : String} {p : Phrase} (h : Spells text.toList p) :
    canonicalText text = p.type.signature := by
  obtain ⟨ts, hl, hd⟩ := h
  obtain ⟨rfl, hw⟩ := derives_iff.1 hd
  have hp := Phrase.isProper_of_mem_tokens hw.isNumeral
  rw [canonicalText, hl.filter_eq hp, dropZeros_flatMap_spell hp p.isChain_tokens, ← p.tokens_phrase_type]
  rfl

namespace Command

theorem isOption_eq_false_of_read [Reader.Stack] {text : String} {t : Ty} (h : (Ty.read text).outcome = .ok t) :
    isOption text = false := by
  unfold isOption
  split
  · rename_i c cs hcs
    rw [Ty.read, hcs, Phrase.read_dash] at h
    cases h
  · rfl

/-- **The command on a text that is read** prints the signature and ends well. -/
theorem run_signature [Reader.Stack] {text : String} {t : Ty} (h : (Ty.read text).outcome = .ok t) (place : Surroundings)
    (program : String) :
    run place program ["signature", text] = { exitCode := 0, output := t.signature ++ "\n" } := by
  have hopt := isOption_eq_false_of_read h
  have hdashes : text ≠ "--" := by
    rintro rfl
    cases hopt
  have hgroup : Scope.group.readArguments ["signature", text] = .ok ⟨[], ["signature", text]⟩ := rfl
  have hargs : Scope.signature.readArguments [text] = .ok ⟨[], [text]⟩ := by
    rw [Scope.readArguments, if_neg hdashes, hopt]
    rfl
  have hout : (signature text).outcome = .ok ⟨0, t.signature ++ "\n", []⟩ :=
    Traced.outcome_bind_eq_ok_iff.2 ⟨t, h, Traced.outcome_bind_eq_ok_iff.2 ⟨_, Ty.print_of_read h, rfl⟩⟩
  have hcommand : runCommand place program .signature [text] =
      { exitCode := 0, output := t.signature ++ "\n", log := (signature text).log } := by
    rw [runCommand, hargs]
    change Outcome.ofProduct (signature text) = _
    rw [Outcome.ofProduct, hout]
  unfold run
  rw [hgroup]
  change { runCommand place program .signature [text] with isVerbose := false, log := [] } = _
  rw [hcommand]

end Command

namespace Ty

/-- **A text whose tokens are the same but for zeros is read the same**, whatever the blanks. -/
theorem read_of_layout [Reader.Stack] {text : String} {ts : List Token} {p : Phrase} (hp : p.WellFormed) (hr : p.InReach)
    (hl : Layout text.toList ts) (ht : ∀ t ∈ ts, t.IsProper) (he : ts.map Token.trimmed = p.tokens.map Token.trimmed)
    (hd : ∀ t ∈ ts, ∀ ds ∈ t.digits?, ds.length ≤ Text.digitLimit) : (Ty.read text).outcome = .ok p.type := by
  obtain ⟨q, rfl, hq⟩ := hp.exists_tokens_eq he ht
  obtain ⟨htype, hnesting⟩ := Phrase.type_eq_of_map_trimmed he
  refine read_eq_ok_iff.2 ⟨q, ⟨_, hl, derives_iff.2 ⟨rfl, hq⟩⟩, ⟨hnesting ▸ hr.1, fun ds hds => ?_⟩, htype⟩
  rw [← q.filterMap_digits?_tokens] at hds
  obtain ⟨t, htq, hds⟩ := List.mem_filterMap.1 hds
  exact hd t htq ds hds

theorem read_canonicalText [Reader.Stack] {text : String} {p : Phrase} (hs : Spells text.toList p) (hr : p.InReach) :
    (Ty.read (canonicalText text)).outcome = .ok p.type := by
  have hl : Layout (canonicalText text).toList (p.tokens.map Token.trimmed) := by
    rw [hs.canonicalText_eq, signature, String.toList_ofList, spelled, Phrase.tokens_phrase_type]
    exact layout_flatMap_spell _
  have hp : ∀ t ∈ p.tokens.map Token.trimmed, t.IsProper := by
    intro t ht
    obtain ⟨u, -, rfl⟩ := List.mem_map.1 ht
    exact u.isProper_trimmed
  have he : (p.tokens.map Token.trimmed).map Token.trimmed = p.tokens.map Token.trimmed := by
    simp [Function.comp_def, Token.trimmed_trimmed]
  exact read_of_layout hs.wellFormed hr hl hp he (hs.wellFormed.length_digits_trimmed hr.2)

end Ty

end AbiTypes
