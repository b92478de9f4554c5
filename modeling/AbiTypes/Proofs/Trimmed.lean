import AbiTypes.Proofs.RoundTrip
import AbiTypes.Proofs.Zeros
/-!
# Trimmed — tokens up to zeros

A token trimmed has its number in canonical form.  Tokens that are a phrase's but for zeros are a phrase's, of the same
shape (`Phrase.WellFormed.exists_tokens_eq`), and the two phrases stand for the same descriptor
(`Phrase.type_eq_of_map_trimmed`), whose own tokens are the trimmed ones (`Phrase.tokens_phrase_type`).
-/
namespace AbiTypes

namespace Token

/-- The token with its number in canonical form. -/
def trimmed : Token → Token
  | .sized s ds => .sized s (Text.decimal (Text.ofDecimal ds))
  | .number ds => .number (Text.decimal (Text.ofDecimal ds))
  | t => t

/-- **The same token, with zeros added in front of its number.** -/
inductive Padded : Token → Token → Prop
  | same (t : Token) : Padded t t
  | sized (s : Sized) (k : Nat) (ds : List Char) : Padded (.sized s ds) (.sized s (List.replicate k '0' ++ ds))
  | number (k : Nat) (ds : List Char) : Padded (.number ds) (.number (List.replicate k '0' ++ ds))

theorem Padded.trimmed_eq {t u : Token} (h : Padded t u) : u.trimmed = t.trimmed := by
  cases h with
  | same => rfl
  | sized s k ds => rw [trimmed, trimmed, ofDecimal_replicate_append]
  | number k ds => rw [trimmed, trimmed, ofDecimal_replicate_append]

theorem Padded.isProper {t u : Token} (h : Padded t u) (ht : t.IsProper) : u.IsProper := by
  have hzeros : ∀ {k : Nat} {ds : List Char}, IsNumeral ds → IsNumeral (List.replicate k '0' ++ ds) :=
    fun ⟨hne, hd⟩ => ⟨by simp [hne], fun c hc => (List.mem_append.1 hc).elim
      (fun hc => (List.eq_of_mem_replicate hc).symm ▸ rfl) (hd c)⟩
  cases h with
  | same => exact ht
  | sized s k ds =>
    rintro _ ⟨⟩
    exact hzeros (ht ds rfl)
  | number k ds =>
    rintro _ ⟨⟩
    exact hzeros (ht ds rfl)

theorem isProper_of_forall₂ : ∀ {ts us : List Token}, List.Forall₂ Padded ts us → (∀ t ∈ ts, t.IsProper) →
    ∀ u ∈ us, u.IsProper
  | [], [], .nil, _ => nofun
  | _ :: _, _ :: _, .cons h hs, ht => by
    obtain ⟨ht, hts⟩ := List.forall_mem_cons.1 ht
    exact List.forall_mem_cons.2 ⟨h.isProper ht, isProper_of_forall₂ hs hts⟩

theorem map_trimmed_of_forall₂ : ∀ {ts us : List Token}, List.Forall₂ Padded ts us →
    us.map trimmed = ts.map trimmed
  | [], [], .nil => rfl
  | _ :: _, _ :: _, .cons h hs => by
    rw [List.map_cons, List.map_cons, h.trimmed_eq, map_trimmed_of_forall₂ hs]

theorem trimmed_eq_iff {t u : Token} (ht : t.digits? = none) : u.trimmed = t ↔ u = t := by
  constructor
  · rintro rfl
    cases u with
    | sized s ds => cases ht
    | number ds => cases ht
    | _ => rfl
  · rintro rfl
    cases u with
    | sized s ds => cases ht
    | number ds => cases ht
    | _ => rfl

theorem eq_sized_of_trimmed {u : Token} {s : Sized} {ds : List Char} (h : u.trimmed = .sized s ds) :
    ∃ es, u = .sized s es := by
  cases u with
  | sized s' es =>
    injection h with hs
    exact ⟨es, by rw [hs]⟩
  | _ => cases h

theorem eq_number_of_trimmed {u : Token} {ds : List Char} (h : u.trimmed = .number ds) : ∃ es, u = .number es := by
  cases u with
  | number es => exact ⟨es, rfl⟩
  | _ => cases h

theorem map_trimmed_eq_append_iff {ts us vs : List Token} : ts.map trimmed = (us ++ vs).map trimmed ↔
    ∃ us' vs', ts = us' ++ vs' ∧ us'.map trimmed = us.map trimmed ∧ vs'.map trimmed = vs.map trimmed := by
  rw [List.map_append, List.map_eq_append_iff]

theorem map_trimmed_eq_cons_iff {t : Token} {ts us : List Token} (ht : t.digits? = none) :
    ts.map trimmed = (t :: us).map trimmed ↔ ∃ us', ts = t :: us' ∧ us'.map trimmed = us.map trimmed := by
  rw [List.map_cons, List.map_eq_cons_iff, (trimmed_eq_iff ht).2 rfl]
  constructor
  · rintro ⟨u, us', rfl, hu, hus⟩
    exact ⟨us', by rw [(trimmed_eq_iff ht).1 hu], hus⟩
  · rintro ⟨us', rfl, hus⟩
    exact ⟨t, us', rfl, (trimmed_eq_iff ht).2 rfl, hus⟩

theorem digits?_trimmed (t : Token) :
    t.trimmed.digits? = t.digits?.map fun ds => Text.decimal (Text.ofDecimal ds) := by
  cases t <;> rfl

theorem trimmed_trimmed (t : Token) : t.trimmed.trimmed = t.trimmed := by
  cases t <;> simp [trimmed, Text.ofDecimal_decimal]

theorem isProper_trimmed (t : Token) : t.trimmed.IsProper := by
  intro ds hd
  rw [digits?_trimmed] at hd
  obtain ⟨ds, -, rfl⟩ := Option.map_eq_some_iff.1 hd
  exact isNumeral_decimal _

end Token

namespace Ty

theorem fieldPhrases_mapIdx (f : Nat → String) (ts : List Ty) :
    fieldPhrases (ts.mapIdx fun i t => ⟨f i, t⟩) = ts.map phrase := by
  have h := congrArg (List.map phrase) (children_tuple_mapIdx f ts)
  rw [children, List.map_map] at h
  rw [fieldPhrases_eq_map, ← h]
  rfl

end Ty

namespace Phrase

mutual

/-- **The descriptor of a phrase is written with the phrase's tokens**, their numbers in canonical form. -/
theorem tokens_phrase_type : ∀ p : Phrase, p.type.phrase.tokens = p.tokens.map Token.trimmed
  | .plain _ => rfl
  | .sized _ _ => rfl
  | .tuple ps => by
    rw [type, Ty.phrase, Ty.fieldPhrases_mapIdx, tokens, itemTokens_phrase_type ps, tokens]
    rfl
  | .array e => by simp [type, Ty.phrase, tokens, tokens_phrase_type e, Token.trimmed]
  | .fixedArray e ds => by simp [type, Ty.phrase, tokens, tokens_phrase_type e, Token.trimmed]
  | .map k v => by simp [type, Ty.phrase, tokens, tokens_phrase_type k, tokens_phrase_type v, Token.trimmed]

theorem itemTokens_phrase_type : ∀ ps : List Phrase,
    itemTokens ((itemTypes ps).map Ty.phrase) = (itemTokens ps).map Token.trimmed
  | [] => rfl
  | [p] => by simp [itemTypes, itemTokens, tokens_phrase_type p, Token.trimmed]
  | p :: q :: ps => by
    have ih := itemTokens_phrase_type (q :: ps)
    rw [itemTypes, List.map_cons] at ih
    rw [itemTypes, itemTypes, List.map_cons, List.map_cons, itemTokens, ih, tokens_phrase_type p, itemTokens]
    simp [Token.trimmed]

end

open Token in
theorem exists_itemTokens_eq : ∀ {ps : List Phrase}, ps ≠ [] →
    (∀ p ∈ ps, ∀ {ts : List Token}, ts.map trimmed = p.tokens.map trimmed → (∀ t ∈ ts, t.IsProper) →
      ∃ q : Phrase, q.tokens = ts ∧ q.WellFormed) →
    ∀ {ts : List Token}, ts.map trimmed = (itemTokens ps).map trimmed → (∀ t ∈ ts, t.IsProper) →
      ∃ qs, itemTokens qs = ts ∧ qs ≠ [] ∧ ∀ q ∈ qs, q.WellFormed
  | [], hne, _, _, _, _ => absurd rfl hne
  | [p], _, h, ts, he, ht => by
    obtain ⟨us, vs, rfl, hu, hv⟩ := map_trimmed_eq_append_iff.1 he
    obtain ⟨vs, rfl, hnil⟩ := (map_trimmed_eq_cons_iff rfl).1 hv
    obtain rfl := List.map_eq_nil_iff.1 hnil
    obtain ⟨q, rfl, hq⟩ := h p (by simp) hu fun t htu => ht t (by simp [htu])
    exact ⟨[q], rfl, by simp, by simpa using hq⟩
  | p :: p' :: ps, _, h, ts, he, ht => by
    obtain ⟨us, vs, rfl, hu, hv⟩ := map_trimmed_eq_append_iff.1 he
    obtain ⟨vs, rfl, hvs⟩ := (map_trimmed_eq_cons_iff rfl).1 hv
    obtain ⟨hp, hps⟩ := List.forall_mem_cons.1 h
    obtain ⟨q, rfl, hq⟩ := hp hu fun t htu => ht t (by simp [htu])
    obtain ⟨qs, rfl, hne, hqs⟩ :=
      exists_itemTokens_eq (List.cons_ne_nil p' ps) hps hvs fun t htv => ht t (by simp [htv])
    obtain ⟨q', qs, rfl⟩ := List.exists_cons_of_ne_nil hne
    exact ⟨q :: q' :: qs, rfl, by simp, List.forall_mem_cons.2 ⟨hq, hqs⟩⟩

open Token in
/-- **Tokens that are a phrase's but for zeros are a phrase's.** -/
theorem WellFormed.exists_tokens_eq {p : Phrase} (h : p.WellFormed) : ∀ {ts : List Token},
    ts.map trimmed = p.tokens.map trimmed → (∀ t ∈ ts, t.IsProper) → ∃ q : Phrase, q.tokens = ts ∧ q.WellFormed := by
  induction h with
  | plain p =>
    intro ts he _
    obtain ⟨us, rfl, hnil⟩ := (map_trimmed_eq_cons_iff rfl).1 he
    obtain rfl := List.map_eq_nil_iff.1 hnil
    exact ⟨.plain p, rfl, .plain p⟩
  | sized s hd =>
    intro ts he ht
    obtain ⟨t, rfl, hsized⟩ := List.map_eq_singleton_iff.1 he
    obtain ⟨es, rfl⟩ := eq_sized_of_trimmed hsized
    exact ⟨.sized s es, rfl, .sized s (ht (.sized s es) (by simp) es rfl)⟩
  | tuple hne _ ih =>
    intro ts he ht
    obtain ⟨us, rfl, hu⟩ := (map_trimmed_eq_cons_iff rfl).1 he
    obtain ⟨qs, rfl, hne, hqs⟩ := exists_itemTokens_eq hne ih hu fun t htu => ht t (by simp [htu])
    exact ⟨.tuple qs, rfl, .tuple hne hqs⟩
  | array _ ih =>
    intro ts he ht
    obtain ⟨us, vs, rfl, hu, hv⟩ := map_trimmed_eq_append_iff.1 he
    obtain ⟨vs, rfl, hclose⟩ := (map_trimmed_eq_cons_iff rfl).1 hv
    obtain ⟨vs, rfl, hnil⟩ := (map_trimmed_eq_cons_iff rfl).1 hclose
    obtain rfl := List.map_eq_nil_iff.1 hnil
    obtain ⟨q, rfl, hq⟩ := ih hu fun t htu => ht t (by simp [htu])
    exact ⟨.array q, rfl, .array hq⟩
  | fixedArray _ hd ih =>
    intro ts he ht
    obtain ⟨us, vs, rfl, hu, hv⟩ := map_trimmed_eq_append_iff.1 he
    obtain ⟨vs, rfl, hsize⟩ := (map_trimmed_eq_cons_iff rfl).1 hv
    obtain ⟨n, vs, rfl, hn, hclose⟩ := List.map_eq_cons_iff.1 hsize
    obtain ⟨vs, rfl, hnil⟩ := (map_trimmed_eq_cons_iff rfl).1 hclose
    obtain rfl := List.map_eq_nil_iff.1 hnil
    obtain ⟨q, rfl, hq⟩ := ih hu fun t htu => ht t (by simp [htu])
    obtain ⟨es, rfl⟩ := eq_number_of_trimmed hn
    exact ⟨.fixedArray q es, rfl, .fixedArray hq (ht (.number es) (by simp) es rfl)⟩
  | map _ _ ihk ihv =>
    intro ts he ht
    rw [tokens, List.append_assoc, List.cons_append, List.cons_append] at he
    obtain ⟨us, rfl, hopen⟩ := (map_trimmed_eq_cons_iff rfl).1 he
    obtain ⟨us, rfl, hkey⟩ := (map_trimmed_eq_cons_iff rfl).1 hopen
    obtain ⟨us, vs, rfl, hu, hcomma⟩ := map_trimmed_eq_append_iff.1 hkey
    obtain ⟨vs, rfl, hvalue⟩ := (map_trimmed_eq_cons_iff rfl).1 hcomma
    obtain ⟨vs, ws, rfl, hv, hclose⟩ := map_trimmed_eq_append_iff.1 hvalue
    obtain ⟨ws, rfl, hnil⟩ := (map_trimmed_eq_cons_iff rfl).1 hclose
    obtain rfl := List.map_eq_nil_iff.1 hnil
    obtain ⟨k, rfl, hk⟩ := ihk hu fun t htu => ht t (by simp [htu])
    obtain ⟨v, rfl, hv'⟩ := ihv hv fun t htv => ht t (by simp [htv])
    exact ⟨.map k v, by simp [tokens], .map hk hv'⟩

theorem type_phrase_type (p : Phrase) : p.type.phrase.type = p.type := by
  induction p with
  | plain p => rfl
  | sized s ds => rw [type, Ty.phrase, type, Text.ofDecimal_decimal]
  | tuple ps ih =>
    have h : ((ps.map type).map Ty.phrase).map type = ps.map type := by
      rw [List.map_map, List.map_map]
      exact List.map_congr_left ih
    rw [type, Ty.phrase, Ty.fieldPhrases_mapIdx, type, itemTypes_eq_map, itemTypes_eq_map, h]
  | array e ih => rw [type, Ty.phrase, type, ih]
  | fixedArray e ds ih => rw [type, Ty.phrase, type, ih, Text.ofDecimal_decimal]
  | map k v ihk ihv => rw [type, Ty.phrase, type, ihk, ihv]

mutual

theorem nesting_phrase_type : ∀ p : Phrase, p.type.phrase.nesting = p.nesting
  | .plain _ => rfl
  | .sized _ _ => rfl
  | .tuple ps => by rw [type, Ty.phrase, Ty.fieldPhrases_mapIdx, nesting, itemNesting_phrase_type ps, nesting]
  | .array e => by rw [type, Ty.phrase, nesting, nesting_phrase_type e, nesting]
  | .fixedArray e ds => by rw [type, Ty.phrase, nesting, nesting_phrase_type e, nesting]
  | .map k v => by rw [type, Ty.phrase, nesting, nesting_phrase_type k, nesting_phrase_type v, nesting]

theorem itemNesting_phrase_type : ∀ ps : List Phrase, itemNesting ((itemTypes ps).map Ty.phrase) = itemNesting ps
  | [] => rfl
  | p :: ps => by
    rw [itemTypes, List.map_cons, itemNesting, nesting_phrase_type p, itemNesting_phrase_type ps, itemNesting]

end

theorem type_eq_of_map_trimmed {p q : Phrase} (h : q.tokens.map Token.trimmed = p.tokens.map Token.trimmed) :
    q.type = p.type ∧ q.nesting = p.nesting := by
  have hphrase : q.type.phrase = p.type.phrase := tokens_injective (by rw [tokens_phrase_type, h, tokens_phrase_type])
  refine ⟨?_, ?_⟩
  · rw [← type_phrase_type q, hphrase, type_phrase_type]
  · rw [← nesting_phrase_type q, hphrase, nesting_phrase_type]

section Written

variable {p : Phrase} (hp : p.WellFormed)
include hp

theorem WellFormed.length_digits_trimmed (hd : ∀ ds ∈ p.numerals, ds.length ≤ Text.digitLimit) :
    ∀ t ∈ p.tokens.map Token.trimmed, ∀ ds ∈ t.digits?, ds.length ≤ Text.digitLimit := by
  intro t ht ds hds
  obtain ⟨u, hu, rfl⟩ := List.mem_map.1 ht
  rw [Token.digits?_trimmed] at hds
  obtain ⟨es, hes, rfl⟩ := Option.map_eq_some_iff.1 hds
  have hmem : es ∈ p.numerals := p.filterMap_digits?_tokens ▸ List.mem_filterMap.2 ⟨u, hu, hes⟩
  exact Nat.le_trans (length_decimal_ofDecimal_le (hp.isNumeral es hmem)) (hd es hmem)

/-- **What can be read can be written.** -/
theorem WellFormed.isWritable_type (hd : ∀ ds ∈ p.numerals, ds.length ≤ Text.digitLimit) : p.type.IsWritable := by
  intro n hn
  have hmem : Text.decimal n ∈ p.type.phrase.numerals := Ty.mem_numerals_phrase_iff.2 ⟨n, hn, rfl⟩
  rw [← filterMap_digits?_tokens, tokens_phrase_type] at hmem
  obtain ⟨t, ht, hds⟩ := List.mem_filterMap.1 hmem
  exact hp.length_digits_trimmed hd t ht _ hds

theorem WellFormed.depth_type : p.type.depth = p.nesting + 1 := by
  rw [← Ty.nesting_phrase hp.empty_notMem_nodes, nesting_phrase_type]

end Written

end Phrase

namespace Ty

variable [Reader.Stack] {text : String} {t : Ty} (h : (Ty.read text).outcome = .ok t)
include h

theorem isWritable_of_read : t.IsWritable := by
  obtain ⟨p, hs, hr, rfl⟩ := read_eq_ok_iff.1 h
  exact hs.wellFormed.isWritable_type hr.2

theorem print_of_read : t.print = .ok t.signature := print_eq_ok_iff.2 ⟨isWritable_of_read h, rfl⟩

theorem depth_of_read : t.depth ≤ Reader.Stack.levels + 1 := by
  obtain ⟨p, hs, hr, rfl⟩ := read_eq_ok_iff.1 h
  rw [hs.wellFormed.depth_type]
  exact Nat.succ_le_succ hr.1

end Ty

end AbiTypes
