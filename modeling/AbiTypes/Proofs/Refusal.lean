import AbiTypes.Proofs.Viable
/-!
# Refusal — why a text is not read

A text outside the grammar is refused as malformed, whatever its nesting and its digit runs.  In the grammar, and nested
within the limit, it is refused exactly for a number of too many digits, and then for the first one of the text: building
goes bottom-up and left to right, which is the order of the tokens (`Reader.build_eq_tooManyDigits`).  Without such a
number it is refused only for its nesting (`Reader.fault_of_build`).
-/
namespace AbiTypes

/-! ## The numbers of a text -/

/-- The number that a token holds, and what it is the size of. -/
def Token.numeral? : Token → Option (Sizable × List Char)
  | .sized s ds => some (.family s, ds)
  | .number ds => some (.fixedArray, ds)
  | _ => none

/-- A number has more digits than can be read. -/
def IsOverlong (n : Sizable × List Char) : Prop := Text.digitLimit < n.2.length

instance (n : Sizable × List Char) : Decidable (IsOverlong n) := Nat.decLt _ _

/-- The fault of a number of too many digits. -/
def overlongFault (n : Sizable × List Char) : Fault := .tooManyDigits n.1.rule n.2.length

theorem Token.numeral?_eq_some_iff {t : Token} {owner : Sizable} {ds : List Char} :
    t.numeral? = some (owner, ds) ↔ (∃ s, t = .sized s ds ∧ owner = .family s) ∨ t = .number ds ∧ owner = .fixedArray := by
  cases t <;> simp [numeral?, eq_comm, and_comm]

/-- The number of a token, if it has one, can be read. -/
def Token.IsReadable (t : Token) : Prop := ∀ ds ∈ t.digits?, ds.length ≤ Text.digitLimit

theorem Token.isReadable_iff {t : Token} : t.IsReadable ↔ ∀ n ∈ t.numeral?, ¬ IsOverlong n := by
  cases t <;> simp [IsReadable, digits?, numeral?, IsOverlong]

/-- **The first overlong number of a list of tokens** is in a token behind readable ones. -/
theorem exists_append_of_find?_numeral? {ts : List Token} {n : Sizable × List Char}
    (h : (ts.filterMap Token.numeral?).find? IsOverlong = some n) :
    ∃ before t after, ts = before ++ t :: after ∧ (∀ u ∈ before, u.IsReadable) ∧ t.numeral? = some n ∧ IsOverlong n := by
  rw [List.find?_filterMap] at h
  obtain ⟨t, ht, hn⟩ := Option.bind_eq_some_iff.1 h
  obtain ⟨hlong, before, after, rfl, hbefore⟩ := List.find?_eq_some_iff_append.1 ht
  refine ⟨before, t, after, rfl, fun u hu => Token.isReadable_iff.2 fun m hm => ?_, hn, ?_⟩
  · simpa [Option.mem_def.1 hm] using hbefore u hu
  · simpa [hn] using hlong

namespace Phrase

/-- The numbers of a written type in the order of the text, each with what it is the size of. -/
def sizes (p : Phrase) : List (Sizable × List Char) := p.tokens.filterMap Token.numeral?

@[simp] theorem sizes_plain (w : Plain) : (Phrase.plain w).sizes = [] := rfl

@[simp] theorem sizes_sized (s : Sized) (ds : List Char) : (Phrase.sized s ds).sizes = [(.family s, ds)] := rfl

theorem filterMap_numeral?_itemTokens (ps : List Phrase) :
    (itemTokens ps).filterMap Token.numeral? = ps.flatMap sizes := by
  induction ps with
  | nil => rfl
  | cons p ps ih =>
    cases ps with
    | nil => simp [itemTokens, sizes, Token.numeral?]
    | cons q ps =>
      rw [itemTokens, List.filterMap_append, List.filterMap_cons, ih]
      rfl

@[simp] theorem sizes_tuple (ps : List Phrase) : (Phrase.tuple ps).sizes = ps.flatMap sizes :=
  filterMap_numeral?_itemTokens ps

@[simp] theorem sizes_array (e : Phrase) : (Phrase.array e).sizes = e.sizes := by
  simp [sizes, tokens, List.filterMap_cons, Token.numeral?]

@[simp] theorem sizes_fixedArray (e : Phrase) (ds : List Char) :
    (Phrase.fixedArray e ds).sizes = e.sizes ++ [(.fixedArray, ds)] := by
  simp [sizes, tokens, List.filterMap_cons, Token.numeral?]

@[simp] theorem sizes_map (k v : Phrase) : (Phrase.map k v).sizes = k.sizes ++ v.sizes := by
  simp [sizes, tokens, List.filterMap_cons, Token.numeral?]

/-- **The digit runs of a phrase are those of its sizes.** -/
theorem map_snd_sizes (p : Phrase) : p.sizes.map Prod.snd = p.numerals := by
  rw [← filterMap_digits?_tokens, sizes, List.map_filterMap]
  refine congrArg (List.filterMap · p.tokens) (funext fun t => ?_)
  cases t <;> rfl

end Phrase

/-! ## Which fault building ends with -/

namespace Reader

theorem number_eq_error_iff {owner : Sizable} {ds : List Char} {f : Fault} :
    (number owner ds).outcome = .error f ↔ IsOverlong (owner, ds) ∧ f = overlongFault (owner, ds) := by
  unfold number
  split
  · rename_i h
    simp [Traced.fail, IsOverlong, overlongFault, h, eq_comm]
  · rename_i h
    simp [Traced.value, IsOverlong, h]

mutual

/-- **Building fails for the nesting or for a number of too many digits.** -/
theorem fault_of_build {form : Form} {f : Fault} : ∀ {p : Phrase} {room : Nat},
    (build form room p).outcome = .error f → f = .tooDeep form ∨ ∃ n ∈ p.sizes, IsOverlong n ∧ f = overlongFault n
  | .plain _, _, h => by
    rw [build] at h
    cases h
  | .sized s ds, _, h => by
    rw [build, Traced.outcome_bind_eq_error_iff, number_eq_error_iff] at h
    rcases h with ⟨hn, rfl⟩ | ⟨_, _, h⟩
    · exact .inr ⟨_, List.mem_singleton.2 rfl, hn, rfl⟩
    · cases h
  | .tuple _, 0, h | .array _, 0, h | .fixedArray _ _, 0, h | .map _ _, 0, h => by
    rw [build] at h
    cases h
    exact .inl rfl
  | .tuple ps, room + 1, h => by
    rw [build, Traced.outcome_bind_eq_error_iff] at h
    rcases h with h | ⟨_, _, h⟩
    · rw [Phrase.sizes_tuple]
      exact fault_of_buildItems h
    · cases h
  | .array e, room + 1, h => by
    rw [build, Traced.outcome_bind_eq_error_iff] at h
    rcases h with h | ⟨_, _, h⟩
    · rw [Phrase.sizes_array]
      exact fault_of_build h
    · cases h
  | .fixedArray e ds, room + 1, h => by
    simp only [build, Traced.outcome_bind_eq_error_iff, number_eq_error_iff] at h
    rw [Phrase.sizes_fixedArray]
    rcases h with h | ⟨_, _, ⟨hn, rfl⟩ | ⟨_, _, h⟩⟩
    · exact (fault_of_build h).imp_right fun ⟨n, hn, h⟩ => ⟨n, List.mem_append_left _ hn, h⟩
    · exact .inr ⟨_, List.mem_append_right _ (List.mem_singleton.2 rfl), hn, rfl⟩
    · cases h
  | .map k v, room + 1, h => by
    simp only [build, Traced.outcome_bind_eq_error_iff] at h
    rw [Phrase.sizes_map]
    rcases h with h | ⟨_, _, h | ⟨_, _, h⟩⟩
    · exact (fault_of_build h).imp_right fun ⟨n, hn, h⟩ => ⟨n, List.mem_append_left _ hn, h⟩
    · exact (fault_of_build h).imp_right fun ⟨n, hn, h⟩ => ⟨n, List.mem_append_right _ hn, h⟩
    · cases h

theorem fault_of_buildItems {form : Form} {f : Fault} : ∀ {ps : List Phrase} {room : Nat},
    (buildItems form room ps).outcome = .error f →
      f = .tooDeep form ∨ ∃ n ∈ ps.flatMap Phrase.sizes, IsOverlong n ∧ f = overlongFault n
  | [], _, h => by
    rw [buildItems] at h
    cases h
  | p :: ps, _, h => by
    simp only [buildItems, Traced.outcome_bind_eq_error_iff] at h
    rw [List.flatMap_cons]
    rcases h with h | ⟨_, _, h | ⟨_, _, h⟩⟩
    · exact (fault_of_build h).imp_right fun ⟨n, hn, h⟩ => ⟨n, List.mem_append_left _ hn, h⟩
    · exact (fault_of_buildItems h).imp_right fun ⟨n, hn, h⟩ => ⟨n, List.mem_append_right _ hn, h⟩
    · cases h

end

theorem find?_sizes_eq_none_iff {p : Phrase} :
    p.sizes.find? IsOverlong = none ↔ ∀ ds ∈ p.numerals, ds.length ≤ Text.digitLimit := by
  rw [← Phrase.map_snd_sizes, List.find?_eq_none, List.forall_mem_map]
  exact forall₂_congr fun n _ => by rw [decide_eq_true_eq, IsOverlong, Nat.not_lt]

/-- The first overlong number of a text in two parts is in the first part, or that has none. -/
theorem find?_append_eq_some_iff {ms ns : List (Sizable × List Char)} {n : Sizable × List Char} :
    (ms ++ ns).find? IsOverlong = some n ↔
      ms.find? IsOverlong = some n ∨ ms.find? IsOverlong = none ∧ ns.find? IsOverlong = some n := by
  rw [List.find?_append, Option.or_eq_some_iff]

mutual

/-- **The first overlong number is what building fails for** where the nesting is within the limit: each number is read
after all that stand before it in the text. -/
theorem build_eq_tooManyDigits {form : Form} {n : Sizable × List Char} : ∀ {p : Phrase} {room : Nat},
    p.nesting ≤ room → p.sizes.find? IsOverlong = some n → (build form room p).outcome = .error (overlongFault n)
  | .plain _, _, _, hn => nomatch hn
  | .sized s ds, _, _, hn => by
    obtain ⟨hlong, hmem⟩ := And.intro (List.find?_some hn) (List.mem_of_find?_eq_some hn)
    obtain rfl := List.mem_singleton.1 hmem
    rw [build, Traced.outcome_bind_eq_error_iff]
    exact .inl (number_eq_error_iff.2 ⟨of_decide_eq_true hlong, rfl⟩)
  | .tuple _, 0, hr, _ | .array _, 0, hr, _ | .fixedArray _ _, 0, hr, _ | .map _ _, 0, hr, _ => by
    rw [Phrase.nesting] at hr
    omega
  | .tuple ps, room + 1, hr, hn => by
    rw [Phrase.nesting, one_add_le_iff] at hr
    rw [Phrase.sizes_tuple] at hn
    rw [build, Traced.outcome_bind_eq_error_iff]
    exact .inl (buildItems_eq_tooManyDigits hr hn)
  | .array e, room + 1, hr, hn => by
    rw [Phrase.nesting, one_add_le_iff] at hr
    rw [Phrase.sizes_array] at hn
    rw [build, Traced.outcome_bind_eq_error_iff]
    exact .inl (build_eq_tooManyDigits hr hn)
  | .fixedArray e ds, room + 1, hr, hn => by
    rw [Phrase.nesting, one_add_le_iff] at hr
    rw [Phrase.sizes_fixedArray, find?_append_eq_some_iff] at hn
    simp only [build, Traced.outcome_bind_eq_error_iff]
    rcases hn with hn | ⟨hnone, hn⟩
    · exact .inl (build_eq_tooManyDigits hr hn)
    -- the element has no overlong number, so the array's own is read, and refused
    · have he : (build form room e).outcome = .ok e.type :=
        outcome_build.2 ⟨⟨hr, find?_sizes_eq_none_iff.1 hnone⟩, rfl⟩
      obtain ⟨hlong, hmem⟩ := And.intro (List.find?_some hn) (List.mem_of_find?_eq_some hn)
      obtain rfl := List.mem_singleton.1 hmem
      exact .inr ⟨_, he, .inl (number_eq_error_iff.2 ⟨of_decide_eq_true hlong, rfl⟩)⟩
  | .map k v, room + 1, hr, hn => by
    rw [Phrase.nesting, one_add_le_iff, Nat.max_le] at hr
    rw [Phrase.sizes_map, find?_append_eq_some_iff] at hn
    simp only [build, Traced.outcome_bind_eq_error_iff]
    rcases hn with hn | ⟨hnone, hn⟩
    · exact .inl (build_eq_tooManyDigits hr.1 hn)
    · have hk : (build form room k).outcome = .ok k.type :=
        outcome_build.2 ⟨⟨hr.1, find?_sizes_eq_none_iff.1 hnone⟩, rfl⟩
      exact .inr ⟨_, hk, .inl (build_eq_tooManyDigits hr.2 hn)⟩

theorem buildItems_eq_tooManyDigits {form : Form} {n : Sizable × List Char} : ∀ {ps : List Phrase} {room : Nat},
    Phrase.itemNesting ps ≤ room → (ps.flatMap Phrase.sizes).find? IsOverlong = some n →
      (buildItems form room ps).outcome = .error (overlongFault n)
  | [], _, _, hn => nomatch hn
  | p :: ps, room, hr, hn => by
    rw [Phrase.itemNesting, Nat.max_le] at hr
    rw [List.flatMap_cons, find?_append_eq_some_iff] at hn
    simp only [buildItems, Traced.outcome_bind_eq_error_iff]
    rcases hn with hn | ⟨hnone, hn⟩
    · exact .inl (build_eq_tooManyDigits hr.1 hn)
    · have hp : (build form room p).outcome = .ok p.type :=
        outcome_build.2 ⟨⟨hr.1, find?_sizes_eq_none_iff.1 hnone⟩, rfl⟩
      exact .inr ⟨_, hp, .inl (buildItems_eq_tooManyDigits hr.2 hn)⟩

end

/-- Without an overlong number it is the nesting that building can fail for. -/
theorem build_eq_tooDeep {form : Form} {p : Phrase} {room : Nat} (hr : room < p.nesting)
    (hn : p.sizes.find? IsOverlong = none) : (build form room p).outcome = .error (.tooDeep form) := by
  cases h : (build form room p).outcome with
  | ok t =>
    have hle := (outcome_build.1 h).1.1
    omega
  | error f =>
    rcases fault_of_build h with rfl | ⟨n, hmem, hlong, -⟩
    · rfl
    · exact absurd (decide_eq_true hlong) (List.find?_eq_none.1 hn n hmem)

end Reader

/-! ## Texts of either form -/

namespace Form

/-- **A text of a form, its tokens and the type they derive**; in a parameter they stand behind a name and a colon. -/
inductive Parses : Form → List Char → List Token → Phrase → Prop
  | signature {cs : List Char} {ts : List Token} {p : Phrase} (hl : Layout cs ts) (hd : AbiTypes.Derives ts p) :
    Parses .signature cs ts p
  | param {cs name : List Char} {ts : List Token} {p : Phrase} (hn : IsIdentifier name)
    (hc : Cut cs (.name name :: .colon :: ts.map .token)) (hd : AbiTypes.Derives ts p) : Parses .param cs ts p

/-- A text is grammatical if it has tokens and a type. -/
theorem spells_iff_parses {form : Form} {cs : List Char} : form.Spells cs ↔ ∃ ts p, form.Parses cs ts p := by
  constructor
  · rintro ⟨xs, hc, hd⟩
    cases hd with
    | signature hd => exact ⟨_, _, .signature (cut_map_token_iff.1 hc) hd⟩
    | param hn hd => exact ⟨_, _, .param hn hc hd⟩
  · rintro ⟨ts, p, h⟩
    cases h with
    | signature hl hd => exact ⟨_, cut_map_token_iff.2 hl, .signature hd⟩
    | param hn hc hd => exact ⟨_, hc, .param hn hd⟩

namespace Parses

variable {form : Form} {ts : List Token} {p : Phrase}

theorem derives {cs : List Char} (h : form.Parses cs ts p) : AbiTypes.Derives ts p := by
  cases h <;> assumption

theorem filterMap_numeral? {cs : List Char} (h : form.Parses cs ts p) : ts.filterMap Token.numeral? = p.sizes := by
  rw [(derives_iff.1 h.derives).1, Phrase.sizes]

/-- The parameter's text is a name, a colon and the text of its type. -/
theorem readParam_eq {cs : List Char} (h : Form.param.Parses cs ts p) :
    ∃ name, Reader.readParam cs = .ok (name, p) := by
  rcases h with _ | ⟨hn, hc, hd⟩
  rcases hc with _ | ⟨hg, -, hc⟩
  rcases hc with _ | ⟨hg', -, hc⟩
  have hp := Phrase.read_eq_ok_iff.2 ⟨ts, cut_map_token_iff.1 hc, hd⟩
  rw [Piece.spell, Piece.spell, Reader.readParam_identifier hg hn, List.append_assoc, List.singleton_append,
    skipBlanks_dropWhile_colon hg']
  exact ⟨_, by simp only [hp]; rfl⟩

/-- **Reading a grammatical text comes down to building its type.** -/
theorem read_eq [Reader.Stack] {text : String} (h : form.Parses text.toList ts p) :
    form.read text = (Reader.build form Reader.Stack.levels p).outcome.map fun _ => () := by
  cases form with
  | signature =>
    have hp : Phrase.read text.toList = .ok p := by
      rcases h with ⟨hl, hd⟩ | _
      exact Phrase.read_eq_ok_iff.2 ⟨ts, hl, hd⟩
    have ho : (Ty.read text).outcome = (Reader.build .signature Reader.Stack.levels p).outcome.map id := by
      rw [Ty.read, hp]
      exact Traced.outcome_bind_tell _ _ id
    rw [read, ho, Except.map_id, id]
  | param =>
    obtain ⟨name, hp⟩ := h.readParam_eq
    have ho : (Field.read text).outcome =
        (Reader.build .param Reader.Stack.levels p).outcome.map fun t => ⟨String.ofList name, t⟩ := by
      rw [Field.read, hp]
      exact Traced.outcome_bind_tell _ _ _
    rw [read, ho]
    cases (Reader.build .param Reader.Stack.levels p).outcome <;> rfl

theorem forall_isReadable_iff {cs : List Char} (h : form.Parses cs ts p) :
    (∀ t ∈ ts, t.IsReadable) ↔ ∀ ds ∈ p.numerals, ds.length ≤ Text.digitLimit := by
  rw [← Phrase.filterMap_digits?_tokens, ← (derives_iff.1 h.derives).1]
  simp only [Token.IsReadable, List.mem_filterMap, Option.mem_def]
  exact ⟨fun h ds ⟨t, ht, hd⟩ => h t ht ds hd, fun h t ht ds hd => h ds ⟨t, ht, hd⟩⟩

/-- **Within the nesting limit a grammatical text is read**, or refused for the first number that is too long. -/
theorem read_of_nesting_le [Reader.Stack] {text : String} (h : form.Parses text.toList ts p)
    (hn : p.nesting ≤ Reader.Stack.levels) :
    (form.read text = .ok () ↔ ∀ t ∈ ts, t.IsReadable) ∧
    ((∃ t ∈ ts, ¬ t.IsReadable) → ∃ before t after n, ts = before ++ t :: after ∧ (∀ u ∈ before, u.IsReadable) ∧
      t.numeral? = some n ∧ IsOverlong n ∧ form.read text = .error (overlongFault n)) := by
  rw [h.read_eq, h.forall_isReadable_iff]
  cases hfind : p.sizes.find? IsOverlong with
  | none =>
    have hall := Reader.find?_sizes_eq_none_iff.1 hfind
    refine ⟨?_, fun ⟨t, ht, hr⟩ => absurd (h.forall_isReadable_iff.2 hall t ht) hr⟩
    rw [Reader.outcome_build.2 ⟨⟨hn, hall⟩, rfl⟩]
    exact iff_of_true rfl hall
  | some n =>
    rw [Reader.build_eq_tooManyDigits hn hfind]
    constructor
    · refine iff_of_false nofun fun hall => ?_
      rw [Reader.find?_sizes_eq_none_iff.2 hall] at hfind
      cases hfind
    · intro _
      rw [← h.filterMap_numeral?] at hfind
      obtain ⟨before, t, after, hts, hbefore, ht, hlong⟩ := exists_append_of_find?_numeral? hfind
      exact ⟨before, t, after, n, hts, hbefore, ht, hlong, rfl⟩

end Parses

/-- **What becomes of a text.**  Outside the grammar it is refused as malformed, at a column, however deep it nests and
however long its numbers are.  In the grammar and nested within the limit it is read exactly if no number has too many
digits; otherwise the fault is that of the first such number of the text, by its rule and its count of digits.  In the
grammar and far beyond the limit, with numbers of any allowed length, it is refused as nested too deeply. -/
theorem read_classified [Reader.Stack] (form : Form) (text : String) :
    (¬ form.Spells text.toList → ∃ column,
      let fault := Fault.malformed form text column
      form.read text = .error fault ∧ fault.class? = some .invalidData ∧
        fault.message = "Invalid " ++ form.word ++ " " ++ Text.quoted text ++ " at column "
          ++ String.ofList (Text.decimalInt column)) ∧
    (form.Spells text.toList ↔ ∃ ts p, form.Parses text.toList ts p) ∧
    ∀ ts p, form.Parses text.toList ts p →
      (p.nesting ≤ Reader.Stack.levels →
        (form.read text = .ok () ↔ ∀ t ∈ ts, t.IsReadable) ∧
        ((∃ t ∈ ts, ¬ t.IsReadable) → ∃ before t ds after rule, ts = before ++ t :: after ∧
          (∀ u ∈ before, u.IsReadable) ∧ Text.digitLimit < ds.length ∧
          ((∃ s, t = .sized s ds) ∧ rule = "scalar" ∨ t = .number ds ∧ rule = "fixed_array") ∧
          let fault := Fault.tooManyDigits rule ds.length
          form.read text = .error fault ∧ fault.class? = none)) ∧
      (700 ≤ p.nesting → (∀ t ∈ ts, t.IsReadable) →
        let fault := Fault.tooDeep form
        form.read text = .error fault ∧ fault.class? = some .invalidData ∧
          fault.message = "Invalid " ++ form.word ++ ": nested too deeply") := by
  refine ⟨fun h => ?_, spells_iff_parses, fun ts p h => ⟨fun hn => ?_, fun hn hr => ⟨?_, rfl, rfl⟩⟩⟩
  · obtain ⟨stop, hs⟩ := exists_refuses h
    exact ⟨_, hs.read_eq, rfl, rfl⟩
  · obtain ⟨hok, hfirst⟩ := h.read_of_nesting_le hn
    refine ⟨hok, fun hex => ?_⟩
    obtain ⟨before, t, after, ⟨owner, ds⟩, hts, hbefore, ht, hlong, hread⟩ := hfirst hex
    refine ⟨before, t, ds, after, owner.rule, hts, hbefore, hlong, ?_, hread, rfl⟩
    rcases Token.numeral?_eq_some_iff.1 ht with ⟨s, rfl, rfl⟩ | ⟨rfl, rfl⟩
    · exact .inl ⟨⟨s, rfl⟩, rfl⟩
    · exact .inr ⟨rfl, rfl⟩
  · have hlimit : Reader.Stack.levels < p.nesting := Nat.lt_of_lt_of_le Reader.Stack.lt_vain hn
    have hfind := Reader.find?_sizes_eq_none_iff.2 (h.forall_isReadable_iff.1 hr)
    rw [h.read_eq, Reader.build_eq_tooDeep hlimit hfind]
    rfl

theorem read_classified_shapes :
    let long : List Token := [.map, .lparen, .sized .uint ['8'], .comma, .plain .bool, .lbracket,
      .number (List.replicate 4301 '0'), .rbracket, .rparen]
    let deep : Phrase := Nat.iterate Phrase.array 700 (.sized .int ['0', '8'])
    (∃ column, Form.read .param "to:map(uint8,bool[" = .error (.malformed .param "to:map(uint8,bool[" column)) ∧
    Form.read .signature (String.ofList (long.flatMap Token.spell)) = .error (.tooManyDigits "fixed_array" 4301) ∧
    Form.read .signature (String.ofList (deep.tokens.flatMap Token.spell)) = .error (.tooDeep .signature) := by
  refine ⟨?_, ?_, ?_⟩
  · have hr : Reader.readParam "to:map(uint8,bool[".toList = .error [] := by rfl
    have h : ¬ Form.param.Spells "to:map(uint8,bool[".toList := fun h => by
      obtain ⟨ts, p, h⟩ := spells_iff_parses.1 h
      obtain ⟨name, hok⟩ := h.readParam_eq
      cases hr.symm.trans hok
    obtain ⟨column, hread, -⟩ := (read_classified .param "to:map(uint8,bool[").1 h
    exact ⟨column, hread⟩
  · have hlen : (List.replicate 4301 '0').length = 4301 := List.length_replicate
    have hzero : ∀ c ∈ List.replicate 4301 '0', c.isDigit = true := fun c hc => List.eq_of_mem_replicate hc ▸ rfl
    generalize List.replicate 4301 '0' = zeros at hlen hzero
    have hnum : IsNumeral zeros := ⟨fun h => by simp [h] at hlen, hzero⟩
    have h8 : IsNumeral ['8'] := ⟨List.cons_ne_nil _ _, List.all_eq_true.1 rfl⟩
    have hd := Derives.map (.sized .uint h8) (.fixedArray (.plain .bool) hnum)
    have hp := Parses.signature (layout_flatMap_spell _) hd
    rw [← String.toList_ofList (l := List.flatMap _ _)] at hp
    have hlong : ¬ (Token.number zeros).IsReadable := fun h => absurd (hlen ▸ h zeros rfl) (by decide)
    have hshallow : 1 + max 0 (1 + 0) ≤ Reader.Stack.levels := by decide
    obtain ⟨before, t, ds, after, rule, hts, -, hds, hrule, hread, -⟩ :=
      (((read_classified .signature _).2.2 _ _ hp).1 hshallow).2 ⟨_, by simp, hlong⟩
    have ht := List.mem_append_right before (List.mem_cons_self (a := t) (l := after))
    rw [← hts] at ht
    rcases hrule with ⟨⟨s, rfl⟩, rfl⟩ | ⟨rfl, rfl⟩
    · obtain ⟨-, rfl⟩ : s = .uint ∧ ds = ['8'] := by simpa using ht
      exact absurd hds (by decide)
    · obtain rfl : ds = zeros := by simpa using ht
      rw [hlen] at hread
      exact hread
  · have hdeep : ∀ n, (Nat.iterate Phrase.array n (.sized .int ['0', '8'])).nesting = n ∧
        (Nat.iterate Phrase.array n (.sized .int ['0', '8'])).WellFormed ∧
        (Nat.iterate Phrase.array n (.sized .int ['0', '8'])).numerals = [['0', '8']] := by
      intro n
      induction n with
      | zero => exact ⟨rfl, .sized .int ⟨List.cons_ne_nil _ _, List.all_eq_true.1 rfl⟩, rfl⟩
      | succ n ih =>
        obtain ⟨hn, hw, hd⟩ := ih
        rw [Function.iterate_succ_apply']
        exact ⟨by rw [Phrase.nesting, hn, Nat.add_comm], .array hw, hd⟩
    obtain ⟨hn, hw, hd⟩ := hdeep 700
    generalize Nat.iterate Phrase.array 700 (.sized .int ['0', '8']) = deep at hn hw hd
    have hp := Parses.signature (layout_flatMap_spell _) hw.derives
    have hr := hp.forall_isReadable_iff.2 (by rw [hd]; decide)
    rw [← String.toList_ofList (l := List.flatMap _ _)] at hp
    exact (((read_classified .signature _).2.2 _ _ hp).2 (Nat.le_of_eq hn.symm) hr).1

end Form

end AbiTypes
