import AbiTypes.Proofs.Refusal
import Mathlib.Data.List.TakeWhile
/-!
# Parameter — a name, a colon and a signature

A text is a parameter exactly if it is a name, a colon and a text that is read as a type, with any blanks around the name
(`Reader.readParam_eq_ok_iff`).  So a text fares behind a name and a colon as it does alone: it is read as the same type,
or refused for the same number, or refused at the same place.  The column of that place moves with the name and the
colon, as long as it is counted on the first line (`columnAfter_append`).
-/
namespace AbiTypes

namespace Reader

theorem takeWhile_isNameChar_colon {gap : List Char} (hg : IsGap gap) (cs : List Char) :
    (gap ++ ':' :: cs).takeWhile isNameChar = [] := by
  cases gap with
  | nil => rfl
  | cons b gap =>
    have hb := isNameChar_eq_false_of_isBlank (hg b (by simp))
    simp [hb]

/-- **The texts of parameters**: a name, with any blanks around it, a colon, and the text of a type. -/
theorem readParam_eq_ok_iff {cs name : List Char} {p : Phrase} : readParam cs = .ok (name, p) ↔
    ∃ gap gap' rest, cs = gap ++ name ++ gap' ++ ':' :: rest ∧ IsGap gap ∧ IsGap gap' ∧ IsIdentifier name ∧
      Phrase.read rest = .ok p := by
  constructor
  · intro h
    rcases readParam_cases cs with ⟨hr, -⟩ | ⟨gap, name', gap', rest, rfl, hg, hn, hg', hr | ⟨rest, rfl, hr⟩⟩
    · cases h.symm.trans hr
    · cases h.symm.trans hr
    · cases hp : Phrase.read rest with
      | error stop =>
        rw [hp] at hr
        cases h.symm.trans hr
      | ok q =>
        rw [hp] at hr
        cases h.symm.trans hr
        exact ⟨gap, gap', rest, by simp, hg, hg', hn, hp⟩
  · rintro ⟨gap, gap', rest, rfl, hg, hg', hn, hp⟩
    rw [List.append_assoc _ gap', readParam_identifier hg hn, skipBlanks_dropWhile_colon hg',
      takeWhile_isNameChar_colon hg', List.append_nil]
    simp only [hp]
    rfl

end Reader

/-! ## What is read -/

theorem Ty.outcome_read_of_phrase [Reader.Stack] {text : String} {p : Phrase} (h : Phrase.read text.toList = .ok p) :
    (Ty.read text).outcome = (Reader.build .signature Reader.Stack.levels p).outcome := by
  rw [Ty.read, h]
  exact (Traced.outcome_bind_tell _ _ id).trans (by rw [Except.map_id, id])

namespace Field

theorem outcome_read_of_readParam [Reader.Stack] {text : String} {name : List Char} {p : Phrase}
    (h : Reader.readParam text.toList = .ok (name, p)) : (Field.read text).outcome =
      (Reader.build .param Reader.Stack.levels p).outcome.map fun t => ⟨String.ofList name, t⟩ := by
  rw [Field.read, h]
  exact Traced.outcome_bind_tell _ _ _

/-- **A text is read as a parameter** exactly if the phrase behind its name stands for the kind, within the limits. -/
theorem read_eq_ok_iff [Reader.Stack] {text : String} {f : Field Ty} : (Field.read text).outcome = .ok f ↔
    ∃ p, Reader.readParam text.toList = .ok (f.name.toList, p) ∧ p.InReach ∧ p.type = f.kind := by
  constructor
  · intro h
    cases hr : Reader.readParam text.toList with
    | error stop =>
      rw [Field.read, hr] at h
      cases h
    | ok found =>
      obtain ⟨name, p⟩ := found
      rw [outcome_read_of_readParam hr] at h
      cases hb : (Reader.build .param Reader.Stack.levels p).outcome with
      | error e =>
        rw [hb] at h
        cases h
      | ok t =>
        rw [hb] at h
        cases h
        obtain ⟨hreach, ht⟩ := Reader.outcome_build.1 hb
        exact ⟨p, by rw [String.toList_ofList], hreach, ht⟩
  · rintro ⟨p, hr, hreach, ht⟩
    rw [Field.outcome_read hr hreach, String.ofList_toList, ht]

end Field

/-! ## Where a text is refused -/

/-- **The longest viable beginning of a refused text** ends where the reader stops. -/
theorem Form.Refuses.isGreatest {form : Form} {cs stop : List Char} (h : form.Refuses cs stop) :
    ∃ pre, cs = pre ++ stop ∧ IsGreatest {k | k ≤ cs.length ∧ form.Viable (cs.take k)} pre.length := by
  obtain ⟨pre, rfl, hv⟩ := h.viable
  refine ⟨pre, rfl, ⟨by simp, by rwa [List.take_left]⟩, ?_⟩
  rintro k ⟨hk, hvk⟩
  rw [← List.take_append_drop k (pre ++ stop)] at h
  have hle := h.length_le hvk
  rw [List.length_drop, List.length_append] at hle
  rw [List.length_append] at hk
  omega

theorem ne_newline_of_identifier {name : List Char} (h : IsIdentifier name) : ∀ c ∈ name, c ≠ '\n' := by
  obtain ⟨c, cs, rfl, hc, hcs⟩ := h
  refine List.forall_mem_cons.2 ⟨?_, fun d hd => ?_⟩
  · rintro rfl
    exact absurd hc (by decide)
  · rintro rfl
    exact absurd (hcs _ hd) (by decide)

/-- **Columns behind some text of one line**: on the first line they move with it, on later lines they stay. -/
theorem columnAfter_append {xs cs : List Char} (hxs : ∀ c ∈ xs, c ≠ '\n') {k : Nat} (hk : k < cs.length) :
    columnAfter (xs ++ cs) (xs.length + k) =
      if '\n' ∈ cs.take k then columnAfter cs k else columnAfter cs k + xs.length := by
  have hend : xs.length + k ≠ (xs ++ cs).length := by
    rw [List.length_append]
    omega
  have htake : (xs ++ cs).take (xs.length + k) = xs ++ cs.take k := List.take_length_add_append k
  rw [columnAfter, columnAfter, if_neg hend, if_neg hk.ne, htake, List.reverse_append, List.takeWhile_append]
  generalize cs.take k = line
  by_cases hline : '\n' ∈ line
  -- the line starts behind a line feed, which the columns are counted back to
  · have hshort : (line.reverse.takeWhile (· ≠ '\n')).length ≠ line.reverse.length := fun hlen => by
      have hall := List.takeWhile_eq_self_iff.1 ((List.takeWhile_prefix _).eq_of_length hlen)
      simpa using hall '\n' (List.mem_reverse.2 hline)
    rw [if_pos hline, if_neg hshort]
  · have hall : line.reverse.takeWhile (· ≠ '\n') = line.reverse := List.takeWhile_eq_self_iff.2 fun c hc => by
      have hne : c ≠ '\n' := fun h => hline (h ▸ List.mem_reverse.1 hc)
      simpa using hne
    have hxs : xs.reverse.takeWhile (· ≠ '\n') = xs.reverse := List.takeWhile_eq_self_iff.2 fun c hc => by
      simpa using hxs c (List.mem_reverse.1 hc)
    rw [if_neg hline, hall, if_pos rfl, hxs, List.length_append, List.length_reverse, List.length_reverse]
    omega

theorem Form.Refuses.behind_name {name cs stop : List Char} (hn : IsIdentifier name)
    (h : Form.signature.Refuses cs stop) : Form.param.Refuses (name ++ ':' :: cs) stop := by
  have hs : Phrase.read cs = .error stop := h
  rw [Refuses, Reader.readParam_append hn, hs]
  rfl

/-- **A refused text is refused at the same place behind a name and a colon**, by a column that is counted from the name
on the first line. -/
theorem Reader.refused_behind_name [Reader.Stack] {name rest : String} (hn : IsIdentifier name.toList) {stop : List Char}
    (h : Phrase.read rest.toList = .error stop) :
    let text := name ++ ":" ++ rest
    ∃ k c c', IsGreatest {k | k ≤ rest.toList.length ∧ Form.signature.Viable (rest.toList.take k)} k ∧
      (Ty.read rest).outcome = .error (.malformed .signature rest c) ∧
      (Field.read text).outcome = .error (.malformed .param text c') ∧
      (k = rest.length → c = -1 ∧ c' = -1) ∧
      (k < rest.length → c = columnAfter rest.toList k ∧
        ('\n' ∉ rest.toList.take k → c' = c + name.length + 1) ∧ ('\n' ∈ rest.toList.take k → c' = c)) := by
  intro text
  have hs : Form.signature.Refuses rest.toList stop := h
  have htext : text.toList = (name.toList ++ [':']) ++ rest.toList := by
    rw [String.toList_append, String.toList_append]
    rfl
  have hp : Reader.readParam text.toList = .error stop := by
    have hp : Form.param.Refuses _ stop := hs.behind_name hn
    rw [htext, List.append_assoc]
    exact hp
  obtain ⟨pre, hrest, hgreatest⟩ := hs.isGreatest
  have hlength : (name.toList ++ [':']).length = name.length + 1 := by
    rw [List.length_append, String.length_toList]
    rfl
  have hcolumn : Reader.column rest.toList stop = columnAfter rest.toList pre.length := by
    rw [hrest, Form.column_eq_columnAfter]
  have hcolumn' : Reader.column text.toList stop = columnAfter text.toList (name.length + 1 + pre.length) := by
    rw [htext, hrest, ← List.append_assoc, Form.column_eq_columnAfter, List.length_append, hlength]
  refine ⟨pre.length, _, _, hgreatest, by rw [Ty.read, h]; rfl, by rw [Field.read, hp]; rfl, fun hk => ?_, fun hk => ?_⟩
  · have hend : name.length + 1 + pre.length = text.toList.length := by
      rw [htext, List.length_append, hlength, hk, String.length_toList]
    rw [hcolumn, hcolumn', columnAfter, columnAfter, if_pos (hk.trans String.length_toList.symm), if_pos hend]
    exact ⟨rfl, rfl⟩
  · have hline : ∀ c ∈ name.toList ++ [':'], c ≠ '\n' := fun c hc =>
      (List.mem_append.1 hc).elim (ne_newline_of_identifier hn c) fun hc => by
        rw [List.mem_singleton.1 hc]
        decide
    have hmoved := columnAfter_append hline (hk.trans_eq String.length_toList.symm)
    rw [hlength, ← htext] at hmoved
    rw [hcolumn, hcolumn', hmoved]
    refine ⟨rfl, fun hfirst => ?_, fun hlater => if_pos hlater⟩
    rw [if_neg hfirst]
    omega

/-! ## A parameter and its signature -/

theorem Reader.outcome_build_of_nesting_le [Reader.Stack] (p : Phrase) (hp : p.nesting ≤ Stack.levels) :
    (∃ t, ∀ form, (build form Stack.levels p).outcome = .ok t) ∨
    ∃ rule n, ∀ form, (build form Stack.levels p).outcome = .error (.tooManyDigits rule n) := by
  cases hfind : p.sizes.find? IsOverlong with
  | none => exact .inl ⟨p.type, fun form => outcome_build.2 ⟨⟨hp, find?_sizes_eq_none_iff.1 hfind⟩, rfl⟩⟩
  | some n => exact .inr ⟨n.1.rule, n.2.length, fun form => build_eq_tooManyDigits hp hfind⟩

namespace Field

/-- **A parameter is read as its signature is.**  A text is read as a parameter exactly if it is a name, with any blanks
around it, a colon, and a text that is read as the parameter's kind.  Behind any name and a colon a text within the
nesting limit is read as the type it is read as alone, or refused for the same number of too many digits, or refused at
the same place, by the same column but for the name and the colon if the place is on the first line. -/
theorem read_as_signature [Reader.Stack] :
    (∀ (text : String) (f : Field Ty), (Field.read text).outcome = .ok f ↔
      ∃ (gap gap' : List Char) (rest : String), text.toList = gap ++ f.name.toList ++ gap' ++ ':' :: rest.toList ∧
        IsGap gap ∧ IsGap gap' ∧ IsIdentifier f.name.toList ∧ (Ty.read rest).outcome = .ok f.kind) ∧
    ∀ name rest : String, IsIdentifier name.toList → (∀ p, Spells rest.toList p → p.nesting ≤ Reader.Stack.levels) →
      let text := name ++ ":" ++ rest
      (∃ t, (Ty.read rest).outcome = .ok t ∧ (Field.read text).outcome = .ok ⟨name, t⟩) ∨
      (∃ rule n, let fault := Fault.tooManyDigits rule n
        (Ty.read rest).outcome = .error fault ∧ (Field.read text).outcome = .error fault) ∨
      ∃ k c c', IsGreatest {k | k ≤ rest.toList.length ∧ Form.signature.Viable (rest.toList.take k)} k ∧
        (Ty.read rest).outcome = .error (.malformed .signature rest c) ∧
        (Field.read text).outcome = .error (.malformed .param text c') ∧
        (k = rest.length → c = -1 ∧ c' = -1) ∧
        (k < rest.length → c = columnAfter rest.toList k ∧
          ('\n' ∉ rest.toList.take k → c' = c + name.length + 1) ∧ ('\n' ∈ rest.toList.take k → c' = c)) := by
  refine ⟨fun text f => ?_, fun name rest hn hnesting => ?_⟩
  · rw [read_eq_ok_iff]
    constructor
    · rintro ⟨p, hp, hreach, ht⟩
      obtain ⟨gap, gap', rest, htext, hg, hg', hn, hp⟩ := Reader.readParam_eq_ok_iff.1 hp
      refine ⟨gap, gap', String.ofList rest, by rw [htext, String.toList_ofList], hg, hg', hn, ?_⟩
      exact Ty.read_eq_ok_iff.2 ⟨p, by rw [String.toList_ofList]; exact Phrase.read_eq_ok_iff.1 hp, hreach, ht⟩
    · rintro ⟨gap, gap', rest, htext, hg, hg', hn, ht⟩
      obtain ⟨p, hp, hreach, ht⟩ := Ty.read_eq_ok_iff.1 ht
      exact ⟨p, Reader.readParam_eq_ok_iff.2 ⟨gap, gap', rest.toList, htext, hg, hg', hn, Phrase.read_eq_ok_iff.2 hp⟩,
        hreach, ht⟩
  · intro text
    cases hp : Phrase.read rest.toList with
    | error stop => exact .inr (.inr (Reader.refused_behind_name hn hp))
    | ok p =>
      have hparam : Reader.readParam text.toList = .ok (name.toList, p) := by
        have htext : text.toList = name.toList ++ ':' :: rest.toList := by simp [text]
        rw [htext, Reader.readParam_append hn, hp]
        rfl
      rw [Ty.outcome_read_of_phrase hp, outcome_read_of_readParam hparam, String.ofList_toList]
      obtain ⟨t, ht⟩ | ⟨rule, n, hfault⟩ := Reader.outcome_build_of_nesting_le p (hnesting p (Phrase.read_eq_ok_iff.1 hp))
      · exact .inl ⟨t, ht .signature, by rw [ht .param]; rfl⟩
      · exact .inr (.inl ⟨rule, n, hfault .signature, by rw [hfault .param]; rfl⟩)

/-- One text behind a name that is a word of types is read; two are refused, on the first line and on the second. -/
theorem read_as_signature_lines :
    IsIdentifier "map".toList ∧
    (∀ rest ∈ ["map(int8 ,bool)[ 2]", "(bool] , cell)", "\n(bool]"], ∀ p, Spells rest.toList p →
      p.nesting ≤ Reader.Stack.levels) ∧
    (Field.read "map:map(int8 ,bool)[ 2]").outcome =
      .ok ⟨"map", .fixedArray (.map (.scalar (.sized .int 8)) (.scalar (.plain .bool))) 2⟩ ∧
    (Field.read "map:(bool] , cell)").outcome = .error (.malformed .param "map:(bool] , cell)" 10) ∧
    (Field.read "map:\n(bool]").outcome = .error (.malformed .param "map:\n(bool]" 6) := by
  have hname : IsIdentifier "map".toList := ⟨'m', ['a', 'p'], rfl, .inl rfl, by simp⟩
  have hok : (Ty.read "map(int8 ,bool)[ 2]").outcome =
      .ok (.fixedArray (.map (.scalar (.sized .int 8)) (.scalar (.plain .bool))) 2) := by rfl
  have hfirst : (Ty.read "(bool] , cell)").outcome = .error (.malformed .signature "(bool] , cell)" 6) := by rfl
  have hsecond : (Ty.read "\n(bool]").outcome = .error (.malformed .signature "\n(bool]" 6) := by rfl
  have hrefused : ∀ (rest : String) (stop : List Char), Phrase.read rest.toList = .error stop →
      ∀ p, Spells rest.toList p → p.nesting ≤ Reader.Stack.levels := fun rest stop h p hp => by
    cases h.symm.trans (Phrase.read_eq_ok_iff.2 hp)
  have hshallow : ∀ p, Spells "map(int8 ,bool)[ 2]".toList p → p.nesting ≤ Reader.Stack.levels := fun p hp => by
    have hread : Phrase.read "map(int8 ,bool)[ 2]".toList =
        .ok (.fixedArray (.map (.sized .int ['8']) (.plain .bool)) ['2']) := by rfl
    rw [hp.unique (Phrase.read_eq_ok_iff.1 hread)]
    decide
  have hfirst' := hrefused "(bool] , cell)" "] , cell)".toList (by rfl)
  have hsecond' := hrefused "\n(bool]" "]".toList (by rfl)
  refine ⟨hname, ?_, ?_, ?_, ?_⟩
  · intro rest hrest
    simp only [List.mem_cons, List.not_mem_nil, or_false] at hrest
    rcases hrest with rfl | rfl | rfl
    · exact hshallow
    · exact hfirst'
    · exact hsecond'
  · rcases read_as_signature.2 "map" _ hname hshallow with ⟨t, ht, h⟩ | ⟨_, _, h, -⟩ | ⟨_, _, _, -, h, -⟩
    · cases hok.symm.trans ht
      exact h
    · cases hok.symm.trans h
    · cases hok.symm.trans h
  · rcases read_as_signature.2 "map" _ hname hfirst' with ⟨_, h, -⟩ | ⟨_, _, h, -⟩ | ⟨k, c, c', hk, hc, h, hend, hmoves⟩
    · cases hfirst.symm.trans h
    · cases hfirst.symm.trans h
    · obtain rfl := (Fault.malformed.inj (Except.error.inj (hfirst.symm.trans hc))).2.2
      have hlt : k < "(bool] , cell)".length := Nat.lt_of_le_of_ne hk.1.1 fun heq => by cases (hend heq).1
      have hline : '\n' ∉ "(bool] , cell)".toList.take k := fun hmem => absurd (List.mem_of_mem_take hmem) (by decide)
      rw [(hmoves hlt).2.1 hline] at h
      exact h
  · rcases read_as_signature.2 "map" _ hname hsecond' with ⟨_, h, -⟩ | ⟨_, _, h, -⟩ | ⟨k, c, c', hk, hc, h, hend, hmoves⟩
    · cases hsecond.symm.trans h
    · cases hsecond.symm.trans h
    · obtain rfl := (Fault.malformed.inj (Except.error.inj (hsecond.symm.trans hc))).2.2
      have hlt : k < "\n(bool]".length := Nat.lt_of_le_of_ne hk.1.1 fun heq => by cases (hend heq).1
      have hline : '\n' ∈ "\n(bool]".toList.take k := by
        cases k with
        | zero => exact absurd (hmoves hlt).1 (by decide)
        | succ k => exact List.mem_cons_self
      rw [(hmoves hlt).2.2 hline] at h
      exact h

end Field

end AbiTypes
