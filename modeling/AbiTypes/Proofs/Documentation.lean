import AbiTypes.Command
import AbiTypes.Proofs.Parameter
import AbiTypes.Proofs.Trimmed
import Mathlib.Data.Nat.Digits.Defs
/-!
# Documentation — the documentation of parameters, all of it or none

Arguments that ask for documentation (`Command.Asks`) hold texts, a version, a title and maybe a file.  If every text is a
parameter, the page is printed, or written if there is a file; the first text that is none ends the run, before anything
is written.
-/
namespace AbiTypes

namespace Text

/-! ## Typed numbers -/

theorem toNat_of_isDigit {c : Char} (h : c.isDigit = true) : 48 ≤ c.toNat ∧ c.toNat < 58 := by
  obtain ⟨hle, hlt⟩ := Char.isDigit_iff_toNat.1 h
  exact ⟨hle, Nat.lt_succ_of_le hlt⟩

theorem digitValue?_of_isDigit {c : Char} (h : c.isDigit = true) : digitValue? c = some (c.toNat - '0'.toNat) := by
  have hc := toNat_of_isDigit h
  have hfirst : digitZeros.find? (fun z => z ≤ c.toNat && c.toNat < z + 10) = some 48 :=
    List.find?_cons_of_pos (by simp [hc])
  rw [digitValue?, hfirst]
  rfl

theorem isPadding_of_isDigit {c : Char} (h : c.isDigit = true) : isPadding c = false := by
  have hspace : c ≠ ' ' := by
    rintro rfl
    cases h
  have hc := toNat_of_isDigit h
  simp only [isPadding, wideBlankRanges, List.any_cons, List.any_nil, hspace, decide_false, Bool.or_false]
  grind

theorem digitRun?_of_isDigit : ∀ {ds : List Char}, ds ≠ [] → (∀ c ∈ ds, c.isDigit = true) →
    digitRun? ds = some (ds.map fun c => c.toNat - '0'.toNat)
  | [], hne, _ => absurd rfl hne
  | [c], _, h => by simp [digitRun?, digitValue?_of_isDigit (h c List.mem_cons_self)]
  | c :: d :: ds, _, h => by
    obtain ⟨hc, hds⟩ := List.forall_mem_cons.1 h
    have ih := digitRun?_of_isDigit (List.cons_ne_nil d ds) hds
    unfold digitRun?
    rw [digitValue?_of_isDigit hc]
    split
    · contradiction
    · contradiction
    · -- an underscore is no digit
      rename_i hcs
      cases hcs
      cases hds '_' List.mem_cons_self
    · rename_i hd hcs
      cases hd
      cases hcs
      rw [ih]
      rfl

theorem trimPadding_of_isDigit {ds : List Char} (h : ∀ c ∈ ds, c.isDigit = true) : trimPadding ds = ds := by
  have hpadding : ∀ c ∈ ds, ¬ isPadding c = true := fun c hc => by simp [isPadding_of_isDigit (h c hc)]
  rw [trimPadding, List.dropWhile_eq_self_iff.2 fun hlen => hpadding _ (List.getElem_mem hlen),
    List.dropWhile_eq_self_iff.2 fun hlen => hpadding _ (List.mem_reverse.1 (List.getElem_mem hlen)), List.reverse_reverse]

theorem ofDigitValues_map (ds : List Char) : ofDigitValues (ds.map fun c => c.toNat - '0'.toNat) = ofDecimal ds := by
  rw [ofDigitValues, List.foldl_map]
  rfl

/-- **A run of digits is read as its number**, up to the limit. -/
theorem integer?_of_isNumeral {ds : List Char} (h : IsNumeral ds) :
    integer? ds = if digitLimit < ds.length then none else some (ofDecimal ds : Int) := by
  obtain ⟨hne, hdigits⟩ := h
  have hnatural : natural? ds = if digitLimit < ds.length then none else some (ofDecimal ds) := by
    rw [natural?, digitRun?_of_isDigit hne hdigits, Option.bind_eq_bind, Option.bind_some, List.length_map,
      ofDigitValues_map]
  rw [integer?, trimPadding_of_isDigit hdigits]
  split
  · cases hdigits '+' List.mem_cons_self
  · cases hdigits '-' List.mem_cons_self
  · rw [hnatural, apply_ite (Option.map Int.ofNat)]
    rfl

theorem integer?_decimal {n : Nat} (h : (decimal n).length ≤ digitLimit) : integer? (decimal n) = some (n : Int) := by
  rw [integer?_of_isNumeral (isNumeral_decimal n), if_neg (Nat.not_lt.2 h), ofDecimal_decimal]

/-- Not every number can be given: some have more digits than are read. -/
theorem exists_integer?_eq_none : ∃ n, 1 ≤ n ∧ integer? (decimal n) = none := by
  have hzeros : ∀ c ∈ List.replicate digitLimit '0', c.isDigit = true := fun c hc => List.eq_of_mem_replicate hc ▸ rfl
  have hlength : (List.replicate digitLimit '0').length = digitLimit := List.length_replicate
  generalize List.replicate digitLimit '0' = zeros at hzeros hlength
  have hdigits : ∀ c ∈ '1' :: zeros, c.isDigit = true := List.forall_mem_cons.2 ⟨rfl, hzeros⟩
  have hdecimal : decimal (ofDecimal ('1' :: zeros)) = '1' :: zeros := decimal_ofDecimal_of_ne (by decide) hdigits
  generalize ofDecimal ('1' :: zeros) = n at hdecimal
  refine ⟨n, ?_, ?_⟩
  · rw [Nat.one_le_iff_ne_zero]
    rintro rfl
    exact absurd (congrArg List.head? hdecimal) (by simp [decimal])
  · rw [hdecimal, integer?_of_isNumeral ⟨List.cons_ne_nil _ _, hdigits⟩, List.length_cons, hlength,
      if_pos (Nat.lt_succ_self _)]

theorem lt_of_digitValue? {c : Char} {d : Nat} (h : digitValue? c = some d) : d < 10 := by
  obtain ⟨z, hz, rfl⟩ := Option.map_eq_some_iff.1 h
  have hrange := List.find?_some hz
  rw [Bool.and_eq_true, decide_eq_true_eq, decide_eq_true_eq] at hrange
  omega

theorem lt_of_digitRun? {cs : List Char} {ds : List Nat} (h : digitRun? cs = some ds) : ds ≠ [] ∧ ∀ d ∈ ds, d < 10 := by
  fun_induction digitRun? cs generalizing ds with
  | case1 => cases h
  | case2 => cases h
  | case3 c d hd =>
    cases h
    exact ⟨List.cons_ne_nil _ _, List.forall_mem_singleton.2 (lt_of_digitValue? hd)⟩
  | case4 c d cs hd ih =>
    obtain ⟨es, hes, rfl⟩ := Option.map_eq_some_iff.1 h
    exact ⟨List.cons_ne_nil _ _, List.forall_mem_cons.2 ⟨lt_of_digitValue? hd, (ih hes).2⟩⟩
  | case5 c d e cs _ hd ih =>
    obtain ⟨es, hes, rfl⟩ := Option.map_eq_some_iff.1 h
    exact ⟨List.cons_ne_nil _ _, List.forall_mem_cons.2 ⟨lt_of_digitValue? hd, (ih hes).2⟩⟩

theorem ofDigitValues_lt {ds : List Nat} (h : ∀ d ∈ ds, d < 10) : ofDigitValues ds < 10 ^ ds.length := by
  induction ds using List.reverseRecOn with
  | nil => exact Nat.one_pos
  | append_singleton ds d ih =>
    obtain ⟨hds, hd⟩ := List.forall_mem_append.1 h
    have hlast := hd d (List.mem_singleton.2 rfl)
    have hinit := ih hds
    rw [ofDigitValues] at hinit ⊢
    rw [List.foldl_append, List.foldl_cons, List.foldl_nil, List.length_append, List.length_singleton, Nat.pow_succ]
    omega

theorem length_decimal_of_natural? {cs : List Char} {n : Nat} (h : natural? cs = some n) :
    (decimal n).length ≤ digitLimit := by
  obtain ⟨ds, hds, hlimit⟩ := Option.bind_eq_some_iff.1 h
  split at hlimit
  · cases hlimit
  · cases hlimit
    obtain ⟨hne, hlt⟩ := lt_of_digitRun? hds
    refine Nat.le_trans ?_ (Nat.not_lt.1 ‹_›)
    exact Nat.toDigits_length 10 _ _ (List.length_pos_iff.2 hne) (ofDigitValues_lt hlt)

/-- **A typed number can be written.** -/
theorem length_decimal_of_integer? {cs : List Char} {i : Int} (h : integer? cs = some i) :
    (decimal i.natAbs).length ≤ digitLimit := by
  unfold integer? at h
  split at h <;> obtain ⟨n, hn, rfl⟩ := Option.map_eq_some_iff.1 h
  · exact length_decimal_of_natural? hn
  · rw [Int.natAbs_neg]
    exact length_decimal_of_natural? hn
  · exact length_decimal_of_natural? hn

end Text

/-- A parameter that was read can be written. -/
theorem Field.isWritable_of_read [Reader.Stack] {text : String} {f : Field Ty} (h : (Field.read text).outcome = .ok f) :
    f.kind.IsWritable := by
  obtain ⟨p, hr, hreach, hp⟩ := Field.read_eq_ok_iff.1 h
  obtain ⟨-, -, rest, -, -, -, -, hrest⟩ := Reader.readParam_eq_ok_iff.1 hr
  rw [← hp]
  exact (Phrase.read_eq_ok_iff.1 hrest).wellFormed.isWritable_type hreach.2

theorem Ty.isWritable_tuple_of_read [Reader.Stack] {texts : List String} {ps : List (Field Ty)}
    (h : List.Forall₂ (fun t p => (Field.read t).outcome = .ok p) texts ps) : (Ty.tuple ps).IsWritable := by
  rw [Ty.isWritable_tuple_iff]
  induction h with
  | nil => exact List.forall_mem_nil _
  | cons hp _ ih => exact List.forall_mem_cons.2 ⟨Field.isWritable_of_read hp, ih⟩

namespace Markdown

theorem forall_numbers_iff {v : Int} {ps : List (Field Ty)} :
    (∀ n ∈ numbers v ps, (Text.decimal n).length ≤ Text.digitLimit) ↔ (∀ p ∈ ps, p.kind.IsWritable) ∧
      ((∃ p ∈ ps, p.kind.unsupported v ≠ []) → (Text.decimal v.natAbs).length ≤ Text.digitLimit) := by
  rw [numbers, List.forall_mem_append, ← Ty.isWritable_tuple_iff, Ty.IsWritable]
  refine and_congr_right fun _ => ?_
  split
  · rename_i hall
    refine iff_of_true (List.forall_mem_nil _) ?_
    rintro ⟨p, hp, hne⟩
    exact absurd (List.isEmpty_iff.1 (List.all_eq_true.1 hall p hp)) hne
  · rename_i hall
    have hsome : ∃ p ∈ ps, p.kind.unsupported v ≠ [] := by simpa using hall
    rw [List.forall_mem_singleton, forall_prop_of_true hsome]

/-- **A page is written** if its parameters can be, and its version unless it is not on the page. -/
theorem print_eq_ok_iff {title x : String} {v : Int} {ps : List (Field Ty)} :
    print title v ps = .ok x ↔ ((∀ p ∈ ps, p.kind.IsWritable) ∧
      ((∃ p ∈ ps, p.kind.unsupported v ≠ []) → (Text.decimal v.natAbs).length ≤ Text.digitLimit)) ∧
      page title v ps = x :=
  Text.written_eq_ok_iff.trans (and_congr_left' forall_numbers_iff)

theorem outcome_render {title : String} {v : Int} {ps : List (Field Ty)} (h : ps ≠ []) :
    (render title v ps).outcome = print title v ps := by
  rw [render, if_neg (by simpa using h)]
  rfl

end Markdown

namespace Command

/-! ## Asking for documentation -/

/-- **Arguments that ask for the documentation of texts**: by a version, under a title, maybe in a file. -/
inductive Asks : List String → List String → Int → String → Option String → Prop
  | intro {args : List String} {a : Arguments} {v : Int} (hread : Scope.doc.readArguments args = .ok a)
    (hhelp : a.has .help = false) (htexts : a.positional ≠ []) (hv : version a = .ok v) :
    Asks args a.positional v ((a.value? .title).getD Markdown.defaultTitle) (a.value? .output)

/-- Texts, and behind them what is asked about them. -/
def docLine (texts : List String) (n : Nat) (title : String) (file : Option String) : List String :=
  texts ++ ["--abi-version", String.ofList (Text.decimal n), "--title", title] ++ file.elim [] fun path => ["-o", path]

/-- The options of such a line, as they are read. -/
def docOptions (n : Nat) (title : String) (file : Option String) : List Given :=
  ⟨.abiVersion, String.ofList (Text.decimal n)⟩ :: ⟨.title, title⟩ :: file.toList.map (⟨.output, ·⟩)

theorem readArguments_doc_append {rest : List String} : ∀ {texts : List String},
    (∀ t ∈ texts, t.toList.head? ≠ some '-') → Scope.doc.readArguments (texts ++ rest) =
      (Scope.doc.readArguments rest).map fun a => { a with positional := texts ++ a.positional }
  | [], _ => by
    rw [List.nil_append]
    cases Scope.doc.readArguments rest <;> rfl
  | t :: texts, h => by
    obtain ⟨ht, htexts⟩ := List.forall_mem_cons.1 h
    have hdashes : t ≠ "--" := by
      rintro rfl
      exact ht rfl
    have hopt : isOption t = false := by
      unfold isOption
      split
      · rename_i hlist
        rw [hlist] at ht
        exact absurd rfl ht
      · rfl
    rw [List.cons_append, Scope.readArguments, if_neg hdashes, hopt, readArguments_doc_append htexts]
    cases Scope.doc.readArguments rest <;> rfl

theorem readArguments_docLine {texts : List String} (htexts : ∀ t ∈ texts, t.toList.head? ≠ some '-') (n : Nat)
    (title : String) (file : Option String) :
    Scope.doc.readArguments (docLine texts n title file) = .ok ⟨docOptions n title file, texts⟩ := by
  rw [docLine, List.append_assoc, readArguments_doc_append htexts]
  cases file <;> exact congrArg (fun rest => Except.ok (Arguments.mk _ rest)) (List.append_nil texts)

/-- The version asked for by a number's digits. -/
theorem version_of_value? {a : Arguments} {n : Nat} (h : a.value? .abiVersion = some (String.ofList (Text.decimal n))) :
    version a =
      match Text.integer? (Text.decimal n) with
      | none => .error (.noInteger Opt.abiVersion.long (String.ofList (Text.decimal n)))
      | some n => if n < 1 then .error (.tooLow Opt.abiVersion.long n) else .ok n := by
  cases hread : Text.integer? (Text.decimal n) with
  | none => simp only [version, h, String.toList_ofList, hread]
  | some m => simp only [version, h, String.toList_ofList, hread]

theorem value?_docOptions (texts : List String) (n : Nat) (title : String) (file : Option String) :
    (⟨docOptions n title file, texts⟩ : Arguments).value? .abiVersion = some (String.ofList (Text.decimal n)) := by
  cases file <;> rfl

theorem version_eq_ok {a : Arguments} {n : Nat} (h : a.value? .abiVersion = some (String.ofList (Text.decimal n)))
    (hpos : 1 ≤ n) (hn : (Text.decimal n).length ≤ Text.digitLimit) : version a = .ok n := by
  rw [version_of_value? h, Text.integer?_decimal hn]
  exact if_neg (by omega)

/-- **Texts that do not start like options are asked about** as the line says. -/
theorem asks_docLine {texts : List String} {n : Nat} (hne : texts ≠ []) (htexts : ∀ t ∈ texts, t.toList.head? ≠ some '-')
    (hpos : 1 ≤ n) (hn : (Text.decimal n).length ≤ Text.digitLimit) (title : String) (file : Option String) :
    Asks (docLine texts n title file) texts n title file := by
  have hasks := Asks.intro (readArguments_docLine htexts n title file) (by cases file <;> rfl) hne
    (version_eq_ok (value?_docOptions texts n title file) hpos hn)
  cases file <;> exact hasks

section Run

variable [Reader.Stack] {args : List String} {a : Arguments} (place : Surroundings) (program : String)

/-- Arguments that ask for no help are what the command makes of them. -/
theorem runCommand_of_readArguments {s : Scope} (hread : s.readArguments args = .ok a) (hhelp : a.has .help = false) :
    runCommand place program s args =
      match perform place s a with
      | .error m => Outcome.ofMisuse s program m
      | .ok x => .ofProduct x := by
  rw [runCommand, hread]
  exact if_neg (Bool.eq_false_iff.1 hhelp)

/-- A run that starts with a command's name is the command's, its log not shown. -/
theorem run_eq_runCommand {name : String} {s : Scope} (hname : scope? name = some s) (args : List String) :
    run place program (name :: args) = { runCommand place program s args with isVerbose := false, log := [] } := by
  have hgroup : Scope.group.readArguments (name :: args) = .ok ⟨[], name :: args⟩ := by
    unfold scope? at hname
    split at hname
    · rfl
    · rfl
    · rfl
    · cases hname
  simp only [run, List.isEmpty_cons, hgroup, hname]
  rfl

/-- **Arguments that ask for documentation** make it. -/
theorem Asks.runCommand_eq {texts : List String} {v : Int} {title : String} {file : Option String}
    (h : Asks args texts v title file) :
    runCommand place program .doc args = .ofProduct (doc place texts v title file) := by
  cases h with
  | @intro a _ hread hhelp htexts hv =>
    have hsome : someTexts a = .ok a.positional := by
      unfold someTexts
      split
      · contradiction
      · rfl
    have hperform : perform place .doc a =
        .ok (doc place a.positional v ((a.value? .title).getD Markdown.defaultTitle) (a.value? .output)) := by
      simp only [perform, hv, hsome]
      rfl
    rw [runCommand_of_readArguments place program hread hhelp, hperform]

/-- A run whose version is refused is a misuse. -/
theorem run_doc_misuse {m : Misuse} (hread : Scope.doc.readArguments args = .ok a) (hhelp : a.has .help = false)
    (hv : version a = .error m) : run place program ("doc" :: args) = .ofMisuse .doc program m := by
  have hperform : perform place .doc a = .error m := by
    rw [perform, hv]
    rfl
  rw [run_eq_runCommand place program rfl, runCommand_of_readArguments place program hread hhelp, hperform]
  rfl

end Run

/-! ## The first text that is no parameter -/

/-- A parameter is refused as a definition, or for the digits of a number. -/
theorem fault_of_read [Reader.Stack] {text : String} {f : Fault} (h : (Field.read text).outcome = .error f) :
    f.class? = some .invalidData ∨ ∃ (rule : String) (n : Nat), f = .tooManyDigits rule n ∧ Text.digitLimit < n := by
  unfold Field.read at h
  split at h
  · cases h
    exact .inl rfl
  · rw [Traced.outcome_bind_tell] at h
    rename_i p _
    cases hbuild : (Reader.build .param Reader.Stack.levels p).outcome with
    | ok t =>
      rw [hbuild] at h
      cases h
    | error e =>
      rw [hbuild] at h
      cases h
      obtain rfl | ⟨n, -, hn, rfl⟩ := Reader.fault_of_build hbuild
      · exact .inl rfl
      · exact .inr ⟨_, _, rfl, hn⟩

theorem outcome_readParams [Reader.Stack] {texts : List String} {ps : List (Field Ty)}
    (h : List.Forall₂ (fun t p => (Field.read t).outcome = .ok p) texts ps) : (readParams texts).outcome = .ok ps := by
  induction h with
  | nil => rfl
  | cons hp _ ih =>
    exact Traced.outcome_bind_eq_ok_iff.2 ⟨_, hp, Traced.outcome_bind_eq_ok_iff.2 ⟨_, ih, rfl⟩⟩

/-- **The first text that is no parameter is at fault**, whatever comes behind it. -/
theorem outcome_readParams_append [Reader.Stack] {text : String} {f : Fault} (hf : (Field.read text).outcome = .error f)
    (after : List String) : ∀ {before : List String}, (∀ t ∈ before, ∃ p, (Field.read t).outcome = .ok p) →
      (readParams (before ++ text :: after)).outcome = .error f
  | [], _ => Traced.outcome_bind_eq_error_iff.2 (.inl hf)
  | t :: before, h => by
    obtain ⟨⟨p, hp⟩, hbefore⟩ := List.forall_mem_cons.1 h
    exact Traced.outcome_bind_eq_error_iff.2 (.inr ⟨p, hp,
      Traced.outcome_bind_eq_error_iff.2 (.inl (outcome_readParams_append hf after hbefore))⟩)

theorem exists_first_fault [Reader.Stack] : ∀ {texts : List String}, (∃ t ∈ texts, ∀ p, (Field.read t).outcome ≠ .ok p) →
    ∃ before text after f, texts = before ++ text :: after ∧ (∀ t ∈ before, ∃ p, (Field.read t).outcome = .ok p) ∧
      (Field.read text).outcome = .error f
  | [], h => by
    obtain ⟨_, ht, _⟩ := h
    cases ht
  | t :: texts, h => by
    cases hread : (Field.read t).outcome with
    | error f => exact ⟨[], t, texts, f, rfl, nofun, hread⟩
    | ok p =>
      obtain ⟨u, hu, hnot⟩ := h
      have hu : u ∈ texts := (List.mem_cons.1 hu).resolve_left fun heq => hnot p (heq ▸ hread)
      obtain ⟨before, text, after, f, rfl, hbefore, hf⟩ := exists_first_fault ⟨u, hu, hnot⟩
      exact ⟨t :: before, text, after, f, rfl, List.forall_mem_cons.2 ⟨⟨p, hread⟩, hbefore⟩, hf⟩

/-! ## All or nothing -/

section Outcome

variable [Reader.Stack] {place : Surroundings} {texts : List String} {v : Int} {title : String} {page : String}

theorem outcome_doc_none {ps : List (Field Ty)} (hps : (readParams texts).outcome = .ok ps)
    (hpage : (Markdown.render title v ps).outcome = .ok page) :
    (doc place texts v title none).outcome = .ok ⟨0, page, []⟩ :=
  Traced.outcome_bind_eq_ok_iff.2 ⟨ps, hps, Traced.outcome_bind_eq_ok_iff.2 ⟨page, hpage, rfl⟩⟩

theorem outcome_doc_some {ps : List (Field Ty)} (hps : (readParams texts).outcome = .ok ps)
    (hpage : (Markdown.render title v ps).outcome = .ok page) {path : String} {name : Option String}
    (hplace : place path = .ok name) :
    (doc place texts v title (some path)).outcome = .ok ⟨0, "", name.toList.map (·, page)⟩ := by
  refine Traced.outcome_bind_eq_ok_iff.2 ⟨ps, hps, Traced.outcome_bind_eq_ok_iff.2 ⟨page, hpage, ?_⟩⟩
  simp only [hplace]
  rfl

end Outcome

/-- **The version that is asked for can be written.** -/
theorem length_decimal_of_version {a : Arguments} {v : Int} (h : version a = .ok v) :
    (Text.decimal v.natAbs).length ≤ Text.digitLimit := by
  unfold version at h
  split at h
  · cases h
    decide
  · split at h
    · cases h
    · split at h
      · cases h
      · cases h
        exact Text.length_decimal_of_integer? ‹_›

theorem Asks.texts_ne_nil {args texts : List String} {v : Int} {title : String} {file : Option String}
    (h : Asks args texts v title file) : texts ≠ [] := by
  cases h with
  | intro _ _ htexts _ => exact htexts

/-- **Texts that are parameters have a page.** -/
theorem Asks.print_eq_ok [Reader.Stack] {args texts : List String} {v : Int} {title : String} {file : Option String}
    (h : Asks args texts v title file) {ps : List (Field Ty)}
    (hps : List.Forall₂ (fun t p => (Field.read t).outcome = .ok p) texts ps) :
    Markdown.print title v ps = .ok (Markdown.page title v ps) := by
  cases h with
  | intro _ _ _ hv =>
    exact Markdown.print_eq_ok_iff.2 ⟨⟨Ty.isWritable_tuple_iff.1 (Ty.isWritable_tuple_of_read hps),
      fun _ => length_decimal_of_version hv⟩, rfl⟩

/-- **Documentation is all or nothing.**  If all texts are parameters, the run makes the page of them in their order, and
prints it or writes it to the file.  The first text that is no parameter is reported otherwise, as the fault of a
definition or, for too many digits, by a fault that escapes; nothing is written then. -/
theorem doc_all_or_nothing [Reader.Stack] :
    (∀ (texts : List String) (n : Nat) (title : String) (file : Option String), texts ≠ [] →
      (∀ t ∈ texts, t.toList.head? ≠ some '-') → 1 ≤ n → (Text.decimal n).length ≤ Text.digitLimit →
      Asks (docLine texts n title file) texts n title file) ∧
    ∀ (place : Surroundings) (program : String) (args texts : List String) (v : Int) (title : String)
      (file : Option String), Asks args texts v title file →
      let made := run place program ("doc" :: args)
      (∀ ps, List.Forall₂ (fun t p => (Field.read t).outcome = .ok p) texts ps →
        ∃ page, (Markdown.render title v ps).outcome = .ok page ∧
          (file = none → made = { exitCode := 0, output := page }) ∧
          ∀ path name, file = some path → place path = .ok name →
            made = { exitCode := 0, files := name.toList.map (·, page) }) ∧
      ((∃ t ∈ texts, ∀ p, (Field.read t).outcome ≠ .ok p) →
        ∃ before text after f, texts = before ++ text :: after ∧
          (∀ t ∈ before, ∃ p, (Field.read t).outcome = .ok p) ∧ (Field.read text).outcome = .error f ∧
          (f.class? = some .invalidData ∧ made = { exitCode := 1, output := "Error: " ++ f.message ++ "\n" } ∨
            (∃ (rule : String) (n : Nat), f = .tooManyDigits rule n ∧ Text.digitLimit < n) ∧
              made = { exitCode := 1, escaped := some f })) := by
  refine ⟨fun texts n title file hne htexts hpos hn => asks_docLine hne htexts hpos hn title file,
    fun place program args texts v title file h => ?_⟩
  intro made
  have hmade : made = { Outcome.ofProduct (doc place texts v title file) with isVerbose := false, log := [] } :=
    (run_eq_runCommand place program rfl args).trans (by rw [h.runCommand_eq])
  refine ⟨fun ps hps => ?_, fun hnot => ?_⟩
  · have hread := outcome_readParams hps
    have hne : ps ≠ [] := by
      rintro rfl
      exact h.texts_ne_nil (List.forall₂_nil_right_iff.1 hps)
    have hpage : (Markdown.render title v ps).outcome = .ok (Markdown.page title v ps) :=
      (Markdown.outcome_render hne).trans (h.print_eq_ok hps)
    refine ⟨_, hpage, ?_, ?_⟩
    · rintro rfl
      rw [hmade, Outcome.ofProduct, outcome_doc_none hread hpage]
    · rintro path name rfl hplace
      rw [hmade, Outcome.ofProduct, outcome_doc_some hread hpage hplace]
  · obtain ⟨before, text, after, f, htexts, hbefore, hf⟩ := exists_first_fault hnot
    refine ⟨before, text, after, f, htexts, hbefore, hf, ?_⟩
    have hout : (doc place texts v title file).outcome = .error f :=
      Traced.outcome_bind_eq_error_iff.2 (.inl (htexts ▸ outcome_readParams_append hf after hbefore))
    rw [hmade, Outcome.ofProduct, hout]
    obtain hclass | ⟨rule, n, rfl, hn⟩ := fault_of_read hf
    · refine .inl ⟨hclass, ?_⟩
      simp only [hclass, Option.isSome_some, if_true]
    · exact .inr ⟨⟨rule, n, rfl, hn⟩, rfl⟩

/-- One line makes a file, the other ends at the second of three texts. -/
theorem doc_all_or_nothing_file :
    (∃ page, run emptyDirectory "cli" ("doc" :: docLine ["a:bool", "to:address"] 1 "Call" (some "./out.md")) =
      { exitCode := 0, files := [("out.md", page)] }) ∧
    run emptyDirectory "cli" ("doc" :: docLine ["a:bool", "b", "c:"] 1 "Call" (some "./out.md")) =
      { exitCode := 1, output := "Error: Invalid param 'b' at column -1\n" } := by
  have hasks : ∀ texts : List String, texts ≠ [] → (∀ t ∈ texts, t.toList.head? ≠ some '-') →
      Asks (docLine texts 1 "Call" (some "./out.md")) texts 1 "Call" (some "./out.md") := fun texts hne htexts =>
    doc_all_or_nothing.1 texts 1 "Call" _ hne htexts (by decide) (by decide)
  have hbool : (Field.read "a:bool").outcome = .ok ⟨"a", .scalar (.plain .bool)⟩ := by rfl
  have haddress : (Field.read "to:address").outcome = .ok ⟨"to", .scalar (.plain .address)⟩ := by rfl
  have hb : (Field.read "b").outcome = .error (.malformed .param "b" (-1)) := by rfl
  have hmessage : "Error: " ++ (Fault.malformed .param "b" (-1)).message ++ "\n" =
      "Error: Invalid param 'b' at column -1\n" := by decide +kernel
  constructor
  · obtain ⟨page, -, -, hfile⟩ := (doc_all_or_nothing.2 emptyDirectory "cli" _ _ _ _ _
      (hasks ["a:bool", "to:address"] (by decide) (by decide))).1 _ (.cons hbool (.cons haddress .nil))
    exact ⟨page, hfile "./out.md" (some "out.md") rfl (by decide)⟩
  · obtain ⟨before, text, after, f, htexts, hbefore, hf, hmade⟩ := (doc_all_or_nothing.2 emptyDirectory "cli" _ _ _ _ _
      (hasks ["a:bool", "b", "c:"] (by decide) (by decide))).2 ⟨"b", by decide, fun p hp => by cases hb.symm.trans hp⟩
    match before with
    | [] =>
      obtain ⟨rfl, -⟩ := List.cons.inj htexts
      cases hbool.symm.trans hf
    | [_] =>
      obtain ⟨rfl, -⟩ := List.cons.inj (List.cons.inj htexts).2
      cases hb.symm.trans hf
      obtain ⟨-, hmade⟩ | ⟨⟨_, _, hf, -⟩, -⟩ := hmade
      · rwa [hmessage] at hmade
      · cases hf
    | _ :: _ :: _ =>
      obtain ⟨rfl, -⟩ := List.cons.inj (List.cons.inj htexts).2
      obtain ⟨p, hp⟩ := hbefore "b" (List.mem_cons_of_mem _ List.mem_cons_self)
      cases hb.symm.trans hp

/-- **A version of more digits than can be read is refused**, so there is no documentation for it. -/
theorem doc_not_for_every_version :
    ¬ ∀ (texts : List String) (n : Nat) (title : String) (ps : List (Field Ty)), texts ≠ [] →
      (∀ t ∈ texts, t.toList.head? ≠ some '-') → 1 ≤ n →
      List.Forall₂ (fun t p => (Field.read t).outcome = .ok p) texts ps →
      (run emptyDirectory "cli" ("doc" :: docLine texts n title none)).exitCode = 0 := by
  intro h
  have hbool : (Field.read "a:bool").outcome = .ok ⟨"a", .scalar (.plain .bool)⟩ := by rfl
  have htexts : ∀ t ∈ ["a:bool"], t.toList.head? ≠ some '-' := by decide
  obtain ⟨n, hpos, hread⟩ := Text.exists_integer?_eq_none
  have hversion := version_of_value? (value?_docOptions ["a:bool"] n "Parameters" none)
  rw [hread] at hversion
  have hzero := h ["a:bool"] n "Parameters" _ (by decide) htexts hpos (.cons hbool .nil)
  have hhelp : (⟨docOptions n "Parameters" none, ["a:bool"]⟩ : Arguments).has .help = false := rfl
  rw [run_doc_misuse _ _ (readArguments_docLine htexts n "Parameters" none) hhelp hversion] at hzero
  cases hzero

end Command
end AbiTypes
