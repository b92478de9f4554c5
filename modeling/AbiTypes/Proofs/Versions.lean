import AbiTypes.Proofs.Canonical
import AbiTypes.Proofs.Documentation
import AbiTypes.Proofs.Shape
/-!
# Versions — the nodes that a version does not support

Support only grows with the version, and the nodes that the first version does not support are the message headers.  Their
names can be read off the signature: no other name contains one of them, and a mark or a digit, which is in none, separates
what two nodes are spelled like (`Text.occurrences_append_cons`).
-/
namespace AbiTypes

namespace Text

/-- **The occurrences of words in a text**, from left to right. -/
def occurrences (words : List String) (cs : List Char) : List String :=
  cs.tails.flatMap fun rest => words.filter fun w => w.toList.isPrefixOf rest

/-- A character that no word contains. -/
def Separates (words : List String) (c : Char) : Prop := ∀ w ∈ words, c ∉ w.toList

variable {words : List String}

theorem isPrefixOf_append_cons {c : Char} (ys : List Char) : ∀ {w xs : List Char}, c ∉ w →
    w.isPrefixOf (xs ++ c :: ys) = w.isPrefixOf xs
  | [], _, _ => rfl
  | d :: w, [], h => by
    have hd : d ≠ c := fun hdc => h (hdc ▸ List.mem_cons_self)
    simp [List.isPrefixOf, hd]
  | d :: w, x :: xs, h => by
    rw [List.cons_append, List.isPrefixOf, List.isPrefixOf, isPrefixOf_append_cons ys (List.not_mem_of_not_mem_cons h)]

theorem occurrences_nil (hwords : "" ∉ words) : occurrences words [] = [] := by
  refine (List.append_nil _).trans (List.filter_eq_nil_iff.2 fun w hw hprefix => ?_)
  obtain rfl : w = "" := String.toList_injective (by simpa using hprefix)
  exact hwords hw

/-- **A character that no word contains separates the occurrences.** -/
theorem occurrences_append_cons (hwords : "" ∉ words) {c : Char} (hc : Separates words c) (ys : List Char) :
    ∀ xs, occurrences words (xs ++ c :: ys) = occurrences words xs ++ occurrences words ys
  | [] => by
    have hnone : (words.filter fun w => w.toList.isPrefixOf (c :: ys)) = [] := by
      have hprefix (w : String) (hw : w ∈ words) : w.toList.isPrefixOf ([] ++ c :: ys) = w.toList.isPrefixOf [] :=
        isPrefixOf_append_cons ys (hc w hw)
      exact (List.filter_congr hprefix).trans ((List.append_nil _).symm.trans (occurrences_nil hwords))
    rw [List.nil_append, occurrences_nil hwords, occurrences, List.tails, List.flatMap_cons, hnone]
    rfl
  | x :: xs => by
    have hhead : (words.filter fun w => w.toList.isPrefixOf (x :: xs ++ c :: ys)) =
        words.filter fun w => w.toList.isPrefixOf (x :: xs) :=
      List.filter_congr fun w hw => isPrefixOf_append_cons ys (hc w hw)
    have ih := occurrences_append_cons hwords hc ys xs
    rw [List.cons_append, occurrences, List.tails, List.flatMap_cons, ← List.cons_append, hhead]
    exact (congrArg (_ ++ ·) ih).trans (List.append_assoc _ _ _).symm

theorem occurrences_append (hwords : "" ∉ words) : ∀ {ys : List Char} (xs : List Char), (∀ c ∈ ys, Separates words c) →
    occurrences words (xs ++ ys) = occurrences words xs
  | [], xs, _ => by rw [List.append_nil]
  | c :: ys, xs, h => by
    obtain ⟨hc, hys⟩ := List.forall_mem_cons.1 h
    have hnone := occurrences_append hwords [] hys
    rw [List.nil_append, occurrences_nil hwords] at hnone
    rw [occurrences_append_cons hwords hc, hnone, List.append_nil]

end Text

/-! ## Headers -/

/-- The names of the types that came with the second version. -/
def headerWords : List String := ["time", "expire", "pubkey"]

theorem empty_notMem_headerWords : "" ∉ headerWords := by decide

theorem separates_mark {c : Char} (h : c ∈ ['(', ')', '[', ']', ',']) : Text.Separates headerWords c := by
  have hmarks : ∀ c ∈ ['(', ')', '[', ']', ','], ∀ w ∈ headerWords, c ∉ w.toList := Text.forall_of_all (by decide)
  exact hmarks c h

theorem separates_digit {c : Char} (h : c.isDigit = true) : Text.Separates headerWords c := by
  have hletters : ∀ w ∈ headerWords, (w.toList.all fun d => !d.isDigit) = true := by decide
  intro w hw hc
  have hno := List.all_eq_true.1 (hletters w hw) c hc
  rw [h] at hno
  cases hno

theorem separates_decimal (n : Nat) : ∀ c ∈ Text.decimal n, Text.Separates headerWords c := fun c hc =>
  separates_digit ((isNumeral_decimal n).2 c hc)

/-- The occurrences of the headers' names. -/
def headersOf (cs : List Char) : List String := Text.occurrences headerWords cs

theorem headersOf_append_cons {c : Char} (hc : Text.Separates headerWords c) (xs ys : List Char) :
    headersOf (xs ++ c :: ys) = headersOf xs ++ headersOf ys :=
  Text.occurrences_append_cons empty_notMem_headerWords hc ys xs

theorem headersOf_append {ys : List Char} (xs : List Char) (h : ∀ c ∈ ys, Text.Separates headerWords c) :
    headersOf (xs ++ ys) = headersOf xs :=
  Text.occurrences_append empty_notMem_headerWords xs h

theorem headersOf_intercalate : ∀ ls : List (List Char), headersOf ([','].intercalate ls) = ls.flatMap headersOf
  | [] => by decide
  | [l] => by rw [List.intercalate_singleton, List.flatMap_singleton]
  | l :: k :: ls => by
    rw [List.intercalate_cons_cons, List.append_assoc, List.singleton_append,
      headersOf_append_cons (separates_mark (by decide)), headersOf_intercalate (k :: ls)]
    rfl

/-- The headers in parentheses are those of their parts. -/
theorem headersOf_parentheses (xs : List Char) (ls : List (List Char)) :
    headersOf (xs ++ '(' :: ([','].intercalate ls ++ [')'])) = headersOf xs ++ ls.flatMap headersOf := by
  rw [headersOf_append_cons (separates_mark (by decide)),
    headersOf_append _ (List.forall_mem_singleton.2 (separates_mark (by decide))), headersOf_intercalate]

namespace Ty

/-- The nodes a version does not support are the descriptor itself, perhaps, and those among its parts. -/
theorem unsupported_eq (t : Ty) (v : Int) :
    t.unsupported v = (if t.isSupported v then [] else [t]) ++ t.children.flatMap (unsupported · v) := by
  rw [unsupported, nodes_eq, List.filter_cons, List.filter_flatMap]
  cases t.isSupported v <;> rfl

theorem unsupportedSignatures_eq (t : Ty) (v : Int) : t.unsupportedSignatures v =
    (if t.isSupported v then [] else [t.signature]) ++ t.children.flatMap (unsupportedSignatures · v) := by
  rw [unsupportedSignatures, unsupported_eq, List.map_append, List.map_flatMap, apply_ite (List.map _)]
  rfl

/-- **What the first version does not support is what the signature names a header.** -/
theorem unsupportedSignatures_one (t : Ty) : t.unsupportedSignatures 1 = headersOf t.spelled := by
  induction t with
  | scalar s =>
    cases s with
    | plain p => cases p <;> decide
    | sized s n =>
      have hword : headersOf s.word = [] := by cases s <;> decide
      rw [unsupportedSignatures_eq, spelled_sized, headersOf_append _ (separates_decimal n), hword]
      rfl
  | tuple fs ih =>
    rw [unsupportedSignatures_eq, children_tuple, List.flatMap_map, spelled_tuple, ← List.nil_append ('(' :: _),
      headersOf_parentheses, List.flatMap_map]
    exact List.flatMap_congr ih
  | array e ih =>
    have hbrackets : ∀ c ∈ ['[', ']'], Text.Separates headerWords c := by
      simp only [List.forall_mem_cons]
      exact ⟨separates_mark (by decide), separates_mark (by decide), nofun⟩
    rw [unsupportedSignatures_eq, children_array, List.flatMap_singleton, ih, spelled_array, headersOf_append _ hbrackets]
    rfl
  | fixedArray e n ih =>
    have hbrackets : ∀ c ∈ '[' :: (Text.decimal n ++ [']']), Text.Separates headerWords c := by
      simp only [List.forall_mem_cons, List.forall_mem_append]
      exact ⟨separates_mark (by decide), separates_decimal n, separates_mark (by decide), nofun⟩
    rw [unsupportedSignatures_eq, children_fixedArray, List.flatMap_singleton, ih, spelled_fixedArray,
      headersOf_append _ hbrackets]
    rfl
  | map k v ihk ihv =>
    have hword : headersOf Token.mapWord = [] := by decide
    rw [unsupportedSignatures_eq, children_map, spelled_map, headersOf_parentheses, hword, List.flatMap_cons,
      List.flatMap_singleton, List.flatMap_cons, List.flatMap_singleton, ihk, ihv]
    rfl

/-! ## Versions in order -/

theorem isSupported_mono {t : Ty} {v w : Int} (h : v ≤ w) (ht : t.isSupported v = true) : t.isSupported w = true := by
  simp only [isSupported, decide_eq_true_eq] at *
  exact Int.le_trans ht h

/-- **A later version supports no less.** -/
theorem unsupported_sublist (t : Ty) {v w : Int} (h : v ≤ w) : (t.unsupported w).Sublist (t.unsupported v) := by
  refine List.monotone_filter_right _ fun u hu => ?_
  rw [Bool.not_eq_eq_eq_not, Bool.not_true] at *
  exact Bool.eq_false_iff.2 fun hv => Bool.eq_false_iff.1 hu (isSupported_mono h hv)

theorem unsupported_eq_nil_iff {t : Ty} {v : Int} : t.unsupported v = [] ↔ ∀ u ∈ t.nodes, u.since ≤ v := by
  simp [unsupported, isSupported]

/-- No version below the first supports anything. -/
theorem unsupported_eq_nodes (t : Ty) {v : Int} (h : v ≤ 0) : t.unsupported v = t.nodes := by
  refine List.filter_eq_self.2 fun u _ => ?_
  have := u.since_eq
  simp only [isSupported, Bool.not_eq_eq_eq_not, Bool.not_true, decide_eq_false_iff_not]
  omega

/-- **The version that supports all of a descriptor** is the highest that one of its nodes came with. -/
theorem exists_max_since (t : Ty) : ∃ m, (t.nodes.map since).max? = some m ∧ ∀ v, t.unsupported v = [] ↔ m ≤ v := by
  have hne : t.nodes.map since ≠ [] := by
    rw [nodes_eq]
    exact List.cons_ne_nil _ _
  cases hm : (t.nodes.map since).max? with
  | none => exact absurd (List.max?_eq_none_iff.1 hm) hne
  | some m =>
    refine ⟨m, rfl, fun v => ?_⟩
    obtain ⟨hmem, hle⟩ := List.max?_eq_some_iff.1 hm
    rw [unsupported_eq_nil_iff]
    constructor
    · intro h
      obtain ⟨u, hu, rfl⟩ := List.mem_map.1 hmem
      exact h u hu
    · exact fun h u hu => Int.le_trans (hle _ (List.mem_map_of_mem hu)) h

/-- The second version supports everything. -/
theorem unsupported_eq_nil (t : Ty) {v : Int} (h : 2 ≤ v) : t.unsupported v = [] :=
  unsupported_eq_nil_iff.2 fun u _ => by
    have := u.since_eq
    omega

/-- **The versions that support all of a descriptor**: the second and those behind it, and the first one unless the
signature names a header. -/
theorem unsupported_eq_nil_iff_headersOf {t : Ty} {v : Int} (h : 1 ≤ v) :
    t.unsupported v = [] ↔ 2 ≤ v ∨ headersOf t.spelled = [] := by
  by_cases hv : 2 ≤ v
  · exact iff_of_true (t.unsupported_eq_nil hv) (.inl hv)
  · obtain rfl : v = 1 := by omega
    rw [← unsupportedSignatures_one, unsupportedSignatures, List.map_eq_nil_iff, or_iff_right hv]

end Ty

namespace Command

/-! ## Asking for a report -/

/-- **What a report says about a descriptor that was read can be written.** -/
theorem numbers_of_read [Reader.Stack] {text : String} {t : Ty} (h : (Ty.read text).outcome = .ok t) :
    ∀ n ∈ t.report.numbers, (Text.decimal n).length ≤ Text.digitLimit := by
  have hdepth : (Text.decimal t.depth).length ≤ 3 := by
    have hlevels := Nat.lt_of_le_of_lt (Ty.depth_of_read h) (Nat.succ_lt_succ Reader.Stack.lt_vain)
    exact Nat.toDigits_length 10 t.depth 3 (by decide) (Nat.lt_trans hlevels (by decide))
  exact Report.forall_numbers (Ty.isWritable_of_read h) (Nat.le_trans hdepth (by decide))

/-- **A report on a descriptor that was read** is printed whatever the version supports. -/
theorem outcome_info [Reader.Stack] {text : String} {t : Ty} (h : (Ty.read text).outcome = .ok t) {v : Int}
    (hv : (Text.decimal v.natAbs).length ≤ Text.digitLimit) (json : Bool) :
    (info text v json).outcome = .ok ⟨if t.unsupported v = [] then 0 else 1,
      if json then t.report.json ++ "\n" else t.report.plain v (t.unsupportedSignatures v), []⟩ := by
  have hwritable := Ty.isWritable_of_read h
  have hnumbers := numbers_of_read h
  have hlisted : Ty.printAll (t.unsupported v) = .ok (t.unsupportedSignatures v) :=
    Ty.printAll_eq_ok fun u hu => hwritable.of_mem_nodes (List.mem_of_mem_filter hu)
  have hplain : t.report.printPlain v (t.unsupportedSignatures v) = .ok (t.report.plain v (t.unsupportedSignatures v)) :=
    Text.written_of_forall (List.forall_mem_append.2 ⟨hnumbers, List.forall_mem_singleton.2 hv⟩)
  have houtput : (if json then t.report.printJson.map (· ++ "\n") else t.report.printPlain v (t.unsupportedSignatures v)) =
      .ok (if json then t.report.json ++ "\n" else t.report.plain v (t.unsupportedSignatures v)) := by
    cases json with
    | false => exact hplain
    | true => exact congrArg (Except.map (· ++ "\n")) (Text.written_of_forall hnumbers)
  have hempty : (t.unsupportedSignatures v).isEmpty = true ↔ t.unsupported v = [] := by
    rw [Ty.unsupportedSignatures, List.isEmpty_map, List.isEmpty_iff]
  refine Traced.outcome_bind_eq_ok_iff.2 ⟨t, h, Traced.outcome_bind_eq_ok_iff.2 ⟨t.report, Text.written_of_forall hwritable,
    Traced.outcome_bind_eq_ok_iff.2 ⟨_, hlisted, Traced.outcome_bind_eq_ok_iff.2 ⟨_, houtput, ?_⟩⟩⟩⟩
  by_cases hv : t.unsupported v = []
  · rw [if_pos hv, if_pos (hempty.2 hv)]
    exact rfl
  · rw [if_neg hv, if_neg (mt hempty.1 hv)]
    exact rfl

/-- **The exit code of a report** does not depend on its form. -/
theorem exitCode_info [Reader.Stack] (text : String) {v : Int} (hv : (Text.decimal v.natAbs).length ≤ Text.digitLimit)
    (json : Bool) : (Outcome.ofProduct (info text v json)).exitCode =
      match (Ty.read text).outcome with
      | .ok t => if t.unsupported v = [] then 0 else 1
      | .error _ => 1 := by
  cases h : (Ty.read text).outcome with
  | error f =>
    have hout : (info text v json).outcome = .error f := Traced.outcome_bind_eq_error_iff.2 (.inl h)
    rw [Outcome.ofProduct, hout]
    exact (apply_ite Outcome.exitCode _ _ _).trans (ite_self 1)
  | ok t => rw [Outcome.ofProduct, outcome_info h hv]

/-- **Arguments that ask for a report on one text** and its support in a version, as JSON or not. -/
inductive AsksAbout : List String → String → Int → Bool → Prop
  | intro {args : List String} {a : Arguments} {text : String} {v : Int} (hread : Scope.info.readArguments args = .ok a)
    (hhelp : a.has .help = false) (htext : a.positional = [text]) (hv : version a = .ok v) :
    AsksAbout args text v (a.has .json)

/-- A text, and behind it what is asked about it. -/
def infoLine (text : String) (n : Nat) (json : Bool) : List String :=
  [text, "--abi-version", String.ofList (Text.decimal n)] ++ if json then ["--json"] else []

def infoOptions (n : Nat) (json : Bool) : List Given :=
  ⟨.abiVersion, String.ofList (Text.decimal n)⟩ :: if json then [⟨.json, ""⟩] else []

theorem value?_infoOptions (text : String) (n : Nat) (json : Bool) :
    (⟨infoOptions n json, [text]⟩ : Arguments).value? .abiVersion = some (String.ofList (Text.decimal n)) := by
  cases json <;> rfl

section Asks

variable {args : List String} {text : String} {v : Int} {json : Bool}

/-- A version that is asked about can be written. -/
theorem AsksAbout.length_decimal_le (h : AsksAbout args text v json) :
    (Text.decimal v.natAbs).length ≤ Text.digitLimit := by
  cases h with
  | intro _ _ _ hv => exact length_decimal_of_version hv

/-- No version below the first is asked about. -/
theorem AsksAbout.one_le (h : AsksAbout args text v json) : 1 ≤ v := by
  cases h with
  | intro _ _ _ hv =>
    unfold version at hv
    split at hv
    · cases hv
      decide
    · split at hv
      · cases hv
      · split at hv
        · cases hv
        · cases hv
          omega

variable [Reader.Stack] {t : Ty}

/-- A text that is read as a type is no option. -/
theorem readArguments_cons_of_read (h : (Ty.read text).outcome = .ok t) (rest : List String) :
    Scope.info.readArguments (text :: rest) =
      (Scope.info.readArguments rest).map fun a => { a with positional := text :: a.positional } := by
  have hopt := isOption_eq_false_of_read h
  have hdashes : text ≠ "--" := by
    rintro rfl
    cases hopt
  rw [Scope.readArguments, if_neg hdashes, hopt]
  cases Scope.info.readArguments rest <;> rfl

theorem readArguments_infoLine (h : (Ty.read text).outcome = .ok t) (n : Nat) (json : Bool) :
    Scope.info.readArguments (infoLine text n json) = .ok ⟨infoOptions n json, [text]⟩ := by
  rw [infoLine, List.cons_append, readArguments_cons_of_read h]
  cases json <;> rfl

/-- **Any text that is read as a type can be asked about**, for any version that can be given. -/
theorem asksAbout_infoLine (h : (Ty.read text).outcome = .ok t) {n : Nat} (hpos : 1 ≤ n)
    (hn : (Text.decimal n).length ≤ Text.digitLimit) (json : Bool) : AsksAbout (infoLine text n json) text n json := by
  have hasks := AsksAbout.intro (readArguments_infoLine h n json) (by cases json <;> rfl) rfl
    (version_eq_ok (value?_infoOptions text n json) hpos hn)
  cases json <;> exact hasks

/-- It can be asked about without more ado as well. -/
theorem asksAbout_text (h : (Ty.read text).outcome = .ok t) :
    AsksAbout [text] text defaultVersion false :=
  .intro (readArguments_cons_of_read h []) rfl rfl rfl

theorem exitCode_run_info (place : Surroundings) (program : String) (args : List String) :
    (run place program ("info" :: args)).exitCode = (runCommand place program .info args).exitCode := by
  rw [run_eq_runCommand place program rfl]

/-- What is asked about a text is what the command makes of it. -/
theorem AsksAbout.runCommand_eq (place : Surroundings) (program : String) (h : AsksAbout args text v json) :
    runCommand place program .info args = .ofProduct (info text v json) := by
  cases h with
  | @intro a _ _ hread hhelp htext hv =>
    have hperform : perform place .info a = .ok (info text v (a.has .json)) := by
      simp only [perform, hv, oneText, htext]
      rfl
    rw [runCommand_of_readArguments place program hread hhelp, hperform]

theorem AsksAbout.exitCode_eq (place : Surroundings) (program : String) (h : AsksAbout args text v json)
    (ht : (Ty.read text).outcome = .ok t) :
    (run place program ("info" :: args)).exitCode = if t.unsupported v = [] then 0 else 1 := by
  rw [exitCode_run_info, h.runCommand_eq, Outcome.ofProduct, outcome_info ht h.length_decimal_le]

end Asks

/-! ## The form of a report -/

/-- The options of some arguments, but for the form of a report. -/
def Arguments.formless (a : Arguments) : List Given := a.given.filter fun g => g.opt ≠ .json

section Form

variable {a b : Arguments}

theorem Arguments.has_congr (h : a.formless = b.formless) {o : Opt} (ho : o ≠ .json) : a.has o = b.has o := by
  have hform : ∀ c : Arguments, c.has o = c.formless.any fun g => g.opt = o := by
    intro c
    rw [Arguments.has, Arguments.formless, List.any_filter]
    refine congrArg c.given.any (funext fun g => ?_)
    by_cases hg : g.opt = o <;> simp [hg, ho]
  rw [hform, hform, h]

theorem Arguments.value?_congr (h : a.formless = b.formless) {o : Opt} (ho : o ≠ .json) : a.value? o = b.value? o := by
  have hform : ∀ c : Arguments, c.value? o = (c.formless.reverse.find? fun g => g.opt = o).map Given.value := by
    intro c
    rw [Arguments.value?, Arguments.formless, ← List.filter_reverse, List.find?_filter]
    refine congrArg (fun p => (c.given.reverse.find? p).map Given.value) (funext fun g => ?_)
    by_cases hg : g.opt = o <;> simp [hg, ho]
  rw [hform, hform, h]

theorem version_congr (h : a.formless = b.formless) : version a = version b := by
  rw [version, version, Arguments.value?_congr h (by decide)]

/-- **The form of a report never changes the exit code**, whatever else is asked for or goes wrong. -/
theorem exitCode_runCommand_info_congr [Reader.Stack] (place : Surroundings) (program : String) {args args' : List String}
    (ha : Scope.info.readArguments args = .ok a) (hb : Scope.info.readArguments args' = .ok b)
    (hform : a.formless = b.formless) (hpositional : a.positional = b.positional) :
    (runCommand place program .info args).exitCode = (runCommand place program .info args').exitCode := by
  rw [runCommand, runCommand, ha, hb]
  simp only [Arguments.has_congr hform (show Opt.help ≠ .json by decide), perform, version_congr hform, oneText, hpositional]
  cases b.has .help with
  | true => rfl
  | false =>
    cases hversion : version b with
    | error m => rfl
    | ok v =>
      have hv := length_decimal_of_version hversion
      cases b.positional with
      | nil => rfl
      | cons text extra =>
        cases extra with
        | nil => exact (exitCode_info text hv _).trans (exitCode_info text hv _).symm
        | cons _ _ => rfl

end Form

/-! ## Support by version -/

/-- **Support over whole descriptors.**  A later version supports no less; the versions that support everything start with
the highest one that a node came with, those below the first support nothing, and what the first does not support are the
headers that the signature names, if it can be written.  So a report on a text that any stack has room for ends well for
every version but the first, and for that one if the signature names no header, in whatever form. -/
theorem support_by_version [Reader.Stack] :
    (∀ t : Ty, (∀ v w : Int, v ≤ w → (t.unsupported w).Sublist (t.unsupported v)) ∧
      (∃ m, (t.nodes.map Ty.since).max? = some m ∧ ∀ v, t.unsupported v = [] ↔ m ≤ v) ∧
      (∀ v ≤ 0, t.unsupported v = t.nodes) ∧
      (t.IsWritable → ∃ s, t.print = .ok s ∧
        Ty.printAll (t.unsupported 1) = .ok (Text.occurrences ["time", "expire", "pubkey"] s.toList))) ∧
    (∀ (text : String) (t : Ty) (n : Nat) (json : Bool), (Ty.read text).outcome = .ok t → 1 ≤ n →
      (Text.decimal n).length ≤ Text.digitLimit → AsksAbout (infoLine text n json) text n json) ∧
    ∀ (place : Surroundings) (program : String) (args : List String),
      (∀ (text : String) (v : Int) (json : Bool) (t : Ty), AsksAbout args text v json → (Ty.read text).outcome = .ok t →
        t.depth ≤ Reader.sureNesting + 1 →
        ((run place program ("info" :: args)).exitCode = 0 ↔
          2 ≤ v ∨ Text.occurrences ["time", "expire", "pubkey"] t.signature.toList = [])) ∧
      ∀ (a b : Arguments) (args' : List String), Scope.info.readArguments args = .ok a →
        Scope.info.readArguments args' = .ok b → a.formless = b.formless → a.positional = b.positional →
        (run place program ("info" :: args)).exitCode = (run place program ("info" :: args')).exitCode := by
  refine ⟨fun t => ⟨fun v w h => t.unsupported_sublist h, t.exists_max_since, fun v h => t.unsupported_eq_nodes h, ?_⟩,
    fun text t n json ht hpos hn => asksAbout_infoLine ht hpos hn json,
    fun place program args => ⟨fun text v json t h ht _ => ?_, fun a b args' ha hb hform hpositional => ?_⟩⟩
  · intro hwritable
    have hlisted := Ty.printAll_eq_ok fun u (hu : u ∈ t.unsupported 1) => hwritable.of_mem_nodes (List.mem_of_mem_filter hu)
    refine ⟨t.signature, Ty.print_eq_ok_iff.2 ⟨hwritable, rfl⟩, hlisted.trans (congrArg Except.ok ?_)⟩
    rw [Ty.signature, String.toList_ofList]
    exact t.unsupportedSignatures_one
  · have hzero : (if t.unsupported v = [] then 0 else 1) = 0 ↔ t.unsupported v = [] := by simp
    rw [h.exitCode_eq place program ht, hzero, Ty.unsupported_eq_nil_iff_headersOf h.one_le, Ty.signature,
      String.toList_ofList]
    rfl
  · rw [exitCode_run_info, exitCode_run_info, exitCode_runCommand_info_congr place program ha hb hform hpositional]

/-- Headers below a map, a tuple and an array are named in the order of the text, one of them twice. -/
theorem support_by_version_headers :
    let text := "map(uint8,(pubkey,time[],pubkey))"
    let t : Ty := .map (.scalar (.sized .uint 8)) (.tuple [⟨"value0", .scalar (.plain .pubkey)⟩,
      ⟨"value1", .array (.scalar (.plain .time))⟩, ⟨"value2", .scalar (.plain .pubkey)⟩])
    (Ty.read text).outcome = .ok t ∧ Ty.printAll (t.unsupported 1) = .ok ["pubkey", "time", "pubkey"] ∧
    (t.unsupported 2).Sublist (t.unsupported 1) ∧ t.unsupported 0 = t.nodes ∧
    (run emptyDirectory "cli" ("info" :: infoLine text 1 false)).exitCode ≠ 0 ∧
    (run emptyDirectory "cli" ("info" :: infoLine text 2 false)).exitCode = 0 ∧
    (run emptyDirectory "cli" ("info" :: infoLine text 1 true)).exitCode =
      (run emptyDirectory "cli" ("info" :: infoLine text 1 false)).exitCode := by
  intro text t
  have ht : (Ty.read "map(uint8,(pubkey,time[],pubkey))").outcome = .ok t := by rfl
  have hwords : Text.occurrences ["time", "expire", "pubkey"] t.signature.toList = ["pubkey", "time", "pubkey"] := by decide
  obtain ⟨htree, hasks, hrun⟩ := support_by_version
  obtain ⟨hsublist, -, hbelow, hsignatures⟩ := htree t
  obtain ⟨s, hprint, hlisted⟩ := hsignatures (by decide)
  rw [← (Ty.print_eq_ok_iff.1 hprint).2, hwords] at hlisted
  have hexit (n : Nat) (hpos : 1 ≤ n) (hn : (Text.decimal n).length ≤ Text.digitLimit) :=
    (hrun emptyDirectory "cli" _).1 _ _ _ _ (hasks text t n false ht hpos hn) ht (by decide)
  have hfirst : ¬ ((2 : Int) ≤ (1 : Nat) ∨ Text.occurrences ["time", "expire", "pubkey"] t.signature.toList = []) := by
    rw [hwords]
    decide
  refine ⟨ht, hlisted, hsublist 1 2 (by decide), hbelow 0 (by decide), ?_, ?_, ?_⟩
  · exact mt (hexit 1 (by decide) (by decide)).1 hfirst
  · exact (hexit 2 (by decide) (by decide)).2 (.inl (by decide))
  · exact (hrun emptyDirectory "cli" _).2 ⟨infoOptions 1 true, [text]⟩ ⟨infoOptions 1 false, [text]⟩ _
      (readArguments_infoLine ht 1 true) (readArguments_infoLine ht 1 false) rfl rfl

/-- **A version of more digits than can be read is refused**, so there is no report for it, though it would support
everything. -/
theorem report_not_for_every_version :
    ¬ ∀ (text : String) (t : Ty) (n : Nat) (json : Bool), (Ty.read text).outcome = .ok t → 1 ≤ n →
      ((run emptyDirectory "cli" ("info" :: infoLine text n json)).exitCode = 0 ↔
        2 ≤ n ∨ Text.occurrences ["time", "expire", "pubkey"] t.signature.toList = []) := by
  intro h
  have hbool : (Ty.read "bool").outcome = .ok (.scalar (.plain .bool)) := by rfl
  obtain ⟨n, hpos, hread⟩ := Text.exists_integer?_eq_none
  have hversion := version_of_value? (value?_infoOptions "bool" n false)
  rw [hread] at hversion
  have hmisuse : perform emptyDirectory .info ⟨infoOptions n false, ["bool"]⟩ =
      .error (.noInteger Opt.abiVersion.long (String.ofList (Text.decimal n))) := by
    rw [perform, hversion]
    rfl
  have hzero := (h "bool" _ n false hbool hpos).2 (.inr (by decide))
  rw [exitCode_run_info, runCommand_of_readArguments _ _ (readArguments_infoLine hbool n false) rfl, hmisuse] at hzero
  cases hzero

end Command

end AbiTypes
