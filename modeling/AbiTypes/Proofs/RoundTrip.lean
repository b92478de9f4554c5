import AbiTypes.Proofs.Reading
/-!
# RoundTrip — signatures read back

The canonical text of a descriptor spells its phrase, whatever the descriptor's names (`Ty.spells_phrase`), so **a
signature is read back as its descriptor**, the components of every tuple named by position; a parameter's text gives back
its name as well.
-/
namespace AbiTypes

theorem isNumeral_decimal (n : Nat) : IsNumeral (Text.decimal n) :=
  ⟨Nat.toDigits_ne_nil, fun _ hc => Nat.isDigit_of_mem_toDigits (by decide) (by decide) hc⟩

namespace Ty

mutual

/-- **A descriptor with the components of every tuple named by position.** -/
def positional : Ty → Ty
  | .scalar s => .scalar s
  | .tuple fs => .tuple ((positionalKinds fs).mapIdx fun i t => ⟨"value" ++ toString i, t⟩)
  | .array e => .array e.positional
  | .fixedArray e n => .fixedArray e.positional n
  | .map k v => .map k.positional v.positional

def positionalKinds : List (Field Ty) → List Ty
  | [] => []
  | ⟨_, k⟩ :: fs => k.positional :: positionalKinds fs

end

theorem positionalKinds_eq_map : ∀ fs : List (Field Ty), positionalKinds fs = fs.map fun f => f.kind.positional
  | [] => rfl
  | f :: fs => by rw [positionalKinds, positionalKinds_eq_map fs, List.map_cons]

/-- The names of a tuple's components are their positions'. -/
def HasPositionalNames (t : Ty) : Prop :=
  ∀ fs, .tuple fs ∈ t.nodes → fs.map Field.name = (List.range fs.length).map fun i => "value" ++ toString i

/-- A descriptor's phrase stands for the descriptor, but for the names of components. -/
theorem type_phrase (t : Ty) : t.phrase.type = t.positional := by
  induction t with
  | scalar s =>
    cases s with
    | plain p => rfl
    | sized s n => rw [phrase, Phrase.type, Text.ofDecimal_decimal, positional]
  | tuple fs ih =>
    have h : Phrase.itemTypes (fieldPhrases fs) = positionalKinds fs := by
      rw [Phrase.itemTypes_eq_map, fieldPhrases_eq_map, positionalKinds_eq_map, List.map_map]
      exact List.map_congr_left ih
    rw [phrase, Phrase.type, positional, h]
  | array e ih => rw [phrase, Phrase.type, positional, ih]
  | fixedArray e n ih => rw [phrase, Phrase.type, positional, ih, Text.ofDecimal_decimal]
  | map k v ihk ihv => rw [phrase, Phrase.type, positional, ihk, ihv]

theorem empty_notMem_nodes_iff {t : Ty} :
    .tuple [] ∉ t.nodes ↔ t ≠ .tuple [] ∧ ∀ c ∈ t.children, .tuple [] ∉ c.nodes := by
  rw [mem_nodes_iff]
  simp [eq_comm]

theorem wellFormed_phrase {t : Ty} (h : .tuple [] ∉ t.nodes) : t.phrase.WellFormed := by
  induction t with
  | scalar s =>
    cases s with
    | plain p => exact .plain p
    | sized s n => exact .sized s (isNumeral_decimal n)
  | tuple fs ih =>
    obtain ⟨hne, hc⟩ := empty_notMem_nodes_iff.1 h
    have hfs : fs ≠ [] := fun h => hne (by rw [h])
    rw [phrase, fieldPhrases_eq_map]
    refine .tuple (by simpa using hfs) fun p hp => ?_
    obtain ⟨f, hf, rfl⟩ := List.mem_map.1 hp
    exact ih f hf (hc f.kind (List.mem_map_of_mem hf))
  | array e ih => exact .array (ih ((empty_notMem_nodes_iff.1 h).2 e (by simp)))
  | fixedArray e n ih =>
    exact .fixedArray (ih ((empty_notMem_nodes_iff.1 h).2 e (by simp))) (isNumeral_decimal n)
  | map k v ihk ihv =>
    obtain ⟨-, hc⟩ := empty_notMem_nodes_iff.1 h
    exact .map (ihk (hc k (by simp))) (ihv (hc v (by simp)))

/-- The digit runs of a signature are its sizes in decimal digits. -/
theorem mem_numerals_phrase_iff {t : Ty} {ds : List Char} :
    ds ∈ t.phrase.numerals ↔ ∃ n ∈ t.sizes, Text.decimal n = ds := by
  induction t with
  | scalar s => cases s <;> simp [phrase, Phrase.numerals, sizes_eq, size?, children, eq_comm]
  | tuple fs ih =>
    rw [phrase, Phrase.numerals, Phrase.itemNumerals_eq_flatMap, fieldPhrases_eq_map, List.flatMap_map, sizes_eq,
      children_tuple, List.flatMap_map]
    simp only [size?, Option.toList_none, List.nil_append, List.mem_flatMap]
    constructor
    · rintro ⟨f, hf, hds⟩
      obtain ⟨n, hn, rfl⟩ := (ih f hf).1 hds
      exact ⟨n, ⟨f, hf, hn⟩, rfl⟩
    · rintro ⟨n, ⟨f, hf, hn⟩, rfl⟩
      exact ⟨f, hf, (ih f hf).2 ⟨n, hn, rfl⟩⟩
  | array e ih => simp [phrase, Phrase.numerals, sizes_eq (.array e), size?, ih]
  | fixedArray e n ih => simp [phrase, Phrase.numerals, sizes_eq (.fixedArray e n), size?, ih, or_comm, eq_comm]
  | map k v ihk ihv => simp [phrase, Phrase.numerals, sizes_eq (.map k v), size?, ihk, ihv, or_and_right, exists_or]

theorem itemNesting_fieldPhrases : ∀ {fs : List (Field Ty)}, fs ≠ [] →
    (∀ f ∈ fs, f.kind.phrase.nesting + 1 = f.kind.depth) →
    Phrase.itemNesting (fieldPhrases fs) + 1 = fieldDepth fs
  | [], hne, _ => absurd rfl hne
  | [f], _, h => by
    have hf := h f (by simp)
    simp [fieldPhrases, Phrase.itemNesting, fieldDepth, hf]
  | f :: g :: fs, _, h => by
    obtain ⟨hf, hfs⟩ := List.forall_mem_cons.1 h
    have ih := itemNesting_fieldPhrases (List.cons_ne_nil g fs) hfs
    rw [fieldPhrases, Phrase.itemNesting, fieldDepth, ← hf, ← ih]
    omega

/-- Without empty tuples the depth counts one level more than the nesting, the scalars'. -/
theorem nesting_phrase {t : Ty} (h : .tuple [] ∉ t.nodes) : t.phrase.nesting + 1 = t.depth := by
  induction t with
  | scalar s => cases s <;> rfl
  | tuple fs ih =>
    obtain ⟨hne, hc⟩ := empty_notMem_nodes_iff.1 h
    have hfs := itemNesting_fieldPhrases (fun h => hne (by rw [h])) fun f hf =>
      ih f hf (hc f.kind (List.mem_map_of_mem hf))
    rw [phrase, Phrase.nesting, depth, ← hfs, Nat.add_assoc]
  | array e ih =>
    rw [phrase, Phrase.nesting, depth, ← ih ((empty_notMem_nodes_iff.1 h).2 e (by simp)), Nat.add_assoc]
  | fixedArray e n ih =>
    rw [phrase, Phrase.nesting, depth, ← ih ((empty_notMem_nodes_iff.1 h).2 e (by simp)), Nat.add_assoc]
  | map k v ihk ihv =>
    obtain ⟨-, hc⟩ := empty_notMem_nodes_iff.1 h
    rw [phrase, Phrase.nesting, depth, ← ihk (hc k (by simp)), ← ihv (hc v (by simp))]
    omega

theorem positional_eq_self {t : Ty} (h : t.HasPositionalNames) : t.positional = t := by
  have hchild : ∀ {c t : Ty}, c ∈ t.children → t.HasPositionalNames → c.HasPositionalNames := fun hc h fs hfs =>
    h fs (mem_nodes_iff.2 (Or.inr ⟨_, hc, hfs⟩))
  induction t with
  | scalar s => rfl
  | tuple fs ih =>
    have hnames := h fs (mem_nodes_iff.2 (Or.inl rfl))
    have hkinds : positionalKinds fs = fs.map Field.kind := by
      rw [positionalKinds_eq_map]
      exact List.map_congr_left fun f hf => ih f hf (hchild (List.mem_map_of_mem hf) h)
    rw [positional, hkinds]
    refine congrArg Ty.tuple (List.ext_getElem (by simp) fun i hi hi' => ?_)
    have hname := congrArg (·[i]?) hnames
    simp only [List.getElem?_map, List.getElem?_eq_getElem hi', List.getElem?_range hi', Option.map_some,
      Option.some.injEq] at hname
    rw [List.getElem_mapIdx, ← hname, List.getElem_map]
  | array e ih => rw [positional, ih (hchild (by simp) h)]
  | fixedArray e n ih => rw [positional, ih (hchild (by simp) h)]
  | map k v ihk ihv =>
    rw [positional, ihk (hchild (by simp) h), ihv (hchild (by simp) h)]

/-- A signature, with any blanks in front, spells the descriptor's phrase. -/
theorem spells_phrase {t : Ty} (h : .tuple [] ∉ t.nodes) {gap : List Char} (hg : IsGap gap) :
    Spells (gap ++ t.spelled) t.phrase :=
  ⟨t.phrase.tokens, (layout_flatMap_spell _).append_gap hg, derives_iff.2 ⟨rfl, wellFormed_phrase h⟩⟩

end Ty

/-- The names that a parameter can have in its text. -/
def IsIdentifier (name : List Char) : Prop :=
  ∃ c cs, name = c :: cs ∧ (c.isAlpha ∨ c = '_') ∧ ∀ d ∈ cs, d.isAlphanum ∨ d = '_'

theorem Reader.readParam_append {name : List Char} (hn : IsIdentifier name) (cs : List Char) :
    readParam (name ++ ':' :: cs) = (Phrase.read cs).map fun p => (name, p) := by
  obtain ⟨c, ds, rfl, hc, hds⟩ := hn
  have hstart : isNameStart c = true := by simpa [isNameStart] using hc
  have hblank : isBlank c = false := by
    refine Bool.eq_false_iff.2 fun hb => ?_
    have hno := isNameChar_eq_false_of_isBlank hb
    rcases hc with hc | hc <;> simp [isNameChar, Char.isAlphanum, hc] at hno
  have hskip : skipBlanks (c :: ds ++ ':' :: cs) = c :: (ds ++ ':' :: cs) := by
    simp [skipBlanks, hblank]
  have hchars : ∀ d ∈ ds, isNameChar d = true := fun d hd => by simpa [isNameChar] using hds d hd
  have hdrop : (ds ++ ':' :: cs).dropWhile isNameChar = ':' :: cs := by
    rw [List.dropWhile_append_of_pos hchars]
    rfl
  have htake : (ds ++ ':' :: cs).takeWhile isNameChar = ds := by
    rw [List.takeWhile_append_of_pos hchars]
    exact List.append_nil ds
  have hcolon : skipBlanks (':' :: cs) = ':' :: cs := rfl
  simp only [readParam, hskip, hstart, hdrop, htake, hcolon, if_true]

theorem Field.outcome_read [Reader.Stack] {text : String} {name : List Char} {p : Phrase}
    (h : Reader.readParam text.toList = .ok (name, p)) (hp : p.InReach) :
    (Field.read text).outcome = .ok ⟨String.ofList name, p.type⟩ := by
  unfold Field.read
  rw [h]
  exact Traced.outcome_bind_eq_ok_iff.2 ⟨p.type, Reader.outcome_build.2 ⟨hp, rfl⟩, rfl⟩

namespace Ty

/-- **Reading undoes writing.**  The signature of a descriptor without empty tuples, of sizes and nesting within the
limits, is read as the descriptor, its components named by position; so is the text of a parameter, under its name.  A
descriptor whose components have these names comes back as it was. -/
theorem read_signature [Reader.Stack] {t : Ty} (hempty : .tuple [] ∉ t.nodes)
    (hsizes : ∀ u ∈ t.nodes, ∀ n ∈ u.size?, (Text.decimal n).length ≤ Text.digitLimit)
    (hdepth : t.depth ≤ Reader.Stack.levels + 1) :
    (Ty.read t.signature).outcome = .ok t.positional ∧
    (∀ name : String, IsIdentifier name.toList →
      (Field.read (Field.text ⟨name, t⟩)).outcome = .ok ⟨name, t.positional⟩) ∧
    (t.HasPositionalNames → t.positional = t) := by
  have hreach : t.phrase.InReach := by
    refine ⟨?_, fun ds hds => ?_⟩
    · have := nesting_phrase hempty
      omega
    · obtain ⟨n, hn, rfl⟩ := mem_numerals_phrase_iff.1 hds
      obtain ⟨u, hu, hn⟩ := mem_sizes_iff.1 hn
      exact hsizes u hu n hn
  refine ⟨?_, fun name hname => ?_, positional_eq_self⟩
  · have hs : Spells t.signature.toList t.phrase := by
      rw [signature, String.toList_ofList]
      exact spells_phrase hempty (nofun : IsGap [])
    exact read_eq_ok_iff.2 ⟨t.phrase, hs, hreach, type_phrase t⟩
  · have htext : (Field.text ⟨name, t⟩).toList = name.toList ++ ':' :: ([' '] ++ t.spelled) := by
      simp [Field.text, Field.signature, signature]
    have hr := Phrase.read_eq_ok_iff.2 (spells_phrase hempty (by simp [IsGap, isBlank] : IsGap [' ']))
    have hp : Reader.readParam (Field.text ⟨name, t⟩).toList = .ok (name.toList, t.phrase) := by
      rw [htext, Reader.readParam_append hname, hr]
      rfl
    rw [Field.outcome_read hp hreach, String.ofList_toList, type_phrase]

theorem read_signature_map :
    let t : Ty := .map (.scalar (.sized .uint 8)) (.array (.tuple
      [⟨"to", .scalar (.plain .address)⟩, ⟨"gas", .fixedArray (.scalar (.plain .gram)) 3⟩]))
    let u : Ty := .map (.scalar (.sized .uint 8)) (.array (.tuple
      [⟨"value0", .scalar (.plain .address)⟩, ⟨"value1", .fixedArray (.scalar (.plain .gram)) 3⟩]))
    .tuple [] ∉ t.nodes ∧ (∀ v ∈ t.nodes, ∀ n ∈ v.size?, (Text.decimal n).length ≤ Text.digitLimit) ∧
    t.depth ≤ Reader.Stack.levels + 1 ∧ IsIdentifier "uint8".toList ∧ (Ty.read t.signature).outcome = .ok u ∧
    (Field.read (Field.text ⟨"uint8", t⟩)).outcome = .ok ⟨"uint8", u⟩ := by
  intro t u
  have hempty : .tuple [] ∉ t.nodes := by decide
  have hsizes : ∀ v ∈ t.nodes, ∀ n ∈ v.size?, (Text.decimal n).length ≤ Text.digitLimit := by decide
  have hdepth : t.depth ≤ Reader.Stack.levels + 1 := by decide
  have hrest : ['i', 'n', 't', '8'].all Char.isAlphanum = true := rfl
  have hname : IsIdentifier "uint8".toList :=
    ⟨'u', _, rfl, Or.inl rfl, fun d hd => Or.inl (List.all_eq_true.1 hrest d hd)⟩
  obtain ⟨h, hp, -⟩ := read_signature hempty hsizes hdepth
  exact ⟨hempty, hsizes, hdepth, hname, h, hp "uint8" hname⟩

end Ty
end AbiTypes
