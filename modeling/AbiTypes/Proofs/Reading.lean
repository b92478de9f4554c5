import AbiTypes.Proofs.Parsing
import AbiTypes.Ty.Walk
import Mathlib.Tactic.Tauto
/-!
# Reading — the descriptors of texts

Building gives a phrase the descriptor it stands for, exactly within the limits on nesting and digits
(`Reader.outcome_build`), so **a signature is read as the descriptor that its one tree stands for**
(`Ty.read_eq_ok_iff`).
-/
namespace AbiTypes

namespace Reader

theorem fieldName_eq (i : Nat) : fieldName i = "value" ++ toString i := by
  have h : fieldName i = String.ofList "value".toList ++ String.ofList (Text.decimal i) := String.ofList_append
  rw [h, String.ofList_toList, Nat.toString_eq_ofList_toDigits, Text.decimal]

theorem named_eq_mapIdx : ∀ (ts : List Ty) (i : Nat),
    named i ts = ts.mapIdx fun j t => ⟨"value" ++ toString (i + j), t⟩
  | [], _ => rfl
  | t :: ts, i => by
    rw [named, fieldName_eq, named_eq_mapIdx ts (i + 1), List.mapIdx_cons]
    simp only [Nat.add_zero, Nat.add_assoc, Nat.add_comm 1]

theorem outcome_number {owner : Sizable} {ds : List Char} {n : Nat} :
    (number owner ds).outcome = .ok n ↔ ds.length ≤ Text.digitLimit ∧ Text.ofDecimal ds = n := by
  unfold number
  split
  · rename_i h
    simp [Traced.fail, Nat.not_le.2 h]
  · rename_i h
    simp [Traced.value, Nat.not_lt.1 h]

theorem one_add_le_iff {m n : Nat} : 1 + m ≤ n + 1 ↔ m ≤ n := by
  omega

mutual

/-- **Building succeeds exactly within the limits**, with the descriptor that the phrase stands for. -/
theorem outcome_build {form : Form} : ∀ {p : Phrase} {room : Nat} {t : Ty}, (build form room p).outcome = .ok t ↔
    (p.nesting ≤ room ∧ ∀ ds ∈ p.numerals, ds.length ≤ Text.digitLimit) ∧ p.type = t
  | .plain p, room, t => by
    simp [build, Traced.value, Phrase.nesting, Phrase.numerals, Phrase.type]
  | .sized s ds, room, t => by
    simp [build, Traced.outcome_bind_eq_ok_iff, outcome_number, Phrase.nesting, Phrase.numerals, Phrase.type]
  | .tuple _, 0, _ | .array _, 0, _ | .fixedArray _ _, 0, _ | .map _ _, 0, _ => by
    simp [build, Traced.fail, Phrase.nesting]
  | .tuple ps, room + 1, t => by
    simp [build, Traced.outcome_bind_eq_ok_iff, outcome_buildItems, Traced.tell, Phrase.nesting, Phrase.numerals,
      Phrase.type, one_add_le_iff, named_eq_mapIdx]
  | .array e, room + 1, t => by
    simp [build, Traced.outcome_bind_eq_ok_iff, outcome_build, Phrase.nesting, Phrase.numerals, Phrase.type,
      one_add_le_iff]
  | .fixedArray e ds, room + 1, t => by
    simp [build, Traced.outcome_bind_eq_ok_iff, outcome_build, outcome_number, Phrase.nesting, Phrase.numerals,
      Phrase.type, one_add_le_iff, or_imp, forall_and, and_assoc]
  | .map k v, room + 1, t => by
    rw [Phrase.nesting, one_add_le_iff, Nat.max_le, Phrase.numerals, Phrase.type]
    simp [build, Traced.outcome_bind_eq_ok_iff, outcome_build, or_imp, forall_and]
    tauto

theorem outcome_buildItems {form : Form} : ∀ {ps : List Phrase} {room : Nat} {ts : List Ty},
    (buildItems form room ps).outcome = .ok ts ↔
      (Phrase.itemNesting ps ≤ room ∧ ∀ ds ∈ Phrase.itemNumerals ps, ds.length ≤ Text.digitLimit) ∧
        Phrase.itemTypes ps = ts
  | [], room, ts => by
    simp [buildItems, Traced.value, Phrase.itemNesting, Phrase.itemNumerals, Phrase.itemTypes]
  | p :: ps, room, ts => by
    rw [Phrase.itemNesting, Nat.max_le, Phrase.itemNumerals, Phrase.itemTypes]
    simp [buildItems, Traced.outcome_bind_eq_ok_iff, outcome_build, outcome_buildItems, or_imp, forall_and]
    tauto

end

end Reader

namespace Ty

theorem children_tuple_mapIdx (f : Nat → String) (ts : List Ty) :
    (Ty.tuple (ts.mapIdx fun i t => ⟨f i, t⟩)).children = ts := by
  refine List.ext_getElem? fun i => ?_
  simp [Function.comp_def]

end Ty

theorem Phrase.WellFormed.empty_notMem_nodes {p : Phrase} (h : p.WellFormed) : .tuple [] ∉ p.type.nodes := by
  induction h with
  | plain p => simp [type, Ty.nodes]
  | sized s hd => simp [type, Ty.nodes]
  | @tuple ps hne h ih =>
    rw [type, Ty.mem_nodes_iff, Ty.children_tuple_mapIdx, itemTypes_eq_map]
    rintro (he | ⟨c, hc, hu⟩)
    · exact hne (List.map_eq_nil_iff.1 (List.mapIdx_eq_nil_iff.1 (Ty.tuple.inj he).symm))
    · obtain ⟨p, hp, rfl⟩ := List.mem_map.1 hc
      exact ih p hp hu
  | array _ ih => simpa [type, Ty.nodes] using ih
  | fixedArray _ hd ih => simpa [type, Ty.nodes] using ih
  | map _ _ ihk ihv => simpa [type, Ty.nodes] using ⟨ihk, ihv⟩

/-- **A text has at most one tree.** -/
theorem Spells.unique {cs : List Char} {p q : Phrase} (hp : Spells cs p) (hq : Spells cs q) : p = q := by
  have h := Phrase.read_eq_ok_iff.2 hp
  rw [Phrase.read_eq_ok_iff.2 hq] at h
  cases h
  rfl

theorem Spells.wellFormed {cs : List Char} {p : Phrase} (h : Spells cs p) : p.WellFormed := by
  obtain ⟨ts, -, hd⟩ := h
  exact (derives_iff.1 hd).2

namespace Ty

/-- **A signature is read exactly if it spells a phrase within the limits**, as the descriptor the phrase stands for. -/
theorem read_eq_ok_iff [Reader.Stack] {text : String} {t : Ty} :
    (Ty.read text).outcome = .ok t ↔ ∃ p, Spells text.toList p ∧ p.InReach ∧ p.type = t := by
  unfold Ty.read
  cases h : Phrase.read text.toList with
  | error stop =>
    have hp : ∀ p, ¬ Spells text.toList p := fun p hp => by
      rw [Phrase.read_eq_ok_iff.2 hp] at h
      cases h
    simp [Traced.fail, hp]
  | ok p =>
    have hp : ∀ q, Spells text.toList q ↔ q = p := fun q =>
      ⟨fun hq => hq.unique (Phrase.read_eq_ok_iff.1 h), fun hq => hq ▸ Phrase.read_eq_ok_iff.1 h⟩
    simp [Traced.outcome_bind_eq_ok_iff, Reader.outcome_build, Traced.tell, hp, Phrase.InReach]

theorem read_eq_malformed [Reader.Stack] {text : String} (h : ∀ p, ¬ Spells text.toList p) :
    ∃ column, (Ty.read text).outcome = .error (.malformed .signature text column) := by
  unfold Ty.read
  cases hr : Phrase.read text.toList with
  | error stop => exact ⟨_, rfl⟩
  | ok p => exact absurd (Phrase.read_eq_ok_iff.1 hr) (h p)

/-- **Reading is the grammar.**  A signature whose numbers and nesting are within the limits is read as a descriptor
exactly if the descriptor is what a tree of the text stands for.  The text has one tree at most; without one it is
refused as invalid; and what is read has no empty tuple. -/
theorem read_eq_ok_iff_spells [Reader.Stack] {text : String} (hlimits : ∀ p, Spells text.toList p → p.InReach) :
    (∀ t, (Ty.read text).outcome = .ok t ↔ ∃ p, Spells text.toList p ∧ p.type = t) ∧
    (∀ p q, Spells text.toList p → Spells text.toList q → p = q) ∧
    ((∀ p, ¬ Spells text.toList p) → ∃ f, (Ty.read text).outcome = .error f ∧ f.class? = some .invalidData) ∧
    ∀ t, (Ty.read text).outcome = .ok t → .tuple [] ∉ t.nodes := by
  refine ⟨fun t => ?_, fun p q hp hq => hp.unique hq, fun h => ?_, fun t h => ?_⟩
  · rw [read_eq_ok_iff]
    exact ⟨fun ⟨p, hp, _, ht⟩ => ⟨p, hp, ht⟩, fun ⟨p, hp, ht⟩ => ⟨p, hp, hlimits p hp, ht⟩⟩
  · obtain ⟨column, hc⟩ := read_eq_malformed h
    exact ⟨_, hc, rfl⟩
  · obtain ⟨p, hp, -, rfl⟩ := read_eq_ok_iff.1 h
    exact hp.wellFormed.empty_notMem_nodes

theorem read_eq_ok_iff_spells_map :
    (∀ p, Spells " map(uint08 ,\n(bool,cell)[ 3])".toList p → p.InReach) ∧
    (Ty.read " map(uint08 ,\n(bool,cell)[ 3])").outcome = .ok (.map (.scalar (.sized .uint 8))
      (.fixedArray (.tuple [⟨"value0", .scalar (.plain .bool)⟩, ⟨"value1", .scalar (.plain .cell)⟩]) 3)) := by
  have hr : Phrase.read " map(uint08 ,\n(bool,cell)[ 3])".toList = .ok (.map (.sized .uint ['0', '8'])
      (.fixedArray (.tuple [.plain .bool, .plain .cell]) ['3'])) := by rfl
  have hlimits : ∀ p, Spells " map(uint08 ,\n(bool,cell)[ 3])".toList p → p.InReach := by
    intro p hp
    obtain rfl := hp.unique (Phrase.read_eq_ok_iff.1 hr)
    exact ⟨by decide, by decide⟩
  exact ⟨hlimits, ((read_eq_ok_iff_spells hlimits).1 _).2 ⟨_, Phrase.read_eq_ok_iff.1 hr, rfl⟩⟩

end Ty

end AbiTypes
