import AbiTypes.Fault
import AbiTypes.Phrase
import AbiTypes.Ty.Walk
/-!
# Print — signatures with the numbers in them

A number of too many digits is not written, just as it is not read: a text in which one would stand is a fault instead.
`Ty.signature` is the text of every descriptor, and `Ty.print` gives it where it can be written.
-/
namespace AbiTypes

/-- **What numbers are written into**, unless one of them has too many digits. -/
def Text.written {α : Type} (numbers : List Nat) (a : α) : Except Fault α :=
  match numbers.find? fun n => digitLimit < (decimal n).length with
  | none => .ok a
  | some n => .error (.tooManyDigits none (decimal n).length)

namespace Text

variable {α : Type} {numbers : List Nat} {a : α}

theorem written_of_forall (h : ∀ n ∈ numbers, (decimal n).length ≤ digitLimit) : written numbers a = .ok a := by
  have hnone : numbers.find? (fun n => digitLimit < (decimal n).length) = none :=
    List.find?_eq_none.2 fun n hn => by simpa using h n hn
  rw [written, hnone]

/-- **A number of too many digits is a fault**, whatever it would be written into. -/
theorem exists_written_eq_error (h : ¬ ∀ n ∈ numbers, (decimal n).length ≤ digitLimit) :
    ∃ n ∈ numbers, digitLimit < (decimal n).length ∧
      written numbers a = .error (.tooManyDigits none (decimal n).length) := by
  cases hfind : numbers.find? fun n => digitLimit < (decimal n).length with
  | none =>
    rw [List.find?_eq_none] at hfind
    exact absurd (fun n hn => by simpa using hfind n hn) h
  | some n =>
    refine ⟨n, List.mem_of_find?_eq_some hfind, by simpa using List.find?_some hfind, ?_⟩
    rw [written, hfind]

theorem written_eq_ok_iff {b : α} :
    written numbers a = .ok b ↔ (∀ n ∈ numbers, (decimal n).length ≤ digitLimit) ∧ a = b := by
  by_cases h : ∀ n ∈ numbers, (decimal n).length ≤ digitLimit
  · rw [written_of_forall h, Except.ok.injEq]
    exact (and_iff_right h).symm
  · obtain ⟨n, -, -, herror⟩ := exists_written_eq_error h
    rw [herror]
    exact iff_of_false nofun fun hall => h hall.1

/-- Nothing else goes wrong where numbers are written. -/
theorem eq_tooManyDigits_of_written {f : Fault} (h : written numbers a = .error f) :
    ∃ n, f = .tooManyDigits none n ∧ digitLimit < n := by
  by_cases hall : ∀ n ∈ numbers, (decimal n).length ≤ digitLimit
  · cases (written_of_forall hall).symm.trans h
  · obtain ⟨n, -, hn, herror⟩ := exists_written_eq_error (a := a) hall
    cases herror.symm.trans h
    exact ⟨_, rfl, hn⟩

end Text

namespace Ty

/-- No size of a descriptor has too many digits. -/
def IsWritable (t : Ty) : Prop := ∀ n ∈ t.sizes, (Text.decimal n).length ≤ Text.digitLimit

instance (t : Ty) : Decidable t.IsWritable := inferInstanceAs (Decidable (∀ n ∈ t.sizes, _))

theorem isWritable_tuple_iff {fs : List (Field Ty)} : (Ty.tuple fs).IsWritable ↔ ∀ f ∈ fs, f.kind.IsWritable := by
  simp only [IsWritable, sizes_eq (.tuple fs), size?, children_tuple, Option.toList_none, List.nil_append,
    List.flatMap_map, List.mem_flatMap, forall_exists_index, and_imp]
  exact ⟨fun h f hf n hn => h n f hf hn, fun h n f hf hn => h f hf n hn⟩

theorem IsWritable.of_mem_nodes {t u : Ty} (h : t.IsWritable) (hu : u ∈ t.nodes) : u.IsWritable := fun n hn => by
  obtain ⟨v, hv, hsize⟩ := mem_sizes_iff.1 hn
  exact h n (mem_sizes_iff.2 ⟨v, mem_nodes_trans hu hv, hsize⟩)

/-- **The signature of a descriptor, where it can be written.** -/
def print (t : Ty) : Except Fault String := Text.written t.sizes t.signature

theorem print_eq_ok_iff {t : Ty} {s : String} : t.print = .ok s ↔ t.IsWritable ∧ t.signature = s :=
  Text.written_eq_ok_iff

theorem exists_print_eq_error {t : Ty} (h : ¬ t.IsWritable) : ∃ f, t.print = .error f ∧ f.class? = none := by
  obtain ⟨n, -, -, herror⟩ := Text.exists_written_eq_error h
  exact ⟨_, herror, rfl⟩

/-- The signatures of descriptors one by one. -/
def printAll (ts : List Ty) : Except Fault (List String) := Text.written (ts.flatMap sizes) (ts.map signature)

theorem printAll_eq_ok {ts : List Ty} (h : ∀ t ∈ ts, t.IsWritable) : printAll ts = .ok (ts.map signature) :=
  Text.written_of_forall fun n hn => by
    obtain ⟨t, ht, hn⟩ := List.mem_flatMap.1 hn
    exact h t ht n hn

end Ty

end AbiTypes
