import AbiTypes.Text.Json
import AbiTypes.Ty.Support
/-!
# Report — a descriptor in summary

A report holds what a reader asks first about a type; it is shown as JSON here and as tables in `Report.Table`.
-/
namespace AbiTypes

/-- The summary of a descriptor; a field's kind is the component's signature. -/
structure Report where
  signature : String
  bitLen : Nat
  /-- none if the type cannot key a map -/
  keyBits? : Option Nat
  since : Int
  depth : Nat
  fields : List (Field String)
  deriving DecidableEq, Repr

/-- The components of a tuple; no other type has any. -/
def Ty.fields : Ty → List (Field Ty)
  | .tuple fs => fs
  | _ => []

/-- The summary of a descriptor. -/
def Ty.report (t : Ty) : Report where
  signature := t.signature
  bitLen := t.bitLen
  keyBits? := t.keyBits?
  since := t.since
  depth := t.depth
  fields := t.fields.map (·.mapKind Ty.signature)

/-- **The summary of a descriptor, where its signatures can be written.** -/
def Ty.describe (t : Ty) : Except Fault Report := Text.written t.sizes t.report

namespace Report

/-- The numbers of a report. -/
def numbers (r : Report) : List Nat := r.bitLen :: r.keyBits?.toList ++ [r.since.natAbs, r.depth]

def fieldJson (f : Field String) : Text.Json :=
  .record [("name", .text f.name), ("signature", .text f.kind)]

def toJson (r : Report) : Text.Json :=
  .record [
    ("signature", .text r.signature),
    ("bit_len", .number r.bitLen),
    ("map_key_size", r.keyBits?.elim .null fun n => .number n),
    ("min_abi_version", .number r.since),
    ("max_depth", .number r.depth),
    ("fields", .list (r.fields.map fieldJson))]

/-- A report as JSON text, whether or not its numbers can be written. -/
def json (r : Report) : String := r.toJson.render

/-- **The numbers of a descriptor's report** are its sizes and its depth, if they are not of few digits anyway. -/
theorem forall_numbers {t : Ty} (ht : t.IsWritable) (hdepth : (Text.decimal t.depth).length ≤ Text.digitLimit) :
    ∀ n ∈ t.report.numbers, (Text.decimal n).length ≤ Text.digitLimit := by
  have hzero : (Text.decimal 0).length ≤ Text.digitLimit := by decide
  have hbits : (Text.decimal t.bitLen).length ≤ Text.digitLimit ∧
      ∀ n ∈ t.keyBits?, (Text.decimal n).length ≤ Text.digitLimit := by
    cases t with
    | scalar s =>
      cases s with
      | plain p => cases p <;> exact ⟨hzero, by decide⟩
      | sized s n =>
        have hn := ht n (Ty.mem_sizes_iff.2 ⟨_, Ty.mem_nodes_iff.2 (.inl rfl), rfl⟩)
        cases s with
        | fixedBytes => exact ⟨hzero, nofun⟩
        | _ => exact ⟨hn, fun m hm => Option.some.inj hm ▸ hn⟩
    | _ => exact ⟨hzero, nofun⟩
  have hsince : (Text.decimal t.since.natAbs).length ≤ Text.digitLimit := by
    rcases t.since_eq with h | h <;> rw [h] <;> decide
  refine List.forall_mem_append.2 ⟨List.forall_mem_cons.2 ⟨hbits.1, fun n hn => ?_⟩, ?_⟩
  · exact hbits.2 n (Option.mem_toList.1 hn)
  · exact List.forall_mem_cons.2 ⟨hsince, List.forall_mem_singleton.2 hdepth⟩

/-- **A report as JSON text, where its numbers can be written.** -/
def printJson (r : Report) : Except Fault String := Text.written r.numbers r.json

end Report

end AbiTypes
