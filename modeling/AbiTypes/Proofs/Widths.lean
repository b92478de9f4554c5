import AbiTypes.Proofs.Tables
/-!
# Widths — the width of an integer, and no width

Zero stands for no width, so the integers of no bits have none to whoever asks for it (`Ty.bitLen_eq_zero_iff`), and a
report says so.  The width as a key, a number or none, is told apart: it is the width of every integer and shown as such.
-/
namespace AbiTypes

namespace Ty

/-- The integer types. -/
def IsInteger : Ty → Prop
  | .scalar (.sized .uint _) | .scalar (.sized .int _) => True
  | _ => False

/-- The integer types of no bits. -/
def IsBitless (t : Ty) : Prop := t = .scalar (.sized .uint 0) ∨ t = .scalar (.sized .int 0)

variable {t : Ty}

theorem isInteger_iff : t.IsInteger ↔ ∃ n, t = .scalar (.sized .uint n) ∨ t = .scalar (.sized .int n) := by
  constructor
  · intro h
    unfold IsInteger at h
    split at h
    · exact ⟨_, .inl rfl⟩
    · exact ⟨_, .inr rfl⟩
    · cases h
  · rintro ⟨n, rfl | rfl⟩
    · trivial
    · trivial

/-- An integer keys a map by all of its bits. -/
theorem IsInteger.keyBits?_eq (h : t.IsInteger) : t.keyBits? = some t.bitLen := by
  obtain ⟨n, rfl | rfl⟩ := isInteger_iff.1 h
  · rfl
  · rfl

theorem isBitless_iff : t.IsBitless ↔ t.IsInteger ∧ t.bitLen = 0 := by
  rw [isInteger_iff]
  constructor
  · rintro (rfl | rfl)
    · exact ⟨⟨0, .inl rfl⟩, rfl⟩
    · exact ⟨⟨0, .inr rfl⟩, rfl⟩
  · rintro ⟨⟨n, rfl | rfl⟩, hzero⟩
    · exact .inl (congrArg _ (congrArg _ hzero))
    · exact .inr (congrArg _ (congrArg _ hzero))

theorem bitLen_of_not_isInteger (h : ¬ t.IsInteger) : t.bitLen = 0 := by
  cases t with
  | scalar s =>
    cases s with
    | plain p => rfl
    | sized s n =>
      cases s with
      | uint => exact absurd trivial h
      | int => exact absurd trivial h
      | fixedBytes => rfl
  | _ => rfl

/-- **What zero says of a type**: it is no integer, or an integer of no bits. -/
theorem bitLen_eq_zero_iff : t.bitLen = 0 ↔ ¬ t.IsInteger ∨ t.IsBitless := by
  rw [isBitless_iff]
  constructor
  · intro hzero
    by_cases h : t.IsInteger
    · exact .inr ⟨h, hzero⟩
    · exact .inl h
  · rintro (h | ⟨-, hzero⟩)
    · exact bitLen_of_not_isInteger h
    · exact hzero

/-- **Zero is a mark of other types for all but two.** -/
theorem bitLen_eq_zero_iff_not_isInteger : (t.bitLen = 0 ↔ ¬ t.IsInteger) ↔ ¬ t.IsBitless := by
  rw [bitLen_eq_zero_iff, isBitless_iff]
  tauto

end Ty

namespace Report

/-- No number is shown as the note that there is none. -/
theorem shown_decimal_ne (width n : Nat) : shown width (Text.decimal n) ≠ ['n', '/', 'a'] := by
  intro h
  have hn : 'n' ∈ shown width (Text.decimal n) := h ▸ List.mem_cons_self
  rcases mem_shown hn with hdigit | hellipsis
  · cases (isNumeral_decimal n).2 'n' hdigit
  · cases hellipsis

end Report

namespace Command

section Run

variable (place : Surroundings) (program : String) {args : List String} {text : String} {v : Int} {t : Ty}

theorem AsksAbout.bitLength_eq [Reader.Stack] (h : AsksAbout args text v false) (ht : (Ty.read text).outcome = .ok t) :
    Printed.valueOf "Bit length" (Printed.typeRows (run place program ("info" :: args)).output) =
      Report.shown 57 (Report.optional (if t.bitLen = 0 then none else some t.bitLen)) := by
  rw [h.typeRows_eq place program ht]
  simp only [Report.rows, List.map_cons]
  rw [Printed.valueOf_cons_of_ne (by decide)]
  exact Printed.valueOf_cons (by simp)

theorem AsksAbout.mapKeyBits_eq [Reader.Stack] (h : AsksAbout args text v false) (ht : (Ty.read text).outcome = .ok t) :
    Printed.valueOf "Map key bits" (Printed.typeRows (run place program ("info" :: args)).output) =
      Report.shown 57 (Report.optional t.keyBits?) := by
  rw [h.typeRows_eq place program ht]
  simp only [Report.rows, List.map_cons]
  rw [Printed.valueOf_cons_of_ne (by decide), Printed.valueOf_cons_of_ne (by decide)]
  exact Printed.valueOf_cons (by simp)

end Run

/-- **Widths, and how they are shown.**  Zero tells that a type is no integer, but for the two integers of no bits; every
integer is as wide as a key.  A report on any text that is read shows a width for the integers but these two, the same
number as for keys, and for all other types that there is none; of these two it shows that they are zero wide as keys. -/
theorem widths_shown [Reader.Stack] (t : Ty) :
    ((t.bitLen = 0 ↔ ¬ t.IsInteger) ↔ t ≠ .scalar (.sized .uint 0) ∧ t ≠ .scalar (.sized .int 0)) ∧
    (t.IsInteger → t.keyBits? = some t.bitLen) ∧
    ∀ (place : Surroundings) (program : String) (args : List String) (text : String) (v : Int),
      AsksAbout args text v false → (Ty.read text).outcome = .ok t →
      let rows := Printed.typeRows (run place program ("info" :: args)).output
      let bits := Printed.valueOf "Bit length" rows
      let keys := Printed.valueOf "Map key bits" rows
      (bits = "n/a".toList ↔ ¬ t.IsInteger ∨ t.IsBitless) ∧
      (t.IsInteger → keys = Report.shown 57 (Text.decimal t.bitLen) ∧ (bits = keys ↔ ¬ t.IsBitless)) := by
  refine ⟨Ty.bitLen_eq_zero_iff_not_isInteger.trans not_or, fun h => h.keyBits?_eq,
    fun place program args text v h ht => ?_⟩
  intro rows bits keys
  have hbits : bits = Report.shown 57 (Report.optional (if t.bitLen = 0 then none else some t.bitLen)) :=
    h.bitLength_eq place program ht
  have hkeys : keys = Report.shown 57 (Report.optional t.keyBits?) := h.mapKeyBits_eq place program ht
  by_cases hzero : t.bitLen = 0
  · rw [if_pos hzero] at hbits
    refine ⟨iff_of_true (hbits.trans (by decide)) (Ty.bitLen_eq_zero_iff.1 hzero), fun hinteger => ?_⟩
    rw [hinteger.keyBits?_eq] at hkeys
    refine ⟨hkeys, iff_of_false (fun hsame => ?_) (not_not_intro (Ty.isBitless_iff.2 ⟨hinteger, hzero⟩))⟩
    exact Report.shown_decimal_ne 57 t.bitLen (hkeys.symm.trans (hsame.symm.trans (hbits.trans (by decide))))
  · rw [if_neg hzero] at hbits
    have hnot := mt Ty.bitLen_eq_zero_iff.2 hzero
    refine ⟨iff_of_false (hbits ▸ Report.shown_decimal_ne 57 t.bitLen) hnot, fun hinteger => ?_⟩
    rw [hinteger.keyBits?_eq] at hkeys
    exact ⟨hkeys, iff_of_true (hbits.trans hkeys.symm) fun hbitless => hnot (.inr hbitless)⟩

/-- An odd width is shown in both rows. -/
theorem widths_shown_odd :
    let t : Ty := .scalar (.sized .int 257)
    let rows := Printed.typeRows (run emptyDirectory "cli" ["info", "int0257"]).output
    AsksAbout ["int0257"] "int0257" defaultVersion false ∧ (Ty.read "int0257").outcome = .ok t ∧ t.IsInteger ∧ t.bitLen ≠ 0 ∧
    Printed.valueOf "Map key bits" rows = "257".toList ∧ Printed.valueOf "Bit length" rows = "257".toList := by
  intro t rows
  have ht : (Ty.read "int0257").outcome = .ok t := by rfl
  have hasks := asksAbout_text ht
  have hinteger : t.IsInteger := trivial
  have hzero : t.bitLen ≠ 0 := by decide
  obtain ⟨hkeys, hsame⟩ := ((widths_shown t).2.2 emptyDirectory "cli" _ _ _ hasks ht).2 hinteger
  have hkeys : Printed.valueOf "Map key bits" rows = "257".toList := hkeys.trans (by decide)
  exact ⟨hasks, ht, hinteger, hzero, hkeys, (hsame.2 fun h => hzero (Ty.isBitless_iff.1 h).2).trans hkeys⟩

/-- **An integer that is reported as none**: it has the width that stands for no width, though it can key a map. -/
theorem width_of_bitless_not_shown :
    let t : Ty := .scalar (.sized .uint 0)
    let rows := Printed.typeRows (run emptyDirectory "cli" ["info", "uint0"]).output
    (Ty.read "uint0").outcome = .ok t ∧ t.IsInteger ∧ ¬ (t.bitLen = 0 ↔ ¬ t.IsInteger) ∧
    Printed.valueOf "Bit length" rows = "n/a".toList ∧ Printed.valueOf "Map key bits" rows = "0".toList := by
  intro t rows
  have ht : (Ty.read "uint0").outcome = .ok t := by rfl
  have hbitless : t.IsBitless := .inl rfl
  exact ⟨ht, trivial, fun h => Ty.bitLen_eq_zero_iff_not_isInteger.1 h hbitless,
    ((asksAbout_text ht).bitLength_eq emptyDirectory "cli" ht).trans (by decide),
    ((asksAbout_text ht).mapKeyBits_eq emptyDirectory "cli" ht).trans (by decide)⟩

end Command
end AbiTypes
