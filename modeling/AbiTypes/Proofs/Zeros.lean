import AbiTypes.Proofs.Lexing
/-!
# Zeros — digit runs without leading zeros

A digit run is canonical if it has no redundant leading zero.  Dropping the zeros of a run is the same as reading its value
and printing that (`dropZeros_append`), for a run and a number of its value differ in nothing else.
-/
namespace AbiTypes

/-- **A text without the redundant zeros of its digit runs**: those that a digit follows and none of the run stands before.
`inRun` tells whether a digit of the run at the text's start was kept. -/
def dropZeros (inRun : Bool) : List Char → List Char
  | [] => []
  | c :: cs =>
    if !inRun && c = '0' && cs.head?.any Char.isDigit then dropZeros false cs
    else c :: dropZeros c.isDigit cs

theorem digit_lt_ten {c : Char} (h : c.isDigit = true) : c.toNat - '0'.toNat < 10 := by
  have h2 := (Char.isDigit_iff_toNat.1 h).2
  have h0 : '0'.toNat = 48 := rfl
  have h9 : '9'.toNat = 57 := rfl
  omega

theorem decimal_digit {c : Char} (h : c.isDigit = true) : Text.decimal (c.toNat - '0'.toNat) = [c] := by
  have h1 := (Char.isDigit_iff_toNat.1 h).1
  have h0 : '0'.toNat = 48 := rfl
  rw [Text.decimal, Nat.toDigits_of_lt_base (digit_lt_ten h)]
  refine congrArg (fun d => [d]) (Char.toNat_inj.1 ?_)
  rw [Nat.toNat_digitChar_of_lt_ten (digit_lt_ten h)]
  omega

theorem decimal_append : ∀ {ds : List Char} {n : Nat}, 0 < n → (∀ d ∈ ds, d.isDigit = true) →
    Text.decimal n ++ ds = Text.decimal (Nat.ofDigitChars 10 ds n)
  | [], n, _, _ => by rw [List.append_nil, Nat.ofDigitChars_nil]
  | d :: ds, n, hn, h => by
    obtain ⟨hd, hds⟩ := List.forall_mem_cons.1 h
    have hone : Text.decimal n ++ [d] = Text.decimal (10 * n + (d.toNat - '0'.toNat)) :=
      decimal_digit hd ▸ Nat.toDigits_append_toDigits (by decide) hn (digit_lt_ten hd)
    rw [Nat.ofDigitChars_cons, ← decimal_append (by omega) hds, ← hone, List.append_assoc, List.singleton_append]

theorem ofDecimal_zero_cons (ds : List Char) : Text.ofDecimal ('0' :: ds) = Text.ofDecimal ds := by
  simp [Text.ofDecimal, Nat.ofDigitChars_cons]

theorem ofDecimal_replicate_append (k : Nat) (ds : List Char) :
    Text.ofDecimal (List.replicate k '0' ++ ds) = Text.ofDecimal ds := by
  induction k with
  | zero => rfl
  | succ k ih => rw [List.replicate_succ, List.cons_append, ofDecimal_zero_cons, ih]

theorem ofDecimal_singleton (c : Char) : Text.ofDecimal [c] = c.toNat - '0'.toNat := by
  simp [Text.ofDecimal, Nat.ofDigitChars_cons]

theorem decimal_ofDecimal_of_ne {c : Char} {ds : List Char} (hc : c ≠ '0') (h : ∀ d ∈ c :: ds, d.isDigit = true) :
    Text.decimal (Text.ofDecimal (c :: ds)) = c :: ds := by
  obtain ⟨hd, hds⟩ := List.forall_mem_cons.1 h
  have hpos : 0 < c.toNat - '0'.toNat := by
    have h0 := (Char.isDigit_iff_toNat.1 hd).1
    have hne : c.toNat ≠ '0'.toNat := fun he => hc (Char.toNat_inj.1 he)
    omega
  have hval : Text.ofDecimal (c :: ds) = Nat.ofDigitChars 10 ds (c.toNat - '0'.toNat) := by
    simp [Text.ofDecimal, Nat.ofDigitChars_cons]
  rw [hval, ← decimal_append hpos hds, decimal_digit hd, List.singleton_append]

theorem dropZeros_of_noDigitAhead {cs : List Char} (h : NoDigitAhead cs) (b : Bool) :
    dropZeros b cs = dropZeros false cs := by
  cases cs with
  | nil => rfl
  | cons c cs =>
    have hc : c ≠ '0' := by
      rintro rfl
      cases noDigitAhead_cons.1 h
    simp [dropZeros, hc]

theorem dropZeros_true_append {rest : List Char} : ∀ {ds : List Char}, (∀ d ∈ ds, d.isDigit = true) →
    dropZeros true (ds ++ rest) = ds ++ dropZeros true rest
  | [], _ => rfl
  | d :: ds, h => by
    obtain ⟨hd, hds⟩ := List.forall_mem_cons.1 h
    rw [List.cons_append, dropZeros, hd, dropZeros_true_append hds]
    simp

theorem dropZeros_word_append {rest : List Char} : ∀ {w : List Char}, (∀ c ∈ w, c.isDigit = false) →
    dropZeros false (w ++ rest) = w ++ dropZeros false rest
  | [], _ => rfl
  | c :: w, h => by
    obtain ⟨hc, hw⟩ := List.forall_mem_cons.1 h
    have hzero : c ≠ '0' := by
      rintro rfl
      cases hc
    simp [dropZeros, hzero, hc, dropZeros_word_append hw]

/-- **A run of digits becomes the decimal digits of its value.** -/
theorem dropZeros_append {rest : List Char} (hr : NoDigitAhead rest) : ∀ {ds : List Char}, IsNumeral ds →
    dropZeros false (ds ++ rest) = Text.decimal (Text.ofDecimal ds) ++ dropZeros false rest
  | [], h => absurd rfl h.1
  | [c], ⟨_, h⟩ => by
    have hc : c.isDigit = true := h c (by simp)
    have hnone : rest.head?.any Char.isDigit = false := by
      rw [Option.any_eq_false]
      exact fun d hd => by simp [hr d hd]
    rw [ofDecimal_singleton, decimal_digit hc, List.singleton_append, List.singleton_append, dropZeros, hnone, hc,
      ← dropZeros_of_noDigitAhead hr true]
    simp
  | c :: d :: ds, ⟨_, h⟩ => by
    obtain ⟨hc, hds⟩ := List.forall_mem_cons.1 h
    by_cases hzero : c = '0'
    · -- a digit follows, so the zero goes, and the value of the run does not change
      subst hzero
      have hd : d.isDigit = true := hds d (by simp)
      rw [ofDecimal_zero_cons, ← dropZeros_append hr ⟨by simp, hds⟩]
      simp [dropZeros, hd]
    · rw [decimal_ofDecimal_of_ne hzero h, ← dropZeros_of_noDigitAhead hr true,
        ← dropZeros_true_append h]
      simp [dropZeros, hzero]

theorem length_dropZeros_le : ∀ (b : Bool) (cs : List Char), (dropZeros b cs).length ≤ cs.length
  | _, [] => Nat.le_refl 0
  | b, c :: cs => by
    rw [dropZeros]
    split
    · exact Nat.le_succ_of_le (length_dropZeros_le false cs)
    · exact Nat.succ_le_succ (length_dropZeros_le _ cs)

theorem length_decimal_ofDecimal_le {ds : List Char} (h : IsNumeral ds) :
    (Text.decimal (Text.ofDecimal ds)).length ≤ ds.length := by
  have hd := @dropZeros_append [] (by simp [NoDigitAhead]) ds h
  rw [List.append_nil, dropZeros, List.append_nil] at hd
  exact hd ▸ length_dropZeros_le false ds

end AbiTypes
