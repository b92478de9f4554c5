import AbiTypes.Proofs.RoundTrip
/-!
# Delimited — parts of a text that end where they should

A part that a mark ends is found again in any text, if the mark does not stand in it (`append_cons_inj`); so is a run of
digits that cannot go on behind it (`numeral_append_inj`), and with it a printed number.  Digits in base sixteen, of which
there is a fixed count, are read back as the number they stand for (`ofHex?_hex`).
-/
namespace AbiTypes.Text

/-- What holds of all characters of a text can be checked on the text. -/
theorem forall_of_all {cs : List Char} {P : Char → Prop} [DecidablePred P] (h : (cs.all fun c => decide (P c)) = true) :
    ∀ c ∈ cs, P c := fun c hc => of_decide_eq_true (List.all_eq_true.1 h c hc)

/-- **A part ends at the first mark.** -/
theorem append_cons_inj {c : Char} : ∀ {us vs xs ys : List Char}, c ∉ us → c ∉ vs → us ++ c :: xs = vs ++ c :: ys →
    us = vs ∧ xs = ys
  | [], [], _, _, _, _, h => ⟨rfl, (List.cons.inj h).2⟩
  | [], v :: vs, _, _, _, hv, h => absurd ((List.cons.inj h).1 ▸ List.mem_cons_self) hv
  | u :: us, [], _, _, hu, _, h => absurd ((List.cons.inj h).1.symm ▸ List.mem_cons_self) hu
  | u :: us, v :: vs, _, _, hu, hv, h => by
    rw [List.mem_cons, not_or] at hu hv
    obtain ⟨hhead, htail⟩ := List.cons.inj h
    obtain ⟨hus, hxs⟩ := append_cons_inj hu.2 hv.2 htail
    exact ⟨by rw [hhead, hus], hxs⟩

/-! ## Numbers -/

/-- **A run of digits ends where no digit follows.** -/
theorem numeral_append_inj {ds es xs ys : List Char} (hd : IsNumeral ds) (he : IsNumeral es) (hx : NoDigitAhead xs)
    (hy : NoDigitAhead ys) (h : ds ++ xs = es ++ ys) : ds = es ∧ xs = ys := by
  obtain ⟨hds, hxs⟩ := takeWhile_isDigit_append hd.2 hx
  obtain ⟨hes, hys⟩ := takeWhile_isDigit_append he.2 hy
  exact ⟨by rw [← hds, h, hes], by rw [← hxs, h, hys]⟩

theorem numeral_append_ne_cons {c : Char} (hc : c.isDigit = false) {ds : List Char} (hd : IsNumeral ds)
    (xs ys : List Char) : ds ++ xs ≠ c :: ys := by
  obtain ⟨hne, hdigits⟩ := hd
  obtain ⟨d, ds, rfl⟩ := List.exists_cons_of_ne_nil hne
  intro h
  obtain rfl := (List.cons.inj h).1
  cases hc.symm.trans (hdigits d List.mem_cons_self)

theorem decimal_append_inj {m n : Nat} {xs ys : List Char} (hx : NoDigitAhead xs) (hy : NoDigitAhead ys)
    (h : decimal m ++ xs = decimal n ++ ys) : m = n ∧ xs = ys := by
  obtain ⟨hdigits, hrest⟩ := numeral_append_inj (isNumeral_decimal m) (isNumeral_decimal n) hx hy h
  exact ⟨by rw [← ofDecimal_decimal m, hdigits, ofDecimal_decimal], hrest⟩

/-- An integer ends where no digit follows. -/
theorem decimalInt_append_inj {m n : Int} {xs ys : List Char} (hx : NoDigitAhead xs) (hy : NoDigitAhead ys)
    (h : decimalInt m ++ xs = decimalInt n ++ ys) : m = n ∧ xs = ys := by
  cases m with
  | ofNat m =>
    cases n with
    | ofNat n =>
      obtain ⟨rfl, hxs⟩ := decimal_append_inj hx hy h
      exact ⟨rfl, hxs⟩
    | negSucc n => exact absurd h (numeral_append_ne_cons rfl (isNumeral_decimal m) xs _)
  | negSucc m =>
    cases n with
    | ofNat n => exact absurd h.symm (numeral_append_ne_cons rfl (isNumeral_decimal n) ys _)
    | negSucc n =>
      obtain ⟨hmn, hxs⟩ := decimal_append_inj hx hy (List.cons.inj h).2
      exact ⟨congrArg Int.negSucc (Nat.succ.inj hmn), hxs⟩

/-! ## Base sixteen -/

/-- The value of a digit in base sixteen, of either case. -/
def hexDigit? (c : Char) : Option Nat :=
  if '0' ≤ c ∧ c ≤ '9' then some (c.toNat - '0'.toNat)
  else if 'a' ≤ c ∧ c ≤ 'f' then some (c.toNat - 'a'.toNat + 10)
  else if 'A' ≤ c ∧ c ≤ 'F' then some (c.toNat - 'A'.toNat + 10)
  else none

/-- The number that digits in base sixteen stand for, the first one the highest. -/
def ofHex? (ds : List Char) : Option Nat := ds.foldlM (fun n d => (hexDigit? d).map (16 * n + ·)) 0

theorem hexDigit?_digitChar : ∀ n < 16, hexDigit? (Nat.digitChar n) = some n := by decide

/-- **Printing in base sixteen then reading gives the number back**, if it fits in the digits. -/
theorem ofHex?_hex {w n : Nat} (h : n < Nat.pow 16 w) : ofHex? (hex w n) = some n := by
  induction w generalizing n with
  | zero =>
    obtain rfl : n = 0 := Nat.lt_one_iff.1 h
    rfl
  | succ w ih =>
    have hhigh : n / 16 < Nat.pow 16 w := (Nat.div_lt_iff_lt_mul (by decide)).2 h
    have hlow := hexDigit?_digitChar (n % 16) (Nat.mod_lt n (by decide))
    have hn : 16 * (n / 16) + n % 16 = n := Nat.div_add_mod n 16
    rw [hex, ofHex?, List.foldlM_append]
    change (ofHex? (hex w (n / 16))).bind _ = _
    rw [ih hhigh, Option.bind_some, List.foldlM_cons, hlow, Option.map_some, hn]
    rfl

end AbiTypes.Text
