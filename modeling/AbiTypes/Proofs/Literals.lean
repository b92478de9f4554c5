import AbiTypes.Proofs.Delimited
import AbiTypes.Ty.Literal
/-!
# Literals — descriptors told apart by their constructor notation

A character between quotes is read back from its escape, whatever follows (`unquoteChar?_quotedChar`), so a quoted text
gives back the text and ends at its own closing quote.  Names hold any text, what looks like constructor notation
included; since they end where they should, so do all parts around them (`Ty.literalChars_append_inj`): **two descriptors
are written the same in constructor notation exactly if they are equal**.
-/
namespace AbiTypes

namespace Text

/-! ## Quoted text -/

/-- A character by its code point in `width` digits, and the text behind them. -/
def codePoint? (width : Nat) (cs : List Char) : Option (Char × List Char) :=
  (ofHex? (cs.take width)).map fun n => (Char.ofNat n, cs.drop width)

/-- **The first character of what stands between quotes**, its escape undone, and the text behind it. -/
def unquoteChar? : List Char → Option (Char × List Char)
  | [] => none
  | '\\' :: 'n' :: cs => some ('\n', cs)
  | '\\' :: 'r' :: cs => some ('\r', cs)
  | '\\' :: 't' :: cs => some ('\t', cs)
  | '\\' :: 'x' :: cs => codePoint? 2 cs
  | '\\' :: 'u' :: cs => codePoint? 4 cs
  | '\\' :: 'U' :: cs => codePoint? 8 cs
  | '\\' :: c :: cs => some (c, cs)
  | c :: cs => some (c, cs)

theorem codePoint?_hex {w : Nat} {c : Char} (h : c.toNat < Nat.pow 16 w) (xs : List Char) :
    codePoint? w (hex w c.toNat ++ xs) = some (c, xs) := by
  rw [codePoint?, List.take_left' (length_hex w _), List.drop_left' (length_hex w _), ofHex?_hex h, Option.map_some,
    Char.ofNat_toNat]

theorem unquoteChar?_codeEscape (c : Char) (xs : List Char) : unquoteChar? (codeEscape c ++ xs) = some (c, xs) := by
  have hvalid : c.toNat < 0x110000 := by
    have := c.valid
    have hn : c.toNat.isValidChar := this
    rcases hn with hn | ⟨-, hn⟩ <;> omega
  unfold codeEscape
  split
  · exact codePoint?_hex (w := 2) ‹_› xs
  · split
    · exact codePoint?_hex (w := 4) ‹_› xs
    · exact codePoint?_hex (w := 8) (Nat.lt_trans hvalid (by decide)) xs

/-- The quotes that a text can stand between. -/
theorem quoteMark_cases (cs : List Char) : quoteMark cs = '\x27' ∨ quoteMark cs = '"' := by
  unfold quoteMark
  split
  · exact .inr rfl
  · exact .inl rfl

section Mark

variable {q : Char} (hq : q = '\x27' ∨ q = '"')

include hq

/-- **An escape is undone** whatever stands behind it. -/
theorem unquoteChar?_quotedChar (c : Char) (xs : List Char) : unquoteChar? (quotedChar q c ++ xs) = some (c, xs) := by
  unfold quotedChar
  split
  · rename_i h
    rcases h with rfl | rfl
    · rcases hq with rfl | rfl <;> rfl
    · rfl
  split
  · subst_vars
    rfl
  split
  · subst_vars
    rfl
  split
  · subst_vars
    rfl
  split
  · exact unquoteChar?_codeEscape c xs
  · rename_i h _ _ _ _
    unfold unquoteChar?
    split <;> simp_all

/-- A character between quotes does not look like the closing one. -/
theorem quotedChar_append_ne (c : Char) (xs ys : List Char) : quotedChar q c ++ xs ≠ q :: ys := by
  have hslash : q ≠ '\\' := by
    rcases hq with rfl | rfl <;> decide
  intro h
  unfold quotedChar codeEscape at h
  repeat' split at h
  all_goals
    injection h with hhead
    first
      | exact hslash hhead.symm
      | simp_all

theorem flatMap_quotedChar_inj : ∀ {cs ds xs ys : List Char},
    cs.flatMap (quotedChar q) ++ q :: xs = ds.flatMap (quotedChar q) ++ q :: ys → cs = ds ∧ xs = ys
  | [], [], _, _, h => ⟨rfl, (List.cons.inj h).2⟩
  | [], d :: ds, _, _, h => by
    rw [List.flatMap_cons, List.append_assoc] at h
    exact absurd h.symm (quotedChar_append_ne hq d _ _)
  | c :: cs, [], _, _, h => by
    rw [List.flatMap_cons, List.append_assoc] at h
    exact absurd h (quotedChar_append_ne hq c _ _)
  | c :: cs, d :: ds, xs, ys, h => by
    have hread := congrArg unquoteChar? h
    rw [List.flatMap_cons, List.append_assoc, unquoteChar?_quotedChar hq, List.flatMap_cons, List.append_assoc,
      unquoteChar?_quotedChar hq] at hread
    obtain ⟨rfl, hrest⟩ := Prod.mk.inj (Option.some.inj hread)
    obtain ⟨rfl, hxs⟩ := flatMap_quotedChar_inj hrest
    exact ⟨rfl, hxs⟩

end Mark

/-- **A quoted text gives back the text**, and ends at its own closing quote. -/
theorem quotedChars_append_inj {cs ds xs ys : List Char} (h : quotedChars cs ++ xs = quotedChars ds ++ ys) :
    cs = ds ∧ xs = ys := by
  simp only [quotedChars, List.cons_append, List.append_assoc, List.nil_append] at h
  obtain ⟨hmark, h⟩ := List.cons.inj h
  rw [hmark] at h
  exact flatMap_quotedChar_inj (quoteMark_cases ds) h

end Text

/-! ## Variants -/

theorem Plain.variant_injective {p q : Plain} (h : p.variant = q.variant) : p = q := by
  cases p <;> cases q <;> first | rfl | exact absurd h (by decide)

theorem Sized.variant_injective {s r : Sized} (h : s.variant = r.variant) : s = r := by
  cases s <;> cases r <;> first | rfl | exact absurd h (by decide)

theorem Plain.variant_ne_sized (p : Plain) (s : Sized) : p.variant ≠ s.variant := by
  cases p <;> cases s <;> decide

/-- The variants of the types with parts. -/
def partedVariants : List String := ["Tuple", "Array", "FixedArray", "Map"]

theorem Plain.variant_spec : ∀ p ∈ Plain.all, p.variant ∉ partedVariants ∧ '(' ∉ p.variant.toList := by decide

theorem Sized.variant_spec : ∀ s ∈ Sized.all, s.variant ∉ partedVariants ∧ '(' ∉ s.variant.toList := by decide

theorem Scalar.variant_spec : ∀ s : Scalar, s.variant ∉ partedVariants ∧ '(' ∉ s.variant.toList
  | .plain p => p.variant_spec p.mem_all
  | .sized s _ => s.variant_spec s.mem_all

namespace Ty

theorem paren_notMem_variant (t : Ty) : '(' ∉ t.variant.toList := by
  have hparted : ∀ v ∈ partedVariants, '(' ∉ v.toList := by decide
  cases t with
  | scalar s => exact s.variant_spec.2
  | tuple fs => exact hparted "Tuple" (by decide)
  | array e => exact hparted "Array" (by decide)
  | fixedArray e n => exact hparted "FixedArray" (by decide)
  | map k v => exact hparted "Map" (by decide)

/-- Descriptors with the same outermost node, but for its parts. -/
inductive SameVariant : Ty → Ty → Prop
  | scalar {s r : Scalar} (h : s.variant = r.variant) : SameVariant (.scalar s) (.scalar r)
  | tuple (fs gs : List (Field Ty)) : SameVariant (.tuple fs) (.tuple gs)
  | array (e e' : Ty) : SameVariant (.array e) (.array e')
  | fixedArray (e e' : Ty) (n n' : Nat) : SameVariant (.fixedArray e n) (.fixedArray e' n')
  | map (k k' v v' : Ty) : SameVariant (.map k v) (.map k' v')

theorem sameVariant_of_eq {a b : Ty} (h : a.variant = b.variant) : SameVariant a b := by
  have hscalar {s : Scalar} {v : String} (hv : s.variant = v) : v ∉ partedVariants := hv ▸ s.variant_spec.1
  have htuple : "Tuple" ∈ partedVariants := by decide
  have harray : "Array" ∈ partedVariants := by decide
  have hfixed : "FixedArray" ∈ partedVariants := by decide
  have hmap : "Map" ∈ partedVariants := by decide
  cases a with
  | scalar s =>
    cases b with
    | scalar r => exact .scalar h
    | tuple gs => exact absurd htuple (hscalar h)
    | array e => exact absurd harray (hscalar h)
    | fixedArray e n => exact absurd hfixed (hscalar h)
    | map k v => exact absurd hmap (hscalar h)
  | tuple fs =>
    cases b with
    | scalar r => exact absurd htuple (hscalar h.symm)
    | tuple gs => exact .tuple fs gs
    | _ => simp [variant] at h
  | array e =>
    cases b with
    | scalar r => exact absurd harray (hscalar h.symm)
    | array e' => exact .array e e'
    | _ => simp [variant] at h
  | fixedArray e n =>
    cases b with
    | scalar r => exact absurd hfixed (hscalar h.symm)
    | fixedArray e' n' => exact .fixedArray e e' n n'
    | _ => simp [variant] at h
  | map k v =>
    cases b with
    | scalar r => exact absurd hmap (hscalar h.symm)
    | map k' v' => exact .map k k' v v'
    | _ => simp [variant] at h

/-! ## Constructor notation -/

/-- What stands between the parentheses of a descriptor in constructor notation. -/
def partChars : Ty → List Char
  | .scalar (.plain _) => []
  | .scalar (.sized _ n) => "size=".toList ++ Text.decimal n
  | .tuple fs => "params=[".toList ++ fieldLiteralChars fs ++ [']']
  | .array e => "param_type=".toList ++ e.literalChars
  | .fixedArray e n => "param_type=".toList ++ e.literalChars ++ ", size=".toList ++ Text.decimal n
  | .map k v => "key_type=".toList ++ k.literalChars ++ ", value_type=".toList ++ v.literalChars

/-- **A variant and, in parentheses, the parts.** -/
theorem literalChars_eq (t : Ty) : t.literalChars = t.variant.toList ++ '(' :: (t.partChars ++ [')']) := by
  cases t with
  | scalar s =>
    cases s with
    | plain p =>
      change p.variant.toList ++ ['(', ')'] = p.variant.toList ++ '(' :: ([] ++ [')'])
      rw [List.nil_append]
    | sized s n =>
      change s.variant.toList ++ "(size=".toList ++ Text.decimal n ++ [')'] =
        s.variant.toList ++ '(' :: ("size=".toList ++ Text.decimal n ++ [')'])
      simp
  | tuple fs =>
    change "Tuple(params=[".toList ++ fieldLiteralChars fs ++ [']', ')'] =
      "Tuple".toList ++ '(' :: ("params=[".toList ++ fieldLiteralChars fs ++ [']'] ++ [')'])
    simp
  | array e =>
    change "Array(param_type=".toList ++ e.literalChars ++ [')'] =
      "Array".toList ++ '(' :: ("param_type=".toList ++ e.literalChars ++ [')'])
    simp
  | fixedArray e n =>
    change "FixedArray(param_type=".toList ++ e.literalChars ++ ", size=".toList ++ Text.decimal n ++ [')'] =
      "FixedArray".toList ++ '(' :: ("param_type=".toList ++ e.literalChars ++ ", size=".toList ++ Text.decimal n ++ [')'])
    simp
  | map k v =>
    change "Map(key_type=".toList ++ k.literalChars ++ ", value_type=".toList ++ v.literalChars ++ [')'] =
      "Map".toList ++ '(' :: ("key_type=".toList ++ k.literalChars ++ ", value_type=".toList ++ v.literalChars ++ [')'])
    simp

/-- Behind a component's text stands the next component, if there is one. -/
theorem fieldLiteralChars_cons (f : Field Ty) (fs : List (Field Ty)) (rest : List Char) :
    fieldLiteralChars (f :: fs) ++ rest = "Param(name=".toList ++ (Text.quotedChars f.name.toList ++
      (", kind=".toList ++ (f.kind.literalChars ++ ')' ::
        ((if fs = [] then [] else ", ".toList ++ fieldLiteralChars fs) ++ rest)))) := by
  cases fs with
  | nil =>
    change "Param(name=".toList ++ Text.quotedChars f.name.toList ++ ", kind=".toList ++ f.kind.literalChars ++ [')'] ++ rest
      = _
    rw [if_pos rfl]
    simp only [List.append_assoc, List.cons_append, List.nil_append]
  | cons g gs =>
    change "Param(name=".toList ++ Text.quotedChars f.name.toList ++ ", kind=".toList ++ f.kind.literalChars ++ ")".toList
      ++ ", ".toList ++ fieldLiteralChars (g :: gs) ++ rest = _
    rw [if_neg (List.cons_ne_nil g gs), show ")".toList = [')'] from rfl]
    simp only [List.append_assoc, List.cons_append, List.nil_append]

theorem variant_append_inj {a b : Ty} {xs ys : List Char} (h : a.literalChars ++ xs = b.literalChars ++ ys) :
    a.variant = b.variant ∧ a.partChars ++ ')' :: xs = b.partChars ++ ')' :: ys := by
  rw [literalChars_eq, literalChars_eq, List.append_assoc, List.append_assoc, List.cons_append, List.cons_append] at h
  obtain ⟨hvariant, hparts⟩ := Text.append_cons_inj a.paren_notMem_variant b.paren_notMem_variant h
  exact ⟨String.toList_injective hvariant, by simpa using hparts⟩

/-- Components that are told apart from any others, by themselves and by where they end, make up lists that are. -/
theorem fieldLiteralChars_append_inj : ∀ {fs gs : List (Field Ty)} {xs ys : List Char},
    (∀ f ∈ fs, ∀ {b : Ty} {xs ys : List Char}, f.kind.literalChars ++ xs = b.literalChars ++ ys → f.kind = b ∧ xs = ys) →
    fieldLiteralChars fs ++ ']' :: xs = fieldLiteralChars gs ++ ']' :: ys → fs = gs ∧ xs = ys
  | [], [], _, _, _, h => ⟨rfl, (List.cons.inj h).2⟩
  | [], g :: gs, _, _, _, h => by
    rw [fieldLiteralChars_cons] at h
    cases (List.cons.inj h).1
  | f :: fs, [], _, _, _, h => by
    rw [fieldLiteralChars_cons] at h
    cases (List.cons.inj h).1
  | f :: fs, g :: gs, xs, ys, hparts, h => by
    obtain ⟨hf, hfs⟩ := List.forall_mem_cons.1 hparts
    rw [fieldLiteralChars_cons, fieldLiteralChars_cons] at h
    obtain ⟨hname, h⟩ := Text.quotedChars_append_inj (List.append_cancel_left h)
    obtain ⟨hkind, h⟩ := hf (List.append_cancel_left h)
    have hrest := (List.cons.inj h).2
    have hfield : f = g := Field.mk.injEq .. ▸ ⟨String.toList_injective hname, hkind⟩
    rw [hfield]
    by_cases hnil : fs = [] <;> by_cases hnil' : gs = []
    · subst hnil hnil'
      exact ⟨rfl, (List.cons.inj hrest).2⟩
    · rw [if_pos hnil, if_neg hnil'] at hrest
      cases (List.cons.inj hrest).1
    · rw [if_neg hnil, if_pos hnil'] at hrest
      cases (List.cons.inj hrest).1
    · rw [if_neg hnil, if_neg hnil', List.append_assoc, List.append_assoc] at hrest
      obtain ⟨rfl, hxs⟩ := fieldLiteralChars_append_inj hfs (List.append_cancel_left hrest)
      exact ⟨rfl, hxs⟩

theorem scalar_append_inj {s r : Scalar} (hv : s.variant = r.variant) {xs ys : List Char}
    (h : (Ty.scalar s).partChars ++ ')' :: xs = (Ty.scalar r).partChars ++ ')' :: ys) : s = r ∧ xs = ys := by
  cases s with
  | plain p =>
    cases r with
    | plain q => exact ⟨congrArg Scalar.plain (Plain.variant_injective hv), (List.cons.inj h).2⟩
    | sized r n => exact absurd hv (p.variant_ne_sized r)
  | sized s m =>
    cases r with
    | plain q => exact absurd hv.symm (q.variant_ne_sized s)
    | sized r n =>
      obtain rfl := Sized.variant_injective hv
      change "size=".toList ++ Text.decimal m ++ ')' :: xs = "size=".toList ++ Text.decimal n ++ ')' :: ys at h
      simp only [List.append_assoc, List.append_cancel_left_eq] at h
      obtain ⟨hsize, hrest⟩ := Text.decimal_append_inj (noDigitAhead_cons.2 rfl) (noDigitAhead_cons.2 rfl) h
      exact ⟨by rw [hsize], (List.cons.inj hrest).2⟩

/-- **A descriptor in constructor notation ends where it should**, whatever stands behind it, and no other is written the
same. -/
theorem literalChars_append_inj {a : Ty} : ∀ {b : Ty} {xs ys : List Char},
    a.literalChars ++ xs = b.literalChars ++ ys → a = b ∧ xs = ys := by
  induction a with
  | scalar s =>
    intro b xs ys h
    obtain ⟨hv, hp⟩ := variant_append_inj h
    cases sameVariant_of_eq hv with
    | scalar hv =>
      obtain ⟨rfl, hxs⟩ := scalar_append_inj hv hp
      exact ⟨rfl, hxs⟩
  | tuple fs ih =>
    intro b xs ys h
    obtain ⟨hv, hp⟩ := variant_append_inj h
    cases sameVariant_of_eq hv with
    | tuple _ gs =>
      change "params=[".toList ++ fieldLiteralChars fs ++ [']'] ++ ')' :: xs =
        "params=[".toList ++ fieldLiteralChars gs ++ [']'] ++ ')' :: ys at hp
      simp only [List.append_assoc, List.cons_append, List.nil_append, List.append_cancel_left_eq] at hp
      obtain ⟨rfl, hrest⟩ := fieldLiteralChars_append_inj (fun f hf => ih f hf) hp
      exact ⟨rfl, (List.cons.inj hrest).2⟩
  | array e ih =>
    intro b xs ys h
    obtain ⟨hv, hp⟩ := variant_append_inj h
    cases sameVariant_of_eq hv with
    | array _ e' =>
      change "param_type=".toList ++ e.literalChars ++ ')' :: xs = "param_type=".toList ++ e'.literalChars ++ ')' :: ys at hp
      simp only [List.append_assoc, List.append_cancel_left_eq] at hp
      obtain ⟨rfl, hrest⟩ := ih hp
      exact ⟨rfl, (List.cons.inj hrest).2⟩
  | fixedArray e n ih =>
    intro b xs ys h
    obtain ⟨hv, hp⟩ := variant_append_inj h
    cases sameVariant_of_eq hv with
    | fixedArray _ e' _ n' =>
      change "param_type=".toList ++ e.literalChars ++ ", size=".toList ++ Text.decimal n ++ ')' :: xs =
        "param_type=".toList ++ e'.literalChars ++ ", size=".toList ++ Text.decimal n' ++ ')' :: ys at hp
      simp only [List.append_assoc, List.append_cancel_left_eq] at hp
      obtain ⟨rfl, hsize⟩ := ih hp
      obtain ⟨rfl, hrest⟩ := Text.decimal_append_inj (noDigitAhead_cons.2 rfl) (noDigitAhead_cons.2 rfl)
        (List.append_cancel_left hsize)
      exact ⟨rfl, (List.cons.inj hrest).2⟩
  | map k v ihk ihv =>
    intro b xs ys h
    obtain ⟨hv, hp⟩ := variant_append_inj h
    cases sameVariant_of_eq hv with
    | map _ k' _ v' =>
      change "key_type=".toList ++ k.literalChars ++ ", value_type=".toList ++ v.literalChars ++ ')' :: xs =
        "key_type=".toList ++ k'.literalChars ++ ", value_type=".toList ++ v'.literalChars ++ ')' :: ys at hp
      simp only [List.append_assoc, List.append_cancel_left_eq] at hp
      obtain ⟨rfl, hvalue⟩ := ihk hp
      obtain ⟨rfl, hrest⟩ := ihv (List.append_cancel_left hvalue)
      exact ⟨rfl, (List.cons.inj hrest).2⟩

/-- **Constructor notation is exact.**  Two descriptors are written the same exactly if they are equal, the names of
components included, whatever characters these hold. -/
theorem literal_eq_iff (a b : Ty) : a.literal = b.literal ↔ a = b := by
  constructor
  · intro h
    have hchars : a.literalChars ++ [] = b.literalChars ++ [] := congrArg (· ++ []) (String.ofList_injective h)
    exact (literalChars_append_inj hchars).1
  · rintro rfl
    rfl

end Ty
end AbiTypes
