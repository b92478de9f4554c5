import AbiTypes.Proofs.Delimited
import Mathlib.Data.List.Infix
import Mathlib.Data.List.MinMax
import Mathlib.Order.Nat
/-!
# Shape — the shape of a signature

A signature is letters, digits, commas and brackets.  Its brackets are well nested, as deep as arrays, tuples and maps are
(`Ty.shaped_spelled`), so whatever part of it was read, no kind of bracket was closed more often than opened
(`Text.Nested.keepsOpen`).  A comma parts the components of a tuple or of a map, whose parentheses are still open there; a
square bracket holds a run of digits or nothing.
-/
namespace AbiTypes

/-- The kinds of brackets. -/
inductive Bracket
  | round | square

def Bracket.opening : Bracket → Char
  | .round => '('
  | .square => '['

def Bracket.closing : Bracket → Char
  | .round => ')'
  | .square => ']'

namespace Text

/-! ## Nesting -/

/-- How often a text opens a bracket. -/
def opened (cs : List Char) : Nat := cs.count '(' + cs.count '['

/-- How often a text closes a bracket. -/
def closed (cs : List Char) : Nat := cs.count ')' + cs.count ']'

/-- **The greatest nesting of brackets**: the most that are open at once. -/
def nesting (cs : List Char) : Nat := (cs.inits.map fun p => opened p - closed p).foldr max 0

/-- **Texts whose brackets are well nested**, so many levels deep at most. -/
inductive Nested : Nat → List Char → Prop
  | flat {n : Nat} {cs : List Char} (h : ∀ k : Bracket, k.opening ∉ cs ∧ k.closing ∉ cs) : Nested n cs
  | append {n : Nat} {xs ys : List Char} (hx : Nested n xs) (hy : Nested n ys) : Nested n (xs ++ ys)
  | enclosed {n : Nat} {cs : List Char} (k : Bracket) (h : Nested n cs) : Nested (n + 1) (k.opening :: (cs ++ [k.closing]))

theorem Nested.mono {m n : Nat} {cs : List Char} (h : Nested m cs) (hmn : m ≤ n) : Nested n cs := by
  induction h generalizing n with
  | flat h => exact .flat h
  | append _ _ ihx ihy => exact .append (ihx hmn) (ihy hmn)
  | enclosed k _ ih =>
    obtain ⟨n, rfl⟩ := Nat.exists_eq_add_one_of_ne_zero (Nat.ne_of_gt (Nat.lt_of_lt_of_le (Nat.succ_pos _) hmn))
    exact .enclosed k (ih (Nat.le_of_succ_le_succ hmn))

/-- What was read of a well nested text: no kind of bracket was closed more often than opened, and at most `n` brackets
are open. -/
structure KeepsOpen (n : Nat) (p : List Char) : Prop where
  closing_le (k : Bracket) : p.count k.closing ≤ p.count k.opening
  opened_le : opened p ≤ closed p + n

/-- What closed all that it opened has nothing open. -/
theorem keepsOpen_of_count_eq {p : List Char} (h : ∀ k : Bracket, p.count k.closing = p.count k.opening) (n : Nat) :
    KeepsOpen n p := by
  refine ⟨fun k => (h k).le, ?_⟩
  have hround : p.count ')' = p.count '(' := h .round
  have hsquare : p.count ']' = p.count '[' := h .square
  rw [opened, closed, hround, hsquare]
  exact Nat.le_add_right _ n

/-- One more level around what was read. -/
theorem KeepsOpen.inside {n : Nat} {p : List Char} (h : KeepsOpen n p) (k : Bracket) :
    KeepsOpen (n + 1) (k.opening :: p) := by
  obtain ⟨hclosing, hopened⟩ := h
  refine ⟨fun j => ?_, ?_⟩
  · have hother : k.opening ≠ j.closing := by cases j <;> cases k <;> decide
    rw [List.count_cons_of_ne hother]
    exact (hclosing j).trans List.count_le_count_cons
  · cases k <;> simp only [Bracket.opening, opened, closed] at * <;> simp <;> omega

/-- **Every beginning of a well nested text keeps its brackets open**, and the whole text closes them all. -/
theorem Nested.keepsOpen {n : Nat} {cs : List Char} (h : Nested n cs) :
    (∀ k : Bracket, cs.count k.closing = cs.count k.opening) ∧ ∀ p, p <+: cs → KeepsOpen n p := by
  induction h with
  | flat h =>
    refine ⟨fun k => ?_, fun p hp => keepsOpen_of_count_eq (fun k => ?_) _⟩
    · rw [List.count_eq_zero.2 (h k).1, List.count_eq_zero.2 (h k).2]
    · rw [List.count_eq_zero.2 fun hk => (h k).1 (hp.subset hk), List.count_eq_zero.2 fun hk => (h k).2 (hp.subset hk)]
  | @append n xs ys _ _ ihx ihy =>
    obtain ⟨hx, hxs⟩ := ihx
    obtain ⟨hy, hys⟩ := ihy
    refine ⟨fun k => by rw [List.count_append, List.count_append, hx, hy], fun p ⟨s, hs⟩ => ?_⟩
    obtain ⟨q, rfl, -⟩ | ⟨q, rfl, rfl⟩ := List.append_eq_append_iff.1 hs
    · exact hxs p (List.prefix_append p q)
    · -- the first part closed all that it opened
      obtain ⟨hclosing, hopened⟩ := hys q (List.prefix_append q s)
      have hround : xs.count ')' = xs.count '(' := hx .round
      have hsquare : xs.count ']' = xs.count '[' := hx .square
      refine ⟨fun k => ?_, ?_⟩
      · rw [List.count_append, List.count_append, hx]
        exact Nat.add_le_add_left (hclosing k) _
      · simp only [opened, closed, List.count_append] at *
        omega
  | @enclosed n cs k _ ih =>
    obtain ⟨hcs, hbefore⟩ := ih
    have hwhole (j : Bracket) :
        (k.opening :: (cs ++ [k.closing])).count j.closing = (k.opening :: (cs ++ [k.closing])).count j.opening := by
      have := hcs j
      cases j <;> cases k <;> simp_all [Bracket.opening, Bracket.closing]
    refine ⟨hwhole, fun p hp => ?_⟩
    rcases p with _ | ⟨c, p⟩
    · exact keepsOpen_of_count_eq (fun _ => rfl) _
    · obtain ⟨rfl, htail⟩ := List.cons_prefix_cons.1 hp
      rcases List.prefix_concat_iff.1 htail with rfl | htail
      · exact keepsOpen_of_count_eq hwhole _
      · exact (hbefore p htail).inside k

theorem nesting_le {n : Nat} {cs : List Char} (h : Nested n cs) : nesting cs ≤ n := by
  refine List.max_le_of_forall_le (cs.inits.map fun p => opened p - closed p) n fun m hm => ?_
  obtain ⟨p, hp, rfl⟩ := List.mem_map.1 hm
  have := (h.keepsOpen.2 p ((List.mem_inits p cs).1 hp)).opened_le
  omega

/-! ## Commas and square brackets -/

/-- Every comma of the text stands in parentheses that are still open. -/
def CommasEnclosed (cs : List Char) : Prop := ∀ p s, cs = p ++ ',' :: s → p.count ')' < p.count '('

/-- Every square bracket of the text holds a run of digits, or nothing. -/
def BracketsHoldDigits (cs : List Char) : Prop :=
  ∀ p s, cs = p ++ '[' :: s → ∃ ds rest, (∀ c ∈ ds, c.isDigit = true) ∧ s = ds ++ ']' :: rest

theorem ne_append_cons_of_notMem {d : Char} {cs : List Char} (h : d ∉ cs) (p s : List Char) : cs ≠ p ++ d :: s := by
  rintro rfl
  exact h (List.mem_append_right p List.mem_cons_self)

/-- A character of two texts in a row stands in the first or in the second. -/
theorem append_eq_append_cons {d : Char} {xs ys p s : List Char} (h : xs ++ ys = p ++ d :: s) :
    (∃ t, xs = p ++ d :: t ∧ s = t ++ ys) ∨ ∃ q, p = xs ++ q ∧ ys = q ++ d :: s := by
  obtain ⟨q, hp, hys⟩ | ⟨t, hxs, hs⟩ := List.append_eq_append_iff.1 h
  · exact .inr ⟨q, hp, hys⟩
  · cases t with
    | nil => exact .inr ⟨[], by simpa using hxs.symm, hs.symm⟩
    | cons c t =>
      obtain ⟨rfl, rfl⟩ := List.cons.inj hs
      exact .inl ⟨t, hxs, rfl⟩

theorem CommasEnclosed.append {n : Nat} {xs ys : List Char} (hn : Nested n xs) (hx : CommasEnclosed xs)
    (hy : CommasEnclosed ys) : CommasEnclosed (xs ++ ys) := by
  intro p s h
  obtain ⟨t, hxs, -⟩ | ⟨q, rfl, hys⟩ := append_eq_append_cons h
  · exact hx p t hxs
  · have hround : xs.count ')' = xs.count '(' := hn.keepsOpen.1 .round
    rw [List.count_append, List.count_append, hround]
    exact Nat.add_lt_add_left (hy q s hys) _

/-- Parentheses enclose the commas between them. -/
theorem commasEnclosed_parenthesized {n : Nat} {cs : List Char} (hn : Nested n cs) :
    CommasEnclosed ('(' :: (cs ++ [')'])) := by
  rintro (_ | ⟨c, p⟩) s h
  · cases h
  · obtain ⟨rfl, htail⟩ := List.cons.inj h
    obtain ⟨t, rfl, -⟩ | ⟨q, -, hclose⟩ := append_eq_append_cons htail
    · have hround : p.count ')' ≤ p.count '(' := (hn.keepsOpen.2 p (List.prefix_append p _)).closing_le .round
      rw [List.count_cons_self, List.count_cons_of_ne (by decide)]
      exact Nat.lt_succ_of_le hround
    · exact absurd hclose (ne_append_cons_of_notMem (by decide) q s)

theorem BracketsHoldDigits.append {xs ys : List Char} (hx : BracketsHoldDigits xs) (hy : BracketsHoldDigits ys) :
    BracketsHoldDigits (xs ++ ys) := by
  intro p s h
  obtain ⟨t, hxs, rfl⟩ | ⟨q, -, hys⟩ := append_eq_append_cons h
  · obtain ⟨ds, rest, hds, rfl⟩ := hx p t hxs
    exact ⟨ds, rest ++ ys, hds, List.append_assoc ds _ ys⟩
  · exact hy q s hys

theorem bracketsHoldDigits_suffix {ds : List Char} (h : ∀ c ∈ ds, c.isDigit = true) :
    BracketsHoldDigits ('[' :: (ds ++ [']'])) := by
  have hbracket : '[' ∉ ds ++ [']'] := fun hmem => by
    rcases List.mem_append.1 hmem with hmem | hmem
    · cases h '[' hmem
    · cases List.mem_singleton.1 hmem
  rintro (_ | ⟨c, p⟩) s hs
  · exact ⟨ds, [], h, (List.cons.inj hs).2.symm⟩
  · exact absurd (List.cons.inj hs).2 (ne_append_cons_of_notMem hbracket p s)

/-! ## Shapes -/

/-- The characters of words and numbers. -/
def IsWordChar (c : Char) : Prop := c.isLower = true ∨ c.isDigit = true

instance : DecidablePred IsWordChar := fun c => inferInstanceAs (Decidable (c.isLower = true ∨ c.isDigit = true))

/-- The characters of signatures. -/
def IsSignatureChar (c : Char) : Prop := c.isLower = true ∨ c.isDigit = true ∨ c ∈ ['(', ')', ',', '[', ']']

/-- **The shape of a list of signatures**, the commas between them included. -/
structure ListShaped (n : Nat) (cs : List Char) : Prop where
  isSignatureChar : ∀ c ∈ cs, IsSignatureChar c
  nested : Nested n cs
  bracketsHoldDigits : BracketsHoldDigits cs

/-- **The shape of a signature.** -/
structure Shaped (n : Nat) (cs : List Char) : Prop extends ListShaped n cs where
  commasEnclosed : CommasEnclosed cs

theorem ListShaped.append {n : Nat} {xs ys : List Char} (hx : ListShaped n xs) (hy : ListShaped n ys) :
    ListShaped n (xs ++ ys) :=
  ⟨List.forall_mem_append.2 ⟨hx.isSignatureChar, hy.isSignatureChar⟩, hx.nested.append hy.nested,
    hx.bracketsHoldDigits.append hy.bracketsHoldDigits⟩

theorem Shaped.append {n : Nat} {xs ys : List Char} (hx : Shaped n xs) (hy : Shaped n ys) : Shaped n (xs ++ ys) :=
  ⟨hx.toListShaped.append hy.toListShaped, hx.commasEnclosed.append hx.nested hy.commasEnclosed⟩

theorem Shaped.mono {m n : Nat} {cs : List Char} (h : Shaped m cs) (hmn : m ≤ n) : Shaped n cs :=
  { h with nested := h.nested.mono hmn }

theorem shaped_word {cs : List Char} (h : ∀ c ∈ cs, IsWordChar c) (n : Nat) : Shaped n cs := by
  have hmarks : ∀ c ∈ ['(', ')', ',', '[', ']'], ¬ IsWordChar c := by simp [IsWordChar]
  have hnot {c : Char} (hc : c ∈ ['(', ')', ',', '[', ']']) : c ∉ cs := fun hmem => hmarks c hc (h c hmem)
  exact {
    isSignatureChar := fun c hc => (h c hc).imp_right .inl
    nested := .flat fun k => by cases k <;> exact ⟨hnot (by decide), hnot (by decide)⟩
    bracketsHoldDigits := fun p s hs => absurd hs (ne_append_cons_of_notMem (hnot (by decide)) p s)
    commasEnclosed := fun p s hs => absurd hs (ne_append_cons_of_notMem (hnot (by decide)) p s) }

/-- Square brackets around digits. -/
theorem shaped_brackets {ds : List Char} (h : ∀ c ∈ ds, c.isDigit = true) (n : Nat) :
    Shaped (n + 1) ('[' :: (ds ++ [']'])) := by
  have hds : Shaped n ds := shaped_word (fun c hc => .inr (h c hc)) n
  have hcomma : ',' ∉ '[' :: (ds ++ [']']) := fun hmem => by
    rcases List.mem_append.1 (List.mem_of_ne_of_mem (by decide) hmem) with hmem | hmem
    · cases h ',' hmem
    · cases List.mem_singleton.1 hmem
  exact {
    isSignatureChar := by
      simp only [List.forall_mem_cons, List.forall_mem_append]
      exact ⟨.inr (.inr (by decide)), hds.isSignatureChar, .inr (.inr (by decide)), nofun⟩
    nested := .enclosed .square hds.nested
    bracketsHoldDigits := bracketsHoldDigits_suffix h
    commasEnclosed := fun p s hs => absurd hs (ne_append_cons_of_notMem hcomma p s) }

theorem listShaped_intercalate {n : Nat} : ∀ {ls : List (List Char)}, (∀ l ∈ ls, Shaped n l) →
    ListShaped n ([','].intercalate ls)
  | [], _ => (shaped_word (List.forall_mem_nil _) n).toListShaped
  | [l], h => by
    rw [List.intercalate_singleton]
    exact (h l List.mem_cons_self).toListShaped
  | l :: k :: ls, h => by
    obtain ⟨hl, hls⟩ := List.forall_mem_cons.1 h
    have hcomma : ListShaped n [','] := {
      isSignatureChar := List.forall_mem_singleton.2 (.inr (.inr (by decide)))
      nested := .flat fun k => by cases k <;> decide
      bracketsHoldDigits := fun p s hs => absurd hs (ne_append_cons_of_notMem (by decide) p s) }
    rw [List.intercalate_cons_cons]
    exact (hl.toListShaped.append hcomma).append (listShaped_intercalate hls)

/-- Parentheses around signatures with commas between them. -/
theorem shaped_parentheses {n : Nat} {ls : List (List Char)} (h : ∀ l ∈ ls, Shaped n l) :
    Shaped (n + 1) ('(' :: ([','].intercalate ls ++ [')'])) := by
  obtain ⟨hchars, hnested, hbrackets⟩ := listShaped_intercalate h
  have hmark (c : Char) (hc : c ∉ ['[']) : BracketsHoldDigits [c] := fun p s hs =>
    absurd hs (ne_append_cons_of_notMem (by simpa [eq_comm] using hc) p s)
  exact {
    isSignatureChar := by
      simp only [List.forall_mem_cons, List.forall_mem_append]
      exact ⟨.inr (.inr (by decide)), hchars, .inr (.inr (by decide)), nofun⟩
    nested := .enclosed .round hnested
    bracketsHoldDigits := (hmark '(' (by decide)).append (hbrackets.append (hmark ')' (by decide)))
    commasEnclosed := commasEnclosed_parenthesized hnested }

end Text

/-! ## Signatures -/

theorem Plain.isWordChar (p : Plain) : ∀ c ∈ p.word, Text.IsWordChar c := by
  cases p <;> exact Text.forall_of_all (by decide)

theorem Sized.isWordChar (s : Sized) (n : Nat) : ∀ c ∈ s.word ++ Text.decimal n, Text.IsWordChar c := by
  refine List.forall_mem_append.2 ⟨?_, fun c hc => .inr ((isNumeral_decimal n).2 c hc)⟩
  cases s <;> exact Text.forall_of_all (by decide)

theorem Phrase.nesting_le_itemNesting : ∀ {ps : List Phrase}, ∀ p ∈ ps, p.nesting ≤ itemNesting ps
  | [], _, h => nomatch h
  | q :: ps, p, h => by
    rw [itemNesting]
    rcases List.mem_cons.1 h with rfl | h
    · exact Nat.le_max_left _ _
    · exact (nesting_le_itemNesting p h).trans (Nat.le_max_right _ _)

namespace Ty

theorem spelled_sized (s : Sized) (n : Nat) : (Ty.scalar (.sized s n)).spelled = s.word ++ Text.decimal n :=
  List.append_nil _

theorem spelled_plain (p : Plain) : (Ty.scalar (.plain p)).spelled = p.word := List.append_nil _

theorem spelled_array (e : Ty) : (Ty.array e).spelled = e.spelled ++ ['[', ']'] := by
  simp [spelled, phrase, Phrase.tokens, Token.spell]

theorem spelled_fixedArray (e : Ty) (n : Nat) :
    (Ty.fixedArray e n).spelled = e.spelled ++ '[' :: (Text.decimal n ++ [']']) := by
  simp [spelled, phrase, Phrase.tokens, Token.spell]

theorem spelled_map (k v : Ty) :
    (Ty.map k v).spelled = Token.mapWord ++ '(' :: ([','].intercalate [k.spelled, v.spelled] ++ [')']) := by
  simp [spelled, phrase, Phrase.tokens, Token.spell]

theorem spell_itemTokens : ∀ ts : List Ty, (Phrase.itemTokens (ts.map phrase)).flatMap Token.spell =
    [','].intercalate (ts.map spelled) ++ [')']
  | [] => rfl
  | [t] => by simp [Phrase.itemTokens, Token.spell, spelled]
  | t :: u :: ts => by
    have ih := spell_itemTokens (u :: ts)
    simp only [List.map_cons] at ih
    simp [Phrase.itemTokens, Token.spell, ih, spelled]

theorem spelled_tuple (fs : List (Field Ty)) :
    (Ty.tuple fs).spelled = '(' :: ([','].intercalate (fs.map fun f => f.kind.spelled) ++ [')']) := by
  have h := spell_itemTokens (fs.map Field.kind)
  rw [List.map_map, List.map_map] at h
  rw [spelled, phrase, fieldPhrases_eq_map]
  exact congrArg ('(' :: ·) h

/-- **A signature has the shape of one**, its brackets nested as arrays, tuples and maps are. -/
theorem shaped_spelled (t : Ty) : Text.Shaped t.phrase.nesting t.spelled := by
  induction t with
  | scalar s =>
    cases s with
    | plain p => exact spelled_plain p ▸ Text.shaped_word p.isWordChar _
    | sized s n => exact spelled_sized s n ▸ Text.shaped_word (s.isWordChar n) _
  | tuple fs ih =>
    rw [spelled_tuple, phrase, Phrase.nesting, Nat.add_comm, fieldPhrases_eq_map]
    refine Text.shaped_parentheses fun l hl => ?_
    obtain ⟨f, hf, rfl⟩ := List.mem_map.1 hl
    exact (ih f hf).mono (Phrase.nesting_le_itemNesting _ (List.mem_map_of_mem hf))
  | array e ih =>
    rw [spelled_array, phrase, Phrase.nesting, Nat.add_comm]
    exact (ih.mono (Nat.le_succ _)).append (Text.shaped_brackets (List.forall_mem_nil _) _)
  | fixedArray e n ih =>
    rw [spelled_fixedArray, phrase, Phrase.nesting, Nat.add_comm]
    exact (ih.mono (Nat.le_succ _)).append (Text.shaped_brackets (isNumeral_decimal n).2 _)
  | map k v ihk ihv =>
    rw [spelled_map, phrase, Phrase.nesting, Nat.add_comm]
    refine (Text.shaped_word (Text.forall_of_all (by decide)) _).append (Text.shaped_parentheses ?_)
    simp only [List.forall_mem_cons]
    exact ⟨ihk.mono (Nat.le_max_left _ _), ihv.mono (Nat.le_max_right _ _), List.forall_mem_nil _⟩

/-- The depth counts a level more than the nesting, but at an empty tuple, whose parentheses are a level with none below. -/
theorem nesting_phrase_le (t : Ty) : t.phrase.nesting ≤ t.depth := by
  induction t with
  | scalar s => cases s <;> exact Nat.zero_le _
  | tuple fs ih =>
    have hfs : ∀ fs : List (Field Ty), (∀ f ∈ fs, f.kind.phrase.nesting ≤ f.kind.depth) →
        Phrase.itemNesting (fieldPhrases fs) ≤ fieldDepth fs := by
      intro fs h
      induction fs with
      | nil => exact Nat.le_refl 0
      | cons f fs ih =>
        obtain ⟨hf, hfs⟩ := List.forall_mem_cons.1 h
        exact max_le_max hf (ih hfs)
    exact Nat.add_le_add_left (hfs fs ih) 1
  | array e ih => exact Nat.add_le_add_left ih 1
  | fixedArray e n ih => exact Nat.add_le_add_left ih 1
  | map k v ihk ihv => exact Nat.add_le_add_left (max_le_max ihk ihv) 1

theorem spelled_ne_nil (t : Ty) : t.spelled ≠ [] := by
  cases t with
  | scalar s =>
    cases s with
    | plain p => cases p <;> exact List.cons_ne_nil _ _
    | sized s n => cases s <;> exact List.cons_ne_nil _ _
  | tuple fs => exact List.cons_ne_nil _ _
  | array e =>
    rw [spelled_array]
    exact List.append_ne_nil_of_right_ne_nil _ (List.cons_ne_nil _ _)
  | fixedArray e n =>
    rw [spelled_fixedArray]
    exact List.append_ne_nil_of_right_ne_nil _ (List.cons_ne_nil _ _)
  | map k v => exact List.cons_ne_nil _ _

end Ty
end AbiTypes
