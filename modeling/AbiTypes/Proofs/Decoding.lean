import AbiTypes.Proofs.Delimited
import AbiTypes.Proofs.Zeros
import AbiTypes.Session
/-!
# Decoding — the value that a JSON text stands for

`Json.Value` is the grammar of JSON, as far as values go that a report can hold: where a value starts in a text, which one
it is, and what is left behind it.  A text stands for one value at most (`Json.Value.unique`), and the printed text of a
value stands for that value (`Json.value_chars`).  So every decoder that follows the grammar reads a printed report as the
report's own values.
-/
namespace AbiTypes

namespace Text.Json

def blanks : List Char := [' ', '\t', '\n', '\r']

/-- A text from its first character on that is no blank. -/
def skip (cs : List Char) : List Char := cs.dropWhile fun c => c ∈ blanks

/-! ## The grammar -/

/-- A sixteen-bit unit in four digits, and the text behind them. -/
def unit? (cs : List Char) : Option (Nat × List Char) :=
  if 4 ≤ cs.length then (ofHex? (cs.take 4)).map (·, cs.drop 4) else none

def IsHigh (u : Nat) : Prop := 0xd800 ≤ u ∧ u < 0xdc00

def IsLow (u : Nat) : Prop := 0xdc00 ≤ u ∧ u < 0xe000

instance (u : Nat) : Decidable (IsHigh u) := inferInstanceAs (Decidable (_ ∧ _))

instance (u : Nat) : Decidable (IsLow u) := inferInstanceAs (Decidable (_ ∧ _))

/-- A character behind a backslash and a `u`: a unit that is no surrogate, or a high surrogate and a low one. -/
def unicode? (cs : List Char) : Option (Char × List Char) :=
  match unit? cs with
  | none => none
  | some (high, rest) =>
    if IsHigh high then
      match rest with
      | '\\' :: 'u' :: rest =>
        match unit? rest with
        | some (low, rest) =>
          if IsLow low then some (Char.ofNat (0x10000 + (high - 0xd800) * 0x400 + (low - 0xdc00)), rest) else none
        | none => none
      | _ => none
    else if IsLow high then none
    else some (Char.ofNat high, rest)

/-- The character that a letter or mark behind a backslash stands for. -/
def escape? : Char → Option Char
  | '"' => some '"'
  | '\\' => some '\\'
  | '/' => some '/'
  | 'b' => some '\x08'
  | 'f' => some '\x0c'
  | 'n' => some '\n'
  | 'r' => some '\r'
  | 't' => some '\t'
  | _ => none

/-- **The first character of what stands between quotes**, and the text behind it; none at the closing quote. -/
def character? : List Char → Option (Char × List Char)
  | [] => none
  | '\\' :: 'u' :: cs => unicode? cs
  | '\\' :: c :: cs => (escape? c).map (·, cs)
  | c :: cs => if c = '"' ∨ c = '\\' ∨ c.toNat < 0x20 then none else some (c, cs)

/-- The characters up to a closing quote. -/
inductive Quoted : List Char → List Char → List Char → Prop
  | done (rest : List Char) : Quoted ('"' :: rest) [] rest
  | more {cs mid s rest : List Char} {c : Char} (h : character? cs = some (c, mid)) (hs : Quoted mid s rest) :
    Quoted cs (c :: s) rest

/-- The digits of an integer, without redundant zeros. -/
inductive Numeral : List Char → Int → Prop
  | nonneg {ds : List Char} (h : IsNumeral ds) (hz : ds.head? = some '0' → ds = ['0']) : Numeral ds (ofDecimal ds)
  | neg {ds : List Char} (h : IsNumeral ds) (hz : ds.head? = some '0' → ds = ['0']) : Numeral ('-' :: ds) (-ofDecimal ds)

/-- Parts with commas between them, up to a closing mark; there may be none, but no comma stands before that mark. -/
inductive Listing {α : Type} (Part : List Char → α → List Char → Prop) (close : Char) :
    List Char → List α → List Char → Prop
  | empty {cs rest : List Char} (hend : skip cs = close :: rest) : Listing Part close cs [] rest
  | last {cs mid rest : List Char} {a : α} (h : Part cs a mid) (hend : skip mid = close :: rest) :
    Listing Part close cs [a] rest
  | more {cs mid mid' rest : List Char} {a : α} {as : List α} (h : Part cs a mid) (hcomma : skip mid = ',' :: mid')
    (hne : as ≠ []) (hs : Listing Part close mid' as rest) : Listing Part close cs (a :: as) rest

mutual

/-- **The value that a text starts with**, blanks before it skipped, and the text behind it. -/
inductive Value : List Char → Json → List Char → Prop
  | null {cs rest : List Char} (h : skip cs = ['n', 'u', 'l', 'l'] ++ rest) : Value cs .null rest
  | number {cs ds rest : List Char} {n : Int} (h : skip cs = ds ++ rest) (hds : Numeral ds n) (hrest : NoDigitAhead rest) :
    Value cs (.number n) rest
  | text {cs cs' rest : List Char} {s : String} (h : skip cs = '"' :: cs') (hs : Quoted cs' s.toList rest) :
    Value cs (.text s) rest
  | list {cs cs' rest : List Char} {vs : List Json} (h : skip cs = '[' :: cs') (hs : Listing Value ']' cs' vs rest) :
    Value cs (.list vs) rest
  | record {cs cs' rest : List Char} {ms : List (String × Json)} (h : skip cs = '\x7b' :: cs')
    (hs : Listing Member '\x7d' cs' ms rest) : Value cs (.record ms) rest

/-- A key, a colon and a value. -/
inductive Member : List Char → String × Json → List Char → Prop
  | intro {cs cs' mid mid' rest : List Char} {key : String} {v : Json} (h : skip cs = '"' :: cs')
    (hkey : Quoted cs' key.toList mid) (hcolon : skip mid = ':' :: mid') (hvalue : Value mid' v rest) :
    Member cs (key, v) rest

end

/-- **A JSON text stands for a value** if the value is all of it, but for blanks. -/
def Denotes (cs : List Char) (v : Json) : Prop := ∃ rest, Value cs v rest ∧ skip rest = []

/-- **Induction on a JSON value**: in the cases of a list and a record the statement holds of every item and member. -/
theorem induct {P : Json → Prop} (null : P .null) (number : ∀ n, P (.number n)) (text : ∀ s, P (.text s))
    (list : ∀ vs, (∀ v ∈ vs, P v) → P (.list vs)) (record : ∀ ms, (∀ m ∈ ms, P m.2) → P (.record ms)) (v : Json) : P v :=
  Json.rec (motive_1 := P) (motive_2 := fun vs => ∀ v ∈ vs, P v) (motive_3 := fun ms => ∀ m ∈ ms, P m.2)
    (motive_4 := fun m => P m.2) null number text list record (by simp)
    (fun v vs hv hvs w hw => (List.mem_cons.1 hw).elim (fun h => h ▸ hv) (hvs w)) (by simp)
    (fun m ms hm hms n hn => (List.mem_cons.1 hn).elim (fun h => h ▸ hm) (hms n)) (fun _ _ h => h) v

/-! ## A text stands for one value at most -/

/-- A relation between texts, what they start with and what is left, that finds one thing at most. -/
def Unique {α : Type} (Part : List Char → α → List Char → Prop) (a : α) : Prop :=
  ∀ ⦃b : α⦄ ⦃cs rest rest' : List Char⦄, Part cs a rest → Part cs b rest' → a = b ∧ rest = rest'

theorem Quoted.unique {s : List Char} : Unique Quoted s := by
  intro t cs rest rest' h h'
  induction h generalizing t with
  | done rest =>
    cases h' with
    | done _ => exact ⟨rfl, rfl⟩
    | more h _ => cases h
  | more h _ ih =>
    cases h' with
    | done _ => cases h
    | more h' hs' =>
      obtain ⟨rfl, rfl⟩ := Prod.mk.inj (Option.some.inj (h.symm.trans h'))
      obtain ⟨rfl, hrest⟩ := ih hs'
      exact ⟨rfl, hrest⟩

theorem Numeral.unique {ds ds' rest rest' : List Char} {m n : Int} (h : Numeral ds m) (h' : Numeral ds' n)
    (hr : NoDigitAhead rest) (hr' : NoDigitAhead rest') (he : ds ++ rest = ds' ++ rest') : m = n ∧ rest = rest' := by
  have hsign : '-'.isDigit = false := rfl
  cases h with
  | nonneg h hz =>
    cases h' with
    | nonneg h' hz' =>
      obtain ⟨rfl, hrest⟩ := numeral_append_inj h h' hr hr' he
      exact ⟨rfl, hrest⟩
    | neg h' hz' => exact absurd he (numeral_append_ne_cons hsign h rest _)
  | neg h hz =>
    cases h' with
    | nonneg h' hz' => exact absurd he.symm (numeral_append_ne_cons hsign h' rest' _)
    | neg h' hz' =>
      obtain ⟨rfl, hrest⟩ := numeral_append_inj h h' hr hr' (List.cons.inj he).2
      exact ⟨rfl, hrest⟩

theorem Listing.unique {α : Type} {Part : List Char → α → List Char → Prop} {close : Char} (hclose : close ≠ ',')
    (hnone : ∀ {cs cs' rest : List Char} {a : α}, skip cs = close :: cs' → ¬ Part cs a rest) {as : List α}
    (hparts : ∀ a ∈ as, Unique Part a) : Unique (Listing Part close) as := by
  intro bs cs rest rest' h h'
  induction h generalizing bs with
  | empty hend =>
    cases h' with
    | empty hend' => exact ⟨rfl, (List.cons.inj (hend.symm.trans hend')).2⟩
    | last h' _ => exact absurd h' (hnone hend)
    | more h' _ _ _ => exact absurd h' (hnone hend)
  | last h hend =>
    have ha := hparts _ List.mem_cons_self
    cases h' with
    | empty hend' => exact absurd h (hnone hend')
    | last h' hend' =>
      obtain ⟨rfl, rfl⟩ := ha h h'
      exact ⟨rfl, (List.cons.inj (hend.symm.trans hend')).2⟩
    | more h' hcomma' _ _ =>
      obtain ⟨rfl, rfl⟩ := ha h h'
      exact absurd (List.cons.inj (hend.symm.trans hcomma')).1 hclose
  | more h hcomma _ _ ih =>
    obtain ⟨ha, has⟩ := List.forall_mem_cons.1 hparts
    cases h' with
    | empty hend' => exact absurd h (hnone hend')
    | last h' hend' =>
      obtain ⟨rfl, rfl⟩ := ha h h'
      exact absurd (List.cons.inj (hend'.symm.trans hcomma)).1 hclose
    | more h' hcomma' _ hs' =>
      obtain ⟨rfl, rfl⟩ := ha h h'
      obtain rfl := (List.cons.inj (hcomma.symm.trans hcomma')).2
      obtain ⟨rfl, hrest⟩ := ih has hs'
      exact ⟨rfl, hrest⟩

/-- The first character of a value's text tells what kind of value it is; a number's is none of the others', and
no value's is a closing mark. -/
def Leads (c : Char) : Json → Prop
  | .null => c = 'n'
  | .number _ => c ∉ ['n', '"', '[', '\x7b', ']']
  | .text _ => c = '"'
  | .list _ => c = '['
  | .record _ => c = '\x7b'

theorem Numeral.exists_cons {ds : List Char} {n : Int} (h : Numeral ds n) :
    ∃ c cs, ds = c :: cs ∧ Leads c (.number n) := by
  have hmarks : ∀ m ∈ ['n', '"', '[', '\x7b', ']'], m.isDigit = false := forall_of_all (by decide)
  cases h with
  | neg _ _ => exact ⟨'-', _, rfl, by simp [Leads]⟩
  | nonneg h _ =>
    obtain ⟨hne, hd⟩ := h
    obtain ⟨d, ds, rfl⟩ := List.exists_cons_of_ne_nil hne
    refine ⟨d, ds, rfl, fun hm => ?_⟩
    cases (hmarks d hm).symm.trans (hd d List.mem_cons_self)

theorem Value.exists_leads {cs rest : List Char} {v : Json} (h : Value cs v rest) :
    ∃ c cs', skip cs = c :: cs' ∧ Leads c v := by
  cases h with
  | null h => exact ⟨_, _, h, rfl⟩
  | @number _ ds rest n h hds _ =>
    obtain ⟨c, cs', rfl, hc⟩ := hds.exists_cons
    exact ⟨c, _, h, hc⟩
  | text h _ => exact ⟨_, _, h, rfl⟩
  | list h _ => exact ⟨_, _, h, rfl⟩
  | record h _ => exact ⟨_, _, h, rfl⟩

/-- Values whose texts may start alike. -/
inductive SameShape : Json → Json → Prop
  | null : SameShape .null .null
  | number (m n : Int) : SameShape (.number m) (.number n)
  | text (s t : String) : SameShape (.text s) (.text t)
  | list (vs ws : List Json) : SameShape (.list vs) (.list ws)
  | record (ms ns : List (String × Json)) : SameShape (.record ms) (.record ns)

theorem Leads.sameShape {c : Char} {v w : Json} (h : Leads c v) (h' : Leads c w) : SameShape v w := by
  cases v <;> cases w <;> first | constructor | (simp only [Leads] at h h'; subst_vars; simp at *)

theorem Value.sameShape {cs rest rest' : List Char} {v w : Json} (h : Value cs v rest) (h' : Value cs w rest') :
    SameShape v w := by
  obtain ⟨c, _, hc, hv⟩ := h.exists_leads
  obtain ⟨c', _, hc', hw⟩ := h'.exists_leads
  obtain rfl := (List.cons.inj (hc.symm.trans hc')).1
  exact hv.sameShape hw

theorem not_value_of_mark {cs cs' rest : List Char} {v : Json} (hend : skip cs = ']' :: cs') : ¬ Value cs v rest := by
  intro h
  obtain ⟨c, _, hc, hv⟩ := h.exists_leads
  obtain rfl := (List.cons.inj (hend.symm.trans hc)).1
  cases v <;> simp [Leads] at hv

theorem not_member_of_mark {cs cs' rest : List Char} {m : String × Json} (hend : skip cs = '\x7d' :: cs') :
    ¬ Member cs m rest := by
  intro h
  cases h with
  | intro h _ _ _ => cases (List.cons.inj (hend.symm.trans h)).1

theorem Member.unique {m : String × Json} (hm : Unique Value m.2) : Unique Member m := by
  intro n cs rest rest' h h'
  cases h with
  | intro h hkey hcolon hvalue =>
    cases h' with
    | intro h' hkey' hcolon' hvalue' =>
      obtain rfl := (List.cons.inj (h.symm.trans h')).2
      obtain ⟨hkeys, rfl⟩ := Quoted.unique hkey hkey'
      obtain rfl := (List.cons.inj (hcolon.symm.trans hcolon')).2
      obtain ⟨rfl, hrest⟩ := hm hvalue hvalue'
      exact ⟨by rw [String.toList_injective hkeys], hrest⟩

/-- **A text starts with one value at most.** -/
theorem Value.unique (v : Json) : Unique Value v := by
  induction v using induct with
  | null =>
    intro w cs rest rest' h h'
    cases h.sameShape h'
    cases h with
    | null h =>
      cases h' with
      | null h' => exact ⟨rfl, List.append_cancel_left (h.symm.trans h')⟩
  | number n =>
    intro w cs rest rest' h h'
    cases h.sameShape h'
    cases h with
    | number h hds hrest =>
      cases h' with
      | number h' hds' hrest' =>
        obtain ⟨rfl, hr⟩ := hds.unique hds' hrest hrest' (h.symm.trans h')
        exact ⟨rfl, hr⟩
  | text s =>
    intro w cs rest rest' h h'
    cases h.sameShape h'
    cases h with
    | text h hs =>
      cases h' with
      | text h' hs' =>
        obtain rfl := (List.cons.inj (h.symm.trans h')).2
        obtain ⟨hchars, hr⟩ := hs.unique hs'
        exact ⟨by rw [String.toList_injective hchars], hr⟩
  | list vs ih =>
    intro w cs rest rest' h h'
    cases h.sameShape h'
    cases h with
    | list h hs =>
      cases h' with
      | list h' hs' =>
        obtain rfl := (List.cons.inj (h.symm.trans h')).2
        obtain ⟨rfl, hr⟩ := Listing.unique (by decide) not_value_of_mark ih hs hs'
        exact ⟨rfl, hr⟩
  | record ms ih =>
    intro w cs rest rest' h h'
    cases h.sameShape h'
    cases h with
    | record h hs =>
      cases h' with
      | record h' hs' =>
        obtain rfl := (List.cons.inj (h.symm.trans h')).2
        obtain ⟨rfl, hr⟩ := Listing.unique (by decide) not_member_of_mark (fun m hm => Member.unique (ih m hm)) hs hs'
        exact ⟨rfl, hr⟩

theorem Denotes.unique {cs : List Char} {v w : Json} (h : Denotes cs v) (h' : Denotes cs w) : v = w := by
  obtain ⟨_, hv, _⟩ := h
  obtain ⟨_, hw, _⟩ := h'
  exact (Value.unique v hv hw).1

/-! ## The printed text of a value stands for the value -/

theorem skip_newline (depth : Nat) (xs : List Char) : skip (newline depth ++ xs) = skip xs := by
  refine List.dropWhile_append_of_pos fun c hc => ?_
  rcases List.mem_cons.1 hc with rfl | hc
  · rfl
  · rw [List.eq_of_mem_replicate hc]
    rfl

theorem skip_cons {c : Char} (h : c ∉ blanks) (xs : List Char) : skip (c :: xs) = c :: xs :=
  List.dropWhile_cons_of_neg (by simpa using h)

theorem unit?_hex {u : Nat} (h : u < 0x10000) (xs : List Char) : unit? (hex 4 u ++ xs) = some (u, xs) := by
  have hlen : 4 ≤ (hex 4 u ++ xs).length := by simp
  rw [unit?, if_pos hlen, List.take_left' (length_hex 4 u), List.drop_left' (length_hex 4 u), ofHex?_hex h]
  rfl

/-- **The units of a character are read back as the character.** -/
theorem character?_units (c : Char) (xs : List Char) :
    character? ((units c).flatMap unitEscape ++ xs) = some (c, xs) := by
  have hvalid : c.toNat < 0xd800 ∨ 0xdfff < c.toNat ∧ c.toNat < 0x110000 := c.valid
  unfold units
  split
  · rename_i h
    have hhigh : ¬ IsHigh c.toNat := by
      unfold IsHigh
      omega
    have hlow : ¬ IsLow c.toNat := by
      unfold IsLow
      omega
    change unicode? (hex 4 c.toNat ++ [] ++ xs) = _
    rw [List.append_nil, unicode?, unit?_hex h]
    simp only [hhigh, hlow, if_false, Char.ofNat_toNat]
  · -- a pair of surrogates: twenty bits above the first plane, ten in each
    rename_i h
    obtain ⟨high, hhigh⟩ : ∃ u, u = 0xd800 + (c.toNat - 0x10000) / 0x400 := ⟨_, rfl⟩
    obtain ⟨low, hlow⟩ : ∃ u, u = 0xdc00 + (c.toNat - 0x10000) % 0x400 := ⟨_, rfl⟩
    have hhigh' : IsHigh high := by
      unfold IsHigh
      omega
    have hlow' : IsLow low := by
      unfold IsLow
      omega
    have hpair : 0x10000 + (high - 0xd800) * 0x400 + (low - 0xdc00) = c.toNat := by omega
    have htext : [high, low].flatMap unitEscape ++ xs =
        '\\' :: 'u' :: (hex 4 high ++ '\\' :: 'u' :: (hex 4 low ++ xs)) := by simp [unitEscape]
    rw [← hhigh, ← hlow, htext]
    change unicode? _ = _
    rw [unicode?, unit?_hex (by have := hhigh'.2; omega)]
    simp only [hhigh', hlow', if_true, unit?_hex (show low < 0x10000 by have := hlow'.2; omega), hpair, Char.ofNat_toNat]

/-- Digits may be of either case, as in this pair of surrogates. -/
example : character? "\\uD83D\\ude00\"".toList = some (Char.ofNat 0x1f600, ['"']) := by decide

theorem character?_plain {c : Char} (hquote : c ≠ '"') (hslash : c ≠ '\\') (hlow : 0x20 ≤ c.toNat) (xs : List Char) :
    character? (c :: xs) = some (c, xs) := by
  have hplain : ¬ (c = '"' ∨ c = '\\' ∨ c.toNat < 0x20) := by
    rintro (h | h | h)
    · exact hquote h
    · exact hslash h
    · omega
  rw [character?, if_neg hplain]
  · exact fun _ h _ => hslash h
  · exact fun _ _ h _ => hslash h

/-- **A printed character is read back**, whatever stands behind it. -/
theorem character?_charText (c : Char) (xs : List Char) : character? (charText c ++ xs) = some (c, xs) := by
  unfold charText
  split
  · rename_i h
    rcases h with rfl | rfl <;> rfl
  split
  · subst_vars
    rfl
  split
  · subst_vars
    rfl
  split
  · subst_vars
    rfl
  split
  · subst_vars
    rfl
  split
  · subst_vars
    rfl
  split
  · rename_i h _ _ _ _ _ hplain
    rw [not_or] at h
    exact character?_plain h.1 h.2 hplain.1 xs
  · exact character?_units c xs

theorem quoted_flatMap (rest : List Char) : ∀ s : List Char, Quoted (s.flatMap charText ++ '"' :: rest) s rest
  | [] => .done rest
  | c :: s => by
    rw [List.flatMap_cons, List.append_assoc]
    exact .more (character?_charText c _) (quoted_flatMap rest s)

theorem decimal_of_head? {n : Nat} (h : (decimal n).head? = some '0') : decimal n = ['0'] := by
  obtain ⟨ds, hds⟩ := List.head?_eq_some_iff.1 h
  have hn : ofDecimal ds = n := by
    have hvalue := ofDecimal_decimal n
    rwa [hds, ofDecimal_zero_cons] at hvalue
  cases ds with
  | nil => exact hds
  | cons d ds =>
    have hnumeral : IsNumeral (d :: ds) :=
      ⟨List.cons_ne_nil d ds, fun c hc => (isNumeral_decimal n).2 c (hds ▸ List.mem_cons_of_mem _ hc)⟩
    have hlength := length_decimal_ofDecimal_le hnumeral
    rw [hn, hds] at hlength
    exact absurd hlength (Nat.not_succ_le_self _)

theorem numeral_decimal (n : Nat) : Numeral (decimal n) n := by
  have hnumeral := Numeral.nonneg (isNumeral_decimal n) decimal_of_head?
  rwa [ofDecimal_decimal] at hnumeral

theorem numeral_decimalInt : ∀ n : Int, Numeral (decimalInt n) n
  | .ofNat n => numeral_decimal n
  | .negSucc n => by
    have hnumeral := Numeral.neg (isNumeral_decimal (n + 1)) decimal_of_head?
    rwa [ofDecimal_decimal] at hnumeral

/-! ## The printed text of a value -/

/-- Parts on lines of their own one level deeper, commas behind all but the last, and a closing mark. -/
def listChars {α : Type} (part : α → List Char) (depth : Nat) (close : Char) : List α → List Char
  | [] => newline depth ++ [close]
  | [a] => newline (depth + 1) ++ part a ++ newline depth ++ [close]
  | a :: as => newline (depth + 1) ++ part a ++ ',' :: listChars part depth close as

/-- A member as it is printed at nesting `depth`. -/
def memberText (depth : Nat) (m : String × Json) : List Char := stringText m.1 ++ ':' :: ' ' :: chars depth m.2

theorem itemChars_eq (depth : Nat) : ∀ vs, itemChars depth vs = listChars (chars (depth + 1)) depth ']' vs
  | [] => by rw [itemChars, listChars]
  | [v] => by rw [itemChars, listChars]
  | v :: w :: vs => by
    rw [itemChars, listChars, itemChars_eq depth (w :: vs)]
    · simp
    · simp

theorem memberChars_eq (depth : Nat) : ∀ ms,
    memberChars depth ms = listChars (memberText (depth + 1)) depth '\x7d' ms
  | [] => by rw [memberChars, listChars]
  | [(k, v)] => by simp [memberChars, listChars, memberText]
  | (k, v) :: m :: ms => by
    rw [memberChars, listChars, memberChars_eq depth (m :: ms)]
    · simp [memberText]
    · simp
    · simp

section Listing

variable {α : Type} {Part : List Char → α → List Char → Prop} {part : α → List Char}

/-- A part is found where its text stands, unless that could go on with a digit. -/
def Found (Part : List Char → α → List Char → Prop) (text : List Char) (a : α) : Prop :=
  ∀ ⦃cs rest : List Char⦄, skip cs = skip (text ++ rest) → NoDigitAhead rest → Part cs a rest

theorem noDigitAhead_newline (depth : Nat) (xs : List Char) : NoDigitAhead (newline depth ++ xs) :=
  noDigitAhead_cons.2 rfl

/-- **Printed parts make a listing.** -/
theorem listing_listChars {close : Char} (hclose : close ∉ blanks) (depth : Nat) (rest : List Char) :
    ∀ {as : List α}, (∀ a ∈ as, Found Part (part a) a) → Listing Part close (listChars part depth close as ++ rest) as rest
  | [], _ => .empty (by rw [listChars, List.append_assoc, skip_newline, List.singleton_append, skip_cons hclose])
  | [a], h => by
    have ha := h a List.mem_cons_self
    have hend : skip (newline depth ++ close :: rest) = close :: rest := by rw [skip_newline, skip_cons hclose]
    refine .last (ha ?_ (noDigitAhead_newline depth _)) hend
    rw [listChars, List.append_assoc, List.append_assoc, List.append_assoc, skip_newline]
    rfl
  | a :: b :: as, h => by
    obtain ⟨ha, has⟩ := List.forall_mem_cons.1 h
    have hcomma := skip_cons (by decide : ',' ∉ blanks) (listChars part depth close (b :: as) ++ rest)
    refine .more (ha ?_ (noDigitAhead_cons.2 rfl)) hcomma (List.cons_ne_nil b as) (listing_listChars hclose depth rest has)
    rw [listChars, List.append_assoc, List.append_assoc, skip_newline]
    · rfl
    · exact fun h => List.cons_ne_nil b as h

end Listing

theorem skip_decimalInt (n : Int) (xs : List Char) : skip (decimalInt n ++ xs) = decimalInt n ++ xs := by
  have hblanks : ∀ c ∈ blanks, c.isDigit = false := forall_of_all (by decide)
  cases n with
  | negSucc n => exact skip_cons (by decide) _
  | ofNat n =>
    obtain ⟨hne, hdigits⟩ := isNumeral_decimal n
    obtain ⟨d, ds, hd⟩ := List.exists_cons_of_ne_nil hne
    rw [hd] at hdigits
    change skip (decimal n ++ xs) = decimal n ++ xs
    rw [hd]
    refine skip_cons (fun hblank => ?_) _
    cases (hblanks d hblank).symm.trans (hdigits d List.mem_cons_self)

theorem found_member {depth : Nat} {m : String × Json} (h : Found Value (chars depth m.2) m.2) :
    Found Member (memberText depth m) m := by
  intro cs rest hcs hrest
  have hquote : skip cs = '"' :: (m.1.toList.flatMap charText ++ '"' :: ':' :: ' ' :: (chars depth m.2 ++ rest)) := by
    rw [hcs, memberText, stringText]
    simp only [List.cons_append, List.append_assoc, List.nil_append]
    exact skip_cons (by decide) _
  have hcolon := skip_cons (by decide : ':' ∉ blanks) (' ' :: (chars depth m.2 ++ rest))
  have hvalue : Value (' ' :: (chars depth m.2 ++ rest)) m.2 rest := h rfl hrest
  exact .intro hquote (quoted_flatMap _ _) hcolon hvalue

/-- **The printed text of a value stands for the value**, whatever stands behind it. -/
theorem value_chars (v : Json) : ∀ depth, Found Value (chars depth v) v := by
  induction v using induct with
  | null =>
    intro depth cs rest h _
    exact .null h
  | number n =>
    intro depth cs rest h hrest
    rw [chars, skip_decimalInt] at h
    exact .number h (numeral_decimalInt n) hrest
  | text s =>
    intro depth cs rest h _
    rw [chars, stringText, List.cons_append, List.cons_append, skip_cons (by decide), List.append_assoc] at h
    exact .text h (quoted_flatMap rest _)
  | list vs ih =>
    intro depth cs rest h _
    cases vs with
    | nil => exact .list h (.empty (skip_cons (by decide) rest))
    | cons v vs =>
      rw [chars, itemChars_eq, List.cons_append, skip_cons (by decide)] at h
      exact .list h (listing_listChars (by decide) depth rest fun w hw => ih w hw (depth + 1))
  | record ms ih =>
    intro depth cs rest h _
    cases ms with
    | nil => exact .record h (.empty (skip_cons (by decide) rest))
    | cons m ms =>
      rw [chars, memberChars_eq, List.cons_append, skip_cons (by decide)] at h
      exact .record h (listing_listChars (by decide) depth rest fun n hn => found_member (ih n hn (depth + 1)))

/-- **A printed value is what its text stands for**, and nothing else is. -/
theorem denotes_render_iff {v w : Json} : Denotes v.render.toList w ↔ w = v := by
  have hv : Denotes v.render.toList v := by
    refine ⟨[], value_chars v 0 ?_ (nofun : NoDigitAhead []), rfl⟩
    rw [render, String.toList_ofList, List.append_nil]
  constructor
  · exact fun hw => hw.unique hv
  · rintro rfl
    exact hv

/-! ## Printed text is ASCII -/

def IsAscii (cs : List Char) : Prop := ∀ c ∈ cs, c.toNat < 0x80

theorem isAscii_append {xs ys : List Char} : IsAscii (xs ++ ys) ↔ IsAscii xs ∧ IsAscii ys := List.forall_mem_append

theorem isAscii_cons {c : Char} {cs : List Char} : IsAscii (c :: cs) ↔ c.toNat < 0x80 ∧ IsAscii cs :=
  List.forall_mem_cons

theorem isAscii_hex (w n : Nat) : IsAscii (hex w n) := by
  have hdigit : ∀ m < 16, (Nat.digitChar m).toNat < 0x80 := by decide
  induction w generalizing n with
  | zero => exact nofun
  | succ w ih => exact isAscii_append.2 ⟨ih (n / 16), List.forall_mem_singleton.2 (hdigit _ (Nat.mod_lt n (by decide)))⟩

theorem isAscii_charText (c : Char) : IsAscii (charText c) := by
  unfold charText
  split
  · rename_i h
    rcases h with rfl | rfl <;> exact forall_of_all (by decide)
  repeat
    split
    · exact forall_of_all (by decide)
  split
  · rename_i h
    exact List.forall_mem_singleton.2 (Nat.lt_trans h.2 (by decide))
  · intro d hd
    obtain ⟨u, -, hu⟩ := List.mem_flatMap.1 hd
    exact isAscii_cons.2 ⟨by decide, isAscii_cons.2 ⟨by decide, isAscii_hex 4 u⟩⟩ d hu

theorem isAscii_stringText (s : String) : IsAscii (stringText s) := by
  refine isAscii_append.2 ⟨isAscii_cons.2 ⟨by decide, fun c hc => ?_⟩, List.forall_mem_singleton.2 (by decide)⟩
  obtain ⟨d, -, hd⟩ := List.mem_flatMap.1 hc
  exact isAscii_charText d c hd

theorem isAscii_decimal (n : Nat) : IsAscii (decimal n) := fun c hc => by
  have hdigit := (Char.isDigit_iff_toNat.1 ((isNumeral_decimal n).2 c hc)).2
  have h9 : '9'.toNat = 57 := rfl
  omega

theorem isAscii_decimalInt : ∀ n : Int, IsAscii (decimalInt n)
  | .ofNat n => isAscii_decimal n
  | .negSucc n => isAscii_cons.2 ⟨by decide, isAscii_decimal (n + 1)⟩

theorem isAscii_newline (depth : Nat) : IsAscii (newline depth) :=
  isAscii_cons.2 ⟨by decide, fun c hc => List.eq_of_mem_replicate hc ▸ by decide⟩

theorem isAscii_listChars {α : Type} {part : α → List Char} {close : Char} (hclose : close.toNat < 0x80) (depth : Nat) :
    ∀ {as : List α}, (∀ a ∈ as, IsAscii (part a)) → IsAscii (listChars part depth close as)
  | [], _ => isAscii_append.2 ⟨isAscii_newline depth, List.forall_mem_singleton.2 hclose⟩
  | [a], h => isAscii_append.2 ⟨isAscii_append.2 ⟨isAscii_append.2 ⟨isAscii_newline _, h a List.mem_cons_self⟩,
      isAscii_newline depth⟩, List.forall_mem_singleton.2 hclose⟩
  | a :: b :: as, h => by
    obtain ⟨ha, has⟩ := List.forall_mem_cons.1 h
    exact isAscii_append.2 ⟨isAscii_append.2 ⟨isAscii_newline _, ha⟩,
      isAscii_cons.2 ⟨by decide, isAscii_listChars hclose depth has⟩⟩

/-- **Printed text is ASCII**, whatever characters the value holds. -/
theorem isAscii_chars (v : Json) : ∀ depth, IsAscii (chars depth v) := by
  induction v using induct with
  | null =>
    have hnull : IsAscii ['n', 'u', 'l', 'l'] := forall_of_all (by decide)
    exact fun _ => hnull
  | number n => exact fun _ => isAscii_decimalInt n
  | text s => exact fun _ => isAscii_stringText s
  | list vs ih =>
    intro depth
    cases vs with
    | nil =>
      have hbrackets : IsAscii ['[', ']'] := forall_of_all (by decide)
      exact hbrackets
    | cons v vs =>
      rw [chars, itemChars_eq]
      exact isAscii_cons.2 ⟨by decide, isAscii_listChars (by decide) depth fun w hw => ih w hw (depth + 1)⟩
  | record ms ih =>
    intro depth
    cases ms with
    | nil =>
      have hbraces : IsAscii ['\x7b', '\x7d'] := forall_of_all (by decide)
      exact hbraces
    | cons m ms =>
      rw [chars, memberChars_eq]
      refine isAscii_cons.2 ⟨by decide, isAscii_listChars (by decide) depth fun n hn => ?_⟩
      exact isAscii_append.2 ⟨isAscii_stringText n.1,
        isAscii_cons.2 ⟨by decide, isAscii_cons.2 ⟨by decide, ih n hn (depth + 1)⟩⟩⟩

end Text.Json

/-! ## Reports -/

open Text (Json)

theorem Report.fieldJson_injective {f g : Field String} (h : fieldJson f = fieldJson g) : f = g := by
  obtain ⟨name, kind⟩ := f
  obtain ⟨name', kind'⟩ := g
  simpa [fieldJson] using h

/-- A report is told by its JSON value. -/
theorem Report.toJson_injective {r q : Report} (h : r.toJson = q.toJson) : r = q := by
  obtain ⟨signature, bitLen, keyBits, since, depth, fields⟩ := r
  obtain ⟨signature', bitLen', keyBits', since', depth', fields'⟩ := q
  simp only [toJson, Json.record.injEq, List.cons.injEq, Prod.mk.injEq, Json.text.injEq, Json.number.injEq,
    Json.list.injEq, Int.natCast_inj, true_and, and_true] at h
  obtain ⟨rfl, rfl, hkey, rfl, rfl, hfields⟩ := h
  have hkeys : keyBits = keyBits' := by
    cases keyBits with
    | none =>
      cases keyBits' with
      | none => rfl
      | some n => cases hkey
    | some m =>
      cases keyBits' with
      | none => cases hkey
      | some n => exact congrArg some (Int.natCast_inj.1 (Json.number.inj hkey))
  rw [hkeys, List.map_injective_iff.2 (fun _ _ => Report.fieldJson_injective) hfields]

theorem Report.json_eq_iff {r q : Report} : r.json = q.json ↔ r = q := by
  constructor
  · intro h
    have hr : Json.Denotes r.json.toList r.toJson := Json.denotes_render_iff.2 rfl
    rw [h] at hr
    exact toJson_injective (Json.denotes_render_iff.1 hr)
  · rintro rfl
    rfl

namespace Ty

/-- The report on a descriptor as JSON text, where all of it can be written. -/
def jsonReport (t : Ty) : Except Fault String := t.describe.bind Report.printJson

theorem jsonReport_eq_ok_iff {t : Ty} {s : String} : t.jsonReport = .ok s ↔
    (t.IsWritable ∧ (Text.decimal t.depth).length ≤ Text.digitLimit) ∧ t.report.json = s := by
  rw [jsonReport, describe]
  by_cases ht : t.IsWritable
  · have hnumbers : (∀ n ∈ t.report.numbers, (Text.decimal n).length ≤ Text.digitLimit) ↔
        (Text.decimal t.depth).length ≤ Text.digitLimit :=
      ⟨fun h => h t.depth (by simp [Report.numbers, report]), Report.forall_numbers ht⟩
    rw [Text.written_of_forall ht, Except.bind, Report.printJson, Text.written_eq_ok_iff, hnumbers]
    exact and_congr_left' (and_iff_right ht).symm
  · obtain ⟨n, -, -, herror⟩ := Text.exists_written_eq_error (a := t.report) ht
    rw [herror]
    exact iff_of_false nofun fun h => ht h.1.1

theorem eq_tooManyDigits_of_jsonReport {t : Ty} {f : Fault} (h : t.jsonReport = .error f) :
    ∃ n, f = .tooManyDigits none n ∧ Text.digitLimit < n := by
  rw [jsonReport] at h
  cases hreport : t.describe with
  | error e =>
    rw [hreport] at h
    cases h
    exact Text.eq_tooManyDigits_of_written hreport
  | ok r =>
    rw [hreport] at h
    exact Text.eq_tooManyDigits_of_written h

end Ty

end AbiTypes
