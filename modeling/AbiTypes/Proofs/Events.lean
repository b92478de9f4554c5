import AbiTypes.Proofs.Documentation
import Mathlib.Data.List.Perm.Basic
/-!
# Events — the log of a text in the order of the text

Building a phrase logs each tuple when its closing parenthesis has been passed, and ends at the first number of too many
digits (`Reader.along_build`).  So an accepted text logs its tuples in post-order, and a text that such a number ends
logs the tuples that are closed before it.
-/
namespace AbiTypes

/-! ## Post-order -/

namespace Ty

mutual

/-- **Every node of a descriptor in post-order**: parts before the whole, left ones first. -/
def postorder : Ty → List Ty
  | .scalar s => [.scalar s]
  | .tuple fs => fieldPostorder fs ++ [.tuple fs]
  | .array e => postorder e ++ [.array e]
  | .fixedArray e n => postorder e ++ [.fixedArray e n]
  | .map k v => postorder k ++ postorder v ++ [.map k v]

def fieldPostorder : List (Field Ty) → List Ty
  | [] => []
  | ⟨_, k⟩ :: fs => postorder k ++ fieldPostorder fs

end

theorem fieldPostorder_eq (fs : List (Field Ty)) : fieldPostorder fs = fs.flatMap (fun f => f.kind.postorder) := by
  induction fs with
  | nil => rfl
  | cons f fs ih => rw [fieldPostorder, ih, List.flatMap_cons]

theorem postorder_eq (t : Ty) : t.postorder = t.children.flatMap postorder ++ [t] := by
  cases t <;> simp [postorder, children, fieldPostorder_eq, List.flatMap_map]

/-- Post-order and pre-order list the same nodes. -/
theorem perm_postorder_nodes (t : Ty) : t.postorder.Perm t.nodes := by
  induction t using induct_children with
  | children t ih =>
    rw [postorder_eq, nodes_eq]
    exact (List.perm_append_singleton _ _).trans ((List.Perm.flatMap_left t.children ih).cons _)

/-- The event of a tuple whose components are attached; no other descriptor has one. -/
def event? : Ty → Option Event
  | .tuple fs => some (.attached fs.length (Ty.tuple fs).signature)
  | _ => none

theorem event?_eq_some_iff {t : Ty} {n : Nat} {s : String} :
    t.event? = some (.attached n s) ↔ ∃ fs, t = .tuple fs ∧ fs.length = n ∧ t.signature = s := by
  cases t <;> simp [event?]

end Ty

/-! ## Closing parentheses -/

/-- A token, and the tuple that it closes, if it closes one. -/
abbrev Mark := Token × Option Phrase

/-- What a mark tells of: the tuple that is closed. -/
def Mark.event? (m : Mark) : Option Event := m.2.bind fun p => p.type.event?

@[simp] theorem Mark.event?_none (t : Token) : Mark.event? (t, none) = none := rfl

@[simp] theorem Mark.event?_some (t : Token) (p : Phrase) : Mark.event? (t, some p) = p.type.event? := rfl

namespace Phrase

mutual

/-- **The tokens of a written type**, the closing parenthesis of each tuple marked with the tuple. -/
def marks : Phrase → List Mark
  | .plain p => [(.plain p, none)]
  | .sized s ds => [(.sized s ds, none)]
  | .tuple items => (.lparen, none) :: itemMarks items ++ [(.rparen, some (.tuple items))]
  | .array e => marks e ++ [(.lbracket, none), (.rbracket, none)]
  | .fixedArray e ds => marks e ++ [(.lbracket, none), (.number ds, none), (.rbracket, none)]
  | .map k v => (.map, none) :: (.lparen, none) :: marks k ++ (.comma, none) :: marks v ++ [(.rparen, none)]

def itemMarks : List Phrase → List Mark
  | [] => []
  | [p] => marks p
  | p :: q :: ps => marks p ++ (.comma, none) :: itemMarks (q :: ps)

end

theorem map_fst_itemMarks : ∀ {ps : List Phrase}, (∀ p ∈ ps, p.marks.map Prod.fst = p.tokens) →
    (itemMarks ps).map Prod.fst ++ [.rparen] = itemTokens ps
  | [], _ => rfl
  | [p], h => by rw [itemMarks, itemTokens, h p List.mem_cons_self]
  | p :: q :: ps, h => by
    obtain ⟨hp, hps⟩ := List.forall_mem_cons.1 h
    rw [itemMarks, itemTokens, ← map_fst_itemMarks hps, List.map_append, hp, List.map_cons]
    simp

theorem map_fst_marks (p : Phrase) : p.marks.map Prod.fst = p.tokens := by
  induction p with
  | plain p => rfl
  | sized s ds => rfl
  | tuple ps ih =>
    rw [marks, tokens, ← map_fst_itemMarks ih]
    simp
  | array e ih => simp [marks, tokens, ih]
  | fixedArray e ds ih => simp [marks, tokens, ih]
  | map k v ihk ihv => simp [marks, tokens, ihk, ihv]

end Phrase

/-- Each mark stands at the end of its tuple's tokens. -/
def Closing (ms : List Mark) : Prop :=
  ∀ before t q after, ms = before ++ (t, some q) :: after → q.tokens <:+ before.map Prod.fst ++ [t]

theorem closing_of_none {ms : List Mark} (h : ∀ m ∈ ms, m.2 = none) : Closing ms := fun before t q after hms => by
  cases h (t, some q) (by simp [hms])

theorem Closing.append {ms ns : List Mark} (hms : Closing ms) (hns : Closing ns) : Closing (ms ++ ns) := by
  intro before t q after h
  rcases List.append_eq_append_iff.1 h.symm with ⟨as, rfl, hrest⟩ | ⟨as, rfl, hrest⟩
  · cases as with
    | nil => exact (hns [] t q after hrest.symm).trans (List.suffix_append _ _)
    | cons m as =>
      obtain ⟨rfl, rfl⟩ := List.cons.inj hrest
      exact hms before t q as rfl
  · have hq := hns as t q after hrest
    rw [List.map_append, List.append_assoc]
    exact hq.trans (List.suffix_append _ _)

theorem Closing.concat {ms : List Mark} (hms : Closing ms) {t : Token} {q : Phrase}
    (hq : q.tokens = ms.map Prod.fst ++ [t]) : Closing (ms ++ [(t, some q)]) := by
  intro before t' q' after h
  rcases List.append_eq_append_iff.1 h.symm with ⟨as, rfl, hrest⟩ | ⟨as, rfl, hrest⟩
  · cases as with
    | nil =>
      cases hrest
      exact ⟨[], by rw [hq, List.append_nil, List.nil_append]⟩
    | cons m as =>
      obtain ⟨rfl, rfl⟩ := List.cons.inj hrest
      exact hms before t' q' as rfl
  · obtain ⟨rfl, hrest⟩ | ⟨_, -, hrest⟩ := List.cons_eq_append_iff.1 hrest
    · cases hrest
      exact ⟨[], by rw [hq, List.append_nil, List.nil_append]⟩
    · cases (List.append_eq_nil_iff.1 hrest.symm).2

namespace Phrase

theorem closing_itemMarks : ∀ {ps : List Phrase}, (∀ p ∈ ps, Closing p.marks) → Closing (itemMarks ps)
  | [], _ => closing_of_none nofun
  | [p], h => h p List.mem_cons_self
  | p :: q :: ps, h => by
    obtain ⟨hp, hps⟩ := List.forall_mem_cons.1 h
    have hcomma : Closing [(.comma, none)] := closing_of_none (by simp)
    exact hp.append (hcomma.append (closing_itemMarks hps))

/-- **The marks of a written type stand at the ends of its tuples.** -/
theorem closing_marks (p : Phrase) : Closing p.marks := by
  induction p with
  | plain p => exact closing_of_none (by simp [marks])
  | sized s ds => exact closing_of_none (by simp [marks])
  | tuple ps ih =>
    have hopen : Closing [(.lparen, none)] := closing_of_none (by simp)
    refine (hopen.append (closing_itemMarks ih)).concat ?_
    rw [← map_fst_marks, marks, List.map_append]
    rfl
  | array e ih => exact ih.append (closing_of_none (by simp))
  | fixedArray e ds ih => exact ih.append (closing_of_none (by simp))
  | map k v ihk ihv =>
    have hopen : Closing [(.map, none), (.lparen, none)] := closing_of_none (by simp)
    have hcomma : Closing [(.comma, none)] := closing_of_none (by simp)
    have hclose : Closing [(.rparen, none)] := closing_of_none (by simp)
    have h := hopen.append (ihk.append (hcomma.append (ihv.append hclose)))
    rw [marks]
    simpa using h

theorem filterMap_event?_itemMarks : ∀ {ps : List Phrase},
    (∀ p ∈ ps, p.marks.filterMap Mark.event? = p.type.postorder.filterMap Ty.event?) →
      (itemMarks ps).filterMap Mark.event? = ((itemTypes ps).flatMap Ty.postorder).filterMap Ty.event?
  | [], _ => rfl
  | [p], h => by simp [itemMarks, itemTypes, h p List.mem_cons_self]
  | p :: q :: ps, h => by
    obtain ⟨hp, hps⟩ := List.forall_mem_cons.1 h
    rw [itemMarks, itemTypes, List.flatMap_cons, List.filterMap_append, List.filterMap_append, hp,
      List.filterMap_cons_none (Mark.event?_none _), filterMap_event?_itemMarks hps]

/-- **The events of the marks are those of the tuples in post-order.** -/
theorem filterMap_event?_marks (p : Phrase) : p.marks.filterMap Mark.event? = p.type.postorder.filterMap Ty.event? := by
  induction p with
  | plain p => rfl
  | sized s ds => rfl
  | tuple ps ih =>
    have hchildren : (Phrase.tuple ps).type.children = itemTypes ps := Ty.children_tuple_mapIdx _ _
    rw [Ty.postorder_eq, hchildren, List.filterMap_append, ← filterMap_event?_itemMarks ih, marks,
      List.filterMap_append, List.filterMap_cons_none (Mark.event?_none _)]
    rfl
  | array e ih => simp [marks, type, Ty.postorder, Ty.event?, List.filterMap_cons, ih]
  | fixedArray e ds ih => simp [marks, type, Ty.postorder, Ty.event?, List.filterMap_cons, ih]
  | map k v ihk ihv => simp [marks, type, Ty.postorder, Ty.event?, List.filterMap_cons, ihk, ihv]

end Phrase

/-! ## Building along the marks -/

/-- A list is split in one way at the first element without a property. -/
theorem eq_of_first {α : Type} {P : α → Prop} {a b : α} : ∀ {as bs as' bs' : List α}, as ++ a :: as' = bs ++ b :: bs' →
    (∀ x ∈ as, P x) → ¬ P a → (∀ x ∈ bs, P x) → ¬ P b → as = bs ∧ a = b
  | [], [], _, _, h, _, _, _, _ => ⟨rfl, (List.cons.inj h).1⟩
  | [], c :: bs, _, _, h, _, ha, hbs, _ => absurd ((List.cons.inj h).1 ▸ hbs c List.mem_cons_self) ha
  | c :: as, [], _, _, h, has, _, _, hb => absurd ((List.cons.inj h).1 ▸ has c List.mem_cons_self) hb
  | c :: as, d :: bs, _, _, h, has, ha, hbs, hb => by
    obtain ⟨rfl, hrest⟩ := List.cons.inj h
    obtain ⟨rfl, rfl⟩ := eq_of_first hrest (List.forall_mem_cons.1 has).2 ha (List.forall_mem_cons.1 hbs).2 hb
    exact ⟨rfl, rfl⟩

namespace Traced

/-- **A computation that goes along marks**: it succeeds and tells of all of them, or it ends at the first that holds a
number of too many digits and tells of those before. -/
inductive Along {α : Type} (x : Traced α) (ms : List Mark) : Prop
  | through {a : α} (hout : x.outcome = .ok a) (hms : ∀ m ∈ ms, m.1.IsReadable)
    (hlog : x.log = ms.filterMap Mark.event?) : Along x ms
  | cut {before after : List Mark} {m : Mark} {n : Sizable × List Char} (hms : ms = before ++ m :: after)
    (hbefore : ∀ m ∈ before, m.1.IsReadable) (hn : m.1.numeral? = some n) (hlong : IsOverlong n)
    (hout : x.outcome = .error (overlongFault n)) (hlog : x.log = before.filterMap Mark.event?) : Along x ms

variable {α β : Type} {x : Traced α} {ms ns : List Mark}

theorem along_nil {a : α} : (value a).Along [] := .through rfl nofun rfl

/-- Marks that hold no number and close no tuple are passed in silence. -/
theorem along_value {a : α} (hms : ∀ m ∈ ms, m.1.numeral? = none ∧ m.2 = none) : (value a).Along ms := by
  have hsilent : ms.filterMap Mark.event? = [] := List.filterMap_eq_nil_iff.2 fun m hm => by
    rw [Mark.event?, (hms m hm).2, Option.bind_none]
  refine .through rfl (fun m hm => Token.isReadable_iff.2 fun n hn => ?_) hsilent.symm
  cases (hms m hm).1.symm.trans hn

theorem Along.bind (hx : x.Along ms) {f : α → Traced β} (hf : ∀ a, x.outcome = .ok a → (f a).Along ns) :
    (x >>= f).Along (ms ++ ns) := by
  obtain ⟨l, o⟩ := x
  cases hx with
  | @through a hout hms hlog =>
    cases hout
    cases hf a rfl with
    | through hout hns hlog' =>
      refine .through hout (fun m hm => (List.mem_append.1 hm).elim (hms m) (hns m)) ?_
      rw [List.filterMap_append, ← hlog, ← hlog']
      rfl
    | @cut before after m n hns hbefore hn hlong hout hlog' =>
      have hall : ∀ u ∈ ms ++ before, u.1.IsReadable := fun u hu => (List.mem_append.1 hu).elim (hms u) (hbefore u)
      refine .cut (by rw [hns, List.append_assoc]) hall hn hlong hout ?_
      rw [List.filterMap_append, ← hlog, ← hlog']
      rfl
  | cut hms hbefore hn hlong hout hlog =>
    cases hout
    exact .cut (by rw [hms, List.append_assoc, List.cons_append]) hbefore hn hlong rfl hlog

theorem Along.map (hx : x.Along ms) (g : α → β) : (x >>= fun a => pure (g a)).Along ms := by
  have h : (x >>= fun a => pure (g a)).Along (ms ++ []) := hx.bind fun a _ => along_nil
  rwa [List.append_nil] at h

/-- A token without a number is passed in silence. -/
theorem Along.silent (hx : x.Along ms) {t : Token} (ht : t.numeral? = none) : x.Along ((t, none) :: ms) := by
  have hvalue : (value ()).Along [(t, none)] := along_value (by simpa using ht)
  exact hvalue.bind fun _ _ => hx

end Traced

namespace Reader

theorem along_number {t : Token} {owner : Sizable} {ds : List Char} (ht : t.numeral? = some (owner, ds)) :
    (number owner ds).Along [(t, none)] := by
  by_cases hlong : Text.digitLimit < ds.length
  · have hnum : number owner ds = .fail (overlongFault (owner, ds)) := if_pos hlong
    rw [hnum]
    exact .cut (List.nil_append _).symm nofun ht hlong rfl rfl
  · have hnum : number owner ds = .value (Text.ofDecimal ds) := if_neg hlong
    rw [hnum]
    refine .through rfl (fun m hm => ?_) rfl
    obtain rfl := List.mem_singleton.1 hm
    exact Token.isReadable_iff.2 fun n hn => by
      cases ht.symm.trans hn
      exact hlong

/-- A tuple that is closed is logged as the type it stands for. -/
theorem along_close (ps : List Phrase) :
    let t := Ty.tuple (named 0 (Phrase.itemTypes ps))
    (Traced.tell (.attached ps.length t.signature) >>= fun _ => pure t).Along [(.rparen, some (.tuple ps))] := by
  intro t
  have ht : (Phrase.tuple ps).type = t := by
    rw [Phrase.type]
    simp [t, named_eq_mapIdx]
  have hlength : (named 0 (Phrase.itemTypes ps)).length = ps.length := by
    rw [named_eq_mapIdx, List.length_mapIdx, Phrase.itemTypes_eq_map, List.length_map]
  refine .through rfl (by simp [Token.isReadable_iff, Token.numeral?]) ?_
  rw [List.filterMap_cons_some (b := .attached ps.length t.signature)]
  · rfl
  · rw [Mark.event?_some, ht, ← hlength]
    rfl

mutual

/-- **Building goes along the marks** of a phrase that is nested within the limit. -/
theorem along_build {form : Form} : ∀ {p : Phrase} {room : Nat}, p.nesting ≤ room → (build form room p).Along p.marks
  | .plain p, _, _ => by
    rw [build]
    exact Traced.along_value (by simp [Phrase.marks, Token.numeral?])
  | .sized s ds, _, _ => by
    rw [build]
    exact (along_number rfl).bind fun n _ => Traced.along_nil
  | .tuple _, 0, h | .array _, 0, h | .fixedArray _ _, 0, h | .map _ _, 0, h => by
    rw [Phrase.nesting] at h
    omega
  | .tuple ps, room + 1, h => by
    rw [Phrase.nesting, one_add_le_iff] at h
    rw [build]
    refine ((along_buildItems h).silent rfl).bind fun ts hts => ?_
    obtain ⟨-, rfl⟩ := outcome_buildItems.1 hts
    exact along_close ps
  | .array e, room + 1, h => by
    rw [Phrase.nesting, one_add_le_iff] at h
    rw [build]
    exact (along_build h).bind fun t _ => Traced.along_value (by simp [Token.numeral?])
  | .fixedArray e ds, room + 1, h => by
    rw [Phrase.nesting, one_add_le_iff] at h
    rw [build]
    have hsize : (number .fixedArray ds).Along [(.lbracket, none), (.number ds, none)] := (along_number rfl).silent rfl
    exact (along_build h).bind fun t _ => hsize.bind fun n _ => Traced.along_value (by simp [Token.numeral?])
  | .map k v, room + 1, h => by
    rw [Phrase.nesting, one_add_le_iff, Nat.max_le] at h
    have hkey : (build form room k).Along ((.map, none) :: (.lparen, none) :: k.marks) :=
      ((along_build h.1).silent rfl).silent rfl
    have hvalue : (build form room v).Along ((.comma, none) :: v.marks) := (along_build h.2).silent rfl
    rw [build, Phrase.marks, List.append_assoc]
    exact hkey.bind fun key _ => hvalue.bind fun value _ => Traced.along_value (by simp [Token.numeral?])

theorem along_buildItems {form : Form} : ∀ {ps : List Phrase} {room : Nat}, Phrase.itemNesting ps ≤ room →
    (buildItems form room ps).Along (Phrase.itemMarks ps)
  | [], _, _ => by
    rw [buildItems]
    exact Traced.along_nil
  | [p], _, h => by
    rw [Phrase.itemNesting, Nat.max_le] at h
    rw [buildItems, Phrase.itemMarks]
    exact (along_build h.1).map fun t => [t]
  | p :: q :: ps, _, h => by
    rw [Phrase.itemNesting, Nat.max_le] at h
    rw [buildItems, Phrase.itemMarks]
    exact (along_build h.1).bind fun t _ => ((along_buildItems h.2).silent rfl).map _

end

end Reader

/-! ## No empty parentheses -/

theorem infix_of_append {c : Char} {cs w rest : List Char} (hw : c ∉ w) (h : c :: cs <:+: w ++ rest) :
    c :: cs <:+: rest := by
  induction w with
  | nil => exact h
  | cons d w ih =>
    rw [List.mem_cons, not_or] at hw
    rcases List.infix_cons_iff.1 h with hpre | hin
    · exact absurd (List.cons_prefix_cons.1 hpre).1 hw.1
    · exact ih hw.2 hin

namespace Token

theorem eq_lparen_of_mem_spell {t : Token} (ht : t.IsProper) (h : '(' ∈ t.spell) : t = .lparen := by
  have hdigit : ∀ ds : List Char, IsNumeral ds → '(' ∉ ds := fun ds hds hmem => absurd (hds.2 _ hmem) (by decide)
  cases t with
  | plain p => cases p <;> exact absurd h (by decide)
  | sized s ds =>
    rcases List.mem_append.1 h with h | h
    · cases s <;> exact absurd h (by decide)
    · exact absurd h (hdigit ds (ht ds rfl))
  | number ds => exact absurd h (hdigit ds (ht ds rfl))
  | lparen => rfl
  | _ => exact absurd h (by decide)

theorem eq_rparen_of_spell {t : Token} (ht : t.IsProper) {cs : List Char} (h : t.spell = ')' :: cs) : t = .rparen := by
  cases t with
  | plain p => cases p <;> cases h
  | sized s ds => cases s <;> cases h
  | number ds => exact absurd ((ht ds rfl).2 ')' (by rw [show ds = _ from h]; exact List.mem_cons_self)) (by decide)
  | rparen => rfl
  | _ => cases h

/-- Empty parentheses in a text are the tokens of an empty tuple. -/
theorem infix_of_flatMap_spell : ∀ {ts : List Token}, (∀ t ∈ ts, t.IsProper) →
    ['(', ')'] <:+: ts.flatMap spell → [.lparen, .rparen] <:+: ts
  | [], _, h => absurd h (by decide)
  | t :: ts, hp, h => by
    obtain ⟨ht, hts⟩ := List.forall_mem_cons.1 hp
    rw [List.flatMap_cons] at h
    by_cases hmem : '(' ∈ t.spell
    · obtain rfl := eq_lparen_of_mem_spell ht hmem
      rcases List.infix_cons_iff.1 h with hpre | hin
      · cases ts with
        | nil => exact absurd (List.cons_prefix_cons.1 hpre).2 (by decide)
        | cons u ts =>
          obtain ⟨hu, -⟩ := List.forall_mem_cons.1 hts
          obtain ⟨c, cs, hspell, -⟩ := spell_eq_cons hu
          have hnext := (List.cons_prefix_cons.1 hpre).2
          rw [List.append_eq, List.nil_append, List.flatMap_cons, hspell, List.cons_append] at hnext
          obtain rfl := (List.cons_prefix_cons.1 hnext).1
          obtain rfl := eq_rparen_of_spell hu hspell
          exact ⟨[], ts, rfl⟩
      · exact (infix_of_flatMap_spell hts hin).trans (List.suffix_cons _ _).isInfix
    · exact (infix_of_flatMap_spell hts (infix_of_append hmem h)).trans (List.suffix_cons _ _).isInfix

end Token

/-- A type must start behind an opening parenthesis. -/
theorem Reader.Progress.focus_of_step?_lparen {q r : Progress} (h : q.step? .lparen = some r) : r.focus = .wanted := by
  obtain ⟨focus, fs⟩ := q
  cases focus with
  | wanted | mapWord =>
    cases h
    rfl
  | complete p | bracket p | size p ds => cases h

open Reader Progress in
/-- **A closing parenthesis does not follow an opening one.** -/
theorem Phrase.WellFormed.not_infix {p : Phrase} (h : p.WellFormed) : ¬ [.lparen, .rparen] <:+: p.tokens := by
  rintro ⟨us, vs, htokens⟩
  have hrun := foldlM_tokens (e := false) p (.inr h) []
  rw [← htokens, advance_false, List.foldlM_append, List.foldlM_append] at hrun
  obtain ⟨r, hr, -⟩ := Option.bind_eq_some_iff.1 hrun
  obtain ⟨q, -, hq⟩ := Option.bind_eq_some_iff.1 hr
  obtain ⟨q', hopen, hclose⟩ := Option.bind_eq_some_iff.1 hq
  obtain ⟨r', hclose, -⟩ := Option.bind_eq_some_iff.1 hclose
  obtain ⟨focus, fs⟩ := q'
  obtain rfl : focus = .wanted := focus_of_step?_lparen hopen
  cases hclose

/-- **A signature without empty tuples has no empty parentheses.** -/
theorem Ty.not_infix_signature {t : Ty} (h : .tuple [] ∉ t.nodes) : ¬ ['(', ')'] <:+: t.signature.toList := by
  intro hin
  have hp := wellFormed_phrase h
  rw [signature, String.toList_ofList] at hin
  exact hp.not_infix (Token.infix_of_flatMap_spell (Phrase.isProper_of_mem_tokens hp.isNumeral) hin)

theorem Ty.not_infix_of_event {t : Ty} (h : .tuple [] ∉ t.nodes) {n : Nat} {s : String}
    (hmem : .attached n s ∈ t.postorder.filterMap Ty.event?) : ¬ ['(', ')'] <:+: s.toList := by
  obtain ⟨u, hu, hevent⟩ := List.mem_filterMap.1 hmem
  obtain ⟨fs, -, -, rfl⟩ := event?_eq_some_iff.1 hevent
  exact not_infix_signature fun hempty => h (mem_nodes_trans (t.perm_postorder_nodes.mem_iff.1 hu) hempty)

/-! ## The log of a text -/

namespace Form

/-- What comes of reading a text of a form, a parameter's name left out. -/
def trace [Reader.Stack] (form : Form) (text : String) : Traced Ty :=
  match form with
  | .signature => Ty.read text
  | .param => ⟨(Field.read text).log, (Field.read text).outcome.map Field.kind⟩

theorem Refuses.trace_eq [Reader.Stack] {form : Form} {text : String} {stop : List Char}
    (h : form.Refuses text.toList stop) :
    form.trace text = .fail (.malformed form text (Reader.column text.toList stop)) := by
  cases form with
  | signature =>
    have hs : Phrase.read text.toList = .error stop := h
    rw [trace, Ty.read, hs]
  | param =>
    have hs : Reader.readParam text.toList = .error stop := h
    rw [trace, Field.read, hs]
    rfl

namespace Parses

variable {form : Form} {text : String} {ts : List Token} {p : Phrase}

theorem trace_eq [Reader.Stack] (h : form.Parses text.toList ts p) : form.trace text =
    Reader.build form Reader.Stack.levels p >>= fun t => Traced.tell (.parsed form text) >>= fun _ => pure t := by
  cases form with
  | signature =>
    rcases h with ⟨hl, hd⟩ | _
    rw [trace, Ty.read, Phrase.read_eq_ok_iff.2 ⟨ts, hl, hd⟩]
  | param =>
    obtain ⟨name, hp⟩ := h.readParam_eq
    rw [trace, Field.read, hp]
    dsimp only
    generalize Reader.build .param Reader.Stack.levels p = x
    obtain ⟨l, o⟩ := x
    cases o <;> rfl

/-- **An accepted text logs its tuples in post-order**, and then itself. -/
theorem log_of_ok [Reader.Stack] (h : form.Parses text.toList ts p) {t : Ty} (ht : (form.trace text).outcome = .ok t) :
    (form.trace text).log = t.postorder.filterMap Ty.event? ++ [.parsed form text] ∧ .tuple [] ∉ t.nodes := by
  rw [h.trace_eq] at ht ⊢
  obtain ⟨t', hbuild, hpure⟩ := Traced.outcome_bind_eq_ok_iff.1 ht
  cases hpure
  obtain ⟨⟨hnesting, -⟩, rfl⟩ := Reader.outcome_build.1 hbuild
  refine ⟨?_, (derives_iff.1 h.derives).2.empty_notMem_nodes⟩
  rw [← Phrase.filterMap_event?_marks]
  generalize hx : Reader.build form Reader.Stack.levels p = x at hbuild
  obtain ⟨l, o⟩ := x
  cases hbuild
  cases hx ▸ Reader.along_build hnesting with
  | through _ _ hlog => exact congrArg (· ++ [Event.parsed form text]) hlog
  | cut _ _ _ _ hout _ => cases hout

/-- **A number of too many digits cuts the log**: the tuples closed before it are logged, and nothing else. -/
theorem log_of_overlong [Reader.Stack] (h : form.Parses text.toList ts p) (hn : p.nesting ≤ Reader.Stack.levels)
    {before after : List Mark} {m : Mark} (hms : p.marks = before ++ m :: after)
    (hbefore : ∀ u ∈ before, u.1.IsReadable) (hm : ¬ m.1.IsReadable) :
    ∃ n, m.1.numeral? = some n ∧ IsOverlong n ∧ (form.trace text).outcome = .error (overlongFault n) ∧
      (form.trace text).log = before.filterMap Mark.event? := by
  rw [h.trace_eq]
  have hbuild : (Reader.build form Reader.Stack.levels p).Along p.marks := Reader.along_build hn
  generalize Reader.build form Reader.Stack.levels p = x at hbuild
  obtain ⟨l, o⟩ := x
  cases hbuild with
  | through _ hall _ => exact absurd (hall m (by simp [hms])) hm
  | cut hms' hbefore' hnum hlong hout hlog =>
    cases hout
    have hm' : ¬ Token.IsReadable _ := fun h => Token.isReadable_iff.1 h _ hnum hlong
    obtain ⟨rfl, rfl⟩ := eq_of_first (hms.symm.trans hms') hbefore hm hbefore' hm'
    exact ⟨_, hnum, hlong, rfl, hlog⟩

end Parses

theorem exists_parses_of_ok [Reader.Stack] {form : Form} {text : String} {t : Ty} (h : (form.trace text).outcome = .ok t) :
    ∃ ts p, form.Parses text.toList ts p := by
  by_contra hnot
  obtain ⟨stop, hs⟩ := exists_refuses fun hspells => hnot (spells_iff_parses.1 hspells)
  rw [hs.trace_eq] at h
  cases h

end Form

/-! ## The log of documentation -/

namespace Command

theorem head?_ne_dash_of_read [Reader.Stack] {text : String} {f : Field Ty} (h : (Field.read text).outcome = .ok f) :
    text.toList.head? ≠ some '-' := by
  intro hhead
  obtain ⟨cs, hcs⟩ := List.head?_eq_some_iff.1 hhead
  have hstop : Reader.readParam text.toList = .error ('-' :: cs) := by
    rw [hcs]
    rfl
  rw [Field.read, hstop] at h
  cases h

theorem head?_ne_dash_of_forall₂ [Reader.Stack] : ∀ {texts : List String} {ps : List (Field Ty)},
    List.Forall₂ (fun t p => (Field.read t).outcome = .ok p) texts ps → ∀ t ∈ texts, t.toList.head? ≠ some '-'
  | _, _, .nil => nofun
  | _, _, .cons h hs => List.forall_mem_cons.2 ⟨head?_ne_dash_of_read h, head?_ne_dash_of_forall₂ hs⟩

/-- Accepted texts alone are asked about, by the default version and under the default title. -/
theorem asks_self {texts : List String} (hne : texts ≠ []) (htexts : ∀ t ∈ texts, t.toList.head? ≠ some '-') :
    Asks texts texts defaultVersion Markdown.defaultTitle none := by
  have hread : Scope.doc.readArguments (texts ++ []) = .ok ⟨[], texts ++ []⟩ := readArguments_doc_append htexts
  rw [List.append_nil] at hread
  exact .intro hread rfl hne rfl

theorem log_readParams [Reader.Stack] {texts : List String} {ps : List (Field Ty)}
    (h : List.Forall₂ (fun t p => (Field.read t).outcome = .ok p) texts ps) :
    (readParams texts).log = texts.flatMap fun t => (Field.read t).log := by
  induction h with
  | nil => rfl
  | @cons t p texts ps hp hps ih =>
    have hout := outcome_readParams hps
    rw [List.flatMap_cons, ← ih, readParams]
    generalize Field.read t = x at hp
    generalize readParams texts = y at hout
    obtain ⟨l, o⟩ := x
    obtain ⟨m, o'⟩ := y
    cases hp
    cases hout
    simp

/-- The log of documentation, whether its file can be written or not. -/
theorem log_doc [Reader.Stack] {texts : List String} {ps : List (Field Ty)} (hne : texts ≠ [])
    (h : List.Forall₂ (fun t p => (Field.read t).outcome = .ok p) texts ps) (place : Surroundings) (v : Int)
    (title : String) (file : Option String) : (doc place texts v title file).log =
      (texts.flatMap fun t => (Field.read t).log) ++ [.attached ps.length (Ty.tuple ps).signature] := by
  have hps : ps ≠ [] := by
    rintro rfl
    exact hne (List.forall₂_nil_right_iff.1 h)
  have hout := outcome_readParams h
  have hrender : Markdown.render title v ps =
      ⟨[.attached ps.length (Ty.tuple ps).signature], Markdown.print title v ps⟩ := by
    rw [Markdown.render, if_neg (by simpa using hps), Event.attachedTo,
      Ty.print_eq_ok_iff.2 ⟨Ty.isWritable_tuple_of_read h, rfl⟩]
    rfl
  rw [← log_readParams h, doc]
  generalize readParams texts = x at hout
  obtain ⟨l, o⟩ := x
  cases hout
  rw [Traced.bind_ok, hrender]
  cases Markdown.print title v ps with
  | error f => rfl
  | ok page =>
    rw [Traced.bind_ok]
    cases file with
    | none => rfl
    | some path => cases hplace : place path <;> simp [hplace, Traced.fail]

theorem log_run_verbose_doc [Reader.Stack] (place : Surroundings) (program : String) (args : List String) :
    (run place program ("-v" :: "doc" :: args)).log = (runCommand place program .doc args).log := by
  have hgroup : Scope.group.readArguments ("-v" :: "doc" :: args) = .ok ⟨[⟨.verbose, ""⟩], "doc" :: args⟩ := rfl
  unfold run
  rw [hgroup]
  rfl

theorem log_ofProduct (x : Traced Product) : (Outcome.ofProduct x).log = x.log := by
  unfold Outcome.ofProduct
  split
  · rfl
  · split <;> rfl

/-- **What is logged, and in which order.**  An accepted text logs each of its tuples when its components are attached,
in post-order and by its final signature, which has no empty parentheses, and then itself.  A text outside the grammar
logs nothing; a text that a number of too many digits ends, nested within the limit, logs the tuples whose closing
parenthesis stands before the number.  The log of documentation, if it is shown, is that of each text in their order,
and then their common tuple. -/
theorem logged_in_order [Reader.Stack] :
    (∀ (form : Form) (text : String) (t : Ty), (form.trace text).outcome = .ok t →
      (form.trace text).log = t.postorder.filterMap Ty.event? ++ [.parsed form text] ∧
      ∀ n s, .attached n s ∈ (form.trace text).log → ¬ ['(', ')'] <:+: s.toList) ∧
    (∀ (form : Form) (text : String), ¬ form.Spells text.toList → (form.trace text).log = []) ∧
    (∀ (form : Form) (text : String) ts p, form.Parses text.toList ts p → p.nesting ≤ Reader.Stack.levels →
      p.marks.map Prod.fst = ts ∧ Closing p.marks ∧
      ∀ before m after, p.marks = before ++ m :: after → (∀ u ∈ before, u.1.IsReadable) → ¬ m.1.IsReadable →
        ∃ n, m.1.numeral? = some n ∧ IsOverlong n ∧ (form.trace text).outcome = .error (overlongFault n) ∧
          (form.trace text).log = before.filterMap Mark.event?) ∧
    ∀ (texts : List String) (ps : List (Field Ty)), texts ≠ [] →
      List.Forall₂ (fun t p => (Field.read t).outcome = .ok p) texts ps →
      Asks texts texts defaultVersion Markdown.defaultTitle none ∧
      ∀ (place : Surroundings) (program : String) (args : List String) (v : Int) (title : String)
        (file : Option String), Asks args texts v title file → (run place program ("-v" :: "doc" :: args)).log =
          (texts.flatMap fun t => (Form.trace .param t).log) ++ [.attached ps.length (Ty.tuple ps).signature] := by
  refine ⟨fun form text t ht => ?_, fun form text hnot => ?_, fun form text ts p h hn => ?_,
    fun texts ps hne h => ⟨asks_self hne (head?_ne_dash_of_forall₂ h), ?_⟩⟩
  · obtain ⟨ts, p, h⟩ := Form.exists_parses_of_ok ht
    obtain ⟨hlog, hempty⟩ := h.log_of_ok ht
    refine ⟨hlog, fun n s hmem => Ty.not_infix_of_event hempty (n := n) ?_⟩
    rw [hlog, List.mem_append] at hmem
    exact hmem.resolve_right (by simp)
  · obtain ⟨stop, hs⟩ := Form.exists_refuses hnot
    rw [hs.trace_eq]
    rfl
  · refine ⟨?_, p.closing_marks, fun before m after => h.log_of_overlong hn⟩
    rw [Phrase.map_fst_marks, (derives_iff.1 h.derives).1]
  · intro place program args v title file hasks
    rw [log_run_verbose_doc, hasks.runCommand_eq, log_ofProduct, log_doc hne h]
    rfl

/-- Of three texts one is accepted, one is outside the grammar, and one ends at a number behind a tuple; of two accepted
parameters there is documentation. -/
theorem logged_in_order_nested :
    let long : List Token := [.lparen, .lparen, .plain .bool, .rparen, .comma, .plain .cell, .lbracket,
      .number (List.replicate 4301 '0'), .rbracket, .comma, .lparen, .plain .cell, .rparen, .rparen]
    (Form.trace .signature "((bool),map(int8,(cell,(bool))))").log = [.attached 1 "(bool)", .attached 1 "(bool)",
      .attached 2 "(cell,(bool))", .attached 2 "((bool),map(int8,(cell,(bool))))",
      .parsed .signature "((bool),map(int8,(cell,(bool))))"] ∧
    (Form.trace .param "a:((bool),())").log = [] ∧
    (Form.trace .signature (String.ofList (long.flatMap Token.spell))).log = [.attached 1 "(bool)"] ∧
    (run emptyDirectory "cli" ["-v", "doc", "a:(bool)", "b:cell"]).log =
      [.attached 1 "(bool)", .parsed .param "a:(bool)", .parsed .param "b:cell", .attached 2 "((bool),cell)"] := by
  have hread : (Form.trace .signature "((bool),map(int8,(cell,(bool))))").outcome = .ok
      (.tuple [⟨"value0", .tuple [⟨"value0", .scalar (.plain .bool)⟩]⟩, ⟨"value1", .map (.scalar (.sized .int 8))
        (.tuple [⟨"value0", .scalar (.plain .cell)⟩,
          ⟨"value1", .tuple [⟨"value0", .scalar (.plain .bool)⟩]⟩])⟩]) := by rfl
  refine ⟨?_, ?_, ?_, ?_⟩
  · rw [(logged_in_order.1 _ _ _ hread).1]
    decide +kernel
  · refine logged_in_order.2.1 .param "a:((bool),())" fun h => ?_
    obtain ⟨ts, p, h⟩ := Form.spells_iff_parses.1 h
    obtain ⟨name, hok⟩ := h.readParam_eq
    have hrefused : Reader.readParam "a:((bool),())".toList = .error "))".toList := by rfl
    cases hrefused.symm.trans hok
  · have hlen : (List.replicate 4301 '0').length = 4301 := List.length_replicate
    have hzero : ∀ c ∈ List.replicate 4301 '0', c.isDigit = true := fun c hc => List.eq_of_mem_replicate hc ▸ rfl
    generalize List.replicate 4301 '0' = zeros at hlen hzero
    have hnum : IsNumeral zeros := ⟨fun h => by simp [h] at hlen, hzero⟩
    have hbool : Phrase.WellFormed (.tuple [.plain .bool]) := .tuple (by decide) (by simpa using .plain .bool)
    have hcell : Phrase.WellFormed (.tuple [.plain .cell]) := .tuple (by decide) (by simpa using .plain .cell)
    have hp : Phrase.WellFormed (.tuple [.tuple [.plain .bool], .fixedArray (.plain .cell) zeros, .tuple [.plain .cell]]) :=
      .tuple (List.cons_ne_nil _ _) (by simpa using ⟨hbool, .fixedArray (.plain .cell) hnum, hcell⟩)
    have hparses := Form.Parses.signature (layout_flatMap_spell _) hp.derives
    rw [← String.toList_ofList (l := List.flatMap _ _)] at hparses
    have hlong : ¬ (Token.number zeros).IsReadable := fun h => absurd (hlen ▸ h zeros rfl) (by decide)
    obtain ⟨-, -, hcut⟩ := logged_in_order.2.2.1 .signature _ _ _ hparses (show 2 ≤ Reader.Stack.levels by decide)
    obtain ⟨n, -, -, -, hlog⟩ := hcut [(.lparen, none), (.lparen, none), (.plain .bool, none),
      (.rparen, some (.tuple [.plain .bool])), (.comma, none), (.plain .cell, none), (.lbracket, none)]
      (.number zeros, none) _ rfl (by simp [Token.IsReadable, Token.digits?]) hlong
    exact hlog.trans (by decide +kernel)
  · have ha : (Field.read "a:(bool)").outcome = .ok ⟨"a", .tuple [⟨"value0", .scalar (.plain .bool)⟩]⟩ := by rfl
    have hb : (Field.read "b:cell").outcome = .ok ⟨"b", .scalar (.plain .cell)⟩ := by rfl
    obtain ⟨hasks, hlog⟩ := logged_in_order.2.2.2 ["a:(bool)", "b:cell"] _ (by decide) (.cons ha (.cons hb .nil))
    rw [hlog emptyDirectory "cli" _ _ _ _ hasks]
    decide +kernel

/-- **Documentation of no parameters is a misuse**, so nothing is logged for it. -/
theorem doc_not_logged_without_texts :
    ¬ ∀ (texts : List String) (ps : List (Field Ty)),
      List.Forall₂ (fun t p => (Field.read t).outcome = .ok p) texts ps →
      (run emptyDirectory "cli" ("-v" :: "doc" :: texts)).log =
        (texts.flatMap fun t => (Form.trace .param t).log) ++ [.attached ps.length (Ty.tuple ps).signature] := by
  intro h
  have hnone : (run emptyDirectory "cli" ["-v", "doc"]).log = [] := by rfl
  cases hnone.symm.trans (h [] [] .nil)

end Command

end AbiTypes
