import AbiTypes.Proofs.Overwriting
/-!
# Congruence — equal descriptors that are given the same components

Descriptors are equal as trees, and components are given to objects.  What comes of giving components to a descriptor
is settled by its tree alone (`Builder.outcome_attach`), and so is what it looks like afterwards, if the tuple that
receives them stands in one place only (`Store.Receives.view?_of_once`).  So equal descriptors stay equal under equal
attachments, if the tuple of each is its own (`Store.SlotApart`).
-/
namespace AbiTypes

namespace Ty

/-- The descriptor at the end of the way that components take. -/
def slot : Ty → Ty
  | .scalar c => .scalar c
  | .tuple fs => .tuple fs
  | .array e | .fixedArray e _ => e.slot
  | .map _ v => v.slot

/-- **What comes of giving so many components to a descriptor.** -/
def verdict (count : Nat) (t : Ty) : Except Fault Unit :=
  match t.slot with
  | .scalar c =>
    if count = 0 then .ok () else (Ty.scalar c).print.bind fun signature => .error (.unusedComponents signature count)
  | _ => if count = 0 then .error .emptyTuple else .ok ()

theorem verdict_scalar {t : Ty} {c : Scalar} (h : t.slot = .scalar c) (count : Nat) :
    t.verdict count = if count = 0 then .ok ()
      else (Ty.scalar c).print.bind fun signature => .error (.unusedComponents signature count) := by
  rw [verdict, h]

theorem verdict_tuple {t : Ty} {fs : List (Field Ty)} (h : t.slot = .tuple fs) (count : Nat) :
    t.verdict count = if count = 0 then .error .emptyTuple else .ok () := by
  rw [verdict, h]

/-- Where no tuple is at the end of the way, there is nothing to show components. -/
theorem given_of_slot_ne {fs : List (Field Ty)} : ∀ {t : Ty}, (¬ ∃ gs, t.slot = .tuple gs) → t.given fs = t
  | .scalar _, _ => rfl
  | .tuple gs, h => absurd ⟨gs, rfl⟩ h
  | .array e, h => by rw [given, given_of_slot_ne (t := e) h]
  | .fixedArray e n, h => by rw [given, given_of_slot_ne (t := e) h]
  | .map k v, h => by rw [given, given_of_slot_ne (t := v) h]

end Ty

namespace Store

open Relation

/-! ## Positions -/

section Follow

variable {s s' : Store} {r q : Ref}

theorem follow?_append (s : Store) : ∀ (path path' : List Turn) (r : Ref),
    s.follow? r (path ++ path') = (s.follow? r path).bind fun c => s.follow? c path'
  | [], _, _ => rfl
  | turn :: path, path', r => by
    rw [List.cons_append, follow?, follow?, Option.bind_assoc]
    exact congrArg _ (funext (s.follow?_append path path'))

theorem exists_part?_of_part {c : Ref} (h : s.Part r c) : ∃ turn, s.part? r turn = some c := by
  cases h with
  | elem h => exact ⟨.elem, (part?_array h).2 ⟨rfl, rfl⟩⟩
  | fixedElem h => exact ⟨.elem, (part?_fixedArray h).2 ⟨rfl, rfl⟩⟩
  | key h => exact ⟨.key, (part?_map h).2 (.inl ⟨rfl, rfl⟩)⟩
  | value h => exact ⟨.value, (part?_map h).2 (.inr ⟨rfl, rfl⟩)⟩
  | component h hc =>
    obtain ⟨i, hi⟩ := List.mem_iff_getElem?.1 hc
    exact ⟨.component i, (part?_tuple h).2 ⟨i, _, rfl, hi, rfl⟩⟩

/-- **A descriptor leads to what stands at its positions.** -/
theorem isAt_iff : s.IsAt r q ↔ ReflTransGen s.Part r q := by
  constructor
  · rintro ⟨path, hpath⟩
    induction path generalizing r with
    | nil =>
      cases hpath
      exact .refl
    | cons turn path ih =>
      obtain ⟨c, hc, hpath⟩ := Option.bind_eq_some_iff.1 hpath
      exact .head (part_of_part? hc) (ih hpath)
  · intro h
    induction h using ReflTransGen.head_induction_on with
    | refl => exact ⟨[], rfl⟩
    | head hc _ ih =>
      obtain ⟨path, hpath⟩ := ih
      obtain ⟨turn, hturn⟩ := exists_part?_of_part hc
      exact ⟨turn :: path, by rw [follow?, hturn, Option.bind_some, hpath]⟩

theorem IsAt.of_follow? {c : Ref} {path : List Turn} (hc : s.follow? r path = some c) (h : s.IsAt c q) :
    s.IsAt r q := by
  obtain ⟨path', hpath'⟩ := h
  exact ⟨path ++ path', by rw [follow?_append, hc, Option.bind_some, hpath']⟩

theorem IsAt.self (s : Store) (r : Ref) : s.IsAt r r := ⟨[], rfl⟩

theorem IsAt.part {c : Ref} (h : s.IsAt r q) (hc : s.Part q c) : s.IsAt r c :=
  isAt_iff.2 ((isAt_iff.1 h).tail hc)

/-- **A path leads to the same descriptor as long as those on the way stay.** -/
theorem follow?_of_sameAt (hs : s.Closed) : ∀ {path : List Turn} {r : Ref},
    (∀ before turn c, before ++ [turn] <+: path → s.follow? r before = some c → s.SameAt s' c) →
    s.follow? r path = some q → s'.follow? r path = some q
  | [], _, _, hq => hq
  | turn :: path, r, hsame, hq => by
    obtain ⟨c, hc, hq⟩ := Option.bind_eq_some_iff.1 hq
    have hc' : s'.part? r turn = some c := part?_of_sameAt hs (hsame [] turn r ⟨path, rfl⟩ rfl) hc
    rw [follow?, hc', Option.bind_some]
    refine follow?_of_sameAt hs (fun before turn' d hprefix hd => ?_) hq
    refine hsame (turn :: before) turn' d ((List.cons_prefix_cons).2 ⟨rfl, hprefix⟩) ?_
    rw [follow?, hc, Option.bind_some, hd]

/-- **A descriptor looks the same as long as all that stands at its positions stays.** -/
theorem view?_of_sameAt (hs : s.Closed) (hr : r < s.nodes.size) (hsame : ∀ x, s.IsAt r x → s.SameAt s' x) :
    s'.view? r = s.view? r :=
  view?_congr hs (P := fun x => x < s.nodes.size ∧ s.IsAt r x) (fun hx hc => ⟨hs.part hc, hx.2.part hc⟩)
    (fun hx => ⟨hx.1, hsame _ hx.2⟩) ⟨hr, .self s r⟩

end Follow

/-! ## The slot of a tree -/

/-- **A descriptor that has a tree has a slot**: the scalar or the tuple at the end of the tree's way. -/
theorem exists_slot?_of_view? {s : Store} {r : Ref} {t : Ty} (h : s.view? r = some t) : ∃ q, s.slot? r = some q ∧
    ((∃ c, s.node? q = some (.scalar c) ∧ t.slot = .scalar c) ∨
      ∃ l fs, s.node? q = some (.tuple l) ∧ t.slot = .tuple fs) := by
  obtain ⟨n, hn⟩ := exists_node? (lt_of_view? h)
  rw [view?_eq, viewStep, hn] at h
  cases n with
  | scalar c =>
    cases h
    exact ⟨r, slot?_scalar hn, .inl ⟨c, hn, rfl⟩⟩
  | tuple l =>
    obtain ⟨fs, -, rfl⟩ := Option.map_eq_some_iff.1 h
    exact ⟨r, slot?_tuple hn, .inr ⟨l, fs, hn, rfl⟩⟩
  | array e =>
    obtain ⟨u, hu, rfl⟩ := Option.map_eq_some_iff.1 h
    rw [slot?_of_forwards (.elem hn)]
    exact exists_slot?_of_view? (t := u) hu
  | fixedArray e m =>
    obtain ⟨u, hu, rfl⟩ := Option.map_eq_some_iff.1 h
    rw [slot?_of_forwards (.fixedElem hn)]
    exact exists_slot?_of_view? (t := u) hu
  | map k v =>
    obtain ⟨key, -, h⟩ := Option.bind_eq_some_iff.1 h
    obtain ⟨u, hu, rfl⟩ := Option.map_eq_some_iff.1 h
    rw [slot?_of_forwards (.value hn)]
    exact exists_slot?_of_view? (t := u) hu
termination_by t

/-- **Some tuple receives what is given to a descriptor exactly if there is one at the end of the tree's way.** -/
theorem exists_receives_iff {s : Store} {r : Ref} {t : Ty} (h : s.view? r = some t) :
    (∃ q, s.Receives r q) ↔ ∃ fs, t.slot = .tuple fs := by
  obtain ⟨q, hq, ⟨c, hn, hslot⟩ | ⟨l, fs, hn, hslot⟩⟩ := exists_slot?_of_view? h
  · refine iff_of_false ?_ (by rw [hslot]; exact nofun)
    rintro ⟨q', hq', m, hm⟩
    cases hq.symm.trans (slot?_eq_some_iff.2 ⟨hq', lt_of_node? hm⟩)
    cases hn.symm.trans hm
  · exact iff_of_true ⟨q, (slot?_eq_some_iff.1 hq).1, l, hn⟩ ⟨fs, hslot⟩

/-! ## A tuple that stands in one place -/

section Once

variable {s s' : Store} {r q : Ref}

/-- **A tuple that stands in one place is not in the keys** on the way to it. -/
theorem Receives.stem (hq : s.Receives r q)
    (honce : ∀ path path', s.follow? r path = some q → s.follow? r path' = some q → path = path') : s.Stem q r := by
  obtain ⟨⟨hreach, -⟩, l, hl⟩ := hq
  induction hreach using ReflTransGen.head_induction_on with
  | refl => exact .slot hl
  | @head r c hc hreach ih =>
    have hbelow : ∀ {turn : Turn}, s.part? r turn = some c → s.Stem q c := fun {turn} hturn => by
      refine ih fun path path' hpath hpath' => (List.cons.inj (honce (turn :: path) (turn :: path') ?_ ?_)).2
      · rw [follow?, hturn, Option.bind_some, hpath]
      · rw [follow?, hturn, Option.bind_some, hpath']
    cases hc with
    | elem h => exact .array h (hbelow ((part?_array h).2 ⟨rfl, rfl⟩))
    | fixedElem h => exact .fixedArray h (hbelow ((part?_fixedArray h).2 ⟨rfl, rfl⟩))
    | @value k v h =>
      have hvalue : s.part? r .value = some c := (part?_map h).2 (.inr ⟨rfl, rfl⟩)
      refine .map h (fun hkey => ?_) (hbelow hvalue)
      -- a way through the key would be a second one
      obtain ⟨path, hpath⟩ := isAt_iff.2 hkey
      obtain ⟨path', hpath', -⟩ := exists_path_of_forwards hreach
      have hturns : Turn.key :: path = Turn.value :: path' := honce _ _
        (by rw [follow?, (part?_map h).2 (.inl ⟨rfl, rfl⟩), Option.bind_some, hpath])
        (by rw [follow?, hvalue, Option.bind_some, hpath'])
      cases hturns

variable {ps : Components}

/-- **Only what stands at the slot of a descriptor was replaced**: the tuple there has the components, and what is
beside the way there is the same descriptor as before and looks as before. -/
def SlotReplaced (s s' : Store) (r : Ref) (ps : Components) : Prop := ∀ q, s.Receives r q → ∃ path,
  (∀ turn ∈ path, turn = .elem ∨ turn = .value) ∧ s.follow? r path = some q ∧ s'.follow? r path = some q ∧
    s'.components? q = some ps ∧
    ∀ path' x, s.follow? r path' = some x → ¬ path' <+: path → ¬ path <+: path' →
      s'.follow? r path' = some x ∧ s'.view? x = s.view? x

/-- **Components show at the slot**, if the tuple there stands in one place and all else stays. -/
theorem Receives.view?_of_once (hs : s.Closed) (hq : s.Receives r q) (honce : ∃! path, s.follow? r path = some q)
    (hsame : ∀ x, s.IsAt r x → x ≠ q → s.SameAt s' x) (hps : s'.components? q = some ps) {fs : List (Field Ty)}
    (hfs : s'.viewFields? ps = some fs) {t : Ty} (ht : s.view? r = some t) : s'.view? r = some (t.given fs) :=
  (hq.stem fun _ _ => honce.unique).view?_of_same hs (P := fun x => x < s.nodes.size ∧ s.IsAt r x)
    (fun hx hc => ⟨hs.part hc, hx.2.part hc⟩) (fun hx hne => ⟨hx.1, hsame _ hx.2 hne⟩) hps hfs
    ⟨lt_of_view? ht, .self s r⟩ ht

theorem Receives.slotReplaced (hs : s.Closed) (hr : r < s.nodes.size) (hq : s.Receives r q)
    (honce : ∃! path, s.follow? r path = some q) (hsame : ∀ x, s.IsAt r x → x ≠ q → s.SameAt s' x)
    (hps : s'.components? q = some ps) : s.SlotReplaced s' r ps := by
  intro q' hq'
  obtain rfl := hq'.eq hq
  obtain ⟨path, hpath, hturns⟩ := exists_path_of_forwards hq.1.reached
  -- a way that goes on after the tuple has gone the whole path to it
  have hfollow : ∀ {path' : List Turn} {x : Ref}, s.follow? r path' = some x →
      (∀ turn, ¬ path ++ [turn] <+: path') → s'.follow? r path' = some x := fun {path' x} hx hnot => by
    refine follow?_of_sameAt hs (fun before turn c hprefix hc => hsame c ⟨before, hc⟩ ?_) hx
    rintro rfl
    obtain rfl := honce.unique hc hpath
    exact hnot turn hprefix
  refine ⟨path, hturns, hpath, hfollow hpath fun turn h => ?_, hps, fun path' x hx hbefore hafter => ⟨?_, ?_⟩⟩
  · exact absurd h.length_le (by simp)
  · exact hfollow hx fun turn h => hafter ((List.prefix_append path [turn]).trans h)
  · refine view?_of_sameAt hs (hs.follow? hr hx) fun y hy => hsame y (hy.of_follow? hx) ?_
    rintro rfl
    obtain ⟨rest, hrest⟩ := hy
    have hall : s.follow? r (path' ++ rest) = some y := by rw [follow?_append, hx, Option.bind_some, hrest]
    exact hbefore ⟨rest, honce.unique hall hpath⟩

end Once

/-! ## Two descriptors that are given the same -/

/-- **A slot of its own**: the tuple that receives what is given to a descriptor stands in one place there, and neither
in another descriptor nor in components. -/
structure SlotApart (s : Store) (r other : Ref) (ps : Components) : Prop where
  once : ∀ q, s.Receives r q → ∃! path, s.follow? r path = some q
  other : ∀ q, s.Receives r q → ¬ s.IsAt other q
  components : ∀ q, s.Receives r q → ∀ c ∈ ps, ¬ s.IsAt c.kind q

/-- **Trees in stretches of their own have slots of their own**, as long as the components keep off. -/
theorem Planted.slotApart {s : Store} {lo r lo' r' : Ref} {t t' : Ty} {ps : Components} (h : s.Planted lo r t)
    (h' : s.Planted lo' r' t') (hstretch : r < lo' ∨ r' < lo)
    (hps : ∀ q, s.Receives r q → ∀ c ∈ ps, ¬ s.IsAt c.kind q) : s.SlotApart r r' ps where
  once q hq := by
    obtain ⟨path, hpath, -⟩ := exists_path_of_forwards hq.1.reached
    exact ⟨path, hpath, fun path' hpath' => h.follow?_inj hpath' hpath⟩
  other q hq hat := by
    obtain ⟨path, hpath⟩ := isAt_of_forwards hq.1.reached
    have hmem := h.follow?_mem hpath
    exact h'.not_outside hat (hstretch.imp hmem.2.trans_lt fun hlt => hlt.trans_le hmem.1)
  components := hps

/-- A store in which the same components were given to two descriptors. -/
structure SettlesBoth (s : Store) (a b : Ref) (ps : Components) (s' : Store) : Prop where
  first : ∀ q, s.Receives a q → s'.components? q = some ps
  second : ∀ q, s.Receives b q → s'.components? q = some ps
  others : ∀ x, ¬ s.Receives a x → ¬ s.Receives b x → s.SameAt s' x

section SettlesBoth

variable {s s₁ s' : Store} {a b : Ref} {ps : Components}

theorem Settles.both (hb : b < s.nodes.size) (h₁ : s.Settles a ps s₁) (h₂ : s₁.Settles b ps s') :
    s.SettlesBoth a b ps s' := by
  obtain ⟨hsecond, hfirst, hothers⟩ := h₁.components_both hb h₂
  refine ⟨fun q hq => ?_, hsecond, fun x ha hb => ⟨fun {n} hn h => ?_, fun h => (hothers x ha hb).trans h⟩⟩
  · by_cases hqb : s.Receives b q
    · exact hsecond q hqb
    · exact hfirst q hq hqb
  · exact (h₂.node x n hn).2 ((h₁.node x n hn).2 h)

theorem SettlesBoth.symm (h : s.SettlesBoth a b ps s') : s.SettlesBoth b a ps s' :=
  ⟨h.second, h.first, fun x hb ha => h.others x ha hb⟩

/-- **Each of two descriptors shows the components at its slot**, if the slot of each is its own. -/
theorem SettlesBoth.shows (h : s.SettlesBoth a b ps s') (hs : s.Closed) (hkinds : ∀ c ∈ ps, c.kind < s.nodes.size)
    (hab : s.SlotApart a b ps) (hba : s.SlotApart b a ps) {q : Ref} (hq : s.Receives a q) {t : Ty}
    (ht : s.view? a = some t) {fs : List (Field Ty)} (hfs : s.viewFields? ps = some fs) :
    s'.view? a = some (t.given fs) ∧ s.SlotReplaced s' a ps := by
  have hsame : ∀ x, s.IsAt a x → x ≠ q → s.SameAt s' x := fun x hx hne =>
    h.others x (fun hxa => hne (hxa.eq hq)) fun hxb => hba.other x hxb hx
  have hfs' : s'.viewFields? ps = some fs := by
    rw [← hfs]
    refine fieldsWith_congr fun c hc => view?_of_sameAt hs (hkinds c hc) fun x hx => ?_
    exact h.others x (fun hxa => hab.components x hxa c hc hx) fun hxb => hba.components x hxb c hc hx
  exact ⟨hq.view?_of_once hs (hab.once q hq) hsame (h.first q hq) hfs' ht,
    hq.slotReplaced hs (lt_of_view? ht) (hab.once q hq) hsame (h.first q hq)⟩

end SettlesBoth

end Store

namespace Builder

open Store

section Attach

variable {s : Store} {r : Ref} {l : ListRef} {ps : Components}

/-- **What comes of an attachment is settled by the tree.** -/
theorem outcome_attach {t : Ty} (ht : s.view? r = some t) (hps : s.items? l = some ps) :
    (attach r l s).outcome = t.verdict ps.length := by
  obtain ⟨q, hq, ⟨c, hn, hslot⟩ | ⟨m, gs, hn, hslot⟩⟩ := exists_slot?_of_view? ht
  · rw [attach_eq_receive hps hq hn, Ty.verdict_scalar hslot]
    by_cases hnil : ps = []
    · rw [receive_scalar_nil hnil, if_pos (List.length_eq_zero_iff.2 hnil)]
    · rw [receive_scalar hnil, if_neg fun h => hnil (List.length_eq_zero_iff.1 h)]
  · rw [attach_eq_receive hps hq hn, Ty.verdict_tuple hslot]
    by_cases hnil : ps = []
    · rw [receive_tuple_nil hnil, if_pos (List.length_eq_zero_iff.2 hnil)]
    · rw [receive_tuple hnil, if_neg fun h => hnil (List.length_eq_zero_iff.1 h)]

/-- Where no tuple receives components, or there are none, nothing changes. -/
theorem store_attach_eq_self {t : Ty} (ht : s.view? r = some t) (hps : s.items? l = some ps)
    (h : (¬ ∃ gs, t.slot = .tuple gs) ∨ ps = []) : (attach r l s).store = s := by
  obtain hsame | ⟨q, m, cs, hq, hm, hcs, hne, -⟩ := attach_store r l s
  · exact hsame
  · cases hps.symm.trans hcs
    exact absurd h (not_or_intro (not_not_intro ((exists_receives_iff ht).1 ⟨q, hq, m, hm⟩)) hne)

end Attach

/-- **Equal descriptors that are given the same components stay equal**, if the tuple that receives them stands in one
place in each, and neither in the other nor in the components.  Both attachments come to what the tree says: both
succeed, and each descriptor is its old tree with the components at the slot; or both fail alike, and leave everything
as it was. -/
theorem attach_preserves_equality {s : Store} (hs : s.Closed) {a b : Ref} {t : Ty} (ha : s.view? a = some t)
    (hb : s.view? b = some t) {l : ListRef} {ps : Components} (hps : s.items? l = some ps) (hab : s.SlotApart a b ps)
    (hba : s.SlotApart b a ps) :
    let first := attach a l s
    let second := attach b l first.store
    first.outcome = t.verdict ps.length ∧ second.outcome = t.verdict ps.length ∧
      (t.verdict ps.length = .ok () → ∀ fs, s.viewFields? ps = some fs →
        second.store.view? a = some (t.given fs) ∧ second.store.view? b = some (t.given fs) ∧
        s.SlotReplaced second.store a ps ∧ s.SlotReplaced second.store b ps) ∧
      ∀ f, t.verdict ps.length = .error f → first.store = s ∧ second.store = s := by
  intro first second
  have hfirst : first.outcome = t.verdict ps.length := outcome_attach ha hps
  by_cases hkeep : (¬ ∃ gs, t.slot = .tuple gs) ∨ ps = []
  · have hfirst_store : first.store = s := store_attach_eq_self ha hps hkeep
    have hsecond : second = attach b l s := congrArg (attach b l) hfirst_store
    have hsecond_store : second.store = s := hsecond ▸ store_attach_eq_self hb hps hkeep
    refine ⟨hfirst, hsecond ▸ outcome_attach hb hps, fun hok fs _ => ?_, fun _ _ => ⟨hfirst_store, hsecond_store⟩⟩
    have hnone : ¬ ∃ gs, t.slot = .tuple gs := by
      rintro ⟨gs, hslot⟩
      rw [hkeep.resolve_left (not_not_intro ⟨gs, hslot⟩), Ty.verdict_tuple hslot] at hok
      cases hok
    have hreplaced : ∀ {r}, s.view? r = some t → s.SlotReplaced s r ps := fun hr q hq =>
      absurd ((exists_receives_iff hr).1 ⟨q, hq⟩) hnone
    rw [hsecond_store, Ty.given_of_slot_ne hnone]
    exact ⟨ha, hb, hreplaced ha, hreplaced hb⟩
  · obtain ⟨⟨gs, hslot⟩, hne⟩ := not_or.1 hkeep |>.imp_left not_not.1
    have hok : t.verdict ps.length = .ok () := by
      rw [Ty.verdict_tuple hslot, if_neg fun h => hne (List.length_eq_zero_iff.1 h)]
    have h₁ : s.Settles a ps first.store := settles_attach hs a hps hne
    have h₂ : first.store.Settles b ps second.store := settles_attach h₁.closed b (h₁.lists l ps hps) hne
    have hboth := h₁.both (lt_of_view? hb) h₂
    have hsecond : second.outcome = t.verdict ps.length :=
      (outcome_attach_of_moves (attach_moves hs a l) hs (lt_of_view? hb) hps (h₁.lists l ps hps) hne).trans
        (outcome_attach hb hps)
    obtain ⟨qa, hqa⟩ := (exists_receives_iff ha).2 ⟨gs, hslot⟩
    obtain ⟨qb, hqb⟩ := (exists_receives_iff hb).2 ⟨gs, hslot⟩
    refine ⟨hfirst, hsecond, fun _ fs hfs => ?_, fun f hf => nomatch hok.symm.trans hf⟩
    obtain ⟨hview_a, hreplaced_a⟩ := hboth.shows hs (hs.item hps) hab hba hqa ha hfs
    obtain ⟨hview_b, hreplaced_b⟩ := hboth.symm.shows hs (hs.item hps) hba hab hqb hb hfs
    exact ⟨hview_a, hview_b, hreplaced_a, hreplaced_b⟩

/-- Two arrays (5, 11) of maps, each map with a key tuple and a value tuple that look alike; the last list has a number
and the key tuple of the first map. -/
def twins : Store where
  nodes := #[.scalar (.plain .bool), .tuple 0, .scalar (.plain .bool), .tuple 1, .map 1 3, .array 4,
    .scalar (.plain .bool), .tuple 2, .scalar (.plain .bool), .tuple 3, .map 7 9, .array 10, .scalar (.sized .uint 8)]
  lists := #[[⟨"x", 0⟩], [⟨"x", 2⟩], [⟨"x", 6⟩], [⟨"x", 8⟩], [⟨"p", 12⟩, ⟨"q", 1⟩]]

/-- The two arrays are given the last list: both key tuples stay. -/
theorem attach_preserves_equality_twins :
    let key := Ty.tuple [⟨"x", .scalar (.plain .bool)⟩]
    let first := attach 5 4 twins
    let second := attach 11 4 first.store
    let after := Ty.array (.map key (.tuple [⟨"p", .scalar (.sized .uint 8)⟩, ⟨"q", key⟩]))
    twins.Closed ∧ twins.view? 5 = some (.array (.map key key)) ∧ twins.view? 11 = some (.array (.map key key)) ∧
      twins.SlotApart 5 11 [⟨"p", 12⟩, ⟨"q", 1⟩] ∧ twins.SlotApart 11 5 [⟨"p", 12⟩, ⟨"q", 1⟩] ∧
      first.outcome = .ok () ∧ second.outcome = .ok () ∧ second.store.view? 5 = some after ∧
      second.store.view? 11 = some after := by
  intro key first second after
  have hs : twins.Closed := by decide
  have hkey : twins.Planted 0 1 key := .tuple rfl (.cons (.scalar rfl) .nil)
  have ha : twins.Planted 0 5 (.array (.map key key)) :=
    .array rfl (.map rfl hkey (.tuple rfl (.cons (.scalar rfl) .nil)))
  have hb : twins.Planted 6 11 (.array (.map key key)) :=
    .array rfl (.map rfl (.tuple rfl (.cons (.scalar rfl) .nil)) (.tuple rfl (.cons (.scalar rfl) .nil)))
  have hnumber : twins.Planted 12 12 (.scalar (.sized .uint 8)) := .scalar rfl
  have hslot_a : twins.Receives 5 3 := ⟨(slot?_eq_some_iff.1 rfl).1, 1, rfl⟩
  have hslot_b : twins.Receives 11 9 := ⟨(slot?_eq_some_iff.1 rfl).1, 3, rfl⟩
  have hps : ∀ q, q = 3 ∨ q = 9 → ∀ c ∈ [⟨"p", 12⟩, ⟨"q", 1⟩], ¬ twins.IsAt (Field.kind c) q := fun q hq => by
    obtain ⟨hlo, hhi⟩ : 1 < q ∧ q < 12 := by rcases hq with rfl | rfl <;> decide
    have hnumber_off : ¬ twins.IsAt 12 q := fun hat => hnumber.not_outside hat (.inl hhi)
    have hkey_off : ¬ twins.IsAt 1 q := fun hat => hkey.not_outside hat (.inr hlo)
    exact List.forall_mem_cons.2 ⟨hnumber_off, List.forall_mem_singleton.2 hkey_off⟩
  have hab : twins.SlotApart 5 11 [⟨"p", 12⟩, ⟨"q", 1⟩] :=
    ha.slotApart hb (by decide) fun q hq => hps q (.inl (hq.eq hslot_a))
  have hba : twins.SlotApart 11 5 [⟨"p", 12⟩, ⟨"q", 1⟩] :=
    hb.slotApart ha (by decide) fun q hq => hps q (.inr (hq.eq hslot_b))
  obtain ⟨hfirst, hsecond, hok, -⟩ := attach_preserves_equality hs ha.view? hb.view? (l := 4) rfl hab hba
  obtain ⟨hview_a, hview_b, -, -⟩ := hok rfl _ rfl
  exact ⟨hs, ha.view?, hb.view?, hab, hba, hfirst, hsecond, hview_a, hview_b⟩

end Builder
end AbiTypes
