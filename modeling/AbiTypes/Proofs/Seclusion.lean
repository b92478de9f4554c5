import AbiTypes.Proofs.History
/-!
# Seclusion — a parsed descriptor and the register that leads to it

What is read from a text is a tree of its own, and the register it is put into is the only one that leads to it
(`Session.Secluded`).  That stays so as long as no recipe, no list and no `get` uses the register, for then nothing is
built on the tree and nothing else is pointed at it.  So components are given to a descriptor of the tree only through
the register, and then at its slot (`Session.Secluded.of_attaches`); what such components bring into the tree may be
changed through other registers, the tree itself may not.
-/
namespace AbiTypes

namespace Ty

/-- **A descriptor that was given components**: the tuple at its slot has them instead of its own. -/
def given (fs : List (Field Ty)) : Ty → Ty
  | .scalar c => .scalar c
  | .tuple _ => .tuple fs
  | .array e => .array (e.given fs)
  | .fixedArray e n => .fixedArray (e.given fs) n
  | .map k v => .map k (v.given fs)

end Ty

namespace Store

open Relation

/-! ## The way to the slot -/

/-- **The way to a tuple through elements and map values**, when the keys on the way do not lead to it. -/
inductive Stem (s : Store) (q : Ref) : Ref → Prop
  | slot {l : ListRef} (h : s.node? q = some (.tuple l)) : Stem s q q
  | array {r e : Ref} (h : s.node? r = some (.array e)) (he : Stem s q e) : Stem s q r
  | fixedArray {r e : Ref} {n : Nat} (h : s.node? r = some (.fixedArray e n)) (he : Stem s q e) : Stem s q r
  | map {r k v : Ref} (h : s.node? r = some (.map k v)) (hk : ¬ ReflTransGen s.Part k q) (hv : Stem s q v) : Stem s q r

theorem Stem.tuple {s : Store} {q r : Ref} (h : s.Stem q r) : ∃ l, s.node? q = some (.tuple l) := by
  induction h with
  | slot h => exact ⟨_, h⟩
  | array _ _ ih | fixedArray _ _ ih | map _ _ _ ih => exact ih

/-- **Components given at the slot show there**, and nowhere else on the way, if all else that the way passes is the
same. -/
theorem Stem.view?_of_same {s s' : Store} (hs : s.Closed) {q : Ref} {P : Ref → Prop}
    (hpart : ∀ {r c}, P r → s.Part r c → P c)
    (hsame : ∀ {r}, P r → r ≠ q → r < s.nodes.size ∧ s.SameAt s' r) {cs : Components} {fs : List (Field Ty)}
    (hcs : s'.components? q = some cs) (hfs : s'.viewFields? cs = some fs) {r : Ref} (h : s.Stem q r) (hr : P r) {u : Ty}
    (hu : s.view? r = some u) : s'.view? r = some (u.given fs) := by
  obtain ⟨l, hl⟩ := h.tuple
  have hnode : ∀ {r n}, P r → s.node? r = some n → ¬ n.IsTuple → s'.node? r = some n := fun {r n} hr hn ht => by
    refine (hsame hr ?_).2.node ht hn
    rintro rfl
    exact ht ⟨l, Option.some.inj (hn.symm.trans hl)⟩
  induction h generalizing u with
  | slot h =>
    obtain ⟨ds, hds⟩ := hs.exists_components? h
    rw [view?_eq, viewStep_tuple _ hds] at hu
    obtain ⟨gs, -, rfl⟩ := Option.map_eq_some_iff.1 hu
    exact view?_tuple hcs hfs
  | array h _ ih =>
    rw [view?_eq, viewStep_array _ h] at hu
    obtain ⟨e, he, rfl⟩ := Option.map_eq_some_iff.1 hu
    rw [view?_eq, viewStep_array _ (hnode hr h Node.not_isTuple_array), ih (hpart hr (.elem h)) he]
    rfl
  | fixedArray h _ ih =>
    rw [view?_eq, viewStep_fixedArray _ h] at hu
    obtain ⟨e, he, rfl⟩ := Option.map_eq_some_iff.1 hu
    rw [view?_eq, viewStep_fixedArray _ (hnode hr h Node.not_isTuple_fixedArray), ih (hpart hr (.fixedElem h)) he]
    rfl
  | map h hk _ ih =>
    rw [view?_eq, viewStep_map _ h] at hu
    obtain ⟨key, hkey, hu⟩ := Option.bind_eq_some_iff.1 hu
    obtain ⟨value, hvalue, rfl⟩ := Option.map_eq_some_iff.1 hu
    have hkey' := view?_congr hs (P := fun x => P x ∧ ¬ ReflTransGen s.Part x q)
      (fun hx hc => ⟨hpart hx.1 hc, fun hq => hx.2 (.head hc hq)⟩)
      (fun hx => hsame hx.1 fun heq => hx.2 (heq ▸ .refl)) ⟨hpart hr (.key h), hk⟩
    rw [view?_eq, viewStep_map _ (hnode hr h Node.not_isTuple_map), ih (hpart hr (.value h)) hvalue, hkey', hkey]
    rfl

theorem Stem.view?_giveTuple {s : Store} (hs : s.Closed) {q : Ref} {cs : Components} {fs : List (Field Ty)}
    (hfs : (s.giveTuple q cs).viewFields? cs = some fs) {r : Ref} (h : s.Stem q r) {u : Ty}
    (hu : s.view? r = some u) : (s.giveTuple q cs).view? r = some (u.given fs) := by
  obtain ⟨l, hl⟩ := h.tuple
  exact h.view?_of_same hs (P := fun r => r < s.nodes.size) (fun _ => hs.part)
    (fun hr hne => ⟨hr, sameAt_giveTuple hs cs hne⟩) (components?_giveTuple_self (lt_of_node? hl)) hfs
    (lt_of_view? hu) hu

theorem slot?_of_forwards {s : Store} {r c : Ref} (h : s.Forwards r c) : s.slot? r = s.slot? c := by
  rw [slot?_eq, slotStep_of_forwards _ h]

theorem slot?_scalar {s : Store} {r : Ref} {c : Scalar} (h : s.node? r = some (.scalar c)) : s.slot? r = some r := by
  rw [slot?_eq, slotStep, h]

theorem slot?_tuple {s : Store} {r : Ref} {l : ListRef} (h : s.node? r = some (.tuple l)) : s.slot? r = some r := by
  rw [slot?_eq, slotStep, h]

theorem Planted.reach_mem {s : Store} {lo r x q : Ref} {t : Ty} (h : s.Planted lo r t) (hlo : lo ≤ x) (hx : x ≤ r)
    (hq : ReflTransGen s.Part x q) : lo ≤ q ∧ q ≤ x := by
  induction hq with
  | refl => exact ⟨hlo, Nat.le_refl _⟩
  | tail _ hc ih =>
    obtain ⟨hloc, hc⟩ := h.part ih.1 (ih.2.trans hx) hc
    exact ⟨hloc, hc.le.trans ih.2⟩

theorem reflTransGen_part_of_forwards {s : Store} {r q : Ref} (h : ReflTransGen s.Forwards r q) :
    ReflTransGen s.Part r q :=
  ReflTransGen.mono (fun _ _ => Forwards.part) _ _ h

/-- **The slot of a planted tree stays at the end of its way**, as long as all else of the tree stays: the keys have
stretches of their own. -/
theorem Planted.stem {s s' : Store} {q : Ref} {l l' : ListRef} (hl : s.node? q = some (.tuple l))
    (hl' : s'.node? q = some (.tuple l')) : ∀ {lo r : Ref} {t : Ty}, s.Planted lo r t → s.slot? r = some q →
    (∀ x, lo ≤ x → x ≤ r → x ≠ q → s.SameAt s' x) → s'.Stem q r
  | _, r, _, .scalar h, hq, _ => by
    cases (slot?_scalar h).symm.trans hq
    cases hl.symm.trans h
  | _, r, _, .tuple h _, hq, _ => by
    obtain ⟨m, hm, -⟩ := components?_eq_some_iff.1 h
    cases (slot?_tuple hm).symm.trans hq
    exact .slot hl'
  | _, _, _, .array h he, hq, hsame => by
    have hne : _ + 1 ≠ q := fun heq => by cases hl.symm.trans (heq ▸ h)
    exact .array ((hsame _ (Nat.le_succ_of_le he.le) (Nat.le_refl _) hne).node Node.not_isTuple_array h)
      (he.stem hl hl' (slot?_of_forwards (.elem h) ▸ hq) fun x hlo hx => hsame x hlo (Nat.le_succ_of_le hx))
  | _, _, _, .fixedArray h he, hq, hsame => by
    have hne : _ + 1 ≠ q := fun heq => by cases hl.symm.trans (heq ▸ h)
    exact .fixedArray ((hsame _ (Nat.le_succ_of_le he.le) (Nat.le_refl _) hne).node Node.not_isTuple_fixedArray h)
      (he.stem hl hl' (slot?_of_forwards (.fixedElem h) ▸ hq) fun x hlo hx => hsame x hlo (Nat.le_succ_of_le hx))
  | _, _, _, .map (k := k) (v := v) h hk hv, hq, hsame => by
    have hkv := Nat.le_of_succ_le hv.le
    have hne : v + 1 ≠ q := fun heq => by cases hl.symm.trans (heq ▸ h)
    have hqv : s.slot? v = some q := slot?_of_forwards (.value h) ▸ hq
    have hkq : k < q := (hv.reach_mem hv.le (Nat.le_refl v)
      (reflTransGen_part_of_forwards (slot?_eq_some_iff.1 hqv).1.reached)).1
    have hnode := (hsame _ (Nat.le_succ_of_le (hk.le.trans hkv)) (Nat.le_refl _) hne).node Node.not_isTuple_map h
    refine .map hnode (fun hreach => ?_)
      (hv.stem hl hl' hqv fun x hlo hx => hsame x (hk.le.trans (Nat.le_of_succ_le hlo)) (Nat.le_succ_of_le hx))
    have hk' : s'.Planted _ _ _ := hk.stay fun x hlo hx =>
      hsame x hlo (Nat.le_succ_of_le (hx.trans hkv)) (Nat.lt_of_le_of_lt hx hkq).ne
    exact absurd (hk'.reach_mem hk.le (Nat.le_refl k) hreach).2 (Nat.not_le_of_lt hkq)

theorem Builds.part_closed {K : Ref → Prop} {s s' : Store} (h : s.Builds K s')
    (hpart : ∀ {r c}, K r → s.Part r c → K c) {r c : Ref} (hr : K r) (hc : s'.Part r c) : K c := by
  by_cases hlt : r < s.nodes.size
  · exact hpart hr ((h.part_iff hlt).1 hc)
  · exact (h.part (Nat.not_lt.1 hlt) hc).2

/-- A descriptor is not in a stretch of the store. -/
def Outside (lo r x : Ref) : Prop := x < lo ∨ r < x

/-- A descriptor is at a position of another. -/
def IsAt (s : Store) (r q : Ref) : Prop := ∃ path, s.follow? r path = some q

/-- **The way that components take** is a path of elements and map values. -/
theorem exists_path_of_forwards {s : Store} {r q : Ref} (h : ReflTransGen s.Forwards r q) :
    ∃ path, s.follow? r path = some q ∧ ∀ turn ∈ path, turn = .elem ∨ turn = .value := by
  induction h using ReflTransGen.head_induction_on with
  | refl => exact ⟨[], rfl, nofun⟩
  | @head r c hc _ ih =>
    obtain ⟨path, hpath, hturns⟩ := ih
    have hturn : ∃ turn, s.part? r turn = some c ∧ (turn = .elem ∨ turn = .value) := by
      cases hc with
      | elem h => exact ⟨.elem, (part?_array h).2 ⟨rfl, rfl⟩, .inl rfl⟩
      | fixedElem h => exact ⟨.elem, (part?_fixedArray h).2 ⟨rfl, rfl⟩, .inl rfl⟩
      | value h => exact ⟨.value, (part?_map h).2 (.inr ⟨rfl, rfl⟩), .inr rfl⟩
    obtain ⟨turn, hturn, hforward⟩ := hturn
    exact ⟨turn :: path, by rw [follow?, hturn, Option.bind_some, hpath], List.forall_mem_cons.2 ⟨hforward, hturns⟩⟩

theorem isAt_of_forwards {s : Store} {r q : Ref} (h : ReflTransGen s.Forwards r q) : s.IsAt r q :=
  (exists_path_of_forwards h).imp fun _ => And.left

theorem Planted.not_outside {s : Store} {lo r q : Ref} {t : Ty} (hp : s.Planted lo r t) (hq : s.IsAt r q) :
    ¬ Outside lo r q := by
  obtain ⟨path, hq⟩ := hq
  have hmem := hp.follow?_mem hq
  exact fun h => h.elim (Nat.not_lt_of_le hmem.1) (Nat.not_lt_of_le hmem.2)

end Store

open Store Relation

/-- **A value leads to a descriptor.** -/
inductive Value.Leads (s : Store) : Value → Ref → Prop
  | type {t q : Ref} (h : ReflTransGen s.Part t q) : Leads s (.type t) q
  | list {l : ListRef} {cs : Components} {c : Field Ref} {q : Ref} (hcs : s.items? l = some cs) (hc : c ∈ cs)
    (h : ReflTransGen s.Part c.kind q) : Leads s (.list l) q

namespace Session

open Builder

/-! ## What a step leaves -/

theorem registers_after_supply [Reader.Stack] {s : Session} {st : Step} {reg : String} {fields : ListRecipe}
    {way : Ref → ListRef → Builder Unit} (hst : st.Supplies reg fields way) : (s.after st).registers = s.registers := by
  unfold Session.after
  cases hout : (s.step st).outcome with
  | error e => rfl
  | ok p =>
    obtain ⟨_, _, -, -, -, hregs, -⟩ := of_supplies_ok hst hout
    exact hregs

/-- **A descriptor looks different after a step only if it leads to a tuple that components were attached to.** -/
theorem Sound.exists_attaches_of_view?_ne [Reader.Stack] {s : Session} (hs : s.Sound) {st : Step} {r : Ref}
    (hr : r < s.store.nodes.size) (h : (s.after st).store.view? r ≠ s.store.view? r) :
    ∃ q cs, s.Attaches st q cs ∧ ReflTransGen s.store.Part r q := by
  by_contra hnone
  refine h (view?_congr hs.closed (P := fun x => x < s.store.nodes.size ∧ ReflTransGen s.store.Part r x)
    (fun hx hc => ⟨hs.closed.part hc, hx.2.tail hc⟩) (fun hx => ⟨hx.1, hs.sameAt_after hx.1 fun cs hatt => ?_⟩)
    ⟨hr, .refl⟩)
  exact hnone ⟨_, cs, hatt, hx.2⟩

theorem Attaches.isSlot [Reader.Stack] {s : Session} {st : Step} {reg : String} {fields : ListRecipe}
    {way : Ref → ListRef → Builder Unit} {r q : Ref} {cs : Components} (h : s.Attaches st q cs)
    (hst : st.Supplies reg fields way) (hr : s.registers.type reg = .ok r) :
    (fields.build s.registers s.store).store.IsSlot r q ∧
      ∃ m, (fields.build s.registers s.store).store.node? q = some (.tuple m) := by
  obtain ⟨_, m, ht, hq, hm⟩ := h.exists_isSlot hst
  cases hr.symm.trans ht
  exact ⟨hq, m, hm⟩

/-! ## Seclusion -/

/-- **One register leads into a stretch of the store, and nothing else does**: neither a descriptor outside, nor what any
other register holds, nor anything that the register might come to hold instead. -/
structure Secluded (s : Session) (reg : String) (v : Value) (lo r : Ref) : Prop where
  sound : s.Sound
  lt : r < s.store.nodes.size
  part : ∀ {x c}, Outside lo r x → s.store.Part x c → Outside lo r c
  among : s.registers.Among (Outside lo r) (· = (reg, v)) s.store

section Secluded

variable {s : Session} {reg : String} {v : Value} {lo r : Ref}

theorem ne_entry {names : List String} (h : reg ∉ names) : ∀ name ∈ names, ∀ w, ¬ (name, w) = (reg, v) :=
  fun _ hname _ heq => h ((Prod.mk.inj heq).1 ▸ hname)

theorem Secluded.admits (h : s.Secluded reg v lo r) : s.store.Admits (Outside lo r) := fun _ hx =>
  .inr (h.lt.trans_le hx)

theorem Secluded.outside_of_reaches (h : s.Secluded reg v lo r) {x q : Ref} (hx : Outside lo r x)
    (hq : ReflTransGen s.store.Part x q) : Outside lo r q := by
  induction hq with
  | refl => exact hx
  | tail _ hc ih => exact h.part ih hc

theorem Secluded.not_leads (h : s.Secluded reg v lo r) {p : String × Value} (hp : p ∈ s.registers) (hreg : p.1 ≠ reg)
    {q : Ref} (hq : ¬ Outside lo r q) : ¬ p.2.Leads s.store q := by
  have hamong := h.among p hp fun heq => hreg (congrArg Prod.fst heq)
  intro hleads
  generalize p.2 = w at hamong hleads
  cases hleads with
  | type hreach => exact hq (h.outside_of_reaches hamong.2 hreach)
  | list hcs hc hreach =>
    obtain ⟨ds, hds, hkinds⟩ := hamong
    cases hds.symm.trans hcs
    exact hq (h.outside_of_reaches (hkinds _ hc).2 hreach)

/-- What another register holds looks the same once a tuple of the stretch was given components. -/
theorem Secluded.viewValue?_eq (h : s.Secluded reg v lo r) {s' : Store}
    (hsame : ∀ x < s.store.nodes.size, Outside lo r x → s.store.SameAt s' x) (hlists : s.store.KeepsLists s')
    {p : String × Value} (hp : p ∈ s.registers) (hreg : p.1 ≠ reg) :
    s'.viewValue? p.2 = s.store.viewValue? p.2 := by
  have hview : ∀ {x}, s.store.Has (Outside lo r) x → s'.view? x = s.store.view? x := fun hx =>
    view?_congr h.sound.closed (P := s.store.Has (Outside lo r)) (fun hx hc => ⟨h.sound.closed.part hc, h.part hx.2 hc⟩)
      (fun hx => ⟨hx.1, hsame _ hx.1 hx.2⟩) hx
  have hamong := h.among p hp fun heq => hreg (congrArg Prod.fst heq)
  generalize p.2 = w at hamong ⊢
  cases w with
  | type t => rw [viewValue?, viewValue?, hview hamong]
  | list l =>
    obtain ⟨cs, hcs, hkinds⟩ := hamong
    have hfields : s'.viewFields? cs = s.store.viewFields? cs := fieldsWith_congr fun c hc => hview (hkinds c hc)
    rw [viewValue?, viewValue?, hcs, hlists l cs hcs, Option.bind_eq_bind, Option.bind_some, hfields]
    rfl

/-- What stands at the end of the store, with one register for it, is secluded there. -/
theorem Sound.secluded {s₁ : Session} (hs : s.Sound) (hs₁ : s₁.Sound) (hext : s.store.Extends s₁.store)
    (hlo : s.store.nodes.size ≤ r) (hsize : s₁.store.nodes.size = r + 1)
    (hregs : s₁.registers = s.registers.put reg v) : s₁.Secluded reg v s.store.nodes.size r where
  sound := hs₁
  lt := hsize ▸ Nat.lt_succ_self r
  part {x c} hx hc := by
    have hxr : x < r + 1 := hsize ▸ hc.lt
    have hold := hx.resolve_right (Nat.not_lt_of_le (Nat.le_of_lt_succ hxr))
    obtain ⟨n, hn⟩ := exists_node? hold
    exact .inl (hs.closed.part (.of_same (hn.trans (hext.node hn).symm) (hext.components?_eq hs.closed hold).symm hc))
  among p hp hne := by
    rw [hregs] at hp
    have hfits := hs.fit p (List.mem_filter.1 ((List.mem_cons.1 hp).resolve_left hne)).1
    have hle : s.store.nodes.size ≤ s₁.store.nodes.size := hsize ▸ Nat.le_succ_of_le hlo
    generalize p.2 = w at hfits
    cases w with
    | type u => exact ⟨Nat.lt_of_lt_of_le hfits hle, .inl hfits⟩
    | list l =>
      obtain ⟨cs, hcs⟩ := exists_items? hfits.1
      refine ⟨cs, hext.items hcs, fun c hc => ?_⟩
      have hlt := hs.closed.item hcs c hc
      exact ⟨Nat.lt_of_lt_of_le hlt hle, .inl hlt⟩

variable [Reader.Stack]

theorem Secluded.stays_listRecipe (h : s.Secluded reg v lo r) {fields : ListRecipe} (hn : reg ∉ fields.names) :
    Stays True (Outside lo r) (fields.build s.registers) s.store fun l s' => s'.Holds (Outside lo r) l :=
  Builder.stays_listRecipe fields h.sound.closed h.admits h.among (ne_entry hn)

theorem Secluded.after_supply (h : s.Secluded reg v lo r) {st : Step} {reg' : String} {fields : ListRecipe}
    {way : Ref → ListRef → Builder Unit} (hst : st.Supplies reg' fields way) (hn : reg ∉ st.names) :
    (s.after st).Secluded reg v lo r := by
  have hsize := (h.sound.moves st).size_nodes_le
  have hstays := h.stays_listRecipe (hst.names_eq ▸ hn)
  have hlists := hstays.lists trivial
  have hpart : ∀ {x c}, Outside lo r x → (fields.build s.registers s.store).store.Part x c → Outside lo r c :=
    fun hx hc => hstays.builds.part_closed h.part hx hc
  refine ⟨h.sound.after _, h.lt.trans_le hsize, ?_, ?_⟩
  · intro x c hx hc
    change (st.act s.registers s.store).store.Part x c at hc
    obtain (hsame | hsame) | ⟨t, l, q, m, cs, -, hl, -, hm, hcs, hgiven⟩ := hst.store_act s.registers s.store
    · exact h.part hx (hsame ▸ hc)
    · exact hpart hx (hsame ▸ hc)
    · rw [hgiven] at hc
      by_cases hxq : x = q
      · subst hxq
        obtain ⟨f, hf, rfl⟩ := part_giveTuple_self (lt_of_node? hm) hc
        obtain ⟨ds, hds, hkinds⟩ := hstays.result l hl
        cases hcs.symm.trans hds
        exact (hkinds f hf).2
      · exact hpart hx (part_of_giveTuple_of_ne hstays.builds.closed hxq hc)
  · rw [registers_after_supply hst]
    refine h.among.grow hsize fun l cs hl => ?_
    change (st.act s.registers s.store).store.items? l = some cs
    obtain (hsame | hsame) | ⟨_, _, q, _, ds, -, -, -, -, -, hgiven⟩ := hst.store_act s.registers s.store
    · rw [hsame, hl]
    · rw [hsame, hlists l cs hl]
    · rw [hgiven, items?_giveTuple_of_lt (lt_of_items? (hlists l cs hl)), hlists l cs hl]

theorem Secluded.after_of_not_supplies (h : s.Secluded reg v lo r) {st : Step}
    (hst : ∀ reg' fields way, ¬ st.Supplies reg' fields way) (hn : reg ∉ st.names) :
    (s.after st).Secluded reg v lo r := by
  have hsize := (h.sound.moves st).size_nodes_le
  have hstays := st.stays h.sound.closed h.sound.fit h.admits h.part h.among hst (ne_entry hn)
  refine ⟨h.sound.after st, h.lt.trans_le hsize, fun hx hc => hstays.builds.part_closed h.part hx hc, ?_⟩
  cases hout : (s.step st).outcome with
  | ok p =>
    rw [after_of_ok hout]
    exact hstays.result p hout
  | error e =>
    obtain ⟨hext, hregs⟩ := h.sound.idle (.inr ⟨e, hout⟩)
    rw [hregs]
    exact h.among.grow hsize fun l cs => hext.items

/-- **A step that does not hand on what the register holds leaves it secluded.** -/
theorem Secluded.after (h : s.Secluded reg v lo r) {st : Step} (hn : reg ∉ st.names) :
    (s.after st).Secluded reg v lo r := by
  by_cases hst : ∃ reg' fields way, st.Supplies reg' fields way
  · obtain ⟨_, _, _, hst⟩ := hst
    exact h.after_supply hst hn
  · exact h.after_of_not_supplies (fun _ _ _ h => hst ⟨_, _, _, h⟩) hn

theorem Secluded.afterAll : ∀ (steps : List Step) {s : Session}, s.Secluded reg v lo r →
    (∀ st ∈ steps, reg ∉ st.names) → (s.afterAll steps).Secluded reg v lo r
  | [], _, h, _ => h
  | st :: rest, _, h, hn => by
    obtain ⟨hst, hrest⟩ := List.forall_mem_cons.1 hn
    exact Secluded.afterAll rest (h.after hst) hrest

/-- **Components are given inside the stretch through the register only**, as it was set. -/
theorem Secluded.of_attaches (h : s.Secluded reg v lo r) {st : Step} (hn : reg ∉ st.names) {x : Ref} {cs : Components}
    (hx : ¬ Outside lo r x) (hatt : s.Attaches st x cs) :
    ∃ fields way t, st.Supplies reg fields way ∧ s.registers.type reg = .ok t ∧ v = .type t ∧
      (fields.build s.registers s.store).store.IsSlot t x := by
  cases hatt with
  | @intro reg' fields way t _ _ _ _ hst _ ht _ hr _ _ =>
    by_cases hv : (reg', Value.type t) = (reg, v)
    · cases hv
      exact ⟨fields, way, t, hst, ht, rfl, hr⟩
    · have hstays := h.stays_listRecipe (hst.names_eq ▸ hn)
      have hout : ∀ {y}, ReflTransGen (fields.build s.registers s.store).store.Part t y → Outside lo r y := fun hy => by
        induction hy with
        | refl => exact (h.among.type hv ht).2
        | tail _ hc ih => exact hstays.builds.part_closed h.part ih hc
      exact absurd (hout (reflTransGen_part_of_forwards hr.reached)) hx

end Secluded

/-! ## Parsed descriptors -/

/-- A step attaches to a descriptor through its register, or assigns to a part of it. -/
def Targets (s : Session) (reg : String) (r : Ref) (st : Step) : Prop :=
  (∃ fields way, st.Supplies reg fields way) ∧ s.registers.type reg = .ok r

/-- **A descriptor that one register leads to is kept apart**, after further steps.  No other register leads into it as it
was.  A step that does not attach to it through its register attaches to nothing of it; the descriptor looks different
after such a step only if it leads to a tuple that is not of it, which was given to it in between.  An attachment through
its register gives components to its slot, at one position of it: the rest of it stays, the components show there, and
what other registers hold looks as before. -/
structure KeptApart [Reader.Stack] (s₁ s₂ : Session) (reg : String) (r : Ref) : Prop where
  registers : ∀ p ∈ s₂.registers, p.1 ≠ reg → ∀ q, s₁.store.IsAt r q → ¬ p.2.Leads s₂.store q
  others : ∀ st : Step, reg ∉ st.names → ¬ s₂.Targets reg r st →
    (∀ q cs, s₁.store.IsAt r q → ¬ s₂.Attaches st q cs) ∧
    ((s₂.after st).store.view? r ≠ s₂.store.view? r →
      ∃ q cs, s₂.Attaches st q cs ∧ ReflTransGen s₂.store.Part r q ∧ ¬ s₁.store.IsAt r q)
  own : ∀ st : Step, s₂.Targets reg r st → ∀ q cs, s₂.Attaches st q cs →
    let s₃ := s₂.after st
    s₁.store.IsAt r q ∧ s₁.store.IsSlot r q ∧ (∀ x, s₁.store.IsAt r x → x ≠ q → s₂.store.SameAt s₃.store x) ∧
    (∀ u fs, s₂.store.view? r = some u → s₃.store.viewFields? cs = some fs → s₃.store.view? r = some (u.given fs)) ∧
    ∀ p ∈ s₂.registers, p.1 ≠ reg → s₃.store.viewValue? p.2 = s₂.store.viewValue? p.2

section Parsed

variable [Reader.Stack] {s : Session} {reg : String} {v : Value} {lo r : Ref} {t : Ty}

/-- **Whenever components are given inside the stretch, it is at the slot.** -/
theorem Secluded.isSlot_of_attaches (h : s.Secluded reg v lo r) (hv : ∀ u, v = .type u → u = r) {earlier : List Step}
    (hn : ∀ st ∈ earlier, reg ∉ st.names) {st : Step} (hst : reg ∉ st.names) {x : Ref} {cs : Components}
    (hx : ¬ Outside lo r x) (hatt : (s.afterAll earlier).Attaches st x cs) :
    (s.afterAll earlier).Targets reg r st ∧ s.store.IsSlot r x := by
  have hlater := h.afterAll earlier hn
  obtain ⟨fields, way, u, hsup, hu, hvu, hslot⟩ := hlater.of_attaches hst hx hatt
  obtain rfl := hv u hvu
  have hbuild := (makes_listRecipe fields hlater.sound.closed hlater.sound.fit).moves
  refine ⟨⟨⟨fields, way, hsup⟩, hu⟩, ?_⟩
  exact (((h.sound.moves_afterAll earlier).trans hbuild).isSlot_iff h.sound.closed h.lt).1 hslot

theorem Secluded.sameAt (h : s.Secluded reg v lo r) (hv : ∀ u, v = .type u → u = r) {later : List Step}
    (hn : ∀ st ∈ later, reg ∉ st.names) {x : Ref} (hlo : lo ≤ x) (hx : x ≤ r)
    (hnot : s.store.IsSlot r x → ∀ earlier st after, later = earlier ++ st :: after →
      ¬ (s.afterAll earlier).Targets reg r st) : s.store.SameAt (s.afterAll later).store x := by
  refine h.sound.sameAt_afterAll later (Nat.lt_of_le_of_lt hx h.lt) fun earlier st after hlater cs hatt => ?_
  have hmem : ∀ st' ∈ earlier ++ [st], st' ∈ later := fun st' hst' =>
    hlater ▸ List.append_cons earlier st after ▸ List.mem_append_left _ hst'
  obtain ⟨htargets, hslot⟩ := h.isSlot_of_attaches hv
    (fun st' hst' => hn st' (hmem st' (List.mem_append_left _ hst')))
    (hn st (hmem st (List.mem_append_right _ List.mem_cons_self)))
    (fun hout => hout.elim (Nat.not_lt_of_le hlo) (Nat.not_lt_of_le hx)) hatt
  exact hnot hslot earlier st after hlater htargets

/-- **Left alone, a planted tree looks like itself.** -/
theorem Secluded.view?_afterAll (h : s.Secluded reg v lo r) (hp : s.store.Planted lo r t)
    (hv : ∀ u, v = .type u → u = r) {later : List Step} (hn : ∀ st ∈ later, reg ∉ st.names)
    (hnot : ∀ earlier st after, later = earlier ++ st :: after → ¬ (s.afterAll earlier).Targets reg r st) :
    (s.afterAll later).store.view? r = some t :=
  (hp.stay fun _ hlo hx => h.sameAt hv hn hlo hx fun _ => hnot).view?

/-- **An attachment through the register gives components to the slot** of the tree, and leaves the rest of it. -/
theorem Secluded.own (h : s.Secluded reg v lo r) (hp : s.store.Planted lo r t) (hv : ∀ u, v = .type u → u = r)
    {later : List Step} (hn : ∀ st ∈ later, reg ∉ st.names) {st : Step}
    (htargets : (s.afterAll later).Targets reg r st) {q : Ref} {cs : Components}
    (hatt : (s.afterAll later).Attaches st q cs) :
    let s₂ := s.afterAll later
    let s₃ := s₂.after st
    s.store.IsSlot r q ∧ (∀ x, s.store.IsAt r x → x ≠ q → s₂.store.SameAt s₃.store x) ∧
    (∀ u fs, s₂.store.view? r = some u → s₃.store.viewFields? cs = some fs → s₃.store.view? r = some (u.given fs)) ∧
    ∀ p ∈ s₂.registers, p.1 ≠ reg → s₃.store.viewValue? p.2 = s₂.store.viewValue? p.2 := by
  intro s₂ s₃
  obtain ⟨⟨fields, way, hst⟩, hr⟩ := htargets
  have h₂ : s₂.Secluded reg v lo r := h.afterAll later hn
  have hbuild := makes_listRecipe fields h₂.sound.closed h₂.sound.fit
  have hclosed := hbuild.moves.closed h₂.sound.closed
  have hext := hbuild.keeps (.inl trivial)
  have hmoves := (h.sound.moves_afterAll later).trans hbuild.moves
  have hstore := h₂.sound.store_eq_of_attaches hatt hst
  -- the slot of the tree is what it was when the tree was planted
  obtain ⟨hq, m, hm⟩ := hatt.isSlot hst hr
  have hq₁ : s.store.IsSlot r q := (hmoves.isSlot_iff h.sound.closed h.lt).1 hq
  have hqlt : q < s.store.nodes.size := hq₁.lt h.sound.closed h.lt
  have hqin : ¬ Outside lo r q := hp.not_outside (isAt_of_forwards hq₁.reached)
  obtain ⟨l, hl⟩ := hmoves.exists_tuple hqlt hm
  have hsame : ∀ x, lo ≤ x → x ≤ r → x ≠ q →
      s.store.SameAt (fields.build s₂.registers s₂.store).store x := fun x hlo hx hxq =>
    (h.sameAt hv hn hlo hx fun hxs => absurd
      (hxs.eq hq₁ (Nat.lt_of_le_of_lt hx h.lt) hqlt) hxq).trans (hext.sameAt x)
  refine ⟨hq₁, fun x hx hxq => ?_, fun u fs hu hfs => ?_, fun p hp' hreg => ?_⟩
  · have hxlt : x < s₂.store.nodes.size := by
      obtain ⟨path, hx⟩ := hx
      exact Nat.lt_of_le_of_lt (hp.follow?_mem hx).2 h₂.lt
    refine h₂.sound.sameAt_after hxlt fun ds hatt' => hxq ?_
    obtain ⟨hx', m', hm'⟩ := hatt'.isSlot hst hr
    exact hx'.eq hq (lt_of_node? hm') (lt_of_node? hm)
  · have hstem := hp.stem hl hm (slot?_eq_some_iff.2 ⟨hq₁, hqlt⟩) hsame
    have hview : (fields.build s₂.registers s₂.store).store.view? r = s₂.store.view? r :=
      view?_congr h₂.sound.closed (P := (· < s₂.store.nodes.size)) (fun _ hc => h₂.sound.closed.part hc)
        (fun hx => ⟨hx, hext.sameAt _⟩) h₂.lt
    rw [hstore] at hfs ⊢
    exact hstem.view?_giveTuple hclosed hfs (hview.trans hu)
  · refine h₂.viewValue?_eq (fun x hx hout => ?_) (fun l cs hcs => ?_) hp' hreg <;> rw [hstore]
    · refine (hext.sameAt x).trans (sameAt_giveTuple hclosed _ ?_)
      rintro rfl
      exact hqin hout
    · rw [items?_giveTuple_of_lt (lt_of_items? (hext.items hcs)), hext.items hcs]

theorem Secluded.keptApart (h : s.Secluded reg v lo r) (hp : s.store.Planted lo r t) (hv : ∀ u, v = .type u → u = r)
    {later : List Step} (hn : ∀ st ∈ later, reg ∉ st.names) : s.KeptApart (s.afterAll later) reg r where
  registers _ hp' hreg _ hq := (h.afterAll later hn).not_leads hp' hreg (hp.not_outside hq)
  others st hst htargets := by
    have hnot : ∀ q cs, s.store.IsAt r q → ¬ (s.afterAll later).Attaches st q cs := fun q cs hq hatt => by
      exact htargets (h.isSlot_of_attaches hv hn hst (hp.not_outside hq) hatt).1
    refine ⟨hnot, fun hview => ?_⟩
    have hlater := h.afterAll later hn
    obtain ⟨q, cs, hatt, hreach⟩ := hlater.sound.exists_attaches_of_view?_ne hlater.lt hview
    exact ⟨q, cs, hatt, hreach, fun hq => hnot q cs hq hatt⟩
  own _ htargets _ _ hatt := by
    have hown := h.own hp hv hn htargets hatt
    exact ⟨isAt_of_forwards hown.1.reached, hown⟩

end Parsed

/-! ## Reading into a register -/

section Text

variable [Reader.Stack] {s : Session} {reg : String} {v : Value} {r : Ref} {t : Ty}

theorem gives_text {s : Store} (hs : s.Closed) {text : String} (h : (Ty.read text).outcome = .ok t) (rs : Registers) :
    Gives ((Recipe.text text).build rs) s fun r s' => s'.nodes.size = r + 1 ∧ s'.Planted s.nodes.size r t := by
  rw [Recipe.build]
  refine Gives.bind (P := fun u s' => u = t ∧ s' = s) ⟨t, h, rfl, rfl⟩ ?_
  rintro _ ⟨rfl, -⟩
  exact gives_install _ hs

theorem gives_paramText {s : Store} (hs : s.Closed) {text : String} {f : Field Ty} (h : (Field.read text).outcome = .ok f)
    (rs : Registers) : Gives ((FieldRecipe.text text).build rs) s fun c s' =>
      c.name = f.name ∧ s'.nodes.size = c.kind + 1 ∧ s'.Planted s.nodes.size c.kind f.kind := by
  rw [FieldRecipe.build]
  refine Gives.bind (P := fun g s' => g = f ∧ s' = s) ⟨f, h, rfl, rfl⟩ ?_
  rintro _ ⟨rfl, -⟩
  exact (gives_install _ hs).bind fun r hr => gives_pure ⟨rfl, hr⟩

/-- **A descriptor was read into a register.**  No position of it is shared with what there was before, or with another
position of it.  It is kept apart as long as no recipe, no list and no `get` uses the register, and looks as it was read
as long as nothing is attached to it through the register. -/
structure ReadApart (s s₁ : Session) (reg : String) (v : Value) (r : Ref) (t : Ty) : Prop where
  registers : s₁.registers = s.registers.put reg v
  unshared : s.store.Unshared s₁.store r t
  kept : ∀ later, (∀ st ∈ later, reg ∉ st.names) → s₁.KeptApart (s₁.afterAll later) reg r ∧
    ((∀ earlier st after, later = earlier ++ st :: after → ¬ (s₁.afterAll earlier).Targets reg r st) →
      (s₁.afterAll later).store.view? r = some t)

theorem Sound.readApart (hs : s.Sound) {st : Step} (hst : ¬ st.Changes)
    (hregs : (s.after st).registers = s.registers.put reg v) (hsize : (s.after st).store.nodes.size = r + 1)
    (hp : (s.after st).store.Planted s.store.nodes.size r t) (hv : ∀ u, v = .type u → u = r) :
    s.ReadApart (s.after st) reg v r t := by
  have hext : s.store.Extends (s.after st).store := (st.does hs.closed hs.fit).keeps (.inl hst)
  have hsecluded := hs.secluded (hs.after st) hext hp.le hsize hregs
  refine ⟨hregs, hp.unshared hs.closed hext, fun later hn => ⟨hsecluded.keptApart hp hv hn, fun hnot => ?_⟩⟩
  exact hsecluded.view?_afterAll hp hv hn hnot

theorem Sound.readApart_new (hs : s.Sound) (reg : String) {text : String} (h : (Ty.read text).outcome = .ok t) :
    ∃ r, s.ReadApart (s.after (.new reg (.text text))) reg (.type r) r t := by
  obtain ⟨r, hr, hsize, hp⟩ := gives_text hs.closed h s.registers
  have hout : (s.step (.new reg (.text text))).outcome = .ok (.done, s.registers.put reg (.type r)) :=
    outcome_bind_of_ok hr
  have hstore : (s.after (.new reg (.text text))).store = ((Recipe.text text).build s.registers s.store).store :=
    store_bind_of_ok hr
  exact ⟨r, hs.readApart not_false (after_of_ok hout) (hstore ▸ hsize) (hstore ▸ hp) fun u hu => (Value.type.inj hu).symm⟩

/-- Reading a parameter puts a list of it into the register. -/
theorem gives_listStep {s : Store} (hs : s.Closed) {text : String} {f : Field Ty} (h : (Field.read text).outcome = .ok f)
    (rs : Registers) (reg : String) :
    Gives ((Step.list reg (.items [.text text])).act rs) s fun p s' => ∃ l r, p = (.done, rs.put reg (.list l)) ∧
      s'.items? l = some [⟨f.name, r⟩] ∧ s'.nodes.size = r + 1 ∧ s'.Planted s.nodes.size r f.kind := by
  have hfield : Gives (ListRecipe.buildItems rs [.text text]) s fun cs s' => ∃ r, cs = [⟨f.name, r⟩] ∧
      s'.nodes.size = r + 1 ∧ s'.Planted s.nodes.size r f.kind := by
    rw [ListRecipe.buildItems]
    refine (gives_paramText hs h rs).bind fun c hc => ?_
    have hnone : ∀ s', Gives (ListRecipe.buildItems rs []) s' fun cs _ => cs = [] := fun _ => gives_pure rfl
    exact (hnone _).bind fun cs hcs => gives_pure ⟨c.kind, by rw [hcs, ← hc.1], hc.2⟩
  have hbuild : Gives (ListRecipe.build rs (.items [.text text])) s fun l s' => ∃ r, s'.items? l = some [⟨f.name, r⟩] ∧
      s'.nodes.size = r + 1 ∧ s'.Planted s.nodes.size r f.kind := by
    rw [ListRecipe.build]
    refine hfield.bind fun cs ⟨r, hcs, hsize, hp⟩ => ?_
    obtain ⟨l, hout, hl, hstore⟩ := gives_list _ cs
    refine ⟨l, hout, r, hl.trans (congrArg some hcs), ?_⟩
    rw [hstore]
    exact ⟨hsize, hp.extend (extends_addList _ cs)⟩
  refine hbuild.bind fun l ⟨r, hl, hsize, hp⟩ => (gives_items hl).bind fun cs ⟨hcs, hstore⟩ => ?_
  refine (gives_list _ cs).bind fun m ⟨hm, hstore'⟩ => gives_pure ⟨m, r, rfl, hm.trans (congrArg some hcs), ?_⟩
  rw [hstore', hstore]
  exact ⟨hsize, hp.extend (extends_addList _ cs)⟩

theorem Sound.readApart_list (hs : s.Sound) (reg : String) {text : String} {f : Field Ty}
    (h : (Field.read text).outcome = .ok f) :
    ∃ l r, (s.after (.list reg (.items [.text text]))).store.items? l = some [⟨f.name, r⟩] ∧
      s.ReadApart (s.after (.list reg (.items [.text text]))) reg (.list l) r f.kind := by
  obtain ⟨_, hout, l, r, rfl, hl, hsize, hp⟩ := gives_listStep hs.closed h s.registers reg
  exact ⟨l, r, hl, hs.readApart not_false (after_of_ok hout) hsize hp nofun⟩

end Text

/-- **What is read is a tree of its own**, in whatever store a recipe reads it, and whether it is put into a register as a
descriptor or as the only parameter of a list: in any session, however often the text or parts of it were read before. -/
theorem read_apart [Reader.Stack] :
    (∀ (s : Store) (rs : Registers), s.Closed → ∀ text : String,
      (∀ t, (Ty.read text).outcome = .ok t →
        let ran := (Recipe.text text).build rs s
        ∃ r, ran.outcome = .ok r ∧ s.Unshared ran.store r t) ∧
      ∀ f, (Field.read text).outcome = .ok f →
        let ran := (FieldRecipe.text text).build rs s
        ∃ r, ran.outcome = .ok ⟨f.name, r⟩ ∧ s.Unshared ran.store r f.kind) ∧
    ∀ (earlier : List Step) (reg text : String),
      let s := empty.afterAll earlier
      (∀ t, (Ty.read text).outcome = .ok t →
        ∃ r, s.ReadApart (s.after (.new reg (.text text))) reg (.type r) r t) ∧
      ∀ f, (Field.read text).outcome = .ok f →
        let s₁ := s.after (.list reg (.items [.text text]))
        ∃ l r, s₁.store.items? l = some [⟨f.name, r⟩] ∧ s.ReadApart s₁ reg (.list l) r f.kind := by
  refine ⟨fun s rs hs text => ⟨fun t ht => ?_, fun f hf => ?_⟩, fun earlier reg text => ?_⟩
  · obtain ⟨r, hr, -, hp⟩ := gives_text hs ht rs
    exact ⟨r, hr, hp.unshared hs ((@makes_recipe _ [] (.text text) s hs nofun).keeps (.inl trivial))⟩
  · obtain ⟨⟨name, r⟩, hr, rfl, -, hp⟩ := gives_paramText hs hf rs
    exact ⟨r, hr, hp.unshared hs ((@makes_fieldRecipe _ [] (.text text) s hs nofun).keeps (.inl trivial))⟩
  · have hs := Sound.afterAll earlier sound_empty
    exact ⟨fun t ht => hs.readApart_new reg ht, fun f hf => hs.readApart_list reg hf⟩

/-- A tuple, and after it a text that is read in which one part stands twice. -/
def twin : List Step := [.new "x" (.tuple (.items [.named "a" (.plain .bool)]))]

/-- Components for the tuple, and the same text read again. -/
def twinLater : List Step := [
  .attach "x" (.items [.named "b" (.plain .address)]),
  .new "q" (.text "((bool),(bool))"),
  .attach "q" (.items [.named "c" (.register "x")])]

/-- What was read first stays, and each of its parts is a tuple of its own. -/
theorem read_apart_twin :
    let s := (empty.afterAll twin).after (.new "p" (.text "((bool),(bool))"))
    let one : Ty := .tuple [⟨"value0", .scalar (.plain .bool)⟩]
    (s.afterAll twinLater).registers.type "p" = .ok 6 ∧
      (s.afterAll twinLater).store.view? 6 = some (.tuple [⟨"value0", one⟩, ⟨"value1", one⟩]) ∧
      ∀ q, s.store.follow? 6 [.component 0] = some q → s.store.follow? 6 [.component 1] ≠ some q := by
  intro s one
  have hread : (Ty.read "((bool),(bool))").outcome = .ok (.tuple [⟨"value0", one⟩, ⟨"value1", one⟩]) := by rfl
  obtain ⟨r, hr⟩ := (read_apart.2 twin "p" "((bool),(bool))").1 _ hread
  have hp : s.registers.lookup "p" = some (.type 6) := by decide +kernel
  rw [hr.registers] at hp
  cases hp
  have hkept := hr.kept twinLater (by decide)
  have hnot : ∀ st ∈ twinLater, ∀ fields way, ¬ st.Supplies "p" fields way := by
    simp only [twinLater, List.forall_mem_cons, List.not_mem_nil]
    exact ⟨fun _ _ h => absurd (h.unique (.attach "x" _)).1 (by decide), nofun,
      fun _ _ h => absurd (h.unique (.attach "q" _)).1 (by decide), nofun⟩
  refine ⟨by decide +kernel, hkept.2 fun earlier st after hlater => ?_, fun q hq hq' => ?_⟩
  · rintro ⟨⟨fields, way, hst⟩, -⟩
    exact hnot st (hlater ▸ List.mem_append_right _ List.mem_cons_self) fields way hst
  · cases hr.unshared.apart _ _ q hq hq'

/-- A descriptor that is read, and another register's tuple that is given to it. -/
def handed : List Step := [
  .new "x" (.tuple (.items [])),
  .attach "p" (.items [.named "a" (.register "x")])]

/-- **What is given to a descriptor that was read may be another register's**, and change it from then on through that
register, although no step uses the register that the descriptor was read into. -/
theorem read_not_fixed_through_others :
    ¬ ∀ (text : String) (t : Ty) (later : List Step) (other : String) (fields : ListRecipe),
      (Ty.read text).outcome = .ok t → (∀ st ∈ later, "p" ∉ st.names) → other ≠ "p" → "p" ∉ fields.names →
      let s := (empty.after (.new "p" (.text text))).afterAll later
      (s.after (.attach other fields)).state.lookup "p" = s.state.lookup "p" := by
  intro h
  have hsame := h "(bool)" _ handed "x" (.items [.named "b" (.plain .bool)]) (by rfl) (by decide) (by decide) (by decide)
  exact absurd hsame (by decide +kernel)

end Session
end AbiTypes
