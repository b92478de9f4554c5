import AbiTypes.Proofs.Growth
import AbiTypes.Session
/-!
# Steps — what a step does to a session

Whatever a session is asked to do, it moves its store (`Step.does`): it adds, or it changes the content of one list, or it
supplies one descriptor with components (`Session.Sound.outcome`).  So the components of a tuple change only where it is
the one that is supplied (`Session.Sound.not_attached`).
-/
namespace AbiTypes

namespace Store

open Relation

/-- **What comes of supplying a descriptor with the components in a list**, if nothing fails: its slot is given them,
unless it is a scalar and there are none. -/
inductive Supplied (s : Store) (t : Ref) (l : ListRef) : Store → Prop
  | unused {q : Ref} {c : Scalar} (hq : s.IsSlot t q) (hc : s.node? q = some (.scalar c)) (h : s.items? l = some []) :
    Supplied s t l s
  | given {q : Ref} {m : ListRef} {cs : Components} (hq : s.IsSlot t q) (hm : s.node? q = some (.tuple m))
    (h : s.items? l = some cs) : Supplied s t l (s.giveTuple q cs)

theorem IsSlot.eq_of_tuple {s : Store} {t q : Ref} {l : ListRef} (hq : s.IsSlot t q)
    (hl : s.node? t = some (.tuple l)) : q = t := by
  obtain rfl | ⟨c, hc, -⟩ := ReflTransGen.cases_head hq.reached
  · rfl
  · cases hc with
    | elem h | fixedElem h | value h => cases hl.symm.trans h

theorem Forwards.of_node {s s' : Store} {x c : Ref} (hn : s'.node? x = s.node? x) (h : s.Forwards x c) :
    s'.Forwards x c := by
  cases h with
  | elem h => exact .elem (hn.trans h)
  | fixedElem h => exact .fixedElem (hn.trans h)
  | value h => exact .value (hn.trans h)

theorem Moves.forwards_iff {s s' : Store} {gifts : List Gift} (hm : s.Moves gifts s') {x c : Ref}
    (hx : x < s.nodes.size) : s'.Forwards x c ↔ s.Forwards x c := by
  obtain ⟨n, hn⟩ := exists_node? hx
  obtain ⟨n', hn', rfl | ⟨⟨l, rfl⟩, l', rfl⟩⟩ := hm.node? hn
  · exact ⟨.of_node (hn.trans hn'.symm), .of_node (hn'.trans hn.symm)⟩
  · exact iff_of_false (not_forwards_of_tuple hn') (not_forwards_of_tuple hn)

/-- **A slot stays the slot**, whatever the store does: only tuples change. -/
theorem Moves.isSlot_iff {s s' : Store} {gifts : List Gift} (hm : s.Moves gifts s') (hs : s.Closed) {t q : Ref}
    (ht : t < s.nodes.size) : s'.IsSlot t q ↔ s.IsSlot t q := by
  constructor
  · rintro ⟨hreach, hlast⟩
    induction hreach using ReflTransGen.head_induction_on with
    | refl => exact ⟨.refl, fun c hc => hlast c ((hm.forwards_iff ht).2 hc)⟩
    | head hc _ ih =>
      have hc := (hm.forwards_iff ht).1 hc
      have hq := ih (hs.part hc.part)
      exact ⟨.head hc hq.reached, hq.last⟩
  · rintro ⟨hreach, hlast⟩
    induction hreach using ReflTransGen.head_induction_on with
    | refl => exact ⟨.refl, fun c hc => hlast c ((hm.forwards_iff ht).1 hc)⟩
    | head hc _ ih =>
      have hq := ih (hs.part hc.part)
      exact ⟨.head ((hm.forwards_iff ht).2 hc) hq.reached, hq.last⟩

/-- Only what was a tuple is one, among the descriptors that were there. -/
theorem Moves.exists_tuple {s s' : Store} {gifts : List Gift} (hm : s.Moves gifts s') {q : Ref} {m : ListRef}
    (hq : q < s.nodes.size) (h : s'.node? q = some (.tuple m)) : ∃ l, s.node? q = some (.tuple l) := by
  obtain ⟨n, hn⟩ := exists_node? hq
  obtain ⟨n', hn', rfl | ⟨⟨l, rfl⟩, -⟩⟩ := hm.node? hn
  · exact ⟨m, hn.trans (hn'.symm.trans h)⟩
  · exact ⟨l, hn⟩

theorem Extends.components?_eq {s s' : Store} (h : s.Extends s') (hs : s.Closed) {r : Ref} (hr : r < s.nodes.size) :
    s'.components? r = s.components? r := by
  obtain ⟨n, hn⟩ := exists_node? hr
  refine components?_congr ((h.node hn).trans hn.symm) fun l hl => ?_
  obtain ⟨cs, hcs⟩ := exists_items? (hs.node hl)
  rw [hcs, h.items hcs]

theorem Extends.giveTuple {s s' : Store} (h : s.Extends s') {q : Ref} (hq : s.nodes.size ≤ q) (cs : Components) :
    s.Extends (s'.giveTuple q cs) where
  node hn := by rw [node?_giveTuple_of_ne ((lt_of_node? hn).trans_le hq).ne, h.node hn]
  items hl := by rw [items?_giveTuple_of_lt (lt_of_items? (h.items hl)), h.items hl]

end Store

namespace Builder

open Store

section Does

variable {α β : Type} {adds : Prop} {s : Store}

theorem Does.returning {x : Builder α} {g : α → β} {Q : β → Store → Prop} (hx : Does adds x s fun a s' => Q (g a) s') :
    Does adds (x >>= fun a => pure (g a)) s Q := by
  obtain ⟨hmoves, hkeeps, hresult⟩ := hx
  rcases hran : x s with ⟨log, gifts, outcome, s'⟩
  rw [hran] at hmoves hkeeps hresult
  cases outcome with
  | error e =>
    refine ⟨?_, ?_, ?_⟩ <;> rw [bind_of_error hran]
    · exact hmoves
    · exact fun _ => hkeeps (.inr ⟨e, rfl⟩)
    · exact nofun
  | ok a =>
    refine ⟨?_, ?_, ?_⟩ <;> rw [bind_of_ok hran]
    · exact hmoves.trans (.refl s')
    · rintro (hadds | ⟨e, he⟩)
      · exact hkeeps (.inl hadds)
      · cases he
    · rintro _ ⟨rfl⟩
      exact hresult a rfl

theorem does_refill (hadds : ¬ adds) {l : ListRef} {cs : Components} (hm : s.Move [] (s.setList l cs)) :
    Does adds (refill l cs) s fun _ s' => s.Moves [] s' where
  moves := hm.moves
  keeps := by
    rintro (h | ⟨e, he⟩)
    · exact absurd h hadds
    · cases he
  result _ _ := hm.moves

theorem does_give (hadds : ¬ adds) {q : Ref} {l m : ListRef} {cs : Components} (hm : s.node? q = some (.tuple m))
    (hcs : s.items? l = some cs) : Does adds (give q cs) s fun _ s' => s' = s.giveTuple q cs where
  moves := (Move.give hm hcs).moves
  keeps := by
    rintro (h | ⟨e, he⟩)
    · exact absurd h hadds
    · cases he
  result _ _ := rfl

theorem does_receive (hadds : ¬ adds) (hs : s.Closed) {t q : Ref} {l : ListRef} {cs : Components} {n : Node}
    (hq : s.IsSlot t q) (hn : s.node? q = some n) (hcs : s.items? l = some cs) :
    Does adds (receive q cs n) s fun _ s' => s.Supplied t l s' := by
  obtain ⟨c, rfl⟩ | ⟨m, rfl⟩ := hq.node hn
  · rw [receive]
    split
    · rename_i hnil
      subst hnil
      exact does_pure (.unused hq hn hcs)
    · exact does_lift_bind hs fun _ _ => does_fail
  · by_cases hnil : cs = []
    · rw [receive, if_pos hnil]
      exact does_fail
    · have hgive := does_give hadds hn hcs
      refine ⟨?_, ?_, ?_⟩ <;> rw [receive_tuple hnil]
      · exact hgive.moves
      · exact hgive.keeps
      · exact fun _ _ => .given hq hn hcs

/-- **An attachment that fails changes nothing**; one that succeeds gives the components to the slot, if it is a tuple.
-/
theorem does_attach (hadds : ¬ adds) (hs : s.Closed) (t : Ref) (l : ListRef) :
    Does adds (attach t l) s fun _ s' => s.Supplied t l s' := by
  refine does_found_bind hs fun cs hcs => does_found_bind hs fun q hq => does_found_bind hs fun n hn => ?_
  exact does_receive hadds hs (slot?_eq_some_iff.1 hq).1 hn hcs

theorem does_replace (hadds : ¬ adds) (part : String) {t : Ref} {l : ListRef} {cs : Components} {n : Node}
    (hn : s.node? t = some n) (hcs : s.items? l = some cs) :
    Does adds (replace part t cs n) s fun _ s' => s.Supplied t l s' := by
  unfold replace
  split
  · exact does_fail
  · cases n with
    | tuple m =>
      refine (does_give hadds hn hcs).mono fun _ hgiven => ?_
      rw [hgiven]
      exact .given (isSlot_of_tuple hn) hn hcs
    | scalar _ | array _ | fixedArray _ _ | map _ _ => exact does_fail

/-- **An assignment that fails changes nothing**; one that succeeds is to a tuple, and gives it the components. -/
theorem does_assign (hadds : ¬ adds) (hs : s.Closed) (part : String) (t : Ref) (l : ListRef) :
    Does adds (assign part t l) s fun _ s' => s.Supplied t l s' :=
  does_found_bind hs fun _ hcs => does_found_bind hs fun _ hn => does_replace hadds part hn hcs

/-- **To attach components to a new tuple is to add to the store.** -/
theorem makes_combine (hs : s.Closed) (l : ListRef) : Makes (combine l) s fun _ _ => True := by
  let s₁ := (s.addList []).addTuple []
  have hlist : list [] s = ⟨[], [], .ok s.lists.size, s.addList []⟩ := rfl
  have hnil : (s.addList []).items? s.lists.size = some [] := by rw [items?_addList, if_pos rfl]
  have hitems : items s.lists.size (s.addList []) = ⟨[], [], .ok [], s.addList []⟩ := by rw [items, found, hnil]
  have htuple : tuple s.lists.size (s.addList []) = ⟨[], [⟨s.nodes.size, []⟩], .ok s.nodes.size, s₁⟩ := by
    rw [tuple, bind_of_ok hitems]
    rfl
  have hmoves : s.Moves [⟨s.nodes.size, []⟩] s₁ :=
    (Move.list (List.forall_mem_nil _)).moves.trans (Move.construct hnil).moves
  have hext : s.Extends s₁ := (extends_addList s []).trans (extends_addTuple _ [])
  have hnode : s₁.node? s.nodes.size = some (.tuple (s.lists.size + 1)) := by
    rw [node?_addTuple, size_nodes_addList, if_pos rfl, size_lists_addList]
  obtain ⟨hattach, hfailed, hresult⟩ := does_attach not_false (hmoves.closed hs) s.nodes.size l
  refine ⟨?_, ?_, fun _ _ => trivial⟩ <;> rw [combine, bind_of_ok hlist, bind_of_ok htuple]
  · exact hmoves.trans hattach
  · rintro -
    cases hout : (attach s.nodes.size l s₁).outcome with
    | error e => exact hext.trans (hfailed (.inr ⟨e, hout⟩))
    | ok a =>
      generalize (attach s.nodes.size l s₁).store = s₂ at hresult ⊢
      cases hresult a hout with
      | unused _ _ _ => exact hext
      | given hq _ _ => exact hext.giveTuple (hq.eq_of_tuple hnode).ge _

theorem makes_look (hs : s.Closed) (rs : Registers) (name : String) : Makes (rs.look name) s fun _ _ => True :=
  does_found_bind hs fun _ _ => does_of_same rfl rfl fun _ _ => trivial

theorem makes_members (rs : Registers) : ∀ (names : List String) {s : Store}, s.Closed →
    Makes (rs.members names) s fun _ _ => True
  | [], _, _ => does_pure trivial
  | name :: names, s, hs => by
    refine .bind hs (makes_look hs rs name) fun v s' _ hs' _ => does_lift_bind hs' fun m _ => ?_
    exact .bind hs' (makes_members rs names hs') fun ms s'' _ _ _ => does_pure trivial

theorem makes_render (hs : s.Closed) (title : String) (version : Int) (l : ListRef) :
    Makes (render title version l) s fun _ _ => True := by
  refine does_found_bind hs fun cs hcs => ?_
  split
  · exact does_fail
  · refine .bind hs (makes_combine hs l) fun _ s' _ hs' _ => ?_
    exact does_found_bind hs' fun fs _ => does_of_same rfl rfl fun _ _ => trivial

end Does

end Builder

namespace Registers

open Store

section Refill

variable {rs : Registers} {s s' : Store} {name : String} {l : ListRef}

/-- **The list in a register may be extended**, also after more was built: it still belongs to no tuple. -/
theorem Fit.move_append (hrs : rs.Fit s) (hl : rs.list name = .ok l) {gifts : List Gift} (hm : s.Moves gifts s')
    (hs' : s'.Closed) {cs : Components} (hcs : s'.items? l = some cs) {c : Field Ref} (hc : c.kind < s'.nodes.size) :
    s'.Move [] (s'.setList l (cs ++ [c])) := by
  obtain ⟨hlt, hfree⟩ := hrs.list hl
  refine .refill (hm.free hlt hfree) ?_
  exact List.forall_mem_append.2 ⟨hs'.item hcs, List.forall_mem_singleton.2 hc⟩

theorem Fit.move_clear (hrs : rs.Fit s) (hl : rs.list name = .ok l) : s.Move [] (s.setList l []) :=
  .refill (hrs.list hl).2 (List.forall_mem_nil _)

end Refill

end Registers

/-- A step that only asks: it has an answer, and puts nothing into a register. -/
def Step.asks : Step → Bool
  | .equal _ _ | .distinct _ | .render _ _ _ | .ask _ _ => true
  | _ => false

/-- A step that changes what is there already. -/
def Step.Changes : Step → Prop
  | .append _ _ | .clear _ | .attach _ _ | .assign _ _ _ => True
  | _ => False

/-- **A step supplies the descriptor in a register with components**: it attaches them to it, or assigns them to a part. -/
inductive Step.Supplies : Step → String → ListRecipe → (Ref → ListRef → Builder Unit) → Prop
  | attach (reg : String) (fields : ListRecipe) : Supplies (.attach reg fields) reg fields Builder.attach
  | assign (reg part : String) (fields : List FieldRecipe) :
    Supplies (.assign reg part fields) reg (.items fields) (Builder.assign part)

namespace Step

open Builder Store

section Supplies

variable {st : Step} {reg : String} {fields : ListRecipe} {way : Ref → ListRef → Builder Unit}

theorem Supplies.act_eq [Reader.Stack] (h : st.Supplies reg fields way) (rs : Registers) :
    st.act rs = rs.supply reg fields way := by
  cases h <;> rfl

theorem Supplies.unique (h : st.Supplies reg fields way) {reg' : String} {fields' : ListRecipe}
    {way' : Ref → ListRef → Builder Unit} (h' : st.Supplies reg' fields' way') :
    reg' = reg ∧ fields' = fields ∧ way' = way := by
  cases h <;> cases h' <;> exact ⟨rfl, rfl, rfl⟩

theorem Supplies.changes (h : st.Supplies reg fields way) : st.Changes := by
  cases h <;> trivial

theorem Supplies.does (h : st.Supplies reg fields way) {adds : Prop} (hadds : ¬ adds) {s : Store} (hs : s.Closed) (t : Ref)
    (l : ListRef) : Does adds (way t l) s fun _ s' => s.Supplied t l s' := by
  cases h with
  | attach _ _ => exact does_attach hadds hs t l
  | assign _ part _ => exact does_assign hadds hs part t l

theorem Supplies.does_act [Reader.Stack] (h : st.Supplies reg fields way) {rs : Registers} {s : Store} (hs : s.Closed)
    (hrs : rs.Fit s) : Does (¬ st.Changes) (st.act rs) s fun p s' => p.2.Fit s' ∧ p.2 = rs := by
  have hadds := not_not_intro h.changes
  rw [h.act_eq]
  refine does_lift_bind hs fun t ht => .bind hs (makes_listRecipe fields hs hrs) fun l s' hm hs' hl => .returning ?_
  exact ⟨(h.does hadds hs' t l).moves, (h.does hadds hs' t l).keeps, fun _ _ =>
    ⟨(hrs.grow hm).grow (h.does hadds hs' t l).moves, rfl⟩⟩

end Supplies

/-- **What a step does to the store, and which registers it leaves.** -/
theorem does [Reader.Stack] {rs : Registers} {s : Store} (hs : s.Closed) (hrs : rs.Fit s) : ∀ st : Step,
    Does (¬ st.Changes) (st.act rs) s fun p s' => p.2.Fit s' ∧ (st.asks = true → p.2 = rs)
  | .new reg type =>
    .bind hs (makes_recipe type hs hrs) fun t s' hm _ ht =>
      does_pure ⟨(hrs.grow hm).put (v := .type t) ht reg, nofun⟩
  | .get reg source path =>
    does_lift_bind hs fun t ht => does_found_bind hs fun u hu =>
      does_pure ⟨hrs.put (v := .type u) (hs.follow? (hrs.type ht) hu) reg, nofun⟩
  | .list reg fields => by
    refine .bind hs (makes_listRecipe fields hs hrs) fun l s' hm hs' _ => does_found_bind hs' fun cs hcs => ?_
    exact .bind hs' (makes_list hs' (hs'.item hcs)) fun m s'' hm' _ hfits =>
      does_pure ⟨((hrs.grow hm).grow hm').put (v := .list m) hfits reg, nofun⟩
  | .append reg field => by
    refine does_lift_bind hs fun l hl => .bind hs (makes_fieldRecipe field hs hrs) fun c s' hm hs' hc => ?_
    refine does_found_bind hs' fun cs hcs => .returning ?_
    exact (does_refill (not_not_intro trivial) (hrs.move_append hl hm hs' hcs hc)).mono fun _ hm' =>
      ⟨(hrs.grow hm).grow hm', nofun⟩
  | .clear reg => by
    refine does_lift_bind hs fun l hl => .returning ?_
    exact (does_refill (not_not_intro trivial) (hrs.move_clear hl)).mono fun _ hm => ⟨hrs.grow hm, nofun⟩
  | .attach reg fields => ((Supplies.attach reg fields).does_act hs hrs).mono fun _ h => ⟨h.1, nofun⟩
  | .assign reg part fields => ((Supplies.assign reg part fields).does_act hs hrs).mono fun _ h => ⟨h.1, nofun⟩
  | .equal a b =>
    .bind hs (makes_look hs rs a) fun _ s' hm hs' _ => .bind hs' (makes_look hs' rs b) fun _ s'' hm' _ _ =>
      does_pure ⟨(hrs.grow hm).grow hm', fun _ => rfl⟩
  | .distinct regs =>
    .bind hs (makes_members rs regs hs) fun _ s' hm _ _ => does_pure ⟨hrs.grow hm, fun _ => rfl⟩
  | .render fields version title =>
    .bind hs (makes_listRecipe fields hs hrs) fun l s' hm hs' _ =>
      .bind hs' (makes_render hs' title version l) fun _ s'' hm' _ _ =>
        does_pure ⟨(hrs.grow hm).grow hm', fun _ => rfl⟩
  | .ask reg query =>
    .bind hs (makes_look hs rs reg) fun v s' hm hs' _ => does_lift_bind hs' fun a _ =>
      does_pure ⟨hrs.grow hm, fun _ => rfl⟩

end Step

namespace Session

open Builder Store

/-! ## Sessions -/

/-- Every reference in a session leads somewhere, and the lists in its registers belong to no tuple. -/
structure Sound (s : Session) : Prop where
  closed : s.store.Closed
  fit : s.registers.Fit s.store

theorem sound_empty : empty.Sound := ⟨⟨nofun, nofun⟩, nofun⟩

variable [Reader.Stack]

section Step

variable {s : Session}

theorem Sound.moves (hs : s.Sound) (st : Step) : s.store.Moves (s.step st).gifts (s.after st).store :=
  (st.does hs.closed hs.fit).moves

theorem Sound.after (hs : s.Sound) (st : Step) : (s.after st).Sound := by
  refine ⟨(hs.moves st).closed hs.closed, ?_⟩
  unfold Session.after
  cases hout : (s.step st).outcome with
  | error e => exact hs.fit.grow (hs.moves st)
  | ok p => exact ((st.does hs.closed hs.fit).result p hout).1

theorem after_of_ok {st : Step} {p : Answer × Registers} (h : (s.step st).outcome = .ok p) :
    (s.after st).registers = p.2 := by
  unfold Session.after
  rw [h]

/-- **What a step comes to for what is there already**: nothing; another content for a list that no tuple has; or a
descriptor is supplied with what a list holds, once the components are built. -/
inductive Outcome (s : Session) : Step → Store → Prop
  | adds {st : Step} {s' : Store} (h : s.store.Extends s') : Outcome s st s'
  | refills {st : Step} {s₁ s' : Store} (h : s.store.Extends s₁) (hs₁ : s₁.Closed) (hm : s₁.Move [] s') :
    Outcome s st s'
  | supplies {st : Step} {reg : String} {fields : ListRecipe} {way : Ref → ListRef → Builder Unit} {t : Ref} {l : ListRef}
    {s' : Store} (hst : st.Supplies reg fields way) (hok : ∃ p, (s.step st).outcome = .ok p)
    (ht : s.registers.type reg = .ok t) (hl : (fields.build s.registers s.store).outcome = .ok l)
    (hsup : (fields.build s.registers s.store).store.Supplied t l s') : Outcome s st s'

section Supplies

variable {st : Step} {reg : String} {fields : ListRecipe} {way : Ref → ListRef → Builder Unit}

/-- The parts of a step that supplies a descriptor, if it succeeds. -/
theorem of_supplies_ok {s : Session} (hst : st.Supplies reg fields way) {p : Answer × Registers}
    (hout : (s.step st).outcome = .ok p) :
    ∃ t l, s.registers.type reg = .ok t ∧ (fields.build s.registers s.store).outcome = .ok l ∧
      (way t l (fields.build s.registers s.store).store).outcome = .ok () ∧ p.2 = s.registers ∧
      (s.after st).store = (way t l (fields.build s.registers s.store).store).store := by
  have hact : s.step st = s.registers.supply reg fields way s.store := congrFun (hst.act_eq s.registers) s.store
  rw [hact] at hout
  obtain ⟨t, ht, hout, hstore⟩ := of_bind_ok hout
  obtain ⟨l, hl, hout, hstore₁⟩ := of_bind_ok hout
  obtain ⟨_, hway, hout, hstore₂⟩ := of_bind_ok hout
  cases hout
  exact ⟨t, l, ht, hl, hway, rfl, (congrArg Ran.store hact).trans (hstore.trans (hstore₁.trans hstore₂))⟩

theorem Sound.supplied_of_ok (hs : s.Sound) (hst : st.Supplies reg fields way) {p : Answer × Registers}
    (hout : (s.step st).outcome = .ok p) :
    ∃ t l, s.registers.type reg = .ok t ∧ (fields.build s.registers s.store).outcome = .ok l ∧
      (fields.build s.registers s.store).store.Supplied t l (s.after st).store := by
  obtain ⟨t, l, ht, hl, hway, -, hstore⟩ := of_supplies_ok hst hout
  have hs₁ := (makes_listRecipe fields hs.closed hs.fit).moves.closed hs.closed
  rw [hstore]
  exact ⟨t, l, ht, hl, (hst.does not_false hs₁ t l).result _ hway⟩

end Supplies

theorem Sound.outcome (hs : s.Sound) (st : Step) : s.Outcome st (s.after st).store := by
  have hdoes := st.does hs.closed hs.fit
  by_cases hadds : ¬ st.Changes ∨ ∃ e, (s.step st).outcome = .error e
  · exact .adds (hdoes.keeps hadds)
  obtain ⟨hchanges, hok⟩ := not_or.1 hadds
  -- what is left is a step that changes something and succeeds: all of its parts do
  cases hout : (s.step st).outcome with
  | error e => exact absurd ⟨e, hout⟩ hok
  | ok p =>
    cases st with
    | append reg field =>
      obtain ⟨l, hl, hout, hstore⟩ := of_bind_ok hout
      obtain ⟨c, hc, hout, hstore₁⟩ := of_bind_ok hout
      obtain ⟨cs, hcs, -, hstore₂⟩ := of_bind_ok hout
      have hbuild := makes_fieldRecipe field hs.closed hs.fit
      have hs₁ := hbuild.moves.closed hs.closed
      have hafter : (s.after (.append reg field)).store = Store.setList _ l (cs ++ [c]) :=
        hstore.trans (hstore₁.trans hstore₂)
      rw [hafter]
      exact .refills (hbuild.keeps (.inl trivial)) hs₁
        (hs.fit.move_append hl hbuild.moves hs₁ (outcome_found.1 hcs) (hbuild.result c hc))
    | clear reg =>
      obtain ⟨l, hl, -, hstore⟩ := of_bind_ok hout
      have hafter : (s.after (.clear reg)).store = s.store.setList l [] := hstore
      rw [hafter]
      exact .refills (.refl s.store) hs.closed (hs.fit.move_clear hl)
    | attach reg fields =>
      obtain ⟨t, l, ht, hl, hsup⟩ := hs.supplied_of_ok (.attach reg fields) hout
      exact .supplies (.attach reg fields) ⟨p, hout⟩ ht hl hsup
    | assign reg part fields =>
      obtain ⟨t, l, ht, hl, hsup⟩ := hs.supplied_of_ok (.assign reg part fields) hout
      exact .supplies (.assign reg part fields) ⟨p, hout⟩ ht hl hsup
    | _ => exact absurd not_false hchanges

/-- **A step attaches components to a tuple**, or assigns them to it: it succeeds, the tuple is the slot of the descriptor
in its register, and the components are what its list holds, once it is built. -/
inductive Attaches (s : Session) : Step → Ref → Components → Prop
  | intro {st : Step} {reg : String} {fields : ListRecipe} {way : Ref → ListRef → Builder Unit} {t r : Ref} {l m : ListRef}
    {cs : Components} (hst : st.Supplies reg fields way) (hok : ∃ p, (s.step st).outcome = .ok p)
    (ht : s.registers.type reg = .ok t) (hl : (fields.build s.registers s.store).outcome = .ok l)
    (hr : (fields.build s.registers s.store).store.IsSlot t r)
    (hm : (fields.build s.registers s.store).store.node? r = some (.tuple m))
    (hcs : (fields.build s.registers s.store).store.items? l = some cs) : Attaches s st r cs

theorem Attaches.supplies {st : Step} {r : Ref} {cs : Components} (h : s.Attaches st r cs) :
    ∃ reg fields way, st.Supplies reg fields way := by
  obtain ⟨hst⟩ := h
  exact ⟨_, _, _, hst⟩

section Supplies

variable {st : Step} {reg : String} {fields : ListRecipe} {way : Ref → ListRef → Builder Unit} {r : Ref} {cs : Components}

/-- **The tuple that a step attaches components to** is at the end of the way from the descriptor in its register. -/
theorem Attaches.exists_isSlot (h : s.Attaches st r cs) (hst : st.Supplies reg fields way) :
    ∃ t m, s.registers.type reg = .ok t ∧ (fields.build s.registers s.store).store.IsSlot t r ∧
      (fields.build s.registers s.store).store.node? r = some (.tuple m) := by
  obtain ⟨hst', -, ht, -, hr, hm, -⟩ := h
  obtain ⟨rfl, rfl, -⟩ := hst.unique hst'
  exact ⟨_, _, ht, hr, hm⟩

/-- **What attaching to a tuple does to the store.** -/
theorem Sound.store_eq_of_attaches (hs : s.Sound) (h : s.Attaches st r cs)
    (hst : st.Supplies reg fields way) :
    (s.after st).store = (fields.build s.registers s.store).store.giveTuple r cs := by
  obtain ⟨hst', ⟨p, hp⟩, ht, hl, hr, hm, hcs⟩ := h
  obtain ⟨rfl, rfl, -⟩ := hst.unique hst'
  obtain ⟨t', l', ht', hl', hsup⟩ := hs.supplied_of_ok hst hp
  cases ht.symm.trans ht'
  cases hl.symm.trans hl'
  generalize (s.after _).store = s' at hsup ⊢
  cases hsup with
  | unused hq hc _ =>
    obtain rfl := hq.eq hr (lt_of_node? hc) (lt_of_node? hm)
    cases hc.symm.trans hm
  | given hq hm' hcs' =>
    obtain rfl := hq.eq hr (lt_of_node? hm') (lt_of_node? hm)
    cases hcs.symm.trans hcs'
    rfl

end Supplies

/-- **The tuple that a step attaches components to has them.** -/
theorem Sound.attached (hs : s.Sound) {st : Step} {r : Ref} {cs : Components} (h : s.Attaches st r cs) :
    (s.after st).store.components? r = some cs := by
  obtain ⟨_, _, _, hst⟩ := h.supplies
  obtain ⟨_, _, -, -, hm⟩ := h.exists_isSlot hst
  rw [hs.store_eq_of_attaches h hst, components?_giveTuple_self (lt_of_node? hm)]

/-- **The components of a tuple change by what is attached to it and by nothing else.** -/
theorem Sound.not_attached (hs : s.Sound) {st : Step} {r : Ref} (hr : r < s.store.nodes.size)
    (h : ∀ cs, ¬ s.Attaches st r cs) : (s.after st).store.components? r = s.store.components? r := by
  have hout := hs.outcome st
  generalize hs' : (s.after st).store = s' at hout
  cases hout with
  | adds hext => exact hext.components?_eq hs.closed hr
  | refills hext hs₁ hm => rw [hm.components? hs₁, ← hext.components?_eq hs.closed hr, lastGift?, Option.none_or]
  | @supplies _ fields _ _ _ _ hst hok ht hl hsup =>
    have hbuild := makes_listRecipe fields hs.closed hs.fit
    have hkept := (hbuild.keeps (.inl trivial)).components?_eq hs.closed hr
    cases hsup with
    | unused _ _ _ => exact hkept
    | given hq hm hcs =>
      refine (components?_giveTuple_of_ne (hbuild.moves.closed hs.closed) ?_).trans hkept
      rintro rfl
      exact h _ (.intro hst hok ht hl hq hm hcs)

end Step

/-! ## Runs -/

def afterAll (s : Session) : List Step → Session
  | [] => s
  | st :: rest => (s.after st).afterAll rest

def gifts (s : Session) : List Step → List Gift
  | [] => []
  | st :: rest => (s.step st).gifts ++ (s.after st).gifts rest

theorem afterAll_append (later : List Step) : ∀ (earlier : List Step) (s : Session),
    s.afterAll (earlier ++ later) = (s.afterAll earlier).afterAll later
  | [], _ => rfl
  | st :: rest, s => afterAll_append later rest (s.after st)

theorem Sound.afterAll : ∀ (steps : List Step) {s : Session}, s.Sound → (s.afterAll steps).Sound
  | [], _, hs => hs
  | st :: rest, _, hs => Sound.afterAll rest (hs.after st)

theorem Sound.moves_afterAll : ∀ (steps : List Step) {s : Session}, s.Sound →
    s.store.Moves (s.gifts steps) (s.afterAll steps).store
  | [], s, _ => .refl s.store
  | st :: rest, _, hs => (hs.moves st).trans (Sound.moves_afterAll rest (hs.after st))

end Session
end AbiTypes
