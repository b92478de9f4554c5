import AbiTypes.Proofs.Footing
import Mathlib.Data.Finset.Lattice.Fold
/-!
# Acyclicity — the steps that close no cycle

A cycle can only be closed by an attachment, or an assignment to a tuple, and exactly by one whose components lead back
to the tuple that receives them (`Session.Sound.acyclic_after_iff`).  So a session without such a step has a graph without
cycles, and in it every walk down a descriptor ends, however often parts are shared (`Store.Acyclic.exists_within`).
-/
namespace AbiTypes

namespace Store

open Relation

/-! ## Attachments -/

section GiveTuple

variable {s : Store} {q : Ref} {ps : Components}

/-- **A way after an attachment** was there before, or it goes through the tuple. -/
theorem transGen_giveTuple (hs : s.Closed) {r c : Ref} (h : TransGen (s.giveTuple q ps).Part r c) :
    TransGen s.Part r c ∨ ReflTransGen s.Part r q ∧ TransGen (s.giveTuple q ps).Part q c := by
  induction h using TransGen.head_induction_on with
  | @single r h =>
    by_cases hr : r = q
    · subst hr
      exact .inr ⟨.refl, .single h⟩
    · exact .inl (.single (part_of_giveTuple_of_ne hs hr h))
  | @head r d h hd ih =>
    by_cases hr : r = q
    · subst hr
      exact .inr ⟨.refl, .head h hd⟩
    · have h := part_of_giveTuple_of_ne hs hr h
      exact ih.imp (.head h) fun ⟨hdq, hqc⟩ => ⟨.head h hdq, hqc⟩

/-- **An attachment closes a cycle exactly if a component leads back to the tuple.** -/
theorem acyclic_giveTuple_iff (hs : s.Closed) (ha : s.Acyclic) (hq : q < s.nodes.size) :
    (s.giveTuple q ps).Acyclic ↔ ∀ c ∈ ps, ¬ ReflTransGen s.Part c.kind q := by
  refine ⟨fun ha' => ha'.not_reaches hs hq, fun h r hr => ?_⟩
  -- a new cycle goes through the tuple, and from there on to a component
  obtain hr | ⟨hrq, hqr⟩ := transGen_giveTuple hs hr
  · exact ha r hr
  obtain ⟨c, hqc, hcr⟩ := TransGen.head'_iff.1 hqr
  obtain ⟨f, hf, rfl⟩ := part_giveTuple_self hq hqc
  have hcq : ReflTransGen (s.giveTuple q ps).Part f.kind q := hcr.trans (reaches_giveTuple hs hrq)
  rcases reflTransGen_iff_eq_or_transGen.1 hcq with heq | hcq
  · exact h f hf (heq ▸ .refl)
  · exact (transGen_giveTuple hs hcq).elim (fun hcq => h f hf hcq.to_reflTransGen) fun hcq => h f hf hcq.1

end GiveTuple

/-! ## Walks -/

/-- **A walk over parts**: at a descriptor it comes to something once it has come to something at each part. -/
def Walks {α : Type} (s : Store) (step : (Ref → Option α) → Ref → Option α) : Prop :=
  ∀ find, ∀ r < s.nodes.size, (∀ c, s.Part r c → (find c).isSome) → (step find r).isSome

/-- **Every walk down a graph without cycles ends**, and further fuel changes nothing about that. -/
theorem Acyclic.exists_within {s : Store} (ha : s.Acyclic) (hs : s.Closed) {α : Type}
    {step : (Ref → Option α) → Ref → Option α} (hstep : s.Walks step) {r : Ref} (hr : r < s.nodes.size) :
    ∃ N, ∀ n ≥ N, (within step n r).isSome := by
  induction ha.acc hs r with
  | intro r _ ih =>
    have hpart : ∀ c, s.Part r c → ∃ N, ∀ n ≥ N, (within step n c).isSome := fun c hc => ih c hc (hs.part hc)
    choose! fuel hfuel using hpart
    -- one more than the parts need, of which there are no more than descriptors
    refine ⟨(Finset.range s.nodes.size).sup fuel + 1, fun n hn => ?_⟩
    obtain ⟨m, rfl⟩ := Nat.exists_eq_add_of_lt (Nat.lt_of_lt_of_le (Nat.succ_pos _) hn)
    rw [Nat.zero_add] at hn ⊢
    refine hstep _ r hr fun c hc => hfuel c hc m ?_
    exact (Finset.le_sup (Finset.mem_range.2 (hs.part hc))).trans (Nat.le_of_succ_le_succ hn)

theorem Acyclic.exists_viewValue? {s : Store} (ha : s.Acyclic) (hs : s.Closed) {v : Value} (hv : v.Fits s) :
    ∃ w, s.viewValue? v = some w := by
  cases v with
  | type t =>
    obtain ⟨u, hu⟩ := ha.exists_view? hs hv
    exact ⟨.type u, by rw [viewValue?, hu]; rfl⟩
  | list l =>
    obtain ⟨cs, hcs⟩ := exists_items? hv.1
    obtain ⟨fs, hfs⟩ := exists_fieldsWith fun c hc => ha.exists_view? hs (hs.item hcs c hc)
    refine ⟨.fields fs, ?_⟩
    have hfields : s.viewFields? cs = some fs := hfs
    rw [viewValue?, hcs, Option.bind_eq_bind, Option.bind_some, hfields]
    rfl

end Store

namespace Builder

open Store

/-- **Giving components ends**: what they come to is never that a cycle was met. -/
theorem attach_ne_cyclic {s : Store} (hs : s.Closed) (ha : s.Acyclic) {t : Ref} (ht : t < s.nodes.size) (l : ListRef) :
    (attach t l s).outcome ≠ .error .cyclic := by
  intro hcyclic
  cases hps : s.items? l with
  | none =>
    have hitems : items l s = ⟨[], [], .error .noSuchPart, s⟩ := by rw [items, found, hps]
    rw [attach, bind_of_error hitems] at hcyclic
    cases hcyclic
  | some ps =>
    obtain ⟨q, hq, hlt⟩ := ha.exists_isSlot hs ht
    obtain ⟨n, hn⟩ := exists_node? hlt
    rw [attach_eq_receive hps (slot?_eq_some_iff.2 ⟨hq, hlt⟩) hn] at hcyclic
    obtain ⟨c, rfl⟩ | ⟨m, rfl⟩ := hq.node hn
    · by_cases hnil : ps = []
      · rw [receive_scalar_nil hnil] at hcyclic
        cases hcyclic
      · rw [receive_scalar hnil] at hcyclic
        cases hprint : (Ty.scalar c).print with
        | ok signature =>
          rw [hprint] at hcyclic
          cases hcyclic
        | error f =>
          obtain ⟨n, rfl, -⟩ := Text.eq_tooManyDigits_of_written hprint
          rw [hprint] at hcyclic
          cases hcyclic
    · by_cases hnil : ps = []
      · rw [receive_tuple_nil hnil] at hcyclic
        cases hcyclic
      · rw [receive_tuple hnil] at hcyclic
        cases hcyclic

end Builder

namespace Session

open Builder Store Relation

/-! ## Sessions -/

theorem Sound.among_true {s : Session} (hs : s.Sound) : s.registers.Among (fun _ => True) (fun _ => False) s.store :=
  fun p hp _ => by
    have hfits := hs.fit p hp
    cases hv : p.2 <;> rw [hv] at hfits
    · exact ⟨hfits, trivial⟩
    · obtain ⟨cs, hcs⟩ := exists_items? hfits.1
      exact ⟨cs, hcs, fun c hc => ⟨hs.closed.item hcs c hc, trivial⟩⟩

theorem acyclic_empty : empty.store.Acyclic := fun r hr => by
  obtain ⟨c, hc, -⟩ := TransGen.head'_iff.1 hr
  exact Nat.not_lt_zero r hc.lt

theorem outcome_look {s : Session} {name : String} {v : Value} {w : ValueView} (hv : s.registers.lookup name = some v)
    (hw : s.store.viewValue? v = some w) : s.registers.look name s.store = ⟨[], [], .ok w, s.store⟩ := by
  have hreg : found (.noSuchRegister name) (fun _ => s.registers.lookup name) s.store = ⟨[], [], .ok v, s.store⟩ := by
    rw [found, hv]
  rw [Registers.look, bind_of_ok hreg, found, hw]
  rfl

section Run

variable [Reader.Stack]

/-- **A step would close a cycle**: it attaches components to a tuple, the slot of the descriptor in its register, and
one of them leads back to the tuple; or it assigns them to the tuple itself. -/
inductive Loops (s : Session) : Step → Prop
  | attach {reg : String} {fields : ListRecipe} {t q : Ref} {l m : ListRef} {cs : Components} {c : Field Ref}
    (ht : s.registers.type reg = .ok t) (hl : (fields.build s.registers s.store).outcome = .ok l)
    (hq : (fields.build s.registers s.store).store.IsSlot t q)
    (hm : (fields.build s.registers s.store).store.node? q = some (.tuple m))
    (hcs : (fields.build s.registers s.store).store.items? l = some cs) (hc : c ∈ cs)
    (hback : ReflTransGen (fields.build s.registers s.store).store.Part c.kind q) : Loops s (.attach reg fields)
  | assign {reg : String} {fields : List FieldRecipe} {t : Ref} {l m : ListRef} {cs : Components} {c : Field Ref}
    (ht : s.registers.type reg = .ok t)
    (hl : ((ListRecipe.items fields).build s.registers s.store).outcome = .ok l)
    (hm : ((ListRecipe.items fields).build s.registers s.store).store.node? t = some (.tuple m))
    (hcs : ((ListRecipe.items fields).build s.registers s.store).store.items? l = some cs) (hc : c ∈ cs)
    (hback : ReflTransGen ((ListRecipe.items fields).build s.registers s.store).store.Part c.kind t) :
    Loops s (.assign reg "params" fields)

/-- **Building closes no cycle**, with or without parts that are there. -/
theorem Sound.acyclic_recipe {s : Session} (hs : s.Sound) (ha : s.store.Acyclic) (r : Recipe) :
    (r.build s.registers s.store).store.Acyclic :=
  (stays_recipe r hs.closed (fun _ _ => trivial) (hs.among_true) fun _ _ _ => id).builds.acyclic hs.closed ha

theorem Sound.builds_list {s : Session} (hs : s.Sound) (fields : ListRecipe) :
    s.store.Builds (fun _ => True) (fields.build s.registers s.store).store :=
  (stays_listRecipe fields hs.closed (fun _ _ => trivial) (hs.among_true) fun _ _ _ => id).builds

/-- **No step closes a cycle but one that supplies a descriptor.** -/
theorem Sound.acyclic_of_not_supplies {s : Session} (hs : s.Sound) (ha : s.store.Acyclic) {st : Step}
    (hst : ∀ reg fields way, ¬ st.Supplies reg fields way) : (s.after st).store.Acyclic :=
  (st.stays hs.closed hs.fit (fun _ _ => trivial) (fun _ _ => trivial) (hs.among_true) hst fun _ _ _ => id).builds.acyclic
    hs.closed ha

/-- A step that supplies a descriptor closes no cycle unless the supply does. -/
theorem Sound.acyclic_supply {s : Session} (hs : s.Sound) (ha : s.store.Acyclic) {reg : String} {fields : ListRecipe}
    {way : Ref → ListRef → Builder Unit}
    (h : ∀ t l, s.registers.type reg = .ok t → (fields.build s.registers s.store).outcome = .ok l →
      (way t l (fields.build s.registers s.store).store).store.Acyclic) :
    (s.registers.supply reg fields way s.store).store.Acyclic := by
  obtain (hsame | hsame) | ⟨t, l, ht, hl, hstore⟩ := Step.store_supply s.registers reg fields way s.store
  · rwa [hsame]
  · rw [hsame]
    exact (hs.builds_list fields).acyclic hs.closed ha
  · rw [hstore]
    exact h t l ht hl

theorem Sound.acyclic_attach_iff {s : Session} (hs : s.Sound) (ha : s.store.Acyclic) (reg : String)
    (fields : ListRecipe) :
    (s.after (.attach reg fields)).store.Acyclic ↔ ¬ s.Loops (.attach reg fields) := by
  have hb := hs.builds_list fields
  have hbuilt := hb.acyclic hs.closed ha
  change (s.registers.supply reg fields Builder.attach s.store).store.Acyclic ↔ _
  constructor
  · rintro hafter (⟨ht, hl, hq, hm, hcs, hc, hback⟩ | _)
    have hne := List.ne_nil_of_mem hc
    rw [Step.store_supply_of_ok ht hl, attach_eq_receive hcs (slot?_eq_some_iff.2 ⟨hq, lt_of_node? hm⟩) hm,
      receive_tuple hne, acyclic_giveTuple_iff hb.closed hbuilt (lt_of_node? hm)] at hafter
    exact hafter _ hc hback
  · refine fun hloops => hs.acyclic_supply ha fun t l ht hl => ?_
    obtain hsame | ⟨q, m, cs, hq, hm, hcs, -, hgiven⟩ := attach_store t l (fields.build s.registers s.store).store
    · rwa [hsame]
    · rw [hgiven, acyclic_giveTuple_iff hb.closed hbuilt (lt_of_node? hm)]
      exact fun c hc hback => hloops (.attach ht hl hq hm hcs hc hback)

theorem Sound.acyclic_assign_iff {s : Session} (hs : s.Sound) (ha : s.store.Acyclic) (reg part : String)
    (fields : List FieldRecipe) :
    (s.after (.assign reg part fields)).store.Acyclic ↔ ¬ s.Loops (.assign reg part fields) := by
  have hb := hs.builds_list (.items fields)
  have hbuilt := hb.acyclic hs.closed ha
  change (s.registers.supply reg (.items fields) (Builder.assign part) s.store).store.Acyclic ↔ _
  constructor
  · rintro hafter (_ | ⟨ht, hl, hm, hcs, hc, hback⟩)
    rw [Step.store_supply_of_ok ht hl, assign_eq_replace _ hcs hm] at hafter
    exact (acyclic_giveTuple_iff hb.closed hbuilt (lt_of_node? hm)).1 hafter _ hc hback
  · refine fun hloops => hs.acyclic_supply ha fun t l ht hl => ?_
    obtain hsame | ⟨m, cs, hm, hcs, rfl, hgiven⟩ :=
      assign_store part t l ((ListRecipe.items fields).build s.registers s.store).store
    · rwa [hsame]
    · rw [hgiven, acyclic_giveTuple_iff hb.closed hbuilt (lt_of_node? hm)]
      exact fun c hc hback => hloops (.assign ht hl hm hcs hc hback)

/-- **A step closes a cycle exactly if it loops.** -/
theorem Sound.acyclic_after_iff {s : Session} (hs : s.Sound) (ha : s.store.Acyclic) (st : Step) :
    (s.after st).store.Acyclic ↔ ¬ s.Loops st := by
  cases st with
  | attach reg fields => exact hs.acyclic_attach_iff ha reg fields
  | assign reg part fields => exact hs.acyclic_assign_iff ha reg part fields
  | _ => exact iff_of_true (hs.acyclic_of_not_supplies ha nofun) nofun

/-- **No step closes a cycle but an attachment**, or an assignment to the components of a tuple. -/
theorem Sound.acyclic_of_ne_attach {s : Session} (hs : s.Sound) (ha : s.store.Acyclic) {st : Step}
    (hattach : ∀ reg fields, st ≠ .attach reg fields) (hassign : ∀ reg fields, st ≠ .assign reg "params" fields) :
    (s.after st).store.Acyclic := by
  refine (hs.acyclic_after_iff ha st).2 ?_
  rintro ⟨⟩
  · exact hattach _ _ rfl
  · exact hassign _ _ rfl

theorem Sound.acyclic_afterAll : ∀ (steps : List Step) {s : Session}, s.Sound → s.store.Acyclic →
    (∀ earlier st later, steps = earlier ++ st :: later → ¬ (s.afterAll earlier).Loops st) →
    (s.afterAll steps).store.Acyclic
  | [], _, _, ha, _ => ha
  | st :: rest, s, hs, ha, h => by
    refine Sound.acyclic_afterAll rest (hs.after st) ((hs.acyclic_after_iff ha st).2 (h [] st rest rfl)) ?_
    exact fun earlier st' later hrest => h (st :: earlier) st' later (by rw [hrest]; rfl)

/-- **All that is asked about a register has an answer**: no way down its descriptor is endless, so every walk over
parts ends, its view is there for all questions about it, and components given to it end somewhere. -/
structure Answers (s : Session) (name : String) (t : Ref) : Prop where
  acc : Acc (fun c r => s.store.Part r c) t
  walk : ∀ {α : Type} (step : (Ref → Option α) → Ref → Option α), s.store.Walks step → ∃ n, (within step n t).isSome
  view : ∃ u, s.store.view? t = some u ∧ ∀ query, (s.step (.ask name query)).outcome.map Prod.fst = u.answer query
  slot : ∃ q, s.store.slot? t = some q ∧ ∀ l, (attach t l s.store).outcome ≠ .error .cyclic

section Answers

variable {s : Session}

theorem outcome_ask {name : String} {v : Value} {w : ValueView} (hv : s.registers.lookup name = some v)
    (hw : s.store.viewValue? v = some w) (query : Query) :
    (s.step (.ask name query)).outcome.map Prod.fst = w.answer query := by
  rw [step, Step.act, bind_of_ok (outcome_look hv hw)]
  cases ha : w.answer query with
  | ok a =>
    have hlift : lift (.ofExcept (.ok a)) s.store = ⟨[], [], .ok a, s.store⟩ := rfl
    rw [bind_of_ok hlift]
    rfl
  | error f =>
    have hlift : (lift (.ofExcept (.error f)) s.store : Ran Answer) = ⟨[], [], .error f, s.store⟩ := rfl
    rw [bind_of_error hlift]
    rfl

theorem outcome_equal {a b : String} {v v' : Value} {w w' : ValueView} (hv : s.registers.lookup a = some v)
    (hv' : s.registers.lookup b = some v') (hw : s.store.viewValue? v = some w)
    (hw' : s.store.viewValue? v' = some w') :
    (s.step (.equal a b)).outcome.map Prod.fst = .ok (.flag (decide (w = w'))) := by
  rw [step, Step.act, bind_of_ok (outcome_look hv hw), bind_of_ok (outcome_look hv' hw')]
  rfl

theorem Sound.answers (hs : s.Sound) (ha : s.store.Acyclic) {name : String} {t : Ref}
    (ht : s.registers.lookup name = some (.type t)) : s.Answers name t := by
  have hlt : t < s.store.nodes.size := hs.fit.lookup ht
  obtain ⟨u, hu⟩ := ha.exists_view? hs.closed hlt
  obtain ⟨q, hq, hqlt⟩ := ha.exists_isSlot hs.closed hlt
  refine ⟨ha.acc hs.closed t, fun step hstep => ?_, ⟨u, hu, fun query => ?_⟩, q, slot?_eq_some_iff.2 ⟨hq, hqlt⟩,
    attach_ne_cyclic hs.closed ha hlt⟩
  · obtain ⟨N, hN⟩ := ha.exists_within hs.closed hstep hlt
    exact ⟨N, hN N (Nat.le_refl N)⟩
  · exact outcome_ask (w := .type u) ht (by rw [viewValue?, hu]; rfl) query

end Answers

/-- **Where no attachment loops there is no cycle, and all walks end.**  An attachment whose components do not lead to
the slot closes no cycle; no other step does but one that assigns components to a tuple, and no building; and a step does
exactly if it loops.  So after any steps of which none loops, every register has its answers, and any two can be
compared. -/
theorem acyclic_and_answers :
    (∀ s : Store, s.Closed → s.Acyclic → ∀ t q l ps, t < s.nodes.size → s.IsSlot t q → s.items? l = some ps →
      (∀ c ∈ ps, ¬ ReflTransGen s.Part c.kind q) → (attach t l s).store.Acyclic) ∧
    (∀ s : Session, s.Sound → s.store.Acyclic →
      (∀ r : Recipe, (r.build s.registers s.store).store.Acyclic) ∧
      ∀ st, ((∀ reg fields, st ≠ .attach reg fields) → (∀ reg fields, st ≠ .assign reg "params" fields) →
          (s.after st).store.Acyclic) ∧
        ((s.after st).store.Acyclic ↔ ¬ s.Loops st)) ∧
    ∀ steps : List Step, (∀ earlier st later, steps = earlier ++ st :: later → ¬ (empty.afterAll earlier).Loops st) →
      let s := empty.afterAll steps
      s.store.Acyclic ∧ (∀ name t, s.registers.lookup name = some (.type t) → s.Answers name t) ∧
      ∀ a b v v', s.registers.lookup a = some v → s.registers.lookup b = some v' →
        ∃ w w', s.store.viewValue? v = some w ∧ s.store.viewValue? v' = some w' ∧
          (s.step (.equal a b)).outcome.map Prod.fst = .ok (.flag (decide (w = w'))) := by
  refine ⟨fun s hs ha t q l ps ht hq hps h => ?_, fun s hs ha => ⟨hs.acyclic_recipe ha, fun st => ?_⟩,
    fun steps h => ?_⟩
  · obtain hsame | ⟨q', m, cs, hq', hm, hcs, -, hgiven⟩ := attach_store t l s
    · rwa [hsame]
    · obtain rfl := hq'.eq hq (lt_of_node? hm) (hq.lt hs ht)
      cases hps.symm.trans hcs
      rwa [hgiven, acyclic_giveTuple_iff hs ha (lt_of_node? hm)]
  · exact ⟨hs.acyclic_of_ne_attach ha, hs.acyclic_after_iff ha st⟩
  · have hs := Sound.afterAll steps sound_empty
    have ha := sound_empty.acyclic_afterAll steps acyclic_empty h
    refine ⟨ha, fun name t ht => hs.answers ha ht, fun a b v v' hv hv' => ?_⟩
    obtain ⟨w, hw⟩ := ha.exists_viewValue? hs.closed (hs.fit.lookup hv)
    obtain ⟨w', hw'⟩ := ha.exists_viewValue? hs.closed (hs.fit.lookup hv')
    exact ⟨w, w', hw, hw', outcome_equal hv hv' hw hw'⟩

end Run

/-- A tuple that is key and value of a map at once, and another component for it, through the map. -/
def folded : List Step := [
  .new "x" (.tuple (.items [.named "a" (.plain .bool)])),
  .new "y" (.map (.register "x") (.register "x")),
  .attach "y" (.items [.named "p" (.array (.plain .address))])]

/-- The map itself would be a component of the tuple in it. -/
theorem acyclic_and_answers_folded : (empty.afterAll folded).store.Acyclic ∧ (empty.afterAll folded).Answers "y" 2 ∧
    (empty.afterAll folded).Loops (.attach "x" (.items [.named "b" (.register "y")])) := by
  have hbefore : (empty.afterAll (folded.take 2)).Sound := sound_empty.afterAll _
  have hclosed : (empty.afterAll (folded.take 2)).store.Closed := hbefore.closed
  have hacyclic : (empty.afterAll (folded.take 2)).store.Acyclic := hclosed.acyclic_iff.2 (by decide)
  have hafter : (empty.afterAll folded).store.Acyclic := (sound_empty.afterAll folded).closed.acyclic_iff.2 (by decide)
  have hloops : ∀ earlier st later, folded = earlier ++ st :: later → ¬ (empty.afterAll earlier).Loops st := by
    intro earlier st later h
    match earlier with
    | [] | [_] =>
      cases h
      nofun
    | [_, _] =>
      cases h
      exact ((acyclic_and_answers.2.1 _ hbefore hacyclic).2 _).2.1 hafter
    | _ :: _ :: _ :: earlier => simp [folded] at h
  obtain ⟨ha, hanswers, -⟩ := acyclic_and_answers.2.2 folded hloops
  refine ⟨ha, hanswers "y" 2 rfl, ?_⟩
  exact .attach rfl rfl (slot?_eq_some_iff.1 rfl).1 rfl rfl (List.mem_singleton.2 rfl) (.single (.key rfl))

end Session
end AbiTypes
