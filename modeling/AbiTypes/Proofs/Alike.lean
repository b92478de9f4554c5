import AbiTypes.Proofs.Placement
import AbiTypes.Session
import Mathlib.Data.List.Forall2
/-!
# Alike — the same computation over two stores

A computation over a store and the same one over a store that holds more come to the same, up to references, and of the
stores that they leave one is inside the other again (`Builder.Alike`).  So do the steps of sessions whose registers
hold the same things (`Step.alike`): nothing depends on what else is in a store.
-/
namespace AbiTypes

/-- Two outcomes that are the same fault, or results that are the same thing. -/
inductive SameOutcome {α β : Type} (same : α → β → Prop) : Except Fault α → Except Fault β → Prop
  | ok {a : α} {b : β} (h : same a b) : SameOutcome same (.ok a) (.ok b)
  | error (f : Fault) : SameOutcome same (.error f) (.error f)

namespace Builder

open Store
open Placement (SameNode SameList SameItems)

/-- **Two computations run alike**, one over each of the stores. -/
def Alike {α β : Type} (e : Placement) (x : Builder α) (y : Builder β) (same : Placement → α → β → Prop) : Prop :=
  ∃ e' : Placement, e.Before e' ∧ e'.inner = (x e.inner).store ∧ e'.outer = (y e.outer).store ∧
    SameOutcome (same e') (x e.inner).outcome (y e.outer).outcome

section Rules

variable {α β γ δ : Type} {e : Placement} {x : Builder α} {y : Builder β} {f : α → Builder γ} {g : β → Builder δ}
  {P : Placement → α → β → Prop} {Q : Placement → γ → δ → Prop}

theorem Alike.bind (hx : Alike e x y P)
    (hf : ∀ e' a b, e.Before e' → P e' a b → Alike e' (f a) (g b) Q) : Alike e (x >>= f) (y >>= g) Q := by
  obtain ⟨e', hbefore, hinner, houter, hout⟩ := hx
  rcases hx : x e.inner with ⟨log, gifts, outcome, s⟩
  rcases hy : y e.outer with ⟨log', gifts', outcome', t⟩
  rw [hx, hy] at hout
  rw [hx] at hinner
  rw [hy] at houter
  cases hout with
  | error fault =>
    refine ⟨e', hbefore, ?_, ?_, ?_⟩ <;> simp only [bind_of_error hx, bind_of_error hy]
    · exact hinner
    · exact houter
    · exact .error fault
  | ok hab =>
    obtain ⟨e'', hbefore', hinner', houter', hout'⟩ := hf e' _ _ hbefore hab
    rw [hinner, houter] at hout'
    rw [hinner] at hinner'
    rw [houter] at houter'
    refine ⟨e'', hbefore.trans hbefore', ?_, ?_, ?_⟩ <;> simp only [bind_of_ok hx, bind_of_ok hy]
    · exact hinner'
    · exact houter'
    · exact hout'

theorem alike_of_same (hx : (x e.inner).store = e.inner) (hy : (y e.outer).store = e.outer)
    (hout : SameOutcome (P e) (x e.inner).outcome (y e.outer).outcome) : Alike e x y P :=
  ⟨e, .refl e, hx.symm, hy.symm, hout⟩

theorem alike_pure {a : α} {b : β} (h : P e a b) : Alike e (pure a) (pure b) P := alike_of_same rfl rfl (.ok h)

theorem alike_fail (fault : Fault) : Alike e (fail fault) (fail fault) P := alike_of_same rfl rfl (.error fault)

theorem alike_lift (t : Traced α) : Alike e (lift t) (lift t) fun _ a b => a = b :=
  alike_of_same rfl rfl <| by
    change SameOutcome _ t.outcome t.outcome
    cases t.outcome with
    | error fault => exact .error fault
    | ok a => exact .ok rfl

theorem alike_lift_of_same {a : Traced α} {b : Traced β} (h : SameOutcome (P e) a.outcome b.outcome) :
    Alike e (lift a) (lift b) P :=
  alike_of_same rfl rfl h

theorem alike_found (fault : Fault) {find : Store → Option α} {find' : Store → Option β}
    (h : Option.Rel (P e) (find e.inner) (find' e.outer)) : Alike e (found fault find) (found fault find') P :=
  alike_of_same rfl rfl <| by
    unfold found
    generalize find e.inner = a, find' e.outer = b at h
    cases h with
    | none => exact .error fault
    | some h => exact .ok h

theorem alike_found_same {fault : Fault} {find find' : Store → Option α} (h : find e.inner = find' e.outer) :
    Alike e (found fault find) (found fault find') fun _ a b => a = b :=
  alike_found fault <| by
    rw [h]
    cases find' e.outer with
    | none => exact .none
    | some a => exact .some rfl

end Rules

/-! ## Building -/

section Build

variable {e : Placement}

theorem alike_node {n : Node} (hn : n.Fits e.inner) : Alike e (node n) (node (n.rename e.node e.list)) SameNode :=
  ⟨e.addNode hn, e.before_addNode hn, rfl, rfl, .ok ⟨by simp [Placement.addNode], Function.update_self _ _ _⟩⟩

theorem alike_list {cs ds : Components} (h : e.SameItems cs ds) : Alike e (list cs) (list ds) SameList := by
  obtain ⟨hcs, rfl⟩ := h
  exact ⟨e.addList hcs, e.before_addList hcs, rfl, rfl, .ok ⟨by simp [Placement.addList], Function.update_self _ _ _⟩⟩

theorem alike_items {l m : ListRef} (h : e.SameList l m) : Alike e (items l) (items m) SameItems := by
  obtain ⟨hl, rfl⟩ := h
  obtain ⟨cs, hcs⟩ := exists_items? hl
  obtain ⟨ds, hds, hsame⟩ := Placement.sameItems_of_items? hcs
  refine alike_found _ ?_
  rw [hcs, hds]
  exact .some hsame

theorem alike_refill {l m : ListRef} {cs ds : Components} (hl : e.SameList l m) (h : e.SameItems cs ds) :
    Alike e (refill l cs) (refill m ds) fun _ _ _ => True := by
  obtain ⟨hl, rfl⟩ := hl
  obtain ⟨hcs, rfl⟩ := h
  exact ⟨e.setList hl hcs, e.before_setList hl hcs, rfl, rfl, .ok trivial⟩

theorem rename_tuple_size {cs : Components} (hcs : ∀ c ∈ cs, c.kind < e.inner.nodes.size) :
    (Node.tuple e.inner.lists.size).rename (e.addList hcs).node (e.addList hcs).list = .tuple e.outer.lists.size :=
  congrArg Node.tuple (Function.update_self _ _ _)

theorem alike_newTuple {cs ds : Components} (h : e.SameItems cs ds) : Alike e (newTuple cs) (newTuple ds) SameNode := by
  obtain ⟨hcs, rfl⟩ := h
  have hfits := fits_tuple_size e.inner cs
  refine ⟨(e.addList hcs).addNode hfits, (e.before_addList hcs).trans ((e.addList hcs).before_addNode hfits), rfl, ?_,
    .ok ⟨?_, Function.update_self _ _ _⟩⟩
  · change Store.addNode _ _ = Store.addNode _ _
    rw [rename_tuple_size]
    rfl
  · simp [Placement.addNode, Placement.addList]

theorem alike_give {q r : Ref} {cs ds : Components} (hq : e.SameNode q r) (h : e.SameItems cs ds) :
    Alike e (give q cs) (give r ds) fun _ _ _ => True := by
  obtain ⟨hq, rfl⟩ := hq
  obtain ⟨hcs, rfl⟩ := h
  have hfits := fits_tuple_size e.inner cs
  refine ⟨(e.addList hcs).setNode hq hfits, (e.before_addList hcs).trans ((e.addList hcs).before_setNode hq hfits), rfl,
    ?_, .ok trivial⟩
  change Store.setNode _ _ _ = Store.setNode _ _ _
  rw [rename_tuple_size]
  rfl

theorem alike_tuple {l m : ListRef} (h : e.SameList l m) : Alike e (tuple l) (tuple m) SameNode :=
  (alike_items h).bind fun _ _ _ _ hcs => alike_newTuple hcs

theorem alike_tellAttached {q r : Ref} {m n : Nat} : Alike e (tellAttached q m) (tellAttached r n) fun _ _ _ => True :=
  alike_of_same rfl rfl (.ok trivial)

theorem alike_receive {q r : Ref} {cs ds : Components} {n : Node} (hq : e.SameNode q r) (h : e.SameItems cs ds) :
    Alike e (receive q cs n) (receive r ds (n.rename e.node e.list)) fun _ _ _ => True := by
  cases n with
  | array _ | fixedArray _ _ | map _ _ => exact alike_fail _
  | scalar c =>
    simp only [Node.rename, receive, h.eq_nil_iff, h.length]
    split
    · exact alike_pure trivial
    · refine (alike_lift _).bind fun _ signature _ _ hsignature => ?_
      rw [hsignature]
      exact alike_fail _
  | tuple l =>
    simp only [Node.rename, receive, h.eq_nil_iff]
    split
    · exact alike_fail _
    · exact (alike_give hq h).bind fun _ _ _ _ _ => alike_tellAttached

theorem alike_replace (part : String) {q r : Ref} {cs ds : Components} {n : Node} (hq : e.SameNode q r)
    (h : e.SameItems cs ds) :
    Alike e (replace part q cs n) (replace part r ds (n.rename e.node e.list)) fun _ _ _ => True := by
  unfold replace
  rw [n.parts_rename]
  split
  · exact alike_fail _
  · cases n with
    | tuple l => exact alike_give hq h
    | scalar _ | array _ | fixedArray _ _ | map _ _ => exact alike_fail _

theorem alike_array {a b : Ref} (h : e.SameNode a b) : Alike e (node (.array a)) (node (.array b)) SameNode := by
  obtain ⟨ha, rfl⟩ := h
  exact alike_node (n := .array a) ha

theorem alike_fixedArray {a b : Ref} (h : e.SameNode a b) (n : Nat) :
    Alike e (node (.fixedArray a n)) (node (.fixedArray b n)) SameNode := by
  obtain ⟨ha, rfl⟩ := h
  exact alike_node (n := .fixedArray a n) ha

theorem alike_map {a b c d : Ref} (h : e.SameNode a b) (h' : e.SameNode c d) :
    Alike e (node (.map a c)) (node (.map b d)) SameNode := by
  obtain ⟨ha, rfl⟩ := h
  obtain ⟨hc, rfl⟩ := h'
  exact alike_node (n := .map a c) ⟨ha, hc⟩

theorem alike_slot {t u : Ref} (h : e.SameNode t u) :
    Alike e (found .cyclic (·.slot? t)) (found .cyclic (·.slot? u)) SameNode := by
  obtain ⟨ht, rfl⟩ := h
  refine alike_found _ ?_
  rw [← e.slot?_eq ht]
  cases hq : e.inner.slot? t with
  | none => exact .none
  | some q => exact .some ⟨(slot?_eq_some_iff.1 hq).2, rfl⟩

theorem alike_node? {q r : Ref} (h : e.SameNode q r) :
    Alike e (found .cyclic (·.node? q)) (found .cyclic (·.node? r)) fun e' n n' => n.rename e'.node e'.list = n' := by
  obtain ⟨hq, rfl⟩ := h
  obtain ⟨n, hn⟩ := exists_node? hq
  refine alike_found _ ?_
  rw [hn, e.node? hn]
  exact .some rfl

theorem alike_follow {t u : Ref} (h : e.SameNode t u) (path : List Turn) :
    Alike e (found .noSuchPart (·.follow? t path)) (found .noSuchPart (·.follow? u path)) SameNode := by
  obtain ⟨ht, rfl⟩ := h
  refine alike_found _ ?_
  rw [← e.follow?_eq path ht]
  cases hc : e.inner.follow? t path with
  | none => exact .none
  | some c => exact .some ⟨e.closed.follow? ht hc, rfl⟩

/-- **Components given to the same descriptor come to the same.** -/
theorem alike_attach {t u : Ref} {l m : ListRef} (ht : e.SameNode t u) (hl : e.SameList l m) :
    Alike e (attach t l) (attach u m) fun _ _ _ => True := by
  refine (alike_items hl).bind fun e₁ cs ds hbefore₁ hcs => ?_
  refine (alike_slot (ht.later hbefore₁)).bind fun e₂ q r hbefore₂ hq => ?_
  refine (alike_node? hq).bind fun e₃ n n' hbefore₃ hn => ?_
  rw [← hn]
  exact alike_receive (hq.later hbefore₃) ((hcs.later hbefore₂).later hbefore₃)

theorem alike_assign (part : String) {t u : Ref} {l m : ListRef} (ht : e.SameNode t u) (hl : e.SameList l m) :
    Alike e (assign part t l) (assign part u m) fun _ _ _ => True := by
  refine (alike_items hl).bind fun e₁ cs ds hbefore₁ hcs => ?_
  refine (alike_node? (ht.later hbefore₁)).bind fun e₂ n n' hbefore₂ hn => ?_
  rw [← hn]
  exact alike_replace part ((ht.later hbefore₁).later hbefore₂) (hcs.later hbefore₂)

mutual

theorem alike_install : ∀ (t : Ty) {e : Placement}, Alike e (install t) (install t) SameNode
  | .scalar c, _ => by
    rw [install]
    exact alike_node trivial
  | .tuple fs, _ => by
    rw [install]
    refine (alike_installFields fs).bind fun e₁ cs ds _ hcs => ?_
    exact (alike_list hcs).bind fun e₂ l m _ hl => alike_tuple hl
  | .array t, _ => by
    rw [install]
    exact (alike_install t).bind fun e₁ a b _ hab => alike_array hab
  | .fixedArray t n, _ => by
    rw [install]
    exact (alike_install t).bind fun e₁ a b _ hab => alike_fixedArray hab n
  | .map k v, _ => by
    rw [install]
    refine (alike_install k).bind fun e₁ a b _ hk => ?_
    exact (alike_install v).bind fun e₂ c d hbefore hv => alike_map (hk.later hbefore) hv

theorem alike_installFields : ∀ (fs : List (Field Ty)) {e : Placement},
    Alike e (installFields fs) (installFields fs) SameItems
  | [], _ => by
    rw [installFields]
    exact alike_pure .nil
  | ⟨n, k⟩ :: fs, _ => by
    rw [installFields]
    refine (alike_install k).bind fun e₁ a b _ hab => ?_
    exact (alike_installFields fs).bind fun e₂ cs ds hbefore hcs => alike_pure (.cons (hab.later hbefore) hcs)

end

end Build

end Builder

/-! ## Registers -/

namespace Placement

def SameValue (e : Placement) : Value → Value → Prop
  | .type t, .type u => e.SameNode t u
  | .list l, .list m => e.SameList l m
  | _, _ => False

/-- Registers of the same names that hold the same things. -/
def SameRegisters (e : Placement) : Registers → Registers → Prop :=
  List.Forall₂ fun p q => p.1 = q.1 ∧ e.SameValue p.2 q.2

section Same

variable {e e' : Placement} {rs rs' : Registers}

theorem SameValue.later {v w : Value} (h : e.SameValue v w) (hbefore : e.Before e') : e'.SameValue v w := by
  cases v <;> cases w
  case type.type => exact SameNode.later h hbefore
  case list.list => exact SameList.later h hbefore
  all_goals exact h.elim

theorem SameRegisters.later (h : e.SameRegisters rs rs') (hbefore : e.Before e') : e'.SameRegisters rs rs' :=
  h.imp fun _ _ hpq => ⟨hpq.1, hpq.2.later hbefore⟩

theorem SameRegisters.lookup (h : e.SameRegisters rs rs') (name : String) :
    Option.Rel e.SameValue (rs.lookup name) (rs'.lookup name) := by
  induction h with
  | nil => exact .none
  | @cons p q rs rs' hpq _ ih =>
    obtain ⟨n, v⟩ := p
    obtain ⟨m, w⟩ := q
    obtain ⟨rfl, hvw⟩ := hpq
    rw [List.lookup_cons, List.lookup_cons]
    cases name == n with
    | true => exact .some hvw
    | false => exact ih

theorem SameRegisters.put (h : e.SameRegisters rs rs') (name : String) {v w : Value} (hvw : e.SameValue v w) :
    e.SameRegisters (rs.put name v) (rs'.put name w) := by
  refine .cons ⟨rfl, hvw⟩ (List.rel_filter (fun p q hpq => ?_) h)
  simp only [hpq.1]

theorem SameRegisters.type (h : e.SameRegisters rs rs') (name : String) :
    SameOutcome e.SameNode (rs.type name) (rs'.type name) := by
  unfold Registers.type
  have hlookup := h.lookup name
  generalize rs.lookup name = a, rs'.lookup name = b at hlookup
  cases hlookup with
  | none => exact .error _
  | @some v w hvw =>
    cases v <;> cases w
    case type.type => exact .ok hvw
    case list.list => exact .error _
    all_goals exact hvw.elim

theorem SameRegisters.list (h : e.SameRegisters rs rs') (name : String) :
    SameOutcome e.SameList (rs.list name) (rs'.list name) := by
  unfold Registers.list
  have hlookup := h.lookup name
  generalize rs.lookup name = a, rs'.lookup name = b at hlookup
  cases hlookup with
  | none => exact .error _
  | @some v w hvw =>
    cases v <;> cases w
    case type.type => exact .error _
    case list.list => exact .ok hvw
    all_goals exact hvw.elim

/-- **A value looks the same in both stores.** -/
theorem SameValue.viewValue? {v w : Value} (h : e.SameValue v w) : e.inner.viewValue? v = e.outer.viewValue? w := by
  cases v <;> cases w
  case type.type t u =>
    obtain ⟨ht, rfl⟩ := h
    exact congrArg (Option.map ValueView.type) (e.view?_eq ht)
  case list.list l m =>
    obtain ⟨hl, rfl⟩ := h
    obtain ⟨cs, hcs⟩ := Store.exists_items? hl
    obtain ⟨ds, hds, hsame⟩ := sameItems_of_items? hcs
    simp only [Store.viewValue?, hcs, hds, Option.bind_eq_bind, Option.bind_some, e.viewFields?_eq hsame]
  all_goals exact h.elim

end Same

end Placement

namespace Builder

open Store
open Placement (SameNode SameList SameItems SameRegisters)

/-! ## Recipes -/

section Recipe

variable {rs rs' : Registers}

theorem alike_type {e : Placement} (hrs : e.SameRegisters rs rs') (name : String) :
    Alike e (lift (.ofExcept (rs.type name))) (lift (.ofExcept (rs'.type name))) SameNode :=
  alike_lift_of_same (hrs.type name)

theorem alike_openList {e : Placement} (hrs : e.SameRegisters rs rs') (name : String) :
    Alike e (lift (.ofExcept (rs.list name))) (lift (.ofExcept (rs'.list name))) SameList :=
  alike_lift_of_same (hrs.list name)

mutual

/-- **A recipe builds the same over both stores.** -/
theorem alike_recipe [Reader.Stack] : ∀ (r : Recipe) {e : Placement}, e.SameRegisters rs rs' →
    Alike e (r.build rs) (r.build rs') SameNode
  | .plain p, _, _ => by
    rw [Recipe.build, Recipe.build]
    exact alike_node (n := .scalar (.plain p)) trivial
  | .sized f n, _, _ => by
    rw [Recipe.build, Recipe.build]
    refine (alike_lift _).bind fun _ size _ _ hsize => ?_
    rw [← hsize]
    exact alike_node (n := .scalar (.sized f size)) trivial
  | .tuple fs, _, hrs => by
    rw [Recipe.build, Recipe.build]
    exact (alike_listRecipe fs hrs).bind fun _ _ _ _ hl => alike_tuple hl
  | .array r, _, hrs => by
    rw [Recipe.build, Recipe.build]
    exact (alike_recipe r hrs).bind fun _ _ _ _ ht => alike_array ht
  | .fixedArray r n, _, hrs => by
    rw [Recipe.build, Recipe.build]
    refine (alike_recipe r hrs).bind fun _ _ _ _ ht => (alike_lift _).bind fun _ size _ hbefore hsize => ?_
    rw [← hsize]
    exact alike_fixedArray (ht.later hbefore) size
  | .map k v, _, hrs => by
    rw [Recipe.build, Recipe.build]
    refine (alike_recipe k hrs).bind fun _ _ _ hbefore hk => ?_
    exact (alike_recipe v (hrs.later hbefore)).bind fun _ _ _ hbefore' hv => alike_map (hk.later hbefore') hv
  | .text signature, _, _ => by
    rw [Recipe.build, Recipe.build]
    refine (alike_lift _).bind fun _ t _ _ ht => ?_
    rw [← ht]
    exact alike_install t
  | .register name, _, hrs => by
    rw [Recipe.build, Recipe.build]
    exact alike_type hrs name

theorem alike_fieldRecipe [Reader.Stack] : ∀ (r : FieldRecipe) {e : Placement}, e.SameRegisters rs rs' →
    Alike e (r.build rs) (r.build rs') fun e' c d => c.name = d.name ∧ e'.SameNode c.kind d.kind
  | .named name kind, _, hrs => by
    rw [FieldRecipe.build, FieldRecipe.build]
    exact (alike_recipe kind hrs).bind fun _ _ _ _ ht => alike_pure ⟨rfl, ht⟩
  | .text param, _, _ => by
    rw [FieldRecipe.build, FieldRecipe.build]
    refine (alike_lift _).bind fun _ f _ _ hf => ?_
    rw [← hf]
    exact (alike_install f.kind).bind fun _ _ _ _ ht => alike_pure ⟨rfl, ht⟩

theorem alike_listRecipe [Reader.Stack] : ∀ (r : ListRecipe) {e : Placement}, e.SameRegisters rs rs' →
    Alike e (r.build rs) (r.build rs') SameList
  | .items fields, _, hrs => by
    rw [ListRecipe.build, ListRecipe.build]
    exact (alike_buildItems fields hrs).bind fun _ _ _ _ hcs => alike_list hcs
  | .register name, _, hrs => by
    rw [ListRecipe.build, ListRecipe.build]
    exact alike_openList hrs name

theorem alike_buildItems [Reader.Stack] : ∀ (fs : List FieldRecipe) {e : Placement}, e.SameRegisters rs rs' →
    Alike e (ListRecipe.buildItems rs fs) (ListRecipe.buildItems rs' fs) SameItems
  | [], _, _ => by
    rw [ListRecipe.buildItems, ListRecipe.buildItems]
    exact alike_pure .nil
  | f :: fs, _, hrs => by
    rw [ListRecipe.buildItems, ListRecipe.buildItems]
    refine (alike_fieldRecipe f hrs).bind fun _ c d hbefore hcd => ?_
    obtain ⟨name, c⟩ := c
    obtain ⟨name', d⟩ := d
    obtain ⟨rfl, hcd⟩ := hcd
    exact (alike_buildItems fs (hrs.later hbefore)).bind fun _ _ _ hbefore' hcs =>
      alike_pure (.cons (hcd.later hbefore') hcs)

end

end Recipe

/-! ## Steps -/

section Step

variable {e : Placement} {rs rs' : Registers}

theorem alike_look (hrs : e.SameRegisters rs rs') (name : String) :
    Alike e (rs.look name) (rs'.look name) fun _ v w => v = w :=
  (alike_found _ (hrs.lookup name)).bind fun _ _ _ _ hvw => alike_found_same hvw.viewValue?

theorem alike_members : ∀ (names : List String) {e : Placement}, e.SameRegisters rs rs' →
    Alike e (rs.members names) (rs'.members names) fun _ ms ms' => ms = ms'
  | [], _, _ => by
    rw [Registers.members, Registers.members]
    exact alike_pure rfl
  | name :: names, _, hrs => by
    rw [Registers.members, Registers.members]
    refine (alike_look hrs name).bind fun _ v w hbefore₁ hvw => ?_
    rw [hvw]
    refine (alike_lift _).bind fun _ m m' hbefore₂ hm => ?_
    rw [hm]
    refine (alike_members names ((hrs.later hbefore₁).later hbefore₂)).bind fun _ ms ms' _ hms => ?_
    rw [hms]
    exact alike_pure rfl

theorem alike_combine {l m : ListRef} (hl : e.SameList l m) : Alike e (combine l) (combine m) fun _ _ _ => True := by
  refine (alike_list .nil).bind fun _ _ _ hbefore₁ h₀ => (alike_tuple h₀).bind fun _ _ _ hbefore₂ hr => ?_
  exact alike_attach hr ((hl.later hbefore₁).later hbefore₂)

theorem alike_render (title : String) (version : Int) {l m : ListRef} (hl : e.SameList l m) :
    Alike e (render title version l) (render title version m) fun _ text text' => text = text' := by
  refine (alike_items hl).bind fun e₁ cs ds hbefore₁ hcs => ?_
  simp only [hcs.eq_nil_iff]
  split
  · exact alike_fail _
  · refine (alike_combine (hl.later hbefore₁)).bind fun e₂ _ _ hbefore₂ _ => ?_
    refine (alike_found_same (e₂.viewFields?_eq (hcs.later hbefore₂))).bind fun _ fs fs' _ hfs => ?_
    rw [hfs]
    exact alike_lift _

end Step

end Builder

open Builder

/-- **What supplies descriptors does the same over both stores**, if its way of doing so does. -/
theorem alike_supply [Reader.Stack] {e : Placement} {rs rs' : Registers} (hrs : e.SameRegisters rs rs') (reg : String)
    (fields : ListRecipe) {way : Ref → ListRef → Builder Unit}
    (hway : ∀ {e : Placement} {t u l m}, e.SameNode t u → e.SameList l m → Alike e (way t l) (way u m) fun _ _ _ => True) :
    Alike e (rs.supply reg fields way) (rs'.supply reg fields way) fun e' p q =>
      p.1 = q.1 ∧ e'.SameRegisters p.2 q.2 :=
  (alike_type hrs reg).bind fun _ _ _ hbefore₁ ht =>
    (alike_listRecipe fields (hrs.later hbefore₁)).bind fun _ _ _ hbefore₂ hl =>
      (hway (ht.later hbefore₂) hl).bind fun _ _ _ hbefore₃ _ =>
        alike_pure ⟨rfl, ((hrs.later hbefore₁).later hbefore₂).later hbefore₃⟩

/-- **A step does the same over both stores**, if the registers hold the same things: it has the same answer or fault,
and leaves the same things in the registers. -/
theorem Step.alike [Reader.Stack] {e : Placement} {rs rs' : Registers} (hrs : e.SameRegisters rs rs') : ∀ st : Step,
    Alike e (st.act rs) (st.act rs') fun e' p q => p.1 = q.1 ∧ e'.SameRegisters p.2 q.2
  | .new reg type =>
    (alike_recipe type hrs).bind fun _ _ _ hbefore ht =>
      alike_pure ⟨rfl, (hrs.later hbefore).put reg (v := .type _) (w := .type _) ht⟩
  | .get reg source path =>
    (alike_type hrs source).bind fun _ _ _ hbefore₁ ht => (alike_follow ht path).bind fun _ _ _ hbefore₂ hu =>
      alike_pure ⟨rfl, ((hrs.later hbefore₁).later hbefore₂).put reg (v := .type _) (w := .type _) hu⟩
  | .list reg fields =>
    (alike_listRecipe fields hrs).bind fun _ _ _ hbefore₁ hl => (alike_items hl).bind fun _ _ _ hbefore₂ hcs =>
      (alike_list hcs).bind fun _ _ _ hbefore₃ hm => alike_pure
        ⟨rfl, (((hrs.later hbefore₁).later hbefore₂).later hbefore₃).put reg (v := .list _) (w := .list _) hm⟩
  | .append reg field => by
    refine (alike_openList hrs reg).bind fun _ l m hbefore₁ hl => ?_
    refine (alike_fieldRecipe field (hrs.later hbefore₁)).bind fun _ c d hbefore₂ hcd => ?_
    obtain ⟨name, c⟩ := c
    obtain ⟨name', d⟩ := d
    obtain ⟨rfl, hcd⟩ := hcd
    refine (alike_items (hl.later hbefore₂)).bind fun _ cs ds hbefore₃ hcs => ?_
    refine (alike_refill ((hl.later hbefore₂).later hbefore₃) (hcs.append (.cons (hcd.later hbefore₃) .nil))).bind
      fun _ _ _ hbefore₄ _ => alike_pure ⟨rfl, ?_⟩
    exact (((hrs.later hbefore₁).later hbefore₂).later hbefore₃).later hbefore₄
  | .clear reg =>
    (alike_openList hrs reg).bind fun _ _ _ hbefore₁ hl => (alike_refill hl .nil).bind fun _ _ _ hbefore₂ _ =>
      alike_pure ⟨rfl, (hrs.later hbefore₁).later hbefore₂⟩
  | .attach reg fields => alike_supply hrs reg fields alike_attach
  | .assign reg part fields => alike_supply hrs reg (.items fields) (alike_assign part)
  | .equal a b => by
    refine (alike_look hrs a).bind fun _ x x' hbefore₁ hx => ?_
    refine (alike_look (hrs.later hbefore₁) b).bind fun _ y y' hbefore₂ hy => ?_
    rw [hx, hy]
    exact alike_pure ⟨rfl, (hrs.later hbefore₁).later hbefore₂⟩
  | .distinct regs => by
    refine (alike_members regs hrs).bind fun _ ms ms' hbefore hms => ?_
    rw [hms]
    exact alike_pure ⟨rfl, hrs.later hbefore⟩
  | .render fields version title => by
    refine (alike_listRecipe fields hrs).bind fun _ l m hbefore₁ hl => ?_
    refine (alike_render title version hl).bind fun _ text text' hbefore₂ htext => ?_
    rw [htext]
    exact alike_pure ⟨rfl, (hrs.later hbefore₁).later hbefore₂⟩
  | .ask reg query => by
    refine (alike_look hrs reg).bind fun _ v w hbefore₁ hvw => ?_
    rw [hvw]
    refine (alike_lift _).bind fun _ a b hbefore₂ hab => ?_
    rw [hab]
    exact alike_pure ⟨rfl, (hrs.later hbefore₁).later hbefore₂⟩

end AbiTypes
