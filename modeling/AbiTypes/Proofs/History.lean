import AbiTypes.Proofs.Omission
import AbiTypes.Proofs.Planting
/-!
# History — what the past of a session says about its descriptors

What a recipe builds is what it asks for: new descriptors of its variants and sizes, each tuple with the components of
the list it was constructed of, as the list was at that moment (`Recipe.Made`).  From then on a tuple has the components
that were attached or assigned to it last, and every other descriptor stays what it was built as (`Session.History`).
-/
namespace AbiTypes

open Store

/-! ## What recipes ask for -/

section Made

variable [Reader.Stack]

mutual

/-- **A descriptor is what a recipe asks for**, as it is built in a session: what is made for it is new, and what it uses
is in the registers. -/
inductive Recipe.Made (s : Session) (s' : Store) : Recipe → Ref → Prop
  | plain {p : Plain} {r : Ref} (hr : s.store.nodes.size ≤ r) (h : s'.node? r = some (.scalar (.plain p))) :
    Recipe.Made s s' (.plain p) r
  | sized {f : Sized} {n : Nat} {r : Ref} (hr : s.store.nodes.size ≤ r)
    (h : s'.node? r = some (.scalar (.sized f n))) : Recipe.Made s s' (.sized f (.integer n)) r
  | tuple {fields : ListRecipe} {cs : Components} {r : Ref} (hr : s.store.nodes.size ≤ r)
    (h : s'.components? r = some cs) (hcs : ListRecipe.Made s s' fields cs) : Recipe.Made s s' (.tuple fields) r
  | array {elem : Recipe} {e r : Ref} (hr : s.store.nodes.size ≤ r) (h : s'.node? r = some (.array e))
    (he : Recipe.Made s s' elem e) : Recipe.Made s s' (.array elem) r
  | fixedArray {elem : Recipe} {e r : Ref} {n : Nat} (hr : s.store.nodes.size ≤ r)
    (h : s'.node? r = some (.fixedArray e n)) (he : Recipe.Made s s' elem e) :
    Recipe.Made s s' (.fixedArray elem (.integer n)) r
  | map {key value : Recipe} {k v r : Ref} (hr : s.store.nodes.size ≤ r) (h : s'.node? r = some (.map k v))
    (hk : Recipe.Made s s' key k) (hv : Recipe.Made s s' value v) : Recipe.Made s s' (.map key value) r
  | text {signature : String} {t : Ty} {lo r : Ref} (ht : (Ty.read signature).outcome = .ok t)
    (hlo : s.store.nodes.size ≤ lo) (h : s'.Planted lo r t) : Recipe.Made s s' (.text signature) r
  | register {name : String} {r : Ref} (h : s.registers.type name = .ok r) : Recipe.Made s s' (.register name) r

inductive FieldRecipe.Made (s : Session) (s' : Store) : FieldRecipe → Field Ref → Prop
  | named {name : String} {kind : Recipe} {r : Ref} (h : Recipe.Made s s' kind r) :
    FieldRecipe.Made s s' (.named name kind) ⟨name, r⟩
  | text {param : String} {f : Field Ty} {lo r : Ref} (hf : (Field.read param).outcome = .ok f)
    (hlo : s.store.nodes.size ≤ lo) (h : s'.Planted lo r f.kind) : FieldRecipe.Made s s' (.text param) ⟨f.name, r⟩

/-- The components that a list recipe asks for: new ones, or what the list in a register holds. -/
inductive ListRecipe.Made (s : Session) (s' : Store) : ListRecipe → Components → Prop
  | items {fields : List FieldRecipe} {cs : Components} (h : ListRecipe.MadeItems s s' fields cs) :
    ListRecipe.Made s s' (.items fields) cs
  | register {name : String} {l : ListRef} {cs : Components} (hl : s.registers.list name = .ok l)
    (hcs : s.store.items? l = some cs) : ListRecipe.Made s s' (.register name) cs

inductive ListRecipe.MadeItems (s : Session) (s' : Store) : List FieldRecipe → Components → Prop
  | nil : ListRecipe.MadeItems s s' [] []
  | cons {field : FieldRecipe} {fields : List FieldRecipe} {c : Field Ref} {cs : Components}
    (hc : FieldRecipe.Made s s' field c) (hcs : ListRecipe.MadeItems s s' fields cs) :
    ListRecipe.MadeItems s s' (field :: fields) (c :: cs)

end

variable {s : Session} {s' s'' : Store}

mutual

/-- **What was made stays**, whatever comes of the descriptors that were there before. -/
theorem Recipe.Made.stay (hsame : ∀ r, s.store.nodes.size ≤ r → s'.SameAt s'' r) : ∀ {recipe : Recipe} {r : Ref},
    recipe.Made s s' r → recipe.Made s s'' r
  | _, r, .plain hr h => .plain hr ((hsame r hr).node Node.not_isTuple_scalar h)
  | _, r, .sized hr h => .sized hr ((hsame r hr).node Node.not_isTuple_scalar h)
  | _, r, .tuple hr h hcs => .tuple hr ((hsame r hr).components h) (hcs.stay hsame)
  | _, r, .array hr h he => .array hr ((hsame r hr).node Node.not_isTuple_array h) (he.stay hsame)
  | _, r, .fixedArray hr h he => .fixedArray hr ((hsame r hr).node Node.not_isTuple_fixedArray h) (he.stay hsame)
  | _, r, .map hr h hk hv => .map hr ((hsame r hr).node Node.not_isTuple_map h) (hk.stay hsame) (hv.stay hsame)
  | _, _, .text ht hlo h => .text ht hlo (h.stay fun x hx _ => hsame x (hlo.trans hx))
  | _, _, .register h => .register h

theorem FieldRecipe.Made.stay (hsame : ∀ r, s.store.nodes.size ≤ r → s'.SameAt s'' r) : ∀ {recipe : FieldRecipe}
    {c : Field Ref}, recipe.Made s s' c → recipe.Made s s'' c
  | _, _, .named h => .named (h.stay hsame)
  | _, _, .text hf hlo h => .text hf hlo (h.stay fun x hx _ => hsame x (hlo.trans hx))

theorem ListRecipe.Made.stay (hsame : ∀ r, s.store.nodes.size ≤ r → s'.SameAt s'' r) : ∀ {recipe : ListRecipe}
    {cs : Components}, recipe.Made s s' cs → recipe.Made s s'' cs
  | _, _, .items h => .items (h.stay hsame)
  | _, _, .register hl hcs => .register hl hcs

theorem ListRecipe.MadeItems.stay (hsame : ∀ r, s.store.nodes.size ≤ r → s'.SameAt s'' r) :
    ∀ {fields : List FieldRecipe} {cs : Components}, ListRecipe.MadeItems s s' fields cs →
      ListRecipe.MadeItems s s'' fields cs
  | _, _, .nil => .nil
  | _, _, .cons hc hcs => .cons (hc.stay hsame) (hcs.stay hsame)

end

end Made

namespace Store

theorem node?_addNode_size (s : Store) (n : Node) : (s.addNode n).node? s.nodes.size = some n :=
  (node?_addNode s n _).trans (if_pos rfl)

theorem components?_addTuple_size (s : Store) (cs : Components) : (s.addTuple cs).components? s.nodes.size = some cs :=
  components?_eq_some_iff.2 ⟨_, (node?_addTuple s cs _).trans (if_pos rfl), (items?_addTuple s cs _).trans (if_pos rfl)⟩

theorem sameAt_setList {s : Store} {l : ListRef} (hl : s.Free l) (cs : Components) (r : Ref) :
    s.SameAt (s.setList l cs) r where
  node _ := id
  components := (components?_setList_of_free hl cs r).trans

theorem lt_of_components? {s : Store} {r : Ref} {cs : Components} (h : s.components? r = some cs) : r < s.nodes.size := by
  obtain ⟨_, hl, -⟩ := components?_eq_some_iff.1 h
  exact lt_of_node? hl

/-- A tuple has components. -/
def Filled (s : Store) (r : Ref) : Prop := ∃ cs, s.components? r = some cs ∧ cs ≠ []

theorem Extends.size_nodes_le {s s' : Store} (h : s.Extends s') : s.nodes.size ≤ s'.nodes.size := by
  by_contra hlt
  obtain ⟨n, hn⟩ := exists_node? (Nat.lt_of_not_le hlt)
  exact Nat.lt_irrefl _ (lt_of_node? (h.node hn))

end Store

namespace Builder

theorem tuple_of_replace_ok {part : String} {r : Ref} {cs : Components} {n : Node} {s : Store}
    (h : (replace part r cs n s).outcome = .ok ()) : ∃ m, n = .tuple m ∧ part = "params" := by
  unfold replace at h
  by_cases hpart : part ∉ n.parts
  · rw [if_pos hpart] at h
    cases h
  · rw [if_neg hpart] at h
    cases n with
    | tuple m => exact ⟨m, rfl, List.mem_singleton.1 (not_not.1 hpart)⟩
    | scalar _ | array _ | fixedArray _ _ | map _ _ => cases h

/-- **Only the components of a tuple can be assigned.** -/
theorem tuple_of_assign_ok {part : String} {t : Ref} {l : ListRef} {s : Store}
    (h : (assign part t l s).outcome = .ok ()) : ∃ m, s.node? t = some (.tuple m) ∧ part = "params" := by
  obtain ⟨cs, -, h, -⟩ := of_bind_ok h
  obtain ⟨n, hn, h, -⟩ := of_bind_ok h
  obtain ⟨m, rfl, hpart⟩ := tuple_of_replace_ok h
  exact ⟨m, outcome_found.1 hn, hpart⟩

theorem planted_install {s : Store} (hs : s.Closed) {t : Ty} {r : Ref} (h : (install t s).outcome = .ok r) :
    (install t s).store.Planted s.nodes.size r t := by
  obtain ⟨r', hr', -, hp⟩ := gives_install t hs
  cases h.symm.trans hr'
  exact hp

section Made

variable [Reader.Stack] {s : Session}

mutual

/-- **What a recipe builds is what it asks for**, also after more was built for the step. -/
theorem made_recipe (hs : s.Sound) : ∀ (recipe : Recipe) {s₁ : Store}, s₁.Closed → s.registers.Fit s₁ →
    s.store.Extends s₁ → ∀ {r : Ref}, (recipe.build s.registers s₁).outcome = .ok r →
      recipe.Made s (recipe.build s.registers s₁).store r
  | .plain p, s₁, _, _, hext, r, h => by
    rw [Recipe.build] at h ⊢
    cases h
    exact .plain hext.size_nodes_le (node?_addNode_size s₁ _)
  | .sized f n, s₁, _, _, hext, r, h => by
    rw [Recipe.build] at h ⊢
    obtain ⟨size, hsize, h, hstore⟩ := of_bind_ok h
    cases h
    obtain rfl := (SizeArg.check_eq_ok_iff _ n size).1 hsize
    rw [hstore]
    exact .sized hext.size_nodes_le (node?_addNode_size s₁ _)
  | .tuple fields, s₁, hs₁, hrs, hext, r, h => by
    rw [Recipe.build] at h ⊢
    obtain ⟨l, hl, h, hstore⟩ := of_bind_ok h
    obtain ⟨cs, hitems, hmade⟩ := made_listRecipe hs fields hs₁ hrs hext hl
    have hbuilt := hext.trans ((makes_listRecipe fields hs₁ hrs).keeps (.inl trivial))
    obtain ⟨ds, hds, h, hstore'⟩ := of_bind_ok h
    cases hitems.symm.trans (outcome_found.1 hds)
    cases h
    rw [hstore, tuple, hstore']
    exact .tuple hbuilt.size_nodes_le (components?_addTuple_size _ cs)
      (hmade.stay fun x _ => (extends_addTuple _ cs).sameAt x)
  | .array elem, s₁, hs₁, hrs, hext, r, h => by
    rw [Recipe.build] at h ⊢
    obtain ⟨e, he, h, hstore⟩ := of_bind_ok h
    have hbuilt := hext.trans ((makes_recipe elem hs₁ hrs).keeps (.inl trivial))
    cases h
    rw [hstore]
    exact .array hbuilt.size_nodes_le (node?_addNode_size _ _)
      ((made_recipe hs elem hs₁ hrs hext he).stay fun x _ => (extends_addNode _ _).sameAt x)
  | .fixedArray elem n, s₁, hs₁, hrs, hext, r, h => by
    rw [Recipe.build] at h ⊢
    obtain ⟨e, he, h, hstore⟩ := of_bind_ok h
    have hbuilt := hext.trans ((makes_recipe elem hs₁ hrs).keeps (.inl trivial))
    obtain ⟨size, hsize, h, hstore'⟩ := of_bind_ok h
    cases h
    obtain rfl := (SizeArg.check_eq_ok_iff _ n size).1 hsize
    rw [hstore, hstore']
    exact .fixedArray hbuilt.size_nodes_le (node?_addNode_size _ _)
      ((made_recipe hs elem hs₁ hrs hext he).stay fun x _ => (extends_addNode _ _).sameAt x)
  | .map key value, s₁, hs₁, hrs, hext, r, h => by
    rw [Recipe.build] at h ⊢
    obtain ⟨k, hk, h, hstore⟩ := of_bind_ok h
    have hkey := makes_recipe key hs₁ hrs
    have hs₂ := hkey.moves.closed hs₁
    have hrs₂ := hrs.grow hkey.moves
    have hext₂ := hext.trans (hkey.keeps (.inl trivial))
    obtain ⟨v, hv, h, hstore'⟩ := of_bind_ok h
    have hvalue := (makes_recipe value hs₂ hrs₂).keeps (.inl trivial)
    cases h
    rw [hstore, hstore']
    exact .map (hext₂.trans hvalue).size_nodes_le (node?_addNode_size _ _)
      ((made_recipe hs key hs₁ hrs hext hk).stay fun x _ => (hvalue.trans (extends_addNode _ _)).sameAt x)
      ((made_recipe hs value hs₂ hrs₂ hext₂ hv).stay fun x _ => (extends_addNode _ _).sameAt x)
  | .text signature, s₁, hs₁, _, hext, r, h => by
    rw [Recipe.build] at h ⊢
    obtain ⟨t, ht, h, hstore⟩ := of_bind_ok h
    rw [hstore]
    exact .text ht hext.size_nodes_le (planted_install hs₁ h)
  | .register name, s₁, _, _, _, r, h => by
    rw [Recipe.build] at h ⊢
    exact .register h

theorem made_fieldRecipe (hs : s.Sound) : ∀ (recipe : FieldRecipe) {s₁ : Store}, s₁.Closed → s.registers.Fit s₁ →
    s.store.Extends s₁ → ∀ {c : Field Ref}, (recipe.build s.registers s₁).outcome = .ok c →
      recipe.Made s (recipe.build s.registers s₁).store c
  | .named name kind, s₁, hs₁, hrs, hext, c, h => by
    rw [FieldRecipe.build] at h ⊢
    obtain ⟨r, hr, h, hstore⟩ := of_bind_ok h
    cases h
    rw [hstore]
    exact .named (made_recipe hs kind hs₁ hrs hext hr)
  | .text param, s₁, hs₁, _, hext, c, h => by
    rw [FieldRecipe.build] at h ⊢
    obtain ⟨f, hf, h, hstore⟩ := of_bind_ok h
    obtain ⟨r, hr, h, hstore'⟩ := of_bind_ok h
    cases h
    rw [hstore, hstore']
    exact .text hf hext.size_nodes_le (planted_install hs₁ hr)

theorem made_listRecipe (hs : s.Sound) : ∀ (recipe : ListRecipe) {s₁ : Store}, s₁.Closed → s.registers.Fit s₁ →
    s.store.Extends s₁ → ∀ {l : ListRef}, (recipe.build s.registers s₁).outcome = .ok l →
      ∃ cs, (recipe.build s.registers s₁).store.items? l = some cs ∧
        recipe.Made s (recipe.build s.registers s₁).store cs
  | .items fields, s₁, hs₁, hrs, hext, l, h => by
    rw [ListRecipe.build] at h ⊢
    obtain ⟨cs, hcs, h, hstore⟩ := of_bind_ok h
    cases h
    rw [hstore]
    exact ⟨cs, (items?_addList _ cs _).trans (if_pos rfl), .items
      ((made_buildItems hs fields hs₁ hrs hext hcs).stay fun x _ => (extends_addList _ cs).sameAt x)⟩
  | .register name, s₁, _, _, hext, l, h => by
    rw [ListRecipe.build] at h ⊢
    obtain ⟨cs, hcs⟩ := exists_items? (hs.fit.list h).1
    exact ⟨cs, hext.items hcs, .register h hcs⟩

theorem made_buildItems (hs : s.Sound) : ∀ (fields : List FieldRecipe) {s₁ : Store}, s₁.Closed → s.registers.Fit s₁ →
    s.store.Extends s₁ → ∀ {cs : Components}, (ListRecipe.buildItems s.registers fields s₁).outcome = .ok cs →
      ListRecipe.MadeItems s (ListRecipe.buildItems s.registers fields s₁).store fields cs
  | [], s₁, _, _, _, cs, h => by
    rw [ListRecipe.buildItems] at h ⊢
    cases h
    exact .nil
  | field :: fields, s₁, hs₁, hrs, hext, cs, h => by
    rw [ListRecipe.buildItems] at h ⊢
    obtain ⟨c, hc, h, hstore⟩ := of_bind_ok h
    have hfield := makes_fieldRecipe field hs₁ hrs
    have hs₂ := hfield.moves.closed hs₁
    have hrs₂ := hrs.grow hfield.moves
    have hext₂ := hext.trans (hfield.keeps (.inl trivial))
    obtain ⟨ds, hds, h, hstore'⟩ := of_bind_ok h
    have hrest := (makes_buildItems fields hs₂ hrs₂).keeps (.inl trivial)
    cases h
    rw [hstore, hstore']
    exact .cons ((made_fieldRecipe hs field hs₁ hrs hext hc).stay fun x _ => hrest.sameAt x)
      (made_buildItems hs fields hs₂ hrs₂ hext₂ hds)

end

end Made

end Builder

namespace Registers

theorem type_put (rs : Registers) (name : String) (t : Ref) : (rs.put name (.type t)).type name = .ok t := by
  simp [Registers.type, Registers.put]

theorem list_put (rs : Registers) (name : String) (l : ListRef) : (rs.put name (.list l)).list name = .ok l := by
  simp [Registers.list, Registers.put]

end Registers

namespace Session

open Builder

section History

variable [Reader.Stack] {s : Session}

/-! ## Steps -/

/-- **What a step that succeeds has made of what it was asked to**: a descriptor or a list that its recipe asks for, in its
register, or another content for the list that was there. -/
def Built (s : Session) (st : Step) : Prop :=
  match st with
  | .new reg type => ∃ r, (s.after st).registers.type reg = .ok r ∧ type.Made s (s.after st).store r
  | .list reg fields => ∃ l cs, (s.after st).registers.list reg = .ok l ∧ s.store.lists.size ≤ l ∧
      (s.after st).store.items? l = some cs ∧ fields.Made s (s.after st).store cs
  | .append reg field => ∃ l cs c, s.registers.list reg = .ok l ∧ s.store.items? l = some cs ∧
      (s.after st).store.items? l = some (cs ++ [c]) ∧ field.Made s (s.after st).store c
  | .clear reg => ∃ l, s.registers.list reg = .ok l ∧ (s.after st).store.items? l = some []
  | _ => True

section Built

variable {reg : String} {p : Answer × Registers}

theorem Sound.built_new (hs : s.Sound) {type : Recipe} (hout : (s.step (.new reg type)).outcome = .ok p) :
    s.Built (.new reg type) := by
  have hregs := after_of_ok hout
  obtain ⟨r, hr, hout, hstore⟩ := of_bind_ok hout
  cases hout
  have hafter : (s.after (.new reg type)).store = (type.build s.registers s.store).store := hstore
  refine ⟨r, (congrArg (Registers.type · reg) hregs).trans (Registers.type_put _ _ _), ?_⟩
  rw [hafter]
  exact made_recipe hs type hs.closed hs.fit (.refl _) hr

/-- A list that is put into a register is new, also where it is of what another one holds. -/
theorem Sound.built_list (hs : s.Sound) {fields : ListRecipe} (hout : (s.step (.list reg fields)).outcome = .ok p) :
    s.Built (.list reg fields) := by
  have hregs := after_of_ok hout
  obtain ⟨l, hl, hout, hstore⟩ := of_bind_ok hout
  obtain ⟨cs, hcs, hmade⟩ := made_listRecipe hs fields hs.closed hs.fit (.refl _) hl
  obtain ⟨ds, hds, hout, hstore'⟩ := of_bind_ok hout
  cases hcs.symm.trans (outcome_found.1 hds)
  obtain ⟨m, hm, hout, hstore''⟩ := of_bind_ok hout
  cases hm
  cases hout
  have hafter : (s.after (.list reg fields)).store = (fields.build s.registers s.store).store.addList cs :=
    hstore.trans (hstore'.trans hstore'')
  refine ⟨_, cs, (congrArg (Registers.list · reg) hregs).trans (Registers.list_put _ _ _), ?_⟩
  rw [hafter]
  exact ⟨(makes_listRecipe fields hs.closed hs.fit).moves.size_lists_le, (items?_addList _ cs _).trans (if_pos rfl),
    hmade.stay fun x _ => (extends_addList _ cs).sameAt x⟩

theorem Sound.built_append (hs : s.Sound) {field : FieldRecipe}
    (hout : (s.step (.append reg field)).outcome = .ok p) : s.Built (.append reg field) := by
  obtain ⟨l, hl, hout, hstore⟩ := of_bind_ok hout
  obtain ⟨c, hc, hout, hstore'⟩ := of_bind_ok hout
  obtain ⟨cs, hcs, -, hstore''⟩ := of_bind_ok hout
  obtain ⟨hlt, hfree⟩ := hs.fit.list hl
  have hfield := makes_fieldRecipe field hs.closed hs.fit
  have hext := hfield.keeps (.inl trivial)
  obtain ⟨ds, hds⟩ := exists_items? hlt
  cases (hext.items hds).symm.trans (outcome_found.1 hcs)
  have hafter : (s.after (.append reg field)).store =
      (field.build s.registers s.store).store.setList l (cs ++ [c]) := hstore.trans (hstore'.trans hstore'')
  refine ⟨l, cs, c, hl, hds, ?_⟩
  rw [hafter]
  refine ⟨(items?_setList _ _ _ _).trans (if_pos ⟨rfl, lt_of_items? (hext.items hds)⟩), ?_⟩
  exact (made_fieldRecipe hs field hs.closed hs.fit (.refl _) hc).stay fun x _ =>
    sameAt_setList (hfield.moves.free hlt hfree) _ x

theorem Sound.built_clear (hs : s.Sound) (hout : (s.step (.clear reg)).outcome = .ok p) : s.Built (.clear reg) := by
  obtain ⟨l, hl, -, hstore⟩ := of_bind_ok hout
  have hafter : (s.after (.clear reg)).store = s.store.setList l [] := hstore
  refine ⟨l, hl, ?_⟩
  rw [hafter]
  exact (items?_setList _ _ _ _).trans (if_pos ⟨rfl, (hs.fit.list hl).1⟩)

theorem Sound.built (hs : s.Sound) {st : Step} (hout : (s.step st).outcome = .ok p) : s.Built st := by
  cases st with
  | new _ _ => exact hs.built_new hout
  | list _ _ => exact hs.built_list hout
  | append _ _ => exact hs.built_append hout
  | clear _ => exact hs.built_clear hout
  | _ => trivial

end Built

/-- **A tuple that components are attached to was there before**, and is not made for the step. -/
theorem Sound.lt_of_attaches (hs : s.Sound) {st : Step} {r : Ref} {cs : Components} (h : s.Attaches st r cs) :
    r < s.store.nodes.size := by
  obtain ⟨reg, fields, _, hst⟩ := h.supplies
  obtain ⟨t, _, ht, hslot, -⟩ := h.exists_isSlot hst
  have hmoves := (makes_listRecipe fields hs.closed hs.fit).moves
  exact ((hmoves.isSlot_iff hs.closed (hs.fit.type ht)).1 hslot).lt hs.closed (hs.fit.type ht)

/-- **The components that are attached are those that the step asks for.** -/
theorem Sound.made_of_attaches (hs : s.Sound) {st : Step} {r : Ref} {cs : Components} (h : s.Attaches st r cs) :
    ∃ reg fields way, st.Supplies reg fields way ∧ fields.Made s (s.after st).store cs := by
  have hr := hs.lt_of_attaches h
  obtain ⟨reg, fields, way, hst⟩ := h.supplies
  have hstore := hs.store_eq_of_attaches h hst
  obtain ⟨hst', -, -, hl, -, -, hcs⟩ := h
  obtain ⟨rfl, rfl, -⟩ := hst'.unique hst
  obtain ⟨ds, hds, hmade⟩ := made_listRecipe hs fields hs.closed hs.fit (.refl _) hl
  cases hcs.symm.trans hds
  refine ⟨reg, fields, way, hst, hstore ▸ hmade.stay fun x hx => ?_⟩
  exact sameAt_giveTuple ((makes_listRecipe fields hs.closed hs.fit).moves.closed hs.closed) cs (hr.trans_le hx).ne'

/-- **A descriptor that nothing is attached to stays.** -/
theorem Sound.sameAt_after (hs : s.Sound) {st : Step} {x : Ref} (hx : x < s.store.nodes.size)
    (h : ∀ cs, ¬ s.Attaches st x cs) : s.store.SameAt (s.after st).store x where
  node {n} ht hn := by
    obtain ⟨n', hn', rfl | ⟨htuple, -⟩⟩ := (hs.moves st).node? hn
    · exact hn'
    · exact absurd htuple ht
  components hcs := (hs.not_attached hx h).trans hcs

/-- **Only an assignment takes all components away**, and it is one to the tuple itself. -/
theorem Sound.eq_assign_of_attaches_nil (hs : s.Sound) {st : Step} {r : Ref} (h : s.Attaches st r []) :
    ∃ reg, st = .assign reg "params" [] ∧ s.registers.type reg = .ok r := by
  obtain ⟨hst, ⟨p, hp⟩, ht, hl, hr, hm, hcs⟩ := h
  obtain ⟨t', l', ht', hl', hway, -, -⟩ := of_supplies_ok hst hp
  cases ht.symm.trans ht'
  cases hl.symm.trans hl'
  cases hst with
  | attach reg fields =>
    rw [attach_eq_receive hcs (slot?_eq_some_iff.2 ⟨hr, lt_of_node? hm⟩) hm, receive_tuple_nil rfl] at hway
    cases hway
  | assign reg part fields =>
    obtain ⟨_, hds, hmade⟩ := made_listRecipe hs (.items fields) hs.closed hs.fit (.refl _) hl
    cases hcs.symm.trans hds
    obtain ⟨⟨⟩⟩ := hmade
    obtain ⟨m, htuple, rfl⟩ := tuple_of_assign_ok hway
    cases hr.eq_of_tuple htuple
    exact ⟨_, rfl, ht⟩

/-! ## Runs -/

/-- No step of a run attaches components to a descriptor. -/
def Spares (s : Session) (steps : List Step) (r : Ref) : Prop :=
  ∀ earlier st later, steps = earlier ++ st :: later → ∀ cs, ¬ (s.afterAll earlier).Attaches st r cs

theorem Spares.of_cons {st : Step} {rest : List Step} {r : Ref} (h : s.Spares (st :: rest) r) :
    (∀ cs, ¬ s.Attaches st r cs) ∧ (s.after st).Spares rest r :=
  ⟨h [] st rest rfl, fun earlier st' later hrest => h (st :: earlier) st' later (congrArg (st :: ·) hrest)⟩

/-- **A descriptor that a run spares stays.** -/
theorem Sound.sameAt_afterAll : ∀ (steps : List Step) {s : Session}, s.Sound → ∀ {x : Ref}, x < s.store.nodes.size →
    s.Spares steps x → s.store.SameAt (s.afterAll steps).store x
  | [], s, _, x, _, _ => .refl s.store x
  | st :: rest, s, hs, x, hx, h => by
    obtain ⟨hst, hrest⟩ := h.of_cons
    refine (hs.sameAt_after hx hst).trans ?_
    exact Sound.sameAt_afterAll rest (hs.after st) (hx.trans_le (hs.moves st).size_nodes_le) hrest

/-- A run assigns the empty list to the components of a tuple. -/
def Empties (s : Session) (steps : List Step) (r : Ref) : Prop :=
  ∃ earlier reg later, steps = earlier ++ .assign reg "params" [] :: later ∧
    (s.afterAll earlier).registers.type reg = .ok r

theorem Sound.filled_after (hs : s.Sound) {st : Step} {r : Ref} (h : s.store.Filled r)
    (hst : ¬ s.Empties [st] r) : (s.after st).store.Filled r := by
  obtain ⟨ds, hds, hne⟩ := h
  by_cases hatt : ∃ cs, s.Attaches st r cs
  · obtain ⟨cs, hatt⟩ := hatt
    refine ⟨cs, hs.attached hatt, ?_⟩
    rintro rfl
    obtain ⟨reg, rfl, hr⟩ := hs.eq_assign_of_attaches_nil hatt
    exact hst ⟨[], reg, [], rfl, hr⟩
  · exact ⟨ds, (hs.not_attached (lt_of_components? hds) fun cs h => hatt ⟨cs, h⟩).trans hds, hne⟩

/-- **A tuple that has components keeps having some**, unless it is assigned none. -/
theorem Sound.filled_afterAll : ∀ (steps : List Step) {s : Session}, s.Sound → ∀ {r : Ref}, s.store.Filled r →
    ¬ s.Empties steps r → (s.afterAll steps).store.Filled r
  | [], _, _, _, h, _ => h
  | st :: rest, s, hs, r, h, hnot => by
    refine Sound.filled_afterAll rest (hs.after st) (hs.filled_after h fun hst => hnot ?_) fun hrest => hnot ?_
    · obtain ⟨earlier, reg, later, hsteps, hreg⟩ := hst
      exact ⟨earlier, reg, later ++ rest, by rw [← List.singleton_append, hsteps, List.append_assoc]; rfl, hreg⟩
    · obtain ⟨earlier, reg, later, hsteps, hreg⟩ := hrest
      exact ⟨st :: earlier, reg, later, congrArg (st :: ·) hsteps, hreg⟩

/-- **What the past of a session says about its descriptors.** -/
structure History (steps : List Step) : Prop where
  /-- what a step builds is what it asks for, a tuple with the components of the list it is constructed of -/
  built : ∀ earlier st later, steps = earlier ++ st :: later →
    ∀ p, ((empty.afterAll earlier).step st).outcome = .ok p → (empty.afterAll earlier).Built st
  /-- the components that are attached to a tuple are those that the step asks for, and it has them from then on, until
  others are attached to it -/
  attached : ∀ earlier st later, steps = earlier ++ st :: later →
    let s := empty.afterAll earlier
    ∀ r cs, s.Attaches st r cs →
      (∃ reg fields way, st.Supplies reg fields way ∧ fields.Made s (s.after st).store cs) ∧
      (s.after st).store.components? r = some cs ∧
      ((s.after st).Spares later r → (empty.afterAll steps).store.components? r = some cs)
  /-- a tuple has its components, until others are attached to it -/
  kept : ∀ earlier later, steps = earlier ++ later → ∀ r cs, (empty.afterAll earlier).store.components? r = some cs →
    (empty.afterAll earlier).Spares later r → (empty.afterAll steps).store.components? r = some cs
  /-- the components of any tuple are those it was given last, by its constructor or by an attachment -/
  components : ∀ r, (empty.afterAll steps).store.components? r = lastGift? (empty.gifts steps) r
  /-- every other descriptor stays what it was built as, and a tuple a tuple -/
  frozen : ∀ earlier later, steps = earlier ++ later → ∀ r n, (empty.afterAll earlier).store.node? r = some n →
    ∃ n', (empty.afterAll steps).store.node? r = some n' ∧ (n' = n ∨ n.IsTuple ∧ n'.IsTuple)
  /-- a tuple that has components never becomes empty, unless it is assigned none -/
  filled : ∀ earlier later, steps = earlier ++ later → ∀ r, (empty.afterAll earlier).store.Filled r →
    ¬ (empty.afterAll earlier).Empties later r → (empty.afterAll steps).store.Filled r

/-- **The past of a session says what its descriptors are.** -/
theorem history (steps : List Step) : History steps := by
  have hsound : ∀ earlier, (empty.afterAll earlier).Sound := fun earlier => Sound.afterAll earlier sound_empty
  have hkept : ∀ earlier later, steps = earlier ++ later → ∀ r cs,
      (empty.afterAll earlier).store.components? r = some cs → (empty.afterAll earlier).Spares later r →
      (empty.afterAll steps).store.components? r = some cs := by
    rintro earlier later rfl r cs hcs hspares
    rw [afterAll_append]
    exact (Sound.sameAt_afterAll later (hsound earlier) (lt_of_components? hcs) hspares).components hcs
  exact
    { built := fun earlier st _ _ p => (hsound earlier).built
      attached := fun earlier st later hsteps r cs hatt => by
        have hcs := (hsound earlier).attached hatt
        have hafter : empty.afterAll (earlier ++ [st]) = (empty.afterAll earlier).after st := afterAll_append [st] _ _
        refine ⟨(hsound earlier).made_of_attaches hatt, hcs, fun hspares => ?_⟩
        rw [← hafter] at hcs hspares
        exact hkept (earlier ++ [st]) later (hsteps.trans (List.append_cons earlier st later)) r cs hcs hspares
      kept := hkept
      components := fun r => by
        rw [(sound_empty.moves_afterAll steps).components? sound_empty.closed]
        exact Option.or_none
      frozen := by
        rintro earlier later rfl r n hn
        rw [afterAll_append]
        exact ((hsound earlier).moves_afterAll later).node? hn
      filled := by
        rintro earlier later rfl r hfilled hnot
        rw [afterAll_append]
        exact Sound.filled_afterAll later (hsound earlier) hfilled hnot }

end History

/-- The attempt leaves the tuple as it was built, and only what is given to it after that changes it. -/
theorem history_retry : (empty.afterAll attempt).store.components? 1 = some [⟨"a", 0⟩] ∧
    (empty.afterAll (attempt ++ [retry])).store.components? 1 = some [⟨"b", 3⟩] := by
  have hattaches : (empty.afterAll attempt).Attaches retry 1 [⟨"b", 3⟩] :=
    .intro (.attach "t" _) ⟨_, rfl⟩ rfl rfl (slot?_eq_some_iff.1 rfl).1 rfl rfl
  have hattached := (history (attempt ++ [retry])).attached attempt retry [] rfl 1 _ hattaches
  exact ⟨(history attempt).components 1, hattached.2.2 fun earlier _ _ h => by simp at h⟩

/-- **A tuple may become empty again**: its components can be assigned, also none. -/
theorem filled_not_forever : ¬ ∀ (earlier later : List Step) (r : Ref), (empty.afterAll earlier).store.Filled r →
    (empty.afterAll (earlier ++ later)).store.Filled r := by
  intro h
  obtain ⟨cs, hcs, hne⟩ := h (attempt.take 1) [.assign "t" "params" []] 1 ⟨[⟨"a", 0⟩], rfl, List.cons_ne_nil _ _⟩
  have hempty : (empty.afterAll (attempt.take 1 ++ [.assign "t" "params" []])).store.components? 1 = some [] := rfl
  cases hempty.symm.trans hcs
  exact hne rfl

end Session
end AbiTypes
