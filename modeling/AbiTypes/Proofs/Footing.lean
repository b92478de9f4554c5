import AbiTypes.Proofs.Steps
/-!
# Footing — what new descriptors stand on

A new descriptor has its parts among the descriptors that were there before it, and what was there stays as it is
(`Store.Builds`).  Which of them, is up to the registers that are used: what is built has no parts but what they lead to
and what is built on the way (`Builder.Stays`).  Every step builds in this sense, except one that supplies a descriptor
that is there (`Step.stays`).
-/
namespace AbiTypes

/-- A descriptor that is no tuple, and leads to descriptors of a kind only. -/
def Node.Leads (P : Ref → Prop) : Node → Prop
  | .scalar _ => True
  | .tuple _ => False
  | .array e | .fixedArray e _ => P e
  | .map k v => P k ∧ P v

namespace Store

open Relation

/-! ## Stores built on others -/

theorem Part.of_same {s s' : Store} {r c : Ref} (hnode : s'.node? r = s.node? r)
    (hcs : s'.components? r = s.components? r) (h : s.Part r c) : s'.Part r c := by
  cases h with
  | elem h => exact .elem (hnode.trans h)
  | fixedElem h => exact .fixedElem (hnode.trans h)
  | key h => exact .key (hnode.trans h)
  | value h => exact .value (hnode.trans h)
  | component h hc => exact .component (hcs.trans h) hc

theorem part_of_leads {P : Ref → Prop} {s : Store} {r c : Ref} {n : Node} (hn : s.node? r = some n) (hP : n.Leads P)
    (h : s.Part r c) : P c := by
  cases h with
  | elem h | fixedElem h =>
    cases hn.symm.trans h
    exact hP
  | key h =>
    cases hn.symm.trans h
    exact hP.1
  | value h =>
    cases hn.symm.trans h
    exact hP.2
  | component h _ =>
    obtain ⟨l, hl, -⟩ := components?_eq_some_iff.1 h
    cases hn.symm.trans hl
    exact hP.elim

theorem part_of_components? {s : Store} {r c : Ref} {cs : Components} (hcs : s.components? r = some cs)
    (h : s.Part r c) : ∃ f ∈ cs, f.kind = c := by
  obtain ⟨l, hl, -⟩ := components?_eq_some_iff.1 hcs
  cases h with
  | elem h | fixedElem h | key h | value h => cases hl.symm.trans h
  | component h hc =>
    cases hcs.symm.trans h
    exact ⟨_, hc, rfl⟩

/-- **A store that was built on another**: what was there is the same, and each new descriptor has its parts before it,
among descriptors of a kind. -/
structure Builds (K : Ref → Prop) (s s' : Store) : Prop where
  closed : s'.Closed
  size : s.nodes.size ≤ s'.nodes.size
  node : ∀ r < s.nodes.size, s'.node? r = s.node? r
  components : ∀ r < s.nodes.size, s'.components? r = s.components? r
  part : ∀ {r c}, s.nodes.size ≤ r → s'.Part r c → c < r ∧ K c

section Builds

variable {K : Ref → Prop} {s s' s'' : Store}

theorem Builds.part_iff (h : s.Builds K s') {r c : Ref} (hr : r < s.nodes.size) : s'.Part r c ↔ s.Part r c :=
  ⟨.of_same (h.node r hr).symm (h.components r hr).symm, .of_same (h.node r hr) (h.components r hr)⟩

theorem Builds.of_same_size (hs' : s'.Closed) (hsize : s'.nodes.size = s.nodes.size)
    (hnode : ∀ r, s'.node? r = s.node? r) (hcs : ∀ r, s'.components? r = s.components? r) : s.Builds K s' where
  closed := hs'
  size := hsize.ge
  node r _ := hnode r
  components r _ := hcs r
  part hr h := absurd h.lt (Nat.not_lt.2 (hsize.trans_le hr))

theorem Builds.refl (hs : s.Closed) : s.Builds K s := .of_same_size hs rfl (fun _ => rfl) fun _ => rfl

theorem Builds.trans (h : s.Builds K s') (h' : s'.Builds K s'') : s.Builds K s'' where
  closed := h'.closed
  size := h.size.trans h'.size
  node r hr := (h'.node r (hr.trans_le h.size)).trans (h.node r hr)
  components r hr := (h'.components r (hr.trans_le h.size)).trans (h.components r hr)
  part {r c} hr hc := by
    by_cases hr' : r < s'.nodes.size
    · exact h.part hr ((h'.part_iff hr').1 hc)
    · exact h'.part (Nat.not_lt.1 hr') hc

theorem builds_addList (hs : s.Closed) {cs : Components} (hcs : ∀ c ∈ cs, c.kind < s.nodes.size) :
    s.Builds K (s.addList cs) :=
  .of_same_size (hs.addList hcs) rfl (fun _ => rfl) fun r => components?_congr rfl fun l hl => by
    rw [items?_addList, if_neg (Nat.ne_of_lt (hs.node hl))]

/-- **A list that no tuple has may be given another content.** -/
theorem builds_setList (hs : s.Closed) {l : ListRef} (hl : s.Free l) {cs : Components}
    (hcs : ∀ c ∈ cs, c.kind < s.nodes.size) : s.Builds K (s.setList l cs) :=
  .of_same_size (hs.setList hcs l) rfl (fun _ => rfl) (components?_setList_of_free hl cs)

theorem builds_addNode (hs : s.Closed) {n : Node} (hn : n.Leads fun c => c < s.nodes.size ∧ K c) :
    s.Builds K (s.addNode n) := by
  have hfits : n.Fits s := by
    cases n with
    | scalar c => trivial
    | tuple l => exact hn.elim
    | array e | fixedArray e m => exact hn.1
    | map k v => exact ⟨hn.1.1, hn.2.1⟩
  have hnode : ∀ r < s.nodes.size, (s.addNode n).node? r = s.node? r := fun r hr => by
    rw [node?_addNode, if_neg hr.ne]
  refine ⟨hs.addNode hfits, by simp, hnode, fun r hr => components?_congr (hnode r hr) fun _ _ => rfl,
    fun {r c} hr h => ?_⟩
  obtain rfl : r = s.nodes.size := by
    have hlt := h.lt
    rw [size_nodes_addNode] at hlt
    exact Nat.le_antisymm (Nat.le_of_lt_succ hlt) hr
  exact part_of_leads (by rw [node?_addNode, if_pos rfl]) hn h

theorem builds_addTuple (hs : s.Closed) {cs : Components} (hcs : ∀ c ∈ cs, c.kind < s.nodes.size ∧ K c.kind) :
    s.Builds K (s.addTuple cs) := by
  have hkinds : ∀ c ∈ cs, c.kind < s.nodes.size := fun c hc => (hcs c hc).1
  have hnode : ∀ r < s.nodes.size, (s.addTuple cs).node? r = s.node? r := fun r hr => by
    rw [node?_addTuple, if_neg hr.ne]
  refine ⟨(hs.addList hkinds).addNode (fits_tuple_size s cs), by simp, hnode,
    fun r hr => components?_congr (hnode r hr) fun l hl => ?_, fun {r c} hr h => ?_⟩
  · rw [items?_addTuple, if_neg (Nat.ne_of_lt (hs.node hl))]
  obtain rfl : r = s.nodes.size := by
    have hlt := h.lt
    rw [size_nodes_addTuple] at hlt
    exact Nat.le_antisymm (Nat.le_of_lt_succ hlt) hr
  have hitems : (s.addTuple cs).components? s.nodes.size = some cs :=
    components?_eq_some_iff.2 ⟨_, by rw [node?_addTuple, if_pos rfl], by rw [items?_addTuple, if_pos rfl]⟩
  obtain ⟨f, hf, rfl⟩ := part_of_components? hitems h
  exact hcs f hf

section GiveTuple

variable {q : Ref} {cs : Components}

theorem part_giveTuple_self (hq : q < s.nodes.size) {c : Ref} (h : (s.giveTuple q cs).Part q c) :
    ∃ f ∈ cs, f.kind = c :=
  part_of_components? (components?_giveTuple_self hq) h

theorem part_of_giveTuple_of_ne (hs : s.Closed) {r c : Ref} (hr : r ≠ q) (h : (s.giveTuple q cs).Part r c) :
    s.Part r c :=
  .of_same (node?_giveTuple_of_ne hr).symm (components?_giveTuple_of_ne hs hr).symm h

theorem Closed.giveTuple (hs : s.Closed) (hcs : ∀ c ∈ cs, c.kind < s.nodes.size) : (s.giveTuple q cs).Closed :=
  (hs.addList hcs).setNode (fits_tuple_size s cs) q

/-- **A new tuple may be given components that are before it.** -/
theorem Builds.giveTuple (h : s.Builds K s') (hq : s.nodes.size ≤ q) (hlt : q < s'.nodes.size)
    (hcs : ∀ c ∈ cs, c.kind < q ∧ K c.kind) : s.Builds K (s'.giveTuple q cs) where
  closed := h.closed.giveTuple fun c hc => (hcs c hc).1.trans hlt
  size := h.size.trans (size_nodes_giveTuple s' q cs).ge
  node r hr := (node?_giveTuple_of_ne (hr.trans_le hq).ne).trans (h.node r hr)
  components r hr := (components?_giveTuple_of_ne h.closed (hr.trans_le hq).ne).trans (h.components r hr)
  part {r c} hr hc := by
    by_cases hrq : r = q
    · subst hrq
      obtain ⟨f, hf, rfl⟩ := part_giveTuple_self hlt hc
      exact hcs f hf
    · exact h.part hr (part_of_giveTuple_of_ne h.closed hrq hc)

end GiveTuple

/-- From a new descriptor every way leads to what is before it. -/
theorem Builds.lt_of_transGen (h : s.Builds K s') (hs : s.Closed) {r c : Ref} (hr : s.nodes.size ≤ r)
    (hc : TransGen s'.Part r c) : c < r := by
  induction hc with
  | single hc => exact (h.part hr hc).1
  | @tail b c _ hc ih =>
    by_cases hb : s.nodes.size ≤ b
    · exact (h.part hb hc).1.trans ih
    · have hlt := Nat.not_le.1 hb
      exact (hs.part ((h.part_iff hlt).1 hc)).trans_le hr

theorem Builds.reflTransGen_iff (h : s.Builds K s') (hs : s.Closed) {r c : Ref} (hr : r < s.nodes.size) :
    ReflTransGen s'.Part r c ↔ ReflTransGen s.Part r c := by
  constructor
  · intro hc
    induction hc using ReflTransGen.head_induction_on with
    | refl => exact .refl
    | head hd _ ih =>
      have hd := (h.part_iff hr).1 hd
      exact .head hd (ih (hs.part hd))
  · intro hc
    induction hc using ReflTransGen.head_induction_on with
    | refl => exact .refl
    | head hd _ ih => exact .head ((h.part_iff hr).2 hd) (ih (hs.part hd))

/-- **To build is to stay without cycles.** -/
theorem Builds.acyclic (h : s.Builds K s') (hs : s.Closed) (ha : s.Acyclic) : s'.Acyclic := fun r hr => by
  by_cases hlt : r < s.nodes.size
  · obtain ⟨c, hc, hcr⟩ := TransGen.head'_iff.1 hr
    have hc := (h.part_iff hlt).1 hc
    exact ha r (.head' hc ((h.reflTransGen_iff hs (hs.part hc)).1 hcr))
  · exact Nat.lt_irrefl r (h.lt_of_transGen hs (Nat.not_lt.1 hlt) hr)

end Builds

/-! ## What computations may use -/

/-- A descriptor of a kind is in the store. -/
def Has (K : Ref → Prop) (s : Store) (r : Ref) : Prop := r < s.nodes.size ∧ K r

/-- A list of components of a kind is in the store. -/
def Holds (K : Ref → Prop) (s : Store) (l : ListRef) : Prop :=
  ∃ cs, s.items? l = some cs ∧ ∀ c ∈ cs, s.Has K c.kind

/-- Whatever is new will be of the kind. -/
def Admits (K : Ref → Prop) (s : Store) : Prop := ∀ r, s.nodes.size ≤ r → K r

def KeepsLists (s s' : Store) : Prop := ∀ l cs, s.items? l = some cs → s'.items? l = some cs

section Grow

variable {K : Ref → Prop} {s s' : Store}

theorem Has.grow {r : Ref} (h : s.Has K r) (hsize : s.nodes.size ≤ s'.nodes.size) : s'.Has K r :=
  ⟨h.1.trans_le hsize, h.2⟩

theorem Holds.grow {l : ListRef} (h : s.Holds K l) (hsize : s.nodes.size ≤ s'.nodes.size) (hl : s.KeepsLists s') :
    s'.Holds K l := by
  obtain ⟨cs, hcs, h⟩ := h
  exact ⟨cs, hl l cs hcs, fun c hc => (h c hc).grow hsize⟩

theorem Admits.grow (h : s.Admits K) (hsize : s.nodes.size ≤ s'.nodes.size) : s'.Admits K := fun r hr =>
  h r (hsize.trans hr)

end Grow

end Store

open Store

/-- A value refers to descriptors of a kind only. -/
def Value.Among (K : Ref → Prop) (s : Store) : Value → Prop
  | .type t => s.Has K t
  | .list l => s.Holds K l

/-- **All registers, but for some, refer to descriptors of a kind only.** -/
def Registers.Among (K : Ref → Prop) (but : String × Value → Prop) (s : Store) (rs : Registers) : Prop :=
  ∀ p ∈ rs, ¬ but p → p.2.Among K s

namespace Registers

variable {K : Ref → Prop} {but : String × Value → Prop} {s s' : Store} {rs : Registers}

theorem Among.grow (h : rs.Among K but s) (hsize : s.nodes.size ≤ s'.nodes.size) (hl : s.KeepsLists s') :
    rs.Among K but s' := fun p hp hn => by
  have hv := h p hp hn
  cases hpv : p.2 <;> rw [hpv] at hv
  · exact Has.grow hv hsize
  · exact Holds.grow hv hsize hl

theorem Among.put (h : rs.Among K but s) (name : String) {v : Value} (hv : v.Among K s) :
    (rs.put name v).Among K but s := fun p hp hn => by
  rcases List.mem_cons.1 hp with rfl | hp
  · exact hv
  · exact h p (List.mem_filter.1 hp).1 hn

theorem Among.lookup (h : rs.Among K but s) {name : String} {v : Value} (hn : ¬ but (name, v))
    (hv : rs.lookup name = some v) : v.Among K s := by
  obtain ⟨rs₁, rs₂, rfl, -⟩ := List.lookup_eq_some_iff.1 hv
  exact h (name, v) (by simp) hn

theorem Among.type (h : rs.Among K but s) {name : String} {t : Ref} (hn : ¬ but (name, .type t))
    (ht : rs.type name = .ok t) : s.Has K t := by
  unfold Registers.type at ht
  split at ht
  · cases ht
    exact h.lookup hn ‹_›
  · cases ht

theorem Among.list (h : rs.Among K but s) {name : String} {l : ListRef} (hn : ¬ but (name, .list l))
    (hl : rs.list name = .ok l) : s.Holds K l := by
  unfold Registers.list at hl
  split at hl
  · cases hl
    exact h.lookup hn ‹_›
  · cases hl

/-- **Another content for a list**, of what it holds and of what is of the kind. -/
theorem Among.setList (h : rs.Among K but s) {l : ListRef} {cs : Components}
    (hcs : ∀ ds, s.items? l = some ds → ∀ c ∈ cs, c ∈ ds ∨ s.Has K c.kind) : rs.Among K but (s.setList l cs) :=
  fun p hp hn => by
    have hv := h p hp hn
    cases hpv : p.2 with
    | type t =>
      rw [hpv] at hv
      exact hv
    | list m =>
      rw [hpv] at hv
      obtain ⟨ds, hds, hkinds⟩ := hv
      refine ⟨if l = m ∧ l < s.lists.size then cs else ds, ?_, ?_⟩
      · rw [items?_setList]
        split
        · rfl
        · exact hds
      · split
        · rename_i hlm
          obtain ⟨rfl, -⟩ := hlm
          exact fun c hc => (hcs ds hds c hc).elim (hkinds c) id
        · exact hkinds

end Registers

mutual

/-- The registers that a recipe uses. -/
def Recipe.names : Recipe → List String
  | .plain _ | .sized _ _ | .text _ => []
  | .tuple fs => fs.names
  | .array e | .fixedArray e _ => e.names
  | .map k v => k.names ++ v.names
  | .register name => [name]

def FieldRecipe.names : FieldRecipe → List String
  | .named _ kind => kind.names
  | .text _ => []

def ListRecipe.names : ListRecipe → List String
  | .items fields => ListRecipe.itemNames fields
  | .register name => [name]

def ListRecipe.itemNames : List FieldRecipe → List String
  | [] => []
  | f :: fs => f.names ++ ListRecipe.itemNames fs

end

/-- The registers whose values a step hands on; what it is done to is not among them. -/
def Step.names : Step → List String
  | .new _ type => type.names
  | .get _ source _ => [source]
  | .list _ fields | .attach _ fields | .render fields _ _ => fields.names
  | .append _ field => field.names
  | .assign _ _ fields => ListRecipe.itemNames fields
  | .clear _ | .equal _ _ | .distinct _ | .ask _ _ => []

namespace Builder

/-! ## Computations that build -/

/-- **A computation builds**, with parts of a kind only, and what it returns is as said; the lists that are there keep
what they hold, if it is one that only adds. -/
structure Stays (adds : Prop) (K : Ref → Prop) {α : Type} (x : Builder α) (s : Store) (post : α → Store → Prop) :
    Prop where
  builds : s.Builds K (x s).store
  lists : adds → s.KeepsLists (x s).store
  result : ∀ a, (x s).outcome = .ok a → post a (x s).store

section Stays

variable {α β : Type} {adds : Prop} {K : Ref → Prop} {s : Store}

theorem Stays.bind {x : Builder α} {f : α → Builder β} {P : α → Store → Prop} {post : β → Store → Prop}
    (hx : Stays True K x s P)
    (hf : ∀ a s', s.Builds K s' → s.KeepsLists s' → P a s' → Stays adds K (f a) s' post) :
    Stays adds K (x >>= f) s post := by
  obtain ⟨hb, hl, hresult⟩ := hx
  replace hl := hl trivial
  rcases hran : x s with ⟨log, gifts, outcome, s'⟩
  rw [hran] at hb hl hresult
  cases outcome with
  | error e =>
    refine ⟨?_, ?_, ?_⟩ <;> rw [bind_of_error hran]
    · exact hb
    · exact fun _ => hl
    · exact nofun
  | ok a =>
    have hnext := hf a s' hb hl (hresult a rfl)
    refine ⟨?_, ?_, ?_⟩ <;> rw [bind_of_ok hran]
    · exact hb.trans hnext.builds
    · exact fun hadds l cs hcs => hnext.lists hadds l cs (hl l cs hcs)
    · exact hnext.result

theorem Stays.returning {x : Builder α} {g : α → β} {post : β → Store → Prop}
    (hx : Stays adds K x s fun a s' => post (g a) s') : Stays adds K (x >>= fun a => pure (g a)) s post := by
  obtain ⟨hb, hl, hresult⟩ := hx
  rcases hran : x s with ⟨log, gifts, outcome, s'⟩
  rw [hran] at hb hl hresult
  cases outcome with
  | error e =>
    refine ⟨?_, ?_, ?_⟩ <;> rw [bind_of_error hran]
    · exact hb
    · exact hl
    · exact nofun
  | ok a =>
    refine ⟨?_, ?_, ?_⟩ <;> rw [bind_of_ok hran]
    · exact hb
    · exact hl
    · rintro _ ⟨rfl⟩
      exact hresult a rfl

theorem stays_of_same (hs : s.Closed) {x : Builder α} {post : α → Store → Prop} (hstore : (x s).store = s)
    (hresult : ∀ a, (x s).outcome = .ok a → post a s) : Stays adds K x s post := by
  refine ⟨?_, ?_, ?_⟩ <;> rw [hstore]
  · exact .refl hs
  · exact fun _ _ _ h => h
  · exact hresult

theorem stays_pure (hs : s.Closed) {a : α} {post : α → Store → Prop} (h : post a s) : Stays adds K (pure a) s post :=
  stays_of_same hs rfl fun b hb => by
    cases hb
    exact h

theorem stays_fail (hs : s.Closed) {f : Fault} {post : α → Store → Prop} : Stays adds K (fail f) s post :=
  stays_of_same hs rfl fun _ h => by cases h

theorem Stays.after_look {x : Builder α} {f : α → Builder β} {post : β → Store → Prop} (hs : s.Closed)
    (hstore : (x s).store = s) (hf : ∀ a, (x s).outcome = .ok a → Stays adds K (f a) s post) :
    Stays adds K (x >>= f) s post := by
  refine .bind (P := fun a s' => s' = s ∧ (x s).outcome = .ok a)
    (stays_of_same hs hstore fun a ha => ⟨rfl, ha⟩) ?_
  rintro a _ - - ⟨rfl, ha⟩
  exact hf a ha

theorem stays_lift_bind {x : Traced α} {f : α → Builder β} {post : β → Store → Prop} (hs : s.Closed)
    (hf : ∀ a, x.outcome = .ok a → Stays adds K (f a) s post) : Stays adds K (lift x >>= f) s post :=
  .after_look hs rfl hf

theorem stays_found_bind {e : Fault} {find : Store → Option α} {f : α → Builder β} {post : β → Store → Prop}
    (hs : s.Closed) (hf : ∀ a, find s = some a → Stays adds K (f a) s post) : Stays adds K (found e find >>= f) s post :=
  .after_look hs rfl fun a ha => hf a (outcome_found.1 ha)

theorem stays_node (hs : s.Closed) (hK : s.Admits K) {n : Node} (hn : n.Leads (s.Has K)) :
    Stays True K (node n) s fun t s' => s'.Has K t where
  builds := builds_addNode hs hn
  lists _ _ _ h := h
  result := by
    rintro _ ⟨rfl⟩
    exact ⟨by simp [node], hK _ (Nat.le_refl _)⟩

theorem stays_list (hs : s.Closed) {cs : Components} (hcs : ∀ c ∈ cs, s.Has K c.kind) :
    Stays True K (list cs) s fun l s' => s'.Holds K l where
  builds := builds_addList hs fun c hc => (hcs c hc).1
  lists _ _ _ h := (extends_addList s cs).items h
  result := by
    rintro _ ⟨rfl⟩
    refine ⟨cs, ?_, hcs⟩
    change (s.addList cs).items? s.lists.size = some cs
    rw [items?_addList, if_pos rfl]

theorem stays_tuple (hs : s.Closed) (hK : s.Admits K) {l : ListRef} (hl : s.Holds K l) :
    Stays True K (tuple l) s fun t s' => s'.Has K t := by
  obtain ⟨cs, hcs, hkinds⟩ := hl
  refine stays_found_bind hs fun ds hds => ?_
  cases hcs.symm.trans hds
  exact
    { builds := builds_addTuple hs hkinds
      lists := fun _ _ _ h => (extends_addTuple s cs).items h
      result := by
        rintro _ ⟨rfl⟩
        exact ⟨by simp [newTuple], hK _ (Nat.le_refl _)⟩ }

end Stays

section Build

variable {K : Ref → Prop}

mutual

theorem stays_install : ∀ (t : Ty) {s : Store}, s.Closed → s.Admits K →
    Stays True K (install t) s fun r s' => s'.Has K r
  | .scalar c, s, hs, hK => by
    rw [install]
    exact stays_node hs hK trivial
  | .tuple fs, s, hs, hK => by
    rw [install]
    refine .bind (stays_installFields fs hs hK) fun cs s' hb _ hcs => ?_
    exact .bind (stays_list hb.closed hcs) fun l s'' hb' _ hl => stays_tuple hb'.closed ((hK.grow hb.size).grow hb'.size) hl
  | .array e, s, hs, hK => by
    rw [install]
    exact .bind (stays_install e hs hK) fun r s' hb _ hr => stays_node hb.closed (hK.grow hb.size) hr
  | .fixedArray e n, s, hs, hK => by
    rw [install]
    exact .bind (stays_install e hs hK) fun r s' hb _ hr => stays_node hb.closed (hK.grow hb.size) hr
  | .map k v, s, hs, hK => by
    rw [install]
    refine .bind (stays_install k hs hK) fun key s' hb _ hkey => ?_
    exact .bind (stays_install v hb.closed (hK.grow hb.size)) fun value s'' hb' _ hvalue =>
      stays_node hb'.closed ((hK.grow hb.size).grow hb'.size) ⟨hkey.grow hb'.size, hvalue⟩

theorem stays_installFields : ∀ (fs : List (Field Ty)) {s : Store}, s.Closed → s.Admits K →
    Stays True K (installFields fs) s fun cs s' => ∀ c ∈ cs, s'.Has K c.kind
  | [], s, hs, _ => by
    rw [installFields]
    exact stays_pure hs nofun
  | ⟨n, k⟩ :: fs, s, hs, hK => by
    rw [installFields]
    refine .bind (stays_install k hs hK) fun t s' hb _ ht => ?_
    exact .bind (stays_installFields fs hb.closed (hK.grow hb.size)) fun cs s'' hb' _ hcs =>
      stays_pure hb'.closed (List.forall_mem_cons.2 ⟨ht.grow hb'.size, hcs⟩)

end

variable {but : String × Value → Prop} {rs : Registers}

mutual

/-- **A recipe builds on what its registers hold.** -/
theorem stays_recipe [Reader.Stack] : ∀ (r : Recipe) {s : Store}, s.Closed → s.Admits K → rs.Among K but s →
    (∀ name ∈ r.names, ∀ v, ¬ but (name, v)) → Stays True K (r.build rs) s fun t s' => s'.Has K t
  | .plain p, s, hs, hK, _, _ => by
    rw [Recipe.build]
    exact stays_node hs hK trivial
  | .sized f n, s, hs, hK, _, _ => by
    rw [Recipe.build]
    exact stays_lift_bind hs fun size _ => stays_node hs hK trivial
  | .tuple fs, s, hs, hK, hrs, hn => by
    rw [Recipe.build]
    rw [Recipe.names] at hn
    exact .bind (stays_listRecipe fs hs hK hrs hn) fun l s' hb _ hl => stays_tuple hb.closed (hK.grow hb.size) hl
  | .array e, s, hs, hK, hrs, hn => by
    rw [Recipe.build]
    rw [Recipe.names] at hn
    exact .bind (stays_recipe e hs hK hrs hn) fun t s' hb _ ht => stays_node hb.closed (hK.grow hb.size) ht
  | .fixedArray e n, s, hs, hK, hrs, hn => by
    rw [Recipe.build]
    rw [Recipe.names] at hn
    refine .bind (stays_recipe e hs hK hrs hn) fun t s' hb _ ht => ?_
    exact stays_lift_bind hb.closed fun size _ => stays_node hb.closed (hK.grow hb.size) ht
  | .map k v, s, hs, hK, hrs, hn => by
    rw [Recipe.build]
    rw [Recipe.names] at hn
    obtain ⟨hk, hv⟩ := List.forall_mem_append.1 hn
    refine .bind (stays_recipe k hs hK hrs hk) fun key s' hb hl hkey => ?_
    exact .bind (stays_recipe v hb.closed (hK.grow hb.size) (hrs.grow hb.size hl) hv) fun value s'' hb' _ hvalue =>
      stays_node hb'.closed ((hK.grow hb.size).grow hb'.size) ⟨hkey.grow hb'.size, hvalue⟩
  | .text signature, s, hs, hK, _, _ => by
    rw [Recipe.build]
    exact stays_lift_bind hs fun t _ => stays_install t hs hK
  | .register name, s, hs, _, hrs, hn => by
    rw [Recipe.build]
    exact stays_of_same hs rfl fun t ht => hrs.type (hn name (List.mem_singleton.2 rfl) _) ht

theorem stays_fieldRecipe [Reader.Stack] : ∀ (r : FieldRecipe) {s : Store}, s.Closed → s.Admits K → rs.Among K but s →
    (∀ name ∈ r.names, ∀ v, ¬ but (name, v)) → Stays True K (r.build rs) s fun c s' => s'.Has K c.kind
  | .named name kind, s, hs, hK, hrs, hn => by
    rw [FieldRecipe.build]
    rw [FieldRecipe.names] at hn
    exact .bind (stays_recipe kind hs hK hrs hn) fun t s' hb _ ht => stays_pure hb.closed ht
  | .text param, s, hs, hK, _, _ => by
    rw [FieldRecipe.build]
    refine stays_lift_bind hs fun f _ => ?_
    exact .bind (stays_install f.kind hs hK) fun t s' hb _ ht => stays_pure hb.closed ht

theorem stays_listRecipe [Reader.Stack] : ∀ (r : ListRecipe) {s : Store}, s.Closed → s.Admits K → rs.Among K but s →
    (∀ name ∈ r.names, ∀ v, ¬ but (name, v)) → Stays True K (r.build rs) s fun l s' => s'.Holds K l
  | .items fields, s, hs, hK, hrs, hn => by
    rw [ListRecipe.build]
    rw [ListRecipe.names] at hn
    exact .bind (stays_buildItems fields hs hK hrs hn) fun cs s' hb _ hcs => stays_list hb.closed hcs
  | .register name, s, hs, _, hrs, hn => by
    rw [ListRecipe.build]
    exact stays_of_same hs rfl fun l hl => hrs.list (hn name (List.mem_singleton.2 rfl) _) hl

theorem stays_buildItems [Reader.Stack] : ∀ (fs : List FieldRecipe) {s : Store}, s.Closed → s.Admits K → rs.Among K but s →
    (∀ name ∈ ListRecipe.itemNames fs, ∀ v, ¬ but (name, v)) →
    Stays True K (ListRecipe.buildItems rs fs) s fun cs s' => ∀ c ∈ cs, s'.Has K c.kind
  | [], s, hs, _, _, _ => by
    rw [ListRecipe.buildItems]
    exact stays_pure hs nofun
  | f :: fs, s, hs, hK, hrs, hn => by
    rw [ListRecipe.buildItems]
    rw [ListRecipe.itemNames] at hn
    obtain ⟨hf, hfs⟩ := List.forall_mem_append.1 hn
    refine .bind (stays_fieldRecipe f hs hK hrs hf) fun c s' hb hl hc => ?_
    exact .bind (stays_buildItems fs hb.closed (hK.grow hb.size) (hrs.grow hb.size hl) hfs) fun cs s'' hb' _ hcs =>
      stays_pure hb'.closed (List.forall_mem_cons.2 ⟨hc.grow hb'.size, hcs⟩)

end

end Build

/-! ## Attachments -/

/-- **An attachment leaves the store alone, or gives the slot what the list holds.** -/
theorem attach_store (t : Ref) (l : ListRef) (s : Store) : (attach t l s).store = s ∨
    ∃ q m cs, s.IsSlot t q ∧ s.node? q = some (.tuple m) ∧ s.items? l = some cs ∧ cs ≠ [] ∧
      (attach t l s).store = s.giveTuple q cs := by
  cases hcs : s.items? l with
  | none =>
    have hitems : items l s = ⟨[], [], .error .noSuchPart, s⟩ := by rw [items, found, hcs]
    rw [attach, bind_of_error hitems]
    exact .inl rfl
  | some cs =>
    have hitems : items l s = ⟨[], [], .ok cs, s⟩ := by rw [items, found, hcs]
    cases hq : s.slot? t with
    | none =>
      have hslot : found .cyclic (·.slot? t) s = ⟨[], [], .error .cyclic, s⟩ := by rw [found, hq]
      rw [attach, bind_of_ok hitems, bind_of_error hslot]
      exact .inl rfl
    | some q =>
      obtain ⟨hslot, hlt⟩ := slot?_eq_some_iff.1 hq
      obtain ⟨n, hn⟩ := exists_node? hlt
      have hreceive := attach_eq_receive hcs hq hn
      obtain ⟨c, rfl⟩ | ⟨m, rfl⟩ := hslot.node hn
      · by_cases hnil : cs = []
        · rw [hreceive, receive_scalar_nil hnil]
          exact .inl rfl
        · rw [hreceive, receive_scalar hnil]
          exact .inl rfl
      · by_cases hnil : cs = []
        · rw [hreceive, receive_tuple_nil hnil]
          exact .inl rfl
        · exact .inr ⟨q, m, cs, hslot, hn, rfl, hnil, by rw [hreceive, receive_tuple hnil]⟩

theorem assign_eq_replace (part : String) {s : Store} {t : Ref} {l : ListRef} {cs : Components} {n : Node}
    (hcs : s.items? l = some cs) (hn : s.node? t = some n) : assign part t l s = replace part t cs n s := by
  have hitems : items l s = ⟨[], [], .ok cs, s⟩ := by rw [items, found, hcs]
  have hnode : found .cyclic (·.node? t) s = ⟨[], [], .ok n, s⟩ := by rw [found, hn]
  rw [assign, bind_of_ok hitems, bind_of_ok hnode]
  rfl

theorem replace_store (part : String) (r : Ref) (cs : Components) (n : Node) (s : Store) :
    (replace part r cs n s).store = s ∨
      ∃ m, n = .tuple m ∧ part = "params" ∧ (replace part r cs n s).store = s.giveTuple r cs := by
  unfold replace
  by_cases hpart : part ∉ n.parts
  · rw [if_pos hpart]
    exact .inl rfl
  · rw [if_neg hpart]
    cases n with
    | tuple m => exact .inr ⟨m, rfl, List.mem_singleton.1 (not_not.1 hpart), rfl⟩
    | scalar _ | array _ | fixedArray _ _ | map _ _ => exact .inl rfl

/-- **An assignment leaves the store alone, or gives a tuple what the list holds**, which is its only part. -/
theorem assign_store (part : String) (t : Ref) (l : ListRef) (s : Store) : (assign part t l s).store = s ∨
    ∃ m cs, s.node? t = some (.tuple m) ∧ s.items? l = some cs ∧ part = "params" ∧
      (assign part t l s).store = s.giveTuple t cs := by
  cases hcs : s.items? l with
  | none =>
    have hitems : items l s = ⟨[], [], .error .noSuchPart, s⟩ := by rw [items, found, hcs]
    rw [assign, bind_of_error hitems]
    exact .inl rfl
  | some cs =>
    cases hn : s.node? t with
    | none =>
      have hitems : items l s = ⟨[], [], .ok cs, s⟩ := by rw [items, found, hcs]
      have hnode : found .cyclic (·.node? t) s = ⟨[], [], .error .cyclic, s⟩ := by rw [found, hn]
      rw [assign, bind_of_ok hitems, bind_of_error hnode]
      exact .inl rfl
    | some n =>
      rw [assign_eq_replace part hcs hn]
      refine (replace_store part t cs n s).imp_right fun hreplaced => ?_
      obtain ⟨m, rfl, hpart, hgiven⟩ := hreplaced
      exact ⟨m, cs, rfl, rfl, hpart, hgiven⟩

section Store

variable {α β : Type} {x : Builder α} {s : Store}

theorem store_bind_of_ok {f : α → Builder β} {a : α} (h : (x s).outcome = .ok a) :
    ((x >>= f) s).store = (f a (x s).store).store := by
  rcases hran : x s with ⟨log, gifts, outcome, s'⟩
  rw [hran] at h
  cases h
  rw [bind_of_ok hran]

theorem outcome_bind_of_ok {f : α → Builder β} {a : α} (h : (x s).outcome = .ok a) :
    ((x >>= f) s).outcome = (f a (x s).store).outcome := by
  rcases hran : x s with ⟨log, gifts, outcome, s'⟩
  rw [hran] at h
  cases h
  rw [bind_of_ok hran]

theorem store_bind_of_error {f : α → Builder β} {e : Fault} (h : (x s).outcome = .error e) :
    ((x >>= f) s).store = (x s).store := by
  rcases hran : x s with ⟨log, gifts, outcome, s'⟩
  rw [hran] at h
  cases h
  rw [bind_of_error hran]

theorem store_returning {g : α → β} : ((x >>= fun a => pure (g a)) s).store = (x s).store := by
  cases h : (x s).outcome with
  | ok a => rw [store_bind_of_ok h]; rfl
  | error e => rw [store_bind_of_error h]

end Store

/-- **The tuple that is documented is new**, so its components come before it. -/
theorem stays_combine {K : Ref → Prop} {s : Store} (hs : s.Closed) {l : ListRef} (hl : s.Holds K l) :
    Stays True K (combine l) s fun _ _ => True := by
  obtain ⟨cs, hcs, hkinds⟩ := hl
  let s₁ := (s.addList []).addTuple []
  have hlist : list [] s = ⟨[], [], .ok s.lists.size, s.addList []⟩ := rfl
  have hnil : (s.addList []).items? s.lists.size = some [] := by rw [items?_addList, if_pos rfl]
  have hitems : items s.lists.size (s.addList []) = ⟨[], [], .ok [], s.addList []⟩ := by rw [items, found, hnil]
  have htuple : tuple s.lists.size (s.addList []) = ⟨[], [⟨s.nodes.size, []⟩], .ok s.nodes.size, s₁⟩ := by
    rw [tuple, bind_of_ok hitems]
    rfl
  have hs₀ : s.Builds K (s.addList []) := builds_addList hs (List.forall_mem_nil _)
  have hs₁ : s.Builds K s₁ := hs₀.trans (builds_addTuple hs₀.closed (List.forall_mem_nil _))
  have hnode : s₁.node? s.nodes.size = some (.tuple (s.lists.size + 1)) := by
    rw [node?_addTuple, size_nodes_addList, if_pos rfl, size_lists_addList]
  refine ⟨?_, fun _ _ _ => ((makes_combine hs l).keeps (.inl trivial)).items, fun _ _ => trivial⟩
  rw [combine, bind_of_ok hlist, bind_of_ok htuple]
  change s.Builds K (attach s.nodes.size l s₁).store
  obtain hsame | ⟨q, m, ds, hq, -, hds, -, hgiven⟩ := attach_store s.nodes.size l s₁
  · rwa [hsame]
  · obtain rfl := hq.eq_of_tuple hnode
    have hcs₁ : s₁.items? l = some cs := (extends_addTuple _ _).items ((extends_addList s []).items hcs)
    cases hcs₁.symm.trans hds
    rw [hgiven]
    exact hs₁.giveTuple (Nat.le_refl _) (lt_of_node? hnode) hkinds

theorem stays_render {K : Ref → Prop} {s : Store} (hs : s.Closed) (title : String) (version : Int) {l : ListRef}
    (hl : s.Holds K l) : Stays True K (render title version l) s fun _ _ => True := by
  refine stays_found_bind hs fun cs hcs => ?_
  split
  · exact stays_fail hs
  · refine .bind (stays_combine hs hl) fun _ s' hb _ _ => ?_
    exact stays_found_bind hb.closed fun fs _ => stays_of_same hb.closed rfl fun _ _ => trivial

end Builder

/-! ## Steps -/

namespace Step

open Builder

variable {K : Ref → Prop} {but : String × Value → Prop} {rs : Registers}

theorem stays_look {s : Store} (hs : s.Closed) (rs : Registers) (name : String) :
    Stays True K (rs.look name) s fun _ _ => True :=
  stays_found_bind hs fun _ _ => stays_of_same hs rfl fun _ _ => trivial

theorem stays_members (rs : Registers) : ∀ (names : List String) {s : Store}, s.Closed →
    Stays True K (rs.members names) s fun _ _ => True
  | [], _, hs => stays_pure hs trivial
  | name :: names, s, hs => by
    refine .bind (stays_look hs rs name) fun v s' hb _ _ => stays_lift_bind hb.closed fun m _ => ?_
    exact .bind (stays_members rs names hb.closed) fun ms s'' hb' _ _ => stays_pure hb'.closed trivial

theorem Supplies.names_eq {st : Step} {reg : String} {fields : ListRecipe} {way : Ref → ListRef → Builder Unit}
    (h : st.Supplies reg fields way) : st.names = fields.names := by
  cases h <;> rfl

theorem store_supply_of_ok [Reader.Stack] {reg : String} {fields : ListRecipe} {way : Ref → ListRef → Builder Unit}
    {s : Store} {t : Ref} {l : ListRef} (ht : rs.type reg = .ok t) (hl : (fields.build rs s).outcome = .ok l) :
    (rs.supply reg fields way s).store = (way t l (fields.build rs s).store).store := by
  have htype : (lift (.ofExcept (rs.type reg)) s).outcome = .ok t := ht
  rw [Registers.supply, store_bind_of_ok htype]
  exact (store_bind_of_ok hl).trans store_returning

/-- A step that supplies a descriptor stops before it builds anything, or it stops after that, or it comes to the supply.
-/
theorem store_supply [Reader.Stack] (rs : Registers) (reg : String) (fields : ListRecipe)
    (way : Ref → ListRef → Builder Unit) (s : Store) :
    ((rs.supply reg fields way s).store = s ∨ (rs.supply reg fields way s).store = (fields.build rs s).store) ∨
    ∃ t l, rs.type reg = .ok t ∧ (fields.build rs s).outcome = .ok l ∧
      (rs.supply reg fields way s).store = (way t l (fields.build rs s).store).store := by
  cases ht : rs.type reg with
  | error e =>
    have htype : (lift (.ofExcept (rs.type reg)) s).outcome = .error e := ht
    rw [Registers.supply, store_bind_of_error htype]
    exact .inl (.inl rfl)
  | ok t =>
    cases hl : (fields.build rs s).outcome with
    | error e =>
      have htype : (lift (.ofExcept (rs.type reg)) s).outcome = .ok t := ht
      rw [Registers.supply, store_bind_of_ok htype]
      exact .inl (.inr (store_bind_of_error hl))
    | ok l => exact .inr ⟨t, l, rfl, rfl, store_supply_of_ok ht hl⟩

/-- **What a supply comes to for the store**: no more than what it built, or the slot has what the list holds. -/
theorem Supplies.store_act [Reader.Stack] {st : Step} {reg : String} {fields : ListRecipe}
    {way : Ref → ListRef → Builder Unit} (h : st.Supplies reg fields way) (rs : Registers) (s : Store) :
    ((st.act rs s).store = s ∨ (st.act rs s).store = (fields.build rs s).store) ∨
    ∃ t l q m cs, rs.type reg = .ok t ∧ (fields.build rs s).outcome = .ok l ∧
      (fields.build rs s).store.IsSlot t q ∧ (fields.build rs s).store.node? q = some (.tuple m) ∧
      (fields.build rs s).store.items? l = some cs ∧
      (st.act rs s).store = (fields.build rs s).store.giveTuple q cs := by
  rw [h.act_eq]
  obtain hsame | ⟨t, l, ht, hl, hstore⟩ := store_supply rs reg fields way s
  · exact .inl hsame
  rw [hstore]
  cases h with
  | attach _ _ =>
    obtain hsame | ⟨q, m, cs, hq, hm, hcs, -, hgiven⟩ := attach_store t l (fields.build rs s).store
    · exact .inl (.inr hsame)
    · exact .inr ⟨t, l, q, m, cs, ht, hl, hq, hm, hcs, hgiven⟩
  | assign _ part _ =>
    obtain hsame | ⟨m, cs, hm, hcs, -, hgiven⟩ := assign_store part t l _
    · exact .inl (.inr hsame)
    · exact .inr ⟨t, l, t, m, cs, ht, hl, isSlot_of_tuple hm, hm, hcs, hgiven⟩

theorem has_follow? {s : Store} (hpart : ∀ {r c}, K r → s.Part r c → K c) : ∀ {path : List Turn} {r c : Ref}, K r →
    s.follow? r path = some c → K c
  | [], _, _, hr, h => by
    cases h
    exact hr
  | p :: ps, r, c, hr, h => by
    obtain ⟨d, hd, h⟩ := Option.bind_eq_some_iff.1 h
    exact has_follow? hpart (hpart hr (part_of_part? hd)) h

/-- **Every step builds that supplies no descriptor**, on what the registers hold that it names. -/
theorem stays [Reader.Stack] {s : Store} (hs : s.Closed) (hfit : rs.Fit s) (hK : s.Admits K)
    (hpart : ∀ {r c}, K r → s.Part r c → K c) (hrs : rs.Among K but s) : ∀ st : Step,
    (∀ reg fields way, ¬ st.Supplies reg fields way) → (∀ name ∈ st.names, ∀ v, ¬ but (name, v)) →
    Stays (¬ st.Changes) K (st.act rs) s fun p s' => p.2.Among K but s'
  | .new reg type, _, hn =>
    .bind (stays_recipe type hs hK hrs hn) fun t s' hb hl ht =>
      stays_pure hb.closed ((hrs.grow hb.size hl).put reg (v := .type t) ht)
  | .get reg source path, _, hn =>
    stays_lift_bind hs fun t ht => stays_found_bind hs fun u hu => by
      have hhas := hrs.type (hn source (List.mem_singleton.2 rfl) _) ht
      exact stays_pure hs (hrs.put reg (v := .type u) ⟨hs.follow? hhas.1 hu, has_follow? hpart hhas.2 hu⟩)
  | .list reg fields, _, hn => by
    refine .bind (stays_listRecipe fields hs hK hrs hn) fun l s' hb hl hholds => ?_
    obtain ⟨cs, hcs, hkinds⟩ := hholds
    refine stays_found_bind hb.closed fun ds hds => ?_
    cases hcs.symm.trans hds
    exact .bind (stays_list hb.closed hkinds) fun m s'' hb' hl' hm =>
      stays_pure hb'.closed (((hrs.grow hb.size hl).grow hb'.size hl').put reg (v := .list m) hm)
  | .append reg field, _, hn => by
    refine stays_lift_bind hs fun l hl => .bind (P := fun c s' => s'.Has K c.kind ∧ ∃ gifts, s.Moves gifts s')
      ⟨(stays_fieldRecipe field hs hK hrs hn).builds, (stays_fieldRecipe field hs hK hrs hn).lists,
        fun c hc => ⟨(stays_fieldRecipe field hs hK hrs hn).result c hc, _, (makes_fieldRecipe field hs hfit).moves⟩⟩
      fun c s' hb hlists hc => ?_
    obtain ⟨hc, gifts, hm⟩ := hc
    refine stays_found_bind hb.closed fun cs hcs => .returning ⟨?_, fun h => absurd trivial h, fun _ _ => ?_⟩
    · obtain ⟨hlt, hfree⟩ := hfit.list hl
      refine builds_setList hb.closed (hm.free hlt hfree) ?_
      exact List.forall_mem_append.2 ⟨hb.closed.item hcs, List.forall_mem_singleton.2 hc.1⟩
    · refine (hrs.grow hb.size hlists).setList fun ds hds => ?_
      cases hcs.symm.trans hds
      exact List.forall_mem_append.2 ⟨fun c hc => .inl hc, List.forall_mem_singleton.2 (.inr hc)⟩
  | .clear reg, _, _ => by
    refine stays_lift_bind hs fun l hl => .returning ⟨?_, fun h => absurd trivial h, fun _ _ => ?_⟩
    · exact builds_setList hs (hfit.list hl).2 (List.forall_mem_nil _)
    · exact hrs.setList fun _ _ => List.forall_mem_nil _
  | .attach reg fields, hne, _ => absurd (.attach reg fields) (hne _ _ _)
  | .assign reg part fields, hne, _ => absurd (.assign reg part fields) (hne _ _ _)
  | .equal a b, _, _ =>
    .bind (stays_look hs rs a) fun _ s' hb hl _ => .bind (stays_look hb.closed rs b) fun _ s'' hb' hl' _ =>
      stays_pure hb'.closed ((hrs.grow hb.size hl).grow hb'.size hl')
  | .distinct regs, _, _ =>
    .bind (stays_members rs regs hs) fun _ s' hb hl _ => stays_pure hb.closed (hrs.grow hb.size hl)
  | .render fields version title, _, hn =>
    .bind (stays_listRecipe fields hs hK hrs hn) fun l s' hb hl hholds =>
      .bind (stays_render hb.closed title version hholds) fun _ s'' hb' hl' _ =>
        stays_pure hb'.closed ((hrs.grow hb.size hl).grow hb'.size hl')
  | .ask reg query, _, _ =>
    .bind (stays_look hs rs reg) fun v s' hb hl _ => stays_lift_bind hb.closed fun a _ =>
      stays_pure hb.closed (hrs.grow hb.size hl)

end Step

end AbiTypes
