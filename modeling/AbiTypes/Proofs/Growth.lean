import AbiTypes.Proofs.Attachment
import AbiTypes.Recipe
/-!
# Growth — the moves of a store

A store changes by moves (`Store.Move`): a new descriptor, a new list, a new tuple of what a list holds, what a list
holds given to a tuple, another content for a list that no tuple has.  What one move preserves, every computation
preserves.  To build is to add (`Store.Extends`): what was there stays, also when the building fails halfway
(`Builder.Makes`).
-/
namespace AbiTypes
namespace Store

open Relation

/-- No tuple has the list. -/
def Free (s : Store) (l : ListRef) : Prop := ∀ r, s.node? r ≠ some (.tuple l)

/-! ## Extensions -/

/-- **Whatever is in a store is the same in another.** -/
structure Extends (s s' : Store) : Prop where
  node : ∀ {r n}, s.node? r = some n → s'.node? r = some n
  items : ∀ {l cs}, s.items? l = some cs → s'.items? l = some cs

theorem Extends.refl (s : Store) : s.Extends s := ⟨id, id⟩

theorem Extends.trans {s s' s'' : Store} (h : s.Extends s') (h' : s'.Extends s'') : s.Extends s'' :=
  ⟨fun hn => h'.node (h.node hn), fun hl => h'.items (h.items hl)⟩

theorem extends_addNode (s : Store) (n : Node) : s.Extends (s.addNode n) where
  node h := by rw [node?_addNode, if_neg (lt_of_node? h).ne, h]
  items h := h

theorem extends_addList (s : Store) (cs : Components) : s.Extends (s.addList cs) where
  node h := h
  items h := by rw [items?_addList, if_neg (lt_of_items? h).ne, h]

theorem extends_addTuple (s : Store) (cs : Components) : s.Extends (s.addTuple cs) :=
  (extends_addList s cs).trans (extends_addNode _ _)

/-! ## Moves -/

/-- **One change of a store**, with the components that it gives to a tuple, if it does. -/
inductive Move (s : Store) : List Gift → Store → Prop
  | node {n : Node} (hn : n.Fits s) (ht : ¬ n.IsTuple) : Move s [] (s.addNode n)
  | list {cs : Components} (hcs : ∀ c ∈ cs, c.kind < s.nodes.size) : Move s [] (s.addList cs)
  /-- a tuple is constructed of what a list holds now -/
  | construct {l : ListRef} {cs : Components} (h : s.items? l = some cs) : Move s [⟨s.nodes.size, cs⟩] (s.addTuple cs)
  /-- a tuple is given what a list holds now -/
  | give {q : Ref} {l m : ListRef} {cs : Components} (hm : s.node? q = some (.tuple m)) (h : s.items? l = some cs) :
    Move s [⟨q, cs⟩] (s.giveTuple q cs)
  | refill {l : ListRef} {cs : Components} (hl : s.Free l) (hcs : ∀ c ∈ cs, c.kind < s.nodes.size) :
    Move s [] (s.setList l cs)

inductive Moves : Store → List Gift → Store → Prop
  | refl (s : Store) : Moves s [] s
  | step {s s' s'' : Store} {g gs : List Gift} (h : s.Move g s') (hs : Moves s' gs s'') : Moves s (g ++ gs) s''

theorem Move.moves {s s' : Store} {g : List Gift} (h : s.Move g s') : s.Moves g s' := by
  simpa using Moves.step h (.refl s')

theorem Moves.trans {s s' s'' : Store} {g gs : List Gift} (h : s.Moves g s') (h' : s'.Moves gs s'') :
    s.Moves (g ++ gs) s'' := by
  induction h with
  | refl s => exact h'
  | step hm _ ih =>
    rw [List.append_assoc]
    exact .step hm (ih h')

/-- The components that a tuple was given last. -/
def lastGift? : List Gift → Ref → Option Components
  | [], _ => none
  | g :: gs, r => (lastGift? gs r).or (if g.tuple = r then some g.components else none)

theorem lastGift?_append (r : Ref) : ∀ gs gs' : List Gift,
    lastGift? (gs ++ gs') r = (lastGift? gs' r).or (lastGift? gs r)
  | [], gs' => by simp [lastGift?]
  | g :: gs, gs' => by
    rw [List.cons_append, lastGift?, lastGift?_append r gs gs', lastGift?, Option.or_assoc]

section Move

variable {s s' : Store} {g : List Gift}

theorem Move.size_nodes_le (h : s.Move g s') : s.nodes.size ≤ s'.nodes.size := by
  cases h <;> simp

theorem Move.size_lists_le (h : s.Move g s') : s.lists.size ≤ s'.lists.size := by
  cases h <;> simp

theorem Move.owned (h : s.Move g s') {r : Ref} {l : ListRef} (hl : s'.node? r = some (.tuple l)) :
    s.node? r = some (.tuple l) ∨ s.lists.size ≤ l := by
  cases h with
  | list _ | refill _ _ => exact .inl hl
  | node _ ht =>
    rw [node?_addNode] at hl
    split at hl
    · cases hl
      exact absurd ⟨l, rfl⟩ ht
    · exact .inl hl
  | construct _ =>
    rw [node?_addTuple] at hl
    split at hl
    · cases hl
      exact .inr (Nat.le_refl _)
    · exact .inl hl
  | give _ _ =>
    rw [node?_giveTuple] at hl
    split at hl
    · cases hl
      exact .inr (Nat.le_refl _)
    · exact .inl hl

theorem Closed.addNode (hs : s.Closed) {n : Node} (hn : n.Fits s) : (s.addNode n).Closed := by
  refine hs.of_changes (by simp) (by simp) (fun {r m} h => ?_) .inl
  rw [node?_addNode] at h
  split at h
  · cases h
    exact .inr (hn.grow (by simp) (by simp))
  · exact .inl h

theorem Closed.addList (hs : s.Closed) {cs : Components} (hcs : ∀ c ∈ cs, c.kind < s.nodes.size) :
    (s.addList cs).Closed := by
  refine hs.of_changes (by simp) (by simp) .inl (fun {l ds} h => ?_)
  rw [items?_addList] at h
  split at h
  · cases h
    exact .inr hcs
  · exact .inl h

theorem Closed.setNode (hs : s.Closed) {n : Node} (hn : n.Fits s) (r : Ref) : (s.setNode r n).Closed := by
  refine hs.of_changes (by simp) (by simp) (fun {q m} h => ?_) .inl
  rw [node?_setNode] at h
  split at h
  · cases h
    exact .inr (hn.grow (by simp) (by simp))
  · exact .inl h

theorem Closed.setList (hs : s.Closed) {cs : Components} (hcs : ∀ c ∈ cs, c.kind < s.nodes.size) (l : ListRef) :
    (s.setList l cs).Closed := by
  refine hs.of_changes (by simp) (by simp) .inl (fun {m ds} h => ?_)
  rw [items?_setList] at h
  split at h
  · cases h
    exact .inr hcs
  · exact .inl h

theorem fits_tuple_size (s : Store) (cs : Components) : (Node.tuple s.lists.size).Fits (s.addList cs) := by
  simp [Node.Fits]

theorem Move.closed (h : s.Move g s') (hs : s.Closed) : s'.Closed := by
  cases h with
  | node hn _ => exact hs.addNode hn
  | list hcs => exact hs.addList hcs
  | construct h => exact (hs.addList (hs.item h)).addNode (fits_tuple_size s _)
  | give _ h => exact (hs.addList (hs.item h)).setNode (fits_tuple_size s _) _
  | refill _ hcs => exact hs.setList hcs _

/-- **A descriptor stays what it was built as**; a tuple may come to have another list. -/
theorem Move.node? (h : s.Move g s') {r : Ref} {n : Node} (hn : s.node? r = some n) :
    ∃ n', s'.node? r = some n' ∧ (n' = n ∨ n.IsTuple ∧ n'.IsTuple) := by
  have hlt : r ≠ s.nodes.size := (lt_of_node? hn).ne
  cases h with
  | list _ | refill _ _ => exact ⟨n, hn, .inl rfl⟩
  | node _ _ => exact ⟨n, by rw [node?_addNode, if_neg hlt, hn], .inl rfl⟩
  | construct _ => exact ⟨n, by rw [node?_addTuple, if_neg hlt, hn], .inl rfl⟩
  | @give q l m cs hm _ =>
    by_cases hq : r = q
    · subst hq
      obtain rfl : Node.tuple m = n := Option.some.inj (hm.symm.trans hn)
      exact ⟨_, by rw [node?_giveTuple, if_pos ⟨rfl, lt_of_node? hn⟩], .inr ⟨⟨_, rfl⟩, _, rfl⟩⟩
    · exact ⟨n, by rw [node?_giveTuple_of_ne hq, hn], .inl rfl⟩

/-- Another content for a list that no tuple has changes no components. -/
theorem components?_setList_of_free {l : ListRef} (hl : s.Free l) (cs : Components) (r : Ref) :
    (s.setList l cs).components? r = s.components? r :=
  components?_congr rfl fun m hm => by
    rw [items?_setList, if_neg]
    rintro ⟨rfl, -⟩
    exact hl r hm

/-- **The components of a tuple are those it was given last.** -/
theorem Move.components? (h : s.Move g s') (hs : s.Closed) (r : Ref) :
    s'.components? r = (lastGift? g r).or (s.components? r) := by
  cases h with
  | list _ =>
    refine components?_congr rfl fun l hl => ?_
    rw [items?_addList, if_neg (Nat.ne_of_lt (hs.node hl))]
  | refill hfree _ => exact components?_setList_of_free hfree _ r
  | node _ ht =>
    by_cases hr : r = s.nodes.size
    · subst hr
      rw [components?_eq_none, components?_eq_none fun l => by simp [node?_size]]
      · rfl
      · intro l hl
        rw [node?_addNode, if_pos rfl] at hl
        cases hl
        exact ht ⟨l, rfl⟩
    · exact components?_congr (by rw [node?_addNode, if_neg hr]) fun _ _ => rfl
  | @construct l cs h =>
    by_cases hr : r = s.nodes.size
    · subst hr
      have hcs : (s.addTuple cs).components? s.nodes.size = some cs :=
        components?_eq_some_iff.2 ⟨_, by rw [node?_addTuple, if_pos rfl], by rw [items?_addTuple, if_pos rfl]⟩
      simp [hcs, lastGift?]
    · have hold : (s.addTuple cs).components? r = s.components? r :=
        components?_congr (by rw [node?_addTuple, if_neg hr]) fun l hl => by
          rw [items?_addTuple, if_neg (Nat.ne_of_lt (hs.node hl))]
      simp [hold, lastGift?, Ne.symm hr]
  | @give q l m cs hm _ =>
    by_cases hr : r = q
    · subst hr
      simp [components?_giveTuple_self (lt_of_node? hm), lastGift?]
    · simp [components?_giveTuple_of_ne hs hr, lastGift?, Ne.symm hr]

theorem Moves.size_nodes_le (h : s.Moves g s') : s.nodes.size ≤ s'.nodes.size := by
  induction h with
  | refl s => exact Nat.le_refl _
  | step h _ ih => exact h.size_nodes_le.trans ih

theorem Moves.size_lists_le (h : s.Moves g s') : s.lists.size ≤ s'.lists.size := by
  induction h with
  | refl s => exact Nat.le_refl _
  | step h _ ih => exact h.size_lists_le.trans ih

/-- **A list that no tuple has is never any tuple's.** -/
theorem Moves.free (h : s.Moves g s') {l : ListRef} (hl : l < s.lists.size) (hfree : s.Free l) : s'.Free l := by
  induction h with
  | refl s => exact hfree
  | step h _ ih =>
    exact ih (hl.trans_le h.size_lists_le) fun r hr => (h.owned hr).elim (hfree r) (Nat.not_le_of_lt hl)

theorem Moves.closed (h : s.Moves g s') (hs : s.Closed) : s'.Closed := by
  induction h with
  | refl s => exact hs
  | step h _ ih => exact ih (h.closed hs)

theorem Moves.node? (h : s.Moves g s') {r : Ref} {n : Node} (hn : s.node? r = some n) :
    ∃ n', s'.node? r = some n' ∧ (n' = n ∨ n.IsTuple ∧ n'.IsTuple) := by
  induction h generalizing n with
  | refl s => exact ⟨n, hn, .inl rfl⟩
  | step h _ ih =>
    obtain ⟨n', hn', hsame⟩ := h.node? hn
    obtain ⟨n'', hn'', hsame'⟩ := ih hn'
    refine ⟨n'', hn'', ?_⟩
    rcases hsame with rfl | ⟨ht, ht'⟩
    · exact hsame'
    · exact .inr ⟨ht, hsame'.elim (fun h => h ▸ ht') And.right⟩

theorem Moves.components? (h : s.Moves g s') (hs : s.Closed) (r : Ref) :
    s'.components? r = (lastGift? g r).or (s.components? r) := by
  induction h with
  | refl s => rfl
  | step h _ ih => rw [ih (h.closed hs), h.components? hs, lastGift?_append, Option.or_assoc]

end Move

end Store

/-! ## Computations that only add -/

namespace Builder

open Store

/-- **A computation moves a store**, and what it returns is as said; whatever was in the store is the same if it fails,
or if the computation is one that only adds. -/
structure Does (adds : Prop) {α : Type} (x : Builder α) (s : Store) (post : α → Store → Prop) : Prop where
  moves : s.Moves (x s).gifts (x s).store
  keeps : (adds ∨ ∃ e, (x s).outcome = .error e) → s.Extends (x s).store
  result : ∀ a, (x s).outcome = .ok a → post a (x s).store

/-- A computation only adds to a store, also if it fails. -/
abbrev Makes {α : Type} (x : Builder α) (s : Store) (post : α → Store → Prop) : Prop := Does True x s post

section Does

variable {α β : Type} {adds : Prop} {s : Store}

theorem Does.mono {x : Builder α} {post post' : α → Store → Prop} (h : Does adds x s post)
    (himp : ∀ a, post a (x s).store → post' a (x s).store) : Does adds x s post' :=
  ⟨h.moves, h.keeps, fun a ha => himp a (h.result a ha)⟩

theorem Does.bind {x : Builder α} {f : α → Builder β} {P : α → Store → Prop} {post : β → Store → Prop}
    (hs : s.Closed) (hx : Makes x s P)
    (hf : ∀ {gifts} a s', s.Moves gifts s' → s'.Closed → P a s' → Does adds (f a) s' post) :
    Does adds (x >>= f) s post := by
  obtain ⟨hmoves, hkeeps, hresult⟩ := hx
  replace hkeeps := hkeeps (.inl trivial)
  rcases hran : x s with ⟨log, gifts, outcome, s'⟩
  rw [hran] at hmoves hkeeps hresult
  cases outcome with
  | error e =>
    refine ⟨?_, ?_, ?_⟩ <;> rw [bind_of_error hran]
    · exact hmoves
    · exact fun _ => hkeeps
    · exact nofun
  | ok a =>
    have hnext := hf a s' hmoves (hmoves.closed hs) (hresult a rfl)
    refine ⟨?_, ?_, ?_⟩ <;> rw [bind_of_ok hran]
    · exact hmoves.trans hnext.moves
    · exact fun h => hkeeps.trans (hnext.keeps h)
    · exact hnext.result

theorem does_of_same {x : Builder α} {post : α → Store → Prop} (hstore : (x s).store = s) (hgifts : (x s).gifts = [])
    (hresult : ∀ a, (x s).outcome = .ok a → post a s) : Does adds x s post := by
  refine ⟨?_, ?_, ?_⟩ <;> rw [hstore]
  · rw [hgifts]
    exact .refl s
  · exact fun _ => .refl s
  · exact hresult

theorem does_pure {a : α} {post : α → Store → Prop} (h : post a s) : Does adds (pure a) s post :=
  does_of_same rfl rfl fun b hb => by
    cases hb
    exact h

theorem does_fail {f : Fault} {Q : α → Store → Prop} : Does adds (fail f) s Q :=
  does_of_same rfl rfl fun _ h => by cases h

theorem Does.after_look {x : Builder α} {f : α → Builder β} {post : β → Store → Prop} (hs : s.Closed)
    (hstore : (x s).store = s) (hgifts : (x s).gifts = [])
    (hf : ∀ a, (x s).outcome = .ok a → Does adds (f a) s post) : Does adds (x >>= f) s post := by
  refine .bind hs (P := fun a s' => s' = s ∧ (x s).outcome = .ok a)
    (does_of_same hstore hgifts fun a ha => ⟨rfl, ha⟩) ?_
  rintro - a _ - - ⟨rfl, ha⟩
  exact hf a ha

theorem does_lift_bind {x : Traced α} {f : α → Builder β} {post : β → Store → Prop} (hs : s.Closed)
    (hf : ∀ a, x.outcome = .ok a → Does adds (f a) s post) : Does adds (lift x >>= f) s post :=
  .after_look hs rfl rfl hf

theorem does_found_bind {e : Fault} {find : Store → Option α} {f : α → Builder β} {post : β → Store → Prop}
    (hs : s.Closed) (hf : ∀ a, find s = some a → Does adds (f a) s post) : Does adds (found e find >>= f) s post :=
  .after_look hs rfl rfl fun a ha => hf a (outcome_found.1 ha)

end Does

section Makes

variable {s : Store}

theorem makes_node {n : Node} (hn : n.Fits s) (ht : ¬ n.IsTuple) :
    Makes (node n) s fun t s' => t < s'.nodes.size where
  moves := (Move.node hn ht).moves
  keeps _ := extends_addNode s n
  result := by
    rintro _ ⟨rfl⟩
    simp [node]

theorem makes_list (hs : s.Closed) {cs : Components} (hcs : ∀ c ∈ cs, c.kind < s.nodes.size) :
    Makes (list cs) s fun l s' => l < s'.lists.size ∧ s'.Free l where
  moves := (Move.list hcs).moves
  keeps _ := extends_addList s cs
  result := by
    rintro _ ⟨rfl⟩
    exact ⟨by simp [list], fun r hr => Nat.lt_irrefl _ (hs.node hr)⟩

theorem makes_tuple (hs : s.Closed) {l : ListRef} : Makes (tuple l) s fun t s' => t < s'.nodes.size := by
  refine does_found_bind hs fun cs hcs => ?_
  exact
    { moves := (Move.construct hcs).moves
      keeps _ := extends_addTuple s cs
      result := by
        rintro _ ⟨rfl⟩
        simp [newTuple] }

mutual

theorem makes_install : ∀ (t : Ty) {s : Store}, s.Closed → Makes (install t) s fun r s' => r < s'.nodes.size
  | .scalar c, s, _ => by
    rw [install]
    exact makes_node trivial nofun
  | .tuple fs, s, hs => by
    rw [install]
    refine .bind hs (makes_installFields fs hs) fun cs s' _ hs' hcs => ?_
    exact .bind hs' (makes_list hs' hcs) fun l s'' _ hs'' _ => makes_tuple hs''
  | .array e, s, hs => by
    rw [install]
    exact .bind hs (makes_install e hs) fun r s' _ _ hr => makes_node hr nofun
  | .fixedArray e n, s, hs => by
    rw [install]
    exact .bind hs (makes_install e hs) fun r s' _ _ hr => makes_node hr nofun
  | .map k v, s, hs => by
    rw [install]
    refine .bind hs (makes_install k hs) fun key s' _ hs' hkey => ?_
    exact .bind hs' (makes_install v hs') fun value s'' hm _ hvalue =>
      makes_node ⟨hkey.trans_le hm.size_nodes_le, hvalue⟩ nofun

theorem makes_installFields : ∀ (fs : List (Field Ty)) {s : Store}, s.Closed →
    Makes (installFields fs) s fun cs s' => ∀ c ∈ cs, c.kind < s'.nodes.size
  | [], s, _ => by
    rw [installFields]
    exact does_pure nofun
  | ⟨n, k⟩ :: fs, s, hs => by
    rw [installFields]
    refine .bind hs (makes_install k hs) fun t s' _ hs' ht => ?_
    exact .bind hs' (makes_installFields fs hs') fun cs s'' hm _ hcs =>
      does_pure (List.forall_mem_cons.2 ⟨ht.trans_le hm.size_nodes_le, hcs⟩)

end

end Makes

end Builder

/-! ## Recipes -/

/-- A value refers to what is in the store, and if it is a list no tuple has it. -/
def Value.Fits (s : Store) : Value → Prop
  | .type t => t < s.nodes.size
  | .list l => l < s.lists.size ∧ s.Free l

theorem Value.Fits.grow {s s' : Store} {gifts : List Gift} (h : s.Moves gifts s') {v : Value} (hv : v.Fits s) :
    v.Fits s' := by
  cases v with
  | type t => exact hv.trans_le h.size_nodes_le
  | list l => exact ⟨hv.1.trans_le h.size_lists_le, h.free hv.1 hv.2⟩

namespace Registers

/-- Every register holds a value that fits the store. -/
def Fit (rs : Registers) (s : Store) : Prop := ∀ p ∈ rs, p.2.Fits s

section Fit

variable {rs : Registers} {s s' : Store}

theorem Fit.grow {gifts : List Gift} (hrs : rs.Fit s) (h : s.Moves gifts s') : rs.Fit s' := fun p hp =>
  (hrs p hp).grow h

theorem Fit.put (hrs : rs.Fit s) {v : Value} (hv : v.Fits s) (name : String) : (rs.put name v).Fit s := fun p hp => by
  rcases List.mem_cons.1 hp with rfl | hp
  · exact hv
  · exact hrs p (List.mem_filter.1 hp).1

theorem Fit.lookup (hrs : rs.Fit s) {name : String} {v : Value} (h : rs.lookup name = some v) : v.Fits s := by
  obtain ⟨rs₁, rs₂, rfl, -⟩ := List.lookup_eq_some_iff.1 h
  exact hrs (name, v) (by simp)

theorem Fit.type (hrs : rs.Fit s) {name : String} {t : Ref} (h : rs.type name = .ok t) : t < s.nodes.size := by
  unfold Registers.type at h
  split at h
  · cases h
    exact hrs.lookup ‹_›
  · cases h

theorem Fit.list (hrs : rs.Fit s) {name : String} {l : ListRef} (h : rs.list name = .ok l) :
    l < s.lists.size ∧ s.Free l := by
  unfold Registers.list at h
  split at h
  · cases h
    exact hrs.lookup ‹_›
  · cases h

end Fit

end Registers

namespace Builder

open Store

mutual

/-- **A recipe only adds to the store.** -/
theorem makes_recipe [Reader.Stack] {rs : Registers} : ∀ (r : Recipe) {s : Store}, s.Closed → rs.Fit s →
    Makes (r.build rs) s fun t s' => t < s'.nodes.size
  | .plain p, s, _, _ => by
    rw [Recipe.build]
    exact makes_node trivial nofun
  | .sized f n, s, hs, _ => by
    rw [Recipe.build]
    exact does_lift_bind hs fun size _ => makes_node trivial nofun
  | .tuple fs, s, hs, hrs => by
    rw [Recipe.build]
    exact .bind hs (makes_listRecipe fs hs hrs) fun l s' _ hs' _ => makes_tuple hs'
  | .array e, s, hs, hrs => by
    rw [Recipe.build]
    exact .bind hs (makes_recipe e hs hrs) fun t s' _ _ ht => makes_node ht nofun
  | .fixedArray e n, s, hs, hrs => by
    rw [Recipe.build]
    refine .bind hs (makes_recipe e hs hrs) fun t s' _ hs' ht => ?_
    exact does_lift_bind hs' fun size _ => makes_node ht nofun
  | .map k v, s, hs, hrs => by
    rw [Recipe.build]
    refine .bind hs (makes_recipe k hs hrs) fun key s' hm hs' hkey => ?_
    exact .bind hs' (makes_recipe v hs' (hrs.grow hm)) fun value s'' hm' _ hvalue =>
      makes_node ⟨hkey.trans_le hm'.size_nodes_le, hvalue⟩ nofun
  | .text signature, s, hs, _ => by
    rw [Recipe.build]
    exact does_lift_bind hs fun t _ => makes_install t hs
  | .register name, s, _, hrs => by
    rw [Recipe.build]
    exact does_of_same rfl rfl fun t ht => hrs.type ht

theorem makes_fieldRecipe [Reader.Stack] {rs : Registers} : ∀ (r : FieldRecipe) {s : Store}, s.Closed → rs.Fit s →
    Makes (r.build rs) s fun c s' => c.kind < s'.nodes.size
  | .named name kind, s, hs, hrs => by
    rw [FieldRecipe.build]
    exact .bind hs (makes_recipe kind hs hrs) fun t s' _ _ ht => does_pure ht
  | .text param, s, hs, _ => by
    rw [FieldRecipe.build]
    refine does_lift_bind hs fun f _ => ?_
    exact .bind hs (makes_install f.kind hs) fun t s' _ _ ht => does_pure ht

theorem makes_listRecipe [Reader.Stack] {rs : Registers} : ∀ (r : ListRecipe) {s : Store}, s.Closed → rs.Fit s →
    Makes (r.build rs) s fun l s' => l < s'.lists.size
  | .items fields, s, hs, hrs => by
    rw [ListRecipe.build]
    exact .bind hs (makes_buildItems fields hs hrs) fun cs s' _ hs' hcs => (makes_list hs' hcs).mono fun _ => And.left
  | .register name, s, _, hrs => by
    rw [ListRecipe.build]
    exact does_of_same rfl rfl fun l hl => (hrs.list hl).1

theorem makes_buildItems [Reader.Stack] {rs : Registers} : ∀ (fs : List FieldRecipe) {s : Store}, s.Closed → rs.Fit s →
    Makes (ListRecipe.buildItems rs fs) s fun cs s' => ∀ c ∈ cs, c.kind < s'.nodes.size
  | [], s, _, _ => by
    rw [ListRecipe.buildItems]
    exact does_pure nofun
  | f :: fs, s, hs, hrs => by
    rw [ListRecipe.buildItems]
    refine .bind hs (makes_fieldRecipe f hs hrs) fun c s' hm hs' hc => ?_
    exact .bind hs' (makes_buildItems fs hs' (hrs.grow hm)) fun cs s'' hm' _ hcs =>
      does_pure (List.forall_mem_cons.2 ⟨hc.trans_le hm'.size_nodes_le, hcs⟩)

end

end Builder
end AbiTypes
