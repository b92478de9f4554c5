import AbiTypes.Proofs.Growth
import Mathlib.Logic.Function.Basic
/-!
# Placement — one store inside another

A store may stand inside another one that holds more, under other references (`Placement`).  Descriptors look the same
in both (`Placement.view?_eq`), and computations run alike over both (`Builder.Alike`): they come to the same, up to
references, and leave stores of which one is inside the other again.
-/
namespace AbiTypes

/-- A descriptor under other references. -/
def Node.rename (node : Ref → Ref) (list : ListRef → ListRef) : Node → Node
  | .scalar c => .scalar c
  | .tuple l => .tuple (list l)
  | .array e => .array (node e)
  | .fixedArray e n => .fixedArray (node e) n
  | .map k v => .map (node k) (node v)

theorem Node.parts_rename (node : Ref → Ref) (list : ListRef → ListRef) (n : Node) :
    (n.rename node list).parts = n.parts := by
  cases n <;> rfl

theorem Node.rename_congr {s : Store} {node node' : Ref → Ref} {list list' : ListRef → ListRef}
    (hnode : ∀ r < s.nodes.size, node' r = node r) (hlist : ∀ l < s.lists.size, list' l = list l) {n : Node}
    (hn : n.Fits s) : n.rename node' list' = n.rename node list := by
  cases n with
  | scalar c => rfl
  | tuple l => exact congrArg Node.tuple (hlist l hn)
  | array e => exact congrArg Node.array (hnode e hn)
  | fixedArray e m => exact congrArg (Node.fixedArray · m) (hnode e hn)
  | map k v => exact congrArg₂ Node.map (hnode k hn.1) (hnode v hn.2)

/-- **A store inside another one**: what is in the inner store is in the outer one, under other references. -/
structure Placement where
  inner : Store
  outer : Store
  node : Ref → Ref
  list : ListRef → ListRef
  closed : inner.Closed
  node? : ∀ {r n}, inner.node? r = some n → outer.node? (node r) = some (n.rename node list)
  items? : ∀ {l cs}, inner.items? l = some cs → outer.items? (list l) = some (cs.map (·.mapKind node))
  node_inj : ∀ {q r}, q < inner.nodes.size → r < inner.nodes.size → node q = node r → q = r
  list_inj : ∀ {l m}, l < inner.lists.size → m < inner.lists.size → list l = list m → l = m

namespace Placement

open Store

/-- A placement that another one goes on from: what is in the inner store keeps its places. -/
structure Before (e e' : Placement) : Prop where
  size_nodes : e.inner.nodes.size ≤ e'.inner.nodes.size
  size_lists : e.inner.lists.size ≤ e'.inner.lists.size
  node : ∀ r < e.inner.nodes.size, e'.node r = e.node r
  list : ∀ l < e.inner.lists.size, e'.list l = e.list l

theorem Before.refl (e : Placement) : e.Before e := ⟨Nat.le_refl _, Nat.le_refl _, fun _ _ => rfl, fun _ _ => rfl⟩

theorem Before.trans {e e' e'' : Placement} (h : e.Before e') (h' : e'.Before e'') : e.Before e'' where
  size_nodes := h.size_nodes.trans h'.size_nodes
  size_lists := h.size_lists.trans h'.size_lists
  node r hr := (h'.node r (hr.trans_le h.size_nodes)).trans (h.node r hr)
  list l hl := (h'.list l (hl.trans_le h.size_lists)).trans (h.list l hl)

/-! ## The same thing in both stores -/

/-- Two references to one descriptor. -/
def SameNode (e : Placement) (a b : Ref) : Prop := a < e.inner.nodes.size ∧ e.node a = b

def SameList (e : Placement) (l m : ListRef) : Prop := l < e.inner.lists.size ∧ e.list l = m

def SameItems (e : Placement) (cs ds : Components) : Prop :=
  (∀ c ∈ cs, c.kind < e.inner.nodes.size) ∧ cs.map (·.mapKind e.node) = ds

section Same

variable {e e' : Placement}

theorem SameNode.later {a b : Ref} (h : e.SameNode a b) (hbefore : e.Before e') : e'.SameNode a b :=
  ⟨h.1.trans_le hbefore.size_nodes, (hbefore.node a h.1).trans h.2⟩

theorem SameList.later {l m : ListRef} (h : e.SameList l m) (hbefore : e.Before e') : e'.SameList l m :=
  ⟨h.1.trans_le hbefore.size_lists, (hbefore.list l h.1).trans h.2⟩

theorem map_mapKind_congr {f g : Ref → Ref} {cs : Components} (h : ∀ c ∈ cs, f c.kind = g c.kind) :
    cs.map (·.mapKind f) = cs.map (·.mapKind g) :=
  List.map_congr_left fun c hc => congrArg (Field.mk c.name) (h c hc)

theorem SameItems.later {cs ds : Components} (h : e.SameItems cs ds) (hbefore : e.Before e') : e'.SameItems cs ds :=
  ⟨fun c hc => (h.1 c hc).trans_le hbefore.size_nodes,
    (map_mapKind_congr fun c hc => hbefore.node _ (h.1 c hc)).trans h.2⟩

theorem SameItems.nil : e.SameItems [] [] := ⟨List.forall_mem_nil _, rfl⟩

theorem SameItems.cons {name : String} {a b : Ref} {cs ds : Components} (hab : e.SameNode a b) (h : e.SameItems cs ds) :
    e.SameItems (⟨name, a⟩ :: cs) (⟨name, b⟩ :: ds) :=
  ⟨List.forall_mem_cons.2 ⟨hab.1, h.1⟩, congrArg₂ List.cons (congrArg (Field.mk name) hab.2) h.2⟩

theorem SameItems.append {cs cs' ds ds' : Components} (h : e.SameItems cs ds) (h' : e.SameItems cs' ds') :
    e.SameItems (cs ++ cs') (ds ++ ds') :=
  ⟨List.forall_mem_append.2 ⟨h.1, h'.1⟩, by rw [List.map_append, h.2, h'.2]⟩

theorem SameItems.eq_nil_iff {cs ds : Components} (h : e.SameItems cs ds) : cs = [] ↔ ds = [] := by
  rw [← h.2, List.map_eq_nil_iff]

theorem SameItems.length {cs ds : Components} (h : e.SameItems cs ds) : cs.length = ds.length := by
  rw [← h.2, List.length_map]

theorem sameItems_of_items? {l : ListRef} {cs : Components} (h : e.inner.items? l = some cs) :
    ∃ ds, e.outer.items? (e.list l) = some ds ∧ e.SameItems cs ds :=
  ⟨_, e.items? h, e.closed.item h, rfl⟩

end Same

/-! ## Looking at the same descriptor -/

section Look

variable (e : Placement)

theorem fieldsWith_map {α : Type} {find find' : Ref → Option α} : ∀ {cs : Components},
    (∀ c ∈ cs, find c.kind = find' (e.node c.kind)) →
    fieldsWith find cs = fieldsWith find' (cs.map (·.mapKind e.node))
  | [], _ => rfl
  | c :: cs, h => by
    obtain ⟨hc, hcs⟩ := List.forall_mem_cons.1 h
    rw [List.map_cons, fieldsWith, fieldsWith, hc, fieldsWith_map hcs]
    rfl

theorem viewStep_node {find find' : Ref → Option Ty}
    (h : ∀ c < e.inner.nodes.size, find c = find' (e.node c)) {a : Ref} (ha : a < e.inner.nodes.size) :
    e.inner.viewStep find a = e.outer.viewStep find' (e.node a) := by
  obtain ⟨n, hn⟩ := exists_node? ha
  have hfits := e.closed.node hn
  unfold viewStep
  rw [hn, e.node? hn]
  cases n with
  | scalar c => rfl
  | array b => simp only [Node.rename, h b hfits]
  | fixedArray b m => simp only [Node.rename, h b hfits]
  | map k v => simp only [Node.rename, h k hfits.1, h v hfits.2]
  | tuple l =>
    obtain ⟨cs, hcs⟩ := exists_items? hfits
    simp only [Node.rename, hcs, e.items? hcs, Option.bind_some]
    rw [e.fieldsWith_map fun c hc => h _ (e.closed.item hcs c hc)]

theorem within_viewStep : ∀ (n : Nat) {a : Ref}, a < e.inner.nodes.size →
    within e.inner.viewStep n a = within e.outer.viewStep n (e.node a)
  | 0, _, _ => rfl
  | n + 1, _, ha => e.viewStep_node (fun _ hc => within_viewStep n hc) ha

/-- **A descriptor looks the same in both stores.** -/
theorem view?_eq {a : Ref} (ha : a < e.inner.nodes.size) : e.inner.view? a = e.outer.view? (e.node a) := by
  refine Option.ext fun t => ?_
  rw [Store.view?, Store.view?, e.inner.local_viewStep.within_eq_some_iff, e.outer.local_viewStep.within_eq_some_iff]
  simp only [e.within_viewStep _ ha]

theorem viewFields?_eq {cs ds : Components} (h : e.SameItems cs ds) :
    e.inner.viewFields? cs = e.outer.viewFields? ds := by
  rw [← h.2]
  exact e.fieldsWith_map fun c hc => e.view?_eq (h.1 c hc)

theorem slotStep_node {go go' : Ref → Option Ref}
    (h : ∀ c < e.inner.nodes.size, (go c).map e.node = go' (e.node c)) {a : Ref} (ha : a < e.inner.nodes.size) :
    (e.inner.slotStep go a).map e.node = e.outer.slotStep go' (e.node a) := by
  obtain ⟨n, hn⟩ := exists_node? ha
  have hfits := e.closed.node hn
  unfold slotStep
  rw [hn, e.node? hn]
  cases n with
  | scalar c | tuple l => rfl
  | array b | fixedArray b m => exact h b hfits
  | map k v => exact h v hfits.2

theorem within_slotStep : ∀ (n : Nat) {a : Ref}, a < e.inner.nodes.size →
    (within e.inner.slotStep n a).map e.node = within e.outer.slotStep n (e.node a)
  | 0, _, _ => rfl
  | n + 1, _, ha => e.slotStep_node (fun _ hc => within_slotStep n hc) ha

/-- **Components given to a descriptor end at the same place in both stores.** -/
theorem slot?_eq {a : Ref} (ha : a < e.inner.nodes.size) : (e.inner.slot? a).map e.node = e.outer.slot? (e.node a) := by
  refine Option.ext fun q => ?_
  rw [Store.slot?, Store.slot?, e.outer.local_slotStep.within_eq_some_iff, Option.map_eq_some_iff]
  simp only [e.inner.local_slotStep.within_eq_some_iff, ← e.within_slotStep _ ha, Option.map_eq_some_iff]
  tauto

theorem part?_eq {a : Ref} (ha : a < e.inner.nodes.size) (turn : Turn) :
    (e.inner.part? a turn).map e.node = e.outer.part? (e.node a) turn := by
  obtain ⟨n, hn⟩ := exists_node? ha
  unfold part?
  rw [hn, e.node? hn]
  cases n with
  | scalar c => rfl
  | array b | fixedArray b m => cases turn <;> rfl
  | map k v => cases turn <;> rfl
  | tuple l =>
    obtain ⟨cs, hcs⟩ := exists_items? (e.closed.node hn)
    cases turn with
    | component i => simp [Node.rename, hcs, e.items? hcs, Function.comp_def]
    | _ => rfl

theorem follow?_eq : ∀ (path : List Turn) {a : Ref}, a < e.inner.nodes.size →
    (e.inner.follow? a path).map e.node = e.outer.follow? (e.node a) path
  | [], _, _ => rfl
  | turn :: path, a, ha => by
    rw [follow?, follow?, ← e.part?_eq ha turn]
    cases hc : e.inner.part? a turn with
    | none => rfl
    | some c => exact follow?_eq path (e.closed.part (part_of_part? hc))

end Look

/-! ## Changing both stores -/

theorem update_inj {place : Nat → Nat} {size beyond : Nat}
    (hinj : ∀ {q r}, q < size → r < size → place q = place r → q = r) (hlt : ∀ q < size, place q < beyond) {q r : Nat}
    (hq : q < size + 1) (hr : r < size + 1)
    (h : Function.update place size beyond q = Function.update place size beyond r) : q = r := by
  rcases Nat.lt_succ_iff_lt_or_eq.1 hq with hq | rfl <;> rcases Nat.lt_succ_iff_lt_or_eq.1 hr with hr | rfl
  · rw [Function.update_of_ne hq.ne, Function.update_of_ne hr.ne] at h
    exact hinj hq hr h
  · rw [Function.update_of_ne hq.ne, Function.update_self] at h
    exact absurd h (hlt q hq).ne
  · rw [Function.update_self, Function.update_of_ne hr.ne] at h
    exact absurd h (hlt r hr).ne'
  · rfl

section Change

variable (e : Placement)

theorem node_lt {r : Ref} (hr : r < e.inner.nodes.size) : e.node r < e.outer.nodes.size := by
  obtain ⟨n, hn⟩ := exists_node? hr
  exact lt_of_node? (e.node? hn)

theorem list_lt {l : ListRef} (hl : l < e.inner.lists.size) : e.list l < e.outer.lists.size := by
  obtain ⟨cs, hcs⟩ := exists_items? hl
  exact lt_of_items? (e.items? hcs)

/-- The same new descriptor in both stores. -/
def addNode {n : Node} (hn : n.Fits e.inner) : Placement where
  inner := e.inner.addNode n
  outer := e.outer.addNode (n.rename e.node e.list)
  node := Function.update e.node e.inner.nodes.size e.outer.nodes.size
  list := e.list
  closed := e.closed.addNode hn
  node? {r m} h := by
    have hold : ∀ q < e.inner.nodes.size, Function.update e.node e.inner.nodes.size e.outer.nodes.size q = e.node q :=
      fun q hq => Function.update_of_ne hq.ne _ _
    rw [node?_addNode] at h ⊢
    split at h
    · cases h
      rename_i hr
      rw [hr, Function.update_self, if_pos rfl, Node.rename_congr hold (fun _ _ => rfl) hn]
    · rw [hold r (lt_of_node? h), if_neg (e.node_lt (lt_of_node? h)).ne, e.node? h,
        Node.rename_congr hold (fun _ _ => rfl) (e.closed.node h)]
  items? {l cs} h := by
    rw [items?_addNode, e.items? h]
    exact congrArg some (map_mapKind_congr fun c hc => (Function.update_of_ne (e.closed.item h c hc).ne _ _).symm)
  node_inj {q r} hq hr :=
    update_inj e.node_inj (fun _ => e.node_lt) (hq.trans_eq (size_nodes_addNode _ n))
      (hr.trans_eq (size_nodes_addNode _ n))
  list_inj := e.list_inj

theorem before_addNode {n : Node} (hn : n.Fits e.inner) : e.Before (e.addNode hn) where
  size_nodes := by simp [addNode]
  size_lists := Nat.le_refl _
  node r hr := Function.update_of_ne hr.ne _ _
  list _ _ := rfl

def addList {cs : Components} (hcs : ∀ c ∈ cs, c.kind < e.inner.nodes.size) : Placement where
  inner := e.inner.addList cs
  outer := e.outer.addList (cs.map (·.mapKind e.node))
  node := e.node
  list := Function.update e.list e.inner.lists.size e.outer.lists.size
  closed := e.closed.addList hcs
  node? {r n} h := by
    have hold : ∀ l < e.inner.lists.size, Function.update e.list e.inner.lists.size e.outer.lists.size l = e.list l :=
      fun l hl => Function.update_of_ne hl.ne _ _
    rw [node?_addList, e.node? h, Node.rename_congr (fun _ _ => rfl) hold (e.closed.node h)]
  items? {l ds} h := by
    rw [items?_addList] at h ⊢
    split at h
    · cases h
      rename_i hl
      rw [hl, Function.update_self, if_pos rfl]
    · rw [Function.update_of_ne ‹_›, if_neg (e.list_lt (lt_of_items? h)).ne, e.items? h]
  node_inj := e.node_inj
  list_inj {l m} hl hm :=
    update_inj e.list_inj (fun _ => e.list_lt) (hl.trans_eq (size_lists_addList _ cs))
      (hm.trans_eq (size_lists_addList _ cs))

theorem before_addList {cs : Components} (hcs : ∀ c ∈ cs, c.kind < e.inner.nodes.size) : e.Before (e.addList hcs) where
  size_nodes := Nat.le_refl _
  size_lists := by simp [addList]
  node _ _ := rfl
  list l hl := Function.update_of_ne hl.ne _ _

/-- The same other content for a descriptor in both stores. -/
def setNode {r : Ref} (hr : r < e.inner.nodes.size) {n : Node} (hn : n.Fits e.inner) : Placement where
  inner := e.inner.setNode r n
  outer := e.outer.setNode (e.node r) (n.rename e.node e.list)
  node := e.node
  list := e.list
  closed := e.closed.setNode hn r
  node? {q m} h := by
    rw [node?_setNode] at h ⊢
    split at h
    · cases h
      rename_i hq
      rw [if_pos ⟨congrArg e.node hq.1, e.node_lt hr⟩]
    · rename_i hq
      rw [if_neg, e.node? h]
      exact fun heq => hq ⟨e.node_inj hr (lt_of_node? h) heq.1, hr⟩
  items? := e.items?
  node_inj {q q'} hq hq' := e.node_inj (by simpa using hq) (by simpa using hq')
  list_inj := e.list_inj

theorem before_setNode {r : Ref} (hr : r < e.inner.nodes.size) {n : Node} (hn : n.Fits e.inner) :
    e.Before (e.setNode hr hn) where
  size_nodes := by simp [setNode]
  size_lists := Nat.le_refl _
  node _ _ := rfl
  list _ _ := rfl

def setList {l : ListRef} (hl : l < e.inner.lists.size) {cs : Components}
    (hcs : ∀ c ∈ cs, c.kind < e.inner.nodes.size) : Placement where
  inner := e.inner.setList l cs
  outer := e.outer.setList (e.list l) (cs.map (·.mapKind e.node))
  node := e.node
  list := e.list
  closed := e.closed.setList hcs l
  node? := e.node?
  items? {m ds} h := by
    rw [items?_setList] at h ⊢
    split at h
    · cases h
      rename_i hm
      rw [if_pos ⟨congrArg e.list hm.1, e.list_lt hl⟩]
    · rename_i hm
      rw [if_neg, e.items? h]
      exact fun heq => hm ⟨e.list_inj hl (lt_of_items? h) heq.1, hl⟩
  node_inj := e.node_inj
  list_inj {m m'} hm hm' := e.list_inj (by simpa using hm) (by simpa using hm')

theorem before_setList {l : ListRef} (hl : l < e.inner.lists.size) {cs : Components}
    (hcs : ∀ c ∈ cs, c.kind < e.inner.nodes.size) : e.Before (e.setList hl hcs) where
  size_nodes := Nat.le_refl _
  size_lists := by simp [setList]
  node _ _ := rfl
  list _ _ := rfl

end Change

end Placement
end AbiTypes
