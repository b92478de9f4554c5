import AbiTypes.Builder
import AbiTypes.Proofs.Graph
/-!
# Attachment — what components given to a descriptor change

An attachment changes one tuple, the slot of the descriptor, and nothing else (`Store.given_giveTuple`).  A shape is a
tree with the identities of its tuples (`Store.Looks`): after the attachment every descriptor looks like its old shape
with the new components shown by that tuple, wherever it occurs, and by no other (`Looks.view?_giveTuple`).  The new
components themselves look as before, for in a graph that stays without cycles they cannot contain the tuple
(`Acyclic.not_reaches`).
-/
namespace AbiTypes

/-! ## Shapes -/

/-- What a descriptor looks like, with the identities of the tuples in it. -/
inductive Shape
  | scalar (c : Scalar)
  | tuple (self : Ref) (fields : List (Field Shape))
  | array (elem : Shape)
  | fixedArray (elem : Shape) (size : Nat)
  | map (key value : Shape)
  deriving Inhabited

namespace Shape

mutual

/-- The tree of a shape, if a tuple that has certain components shows those that `shown` says. -/
def tree (shown : Ref → List (Field Ty) → List (Field Ty)) : Shape → Ty
  | .scalar c => .scalar c
  | .tuple self fs => .tuple (shown self (trees shown fs))
  | .array e => .array (e.tree shown)
  | .fixedArray e n => .fixedArray (e.tree shown) n
  | .map k v => .map (k.tree shown) (v.tree shown)

def trees (shown : Ref → List (Field Ty) → List (Field Ty)) : List (Field Shape) → List (Field Ty)
  | [] => []
  | ⟨name, k⟩ :: fs => ⟨name, k.tree shown⟩ :: trees shown fs

end

theorem trees_eq_map (shown : Ref → List (Field Ty) → List (Field Ty)) : ∀ fs : List (Field Shape),
    trees shown fs = fs.map (·.mapKind (tree shown))
  | [] => rfl
  | f :: fs => by
    rw [trees, trees_eq_map shown fs]
    rfl

def type : Shape → Ty := tree fun _ fs => fs

/-- **The tree of a shape in which every occurrence of one tuple shows the given components**, and all other tuples show
their own. -/
def showing (q : Ref) (ps : List (Field Ty)) : Shape → Ty := tree fun self fs => if self = q then ps else fs

end Shape

namespace Store

open Relation

/-- **A descriptor has a shape.** -/
inductive Looks (s : Store) : Ref → Shape → Prop
  | scalar {r : Ref} {c : Scalar} (h : s.node? r = some (.scalar c)) : Looks s r (.scalar c)
  | tuple {r : Ref} {cs : Components} (h : s.components? r = some cs) (shape : Ref → Shape)
    (hcs : ∀ c ∈ cs, Looks s c.kind (shape c.kind)) : Looks s r (.tuple r (cs.map (·.mapKind shape)))
  | array {r e : Ref} {t : Shape} (h : s.node? r = some (.array e)) (he : Looks s e t) : Looks s r (.array t)
  | fixedArray {r e : Ref} {n : Nat} {t : Shape} (h : s.node? r = some (.fixedArray e n)) (he : Looks s e t) :
    Looks s r (.fixedArray t n)
  | map {r k v : Ref} {t u : Shape} (h : s.node? r = some (.map k v)) (hk : Looks s k t) (hv : Looks s v u) :
    Looks s r (.map t u)

/-- **Every descriptor of a graph without cycles has a shape.** -/
theorem Acyclic.exists_looks {s : Store} (ha : s.Acyclic) (hs : s.Closed) {r : Ref} (hr : r < s.nodes.size) :
    ∃ t, s.Looks r t := by
  induction ha.acc hs r with
  | intro r _ ih =>
    have hpart : ∀ c, s.Part r c → ∃ t, s.Looks c t := fun c hc => ih c hc (hs.part hc)
    obtain ⟨n, hn⟩ := exists_node? hr
    cases n with
    | scalar c => exact ⟨_, .scalar hn⟩
    | array e =>
      obtain ⟨t, ht⟩ := hpart e (.elem hn)
      exact ⟨_, .array hn ht⟩
    | fixedArray e n =>
      obtain ⟨t, ht⟩ := hpart e (.fixedElem hn)
      exact ⟨_, .fixedArray hn ht⟩
    | map k v =>
      obtain ⟨t, ht⟩ := hpart k (.key hn)
      obtain ⟨u, hu⟩ := hpart v (.value hn)
      exact ⟨_, .map hn ht hu⟩
    | tuple l =>
      obtain ⟨cs, hcs⟩ := hs.exists_components? hn
      -- components of one kind are one object, so their shape may be chosen by the kind
      have hkind : ∀ c, (∃ f ∈ cs, f.kind = c) → ∃ t, s.Looks c t := by
        rintro _ ⟨f, hf, rfl⟩
        exact hpart f.kind (.component hcs hf)
      choose! shape hshape using hkind
      exact ⟨_, .tuple hcs shape fun c hc => hshape c.kind ⟨c, hc, rfl⟩⟩

/-- **How the shapes of one store show in another**: if descriptors that only have parts among themselves are the same
in another store, but for the components of tuples, they show there the trees of their shapes, in which tuples show what
is said of them. -/
theorem Looks.view?_of_shown {s s' : Store} {P : Ref → Prop} {shown : Ref → List (Field Ty) → List (Field Ty)}
    (hpart : ∀ {r c}, P r → s.Part r c → P c)
    (hnode : ∀ {r n}, P r → s.node? r = some n → (∀ l, n ≠ .tuple l) → s'.node? r = some n)
    (htuple : ∀ {r cs fs}, P r → s.components? r = some cs → s'.viewFields? cs = some fs →
      s'.view? r = some (.tuple (shown r fs)))
    {r : Ref} {t : Shape} (h : s.Looks r t) (hr : P r) : s'.view? r = some (t.tree shown) := by
  induction h with
  | scalar hn => rw [view?_eq, viewStep_scalar _ (hnode hr hn nofun), Shape.tree]
  | array hn _ ih =>
    rw [view?_eq, viewStep_array _ (hnode hr hn nofun), ih (hpart hr (.elem hn)), Shape.tree, Option.map_some]
  | fixedArray hn _ ih =>
    rw [view?_eq, viewStep_fixedArray _ (hnode hr hn nofun), ih (hpart hr (.fixedElem hn)), Shape.tree, Option.map_some]
  | map hn _ _ ihk ihv =>
    rw [view?_eq, viewStep_map _ (hnode hr hn nofun), ihk (hpart hr (.key hn)), ihv (hpart hr (.value hn)), Shape.tree,
      Option.bind_some, Option.map_some]
  | @tuple r cs hcs shape _ ih =>
    have hfs : s'.viewFields? cs = some (cs.map (·.mapKind fun c => (shape c).tree shown)) := by
      rw [← fieldsWith_some]
      exact fieldsWith_congr fun c hc => ih c hc (hpart hr (.component hcs hc))
    rw [htuple hr hcs hfs, Shape.tree, Shape.trees_eq_map, List.map_map]
    rfl

theorem view?_tuple {s : Store} {r : Ref} {cs : Components} {fs : List (Field Ty)} (h : s.components? r = some cs)
    (hfs : s.viewFields? cs = some fs) : s.view? r = some (.tuple fs) := by
  rw [view?_eq, viewStep_tuple _ h]
  exact congrArg (Option.map Ty.tuple) hfs

theorem Looks.view? {s : Store} {r : Ref} {t : Shape} (h : s.Looks r t) : s.view? r = some t.type :=
  h.view?_of_shown (P := fun _ => True) (fun _ _ => trivial) (fun _ hn _ => hn) (fun _ => view?_tuple) trivial

/-! ## The store after an attachment -/

section GiveTuple

variable {s : Store} {q : Ref} {l : ListRef} {ps : Components}

theorem node?_giveTuple_of_ne {r : Ref} (h : r ≠ q) : (s.giveTuple q ps).node? r = s.node? r := by
  rw [node?_giveTuple, if_neg fun hr => h hr.1.symm]

theorem items?_giveTuple_of_lt {m : ListRef} (h : m < s.lists.size) : (s.giveTuple q ps).items? m = s.items? m := by
  rw [items?_giveTuple, if_neg h.ne]

theorem components?_giveTuple_self (h : q < s.nodes.size) : (s.giveTuple q ps).components? q = some ps :=
  components?_eq_some_iff.2
    ⟨s.lists.size, by rw [node?_giveTuple, if_pos ⟨rfl, h⟩], by rw [items?_giveTuple, if_pos rfl]⟩

theorem components?_giveTuple_of_ne (hs : s.Closed) {r : Ref} (h : r ≠ q) :
    (s.giveTuple q ps).components? r = s.components? r :=
  components?_congr (node?_giveTuple_of_ne h) fun _ hl => items?_giveTuple_of_lt (hs.node hl)

theorem part_giveTuple_of_ne (hs : s.Closed) {r c : Ref} (h : r ≠ q) (hc : s.Part r c) :
    (s.giveTuple q ps).Part r c := by
  cases hc with
  | elem hn => exact .elem (by rw [node?_giveTuple_of_ne h, hn])
  | fixedElem hn => exact .fixedElem (by rw [node?_giveTuple_of_ne h, hn])
  | key hn => exact .key (by rw [node?_giveTuple_of_ne h, hn])
  | value hn => exact .value (by rw [node?_giveTuple_of_ne h, hn])
  | component hcs hc => exact .component (by rw [components?_giveTuple_of_ne hs h, hcs]) hc

theorem reaches_giveTuple (hs : s.Closed) {r : Ref} (h : ReflTransGen s.Part r q) :
    ReflTransGen (s.giveTuple q ps).Part r q := by
  induction h using ReflTransGen.head_induction_on with
  | refl => exact .refl
  | @head r c hc _ ih =>
    by_cases hr : r = q
    · rw [hr]
    · exact .head (part_giveTuple_of_ne hs hr hc) ih

/-- **Every descriptor shows its old shape, with the given components wherever the tuple occurs.** -/
theorem Looks.view?_giveTuple (hs : s.Closed) (hl : s.node? q = some (.tuple l)) {fs : List (Field Ty)}
    (hfs : (s.giveTuple q ps).viewFields? ps = some fs) {r : Ref} {t : Shape} (h : s.Looks r t) :
    (s.giveTuple q ps).view? r = some (t.showing q fs) := by
  refine h.view?_of_shown (P := fun _ => True) (fun _ _ => trivial) (fun {r n} _ hn hnt => ?_)
    (fun {r cs gs} _ hcs hgs => ?_) trivial
  · rw [node?_giveTuple_of_ne, hn]
    rintro rfl
    exact hnt l (Option.some.inj (hn.symm.trans hl))
  · by_cases hr : r = q
    · subst hr
      rw [if_pos rfl]
      exact view?_tuple (components?_giveTuple_self (lt_of_node? hl)) hfs
    · rw [if_neg hr]
      exact view?_tuple ((components?_giveTuple_of_ne hs hr).trans hcs) hgs

/-- **What does not contain the tuple looks as before.** -/
theorem Looks.view?_giveTuple_of_not_reaches (hs : s.Closed) {r : Ref} {t : Shape} (h : s.Looks r t)
    (hr : ¬ ReflTransGen s.Part r q) : (s.giveTuple q ps).view? r = some t.type := by
  refine h.view?_of_shown (P := fun r => ¬ ReflTransGen s.Part r q) (fun hr hc h => hr (.head hc h))
    (fun {r n} hr hn _ => ?_) (fun {r cs gs} hr hcs hgs => ?_) hr
  · rw [node?_giveTuple_of_ne, hn]
    rintro rfl
    exact hr .refl
  · refine view?_tuple ((components?_giveTuple_of_ne hs ?_).trans hcs) hgs
    rintro rfl
    exact hr .refl

end GiveTuple

/-! ## What an attachment comes to -/

/-- **A store in which one tuple has other components, and nothing else is different.** -/
structure Given (s s' : Store) (q : Ref) (ps : Components) : Prop where
  components : s'.components? q = some ps
  node : ∀ r, r ≠ q → s'.node? r = s.node? r
  others : ∀ r, r ≠ q → s'.components? r = s.components? r
  items : ∀ m cs, s.items? m = some cs → s'.items? m = some cs

/-- **How a store shows that one tuple has other components**: every descriptor, and every list, shows the shape it had
with those components at every occurrence of the tuple; the components themselves look as before. -/
structure Shows (s s' : Store) (q : Ref) (ps : Components) (fs : List (Field Ty)) (shape : Ref → Shape) : Prop where
  given : s.viewFields? ps = some fs ∧ s'.viewFields? ps = some fs
  looks : ∀ r < s.nodes.size, s.Looks r (shape r)
  descriptor : ∀ r < s.nodes.size, s.view? r = some (shape r).type ∧ s'.view? r = some ((shape r).showing q fs)
  list : ∀ m cs, s.items? m = some cs → s.viewFields? cs = some (cs.map (·.mapKind fun c => (shape c).type)) ∧
    s'.viewFields? cs = some (cs.map (·.mapKind fun c => (shape c).showing q fs))
  apart : ∀ r < s.nodes.size, ¬ ReflTransGen s.Part r q → s'.view? r = s.view? r

section GiveTuple

variable {s : Store} {q : Ref} {l : ListRef} {ps : Components}

theorem given_giveTuple (hs : s.Closed) (hq : q < s.nodes.size) : s.Given (s.giveTuple q ps) q ps where
  components := components?_giveTuple_self hq
  node _ := node?_giveTuple_of_ne
  others _ := components?_giveTuple_of_ne hs
  items _ _ h := by rw [items?_giveTuple_of_lt (lt_of_items? h), h]

theorem viewFields?_eq_map {s : Store} {cs : Components} {tree : Ref → Ty}
    (h : ∀ c ∈ cs, s.view? c.kind = some (tree c.kind)) : s.viewFields? cs = some (cs.map (·.mapKind tree)) := by
  rw [← fieldsWith_some]
  exact fieldsWith_congr h

/-- The given components cannot contain the tuple. -/
theorem Acyclic.not_reaches (hs : s.Closed) (hq : q < s.nodes.size) (ha' : (s.giveTuple q ps).Acyclic) :
    ∀ c ∈ ps, ¬ ReflTransGen s.Part c.kind q := fun _ hc hreach =>
  ha' q (.head' (.component (components?_giveTuple_self hq) hc) (reaches_giveTuple hs hreach))

theorem exists_shows_giveTuple (hs : s.Closed) (ha : s.Acyclic) (hl : s.node? q = some (.tuple l))
    (hps : ∀ c ∈ ps, c.kind < s.nodes.size) (ha' : (s.giveTuple q ps).Acyclic) :
    ∃ fs shape, s.Shows (s.giveTuple q ps) q ps fs shape := by
  have hshape : ∀ r, r < s.nodes.size → ∃ t, s.Looks r t := fun r hr => ha.exists_looks hs hr
  choose! shape hshape using hshape
  have hapart : ∀ r < s.nodes.size, ¬ ReflTransGen s.Part r q →
      (s.giveTuple q ps).view? r = some (shape r).type := fun r hr =>
    (hshape r hr).view?_giveTuple_of_not_reaches hs
  have hfs : (s.giveTuple q ps).viewFields? ps = some (ps.map (·.mapKind fun c => (shape c).type)) :=
    viewFields?_eq_map fun c hc => hapart _ (hps c hc) (ha'.not_reaches hs (lt_of_node? hl) c hc)
  refine ⟨_, shape, ⟨viewFields?_eq_map fun c hc => (hshape _ (hps c hc)).view?, hfs⟩, hshape, fun r hr => ?_,
    fun m cs hcs => ?_, fun r hr hreach => ?_⟩
  · exact ⟨(hshape r hr).view?, (hshape r hr).view?_giveTuple hs hl hfs⟩
  · exact ⟨viewFields?_eq_map fun c hc => (hshape _ (hs.item hcs c hc)).view?,
      viewFields?_eq_map fun c hc => (hshape _ (hs.item hcs c hc)).view?_giveTuple hs hl hfs⟩
  · rw [hapart r hr hreach, (hshape r hr).view?]

end GiveTuple

end Store

def Ran.Raises {α : Type} (x : Ran α) (c : FaultClass) : Prop := ∃ f, x.outcome = .error f ∧ f.class? = some c

section Raises

variable {α : Type} {log : List Event} {gifts : List Gift} {s : Store} {c : FaultClass}

@[simp] theorem Ran.raises_error {f : Fault} : (⟨log, gifts, .error f, s⟩ : Ran α).Raises c ↔ f.class? = some c := by
  simp [Raises]

@[simp] theorem Ran.not_raises_ok {a : α} : ¬ (⟨log, gifts, .ok a, s⟩ : Ran α).Raises c := by
  simp [Raises]

end Raises

def Node.IsTuple (n : Node) : Prop := ∃ l, n = .tuple l

theorem Node.not_isTuple_scalar {c : Scalar} : ¬ (Node.scalar c).IsTuple := by
  rintro ⟨_, h⟩
  cases h

theorem Node.not_isTuple_array {e : Ref} : ¬ (Node.array e).IsTuple := by
  rintro ⟨_, h⟩
  cases h

theorem Node.not_isTuple_fixedArray {e : Ref} {n : Nat} : ¬ (Node.fixedArray e n).IsTuple := by
  rintro ⟨_, h⟩
  cases h

theorem Node.not_isTuple_map {k v : Ref} : ¬ (Node.map k v).IsTuple := by
  rintro ⟨_, h⟩
  cases h

namespace Builder

open Store

section Attach

variable {s : Store} {t q : Ref} {l : ListRef} {ps : Components}

theorem attach_eq_receive {n : Node} (hps : s.items? l = some ps) (hq : s.slot? t = some q) (hn : s.node? q = some n) :
    attach t l s = receive q ps n s := by
  have hitems : items l s = ⟨[], [], .ok ps, s⟩ := by rw [items, found, hps]
  have hslot : found .cyclic (·.slot? t) s = ⟨[], [], .ok q, s⟩ := by rw [found, hq]
  have hnode : found .cyclic (·.node? q) s = ⟨[], [], .ok n, s⟩ := by rw [found, hn]
  rw [attach, bind_of_ok hitems, bind_of_ok hslot, bind_of_ok hnode]
  rfl

theorem receive_tuple (hps : ps ≠ []) : receive q ps (.tuple l) s =
    ⟨(tellAttached q ps.length (s.giveTuple q ps)).log, [⟨q, ps⟩], .ok (), s.giveTuple q ps⟩ := by
  rw [receive, if_neg hps]
  exact bind_of_ok (rfl : give q ps s = ⟨[], [⟨q, ps⟩], .ok (), s.giveTuple q ps⟩)

theorem receive_tuple_nil (hps : ps = []) : receive q ps (.tuple l) s = ⟨[], [], .error .emptyTuple, s⟩ := by
  rw [receive, if_pos hps]
  rfl

theorem receive_scalar_nil {c : Scalar} (hps : ps = []) : receive q ps (.scalar c) s = ⟨[], [], .ok (), s⟩ := by
  rw [receive, if_pos hps]
  rfl

theorem receive_scalar {c : Scalar} (hps : ps ≠ []) : receive q ps (.scalar c) s =
    ⟨[], [], (Ty.scalar c).print.bind fun signature => .error (.unusedComponents signature ps.length), s⟩ := by
  rw [receive, if_neg hps]
  cases hprint : (Ty.scalar c).print with
  | error f => exact bind_of_error rfl
  | ok signature => exact bind_of_ok rfl

end Attach

/-- A tuple of one component (1) that is key and value of a map (3) at once; the map is in an array (4), the array in
another tuple (5) beside a tuple (2) that looks like the first. -/
def shared : Store where
  nodes := #[.scalar (.plain .bool), .tuple 0, .tuple 1, .map 1 1, .fixedArray 3 2, .tuple 2, .scalar (.sized .uint 8)]
  lists := #[[⟨"a", 0⟩], [⟨"a", 0⟩], [⟨"x", 4⟩, ⟨"y", 2⟩], [⟨"p", 6⟩, ⟨"q", 2⟩]]

end Builder
end AbiTypes
