import AbiTypes.Store
import Mathlib.Data.Finset.Card
import Mathlib.Data.Fintype.EquivFin
import Mathlib.Logic.Relation
import Mathlib.Order.Monotone.Basic
import Mathlib.Order.RelClasses
/-!
# Graph — the parts of the descriptors in a store

The number of descriptors is fuel enough: what is found by going from descriptor to descriptor is found within as many
steps (`within_eq_some_iff`), so the view of a descriptor is made of the views of its parts, whatever the graph
(`view?_eq`).  The graphs without cycles are those in which every descriptor has a view (`Closed.acyclic_iff`); in them
components given to a descriptor end somewhere (`Acyclic.exists_isSlot`).
-/
namespace AbiTypes
namespace Store

open Relation

/-! ## Fuel -/

/-- A step looks at parts only: it finds something only where there is a descriptor and something is found of each of
its parts, and what it finds depends on the parts alone. -/
structure Local {α : Type} (size : Nat) (part : Ref → Ref → Prop) (step : (Ref → Option α) → Ref → Option α) :
    Prop where
  lt : ∀ {find : Ref → Option α} {r : Ref} {a : α}, step find r = some a → r < size
  isSome : ∀ {find : Ref → Option α} {r c : Ref} {a : α}, step find r = some a → part r c → (find c).isSome
  congr : ∀ {find find' : Ref → Option α} {r : Ref}, (∀ c, part r c → find c = find' c) → step find r = step find' r

section Fuel

variable {α : Type} {size : Nat} {part : Ref → Ref → Prop} {step : (Ref → Option α) → Ref → Option α}

theorem Local.mono (h : Local size part step) {find find' : Ref → Option α} {r : Ref} {a : α}
    (hf : ∀ c b, find c = some b → find' c = some b) (ha : step find r = some a) : step find' r = some a := by
  rw [← ha]
  refine h.congr fun c hc => ?_
  obtain ⟨b, hb⟩ := Option.isSome_iff_exists.1 (h.isSome ha hc)
  rw [hb, hf c b hb]

theorem Local.within_mono (h : Local size part step) : ∀ {m n : Nat} {r : Ref} {a : α}, m ≤ n →
    within step m r = some a → within step n r = some a
  | 0, _, _, _, _, ha => nomatch ha
  | m + 1, 0, _, _, hmn, _ => absurd hmn (Nat.not_succ_le_zero m)
  | _ + 1, _ + 1, _, _, hmn, ha => h.mono (fun _ _ => h.within_mono (Nat.le_of_succ_le_succ hmn)) ha

def foundWithin (size : Nat) (step : (Ref → Option α) → Ref → Option α) (n : Nat) : Finset Ref :=
  (Finset.range size).filter fun r => (within step n r).isSome

theorem Local.mem_foundWithin (h : Local size part step) {n : Nat} {r : Ref} :
    r ∈ foundWithin size step n ↔ ∃ a, within step n r = some a := by
  rw [foundWithin, Finset.mem_filter, Finset.mem_range, Option.isSome_iff_exists]
  refine and_iff_right_of_imp ?_
  rintro ⟨a, ha⟩
  cases n with
  | zero => cases ha
  | succ n => exact h.lt ha

theorem Local.foundWithin_subset (h : Local size part step) {m n : Nat} (hmn : m ≤ n) :
    foundWithin size step m ⊆ foundWithin size step n := fun r hr => by
  obtain ⟨a, ha⟩ := h.mem_foundWithin.1 hr
  exact h.mem_foundWithin.2 ⟨a, h.within_mono hmn ha⟩

theorem Local.foundWithin_stable (h : Local size part step) {n : Nat}
    (hn : foundWithin size step n = foundWithin size step (n + 1)) :
    foundWithin size step (n + 1) = foundWithin size step (n + 2) := by
  refine Finset.Subset.antisymm (h.foundWithin_subset (Nat.le_succ _)) fun r hr => ?_
  obtain ⟨a, ha⟩ := h.mem_foundWithin.1 hr
  refine h.mem_foundWithin.2 ⟨a, ?_⟩
  rw [← ha]
  refine h.congr fun c hc => ?_
  obtain ⟨b, hb⟩ := Option.isSome_iff_exists.1 (h.isSome ha hc)
  have hmem : c ∈ foundWithin size step n := by
    rw [hn]
    exact h.mem_foundWithin.2 ⟨b, hb⟩
  obtain ⟨b', hb'⟩ := h.mem_foundWithin.1 hmem
  rw [hb', h.within_mono (Nat.le_succ n) hb']

/-- **The number of descriptors is fuel enough.** -/
theorem Local.within_eq_some_iff (h : Local size part step) {r : Ref} {a : α} :
    within step size r = some a ↔ ∃ n, within step n r = some a := by
  refine ⟨fun ha => ⟨size, ha⟩, ?_⟩
  rintro ⟨n, ha⟩
  -- the sets found grow inside `size` descriptors, and stop growing at the first step that adds nothing
  have hcard : (foundWithin size step (max n size)).card = (foundWithin size step size).card := by
    refine Nat.stabilises_of_monotone (fun m k hmk => Finset.card_le_card (h.foundWithin_subset hmk)) (fun m => ?_)
      (fun m hm => ?_) (Nat.le_max_right n size)
    · exact (Finset.card_le_card (Finset.filter_subset _ _)).trans_eq (Finset.card_range size)
    · rw [h.foundWithin_stable (Finset.eq_of_subset_of_card_le (h.foundWithin_subset (Nat.le_succ m)) hm.ge)]
  have hsame := Finset.eq_of_subset_of_card_le (h.foundWithin_subset (Nat.le_max_right n size)) hcard.le
  have hmax := h.within_mono (Nat.le_max_left n size) ha
  have hr : r ∈ foundWithin size step size := by
    rw [hsame]
    exact h.mem_foundWithin.2 ⟨a, hmax⟩
  obtain ⟨b, hb⟩ := h.mem_foundWithin.1 hr
  rw [hb, ← hmax, h.within_mono (Nat.le_max_right n size) hb]

theorem Local.within_eq (h : Local size part step) (r : Ref) : within step size r = step (within step size) r := by
  refine Option.ext fun a => ⟨fun ha => ?_, fun ha => ?_⟩
  · exact h.within_mono (n := size + 1) (Nat.le_succ size) ha
  · exact h.within_eq_some_iff.2 ⟨size + 1, ha⟩

theorem Local.exists_of_transGen (h : Local size part step) {n : Nat} {r c : Ref} {a : α}
    (ha : within step (n + 1) r = some a) (hc : TransGen part r c) : ∃ b, within step n c = some b := by
  induction hc with
  | single hc => exact Option.isSome_iff_exists.1 (h.isSome ha hc)
  | tail _ hd ih =>
    obtain ⟨b, hb⟩ := ih
    cases n with
    | zero => cases hb
    | succ n =>
      obtain ⟨b', hb'⟩ := Option.isSome_iff_exists.1 (h.isSome hb hd)
      exact ⟨b', h.within_mono (Nat.le_succ n) hb'⟩

/-- **Nothing is found of what stands below itself.** -/
theorem Local.not_transGen (h : Local size part step) {r : Ref} : ∀ {n : Nat} {a : α}, within step n r = some a →
    ¬ TransGen part r r
  | 0, _, ha, _ => nomatch ha
  | _ + 1, _, ha, hr => by
    obtain ⟨b, hb⟩ := h.exists_of_transGen ha hr
    exact h.not_transGen hb hr

end Fuel

/-! ## Parts -/

/-- `c` is a direct part of `r`. -/
inductive Part (s : Store) : Ref → Ref → Prop
  | elem {r e : Ref} (h : s.node? r = some (.array e)) : Part s r e
  | fixedElem {r e : Ref} {n : Nat} (h : s.node? r = some (.fixedArray e n)) : Part s r e
  | key {r k v : Ref} (h : s.node? r = some (.map k v)) : Part s r k
  | value {r k v : Ref} (h : s.node? r = some (.map k v)) : Part s r v
  | component {r : Ref} {cs : Components} {c : Field Ref} (h : s.components? r = some cs) (hc : c ∈ cs) :
    Part s r c.kind

/-- Components given to `r` are passed on to `c`. -/
inductive Forwards (s : Store) : Ref → Ref → Prop
  | elem {r e : Ref} (h : s.node? r = some (.array e)) : Forwards s r e
  | fixedElem {r e : Ref} {n : Nat} (h : s.node? r = some (.fixedArray e n)) : Forwards s r e
  | value {r k v : Ref} (h : s.node? r = some (.map k v)) : Forwards s r v

/-- **A graph without cycles**: no descriptor is a part of itself, at any depth. -/
def Acyclic (s : Store) : Prop := ∀ r, ¬ TransGen s.Part r r

end Store

/-- What a descriptor refers to is in the store. -/
def Node.Fits (s : Store) : Node → Prop
  | .scalar _ => True
  | .tuple l => l < s.lists.size
  | .array e | .fixedArray e _ => e < s.nodes.size
  | .map k v => k < s.nodes.size ∧ v < s.nodes.size

theorem Node.Fits.grow {s s' : Store} (hn : s.nodes.size ≤ s'.nodes.size) (hl : s.lists.size ≤ s'.lists.size) {n : Node}
    (h : n.Fits s) : n.Fits s' := by
  cases n with
  | scalar c => trivial
  | tuple l => exact Nat.lt_of_lt_of_le h hl
  | array e | fixedArray e m => exact Nat.lt_of_lt_of_le h hn
  | map k v => exact ⟨Nat.lt_of_lt_of_le h.1 hn, Nat.lt_of_lt_of_le h.2 hn⟩

namespace Store

open Relation

/-- **Every reference leads somewhere.** -/
structure Closed (s : Store) : Prop where
  node : ∀ {r : Ref} {n : Node}, s.node? r = some n → n.Fits s
  item : ∀ {l : ListRef} {cs : Components}, s.items? l = some cs → ∀ c ∈ cs, c.kind < s.nodes.size

instance (s : Store) (n : Node) : Decidable (n.Fits s) := by
  cases n <;> unfold Node.Fits <;> infer_instance

instance (s : Store) : Decidable s.Closed :=
  decidable_of_iff ((∀ n ∈ s.nodes, n.Fits s) ∧ ∀ cs ∈ s.lists, ∀ c ∈ cs, c.kind < s.nodes.size)
    ⟨fun ⟨hn, hi⟩ => ⟨fun h => hn _ (Array.mem_of_getElem? h), fun h => hi _ (Array.mem_of_getElem? h)⟩,
     fun h => ⟨fun _ hn => h.node (Array.mem_iff_getElem?.1 hn).choose_spec,
       fun _ hcs => h.item (Array.mem_iff_getElem?.1 hcs).choose_spec⟩⟩

theorem components?_eq_some_iff {s : Store} {r : Ref} {cs : Components} :
    s.components? r = some cs ↔ ∃ l, s.node? r = some (.tuple l) ∧ s.items? l = some cs := by
  unfold components?
  split
  · rename_i l h
    simp [h]
  · rename_i h
    simp only [reduceCtorEq, false_iff, not_exists, not_and]
    exact fun l hl => absurd hl (h l)

theorem Forwards.part {s : Store} {r c : Ref} (h : s.Forwards r c) : s.Part r c := by
  cases h with
  | elem h => exact .elem h
  | fixedElem h => exact .fixedElem h
  | value h => exact .value h

theorem Part.lt {s : Store} {r c : Ref} (h : s.Part r c) : r < s.nodes.size := by
  cases h with
  | elem h | fixedElem h | key h | value h => exact lt_of_node? h
  | component h _ =>
    obtain ⟨l, hl, -⟩ := components?_eq_some_iff.1 h
    exact lt_of_node? hl

theorem Closed.part {s : Store} (hs : s.Closed) {r c : Ref} (h : s.Part r c) : c < s.nodes.size := by
  cases h with
  | elem h | fixedElem h => exact hs.node h
  | key h => exact (hs.node h).1
  | value h => exact (hs.node h).2
  | component h hc =>
    obtain ⟨l, -, hl⟩ := components?_eq_some_iff.1 h
    exact hs.item hl _ hc

/-- A closed store stays closed if nothing is lost, and what is new refers to what is there. -/
theorem Closed.of_changes {s s' : Store} (hs : s.Closed) (hn : s.nodes.size ≤ s'.nodes.size)
    (hl : s.lists.size ≤ s'.lists.size)
    (hnode : ∀ {r : Ref} {n : Node}, s'.node? r = some n → s.node? r = some n ∨ n.Fits s')
    (hitem : ∀ {l : ListRef} {cs : Components}, s'.items? l = some cs →
      s.items? l = some cs ∨ ∀ c ∈ cs, c.kind < s.nodes.size) : s'.Closed where
  node h := (hnode h).elim (fun h => (hs.node h).grow hn hl) id
  item h c hc := ((hitem h).elim (fun h => hs.item h c hc) fun h => h c hc).trans_le hn

theorem part_of_part? {s : Store} {r c : Ref} {turn : Turn} (h : s.part? r turn = some c) : s.Part r c := by
  unfold part? at h
  split at h
  · cases h
    exact .elem ‹_›
  · cases h
    exact .fixedElem ‹_›
  · cases h
    exact .key ‹_›
  · cases h
    exact .value ‹_›
  · rename_i l i hl
    obtain ⟨f, hf, rfl⟩ := Option.map_eq_some_iff.1 h
    obtain ⟨cs, hcs, hi⟩ := Option.bind_eq_some_iff.1 hf
    exact .component (components?_eq_some_iff.2 ⟨l, hl, hcs⟩) (List.mem_of_getElem? hi)
  · cases h

theorem Closed.follow? {s : Store} (hs : s.Closed) : ∀ {path : List Turn} {r c : Ref}, r < s.nodes.size →
    s.follow? r path = some c → c < s.nodes.size
  | [], _, _, hr, h => by
    cases h
    exact hr
  | p :: ps, r, c, hr, h => by
    obtain ⟨d, hd, h⟩ := Option.bind_eq_some_iff.1 h
    exact hs.follow? (hs.part (part_of_part? hd)) h

theorem Closed.exists_components? {s : Store} (hs : s.Closed) {r : Ref} {l : ListRef}
    (h : s.node? r = some (.tuple l)) : ∃ cs, s.components? r = some cs := by
  obtain ⟨cs, hcs⟩ := exists_items? (hs.node h)
  exact ⟨cs, components?_eq_some_iff.2 ⟨l, h, hcs⟩⟩

theorem components?_eq_none {s : Store} {r : Ref} (h : ∀ l, s.node? r ≠ some (.tuple l)) : s.components? r = none := by
  unfold components?
  split
  · exact absurd ‹_› (h _)
  · rfl

theorem node?_size (s : Store) : s.node? s.nodes.size = none := Array.getElem?_size

theorem components?_congr {s s' : Store} {r : Ref} (hnode : s'.node? r = s.node? r)
    (hitems : ∀ l, s.node? r = some (.tuple l) → s'.items? l = s.items? l) : s'.components? r = s.components? r := by
  unfold components?
  rw [hnode]
  split
  · exact hitems _ ‹_›
  · rfl

/-! ## Views and slots -/

section FieldsWith

variable {α : Type} {find find' : Ref → Option α}

theorem fieldsWith_congr : ∀ {cs : Components}, (∀ c ∈ cs, find c.kind = find' c.kind) →
    fieldsWith find cs = fieldsWith find' cs
  | [], _ => rfl
  | c :: cs, h => by
    obtain ⟨hc, hcs⟩ := List.forall_mem_cons.1 h
    rw [fieldsWith, hc, fieldsWith_congr hcs, fieldsWith]

theorem isSome_of_fieldsWith : ∀ {cs : Components} {fs : List (Field α)}, fieldsWith find cs = some fs →
    ∀ c ∈ cs, (find c.kind).isSome
  | [], _, _ => nofun
  | c :: cs, fs, h => by
    obtain ⟨k, hk, h⟩ := Option.bind_eq_some_iff.1 h
    obtain ⟨gs, hgs, -⟩ := Option.map_eq_some_iff.1 h
    exact List.forall_mem_cons.2 ⟨by rw [hk]; rfl, isSome_of_fieldsWith hgs⟩

theorem fieldsWith_some (g : Ref → α) : ∀ cs : Components,
    fieldsWith (fun r => some (g r)) cs = some (cs.map (·.mapKind g))
  | [] => rfl
  | c :: cs => by
    rw [fieldsWith, fieldsWith_some g cs]
    rfl

end FieldsWith

section Steps

variable {s : Store} {r : Ref} (find : Ref → Option Ty) (go : Ref → Option Ref)

theorem viewStep_scalar {c : Scalar} (h : s.node? r = some (.scalar c)) : s.viewStep find r = some (.scalar c) := by
  rw [viewStep, h]

theorem viewStep_tuple {cs : Components} (h : s.components? r = some cs) :
    s.viewStep find r = (fieldsWith find cs).map .tuple := by
  obtain ⟨l, hl, hcs⟩ := components?_eq_some_iff.1 h
  rw [viewStep, hl]
  simp only [hcs, Option.bind_some]

theorem viewStep_array {e : Ref} (h : s.node? r = some (.array e)) : s.viewStep find r = (find e).map .array := by
  rw [viewStep, h]

theorem viewStep_fixedArray {e : Ref} {n : Nat} (h : s.node? r = some (.fixedArray e n)) :
    s.viewStep find r = (find e).map (.fixedArray · n) := by
  rw [viewStep, h]

theorem viewStep_map {k v : Ref} (h : s.node? r = some (.map k v)) :
    s.viewStep find r = (find k).bind fun key => (find v).map (.map key) := by
  rw [viewStep, h]

theorem slotStep_of_forwards {c : Ref} (h : s.Forwards r c) : s.slotStep go r = go c := by
  cases h with
  | elem h | fixedElem h | value h => rw [slotStep, h]

end Steps

theorem local_viewStep (s : Store) : Local s.nodes.size s.Part s.viewStep where
  lt {find r a} h := by
    cases hn : s.node? r with
    | none =>
      rw [viewStep, hn] at h
      cases h
    | some n => exact lt_of_node? hn
  isSome {find r c a} h hc := by
    cases hc with
    | elem hn =>
      rw [viewStep_array find hn] at h
      obtain ⟨t, ht, -⟩ := Option.map_eq_some_iff.1 h
      rw [ht]
      rfl
    | fixedElem hn =>
      rw [viewStep_fixedArray find hn] at h
      obtain ⟨t, ht, -⟩ := Option.map_eq_some_iff.1 h
      rw [ht]
      rfl
    | key hn =>
      rw [viewStep_map find hn] at h
      obtain ⟨t, ht, -⟩ := Option.bind_eq_some_iff.1 h
      rw [ht]
      rfl
    | value hn =>
      rw [viewStep_map find hn] at h
      obtain ⟨t, -, h⟩ := Option.bind_eq_some_iff.1 h
      obtain ⟨u, hu, -⟩ := Option.map_eq_some_iff.1 h
      rw [hu]
      rfl
    | component hcs hc =>
      rw [viewStep_tuple find hcs] at h
      obtain ⟨fs, hfs, -⟩ := Option.map_eq_some_iff.1 h
      exact isSome_of_fieldsWith hfs _ hc
  congr {find find' r} h := by
    cases hn : s.node? r with
    | none => rw [viewStep, viewStep, hn]
    | some n =>
      cases n with
      | scalar c => rw [viewStep_scalar find hn, viewStep_scalar find' hn]
      | array e => rw [viewStep_array find hn, viewStep_array find' hn, h e (.elem hn)]
      | fixedArray e n => rw [viewStep_fixedArray find hn, viewStep_fixedArray find' hn, h e (.fixedElem hn)]
      | map k v => rw [viewStep_map find hn, viewStep_map find' hn, h k (.key hn), h v (.value hn)]
      | tuple l =>
        cases hl : s.items? l with
        | none =>
          rw [viewStep, viewStep, hn]
          simp only [hl, Option.bind_none]
        | some cs =>
          have hcs : s.components? r = some cs := components?_eq_some_iff.2 ⟨l, hn, hl⟩
          rw [viewStep_tuple find hcs, viewStep_tuple find' hcs,
            fieldsWith_congr fun c hc => h c.kind (.component hcs hc)]

theorem local_slotStep (s : Store) : Local s.nodes.size s.Forwards s.slotStep where
  lt {find r a} h := by
    cases hn : s.node? r with
    | none =>
      rw [slotStep, hn] at h
      cases h
    | some n => exact lt_of_node? hn
  isSome {find r c a} h hc := by
    rw [slotStep_of_forwards find hc] at h
    rw [h]
    rfl
  congr {find find' r} h := by
    cases hn : s.node? r with
    | none => rw [slotStep, slotStep, hn]
    | some n =>
      cases n with
      | scalar c | tuple l => rw [slotStep, slotStep, hn]
      | array e => rw [slotStep_of_forwards find (.elem hn), slotStep_of_forwards find' (.elem hn), h e (.elem hn)]
      | fixedArray e n =>
        rw [slotStep_of_forwards find (.fixedElem hn), slotStep_of_forwards find' (.fixedElem hn), h e (.fixedElem hn)]
      | map k v => rw [slotStep_of_forwards find (.value hn), slotStep_of_forwards find' (.value hn), h v (.value hn)]

/-- **The view of a descriptor is made of the views of its parts.** -/
theorem view?_eq (s : Store) (r : Ref) : s.view? r = s.viewStep s.view? r := s.local_viewStep.within_eq r

theorem lt_of_view? {s : Store} {r : Ref} {t : Ty} (h : s.view? r = some t) : r < s.nodes.size :=
  s.local_viewStep.lt ((s.view?_eq r).symm.trans h)

theorem slot?_eq (s : Store) (r : Ref) : s.slot? r = s.slotStep s.slot? r := s.local_slotStep.within_eq r

theorem exists_fieldsWith {α : Type} {find : Ref → Option α} : ∀ {cs : Components},
    (∀ c ∈ cs, ∃ a, find c.kind = some a) → ∃ fs, fieldsWith find cs = some fs
  | [], _ => ⟨[], rfl⟩
  | c :: cs, h => by
    obtain ⟨⟨k, hk⟩, hcs⟩ := List.forall_mem_cons.1 h
    obtain ⟨fs, hfs⟩ := exists_fieldsWith hcs
    exact ⟨⟨c.name, k⟩ :: fs, by rw [fieldsWith, hk, hfs]; rfl⟩

/-! ## Graphs without cycles -/

/-- **In a graph without cycles every way down ends.** -/
theorem Acyclic.acc {s : Store} (ha : s.Acyclic) (hs : s.Closed) (r : Ref) : Acc (fun c r => s.Part r c) r := by
  let below : Fin s.nodes.size → Fin s.nodes.size → Prop := fun c r => TransGen s.Part r c
  have htrans : IsTrans _ below := ⟨fun _ _ _ h₁ h₂ => h₂.trans h₁⟩
  have hirrefl : Std.Irrefl below := ⟨fun r => ha r⟩
  have hwf : WellFounded below := Finite.wellFounded_of_trans_of_irrefl below
  have hin : ∀ i : Fin s.nodes.size, Acc (fun c r => s.Part r c) (i : Ref) := fun i => by
    induction i using hwf.induction with
    | _ i ih => exact ⟨_, fun c hc => ih ⟨c, hs.part hc⟩ (.single hc)⟩
  by_cases hr : r < s.nodes.size
  · exact hin ⟨r, hr⟩
  · exact ⟨_, fun c hc => absurd hc.lt hr⟩

/-- **Every descriptor of a graph without cycles has a view.** -/
theorem Acyclic.exists_view? {s : Store} (ha : s.Acyclic) (hs : s.Closed) {r : Ref} (hr : r < s.nodes.size) :
    ∃ t, s.view? r = some t := by
  induction ha.acc hs r with
  | intro r _ ih =>
    have hpart : ∀ c, s.Part r c → ∃ t, s.view? c = some t := fun c hc => ih c hc (hs.part hc)
    rw [view?_eq]
    obtain ⟨n, hn⟩ := exists_node? hr
    cases n with
    | scalar c => exact ⟨_, viewStep_scalar _ hn⟩
    | array e =>
      obtain ⟨t, ht⟩ := hpart e (.elem hn)
      exact ⟨_, by rw [viewStep_array _ hn, ht]; rfl⟩
    | fixedArray e n =>
      obtain ⟨t, ht⟩ := hpart e (.fixedElem hn)
      exact ⟨_, by rw [viewStep_fixedArray _ hn, ht]; rfl⟩
    | map k v =>
      obtain ⟨t, ht⟩ := hpart k (.key hn)
      obtain ⟨u, hu⟩ := hpart v (.value hn)
      exact ⟨_, by rw [viewStep_map _ hn, ht, hu]; rfl⟩
    | tuple l =>
      obtain ⟨cs, hcs⟩ := hs.exists_components? hn
      obtain ⟨fs, hfs⟩ := exists_fieldsWith fun c hc => hpart c.kind (.component hcs hc)
      exact ⟨_, by rw [viewStep_tuple _ hcs, hfs]; rfl⟩

/-- **The graphs without cycles are those in which every descriptor has a view.** -/
theorem Closed.acyclic_iff {s : Store} (hs : s.Closed) :
    s.Acyclic ↔ ∀ r < s.nodes.size, (s.view? r).isSome := by
  refine ⟨fun ha r hr => Option.isSome_iff_exists.2 (ha.exists_view? hs hr), fun h r hr => ?_⟩
  obtain ⟨c, hc, -⟩ := TransGen.head'_iff.1 hr
  obtain ⟨t, ht⟩ := Option.isSome_iff_exists.1 (h r hc.lt)
  exact s.local_viewStep.not_transGen ht hr

/-! ## Where components end -/

/-- **The slot of a descriptor**: the end of the way through elements and map values, never through keys or the
components of a tuple. -/
structure IsSlot (s : Store) (t q : Ref) : Prop where
  reached : ReflTransGen s.Forwards t q
  last : ∀ c, ¬ s.Forwards q c

theorem IsSlot.node {s : Store} {t q : Ref} {n : Node} (h : s.IsSlot t q) (hn : s.node? q = some n) :
    (∃ c, n = .scalar c) ∨ ∃ l, n = .tuple l := by
  cases n with
  | scalar c => exact .inl ⟨c, rfl⟩
  | tuple l => exact .inr ⟨l, rfl⟩
  | array e => exact absurd (.elem hn) (h.last e)
  | fixedArray e n => exact absurd (.fixedElem hn) (h.last e)
  | map k v => exact absurd (.value hn) (h.last v)

theorem not_forwards_of_tuple {s : Store} {r c : Ref} {l : ListRef} (hl : s.node? r = some (.tuple l)) :
    ¬ s.Forwards r c := fun h => by
  cases h with
  | elem h | fixedElem h | value h => cases hl.symm.trans h

/-- A tuple passes nothing on, so it is its own slot. -/
theorem isSlot_of_tuple {s : Store} {r : Ref} {l : ListRef} (hl : s.node? r = some (.tuple l)) : s.IsSlot r r :=
  ⟨.refl, fun _ => not_forwards_of_tuple hl⟩

theorem IsSlot.lt {s : Store} (hs : s.Closed) {t q : Ref} (h : s.IsSlot t q) (ht : t < s.nodes.size) :
    q < s.nodes.size := by
  induction h.reached with
  | refl => exact ht
  | tail _ hc _ => exact hs.part hc.part

theorem slotStep_of_last {s : Store} {q : Ref} (go : Ref → Option Ref) (hq : q < s.nodes.size)
    (h : ∀ c, ¬ s.Forwards q c) : s.slotStep go q = some q := by
  obtain ⟨n, hn⟩ := exists_node? hq
  obtain ⟨c, rfl⟩ | ⟨l, rfl⟩ := IsSlot.node ⟨.refl, h⟩ hn <;> rw [slotStep, hn]

theorem isSlot_of_within {s : Store} : ∀ {n : Nat} {t q : Ref}, within s.slotStep n t = some q →
    s.IsSlot t q ∧ q < s.nodes.size
  | 0, _, _, h => nomatch h
  | n + 1, t, q, h => by
    by_cases hf : ∃ c, s.Forwards t c
    · obtain ⟨c, hc⟩ := hf
      rw [within, slotStep_of_forwards _ hc] at h
      obtain ⟨hq, hlt⟩ := isSlot_of_within h
      exact ⟨⟨.head hc hq.reached, hq.last⟩, hlt⟩
    · have hlt : t < s.nodes.size := s.local_slotStep.lt h
      have hlast : ∀ c, ¬ s.Forwards t c := not_exists.1 hf
      rw [within, slotStep_of_last _ hlt hlast] at h
      cases h
      exact ⟨⟨.refl, hlast⟩, hlt⟩

/-- **Components given to a descriptor end at its slot.** -/
theorem slot?_eq_some_iff {s : Store} {t q : Ref} : s.slot? t = some q ↔ s.IsSlot t q ∧ q < s.nodes.size := by
  refine ⟨isSlot_of_within, ?_⟩
  rintro ⟨⟨hreach, hlast⟩, hq⟩
  induction hreach using ReflTransGen.head_induction_on with
  | refl => rw [slot?_eq, slotStep_of_last _ hq hlast]
  | head hc _ ih => rw [slot?_eq, slotStep_of_forwards _ hc, ih]

theorem IsSlot.eq {s : Store} {t q q' : Ref} (h : s.IsSlot t q) (h' : s.IsSlot t q') (hq : q < s.nodes.size)
    (hq' : q' < s.nodes.size) : q = q' :=
  Option.some.inj ((slot?_eq_some_iff.2 ⟨h, hq⟩).symm.trans (slot?_eq_some_iff.2 ⟨h', hq'⟩))

/-- **In a graph without cycles components given to a descriptor end somewhere.** -/
theorem Acyclic.exists_isSlot {s : Store} (ha : s.Acyclic) (hs : s.Closed) {t : Ref} (ht : t < s.nodes.size) :
    ∃ q, s.IsSlot t q ∧ q < s.nodes.size := by
  induction ha.acc hs t with
  | intro t _ ih =>
    by_cases hf : ∃ c, s.Forwards t c
    · obtain ⟨c, hc⟩ := hf
      obtain ⟨q, hq, hlt⟩ := ih c hc.part (hs.part hc.part)
      exact ⟨q, ⟨.head hc hq.reached, hq.last⟩, hlt⟩
    · exact ⟨t, ⟨.refl, not_exists.1 hf⟩, ht⟩

end Store
end AbiTypes
