import AbiTypes.Proofs.Seclusion
/-!
# Overwriting — one attachment after another

Components given to a descriptor end at its slot, and the way there leads through descriptors that never change.  So no
attachment redirects another, or changes what comes of it (`Builder.outcome_attach_of_moves`): of two attachments to one
slot only the later one shows, and two attachments to different slots may change places, also where one slot is inside
the components that the other is given.
-/
namespace AbiTypes
namespace Store

/-! ## Stores that hold one graph -/

/-- **Two stores hold one graph**: each descriptor is the same in both, with the same components if it is a tuple,
whichever lists these are in.  So each looks the same in both, and has the same descriptors at its positions. -/
structure SameGraph (s s' : Store) : Prop where
  size : s'.nodes.size = s.nodes.size
  node : ∀ r n, ¬ n.IsTuple → (s'.node? r = some n ↔ s.node? r = some n)
  components : ∀ r, s'.components? r = s.components? r
  view : ∀ r, s'.view? r = s.view? r
  follow : ∀ r path, s'.follow? r path = s.follow? r path

theorem view?_eq_none {s : Store} {r : Ref} (h : s.nodes.size ≤ r) : s.view? r = none := by
  cases hv : s.view? r with
  | none => rfl
  | some t => exact absurd (lt_of_view? hv) (Nat.not_lt.2 h)

section SameGraph

variable {s s' : Store}

theorem part?_of_sameAt (hs : s.Closed) {r c : Ref} (h : s.SameAt s' r) {turn : Turn} (hc : s.part? r turn = some c) :
    s'.part? r turn = some c := by
  obtain ⟨n, hn⟩ := exists_node? (part_of_part? hc).lt
  cases n with
  | scalar a =>
    rw [part?_scalar hn] at hc
    cases hc
  | array e => exact (part?_array (h.node Node.not_isTuple_array hn)).2 ((part?_array hn).1 hc)
  | fixedArray e m => exact (part?_fixedArray (h.node Node.not_isTuple_fixedArray hn)).2 ((part?_fixedArray hn).1 hc)
  | map k v => exact (part?_map (h.node Node.not_isTuple_map hn)).2 ((part?_map hn).1 hc)
  | tuple l =>
    obtain ⟨cs, hcs⟩ := hs.exists_components? hn
    exact (part?_tuple (h.components hcs)).2 ((part?_tuple hcs).1 hc)

/-- **Stores whose descriptors are the same hold one graph.** -/
theorem sameGraph_of (hs : s.Closed) (hs' : s'.Closed) (hsize : s'.nodes.size = s.nodes.size)
    (hnode : ∀ r n, ¬ n.IsTuple → (s'.node? r = some n ↔ s.node? r = some n))
    (hcomponents : ∀ r, s'.components? r = s.components? r) : s.SameGraph s' := by
  have hsame : ∀ r, s.SameAt s' r := fun r =>
    ⟨fun {n} hn h => (hnode r n hn).2 h, fun h => (hcomponents r).trans h⟩
  have hsame' : ∀ r, s'.SameAt s r := fun r =>
    ⟨fun {n} hn h => (hnode r n hn).1 h, fun h => (hcomponents r).symm.trans h⟩
  have hpart : ∀ r turn, s'.part? r turn = s.part? r turn := fun r turn => Option.ext fun c =>
    ⟨part?_of_sameAt hs' (hsame' r), part?_of_sameAt hs (hsame r)⟩
  refine ⟨hsize, hnode, hcomponents, fun r => ?_, fun r path => ?_⟩
  · by_cases hr : r < s.nodes.size
    · exact view?_congr hs (P := fun r => r < s.nodes.size) (fun _ => hs.part) (fun hr => ⟨hr, hsame _⟩) hr
    · rw [view?_eq_none (Nat.not_lt.1 hr), view?_eq_none (hsize.trans_le (Nat.not_lt.1 hr))]
  · induction path generalizing r with
    | nil => rfl
    | cons turn path ih =>
      rw [follow?, follow?, hpart]
      exact congrArg _ (funext ih)

end SameGraph

/-! ## Which tuple receives what -/

/-- **The tuple that receives the components given to a descriptor**: its slot, if that is a tuple. -/
def Receives (s : Store) (t q : Ref) : Prop := s.IsSlot t q ∧ ∃ l, s.node? q = some (.tuple l)

theorem Receives.lt {s : Store} {t q : Ref} (h : s.Receives t q) : q < s.nodes.size := by
  obtain ⟨-, l, hl⟩ := h
  exact lt_of_node? hl

theorem Receives.eq {s : Store} {t q q' : Ref} (h : s.Receives t q) (h' : s.Receives t q') : q = q' :=
  h.1.eq h'.1 h.lt h'.lt

/-- **No change of a store makes another tuple receive what is given to a descriptor.** -/
theorem Moves.receives_iff {s s' : Store} {gifts : List Gift} (hm : s.Moves gifts s') (hs : s.Closed) {t q : Ref}
    (ht : t < s.nodes.size) : s'.Receives t q ↔ s.Receives t q := by
  constructor
  · rintro ⟨hq, m, hl⟩
    have hq := (hm.isSlot_iff hs ht).1 hq
    exact ⟨hq, hm.exists_tuple (hq.lt hs ht) hl⟩
  · rintro ⟨hq, m, hl⟩
    obtain ⟨n, hn, rfl | ⟨-, m', rfl⟩⟩ := hm.node? hl
    · exact ⟨(hm.isSlot_iff hs ht).2 hq, m, hn⟩
    · exact ⟨(hm.isSlot_iff hs ht).2 hq, m', hn⟩

theorem Moves.slot?_eq {s s' : Store} {gifts : List Gift} (hm : s.Moves gifts s') (hs : s.Closed) {t : Ref}
    (ht : t < s.nodes.size) : s'.slot? t = s.slot? t := by
  refine Option.ext fun q => ?_
  rw [slot?_eq_some_iff, slot?_eq_some_iff, hm.isSlot_iff hs ht]
  exact ⟨fun ⟨hq, _⟩ => ⟨hq, hq.lt hs ht⟩, fun ⟨hq, hlt⟩ => ⟨hq, hlt.trans_le hm.size_nodes_le⟩⟩

theorem Moves.node?_iff {s s' : Store} {gifts : List Gift} (hm : s.Moves gifts s')
    (hsize : s'.nodes.size = s.nodes.size) (r : Ref) (n : Node) (hn : ¬ n.IsTuple) :
    s'.node? r = some n ↔ s.node? r = some n := by
  constructor <;> intro h
  · obtain ⟨n₀, hn₀⟩ := exists_node? ((lt_of_node? h).trans_eq hsize)
    obtain ⟨n', hn', rfl | ⟨-, htuple⟩⟩ := hm.node? hn₀
    · rw [hn₀, ← hn', h]
    · cases hn'.symm.trans h
      exact absurd htuple hn
  · obtain ⟨n', hn', rfl | ⟨htuple, -⟩⟩ := hm.node? h
    · exact hn'
    · exact absurd htuple hn

/-- **A store in which components were given to a descriptor**: the tuple that receives them has them, and all else is
as before. -/
structure Settles (s : Store) (t : Ref) (cs : Components) (s' : Store) : Prop where
  closed : s'.Closed
  size : s'.nodes.size = s.nodes.size
  lists : s.KeepsLists s'
  node : ∀ r n, ¬ n.IsTuple → (s'.node? r = some n ↔ s.node? r = some n)
  receiver : ∀ q, s.Receives t q → s'.components? q = some cs
  others : ∀ r, ¬ s.Receives t r → s'.components? r = s.components? r
  receives : ∀ u < s.nodes.size, ∀ q, s'.Receives u q ↔ s.Receives u q

section Settles

variable {s s₁ s₂ s₁₂ s₂₁ : Store} {a b : Ref} {ps qs : Components}

/-- What two attachments leave: the later one all of its components, the earlier one those that the later one does not
replace. -/
theorem Settles.components_both (hb : b < s.nodes.size) (h₁ : s.Settles a ps s₁) (h₁₂ : s₁.Settles b qs s₁₂) :
    (∀ q, s.Receives b q → s₁₂.components? q = some qs) ∧
    (∀ q, s.Receives a q → ¬ s.Receives b q → s₁₂.components? q = some ps) ∧
    ∀ r, ¬ s.Receives a r → ¬ s.Receives b r → s₁₂.components? r = s.components? r := by
  refine ⟨fun q hq => h₁₂.receiver q ((h₁.receives b hb q).2 hq), fun q hq hnot => ?_, fun r hr hnot => ?_⟩
  · rw [h₁₂.others q fun h => hnot ((h₁.receives b hb q).1 h), h₁.receiver q hq]
  · rw [h₁₂.others r fun h => hnot ((h₁.receives b hb r).1 h), h₁.others r hr]

/-- **Components given later take the place of those given before.** -/
theorem Settles.sameGraph_over (ha : a < s.nodes.size) (h₁ : s.Settles a ps s₁) (h₁₂ : s₁.Settles a qs s₁₂)
    (h₂ : s.Settles a qs s₂) : s₂.SameGraph s₁₂ := by
  have hsize : s₁₂.nodes.size = s₂.nodes.size := by rw [h₁₂.size, h₁.size, h₂.size]
  refine sameGraph_of h₂.closed h₁₂.closed hsize (fun r n hn => ?_) fun r => ?_
  · rw [h₁₂.node r n hn, h₁.node r n hn, h₂.node r n hn]
  · obtain ⟨hqs, -, hother⟩ := h₁.components_both ha h₁₂
    by_cases hr : s.Receives a r
    · rw [hqs r hr, h₂.receiver r hr]
    · rw [hother r hr hr, h₂.others r hr]

/-- **Components given to different tuples may be given in any order.** -/
theorem Settles.sameGraph_comm (ha : a < s.nodes.size) (hb : b < s.nodes.size)
    (hslots : ∀ q, ¬ (s.Receives a q ∧ s.Receives b q)) (h₁ : s.Settles a ps s₁) (h₁₂ : s₁.Settles b qs s₁₂)
    (h₂ : s.Settles b qs s₂) (h₂₁ : s₂.Settles a ps s₂₁) : s₁₂.SameGraph s₂₁ := by
  have hsize : s₂₁.nodes.size = s₁₂.nodes.size := by rw [h₁₂.size, h₁.size, h₂₁.size, h₂.size]
  refine sameGraph_of h₁₂.closed h₂₁.closed hsize (fun r n hn => ?_) fun r => ?_
  · rw [h₁₂.node r n hn, h₁.node r n hn, h₂₁.node r n hn, h₂.node r n hn]
  · obtain ⟨hqs, hps, hother⟩ := h₁.components_both hb h₁₂
    obtain ⟨hps', hqs', hother'⟩ := h₂.components_both ha h₂₁
    by_cases hra : s.Receives a r
    · have hrb : ¬ s.Receives b r := fun h => hslots r ⟨hra, h⟩
      rw [hps' r hra, hps r hra hrb]
    · by_cases hrb : s.Receives b r
      · rw [hqs' r hrb hra, hqs r hrb]
      · rw [hother' r hrb hra, hother r hra hrb]

end Settles

end Store

namespace Builder

open Store

section Attach

variable {s s' : Store} {t q : Ref} {l : ListRef} {ps : Components}

theorem attach_of_receives (hq : s.Receives t q) (hps : s.items? l = some ps) (hne : ps ≠ []) :
    (attach t l s).outcome = .ok () ∧ (attach t l s).store = s.giveTuple q ps := by
  obtain ⟨hslot, m, hm⟩ := hq
  rw [attach_eq_receive hps (slot?_eq_some_iff.2 ⟨hslot, lt_of_node? hm⟩) hm, receive_tuple hne]
  exact ⟨rfl, rfl⟩

theorem attach_of_slot?_none (hps : s.items? l = some ps) (h : s.slot? t = none) :
    attach t l s = ⟨[], [], .error .cyclic, s⟩ := by
  have hitems : items l s = ⟨[], [], .ok ps, s⟩ := by rw [items, found, hps]
  have hslot : found .cyclic (·.slot? t) s = ⟨[], [], .error .cyclic, s⟩ := by rw [found, h]
  rw [attach, bind_of_ok hitems, bind_of_error hslot]
  rfl

/-- **Where no tuple receives them, components change nothing.** -/
theorem attach_of_not_receives (h : ∀ q, ¬ s.Receives t q) : (attach t l s).store = s := by
  obtain hsame | ⟨q, m, cs, hq, hm, -⟩ := attach_store t l s
  · exact hsame
  · exact absurd ⟨hq, m, hm⟩ (h q)

theorem attach_moves (hs : s.Closed) (t : Ref) (l : ListRef) :
    s.Moves (attach t l s).gifts (attach t l s).store :=
  (does_attach not_false hs t l).moves

/-- **What components given to a descriptor leave.** -/
theorem settles_attach (hs : s.Closed) (t : Ref) (hps : s.items? l = some ps) (hne : ps ≠ []) :
    s.Settles t ps (attach t l s).store := by
  have hmoves := attach_moves hs t l
  have hclosed := hmoves.closed hs
  by_cases hex : ∃ q, s.Receives t q
  · obtain ⟨q, hq⟩ := hex
    have hgiven : s.Given (s.giveTuple q ps) q ps := given_giveTuple hs hq.lt
    have hsize := size_nodes_giveTuple s q ps
    rw [(attach_of_receives hq hps hne).2] at hmoves hclosed ⊢
    refine ⟨hclosed, hsize, hgiven.items, hmoves.node?_iff hsize, fun q' hq' => ?_, fun r hr => ?_,
      fun u hu r => hmoves.receives_iff hs hu⟩
    · rw [hq'.eq hq, hgiven.components]
    · refine hgiven.others r ?_
      rintro rfl
      exact hr hq
  · have hnot := not_exists.1 hex
    rw [attach_of_not_receives hnot]
    exact ⟨hs, rfl, fun _ _ => id, fun _ _ _ => .rfl, fun q hq => absurd hq (hnot q), fun _ _ => rfl,
      fun _ _ _ => .rfl⟩

/-- **No change of a store changes what comes of an attachment.** -/
theorem outcome_attach_of_moves {gifts : List Gift} (hm : s.Moves gifts s') (hs : s.Closed) (ht : t < s.nodes.size)
    (hps : s.items? l = some ps) (hps' : s'.items? l = some ps) (hne : ps ≠ []) :
    (attach t l s').outcome = (attach t l s).outcome := by
  have hslot' := hm.slot?_eq hs ht
  cases hslot : s.slot? t with
  | none => rw [attach_of_slot?_none hps hslot, attach_of_slot?_none hps' (hslot'.trans hslot)]
  | some q =>
    obtain ⟨hq, hlt⟩ := slot?_eq_some_iff.1 hslot
    obtain ⟨n, hn⟩ := exists_node? hlt
    obtain ⟨n', hn', hsame⟩ := hm.node? hn
    rw [attach_eq_receive hps hslot hn, attach_eq_receive hps' (hslot'.trans hslot) hn']
    obtain rfl | ⟨⟨k, rfl⟩, k', rfl⟩ := hsame
    -- what stays what it is, is a scalar or a tuple
    · obtain ⟨c, rfl⟩ | ⟨k, rfl⟩ := hq.node hn
      · rw [receive_scalar hne, receive_scalar hne]
      · rw [receive_tuple hne, receive_tuple hne]
    · rw [receive_tuple hne, receive_tuple hne]

end Attach

/-- **Attachments overwrite and commute.**  Components given to a descriptor that was given others leave the graph that
they leave alone.  Components given to two descriptors, of which no tuple is the slot of both, leave the same graph in
either order, each tuple with those that were meant for it, and each attachment succeeds or fails in one order as in the
other. -/
theorem attachments_overwrite_and_commute {s : Store} (hs : s.Closed) {a b : Ref} (ha : a < s.nodes.size)
    (hb : b < s.nodes.size) {l m : ListRef} {ps qs : Components} (hps : s.items? l = some ps)
    (hqs : s.items? m = some qs) (hps_ne : ps ≠ []) (hqs_ne : qs ≠ []) :
    let again := attach a m (attach a l s).store
    let ab := attach b m (attach a l s).store
    let ba := attach a l (attach b m s).store
    (again.outcome = (attach a m s).outcome ∧ (attach a m s).store.SameGraph again.store ∧
      ∀ q, s.Receives a q → again.outcome = .ok () ∧ s.Given (attach a m s).store q qs) ∧
    ((∀ q, ¬ (s.Receives a q ∧ s.Receives b q)) →
      ab.store.SameGraph ba.store ∧ (attach a l s).outcome = ba.outcome ∧ (attach b m s).outcome = ab.outcome ∧
      (∀ q, s.Receives a q → ba.outcome = .ok () ∧ ab.store.components? q = some ps) ∧
      (∀ q, s.Receives b q → ab.outcome = .ok () ∧ ab.store.components? q = some qs) ∧
      ∀ r, ¬ s.Receives a r → ¬ s.Receives b r → ab.store.components? r = s.components? r) := by
  intro again ab ba
  have hl : s.Settles a ps (attach a l s).store := settles_attach hs a hps hps_ne
  have hlm : ∀ t, (attach a l s).store.Settles t qs (attach t m (attach a l s).store).store := fun t =>
    settles_attach hl.closed t (hl.lists _ _ hqs) hqs_ne
  have hm : ∀ t, s.Settles t qs (attach t m s).store := fun t => settles_attach hs t hqs hqs_ne
  have hml := settles_attach (hm b).closed a ((hm b).lists _ _ hps) hps_ne
  have hout : ∀ t < s.nodes.size, (attach t m (attach a l s).store).outcome = (attach t m s).outcome := fun t ht =>
    outcome_attach_of_moves (attach_moves hs a l) hs ht hqs (hl.lists _ _ hqs) hqs_ne
  have hout' : (attach a l (attach b m s).store).outcome = (attach a l s).outcome :=
    outcome_attach_of_moves (attach_moves hs b m) hs ha hps ((hm b).lists _ _ hps) hps_ne
  refine ⟨⟨hout a ha, hl.sameGraph_over ha (hlm a) (hm a), fun q hq => ?_⟩, fun hslots => ?_⟩
  · obtain ⟨hok, hstore⟩ := attach_of_receives hq hqs hqs_ne
    rw [hout a ha, hstore]
    exact ⟨hok, given_giveTuple hs hq.lt⟩
  · obtain ⟨hb_has, ha_has, hother⟩ := hl.components_both hb (hlm b)
    refine ⟨hl.sameGraph_comm ha hb hslots (hlm b) (hm b) hml, hout'.symm, (hout b hb).symm, fun q hq => ?_,
      fun q hq => ?_, hother⟩
    · exact ⟨hout'.trans (attach_of_receives hq hps hps_ne).1, ha_has q hq fun h => hslots q ⟨hq, h⟩⟩
    · exact ⟨(hout b hb).trans (attach_of_receives hq hqs hqs_ne).1, hb_has q hq⟩

/-- The array of maps and the tuple beside it, which is in the components that the array is given. -/
theorem attachments_overwrite_and_commute_shared :
    let again := attach 4 0 (attach 4 3 shared).store
    let ab := attach 2 0 (attach 4 3 shared).store
    let ba := attach 4 3 (attach 2 0 shared).store
    shared.Closed ∧ (attach 4 0 shared).store.SameGraph again.store ∧ again.outcome = .ok () ∧
      (∀ q, ¬ (shared.Receives 4 q ∧ shared.Receives 2 q)) ∧ ab.store.SameGraph ba.store ∧ ba.outcome = .ok () ∧
      ab.outcome = .ok () ∧ ab.store.components? 1 = some [⟨"p", 6⟩, ⟨"q", 2⟩] ∧
      ab.store.components? 2 = some [⟨"a", 0⟩] := by
  intro again ab ba
  have hs : shared.Closed := by decide
  have harray : shared.Receives 4 1 := ⟨(slot?_eq_some_iff.1 rfl).1, 0, rfl⟩
  have htuple : shared.Receives 2 2 := ⟨(slot?_eq_some_iff.1 rfl).1, 1, rfl⟩
  have hslots : ∀ q, ¬ (shared.Receives 4 q ∧ shared.Receives 2 q) := fun q ⟨hq, hq'⟩ =>
    absurd ((harray.eq hq).trans (hq'.eq htuple)) (by decide)
  obtain ⟨⟨-, hover, hagain⟩, hcomm⟩ := attachments_overwrite_and_commute hs (a := 4) (b := 2) (l := 3) (m := 0)
    (by decide) (by decide) rfl rfl (by decide) (by decide)
  obtain ⟨hgraph, -, -, hps, hqs, -⟩ := hcomm hslots
  exact ⟨hs, hover, (hagain 1 harray).1, hslots, hgraph, (hps 1 harray).1, (hqs 2 htuple).1, (hps 1 harray).2,
    (hqs 2 htuple).2⟩

end Builder
end AbiTypes
