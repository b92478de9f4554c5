import AbiTypes.Proofs.Footing
/-!
# Planting — trees whose parts are all their own

A tree that is installed takes up a stretch of the store, each of its subtrees a stretch of its own inside, the root last
(`Store.Planted`).  So no two positions of it are one descriptor, even where the tree repeats itself
(`Planted.follow?_inj`), and none is a descriptor that was there before (`Store.Unshared`).
-/
namespace AbiTypes
namespace Store

open Relation

/-! ## Descriptors that stay -/

/-- **A descriptor is the same in another store**, but for the list that it has if it is a tuple. -/
structure SameAt (s s' : Store) (r : Ref) : Prop where
  node : ∀ {n}, ¬ n.IsTuple → s.node? r = some n → s'.node? r = some n
  components : ∀ {cs}, s.components? r = some cs → s'.components? r = some cs

theorem SameAt.refl (s : Store) (r : Ref) : s.SameAt s r := ⟨fun _ => id, id⟩

theorem SameAt.trans {s s' s'' : Store} {r : Ref} (h : s.SameAt s' r) (h' : s'.SameAt s'' r) : s.SameAt s'' r :=
  ⟨fun hn h₁ => h'.node hn (h.node hn h₁), fun hcs => h'.components (h.components hcs)⟩

theorem Extends.sameAt {s s' : Store} (h : s.Extends s') (r : Ref) : s.SameAt s' r where
  node _ := h.node
  components hcs := by
    obtain ⟨l, hl, hcs⟩ := components?_eq_some_iff.1 hcs
    exact components?_eq_some_iff.2 ⟨l, h.node hl, h.items hcs⟩

theorem sameAt_giveTuple {s : Store} (hs : s.Closed) {q r : Ref} (cs : Components) (h : r ≠ q) :
    s.SameAt (s.giveTuple q cs) r :=
  ⟨fun _ hn => (node?_giveTuple_of_ne h).trans hn, fun hcs => (components?_giveTuple_of_ne hs h).trans hcs⟩

theorem viewStep_congr {s s' : Store} (hs : s.Closed) {r : Ref} (hr : r < s.nodes.size) (h : s.SameAt s' r)
    {find find' : Ref → Option Ty} (hfind : ∀ c, s.Part r c → find c = find' c) :
    s.viewStep find r = s'.viewStep find' r := by
  obtain ⟨n, hn⟩ := exists_node? hr
  cases n with
  | scalar c => rw [viewStep_scalar find hn, viewStep_scalar find' (h.node Node.not_isTuple_scalar hn)]
  | array e => rw [viewStep_array find hn, viewStep_array find' (h.node Node.not_isTuple_array hn), hfind e (.elem hn)]
  | fixedArray e m =>
    rw [viewStep_fixedArray find hn, viewStep_fixedArray find' (h.node Node.not_isTuple_fixedArray hn), hfind e (.fixedElem hn)]
  | map k v =>
    rw [viewStep_map find hn, viewStep_map find' (h.node Node.not_isTuple_map hn), hfind k (.key hn), hfind v (.value hn)]
  | tuple l =>
    obtain ⟨cs, hcs⟩ := hs.exists_components? hn
    rw [viewStep_tuple find hcs, viewStep_tuple find' (h.components hcs),
      fieldsWith_congr fun c hc => hfind c.kind (.component hcs hc)]

/-- **What stays the same, with all that it leads to, looks the same.** -/
theorem view?_congr {s s' : Store} (hs : s.Closed) {P : Ref → Prop} (hpart : ∀ {r c}, P r → s.Part r c → P c)
    (hP : ∀ {r}, P r → r < s.nodes.size ∧ s.SameAt s' r) {r : Ref} (hr : P r) : s'.view? r = s.view? r := by
  have hwithin : ∀ (n : Nat) {r : Ref}, P r → within s.viewStep n r = within s'.viewStep n r := by
    intro n
    induction n with
    | zero => exact fun _ => rfl
    | succ n ih =>
      intro r hr
      exact viewStep_congr hs (hP hr).1 (hP hr).2 fun c hc => ih (hpart hr hc)
  refine Option.ext fun t => ?_
  rw [view?, view?, s'.local_viewStep.within_eq_some_iff, s.local_viewStep.within_eq_some_iff]
  exact exists_congr fun n => by rw [hwithin n hr]

/-! ## Trees in stretches -/

mutual

/-- **A tree takes up a stretch of the store**, from the first of its descriptors to its root. -/
inductive Planted (s : Store) : Ref → Ref → Ty → Prop
  | scalar {r : Ref} {c : Scalar} (h : s.node? r = some (.scalar c)) : Planted s r r (.scalar c)
  | tuple {lo r : Ref} {cs : Components} {fs : List (Field Ty)} (h : s.components? r = some cs)
    (hcs : PlantedFields s lo r cs fs) : Planted s lo r (.tuple fs)
  | array {lo e : Ref} {t : Ty} (h : s.node? (e + 1) = some (.array e)) (he : Planted s lo e t) :
    Planted s lo (e + 1) (.array t)
  | fixedArray {lo e : Ref} {n : Nat} {t : Ty} (h : s.node? (e + 1) = some (.fixedArray e n)) (he : Planted s lo e t) :
    Planted s lo (e + 1) (.fixedArray t n)
  | map {lo k v : Ref} {t u : Ty} (h : s.node? (v + 1) = some (.map k v)) (hk : Planted s lo k t)
    (hv : Planted s (k + 1) v u) : Planted s lo (v + 1) (.map t u)

/-- Components take up a stretch of the store, up to `hi`, one after the other. -/
inductive PlantedFields (s : Store) : Ref → Ref → Components → List (Field Ty) → Prop
  | nil {hi : Ref} : PlantedFields s hi hi [] []
  | cons {lo k hi : Ref} {name : String} {t : Ty} {cs : Components} {fs : List (Field Ty)} (hk : Planted s lo k t)
    (hcs : PlantedFields s (k + 1) hi cs fs) : PlantedFields s lo hi (⟨name, k⟩ :: cs) (⟨name, t⟩ :: fs)

end

section Planted

variable {s s' : Store}

mutual

theorem Planted.le : ∀ {lo r : Ref} {t : Ty}, s.Planted lo r t → lo ≤ r
  | _, _, _, .scalar _ => Nat.le_refl _
  | _, _, _, .tuple _ hcs => hcs.le
  | _, _, _, .array _ he | _, _, _, .fixedArray _ he => Nat.le_succ_of_le he.le
  | _, _, _, .map _ hk hv => Nat.le_succ_of_le (hk.le.trans (Nat.le_of_succ_le hv.le))

theorem PlantedFields.le : ∀ {lo hi : Ref} {cs : Components} {fs : List (Field Ty)}, s.PlantedFields lo hi cs fs →
    lo ≤ hi
  | _, _, _, _, .nil => Nat.le_refl _
  | _, _, _, _, .cons hk hcs => hk.le.trans (Nat.le_of_succ_le hcs.le)

end

mutual

/-- **A planted tree looks like itself.** -/
theorem Planted.view? : ∀ {lo r : Ref} {t : Ty}, s.Planted lo r t → s.view? r = some t
  | _, _, _, .scalar h => by rw [view?_eq, viewStep_scalar _ h]
  | _, _, _, .tuple h hcs => view?_tuple h hcs.viewFields?
  | _, _, _, .array h he => by rw [view?_eq, viewStep_array _ h, he.view?, Option.map_some]
  | _, _, _, .fixedArray h he => by rw [view?_eq, viewStep_fixedArray _ h, he.view?, Option.map_some]
  | _, _, _, .map h hk hv => by rw [view?_eq, viewStep_map _ h, hk.view?, hv.view?, Option.bind_some, Option.map_some]

theorem PlantedFields.viewFields? : ∀ {lo hi : Ref} {cs : Components} {fs : List (Field Ty)},
    s.PlantedFields lo hi cs fs → s.viewFields? cs = some fs
  | _, _, _, _, .nil => rfl
  | _, _, _, _, .cons hk hcs => by
    have hrest : fieldsWith s.view? _ = some _ := hcs.viewFields?
    rw [Store.viewFields?, fieldsWith, hk.view?, hrest, Option.bind_some, Option.map_some]

end

mutual

/-- **A tree stays planted** as long as the descriptors of its stretch stay. -/
theorem Planted.stay : ∀ {lo r : Ref} {t : Ty}, s.Planted lo r t → (∀ x, lo ≤ x → x ≤ r → s.SameAt s' x) →
    s'.Planted lo r t
  | _, _, _, .scalar h, hsame => .scalar ((hsame _ (Nat.le_refl _) (Nat.le_refl _)).node Node.not_isTuple_scalar h)
  | _, r, _, .tuple h hcs, hsame =>
    .tuple ((hsame r hcs.le (Nat.le_refl r)).components h) (hcs.stay fun x hlo hx => hsame x hlo hx.le)
  | _, _, _, .array h he, hsame =>
    .array ((hsame _ (Nat.le_succ_of_le he.le) (Nat.le_refl _)).node Node.not_isTuple_array h)
      (he.stay fun x hlo hx => hsame x hlo (Nat.le_succ_of_le hx))
  | _, _, _, .fixedArray h he, hsame =>
    .fixedArray ((hsame _ (Nat.le_succ_of_le he.le) (Nat.le_refl _)).node Node.not_isTuple_fixedArray h)
      (he.stay fun x hlo hx => hsame x hlo (Nat.le_succ_of_le hx))
  | _, _, _, .map h hk hv, hsame =>
    have hkv := Nat.le_of_succ_le hv.le
    .map ((hsame _ (Nat.le_succ_of_le (hk.le.trans hkv)) (Nat.le_refl _)).node Node.not_isTuple_map h)
      (hk.stay fun x hlo hx => hsame x hlo (Nat.le_succ_of_le (hx.trans hkv)))
      (hv.stay fun x hlo hx => hsame x (hk.le.trans (Nat.le_of_succ_le hlo)) (Nat.le_succ_of_le hx))

theorem PlantedFields.stay : ∀ {lo hi : Ref} {cs : Components} {fs : List (Field Ty)}, s.PlantedFields lo hi cs fs →
    (∀ x, lo ≤ x → x < hi → s.SameAt s' x) → s'.PlantedFields lo hi cs fs
  | _, _, _, _, .nil, _ => .nil
  | _, _, _, _, .cons hk hcs, hsame =>
    .cons (hk.stay fun x hlo hx => hsame x hlo (Nat.lt_of_le_of_lt hx hcs.le))
      (hcs.stay fun x hlo hx => hsame x (hk.le.trans (Nat.le_of_succ_le hlo)) hx)

end

theorem Planted.extend {lo r : Ref} {t : Ty} (h : s.Planted lo r t) (he : s.Extends s') : s'.Planted lo r t :=
  h.stay fun x _ _ => he.sameAt x

theorem PlantedFields.kind_lt : ∀ {lo hi : Ref} {cs : Components} {fs : List (Field Ty)}, s.PlantedFields lo hi cs fs →
    ∀ c ∈ cs, lo ≤ c.kind ∧ c.kind < hi
  | _, _, _, _, .nil => fun _ hc => absurd hc List.not_mem_nil
  | _, _, _, _, .cons hk hcs => List.forall_mem_cons.2 ⟨⟨hk.le, hcs.le⟩, fun c hc =>
    ⟨hk.le.trans (Nat.le_of_succ_le (hcs.kind_lt c hc).1), (hcs.kind_lt c hc).2⟩⟩

mutual

/-- **The parts of a planted tree are in its stretch**, each before what it is a part of. -/
theorem Planted.part : ∀ {lo r : Ref} {t : Ty}, s.Planted lo r t → ∀ {x c : Ref}, lo ≤ x → x ≤ r → s.Part x c →
    lo ≤ c ∧ c < x
  | _, _, _, .scalar h, x, c, hlo, hx, hc => by
    obtain rfl := Nat.le_antisymm hx hlo
    exact part_of_leads (P := fun _ => False) h trivial hc |>.elim
  | lo, r, _, .tuple h hcs, x, c, hlo, hx, hc => by
    rcases Nat.lt_or_eq_of_le hx with hx | rfl
    · exact hcs.part hlo hx hc
    · obtain ⟨f, hf, rfl⟩ := part_of_components? h hc
      exact hcs.kind_lt f hf
  | lo, _, _, .array h he, x, c, hlo, hx, hc | lo, _, _, .fixedArray h he, x, c, hlo, hx, hc => by
    rcases Nat.lt_or_eq_of_le hx with hx | rfl
    · exact he.part hlo (Nat.le_of_lt_succ hx) hc
    · exact part_of_leads (P := fun c => lo ≤ c ∧ c < _) h ⟨he.le, Nat.lt_succ_self _⟩ hc
  | lo, _, _, .map (k := k) (v := v) h hk hv, x, c, hlo, hx, hc => by
    have hkv := Nat.le_of_succ_le hv.le
    rcases Nat.lt_or_eq_of_le hx with hx | rfl
    · by_cases hxk : x ≤ k
      · exact hk.part hlo hxk hc
      · obtain ⟨hkc, hcx⟩ := hv.part (Nat.lt_of_not_le hxk) (Nat.le_of_lt_succ hx) hc
        exact ⟨hk.le.trans (Nat.le_of_succ_le hkc), hcx⟩
    · exact part_of_leads (P := fun c => lo ≤ c ∧ c < v + 1) h
        ⟨⟨hk.le, Nat.lt_succ_of_le hkv⟩, hk.le.trans hkv, Nat.lt_succ_self v⟩ hc

theorem PlantedFields.part : ∀ {lo hi : Ref} {cs : Components} {fs : List (Field Ty)}, s.PlantedFields lo hi cs fs →
    ∀ {x c : Ref}, lo ≤ x → x < hi → s.Part x c → lo ≤ c ∧ c < x
  | _, _, _, _, .nil, x, c, hlo, hx, _ => absurd hlo (Nat.not_le_of_lt hx)
  | lo, _, _, _, .cons (k := k) hk hcs, x, c, hlo, hx, hc => by
    by_cases hxk : x ≤ k
    · exact hk.part hlo hxk hc
    · obtain ⟨hkc, hcx⟩ := hcs.part (Nat.lt_of_not_le hxk) hx hc
      exact ⟨hk.le.trans (Nat.le_of_succ_le hkc), hcx⟩

end

/-! ## Positions -/

section Part?

variable {r c : Ref} {turn : Turn}

theorem part?_scalar {a : Scalar} (h : s.node? r = some (.scalar a)) : s.part? r turn = none := by
  cases turn <;> simp [part?, h]

theorem part?_array {e : Ref} (h : s.node? r = some (.array e)) :
    s.part? r turn = some c ↔ turn = .elem ∧ c = e := by
  cases turn <;> simp [part?, h, eq_comm]

theorem part?_fixedArray {e : Ref} {n : Nat} (h : s.node? r = some (.fixedArray e n)) :
    s.part? r turn = some c ↔ turn = .elem ∧ c = e := by
  cases turn <;> simp [part?, h, eq_comm]

theorem part?_map {k v : Ref} (h : s.node? r = some (.map k v)) :
    s.part? r turn = some c ↔ turn = .key ∧ c = k ∨ turn = .value ∧ c = v := by
  cases turn <;> simp [part?, h, eq_comm]

theorem part?_tuple {cs : Components} (h : s.components? r = some cs) :
    s.part? r turn = some c ↔ ∃ i f, turn = .component i ∧ cs[i]? = some f ∧ c = f.kind := by
  obtain ⟨l, hl, hcs⟩ := components?_eq_some_iff.1 h
  cases turn <;> simp [part?, hl, hcs, eq_comm]

end Part?

/-- A way down inside a planted tree stays in its stretch, and goes back to the front. -/
theorem Planted.follow?_le {lo r : Ref} {t : Ty} (h : s.Planted lo r t) : ∀ {path : List Turn} {x q : Ref}, lo ≤ x →
    x ≤ r → s.follow? x path = some q → lo ≤ q ∧ q ≤ x ∧ (path ≠ [] → q < x)
  | [], _, _, hlo, _, hq => by
    cases hq
    exact ⟨hlo, Nat.le_refl _, fun h => absurd rfl h⟩
  | turn :: path, x, q, hlo, hx, hq => by
    obtain ⟨c, hc, hq⟩ := Option.bind_eq_some_iff.1 hq
    obtain ⟨hloc, hcx⟩ := h.part hlo hx (part_of_part? hc)
    obtain ⟨hloq, hqc, -⟩ := h.follow?_le hloc (hcx.le.trans hx) hq
    exact ⟨hloq, hqc.trans hcx.le, fun _ => Nat.lt_of_le_of_lt hqc hcx⟩

theorem Planted.follow?_mem {lo r q : Ref} {t : Ty} (h : s.Planted lo r t) {path : List Turn}
    (hq : s.follow? r path = some q) : lo ≤ q ∧ q ≤ r :=
  have hle := h.follow?_le h.le (Nat.le_refl r) hq
  ⟨hle.1, hle.2.1⟩

theorem PlantedFields.follow?_mem : ∀ {lo hi : Ref} {cs : Components} {fs : List (Field Ty)},
    s.PlantedFields lo hi cs fs → ∀ {i : Nat} {f : Field Ref} {path : List Turn} {q : Ref}, cs[i]? = some f →
    s.follow? f.kind path = some q → lo ≤ q ∧ q < hi
  | _, _, _, _, .nil, _, _, _, _, hf, _ => nomatch hf
  | _, _, _, _, .cons hk hcs, 0, _, _, _, hf, hq => by
    cases hf
    exact (hk.follow?_mem hq).imp_right fun hq => Nat.lt_of_le_of_lt hq hcs.le
  | _, _, _, _, .cons hk hcs, i + 1, _, _, _, hf, hq =>
    (hcs.follow?_mem (i := i) hf hq).imp_left fun hq => hk.le.trans (Nat.le_of_succ_le hq)

/-- Two ways to one place are equal if they are wherever both go on. -/
theorem Planted.follow?_inj_of {lo r : Ref} {t : Ty} (h : s.Planted lo r t)
    (hturns : ∀ {turn turn' : Turn} {path path' : List Turn} {c c' q : Ref}, s.part? r turn = some c →
      s.part? r turn' = some c' → s.follow? c path = some q → s.follow? c' path' = some q →
      turn = turn' ∧ path = path') : ∀ {path path' : List Turn} {q : Ref}, s.follow? r path = some q →
    s.follow? r path' = some q → path = path'
  | [], [], _, _, _ => rfl
  | [], turn :: path', q, hq, hq' => by
    cases hq
    exact absurd ((h.follow?_le h.le (Nat.le_refl r) hq').2.2 (List.cons_ne_nil _ _)) (Nat.lt_irrefl r)
  | turn :: path, [], q, hq, hq' => by
    cases hq'
    exact absurd ((h.follow?_le h.le (Nat.le_refl r) hq).2.2 (List.cons_ne_nil _ _)) (Nat.lt_irrefl r)
  | turn :: path, turn' :: path', q, hq, hq' => by
    obtain ⟨c, hc, hq⟩ := Option.bind_eq_some_iff.1 hq
    obtain ⟨c', hc', hq'⟩ := Option.bind_eq_some_iff.1 hq'
    obtain ⟨rfl, rfl⟩ := hturns hc hc' hq hq'
    rfl

mutual

/-- **No two positions of a planted tree are one descriptor.** -/
theorem Planted.follow?_inj : ∀ {lo r : Ref} {t : Ty}, s.Planted lo r t → ∀ {path path' : List Turn} {q : Ref},
    s.follow? r path = some q → s.follow? r path' = some q → path = path'
  | _, _, _, .scalar h, _, _, _, hq, hq' =>
    (Planted.scalar h).follow?_inj_of (fun hc _ _ _ => by rw [part?_scalar h] at hc; cases hc) hq hq'
  | _, _, _, .tuple h hcs, _, _, _, hq, hq' => by
    refine (Planted.tuple h hcs).follow?_inj_of (fun hc hc' hd hd' => ?_) hq hq'
    obtain ⟨i, f, rfl, hf, rfl⟩ := (part?_tuple h).1 hc
    obtain ⟨j, g, rfl, hg, rfl⟩ := (part?_tuple h).1 hc'
    obtain ⟨rfl, rfl⟩ := hcs.follow?_inj hf hg hd hd'
    exact ⟨rfl, rfl⟩
  | _, _, _, .array h he, _, _, _, hq, hq' => by
    refine (Planted.array h he).follow?_inj_of (fun hc hc' hd hd' => ?_) hq hq'
    obtain ⟨rfl, rfl⟩ := (part?_array h).1 hc
    obtain ⟨rfl, rfl⟩ := (part?_array h).1 hc'
    exact ⟨rfl, he.follow?_inj hd hd'⟩
  | _, _, _, .fixedArray h he, _, _, _, hq, hq' => by
    refine (Planted.fixedArray h he).follow?_inj_of (fun hc hc' hd hd' => ?_) hq hq'
    obtain ⟨rfl, rfl⟩ := (part?_fixedArray h).1 hc
    obtain ⟨rfl, rfl⟩ := (part?_fixedArray h).1 hc'
    exact ⟨rfl, he.follow?_inj hd hd'⟩
  | _, _, _, .map h hk hv, _, _, _, hq, hq' => by
    refine (Planted.map h hk hv).follow?_inj_of (fun hc hc' hd hd' => ?_) hq hq'
    rcases (part?_map h).1 hc with ⟨rfl, rfl⟩ | ⟨rfl, rfl⟩ <;> rcases (part?_map h).1 hc' with ⟨rfl, rfl⟩ | ⟨rfl, rfl⟩
    · exact ⟨rfl, hk.follow?_inj hd hd'⟩
    · exact absurd (hk.follow?_mem hd).2 (Nat.not_le_of_lt (hv.follow?_mem hd').1)
    · exact absurd (hk.follow?_mem hd').2 (Nat.not_le_of_lt (hv.follow?_mem hd).1)
    · exact ⟨rfl, hv.follow?_inj hd hd'⟩

theorem PlantedFields.follow?_inj : ∀ {lo hi : Ref} {cs : Components} {fs : List (Field Ty)},
    s.PlantedFields lo hi cs fs → ∀ {i j : Nat} {f g : Field Ref} {path path' : List Turn} {q : Ref},
    cs[i]? = some f → cs[j]? = some g → s.follow? f.kind path = some q → s.follow? g.kind path' = some q →
    i = j ∧ path = path'
  | _, _, _, _, .nil, _, _, _, _, _, _, _, hf, _, _, _ => nomatch hf
  | _, _, _, _, .cons hk hcs, 0, 0, _, _, _, _, _, hf, hg, hq, hq' => by
    cases hf
    cases hg
    exact ⟨rfl, hk.follow?_inj hq hq'⟩
  | _, _, _, _, .cons hk hcs, 0, j + 1, _, _, _, _, _, hf, hg, hq, hq' => by
    cases hf
    exact absurd (hk.follow?_mem hq).2 (Nat.not_le_of_lt (hcs.follow?_mem (i := j) hg hq').1)
  | _, _, _, _, .cons hk hcs, i + 1, 0, _, _, _, _, _, hf, hg, hq, hq' => by
    cases hg
    exact absurd (hk.follow?_mem hq').2 (Nat.not_le_of_lt (hcs.follow?_mem (i := i) hf hq).1)
  | _, _, _, _, .cons hk hcs, i + 1, j + 1, _, _, _, _, _, hf, hg, hq, hq' => by
    obtain ⟨rfl, rfl⟩ := hcs.follow?_inj (i := i) (j := j) hf hg hq hq'
    exact ⟨rfl, rfl⟩

end

end Planted

/-- **A tree in a store that nothing of the store before shares**: all its positions are new descriptors, no two of them
are one, and nothing that was there leads to any. -/
structure Unshared (s s' : Store) (r : Ref) (t : Ty) : Prop where
  view : s'.view? r = some t
  new : ∀ path q, s'.follow? r path = some q → s.nodes.size ≤ q
  apart : ∀ path path' q, s'.follow? r path = some q → s'.follow? r path' = some q → path = path'
  node : ∀ x < s.nodes.size, ∀ q, ReflTransGen s'.Part x q → q < s.nodes.size
  list : ∀ l cs, s.items? l = some cs → s'.items? l = some cs ∧ ∀ c ∈ cs, c.kind < s.nodes.size

theorem Planted.unshared {s s' : Store} {r : Ref} {t : Ty} (h : s'.Planted s.nodes.size r t) (hs : s.Closed)
    (he : s.Extends s') : s.Unshared s' r t where
  view := h.view?
  new _ _ hq := (h.follow?_mem hq).1
  apart _ _ _ := h.follow?_inj
  node x hx q hq := by
    induction hq with
    | refl => exact hx
    | tail _ hc ih =>
      obtain ⟨n, hn⟩ := exists_node? ih
      exact hs.part (.of_same ((he.node hn).trans hn.symm).symm (he.components?_eq hs ih).symm hc)
  list l cs hcs := ⟨he.items hcs, hs.item hcs⟩

end Store

namespace Builder

open Store

/-! ## Installing -/

/-- A computation succeeds, and what it returns is as said. -/
def Gives {α : Type} (x : Builder α) (s : Store) (post : α → Store → Prop) : Prop :=
  ∃ a, (x s).outcome = .ok a ∧ post a (x s).store

section Gives

variable {α β : Type} {s : Store}

theorem Gives.bind {x : Builder α} {f : α → Builder β} {P : α → Store → Prop} {post : β → Store → Prop}
    (hx : Gives x s P) (hf : ∀ a, P a (x s).store → Gives (f a) (x s).store post) : Gives (x >>= f) s post := by
  obtain ⟨a, ha, hP⟩ := hx
  obtain ⟨b, hb, hpost⟩ := hf a hP
  exact ⟨b, (outcome_bind_of_ok ha).trans hb, (store_bind_of_ok ha).symm ▸ hpost⟩

theorem gives_pure {a : α} {post : α → Store → Prop} (h : post a s) : Gives (pure a) s post := ⟨a, rfl, h⟩

theorem gives_list (s : Store) (cs : Components) :
    Gives (list cs) s fun l s' => s'.items? l = some cs ∧ s' = s.addList cs :=
  ⟨_, rfl, (items?_addList s cs _).trans (if_pos rfl), rfl⟩

theorem gives_items {s : Store} {l : ListRef} {cs : Components} (h : s.items? l = some cs) :
    Gives (items l) s fun ds s' => ds = cs ∧ s' = s := ⟨cs, outcome_found.2 h, rfl, rfl⟩

/-- A new tuple of the components in a new list. -/
theorem gives_tuple (cs : Components) : Gives (list cs >>= tuple) s fun r s' =>
    r = s.nodes.size ∧ s' = (s.addList cs).addTuple cs := by
  have hlist : list cs s = ⟨[], [], .ok s.lists.size, s.addList cs⟩ := rfl
  have hcs : (s.addList cs).items? s.lists.size = some cs := by rw [items?_addList, if_pos rfl]
  have hitems : items s.lists.size (s.addList cs) = ⟨[], [], .ok cs, s.addList cs⟩ := by rw [items, found, hcs]
  rw [Gives, bind_of_ok hlist, tuple, bind_of_ok hitems]
  exact ⟨_, rfl, rfl, rfl⟩

mutual

/-- **Installing plants a tree** at the end of the store. -/
theorem gives_install : ∀ (t : Ty) {s : Store}, s.Closed →
    Gives (install t) s fun r s' => s'.nodes.size = r + 1 ∧ s'.Planted s.nodes.size r t
  | .scalar c, s, _ => by
    rw [install]
    refine ⟨s.nodes.size, rfl, size_nodes_addNode s _, .scalar ?_⟩
    exact (node?_addNode s _ _).trans (if_pos rfl)
  | .tuple fs, s, hs => by
    rw [install]
    refine (gives_installFields fs hs).bind fun cs hcs => ?_
    obtain ⟨r, hr, rfl, hstore⟩ := gives_tuple (s := (installFields fs s).store) cs
    refine ⟨_, hr, ?_⟩
    rw [hstore]
    refine ⟨by simp, .tuple ?_ (hcs.stay fun x _ _ => ?_)⟩
    · refine components?_eq_some_iff.2 ⟨_, (node?_addTuple _ cs _).trans (if_pos rfl), ?_⟩
      exact (items?_addTuple _ cs _).trans (if_pos rfl)
    · exact ((extends_addList _ cs).trans (extends_addTuple _ cs)).sameAt x
  | .array e, s, hs => by
    rw [install]
    refine (gives_install e hs).bind fun r hr => ⟨_, rfl, ?_⟩
    obtain ⟨hsize, hr⟩ := hr
    rw [hsize]
    refine ⟨(size_nodes_addNode _ _).trans (by rw [hsize]), .array ?_ (hr.extend (extends_addNode _ _))⟩
    exact (node?_addNode _ _ _).trans (if_pos hsize.symm)
  | .fixedArray e n, s, hs => by
    rw [install]
    refine (gives_install e hs).bind fun r hr => ⟨_, rfl, ?_⟩
    obtain ⟨hsize, hr⟩ := hr
    rw [hsize]
    refine ⟨(size_nodes_addNode _ _).trans (by rw [hsize]), .fixedArray ?_ (hr.extend (extends_addNode _ _))⟩
    exact (node?_addNode _ _ _).trans (if_pos hsize.symm)
  | .map k v, s, hs => by
    rw [install]
    have hkey := makes_install k hs
    refine (gives_install k hs).bind fun key hk => ?_
    have hvalue := makes_install v (hkey.moves.closed hs)
    refine (gives_install v (hkey.moves.closed hs)).bind fun value hv => ⟨_, rfl, ?_⟩
    obtain ⟨hsize, hk⟩ := hk
    obtain ⟨hsize', hv⟩ := hv
    rw [hsize] at hv
    rw [hsize']
    refine ⟨(size_nodes_addNode _ _).trans (by rw [hsize']), .map ?_ ?_ (hv.extend (extends_addNode _ _))⟩
    · exact (node?_addNode _ _ _).trans (if_pos hsize'.symm)
    · exact hk.extend ((hvalue.keeps (.inl trivial)).trans (extends_addNode _ _))

theorem gives_installFields : ∀ (fs : List (Field Ty)) {s : Store}, s.Closed →
    Gives (installFields fs) s fun cs s' => s'.PlantedFields s.nodes.size s'.nodes.size cs fs
  | [], s, _ => by
    rw [installFields]
    exact gives_pure .nil
  | ⟨n, k⟩ :: fs, s, hs => by
    rw [installFields]
    have hkind := makes_install k hs
    refine (gives_install k hs).bind fun t ht => ?_
    have hrest := makes_installFields fs (hkind.moves.closed hs)
    refine (gives_installFields fs (hkind.moves.closed hs)).bind fun cs hcs => gives_pure ?_
    obtain ⟨hsize, ht⟩ := ht
    rw [hsize] at hcs
    exact .cons (ht.extend (hrest.keeps (.inl trivial))) hcs

end

end Gives

end Builder

end AbiTypes
