import AbiTypes.Proofs.RoundTrip
/-!
# Collision — signatures never collide

The signature of a descriptor determines the descriptor up to the names of components, and nothing else is lost: **two
descriptors have one signature exactly if they are the same tree but for these names**.  The text gives back its tokens,
the tokens their phrase, and the phrase the tree (`signature_eq_iff_phrase`, `phrase_eq_iff`).
-/
namespace AbiTypes.Ty

mutual

/-- A descriptor without the names of components. -/
def erased : Ty → Ty
  | .scalar s => .scalar s
  | .tuple fs => .tuple (erasedFields fs)
  | .array e => .array e.erased
  | .fixedArray e n => .fixedArray e.erased n
  | .map k v => .map k.erased v.erased

def erasedFields : List (Field Ty) → List (Field Ty)
  | [] => []
  | ⟨_, k⟩ :: fs => ⟨"", k.erased⟩ :: erasedFields fs

end

/-- The node at a path of child positions. -/
def at? (t : Ty) : List Nat → Option Ty
  | [] => some t
  | i :: path => t.children[i]?.bind fun c => c.at? path

/-- **The names at a place of a descriptor**, if a tuple stands there. -/
def namesAt (t : Ty) (path : List Nat) : Option (List String) :=
  match t.at? path with
  | some (.tuple fs) => some (fs.map Field.name)
  | _ => none

theorem erasedFields_eq_map : ∀ fs : List (Field Ty),
    erasedFields fs = (fs.map Field.kind).map fun k => ⟨"", k.erased⟩
  | [] => rfl
  | f :: fs => by rw [erasedFields, erasedFields_eq_map fs, List.map_cons, List.map_cons]

theorem kinds_erasedFields (fs : List (Field Ty)) :
    (erasedFields fs).map Field.kind = (fs.map Field.kind).map erased := by
  rw [erasedFields_eq_map, List.map_map]
  rfl

theorem phrase_erased (t : Ty) : t.erased.phrase = t.phrase := by
  induction t with
  | scalar s => rfl
  | tuple fs ih =>
    rw [erased, phrase, phrase, erasedFields_eq_map, fieldPhrases_eq_map, fieldPhrases_eq_map, List.map_map,
      List.map_map]
    exact congrArg Phrase.tuple (List.map_congr_left ih)
  | array e ih => rw [erased, phrase, ih, phrase]
  | fixedArray e n ih => rw [erased, phrase, ih, phrase]
  | map k v ihk ihv => rw [erased, phrase, ihk, ihv, phrase]

theorem erased_positional (t : Ty) : t.positional.erased = t.erased := by
  induction t with
  | scalar s => rfl
  | tuple fs ih =>
    have hk := children_tuple_mapIdx (fun i => "value" ++ toString i) (positionalKinds fs)
    rw [children] at hk
    rw [positional, erased, erased, erasedFields_eq_map, erasedFields_eq_map, hk, positionalKinds_eq_map, List.map_map,
      List.map_map]
    exact congrArg Ty.tuple (List.map_congr_left fun f hf => congrArg (Field.mk "") (ih f hf))
  | array e ih => rw [positional, erased, ih, erased]
  | fixedArray e n ih => rw [positional, erased, ih, erased]
  | map k v ihk ihv => rw [positional, erased, ihk, ihv, erased]

/-- **The written form is the tree without its names.** -/
theorem phrase_eq_iff {a b : Ty} : a.phrase = b.phrase ↔ a.erased = b.erased := by
  constructor
  · intro h
    have hp : a.positional = b.positional := by rw [← type_phrase, h, type_phrase]
    rw [← erased_positional, hp, erased_positional]
  · intro h
    rw [← phrase_erased, h, phrase_erased]

theorem lex_spelled (t : Ty) : (lex t.spelled).1.map Lexeme.token = t.phrase.tokens := by
  have hp : ∀ u ∈ t.phrase.tokens, u.IsProper := Phrase.isProper_of_mem_tokens fun ds hds => by
    obtain ⟨n, -, rfl⟩ := mem_numerals_phrase_iff.1 hds
    exact isNumeral_decimal n
  exact ((layout_flatMap_spell t.phrase.tokens).lex_eq hp t.phrase.isChain_tokens).1

theorem signature_eq_iff_phrase {a b : Ty} : a.signature = b.signature ↔ a.phrase = b.phrase := by
  constructor
  · intro h
    have hs : a.spelled = b.spelled := String.ofList_injective h
    exact Phrase.tokens_injective (by rw [← lex_spelled, hs, lex_spelled])
  · intro h
    rw [signature, spelled, h, signature, spelled]

/-! ## Names -/

theorem namesAt_cons {t c : Ty} {i : Nat} (h : t.children[i]? = some c) (path : List Nat) :
    t.namesAt (i :: path) = c.namesAt path := by
  rw [namesAt, at?, h]
  rfl

theorem eq_of_names_of_kinds : ∀ {fs gs : List (Field Ty)}, fs.map Field.name = gs.map Field.name →
    fs.map Field.kind = gs.map Field.kind → fs = gs
  | [], [], _, _ => rfl
  | [], _ :: _, h, _ => nomatch h
  | _ :: _, [], h, _ => nomatch h
  | ⟨m, k⟩ :: fs, ⟨n, l⟩ :: gs, hn, hk => by
    obtain ⟨rfl, hns⟩ := List.cons.inj hn
    obtain ⟨rfl, hks⟩ := List.cons.inj hk
    rw [eq_of_names_of_kinds hns hks]

theorem kinds_eq_of_erased : ∀ {ts us : List Ty},
    (∀ t ∈ ts, ∀ {u : Ty}, t.erased = u.erased → (∀ path, t.namesAt path = u.namesAt path) → t = u) →
    ts.map erased = us.map erased →
    (∀ (i : Nat) (t u : Ty), ts[i]? = some t → us[i]? = some u → ∀ path, t.namesAt path = u.namesAt path) → ts = us
  | [], [], _, _, _ => rfl
  | [], _ :: _, _, he, _ => nomatch he
  | _ :: _, [], _, he, _ => nomatch he
  | t :: ts, u :: us, h, he, hn => by
    obtain ⟨ht, hts⟩ := List.forall_mem_cons.1 h
    obtain ⟨hu, hus⟩ := List.cons.inj he
    rw [ht hu (hn 0 t u rfl rfl), kinds_eq_of_erased hts hus fun i v w hv hw => hn (i + 1) v w hv hw]

/-- **A descriptor is its tree without names, and the names at every place.** -/
theorem eq_of_erased_of_namesAt {a b : Ty} (he : a.erased = b.erased)
    (hn : ∀ path, a.namesAt path = b.namesAt path) : a = b := by
  have hchild : ∀ {a b : Ty}, (∀ path, a.namesAt path = b.namesAt path) → ∀ (i : Nat) (c d : Ty),
      a.children[i]? = some c → b.children[i]? = some d → ∀ path, c.namesAt path = d.namesAt path := by
    intro a b hn i c d hc hd path
    rw [← namesAt_cons hc, hn, namesAt_cons hd]
  -- the other descriptor has the same constructor, for erasing names keeps it
  induction a generalizing b with
  | scalar s =>
    cases b with
    | scalar r => exact he
    | _ => cases he
  | tuple fs ih =>
    cases b with
    | tuple gs =>
      have hnames : fs.map Field.name = gs.map Field.name := Option.some.inj (hn [])
      have hkinds : fs.map Field.kind = gs.map Field.kind := by
        refine kinds_eq_of_erased (fun k hk => ?_) ?_ (hchild hn)
        · obtain ⟨f, hf, rfl⟩ := List.mem_map.1 hk
          exact ih f hf
        · have hf := congrArg (List.map Field.kind) (Ty.tuple.inj he)
          rwa [kinds_erasedFields, kinds_erasedFields] at hf
      rw [eq_of_names_of_kinds hnames hkinds]
    | _ => cases he
  | array e ih =>
    cases b with
    | array e' => rw [ih (Ty.array.inj he) (hchild hn 0 e e' rfl rfl)]
    | _ => cases he
  | fixedArray e n ih =>
    cases b with
    | fixedArray e' m =>
      obtain ⟨hs, rfl⟩ := Ty.fixedArray.inj he
      rw [ih hs (hchild hn 0 e e' rfl rfl)]
    | _ => cases he
  | map k v ihk ihv =>
    cases b with
    | map k' v' =>
      obtain ⟨hk, hv⟩ := Ty.map.inj he
      rw [ihk hk (hchild hn 0 k k' rfl rfl), ihv hv (hchild hn 1 v v' rfl rfl)]
    | _ => cases he

/-- **Signatures never collide.**  Two descriptors have one signature exactly if they are the same tree but for the names
of components; so they are equal exactly if their signatures are, and the names at every place. -/
theorem signature_eq_iff (a b : Ty) : (a.signature = b.signature ↔ a.erased = b.erased) ∧
    (a = b ↔ a.signature = b.signature ∧ ∀ path, a.namesAt path = b.namesAt path) := by
  have h : a.signature = b.signature ↔ a.erased = b.erased := signature_eq_iff_phrase.trans phrase_eq_iff
  refine ⟨h, ?_⟩
  constructor
  · rintro rfl
    exact ⟨rfl, fun path => rfl⟩
  · rintro ⟨hs, hn⟩
    exact eq_of_erased_of_namesAt (h.1 hs) hn

end AbiTypes.Ty
