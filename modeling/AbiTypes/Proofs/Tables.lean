import AbiTypes.Proofs.Rendering
import Mathlib.Data.List.DropRight
import Mathlib.Data.Nat.Digits.Defs
/-!
# Tables — what the tables of a report show

Empty lines part the blocks of a printed report; a table is the block below its heading, a row of it two cells, and the
second cell starts where it does in all rows.  A cell shows its text, if the column has the room, and else as much of it as
fits before an ellipsis (`Report.shown`).  The two columns share a line of the terminal, so what one of them can show
depends on the longest text of the other.
-/
namespace AbiTypes

/-! ## Reading a printed table -/

namespace Printed

/-- The blocks of lines that empty lines part; behind the last line's end stands one more, which is empty. -/
def blocks (text : String) : List (List (List Char)) := (text.toList.splitOn '\n').splitOn []

/-- **The lines of a table**: those below its heading, or none. -/
def table (heading text : String) : List (List Char) :=
  ((blocks text).find? fun b => b.head? = some heading.toList).elim [] List.tail

/-- A text without the blanks on either side. -/
def trimmed (cs : List Char) : List Char := (cs.dropWhile (· = ' ')).rdropWhile (· = ' ')

/-- The two cells of a line, the second of which starts at the given column. -/
def cells (start : Nat) (line : List Char) : List Char × List Char := (trimmed (line.take start), trimmed (line.drop start))

/-- The rows on the type itself, labels and values. -/
def typeRows (text : String) : List (List Char × List Char) := (table "Type" text).map (cells 21)

/-- The rows on the components; the second column starts where its name does in the first row. -/
def fieldRows (text : String) : List (List Char × List Char) :=
  (table "Fields" text).map (cells (((table "Fields" text).head?.getD []).idxOf 'T'))

/-- **What stands beside a label**, the lines below joined to it that have no label of their own. -/
def valueOf (label : String) (rows : List (List Char × List Char)) : List Char :=
  match rows.dropWhile fun row => row.1 ≠ label.toList with
  | [] => []
  | row :: below => row.2 ++ (below.takeWhile fun next => next.1 = []).flatMap Prod.snd

theorem valueOf_cons {label : String} {value : List Char} {rows : List (List Char × List Char)}
    (h : ∀ next ∈ rows.head?, next.1 ≠ []) : valueOf label ((label.toList, value) :: rows) = value := by
  have hbelow : rows.takeWhile (fun next => next.1 = []) = [] := by
    cases rows with
    | nil => rfl
    | cons next rows => exact List.takeWhile_cons_of_neg (by simpa using h)
  rw [valueOf, List.dropWhile_cons_of_neg (by simp)]
  exact (congrArg (value ++ List.flatMap Prod.snd ·) hbelow).trans (List.append_nil value)

theorem valueOf_cons_of_ne {label other : String} (h : other.toList ≠ label.toList) (value : List Char)
    (rows : List (List Char × List Char)) : valueOf label ((other.toList, value) :: rows) = valueOf label rows := by
  rw [valueOf, List.dropWhile_cons_of_pos (by simpa using h), valueOf]

theorem trimmed_blanks {cs : List Char} (h : ' ' ∉ cs) (m n : Nat) :
    trimmed (List.replicate m ' ' ++ (cs ++ List.replicate n ' ')) = cs := by
  have hblanks : ∀ k, ∀ c ∈ List.replicate k ' ', decide (c = ' ') = true := fun k c hc =>
    decide_eq_true (List.eq_of_mem_replicate hc)
  have hright : (cs ++ List.replicate n ' ').rdropWhile (· = ' ') = cs := by
    rw [List.rdropWhile, List.reverse_append, List.reverse_replicate, List.dropWhile_append_of_pos (hblanks n),
      List.dropWhile_eq_self_iff.2, List.reverse_reverse]
    intro hlen hblank
    exact h (of_decide_eq_true hblank ▸ List.mem_reverse.1 (List.getElem_mem hlen))
  cases cs with
  | nil =>
    rw [trimmed, List.nil_append, List.replicate_append_replicate, List.dropWhile_eq_nil_iff.2 (hblanks _)]
    rfl
  | cons c cs =>
    have hc : c ≠ ' ' := (List.ne_of_not_mem_cons h).symm
    rw [trimmed, List.dropWhile_append_of_pos (hblanks m), List.cons_append, List.dropWhile_cons_of_neg (by simpa using hc),
      ← List.cons_append, hright]

end Printed

namespace Report

/-! ## Cells -/

/-- **What a column of a width shows of a text**: all of it, or as much as fits before an ellipsis. -/
def shown (width : Nat) (s : List Char) : List Char := if s.length ≤ width then s else s.take (width - 1) ++ ['…']

theorem shown_of_le {width : Nat} {s : List Char} (h : s.length ≤ width) : shown width s = s := if_pos h

/-- A cell is what it shows, and blanks. -/
theorem cell_eq (width : Nat) (s : List Char) :
    cell width s = shown width s ++ List.replicate (width - (shown width s).length) ' ' := by
  unfold cell shown
  split
  · rfl
  · rename_i h
    have hfull : width - (s.take (width - 1) ++ ['…']).length = 0 := by
      rw [List.length_append, List.length_take, List.length_singleton]
      omega
    rw [hfull, List.replicate_zero, List.append_nil]

theorem length_cell {width : Nat} (h : 0 < width) (s : List Char) : (cell width s).length = width := by
  unfold cell
  split
  · rw [List.length_append, List.length_replicate]
    omega
  · rw [List.length_append, List.length_take, List.length_singleton]
    omega

theorem mem_shown {width : Nat} {s : List Char} {c : Char} (h : c ∈ shown width s) : c ∈ s ∨ c = '…' := by
  unfold shown at h
  split at h
  · exact .inl h
  · exact (List.mem_append.1 h).imp List.mem_of_mem_take List.mem_singleton.1

theorem notMem_shown {s : List Char} {c : Char} (h : c ∉ s) (hc : c ≠ '…') (width : Nat) : c ∉ shown width s :=
  fun hmem => (mem_shown hmem).elim h hc

theorem notMem_cell {s : List Char} {c : Char} (h : c ∉ s) (hc : c ≠ '…') (hblank : c ≠ ' ') (width : Nat) :
    c ∉ cell width s := by
  rw [cell_eq, List.mem_append, not_or]
  exact ⟨notMem_shown h hc width, fun hmem => hblank (List.eq_of_mem_replicate hmem)⟩

/-- A cell is read as what it shows, whatever blanks stand on either side. -/
theorem trimmed_cell {s : List Char} (h : ' ' ∉ s) (width m n : Nat) :
    Printed.trimmed (List.replicate m ' ' ++ (cell width s ++ List.replicate n ' ')) = shown width s := by
  rw [cell_eq, List.append_assoc, List.replicate_append_replicate]
  exact Printed.trimmed_blanks (notMem_shown h (by decide) width) _ _

/-! ## Columns -/

theorem foldl_max_le_iff {n : Nat} : ∀ {ns : List Nat} {m : Nat}, ns.foldl max m ≤ n ↔ m ≤ n ∧ ∀ k ∈ ns, k ≤ n
  | [], m => by simp
  | k :: ns, m => by
    rw [List.foldl_cons, foldl_max_le_iff, Nat.max_le, List.forall_mem_cons, and_assoc]

theorem longest_le_iff {ss : List (List Char)} {n : Nat} : longest ss ≤ n ↔ ∀ s ∈ ss, s.length ≤ n := by
  rw [longest, foldl_max_le_iff]
  simp

theorem length_le_longest {ss : List (List Char)} {s : List Char} (h : s ∈ ss) : s.length ≤ longest ss :=
  longest_le_iff.1 (Nat.le_refl _) s h

/-- A column that is no wider than its longest text shows no less for it. -/
theorem shown_min_longest {ss : List (List Char)} {s : List Char} (h : s ∈ ss) (width : Nat) :
    shown (min (longest ss) width) s = shown width s := by
  have hs := length_le_longest h
  by_cases hwidth : longest ss ≤ width
  · rw [Nat.min_eq_left hwidth, shown_of_le hs, shown_of_le (hs.trans hwidth)]
  · rw [Nat.min_eq_right (Nat.le_of_not_le hwidth)]

/-! ## Reports whose cells hold no blanks -/

/-- A text without blanks and without a line's end. -/
def IsSolid (cs : List Char) : Prop := ' ' ∉ cs ∧ '\n' ∉ cs

theorem isSolid_of_keepsWithin {cs : List Char} (h : Markdown.KeepsWithin cs) : IsSolid cs :=
  ⟨h.notMem (by decide), h.notMem (by decide)⟩

theorem isSolid_decimal (n : Nat) : IsSolid (Text.decimal n) := isSolid_of_keepsWithin (Markdown.keepsWithin_decimal n)

theorem isSolid_optional : ∀ n : Option Nat, IsSolid (optional n)
  | none => ⟨by decide, by decide⟩
  | some n => isSolid_decimal n

/-- **A report whose texts are solid.** -/
structure IsLegible (r : Report) : Prop where
  signature : IsSolid r.signature.toList
  names : ∀ f ∈ r.fields, IsSolid f.name.toList
  kinds : ∀ f ∈ r.fields, IsSolid f.kind.toList

variable {r : Report}

theorem IsLegible.rows (h : r.IsLegible) : ∀ row ∈ r.rows, IsSolid row.2 := by
  simp only [Report.rows, List.forall_mem_cons]
  exact ⟨h.signature, isSolid_optional _, isSolid_optional _,
    isSolid_of_keepsWithin (Markdown.keepsWithin_decimalInt _), isSolid_decimal _, nofun⟩

theorem IsLegible.fieldRows (h : r.IsLegible) : ∀ row ∈ r.fieldRows, IsSolid row.1 ∧ IsSolid row.2 := by
  refine List.forall_mem_cons.2 ⟨⟨⟨by decide, by decide⟩, by decide, by decide⟩, fun row hrow => ?_⟩
  obtain ⟨f, hf, rfl⟩ := List.mem_map.1 hrow
  exact ⟨h.names f hf, h.kinds f hf⟩

/-! ## The table on the type -/

/-- The labels, which leave the column of the values where it is. -/
def labels : List (List Char) := ["Signature".toList, "Bit length".toList, "Map key bits".toList, "Min ABI version".toList,
  "Depth".toList]

theorem mem_labels : ∀ row ∈ r.rows, row.1 ∈ labels := by
  simp [Report.rows, labels]

theorem valueWidth_pos : 0 < r.valueWidth := by
  have hdepth : (Text.decimal r.depth).length ≤ longest (r.rows.map Prod.snd) :=
    length_le_longest (by simp [Report.rows])
  have hne := List.length_pos_iff.2 (isNumeral_decimal r.depth).1
  exact Nat.lt_min.2 ⟨by omega, by decide⟩

/-- A line of the table: a label with its margins, and a value with the margin behind it. -/
theorem cells_typeLine {label value : List Char} (hlabel : label ∈ labels) (hvalue : ' ' ∉ value) (width : Nat) :
    Printed.cells 21 ("  ".toList ++ cell labelWidth label ++ "    ".toList ++ cell width value ++ "  ".toList) =
      (label, shown width value) := by
  have hleft : ∀ label ∈ labels, ("  ".toList ++ cell labelWidth label ++ "    ".toList).length = 21 ∧
      Printed.trimmed ("  ".toList ++ cell labelWidth label ++ "    ".toList) = label := by decide
  obtain ⟨hlength, htrimmed⟩ := hleft label hlabel
  rw [List.append_assoc, Printed.cells, List.take_left' hlength, List.drop_left' hlength, htrimmed]
  exact congrArg _ (trimmed_cell hvalue width 0 2)

theorem cells_typeTable (h : r.IsLegible) :
    r.typeTable.map (Printed.cells 21) = r.rows.map fun row => (row.1, shown 57 row.2) := by
  rw [typeTable, List.map_map]
  refine List.map_congr_left fun row hrow => ?_
  refine (cells_typeLine (mem_labels row hrow) (h.rows row hrow).1 _).trans ?_
  rw [valueWidth, shown_min_longest (List.mem_map_of_mem hrow)]
  rfl

theorem length_typeTable : ∀ l ∈ r.typeTable, l.length ≤ lineWidth := by
  intro l hl
  obtain ⟨row, -, rfl⟩ := List.mem_map.1 hl
  have hlabel : (cell labelWidth row.1).length = 15 := length_cell (by decide) row.1
  have hwidth : r.valueWidth ≤ 57 := Nat.min_le_right _ _
  simp only [List.length_append, hlabel, length_cell valueWidth_pos]
  change 2 + 15 + 4 + r.valueWidth + 2 ≤ 80
  omega

/-! ## The table on the components -/

theorem four_le_nameWidth : 4 ≤ r.nameWidth :=
  Nat.le_min.2 ⟨length_le_longest (s := "Name".toList) List.mem_cons_self, Nat.le_trans (by decide) (Nat.le_max_left _ _)⟩

theorem four_le_typeWidth : 4 ≤ r.typeWidth :=
  Nat.le_min.2 ⟨length_le_longest (s := "Type".toList) List.mem_cons_self, Nat.le_trans (by decide) (Nat.le_max_left _ _)⟩

/-- **The two columns share a line**: one that is wide leaves less to the other. -/
theorem nameWidth_add_typeWidth_le : r.nameWidth + 2 + r.typeWidth + 2 ≤ lineWidth := by
  simp only [nameWidth, typeWidth, roomBeside, lineWidth]
  omega

theorem length_fieldTable : ∀ l ∈ r.fieldTable, l.length ≤ lineWidth := by
  intro l hl
  obtain ⟨row, -, rfl⟩ := List.mem_map.1 hl
  have hname : 0 < r.nameWidth := Nat.lt_of_lt_of_le (by decide) four_le_nameWidth
  have htype : 0 < r.typeWidth := Nat.lt_of_lt_of_le (by decide) four_le_typeWidth
  simp only [List.length_append, length_cell hname, length_cell htype]
  exact nameWidth_add_typeWidth_le

/-- The second column starts where its name does in the first line. -/
theorem idxOf_header : (r.fieldTable.head?.getD []).idxOf 'T' = r.nameWidth + 2 := by
  have hname : 'T' ∉ cell r.nameWidth "Name".toList ++ "  ".toList := by
    rw [List.mem_append, not_or]
    exact ⟨notMem_cell (by decide) (by decide) (by decide) _, by decide⟩
  have htype : cell r.typeWidth "Type".toList = 'T' :: ("ype".toList ++ List.replicate (r.typeWidth - 4) ' ') :=
    if_pos four_le_typeWidth
  change (cell r.nameWidth "Name".toList ++ "  ".toList ++ cell r.typeWidth "Type".toList ++ "  ".toList).idxOf 'T' = _
  rw [List.append_assoc, List.idxOf_append_of_notMem hname, htype, List.cons_append, List.idxOf_cons_self,
    List.length_append, length_cell (Nat.lt_of_lt_of_le (by decide) four_le_nameWidth)]
  rfl

theorem cells_fieldLine {name type : List Char} (hname : ' ' ∉ name) (htype : ' ' ∉ type) {width : Nat} (hwidth : 0 < width)
    (width' : Nat) : Printed.cells (width + 2) (cell width name ++ "  ".toList ++ cell width' type ++ "  ".toList) =
      (shown width name, shown width' type) := by
  have hlength : (cell width name ++ "  ".toList).length = width + 2 := by
    rw [List.length_append, length_cell hwidth]
    rfl
  rw [List.append_assoc, Printed.cells, List.take_left' hlength, List.drop_left' hlength]
  exact congrArg₂ _ (trimmed_cell hname width 0 2) (trimmed_cell htype width' 0 2)

theorem cells_fieldTable (h : r.IsLegible) : r.fieldTable.map (Printed.cells (r.nameWidth + 2)) =
    r.fieldRows.map fun row => (shown (roomBeside (r.fieldRows.map Prod.snd)) row.1,
      shown (roomBeside (r.fieldRows.map Prod.fst)) row.2) := by
  rw [fieldTable, List.map_map]
  refine List.map_congr_left fun row hrow => ?_
  obtain ⟨hname, htype⟩ := h.fieldRows row hrow
  refine (cells_fieldLine hname.1 htype.1 (Nat.lt_of_lt_of_le (by decide) four_le_nameWidth) _).trans ?_
  rw [nameWidth, typeWidth, shown_min_longest (List.mem_map_of_mem hrow), shown_min_longest (List.mem_map_of_mem hrow)]

/-! ## The blocks of a report -/

/-- A line within a block. -/
def IsLine (l : List Char) : Prop := l ≠ [] ∧ '\n' ∉ l

/-- The tables and the lines on support, headings included. -/
def blocks (r : Report) (version : Int) (unsupported : List String) : List (List (List Char)) :=
  ["Type".toList :: r.typeTable] ++ (if r.fields.isEmpty then [] else ["Fields".toList :: r.fieldTable]) ++
    [supportLines version unsupported]

theorem lines_append_empty (v : Int) (u : List String) : r.lines v u ++ [[]] = (r.blocks v u).flatMap (· ++ [[]]) := by
  rw [lines, blocks]
  split <;> simp

theorem isLine_typeTable (h : r.IsLegible) : ∀ l ∈ r.typeTable, IsLine l := by
  have hlabels : ∀ label ∈ labels, '\n' ∉ label := by decide
  intro l hl
  obtain ⟨row, hrow, rfl⟩ := List.mem_map.1 hl
  refine ⟨List.cons_ne_nil _ _, ?_⟩
  simp only [List.mem_append, not_or]
  exact ⟨⟨⟨⟨by decide, notMem_cell (hlabels _ (mem_labels row hrow)) (by decide) (by decide) _⟩, by decide⟩,
    notMem_cell (h.rows row hrow).2 (by decide) (by decide) _⟩, by decide⟩

theorem isLine_fieldTable (h : r.IsLegible) : ∀ l ∈ r.fieldTable, IsLine l := by
  intro l hl
  obtain ⟨row, hrow, rfl⟩ := List.mem_map.1 hl
  obtain ⟨hname, htype⟩ := h.fieldRows row hrow
  refine ⟨List.append_ne_nil_of_right_ne_nil _ (by decide), ?_⟩
  simp only [List.mem_append, not_or]
  exact ⟨⟨⟨notMem_cell hname.2 (by decide) (by decide) _, by decide⟩,
    notMem_cell htype.2 (by decide) (by decide) _⟩, by decide⟩

theorem isLine_chunksWith {width : Nat} (hw : 0 < width) : ∀ {fuel : Nat} {s : List Char}, '\n' ∉ s →
    ∀ l ∈ chunksWith width fuel s, IsLine l
  | 0, _, _ => nofun
  | _ + 1, [], _ => nofun
  | fuel + 1, c :: s, h => by
    refine List.forall_mem_cons.2 ⟨⟨?_, fun hl => h (List.mem_of_mem_take hl)⟩,
      isLine_chunksWith hw fun hl => h (List.mem_of_mem_drop hl)⟩
    obtain ⟨width, rfl⟩ := Nat.exists_eq_add_one_of_ne_zero hw.ne'
    exact List.cons_ne_nil _ _

theorem isLine_sentence {start word : List Char} (hne : start ≠ []) (hstart : '\n' ∉ start) (hword : '\n' ∉ word) :
    ∀ l ∈ sentence start word, IsLine l := by
  unfold sentence
  split
  · refine List.forall_mem_singleton.2 ⟨List.append_ne_nil_of_left_ne_nil hne _, ?_⟩
    rw [List.mem_append, not_or]
    exact ⟨hstart, hword⟩
  · exact List.forall_mem_cons.2 ⟨⟨hne, hstart⟩, isLine_chunksWith (by decide) hword⟩

theorem isLine_supportLines (v : Int) {u : List String} (hu : ∀ s ∈ u, '\n' ∉ s.toList) :
    ∀ l ∈ supportLines v u, IsLine l := by
  have hversion : '\n' ∉ Text.decimalInt v := (Markdown.keepsWithin_decimalInt v).notMem (by decide)
  unfold supportLines
  split
  · exact isLine_sentence (by decide) (by decide) hversion
  · refine List.forall_mem_append.2 ⟨isLine_sentence (by decide) (by decide) hversion, fun l hl => ?_⟩
    obtain ⟨s, hs, hl⟩ := List.mem_flatMap.1 hl
    refine isLine_chunksWith (by decide) ?_ l hl
    rw [List.mem_append, not_or]
    exact ⟨by decide, hu s hs⟩

theorem head?_sentence (start word : List Char) : ∃ rest, (sentence start word).head? = some (start ++ rest) := by
  unfold sentence
  split
  · exact ⟨word, rfl⟩
  · exact ⟨[], by rw [List.append_nil]; rfl⟩

/-- The lines on support are headed by no table's heading. -/
theorem head?_supportLines (v : Int) (u : List String) : (supportLines v u).head? ≠ some "Fields".toList := by
  unfold supportLines
  split
  · obtain ⟨rest, hrest⟩ := head?_sentence "Supported by ABI version ".toList (Text.decimalInt v)
    rw [hrest]
    nofun
  · obtain ⟨rest, hrest⟩ := head?_sentence "Not supported by ABI version ".toList (Text.decimalInt v)
    rw [List.head?_append, hrest]
    nofun

/-! ## A report read back -/

section Plain

variable (h : r.IsLegible) (v : Int) {u : List String} (hu : ∀ s ∈ u, '\n' ∉ s.toList)
include h hu

theorem isLine_blocks : ∀ b ∈ r.blocks v u, ∀ l ∈ b, IsLine l := by
  have htype : ∀ l ∈ "Type".toList :: r.typeTable, IsLine l :=
    List.forall_mem_cons.2 ⟨⟨by decide, by decide⟩, isLine_typeTable h⟩
  have hfields : ∀ l ∈ "Fields".toList :: r.fieldTable, IsLine l :=
    List.forall_mem_cons.2 ⟨⟨by decide, by decide⟩, isLine_fieldTable h⟩
  rw [blocks]
  simp only [List.forall_mem_append, List.forall_mem_singleton]
  refine ⟨⟨htype, ?_⟩, isLine_supportLines v hu⟩
  split
  · exact nofun
  · exact List.forall_mem_singleton.2 hfields

/-- **A printed report is read back as its blocks.** -/
theorem blocks_plain : Printed.blocks (r.plain v u) = r.blocks v u ++ [[]] := by
  have hlines : ∀ l ∈ r.lines v u, '\n' ∉ l := fun l hl => by
    have hmem : l ∈ (r.blocks v u).flatMap (· ++ [[]]) := lines_append_empty v u ▸ List.mem_append_left _ hl
    obtain ⟨b, hb, hl⟩ := List.mem_flatMap.1 hmem
    rcases List.mem_append.1 hl with hl | hl
    · exact (isLine_blocks h v hu b hb l hl).2
    · rw [List.mem_singleton.1 hl]
      exact List.not_mem_nil
  rw [Printed.blocks, plain, String.toList_ofList, Text.splitOn_flatMap hlines, lines_append_empty, Text.splitOn_flatMap]
  exact fun b hb hempty => (isLine_blocks h v hu b hb [] hempty).1 rfl

theorem table_type : Printed.table "Type" (r.plain v u) = r.typeTable := by
  rw [Printed.table, blocks_plain h v hu]
  rfl

theorem table_fields : Printed.table "Fields" (r.plain v u) = if r.fields.isEmpty then [] else r.fieldTable := by
  rw [Printed.table, blocks_plain h v hu, blocks]
  cases r.fields.isEmpty with
  | false => rfl
  | true =>
    refine congrArg (Option.elim · [] List.tail) (List.find?_eq_none.2 ?_)
    simp only [List.forall_mem_append, List.forall_mem_singleton, decide_eq_true_eq]
    exact ⟨⟨⟨nofun, nofun⟩, head?_supportLines v u⟩, nofun⟩

/-- The rows on the type, as they are read. -/
theorem typeRows_plain : Printed.typeRows (r.plain v u) = r.rows.map fun row => (row.1, shown 57 row.2) := by
  rw [Printed.typeRows, table_type h v hu, cells_typeTable h]

/-- The rows on the components, as they are read. -/
theorem fieldRows_plain :
    Printed.fieldRows (r.plain v u) = if r.fields.isEmpty then [] else r.fieldRows.map fun row =>
      (shown (roomBeside (r.fieldRows.map Prod.snd)) row.1, shown (roomBeside (r.fieldRows.map Prod.fst)) row.2) := by
  rw [Printed.fieldRows, table_fields h v hu]
  split
  · rfl
  · rw [idxOf_header, cells_fieldTable h]

theorem length_tables :
    ∀ l ∈ Printed.table "Type" (r.plain v u) ++ Printed.table "Fields" (r.plain v u), l.length ≤ lineWidth := by
  rw [table_type h v hu, table_fields h v hu]
  refine List.forall_mem_append.2 ⟨length_typeTable, ?_⟩
  split
  · nofun
  · exact length_fieldTable

end Plain

end Report

/-! ## The report on a text -/

namespace Text

/-- The characters that start markup behind a square bracket. -/
def markupStarts : List Char := "abcdefghijklmnopqrstuvwxyz#/@".toList

/-- Of the square brackets of the text, none starts markup. -/
def IsUnmarked (cs : List Char) : Prop := ∀ p c s, cs = p ++ '[' :: c :: s → c ∉ markupStarts

theorem isUnmarked_of_notMem {cs : List Char} (h : '[' ∉ cs) : IsUnmarked cs := fun p c s hs =>
  absurd hs (ne_append_cons_of_notMem h p (c :: s))

theorem BracketsHoldDigits.isUnmarked {cs : List Char} (h : BracketsHoldDigits cs) : IsUnmarked cs := by
  intro p c s hs
  obtain ⟨ds, rest, hds, hrest⟩ := h p _ hs
  cases ds with
  | nil =>
    obtain ⟨rfl, -⟩ := List.cons.inj hrest
    decide
  | cons d ds =>
    obtain ⟨rfl, -⟩ := List.cons.inj hrest
    have hstarts : ∀ c ∈ markupStarts, ¬ c.isDigit = true := forall_of_all (by decide)
    exact fun hc => hstarts c hc (hds c List.mem_cons_self)

end Text

namespace Ty

theorem newline_notMem_unsupportedSignatures (t : Ty) (v : Int) : ∀ s ∈ t.unsupportedSignatures v, '\n' ∉ s.toList := by
  intro s hs
  obtain ⟨u, -, rfl⟩ := List.mem_map.1 hs
  exact (Markdown.keepsWithin_signature u).notMem (by decide)

theorem isUnmarked_signature (t : Ty) : Text.IsUnmarked t.signature.toList := by
  rw [signature, String.toList_ofList]
  exact t.shaped_spelled.bracketsHoldDigits.isUnmarked

/-- The texts of the column of names. -/
def nameColumn (t : Ty) : List (List Char) := "Name".toList :: t.fields.map fun f => f.name.toList

/-- The texts of the column of signatures. -/
def kindColumn (t : Ty) : List (List Char) := "Type".toList :: t.fields.map fun f => f.kind.signature.toList

theorem fieldRows_report (t : Ty) : t.report.fieldRows =
    ("Name".toList, "Type".toList) :: t.fields.map fun f => (f.name.toList, f.kind.signature.toList) := by
  rw [Report.fieldRows, report, List.map_map]
  rfl

theorem names_fieldRows_report (t : Ty) : t.report.fieldRows.map Prod.fst = t.nameColumn := by
  rw [fieldRows_report, List.map_cons, List.map_map]
  rfl

theorem kinds_fieldRows_report (t : Ty) : t.report.fieldRows.map Prod.snd = t.kindColumn := by
  rw [fieldRows_report, List.map_cons, List.map_map]
  rfl

section Read

variable [Reader.Stack] {text : String} {t : Ty} (h : (Ty.read text).outcome = .ok t)
include h

/-- The components of a tuple that was read are named by position. -/
theorem name_of_read : ∀ f ∈ t.fields, ∃ i < t.fields.length, f.name.toList = "value".toList ++ Text.decimal i := by
  obtain ⟨p, -, -, rfl⟩ := Ty.read_eq_ok_iff.1 h
  cases p with
  | tuple ps =>
    rw [Phrase.type, fields]
    intro f hf
    obtain ⟨i, hi, rfl⟩ := List.mem_mapIdx.1 hf
    have hname : (Reader.fieldName i).toList = "value".toList ++ Text.decimal i := String.toList_ofList
    refine ⟨i, by rwa [List.length_mapIdx], ?_⟩
    rw [← hname, Reader.fieldName_eq]
  | _ => nofun

theorem shaped_name : ∀ f ∈ t.fields, Text.Shaped 0 f.name.toList := by
  intro f hf
  obtain ⟨i, -, hname⟩ := name_of_read h f hf
  rw [hname]
  exact Text.shaped_word (List.forall_mem_append.2
    ⟨Text.forall_of_all (by decide), fun c hc => .inr ((isNumeral_decimal i).2 c hc)⟩) 0

theorem isLegible_report : t.report.IsLegible where
  signature := Report.isSolid_of_keepsWithin (Markdown.keepsWithin_signature t)
  names := fun f hf => by
    obtain ⟨g, hg, rfl⟩ := List.mem_map.1 hf
    exact Report.isSolid_of_keepsWithin (Markdown.keepsWithin_of_shaped (shaped_name h g hg))
  kinds := fun f hf => by
    obtain ⟨g, -, rfl⟩ := List.mem_map.1 hf
    exact Report.isSolid_of_keepsWithin (Markdown.keepsWithin_signature g.kind)

/-- The names of up to so many components fit in half of a line. -/
theorem longest_nameColumn_le (hlength : t.fields.length ≤ 10 ^ 33) : Report.longest t.nameColumn ≤ 38 := by
  refine Report.longest_le_iff.2 (List.forall_mem_cons.2 ⟨by decide, fun s hs => ?_⟩)
  obtain ⟨f, hf, rfl⟩ := List.mem_map.1 hs
  obtain ⟨i, hi, hname⟩ := name_of_read h f hf
  have hdigits : (Text.decimal i).length ≤ 33 :=
    Nat.toDigits_length 10 i 33 (by decide) (Nat.lt_of_lt_of_le hi hlength)
  rw [hname, List.length_append]
  exact Nat.add_le_add_left hdigits 5

/-- Nothing in the columns is markup. -/
theorem isUnmarked_columns : ∀ cs ∈ t.nameColumn ++ t.kindColumn, Text.IsUnmarked cs := by
  simp only [List.forall_mem_append, nameColumn, kindColumn, List.forall_mem_cons, List.forall_mem_map]
  exact ⟨⟨Text.isUnmarked_of_notMem (by decide), fun f hf => (shaped_name h f hf).bracketsHoldDigits.isUnmarked⟩,
    Text.isUnmarked_of_notMem (by decide), fun f _ => f.kind.isUnmarked_signature⟩

end Read

end Ty

namespace Command

section Run

variable [Reader.Stack] (place : Surroundings) (program : String) {args : List String} {text : String} {v : Int} {t : Ty}

theorem AsksAbout.output_eq (h : AsksAbout args text v false) (ht : (Ty.read text).outcome = .ok t) :
    (run place program ("info" :: args)).output = t.report.plain v (t.unsupportedSignatures v) := by
  rw [run_eq_runCommand place program rfl, h.runCommand_eq, Outcome.ofProduct,
    outcome_info ht h.length_decimal_le]
  rfl

theorem AsksAbout.typeRows_eq (h : AsksAbout args text v false) (ht : (Ty.read text).outcome = .ok t) :
    Printed.typeRows (run place program ("info" :: args)).output =
      t.report.rows.map fun row => (row.1, Report.shown 57 row.2) := by
  rw [h.output_eq place program ht,
    Report.typeRows_plain (Ty.isLegible_report ht) v (t.newline_notMem_unsupportedSignatures v)]

theorem AsksAbout.fieldRows_eq (h : AsksAbout args text v false) (ht : (Ty.read text).outcome = .ok t) :
    Printed.fieldRows (run place program ("info" :: args)).output =
      if t.fields.isEmpty then [] else ("Name".toList, "Type".toList) :: t.fields.map fun f =>
        (Report.shown (Report.roomBeside t.kindColumn) f.name.toList,
          Report.shown (Report.roomBeside t.nameColumn) f.kind.signature.toList) := by
  have hempty : t.report.fields.isEmpty = t.fields.isEmpty := List.isEmpty_map
  -- there is room for both headings
  have hheading {s : List Char} (hs : s.length ≤ 38) (other : List (List Char)) :
      Report.shown (Report.roomBeside other) s = s := Report.shown_of_le (hs.trans (Nat.le_max_left _ _))
  rw [h.output_eq place program ht,
    Report.fieldRows_plain (Ty.isLegible_report ht) v (t.newline_notMem_unsupportedSignatures v), hempty,
    t.names_fieldRows_report, t.kinds_fieldRows_report, t.fieldRows_report, List.map_cons, List.map_map,
    hheading (s := "Name".toList) (by decide), hheading (s := "Type".toList) (by decide)]
  rfl

/-- **The tables of a report on any text that any stack has room for.**  No line of them is longer than the terminal's.
Beside the label of the signature stands what fifty-seven columns show of it.  The rows on the components are theirs in
order, and show of a name and of a signature what the longest text of the other column leaves room for, or half of the
line where that is more; so up to a number of components that no text comes near, the names are shown whole.  No bracket
of the texts shown starts markup. -/
theorem report_tables (h : AsksAbout args text v false) (ht : (Ty.read text).outcome = .ok t)
    (_ : t.depth ≤ Reader.sureNesting + 1) :
    let out := (run place program ("info" :: args)).output
    let nameRoom := max 38 (76 - Report.longest t.kindColumn)
    let kindRoom := max 38 (76 - Report.longest t.nameColumn)
    (∀ l ∈ Printed.table "Type" out ++ Printed.table "Fields" out, l.length ≤ 80) ∧
    Printed.valueOf "Signature" (Printed.typeRows out) = Report.shown 57 t.signature.toList ∧
    Printed.fieldRows out = (if t.fields.isEmpty then [] else ("Name".toList, "Type".toList) :: t.fields.map fun f =>
      (Report.shown nameRoom f.name.toList, Report.shown kindRoom f.kind.signature.toList)) ∧
    (t.fields.length ≤ 10 ^ 33 → (∀ f ∈ t.fields, Report.shown nameRoom f.name.toList = f.name.toList) ∧
      kindRoom = 76 - Report.longest t.nameColumn) ∧
    ∀ cs ∈ t.signature.toList :: (t.nameColumn ++ t.kindColumn), Text.IsUnmarked cs := by
  intro out nameRoom kindRoom
  refine ⟨?_, ?_, h.fieldRows_eq place program ht, fun hlength => ?_,
    List.forall_mem_cons.2 ⟨t.isUnmarked_signature, Ty.isUnmarked_columns ht⟩⟩
  · have hout : out = t.report.plain v (t.unsupportedSignatures v) := h.output_eq place program ht
    rw [hout]
    exact Report.length_tables (Ty.isLegible_report ht) v (t.newline_notMem_unsupportedSignatures v)
  · rw [h.typeRows_eq place program ht]
    simp only [Report.rows, List.map_cons]
    exact Printed.valueOf_cons (by simp)
  · have hlongest := Ty.longest_nameColumn_le ht hlength
    refine ⟨fun f hf => Report.shown_of_le ?_, Nat.max_eq_right (by omega)⟩
    have hname : f.name.toList ∈ t.nameColumn := List.mem_cons_of_mem _ (List.mem_map_of_mem hf)
    exact (Report.length_le_longest hname).trans (hlongest.trans (Nat.le_max_left _ _))

end Run

/-- A signature of more than fifty-seven characters is cut, but not that of the component it comes from. -/
theorem report_tables_long :
    let text := "(map(address,map(uint256,(bool,bytes,cell,gram,expire,pubkey))),int8)"
    let t : Ty := .tuple [⟨"value0", .map (.scalar (.plain .address)) (.map (.scalar (.sized .uint 256)) (.tuple
      [⟨"value0", .scalar (.plain .bool)⟩, ⟨"value1", .scalar (.plain .bytes)⟩, ⟨"value2", .scalar (.plain .cell)⟩,
        ⟨"value3", .scalar (.plain .gram)⟩, ⟨"value4", .scalar (.plain .expire)⟩, ⟨"value5", .scalar (.plain .pubkey)⟩]))⟩,
      ⟨"value1", .scalar (.sized .int 8)⟩]
    let out := (run emptyDirectory "cli" ["info", text]).output
    AsksAbout [text] text defaultVersion false ∧ (Ty.read text).outcome = .ok t ∧
    (∀ l ∈ Printed.table "Type" out ++ Printed.table "Fields" out, l.length ≤ 80) ∧
    Printed.valueOf "Signature" (Printed.typeRows out) = "(map(address,map(uint256,(bool,bytes,cell,gram,expire,pu…".toList ∧
    Printed.fieldRows out = [("Name".toList, "Type".toList),
      ("value0".toList, "map(address,map(uint256,(bool,bytes,cell,gram,expire,pubkey)))".toList),
      ("value1".toList, "int8".toList)] := by
  intro text t out
  have ht : (Ty.read "(map(address,map(uint256,(bool,bytes,cell,gram,expire,pubkey))),int8)").outcome = .ok t := by rfl
  have hasks := asksAbout_text ht
  obtain ⟨hlines, hsignature, hfields, -, -⟩ := report_tables emptyDirectory "cli" hasks ht (by decide)
  exact ⟨hasks, ht, hlines, hsignature.trans (by decide +kernel), hfields.trans (by decide +kernel)⟩

/-- **A signature too long for its column is not folded**: the lines of its cell do not give it back. -/
theorem report_not_folded :
    ¬ ∀ (text : String) (t : Ty), (Ty.read text).outcome = .ok t →
      Printed.valueOf "Signature" (Printed.typeRows (run emptyDirectory "cli" ["info", text]).output) =
        t.signature.toList := by
  intro h
  have hread : (Ty.read "map(address,map(uint256,(bool,bytes,cell,gram,time,expire)))").outcome =
      .ok (.map (.scalar (.plain .address)) (.map (.scalar (.sized .uint 256)) (.tuple
        [⟨"value0", .scalar (.plain .bool)⟩, ⟨"value1", .scalar (.plain .bytes)⟩, ⟨"value2", .scalar (.plain .cell)⟩,
          ⟨"value3", .scalar (.plain .gram)⟩, ⟨"value4", .scalar (.plain .time)⟩,
          ⟨"value5", .scalar (.plain .expire)⟩]))) := by rfl
  have hfolded := h _ _ hread
  rw [(asksAbout_text hread).typeRows_eq emptyDirectory "cli" hread] at hfolded
  revert hfolded
  decide +kernel

end Command
end AbiTypes
