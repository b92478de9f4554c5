import AbiTypes.Proofs.Collision
import AbiTypes.Proofs.Parameter
import AbiTypes.Proofs.Shape
import AbiTypes.Proofs.Versions
/-!
# Rendering — what the documentation page tells

A page is its lines (`Markdown.lines_page`), and a table's row its cells, for no name, signature or number holds a line's
end or a cell's mark.  So the page gives back its title, the names and signatures of the parameters, and the version if
there is anything it does not support; everything else on the page follows from these, for a signature tells all that is
asked of a type (`Ty.erased`).
-/
namespace AbiTypes

/-! ## What a signature tells -/

namespace Ty

theorem keyBits?_erased (t : Ty) : t.erased.keyBits? = t.keyBits? := by cases t <;> rfl

theorem since_erased (t : Ty) : t.erased.since = t.since := by cases t <;> rfl

theorem children_erased (t : Ty) : t.erased.children = t.children.map erased := by
  cases t with
  | tuple fs => exact kinds_erasedFields fs
  | _ => rfl

theorem signature_erased (t : Ty) : t.erased.signature = t.signature := signature_eq_iff_phrase.2 t.phrase_erased

theorem unsupportedSignatures_erased (v : Int) (t : Ty) : t.erased.unsupportedSignatures v = t.unsupportedSignatures v := by
  induction t using induct_children with
  | children t ih =>
    rw [unsupportedSignatures_eq, unsupportedSignatures_eq t, isSupported, isSupported, since_erased, signature_erased,
      children_erased, List.flatMap_map]
    exact congrArg _ (List.flatMap_congr ih)

theorem unsupported_eq_nil_iff_signatures {t : Ty} {v : Int} : t.unsupported v = [] ↔ t.unsupportedSignatures v = [] := by
  rw [unsupportedSignatures, List.map_eq_nil_iff]

theorem erased_eq_of_signature {t u : Ty} (h : t.signature = u.signature) : t.erased = u.erased :=
  phrase_eq_iff.1 (signature_eq_iff_phrase.1 h)

end Ty

/-! ## Lines and cells -/

namespace Text

/-- Parts that a mark ends, each by its own, are found by splitting at the mark. -/
theorem splitOn_flatMap {α : Type} [BEq α] [LawfulBEq α] {c : α} {ls : List (List α)} (h : ∀ l ∈ ls, c ∉ l) :
    (ls.flatMap (· ++ [c])).splitOn c = ls ++ [[]] := by
  have hparts : ∀ ls : List (List α), ls.flatMap (· ++ [c]) = [c].intercalate (ls ++ [[]]) := by
    intro ls
    induction ls with
    | nil => rfl
    | cons l ls ih =>
      rw [List.flatMap_cons, ih]
      cases ls with
      | nil => simp [List.intercalate]
      | cons k ls => rw [List.cons_append, List.cons_append, List.cons_append, List.intercalate_cons_cons]
  rw [hparts, List.splitOn_intercalate]
  · intro l hl
    rcases List.mem_append.1 hl with hl | hl
    · exact h l hl
    · rw [List.mem_singleton.1 hl]
      exact List.not_mem_nil
  · exact List.append_ne_nil_of_right_ne_nil ls (List.cons_ne_nil [] [])

end Text

namespace Markdown

/-- The lines of a text; behind the last line's end stands one more, which is empty. -/
def lines (text : String) : List String := (text.toList.splitOn '\n').map String.ofList

/-- The cells of a table's row, without the blank on either side. -/
def cells (line : String) : List String :=
  ((line.toList.splitOn '|').tail.dropLast).map fun c => String.ofList c.tail.dropLast

/-- **The rows of a text's table**: the lines that start with a cell's mark, cell by cell. -/
def table (text : String) : List (List String) :=
  ((lines text).filter fun l => l.toList.head? = some '|').map cells

/-- The lines of a text's list. -/
def listed (text : String) : List String := (lines text).filter fun l => l.toList.head? = some '-'

theorem lines_join {ls : List String} (h : ∀ l ∈ ls, '\n' ∉ l.toList) :
    lines (String.join (ls.map (· ++ "\n"))) = ls ++ [""] := by
  have htext : (String.join (ls.map (· ++ "\n"))).toList = (ls.map String.toList).flatMap (· ++ ['\n']) := by
    simp [String.toList_join, List.flatMap_map]
  rw [lines, htext, Text.splitOn_flatMap (by simpa using h), List.map_append, List.map_map]
  simp [Function.comp_def]

/-- A row of a table. -/
def rowOf (cs : List String) : String := String.join ("|" :: cs.map fun c => " " ++ c ++ " |")

theorem cells_rowOf {cs : List String} (h : ∀ c ∈ cs, '|' ∉ c.toList) : cells (rowOf cs) = cs := by
  have htext : (rowOf cs).toList = ([] :: cs.map fun c => ' ' :: c.toList ++ [' ']).flatMap (· ++ ['|']) := by
    simp [rowOf, String.toList_join, List.flatMap_map]
  rw [cells, htext, Text.splitOn_flatMap, List.cons_append, List.tail_cons, List.dropLast_concat, List.map_map]
  · simp [Function.comp_def]
  · simpa using h

/-! ## The characters of a page -/

/-- The marks that can stand in a cell. -/
def cellMarks : List Char := ['_', '(', ')', '[', ']', ',', '`', '-']

/-- A text that keeps within a cell, and so within a line. -/
def KeepsWithin (cs : List Char) : Prop := ∀ c ∈ cs, c.isAlphanum = true ∨ c ∈ cellMarks

theorem keepsWithin_append {cs ds : List Char} : KeepsWithin (cs ++ ds) ↔ KeepsWithin cs ∧ KeepsWithin ds :=
  List.forall_mem_append

theorem KeepsWithin.notMem {cs : List Char} (h : KeepsWithin cs) {c : Char} (hc : c ∈ ['|', '\n', ' ']) : c ∉ cs := by
  have hmarks : ∀ c ∈ ['|', '\n', ' '], ¬ (c.isAlphanum = true ∨ c ∈ cellMarks) := Text.forall_of_all (by decide)
  exact fun hmem => hmarks c hc (h c hmem)

theorem keepsWithin_of_isDigit {cs : List Char} (h : ∀ c ∈ cs, c.isDigit = true) : KeepsWithin cs := fun c hc =>
  .inl (by simp [Char.isAlphanum, h c hc])

theorem keepsWithin_decimal (n : Nat) : KeepsWithin (Text.decimal n) := keepsWithin_of_isDigit (isNumeral_decimal n).2

theorem keepsWithin_decimalInt : ∀ n : Int, KeepsWithin (Text.decimalInt n)
  | .ofNat n => keepsWithin_decimal n
  | .negSucc n => List.forall_mem_cons.2 ⟨.inr (by decide), keepsWithin_decimal (n + 1)⟩

theorem keepsWithin_identifier {name : List Char} (h : IsIdentifier name) : KeepsWithin name := by
  obtain ⟨c, cs, rfl, hc, hcs⟩ := h
  have hmark : '_' ∈ cellMarks := by decide
  refine List.forall_mem_cons.2 ⟨?_, fun d hd => ?_⟩
  · rcases hc with hc | rfl
    · exact .inl (by simp [Char.isAlphanum, hc])
    · exact .inr hmark
  · rcases hcs d hd with hd | rfl
    · exact .inl hd
    · exact .inr hmark

theorem keepsWithin_of_shaped {n : Nat} {cs : List Char} (h : Text.Shaped n cs) : KeepsWithin cs := fun c hc => by
  have hmarks : ∀ c ∈ ['(', ')', ',', '[', ']'], c ∈ cellMarks := Text.forall_of_all (by decide)
  rcases h.isSignatureChar c hc with hlower | hdigit | hmark
  · have hletter : c.isAlpha = true := Bool.or_eq_true_iff.2 (.inr hlower)
    exact .inl (by simp [Char.isAlphanum, hletter])
  · exact .inl (by simp [Char.isAlphanum, hdigit])
  · exact .inr (hmarks c hmark)

/-- No signature leaves its cell. -/
theorem keepsWithin_spelled (t : Ty) : KeepsWithin t.spelled := keepsWithin_of_shaped t.shaped_spelled

/-! ## The lines of a page -/

/-- The width of a parameter as a key, as the table has it. -/
def keyCell (p : Field Ty) : String := p.kind.keyBits?.elim "-" fun n => String.ofList (Text.decimal n)

/-- What the table has on a parameter. -/
def rowCells (p : Field Ty) : List String :=
  [p.name, "`" ++ p.signature ++ "`", keyCell p, String.ofList (Text.decimalInt p.kind.since)]

/-- The line of the list on a parameter that is not supported. -/
def listLine (version : Int) (p : Field Ty) : String :=
  "- " ++ p.name ++ ": " ++ String.intercalate ", " (p.kind.unsupportedSignatures version)

def unsupportedParams (version : Int) (ps : List (Field Ty)) : List (Field Ty) :=
  ps.filter fun p => p.kind.unsupported version ≠ []

def versionLine (version : Int) : String :=
  "Not supported by ABI version " ++ String.ofList (Text.decimalInt version) ++ ":"

/-- The lines below the table. -/
def listLines (version : Int) (ps : List (Field Ty)) : List String :=
  if unsupportedParams version ps = [] then []
  else versionLine version :: "" :: (unsupportedParams version ps).map (listLine version)

def headLines (title : String) (ps : List (Field Ty)) : List String :=
  ["", "# " ++ title, "", "Signature: `" ++ (Ty.tuple ps).signature ++ "`", ""]

def tableLines (ps : List (Field Ty)) : List String :=
  rowOf ["Name", "Type", "Map key bits", "Min ABI version"] :: rowOf ["---", "---", "---", "---"] ::
    ps.map fun p => rowOf (rowCells p)

/-- The lines of a page. -/
def pageLines (title : String) (version : Int) (ps : List (Field Ty)) : List String :=
  headLines title ps ++ tableLines ps ++ listLines version ps

theorem row_eq (p : Field Ty) : row p = rowOf (rowCells p) ++ "\n" := by
  apply String.toList_injective
  simp [row, rowOf, rowCells, keyCell]

/-- Lines, each with its end. -/
def ended (ls : List String) : String := String.join (ls.map (· ++ "\n"))

theorem toList_ended (ls : List String) : (ended ls).toList = ls.flatMap fun l => l.toList ++ ['\n'] := by
  simp [ended, List.flatMap_map]

theorem ended_cons (l : String) (ls : List String) : ended (l :: ls) = l ++ "\n" ++ ended ls := by
  apply String.toList_injective
  simp [toList_ended]

theorem ended_heading (s : String) (ls : List String) : ended ((s ++ ":") :: "" :: ls) = s ++ ":\n\n" ++ ended ls := by
  apply String.toList_injective
  simp [toList_ended]

theorem ended_append (ls ks : List String) : ended (ls ++ ks) = ended ls ++ ended ks := by
  apply String.toList_injective
  simp [toList_ended]

theorem join_warning (version : Int) (ps : List (Field Ty)) :
    String.join (ps.map (warning version)) = ended ((unsupportedParams version ps).map (listLine version)) := by
  have hwarning (p : Field Ty) : (warning version p).toList =
      if p.kind.unsupported version = [] then [] else (listLine version p).toList ++ ['\n'] := by
    rw [warning]
    split
    · rename_i h
      rw [if_pos (Ty.unsupported_eq_nil_iff_signatures.2 h)]
      rfl
    · rename_i h
      rw [if_neg (mt Ty.unsupported_eq_nil_iff_signatures.1 h)]
      simp [listLine]
  apply String.toList_injective
  rw [toList_ended, String.toList_join, List.flatMap_map, List.flatMap_map]
  induction ps with
  | nil => rfl
  | cons p ps ih =>
    rw [List.flatMap_cons, hwarning, ih, unsupportedParams, unsupportedParams]
    by_cases hp : p.kind.unsupported version = []
    · rw [if_pos hp, List.filter_cons_of_neg (by simpa using hp), List.nil_append]
    · rw [if_neg hp, List.filter_cons_of_pos (by simpa using hp), List.flatMap_cons]

theorem unsupportedParams_eq_nil_iff {version : Int} {ps : List (Field Ty)} :
    unsupportedParams version ps = [] ↔ ∀ p ∈ ps, p.kind.unsupported version = [] := by
  simp [unsupportedParams]

theorem warnings_eq (version : Int) (ps : List (Field Ty)) : warnings version ps = ended (listLines version ps) := by
  have hall : (ps.all fun p => (p.kind.unsupported version).isEmpty) = true ↔ unsupportedParams version ps = [] := by
    rw [unsupportedParams_eq_nil_iff]
    simp
  rw [warnings, listLines]
  by_cases h : unsupportedParams version ps = []
  · rw [if_pos (hall.2 h), if_pos h]
    decide
  · rw [if_neg (mt hall.1 h), if_neg h, join_warning]
    exact (ended_heading _ _).symm

/-- **A page is its lines.** -/
theorem page_eq (title : String) (version : Int) (ps : List (Field Ty)) :
    page title version ps = ended (pageLines title version ps) := by
  have hhead : "\n# " ++ title ++ "\n\nSignature: `" ++ (Ty.tuple ps).signature ++ "`\n\n" = ended (headLines title ps) := by
    apply String.toList_injective
    simp [toList_ended, headLines]
  have htable : "| Name | Type | Map key bits | Min ABI version |\n| --- | --- | --- | --- |\n" ++ String.join (ps.map row) =
      ended (tableLines ps) := by
    have hrows : ps.map row = (ps.map fun p => rowOf (rowCells p)).map (· ++ "\n") := by
      rw [List.map_map]
      exact List.map_congr_left fun p _ => row_eq p
    have htop : "| Name | Type | Map key bits | Min ABI version |\n| --- | --- | --- | --- |\n" =
        rowOf ["Name", "Type", "Map key bits", "Min ABI version"] ++ "\n" ++ (rowOf ["---", "---", "---", "---"] ++ "\n") := by
      decide
    rw [hrows, tableLines, ended_cons, ended_cons, htop]
    simp only [String.append_assoc]
    rfl
  rw [pageLines, ended_append, ended_append, ← hhead, ← htable, ← warnings_eq]
  simp only [page, String.append_assoc]

/-! ## The lines of a page are told apart -/

theorem notMem_intercalate {c : Char} {sep : List Char} (hsep : c ∉ sep) : ∀ {ls : List (List Char)}, (∀ l ∈ ls, c ∉ l) →
    c ∉ sep.intercalate ls
  | [], _ => by simp [List.intercalate]
  | [l], h => by simpa [List.intercalate] using h
  | l :: k :: ls, h => by
    obtain ⟨hl, hls⟩ := List.forall_mem_cons.1 h
    rw [List.intercalate_cons_cons, List.mem_append, List.mem_append]
    rintro ((hc | hc) | hc)
    · exact hl hc
    · exact hsep hc
    · exact notMem_intercalate hsep hls hc

theorem keepsWithin_signature (t : Ty) : KeepsWithin t.signature.toList := by
  rw [Ty.signature, String.toList_ofList]
  exact keepsWithin_spelled t

theorem keepsWithin_rowCells {p : Field Ty} (hp : IsIdentifier p.name.toList) : ∀ c ∈ rowCells p, KeepsWithin c.toList := by
  have hquote : KeepsWithin ['`'] := List.forall_mem_singleton.2 (.inr (by decide))
  have hkey : KeepsWithin (keyCell p).toList := by
    rw [keyCell]
    cases p.kind.keyBits? with
    | none => exact List.forall_mem_singleton.2 (.inr (by decide))
    | some n =>
      rw [Option.elim_some, String.toList_ofList]
      exact keepsWithin_decimal n
  have hsince : KeepsWithin (String.ofList (Text.decimalInt p.kind.since)).toList := by
    rw [String.toList_ofList]
    exact keepsWithin_decimalInt _
  have hsignature : KeepsWithin ("`" ++ p.signature ++ "`").toList := by
    rw [String.toList_append, String.toList_append]
    exact keepsWithin_append.2 ⟨keepsWithin_append.2 ⟨hquote, keepsWithin_signature p.kind⟩, hquote⟩
  simp only [rowCells, List.forall_mem_cons]
  exact ⟨keepsWithin_identifier hp, hsignature, hkey, hsince, nofun⟩

theorem newline_notMem_rowOf {cs : List String} (h : ∀ c ∈ cs, '\n' ∉ c.toList) : '\n' ∉ (rowOf cs).toList := by
  simpa [rowOf, String.toList_join] using h

theorem newline_notMem_listLine {v : Int} {p : Field Ty} (hp : IsIdentifier p.name.toList) :
    '\n' ∉ (listLine v p).toList := by
  have hname : '\n' ∉ p.name.toList := (keepsWithin_identifier hp).notMem (by decide)
  have hsignatures : '\n' ∉ [',', ' '].intercalate ((p.kind.unsupportedSignatures v).map String.toList) := by
    refine notMem_intercalate (by decide) fun l hl => ?_
    obtain ⟨s, hs, rfl⟩ := List.mem_map.1 hl
    obtain ⟨u, -, rfl⟩ := List.mem_map.1 hs
    exact (keepsWithin_signature u).notMem (by decide)
  simp [listLine, hname, hsignatures]

section Page

variable {title : String} {v : Int} {ps : List (Field Ty)}

theorem newline_notMem_headLines (htitle : '\n' ∉ title.toList) : ∀ l ∈ headLines title ps, '\n' ∉ l.toList := by
  have hempty : '\n' ∉ "".toList := by decide
  have hsignature : '\n' ∉ (Ty.tuple ps).signature.toList := (keepsWithin_signature _).notMem (by decide)
  simp only [headLines, List.forall_mem_cons]
  exact ⟨hempty, by simpa using htitle, hempty, by simpa using hsignature, hempty, nofun⟩

theorem newline_notMem_tableLines (hnames : ∀ p ∈ ps, IsIdentifier p.name.toList) :
    ∀ l ∈ tableLines ps, '\n' ∉ l.toList := by
  simp only [tableLines, List.forall_mem_cons, List.forall_mem_map]
  refine ⟨newline_notMem_rowOf (by decide), newline_notMem_rowOf (by decide), fun p hp => ?_⟩
  exact newline_notMem_rowOf fun c hc => (keepsWithin_rowCells (hnames p hp) c hc).notMem (by decide)

theorem newline_notMem_listLines (hnames : ∀ p ∈ ps, IsIdentifier p.name.toList) :
    ∀ l ∈ listLines v ps, '\n' ∉ l.toList := by
  have hversion : '\n' ∉ (versionLine v).toList := by
    have hnumber : '\n' ∉ Text.decimalInt v := (keepsWithin_decimalInt v).notMem (by decide)
    change '\n' ∉ ("Not supported by ABI version " ++ String.ofList (Text.decimalInt v) ++ ":").toList
    simp [hnumber]
  rw [listLines]
  split
  · exact nofun
  · simp only [List.forall_mem_cons, List.forall_mem_map]
    exact ⟨hversion, by decide, fun p hp => newline_notMem_listLine (hnames p (List.mem_filter.1 hp).1)⟩

/-- **The lines of a page** are read off its text. -/
theorem lines_page (htitle : '\n' ∉ title.toList) (hnames : ∀ p ∈ ps, IsIdentifier p.name.toList) :
    lines (page title v ps) = pageLines title v ps ++ [""] := by
  rw [page_eq]
  exact lines_join (List.forall_mem_append.2 ⟨List.forall_mem_append.2 ⟨newline_notMem_headLines htitle,
    newline_notMem_tableLines hnames⟩, newline_notMem_listLines hnames⟩)

/-- The lines of a text that start with a character. -/
def linesFrom (c : Char) (ls : List String) : List String := ls.filter fun l => l.toList.head? = some c

theorem linesFrom_append (c : Char) (ls ks : List String) : linesFrom c (ls ++ ks) = linesFrom c ls ++ linesFrom c ks :=
  List.filter_append ls ks

theorem linesFrom_eq_nil {c : Char} {ls : List String} (h : ∀ l ∈ ls, l.toList.head? ≠ some c) : linesFrom c ls = [] :=
  List.filter_eq_nil_iff.2 fun l hl => by simpa using h l hl

theorem linesFrom_eq_self {c : Char} {ls : List String} (h : ∀ l ∈ ls, l.toList.head? = some c) : linesFrom c ls = ls :=
  List.filter_eq_self.2 fun l hl => by simpa using h l hl

theorem head?_rowOf (cs : List String) : (rowOf cs).toList.head? = some '|' := by simp [rowOf]

theorem head?_listLine (v : Int) (p : Field Ty) : (listLine v p).toList.head? = some '-' := by simp [listLine]

theorem head?_versionLine (v : Int) : (versionLine v).toList.head? = some 'N' := by
  change ("Not supported by ABI version " ++ String.ofList (Text.decimalInt v) ++ ":").toList.head? = some 'N'
  simp

theorem linesFrom_headLines {c : Char} (hc : c ∈ ['|', '-']) : linesFrom c (headLines title ps) = [] := by
  have hstart : ∀ c ∈ ['|', '-'], c ≠ '#' ∧ c ≠ 'S' := Text.forall_of_all (by decide)
  refine linesFrom_eq_nil ?_
  simp only [headLines, List.forall_mem_cons]
  refine ⟨by simp, ?_, by simp, ?_, by simp, nofun⟩
  · simpa using (hstart c hc).1.symm
  · simpa using (hstart c hc).2.symm

theorem head?_tableLines : ∀ l ∈ tableLines ps, l.toList.head? = some '|' := by
  simp only [tableLines, List.forall_mem_cons, List.forall_mem_map]
  exact ⟨head?_rowOf _, head?_rowOf _, fun p _ => head?_rowOf _⟩

theorem linesFrom_bar_listLines : linesFrom '|' (listLines v ps) = [] := by
  refine linesFrom_eq_nil ?_
  rw [listLines]
  split
  · exact nofun
  · simp only [List.forall_mem_cons, List.forall_mem_map, head?_versionLine, head?_listLine]
    exact ⟨by decide, by decide, fun _ _ => by decide⟩

theorem linesFrom_dash_listLines : linesFrom '-' (listLines v ps) = (unsupportedParams v ps).map (listLine v) := by
  rw [listLines]
  split
  · rename_i h
    rw [h]
    rfl
  · rw [linesFrom, List.filter_cons_of_neg (by rw [head?_versionLine]; decide), List.filter_cons_of_neg (by decide)]
    exact linesFrom_eq_self (List.forall_mem_map.2 fun p _ => head?_listLine v p)

/-- The lines of the table. -/
theorem linesFrom_bar_pageLines : linesFrom '|' (pageLines title v ps) = tableLines ps := by
  rw [pageLines, linesFrom_append, linesFrom_append, linesFrom_headLines (by decide), linesFrom_bar_listLines,
    linesFrom_eq_self head?_tableLines, List.nil_append, List.append_nil]

/-- **The table** has its head and a row for each parameter. -/
theorem table_page (htitle : '\n' ∉ title.toList) (hnames : ∀ p ∈ ps, IsIdentifier p.name.toList) :
    table (page title v ps) =
      ["Name", "Type", "Map key bits", "Min ABI version"] :: ["---", "---", "---", "---"] :: ps.map rowCells := by
  have hlines : (lines (page title v ps)).filter (fun l => l.toList.head? = some '|') = tableLines ps := by
    rw [lines_page htitle hnames]
    change linesFrom '|' _ = _
    rw [linesFrom_append, linesFrom_bar_pageLines]
    exact List.append_nil _
  have hrows : (ps.map fun p => rowOf (rowCells p)).map cells = ps.map rowCells := by
    rw [List.map_map]
    refine List.map_congr_left fun p hp => cells_rowOf fun c hc => ?_
    exact (keepsWithin_rowCells (hnames p hp) c hc).notMem (by decide)
  rw [table, hlines, tableLines, List.map_cons, List.map_cons, cells_rowOf (by decide), cells_rowOf (by decide), hrows]

/-- **The list** has a line for each parameter that is not supported. -/
theorem listed_page (htitle : '\n' ∉ title.toList) (hnames : ∀ p ∈ ps, IsIdentifier p.name.toList) :
    listed (page title v ps) = (unsupportedParams v ps).map (listLine v) := by
  have htable : linesFrom '-' (tableLines ps) = [] := linesFrom_eq_nil fun l hl => by
    rw [head?_tableLines l hl]
    decide
  rw [listed, lines_page htitle hnames]
  change linesFrom '-' _ = _
  rw [pageLines, linesFrom_append, linesFrom_append, linesFrom_append, linesFrom_headLines (by decide), htable,
    linesFrom_dash_listLines]
  exact List.append_nil _

end Page

/-! ## Names of components do not matter -/

/-- A parameter without the names of its kind's components. -/
def erasedParam (p : Field Ty) : Field Ty := p.mapKind Ty.erased

/-- A parameter's name and signature. -/
def entry (p : Field Ty) : String × String := (p.name, p.signature)

theorem map_eq_map_of {α β γ : Type} {f : α → β} {g : α → γ} (h : ∀ a b, f a = f b → g a = g b) :
    ∀ {as bs : List α}, as.map f = bs.map f → as.map g = bs.map g
  | [], [], _ => rfl
  | [], _ :: _, he => by cases he
  | _ :: _, [], he => by cases he
  | a :: as, b :: bs, he => by
    obtain ⟨hhead, htail⟩ := List.cons.inj he
    rw [List.map_cons, List.map_cons, h a b hhead, map_eq_map_of h htail]

theorem erasedParam_eq_of_entry (p q : Field Ty) (h : entry p = entry q) : erasedParam p = erasedParam q := by
  obtain ⟨hname, hsignature⟩ := Prod.mk.inj h
  rw [erasedParam, erasedParam, Field.mapKind, Field.mapKind, hname, Ty.erased_eq_of_signature hsignature]

theorem signature_erasedParam (p : Field Ty) : (erasedParam p).signature = p.signature := p.kind.signature_erased

theorem rowCells_erasedParam (p : Field Ty) : rowCells (erasedParam p) = rowCells p := by
  rw [rowCells, rowCells, keyCell, keyCell, signature_erasedParam, erasedParam, Field.kind_mapKind, Ty.keyBits?_erased,
    Ty.since_erased, Field.name_mapKind]

theorem listLine_erasedParam (v : Int) (p : Field Ty) : listLine v (erasedParam p) = listLine v p := by
  rw [listLine, listLine, erasedParam, Field.kind_mapKind, Ty.unsupportedSignatures_erased, Field.name_mapKind]

theorem unsupportedParams_erased (v : Int) (ps : List (Field Ty)) :
    unsupportedParams v (ps.map erasedParam) = (unsupportedParams v ps).map erasedParam := by
  rw [unsupportedParams, unsupportedParams, List.filter_map]
  refine congrArg _ (List.filter_congr fun p _ => ?_)
  have hiff : p.kind.erased.unsupported v = [] ↔ p.kind.unsupported v = [] := by
    rw [Ty.unsupported_eq_nil_iff_signatures, Ty.unsupported_eq_nil_iff_signatures, Ty.unsupportedSignatures_erased]
  exact decide_eq_decide.2 (not_congr hiff)

theorem unsupportedParams_erased_eq_nil {v : Int} {ps : List (Field Ty)} :
    unsupportedParams v (ps.map erasedParam) = [] ↔ unsupportedParams v ps = [] := by
  rw [unsupportedParams_erased, List.map_eq_nil_iff]

theorem signature_tuple_erased (ps : List (Field Ty)) :
    (Ty.tuple (ps.map erasedParam)).signature = (Ty.tuple ps).signature := by
  rw [Ty.signature_eq_iff_phrase, Ty.phrase, Ty.phrase, Ty.fieldPhrases_eq_map, Ty.fieldPhrases_eq_map, List.map_map]
  exact congrArg Phrase.tuple (List.map_congr_left fun p _ => p.kind.phrase_erased)

/-- **A page tells nothing of the names of components.** -/
theorem pageLines_erased (title : String) (v : Int) (ps : List (Field Ty)) :
    pageLines title v (ps.map erasedParam) = pageLines title v ps := by
  have hhead : headLines title (ps.map erasedParam) = headLines title ps := by
    rw [headLines, headLines, signature_tuple_erased]
  have htable : tableLines (ps.map erasedParam) = tableLines ps := by
    rw [tableLines, tableLines, List.map_map]
    exact congrArg (fun rows => _ :: _ :: rows) (List.map_congr_left fun p _ => congrArg rowOf (rowCells_erasedParam p))
  have hlist : listLines v (ps.map erasedParam) = listLines v ps := by
    have hlines : ((unsupportedParams v ps).map erasedParam).map (listLine v) = (unsupportedParams v ps).map (listLine v) := by
      rw [List.map_map]
      exact List.map_congr_left fun p _ => listLine_erasedParam v p
    simp only [listLines, unsupportedParams_erased_eq_nil]
    rw [unsupportedParams_erased, hlines]
  rw [pageLines, pageLines, hhead, htable, hlist]

/-! ## Pages are told apart -/

theorem entry_eq_of_rowCells (p q : Field Ty) (h : rowCells p = rowCells q) : entry p = entry q := by
  obtain ⟨hname, h⟩ := List.cons.inj h
  have hquoted := congrArg String.toList (List.cons.inj h).1
  simp only [String.toList_append] at hquoted
  have hsignature := List.append_cancel_left (List.append_cancel_right hquoted)
  rw [entry, entry, hname, String.toList_injective hsignature]

theorem versionLine_injective {v w : Int} (h : versionLine v = versionLine w) : v = w := by
  have hchars := congrArg String.toList h
  change ("Not supported by ABI version " ++ String.ofList (Text.decimalInt v) ++ ":").toList =
    ("Not supported by ABI version " ++ String.ofList (Text.decimalInt w) ++ ":").toList at hchars
  simp only [String.toList_append, String.toList_ofList, List.append_assoc] at hchars
  have hcolon : NoDigitAhead ":".toList := noDigitAhead_cons.2 rfl
  exact (Text.decimalInt_append_inj hcolon hcolon (List.append_cancel_left hchars)).1

theorem listLines_eq_nil_iff {v : Int} {ps : List (Field Ty)} : listLines v ps = [] ↔ unsupportedParams v ps = [] := by
  rw [listLines]
  split <;> simp_all

/-- The version below a table is the page's. -/
theorem version_eq_of_listLines {v w : Int} {ps qs : List (Field Ty)} (hne : unsupportedParams v ps ≠ [])
    (h : listLines v ps = listLines w qs) : v = w := by
  have hne' : unsupportedParams w qs ≠ [] := by
    rw [ne_eq, ← listLines_eq_nil_iff, ← h, listLines_eq_nil_iff]
    exact hne
  rw [listLines, if_neg hne, listLines, if_neg hne'] at h
  exact versionLine_injective (List.cons.inj h).1

section Pages

variable {s t : String} {v w : Int} {ps qs : List (Field Ty)}

/-- No node of any parameter is unsupported in a version. -/
def AllSupported (v : Int) (ps : List (Field Ty)) : Prop := ∀ p ∈ ps, ∀ u ∈ p.kind.nodes, u.isSupported v = true

theorem unsupportedParams_eq_nil_iff_allSupported : unsupportedParams v ps = [] ↔ AllSupported v ps := by
  rw [unsupportedParams_eq_nil_iff]
  refine forall₂_congr fun p _ => ?_
  rw [Ty.unsupported_eq_nil_iff]
  simp [Ty.isSupported]

theorem allSupported_congr (h : ps.map erasedParam = qs.map erasedParam) : AllSupported v ps ↔ AllSupported v qs := by
  rw [← unsupportedParams_eq_nil_iff_allSupported, ← unsupportedParams_eq_nil_iff_allSupported,
    ← unsupportedParams_erased_eq_nil, h, unsupportedParams_erased_eq_nil]

/-- Pages on the same parameters and of the same title differ if their versions do and one does not support everything. -/
theorem pageLines_eq_iff_version :
    pageLines s v ps = pageLines s w ps ↔ v = w ∨ AllSupported v ps ∧ AllSupported w ps := by
  constructor
  · intro h
    have hlist : listLines v ps = listLines w ps := List.append_cancel_left h
    by_cases hv : unsupportedParams v ps = []
    · have hw : unsupportedParams w ps = [] := by
        rw [← listLines_eq_nil_iff, ← hlist, listLines_eq_nil_iff]
        exact hv
      exact .inr ⟨unsupportedParams_eq_nil_iff_allSupported.1 hv, unsupportedParams_eq_nil_iff_allSupported.1 hw⟩
    · exact .inl (version_eq_of_listLines hv hlist)
  · rintro (rfl | ⟨hv, hw⟩)
    · rfl
    · rw [pageLines, pageLines, listLines_eq_nil_iff.2 (unsupportedParams_eq_nil_iff_allSupported.2 hv),
        listLines_eq_nil_iff.2 (unsupportedParams_eq_nil_iff_allSupported.2 hw)]

/-- **Pages are equal** exactly if they have the same title, parameters of the same names and signatures, and the same
version, unless everything is supported. -/
theorem page_eq_iff (hs : '\n' ∉ s.toList) (ht : '\n' ∉ t.toList) (hps : ∀ p ∈ ps, IsIdentifier p.name.toList)
    (hqs : ∀ q ∈ qs, IsIdentifier q.name.toList) :
    page s v ps = page t w qs ↔
      s = t ∧ ps.map entry = qs.map entry ∧ (v = w ∨ AllSupported v (ps ++ qs) ∧ AllSupported w (ps ++ qs)) := by
  have hboth (he : ps.map erasedParam = qs.map erasedParam) (v : Int) : AllSupported v (ps ++ qs) ↔ AllSupported v ps := by
    rw [AllSupported, List.forall_mem_append]
    exact and_iff_left_of_imp (allSupported_congr he).1
  have hversion (he : ps.map erasedParam = qs.map erasedParam) :
      pageLines s v ps = pageLines s w qs ↔ v = w ∨ AllSupported v (ps ++ qs) ∧ AllSupported w (ps ++ qs) := by
    rw [← pageLines_erased s w qs, ← he, pageLines_erased, pageLines_eq_iff_version, hboth he, hboth he]
  constructor
  · intro h
    have hlines : pageLines s v ps = pageLines t w qs := by
      have hlines := congrArg lines h
      rw [lines_page hs hps, lines_page ht hqs] at hlines
      exact List.append_cancel_right hlines
    have htitles : some ("# " ++ s) = some ("# " ++ t) := congrArg (·[1]?) hlines
    have htitle : s = t := by
      have hchars := congrArg String.toList (Option.some.inj htitles)
      rw [String.toList_append, String.toList_append] at hchars
      exact String.toList_injective (List.append_cancel_left hchars)
    have htables := congrArg table h
    rw [table_page hs hps, table_page ht hqs] at htables
    have hentries := map_eq_map_of entry_eq_of_rowCells (List.cons.inj (List.cons.inj htables).2).2
    subst htitle
    exact ⟨rfl, hentries, (hversion (map_eq_map_of erasedParam_eq_of_entry hentries)).1 hlines⟩
  · rintro ⟨rfl, hentries, hv⟩
    rw [page_eq, page_eq, (hversion (map_eq_map_of erasedParam_eq_of_entry hentries)).2 hv]

end Pages

end Markdown

/-! ## The signature of all parameters -/

theorem Layout.append {cs ds : List Char} {ts us : List Token} (h : Layout cs ts) (h' : Layout ds us) :
    Layout (cs ++ ds) (ts ++ us) := by
  induction h with
  | done hg => exact h'.append_gap hg
  | token hg t _ ih =>
    rw [List.append_assoc, List.cons_append]
    exact .token hg t ih

theorem layout_spell (t : Token) : Layout t.spell [t] := by
  simpa using layout_flatMap_spell [t]

/-- Texts of items with commas between them, and a closing parenthesis, spell the items of a tuple. -/
theorem layout_itemTokens : ∀ {ps : List Phrase} {ss : List (List Char)},
    List.Forall₂ (fun p cs => Layout cs p.tokens) ps ss → Layout ([','].intercalate ss ++ [')']) (Phrase.itemTokens ps)
  | [], [], _ => layout_spell .rparen
  | [p], [cs], .cons h .nil => by
    rw [List.intercalate_singleton, Phrase.itemTokens]
    exact h.append (layout_spell .rparen)
  | p :: q :: ps, cs :: ds :: ss, .cons h hs => by
    rw [List.intercalate_cons_cons, Phrase.itemTokens, List.append_assoc, List.append_assoc]
    exact h.append ((layout_spell .comma).append (layout_itemTokens hs))

theorem spells_tuple {ps : List Phrase} {ss : List (List Char)} (hne : ps ≠ [])
    (h : List.Forall₂ (fun p cs => Spells cs p) ps ss) : Spells ('(' :: ([','].intercalate ss ++ [')'])) (.tuple ps) := by
  have hparts : List.Forall₂ (fun p cs => p.WellFormed ∧ Layout cs p.tokens) ps ss := h.imp fun p cs hs => by
    obtain ⟨ts, hl, hd⟩ := hs
    obtain ⟨rfl, hw⟩ := derives_iff.1 hd
    exact ⟨hw, hl⟩
  obtain ⟨hwell, hlayouts⟩ := (List.forall₂_and_left ps ss).1 hparts
  exact ⟨_, (layout_spell .lparen).append (layout_itemTokens hlayouts), derives_iff.2 ⟨rfl, .tuple hne hwell⟩⟩

namespace Ty

theorem phrase_tuple (fs : List (Field Ty)) : (Ty.tuple fs).phrase = .tuple ((Ty.tuple fs).children.map phrase) := by
  rw [phrase, fieldPhrases_eq_map, children_tuple, List.map_map]
  rfl

/-- The signature of a tuple follows from what its components' texts stand for. -/
theorem signature_tuple_type {ps : List Phrase} {fs : List (Field Ty)} (h : ps.map Phrase.type = fs.map Field.kind) :
    (Phrase.tuple ps).type.signature = (Ty.tuple fs).signature := by
  have hchildren : (Phrase.tuple ps).type.children = (Ty.tuple fs).children :=
    (children_tuple_mapIdx _ _).trans ((Phrase.itemTypes_eq_map ps).trans h)
  rw [signature_eq_iff_phrase, phrase_tuple, ← hchildren]
  exact phrase_tuple _

end Ty

theorem Field.spells_of_read [Reader.Stack] {name text : String} {p : Field Ty} (hn : IsIdentifier name.toList)
    (h : (Field.read (name ++ ":" ++ text)).outcome = .ok p) : ∃ q : Phrase, Spells text.toList q ∧ q.type = p.kind := by
  obtain ⟨q, hread, -, htype⟩ := Field.read_eq_ok_iff.1 h
  have htext : (name ++ ":" ++ text).toList = name.toList ++ ':' :: text.toList := by simp
  rw [htext, Reader.readParam_append hn] at hread
  cases hq : Phrase.read text.toList with
  | error stop =>
    rw [hq] at hread
    cases hread
  | ok q' =>
    rw [hq] at hread
    obtain ⟨-, rfl⟩ := Prod.mk.inj (Except.ok.inj hread)
    exact ⟨q', Phrase.read_eq_ok_iff.1 hq, htype⟩

/-- **The signature of parameters that were read** is the canonical text of their types' texts between parentheses. -/
theorem Ty.signature_tuple_of_read [Reader.Stack] {texts : List (String × String)} {ps : List (Field Ty)} (hne : ps ≠ [])
    (h : List.Forall₂ (fun text p => IsIdentifier text.1.toList ∧
      (Field.read (text.1 ++ ":" ++ text.2)).outcome = .ok p) texts ps) :
    (Ty.tuple ps).signature = canonicalText ("(" ++ String.intercalate "," (texts.map Prod.snd) ++ ")") := by
  obtain ⟨qs, hspells, htypes⟩ : ∃ qs : List Phrase,
      List.Forall₂ (fun q cs => Spells cs q) qs (texts.map fun text => text.2.toList) ∧
      qs.map Phrase.type = ps.map Field.kind := by
    clear hne
    induction h with
    | nil => exact ⟨[], .nil, rfl⟩
    | cons htext _ ih =>
      obtain ⟨q, hq, htype⟩ := Field.spells_of_read htext.1 htext.2
      obtain ⟨qs, hqs, htypes⟩ := ih
      exact ⟨q :: qs, .cons hq hqs, by rw [List.map_cons, List.map_cons, htype, htypes]⟩
  have hqs : qs ≠ [] := by
    rintro rfl
    exact hne (List.map_eq_nil_iff.1 htypes.symm)
  have hchars : ("(" ++ String.intercalate "," (texts.map Prod.snd) ++ ")").toList =
      '(' :: ([','].intercalate (texts.map fun text => text.2.toList) ++ [')']) := by
    simp [Function.comp_def]
  have hs := spells_tuple hqs hspells
  rw [← hchars] at hs
  rw [hs.canonicalText_eq, Ty.signature_tuple_type htypes]

namespace Markdown

end Markdown

end AbiTypes
