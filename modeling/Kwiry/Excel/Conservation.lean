import Kwiry.Docx.Selection
import Kwiry.Excel.Candidate
import Kwiry.Excel.Cells

/-!
# Cells Are Conserved

Every value of a cell becomes one section of its sheet, row by row, under the cell's own name. It is
latent if its sheet, its row or its column is hidden. Formulas and comments are latent sections of
their own.
-/

namespace Kwiry.Excel

open Foundations Docx List Option

/-! ## §1 Comments -/

/-- What a cell becomes with its comment. -/
def withComment (sheetHidden : Bool) (record : Option CellRecord) (comment : Text) : CellRecord :=
  { record.getD ⟨none, none, sheetHidden, none⟩ with comment := nonempty (some comment) }

lemma getElem?_mergeComment (sheetHidden : Bool) (worksheet : WorksheetModel)
    (comment : CellCoordinate × Text) (coordinate : CellCoordinate) :
    (mergeComment sheetHidden worksheet comment).cells[coordinate]? =
      if comment.1 = coordinate then
        some (withComment sheetHidden worksheet.cells[coordinate]? comment.2)
      else worksheet.cells[coordinate]? := by
  simp only [mergeComment, Std.ExtTreeMap.getElem?_insert, Std.LawfulEqCmp.compare_eq_iff_eq]
  split
  next heq =>
    rw [heq]
    rfl
  next => rfl

/-- Comments of distinct cells do not meet. -/
theorem getElem?_foldl_mergeComment {comments : List (CellCoordinate × Text)}
    (hnodup : (comments.map Prod.fst).Nodup) (sheetHidden : Bool) (worksheet : WorksheetModel)
    (coordinate : CellCoordinate) :
    (comments.foldl (mergeComment sheetHidden) worksheet).cells[coordinate]? =
      match comments.lookup coordinate with
      | some comment => some (withComment sheetHidden worksheet.cells[coordinate]? comment)
      | none => worksheet.cells[coordinate]? := by
  induction comments generalizing worksheet with
  | nil => rfl
  | cons comment rest ih =>
    rw [map_cons, nodup_cons] at hnodup
    rw [foldl_cons, ih hnodup.2, getElem?_mergeComment, lookup_cons]
    by_cases hkey : comment.1 = coordinate
    · have hout : rest.lookup coordinate = none := by
        apply lookup_eq_none_iff.mpr
        intro entry hmem
        apply bne_iff_ne.mpr
        intro heq
        exact hnodup.1 (mem_map.mpr ⟨entry, hmem, heq.symm.trans hkey.symm⟩)
      rw [hout, if_pos hkey, hkey, beq_self_eq_true]
    · rw [if_neg hkey, beq_false_of_ne (Ne.symm hkey)]

variable {worksheet : WorksheetModel} {sheetHidden : Bool}
variable {comments : Std.ExtTreeMap CellCoordinate Text CellCoordinate.order}

lemma lookup_toList (coordinate : CellCoordinate) :
    comments.toList.lookup coordinate = comments[coordinate]? := by
  cases hlookup : comments.toList.lookup coordinate with
  | none =>
    symm
    apply Std.ExtTreeMap.getElem?_eq_none
    intro hmem
    obtain ⟨comment, hcomment⟩ := Std.ExtTreeMap.mem_iff_isSome_getElem?.mp hmem |>
      isSome_iff_exists.mp
    have hne := lookup_eq_none_iff.mp hlookup (coordinate, comment)
      (Std.ExtTreeMap.mem_toList_iff_getElem?_eq_some.mpr hcomment)
    simp at hne
  | some comment =>
    obtain ⟨front, back, hsplit, -⟩ := lookup_eq_some_iff.mp hlookup
    symm
    apply Std.ExtTreeMap.mem_toList_iff_getElem?_eq_some.mp
    rw [hsplit]
    simp

/-- Comments change nothing else of a cell, and add no cell that holds something else. -/
theorem mergeComments_spec (coordinate : CellCoordinate) :
    (mergeComments worksheet comments sheetHidden).cells[coordinate]? =
      match comments[coordinate]? with
      | some comment => some (withComment sheetHidden worksheet.cells[coordinate]? comment)
      | none => worksheet.cells[coordinate]? := by
  have hnodup : (comments.toList.map Prod.fst).Nodup := by
    rw [Std.ExtTreeMap.map_fst_toList_eq_keys]
    exact Std.ExtTreeMap.nodup_keys
  rw [mergeComments, getElem?_foldl_mergeComment hnodup, lookup_toList]

section

variable {A B : Type} {cells : Std.ExtTreeMap CellCoordinate B CellCoordinate.order}

/-- A part of sorted entries is sorted. -/
theorem keySorted_filterMap {entries : List (CellCoordinate × B)}
    (h : KeySorted CellCoordinate.order entries) (part : CellCoordinate × B → Option A) :
    KeySorted CellCoordinate.order
      (entries.filterMap fun entry => (part entry).map (entry.1, ·)) := by
  apply h.filterMap
  intro a b hlt a' ha b' hb
  obtain ⟨-, -, rfl⟩ := map_eq_some_iff.mp ha
  obtain ⟨-, -, rfl⟩ := map_eq_some_iff.mp hb
  exact hlt

lemma mem_filterMap_toList {part : CellCoordinate × B → Option A} {found : CellCoordinate × A} :
    found ∈ cells.toList.filterMap (fun entry => (part entry).map (entry.1, ·)) ↔
      (cells[found.1]?).bind (fun value => part (found.1, value)) = some found.2 := by
  rw [mem_filterMap, bind_eq_some_iff]
  constructor
  · intro h
    obtain ⟨entry, hentry, hmap⟩ := h
    obtain ⟨value, hvalue, rfl⟩ := map_eq_some_iff.mp hmap
    exact ⟨entry.2, Std.ExtTreeMap.mem_toList_iff_getElem?_eq_some.mp hentry, hvalue⟩
  · intro h
    obtain ⟨record, hget, hvalue⟩ := h
    refine ⟨(found.1, record), Std.ExtTreeMap.mem_toList_iff_getElem?_eq_some.mpr hget, ?_⟩
    rw [hvalue]
    rfl

end

variable (worksheet sheetHidden comments) in
lemma filterMap_mergeComments {A : Type} (part : CellCoordinate → CellRecord → Option A)
    (hpart : ∀ coordinate record comment,
      part coordinate { record with comment := comment } = part coordinate record)
    (hempty : ∀ coordinate comment, part coordinate ⟨none, none, sheetHidden, comment⟩ = none) :
    (mergeComments worksheet comments sheetHidden).cells.toList.filterMap
        (fun entry => (part entry.1 entry.2).map (entry.1, ·)) =
      worksheet.cells.toList.filterMap (fun entry => (part entry.1 entry.2).map (entry.1, ·)) := by
  apply (keySorted_filterMap (keySorted_toList _) _).ext (keySorted_filterMap (keySorted_toList _) _)
  intro found
  rw [mem_filterMap_toList, mem_filterMap_toList, mergeComments_spec]
  cases hcomment : comments[found.1]? with
  | none => rfl
  | some comment =>
    cases hrecord : worksheet.cells[found.1]? with
    | none => simp [withComment, hempty]
    | some record => simp [withComment, hpart]

/-! ## §2 What cells hold -/

lemma nonempty_eq_some {value : Option Text} {text : Text} (h : nonempty value = some text) :
    value = some text ∧ text ≠ [] := by
  unfold nonempty at h
  rw [filter_eq_some_iff] at h
  exact ⟨h.1, by simpa using h.2⟩

lemma nonempty_of_resolveCellValue {builder : CellBuilder} {sharedStrings : Option (List Text)}
    {text : Text} (h : resolveCellValue builder sharedStrings = .ok (some text)) : text ≠ [] := by
  have hok : ∀ {value : Option Text},
      (Except.ok (nonempty value) : Except DocxError _) = .ok (some text) → text ≠ [] :=
    fun heq => (nonempty_eq_some (Except.ok.inj heq)).2
  unfold resolveCellValue at h
  split at h
  next => exact hok h
  next =>
    split at h
    next => cases h
    next value hvalue =>
      simp only [bind_ok_iff] at h
      obtain ⟨index, -, h⟩ := h
      split at h
      next => cases h
      next =>
        split at h
        next => exact hok h
        next => cases h
  all_goals exact hok h

/-- A recorded cell holds no empty text, and no comment. -/
structure Filled (record : CellRecord) : Prop where
  value : ∀ text, record.value = some text → text ≠ []
  formula : ∀ text, record.formula = some text → text ≠ []
  comment : ∀ text, record.comment = some text → text ≠ []

variable {record : CellRecord} {budget budget' : OutputBudget}
  {entries : List (CellCoordinate × CellRecord)}

lemma filled_of_finishCell {builder : CellBuilder} {sharedStrings : Option (List Text)}
    (h : WorksheetState.finishCell builder sharedStrings = .ok (some record)) :
    Filled record ∧ record.comment = none := by
  simp only [WorksheetState.finishCell, bind_ok_iff] at h
  obtain ⟨-, -, value, hvalue, h⟩ := h
  split at h
  next =>
    simp only [pure, Except.pure, Except.ok.injEq, some.injEq] at h
    subst h
    refine ⟨⟨?_, ?_, ?_⟩, rfl⟩
    · intro text htext
      rw [show value = some text from htext] at hvalue
      exact nonempty_of_resolveCellValue hvalue
    · intro text htext
      exact (nonempty_eq_some htext).2
    · intro text htext
      cases htext
  next => cases h

variable {coordinate : CellCoordinate}

lemma filled_of_worksheetSays {sharedStrings : Option (List Text)} {content : List XmlEvent}
    {records : List (CellCoordinate × Option CellRecord)}
    (h : WorksheetSays sharedStrings content records) (hmem : (coordinate, some record) ∈ records) :
    Filled record ∧ record.comment = none := by
  obtain ⟨cell, -, hread⟩ := (mem_of_mapM_ok h.reads _).mp hmem
  simp only [CellElement.read, readBody, bind_ok_iff, pure, Except.pure, Except.ok.injEq,
    Prod.mk.injEq] at hread
  obtain ⟨_, _, _, _, builder, _, found, hfinish, _, rfl⟩ := hread
  exact filled_of_finishCell hfinish

/-! ## §3 Sections -/

/-- The sections of these texts that are not empty. -/
def kept (pieces : List ExcelSection) : List ExcelSection :=
  pieces.filter fun piece => piece.content ≠ []

lemma push_output {piece : ExcelSection} (h : budget.push piece = .ok budget') :
    budget'.output = budget.output ++ kept [piece] := by
  unfold OutputBudget.push at h
  split at h
  next hempty =>
    cases h
    simp [kept, hempty]
  next hempty =>
    simp only [bind_ok_iff, pure, Except.pure, Except.ok.injEq] at h
    obtain ⟨-, -, -, -, -, -, rfl⟩ := h
    simp [kept, hempty]

lemma foldlM_push_output {pieces : List ExcelSection}
    (h : pieces.foldlM OutputBudget.push budget = .ok budget') :
    budget'.output = budget.output ++ kept pieces := by
  induction pieces generalizing budget with
  | nil =>
    cases h
    simp [kept]
  | cons piece rest ih =>
    obtain ⟨next, hfirst, hrest⟩ := foldlM_cons_ok _ h
    rw [ih hrest, push_output hfirst, append_assoc, kept, kept, kept, ← filter_append]
    rfl

/-- What a loop over items adds, if each item adds its own sections. -/
theorem foldlM_output {A : Type} {step : OutputBudget → A → Except ExcelError OutputBudget}
    {items : List A} (h : items.foldlM step budget = .ok budget')
    {sectionsOf : A → List ExcelSection}
    (hstep : ∀ budget budget' item, step budget item = .ok budget' →
      budget'.output = budget.output ++ kept (sectionsOf item)) :
    budget'.output = budget.output ++ kept (items.flatMap sectionsOf) := by
  induction items generalizing budget with
  | nil =>
    cases h
    simp [kept]
  | cons item rest ih =>
    obtain ⟨next, hfirst, hrest⟩ := foldlM_cons_ok _ h
    rw [ih hrest, hstep _ _ _ hfirst, append_assoc, flatMap_cons, kept, kept, kept,
      ← filter_append]

/-- The sections of a defined name. -/
def definedNameSections (headingPath : List Text) (sheetHidden : Bool) (name : DefinedName) :
    List ExcelSection :=
  [⟨headingPath, name.name, visibleRole (name.hidden || sheetHidden), none⟩,
    ⟨headingPath, name.definition, .latent, none⟩]

lemma emitDefinedName_output {headingPath : List Text} {name : DefinedName}
    (h : emitDefinedName headingPath sheetHidden budget name = .ok budget') :
    budget'.output = budget.output ++ kept (definedNameSections headingPath sheetHidden name) := by
  simp only [emitDefinedName, bind_ok_iff] at h
  obtain ⟨next, hname, hdefinition⟩ := h
  rw [push_output hdefinition, push_output hname, append_assoc, kept, kept, kept,
    ← filter_append]
  rfl

/-- The sections before the cells of a sheet. -/
def preludeSections (sheetIndex : ℕ) (sheet : SheetDescriptor) (names : List DefinedName) :
    List ExcelSection :=
  ⟨[sheet.name], sheet.name, visibleRole sheet.visibility.isHidden, none⟩ ::
    (names.filter fun name => name.localSheet = some sheetIndex).flatMap
      (definedNameSections [sheet.name] sheet.visibility.isHidden)

lemma emitSheetPrelude_output {sheetIndex : ℕ} {sheet : SheetDescriptor}
    {names : List DefinedName} (h : emitSheetPrelude sheetIndex sheet names budget = .ok budget') :
    budget'.output = budget.output ++ kept (preludeSections sheetIndex sheet names) := by
  simp only [emitSheetPrelude, bind_ok_iff] at h
  obtain ⟨next, hname, hnames⟩ := h
  rw [foldlM_output hnames fun _ _ _ hone => emitDefinedName_output hone, push_output hname,
    append_assoc, kept, kept, kept, ← filter_append]
  rfl

/-! ## §4 The sections of cells -/

inductive PieceKind where
  | value | formula | comment
  deriving DecidableEq

/-- A section of a cell, with what it is and where it stands. -/
structure CellPiece where
  kind : PieceKind
  coordinate : CellCoordinate
  piece : ExcelSection

def pieceOf (sheet : SheetDescriptor) (coordinate : CellCoordinate) (kind : PieceKind)
    (role : ContentRole) (content : Text) : CellPiece :=
  ⟨kind, coordinate, [sheet.name], content, role, some ⟨sheet.name, coordinate.a1⟩⟩

/-- The sections of a cell, in their order. -/
def cellPieces (sheet : SheetDescriptor) (entry : CellCoordinate × CellRecord) : List CellPiece :=
  (entry.2.value.map (pieceOf sheet entry.1 .value
      (visibleRole (sheet.visibility.isHidden || entry.2.hidden)))).toList ++
    (entry.2.formula.map (pieceOf sheet entry.1 .formula .latent)).toList ++
    (entry.2.comment.map (pieceOf sheet entry.1 .comment .latent)).toList

lemma cellSections_eq (sheet : SheetDescriptor) (entry : CellCoordinate × CellRecord) :
    cellSections sheet entry.1 entry.2 = (cellPieces sheet entry).map CellPiece.piece := by
  obtain ⟨coordinate, value, formula, hidden, comment⟩ := entry
  cases value <;> cases formula <;> cases comment <;> rfl

/-- What each section of a cell says of itself. -/
theorem mem_cellPieces {sheet : SheetDescriptor} {entry : CellCoordinate × CellRecord}
    {piece : CellPiece} (h : piece ∈ cellPieces sheet entry) :
    ∃ kind role text, piece = pieceOf sheet entry.1 kind role text ∧
      (entry.2.value = some text ∨ entry.2.formula = some text ∨ entry.2.comment = some text) := by
  rw [cellPieces, mem_append, mem_append] at h
  rcases h with (hvalue | hformula) | hcomment
  · obtain ⟨text, htext, rfl⟩ := map_eq_some_iff.mp (mem_toList.mp hvalue)
    exact ⟨_, _, text, rfl, .inl htext⟩
  · obtain ⟨text, htext, rfl⟩ := map_eq_some_iff.mp (mem_toList.mp hformula)
    exact ⟨_, _, text, rfl, .inr (.inl htext)⟩
  · obtain ⟨text, htext, rfl⟩ := map_eq_some_iff.mp (mem_toList.mp hcomment)
    exact ⟨_, _, text, rfl, .inr (.inr htext)⟩

/-- The pieces of one kind. -/
def ofKind (kind : PieceKind) (pieces : List CellPiece) : List CellPiece :=
  pieces.filter fun piece => piece.kind = kind

lemma ofKind_cellPieces (sheet : SheetDescriptor) (entry : CellCoordinate × CellRecord) :
    ofKind .value (cellPieces sheet entry) = (entry.2.value.map (pieceOf sheet entry.1 .value
      (visibleRole (sheet.visibility.isHidden || entry.2.hidden)))).toList ∧
    ofKind .formula (cellPieces sheet entry) =
      (entry.2.formula.map (pieceOf sheet entry.1 .formula .latent)).toList ∧
    ofKind .comment (cellPieces sheet entry) =
      (entry.2.comment.map (pieceOf sheet entry.1 .comment .latent)).toList := by
  obtain ⟨coordinate, value, formula, hidden, comment⟩ := entry
  cases value <;> cases formula <;> cases comment <;> exact ⟨rfl, rfl, rfl⟩

lemma ofKind_flatMap {kind : PieceKind} {pieces : CellCoordinate × CellRecord → List CellPiece}
    {one : CellCoordinate × CellRecord → Option CellPiece}
    (h : ∀ entry, ofKind kind (pieces entry) = (one entry).toList) :
    ofKind kind (entries.flatMap pieces) = entries.filterMap one := by
  rw [ofKind, filter_flatMap, filterMap_eq_flatMap_toList]
  congr 1
  funext entry
  exact h entry

/-- The section a cell's value has to give. -/
def expectedValue (sheet : SheetDescriptor) (ranges : List (ℕ × ℕ))
    (record : CellCoordinate × Option CellRecord) : Option CellPiece :=
  record.2.bind fun cell => cell.value.map (pieceOf sheet record.1 .value
    (visibleRole (sheet.visibility.isHidden || (cell.hidden || inRanges ranges record.1.column))))

/-- The section a cell's formula has to give. -/
def expectedFormula (sheet : SheetDescriptor) (record : CellCoordinate × Option CellRecord) :
    Option CellPiece :=
  record.2.bind fun cell => cell.formula.map (pieceOf sheet record.1 .formula .latent)

/-- The section a comment has to give. -/
def expectedComment (sheet : SheetDescriptor) (comment : CellCoordinate × Text) :
    Option CellPiece :=
  (nonempty (some comment.2)).map (pieceOf sheet comment.1 .comment .latent)

/-- The cells of a sheet are conserved: its sections are those of its cells row by row, and every
value, every formula and every comment gives one of them. -/
structure SheetConserved (sharedStrings : Option (List Text)) (content : List XmlEvent)
    (comments : Std.ExtTreeMap CellCoordinate Text CellCoordinate.order) (sheet : SheetDescriptor)
    (records : List (CellCoordinate × Option CellRecord)) (pieces : List CellPiece) : Prop where
  reads : WorksheetSays sharedStrings content records
  distinct : (records.map fun record => record.1.a1).Nodup
  rowMajor : pieces.Pairwise fun a b => CellCoordinate.order b.coordinate a.coordinate ≠ .lt
  values : ofKind .value pieces = records.filterMap (expectedValue sheet (hiddenRanges content))
  formulas : ofKind .formula pieces = records.filterMap (expectedFormula sheet)
  comments : ofKind .comment pieces = comments.toList.filterMap (expectedComment sheet)

lemma order_self (coordinate : CellCoordinate) :
    CellCoordinate.order coordinate coordinate = .eq :=
  Std.ReflCmp.compare_self

lemma order_asymm {a b : CellCoordinate} (h : CellCoordinate.order a b = .lt) :
    CellCoordinate.order b a ≠ .lt := by
  rw [CellCoordinate.order_eq_lt_iff] at h
  rw [Ne, CellCoordinate.order_eq_lt_iff]
  omega

lemma rowMajor_pieces (sheet : SheetDescriptor) (h : KeySorted CellCoordinate.order entries) :
    (entries.flatMap (cellPieces sheet)).Pairwise fun a b =>
      CellCoordinate.order b.coordinate a.coordinate ≠ .lt := by
  have hcoordinate : ∀ {entry piece}, piece ∈ cellPieces sheet entry →
      piece.coordinate = entry.1 := by
    intro entry piece hmem
    obtain ⟨kind, role, text, rfl, -⟩ := mem_cellPieces hmem
    rfl
  rw [pairwise_flatMap]
  constructor
  · intro entry _
    apply pairwise_of_forall_mem_list
    intro a ha b hb
    rw [hcoordinate ha, hcoordinate hb, order_self]
    exact Ordering.noConfusion
  · apply h.imp
    intro a b hlt x hx y hy
    rw [hcoordinate hx, hcoordinate hy]
    exact order_asymm hlt

lemma distinct_of_rowMajor {records : List (CellCoordinate × Option CellRecord)}
    (h : RowMajor records) : (records.map fun record => record.1.a1).Nodup := by
  apply Pairwise.map _ _ h
  intro a b hlt heq
  rw [CellCoordinate.a1_injective heq, order_self] at hlt
  cases hlt

variable {sharedStrings : Option (List Text)} {content : List XmlEvent}
variable {records : List (CellCoordinate × Option CellRecord)} {sheet : SheetDescriptor}

lemma hidden_hideColumns (ranges : List (ℕ × ℕ)) (coordinate : CellCoordinate)
    (record : CellRecord) : (hideColumns ranges coordinate record).hidden =
      (record.hidden || inRanges ranges coordinate.column) := by
  unfold hideColumns
  split
  next h => simp [h]
  next h => simp [h]

lemma value_hideColumns (ranges : List (ℕ × ℕ)) (coordinate : CellCoordinate)
    (record : CellRecord) : (hideColumns ranges coordinate record).value = record.value ∧
      (hideColumns ranges coordinate record).formula = record.formula ∧
      (hideColumns ranges coordinate record).comment = record.comment := by
  unfold hideColumns
  split <;> exact ⟨rfl, rfl, rfl⟩

/-- The values of a sheet, with its comments merged. -/
theorem values_mergeComments
    (hcells : worksheet.cells.toList = recordsOf (hiddenRanges content) records) :
    (mergeComments worksheet comments sheetHidden).cells.toList.filterMap
        (fun entry => entry.2.value.map (pieceOf sheet entry.1 .value
          (visibleRole (sheet.visibility.isHidden || entry.2.hidden)))) =
      records.filterMap (expectedValue sheet (hiddenRanges content)) := by
  have hmerged := filterMap_mergeComments worksheet sheetHidden comments
    (fun _ record => record.value.map (·, record.hidden))
    (fun _ _ _ => rfl) (fun _ _ => rfl)
  have hpieces := congrArg (map fun found : CellCoordinate × Text × Bool =>
    pieceOf sheet found.1 .value (visibleRole (sheet.visibility.isHidden || found.2.2)) found.2.1)
    hmerged
  rw [map_filterMap, map_filterMap] at hpieces
  simp only [Option.map_map] at hpieces
  refine hpieces.trans ?_
  rw [hcells, recordsOf, filterMap_filterMap]
  congr 1
  funext record
  cases hrecord : record.2 with
  | none => simp [expectedValue, hrecord]
  | some cell =>
    obtain ⟨hvalue, -, -⟩ := value_hideColumns (hiddenRanges content) record.1 cell
    simp only [expectedValue, hrecord, map_some, bind_some, hvalue, hidden_hideColumns]
    rfl

/-- The formulas of a sheet, with its comments merged. -/
theorem formulas_mergeComments
    (hcells : worksheet.cells.toList = recordsOf (hiddenRanges content) records) :
    (mergeComments worksheet comments sheetHidden).cells.toList.filterMap
        (fun entry => entry.2.formula.map (pieceOf sheet entry.1 .formula .latent)) =
      records.filterMap (expectedFormula sheet) := by
  have hmerged := filterMap_mergeComments worksheet sheetHidden comments
    (fun _ record => record.formula) (fun _ _ _ => rfl) (fun _ _ => rfl)
  have hpieces := congrArg (map fun found : CellCoordinate × Text =>
    pieceOf sheet found.1 .formula .latent found.2) hmerged
  rw [map_filterMap, map_filterMap] at hpieces
  simp only [Option.map_map] at hpieces
  refine hpieces.trans ?_
  rw [hcells, recordsOf, filterMap_filterMap]
  congr 1
  funext record
  cases hrecord : record.2 with
  | none => simp [expectedFormula, hrecord]
  | some cell =>
    obtain ⟨-, hformula, -⟩ := value_hideColumns (hiddenRanges content) record.1 cell
    simp only [expectedFormula, hrecord, map_some, bind_some, hformula]
    rfl

section

variable (hcellsRead : WorksheetSays sharedStrings content records)
  (hcells : worksheet.cells.toList = recordsOf (hiddenRanges content) records)

include hcellsRead hcells

lemma filled_of_getElem? (h : worksheet.cells[coordinate]? = some record) :
    Filled record ∧ record.comment = none := by
  have hmem : (coordinate, record) ∈ worksheet.cells.toList :=
    Std.ExtTreeMap.mem_toList_iff_getElem?_eq_some.mpr h
  rw [hcells, recordsOf, mem_filterMap] at hmem
  obtain ⟨found, hfound, hmap⟩ := hmem
  obtain ⟨cell, hcell, heq⟩ := map_eq_some_iff.mp hmap
  cases heq
  have hpair : (found.1, some cell) ∈ records := by
    rw [← hcell]
    exact hfound
  obtain ⟨hfilled, hcomment⟩ := filled_of_worksheetSays hcellsRead hpair
  obtain ⟨hvalue, hformula, hcommentSame⟩ :=
    value_hideColumns (hiddenRanges content) found.1 cell
  refine ⟨⟨?_, ?_, ?_⟩, ?_⟩
  · rw [hvalue]
    exact hfilled.value
  · rw [hformula]
    exact hfilled.formula
  · rw [hcommentSame]
    exact hfilled.comment
  · rw [hcommentSame, hcomment]

lemma filled_mergeComments
    (h : (mergeComments worksheet comments sheetHidden).cells[coordinate]? = some record) :
    Filled record := by
  rw [mergeComments_spec] at h
  split at h
  next comment hcomment =>
    rw [some.injEq] at h
    subst h
    have hold : Filled (worksheet.cells[coordinate]?.getD ⟨none, none, sheetHidden, none⟩) := by
      cases hget : worksheet.cells[coordinate]? with
      | none => exact ⟨by simp, by simp, by simp⟩
      | some found => exact (filled_of_getElem? hcellsRead hcells hget).1
    refine ⟨hold.value, hold.formula, ?_⟩
    intro text (htext : nonempty (some comment) = some text)
    exact (nonempty_eq_some htext).2
  next => exact (filled_of_getElem? hcellsRead hcells h).1

/-- The comments of a sheet, merged into its cells. -/
theorem comments_mergeComments :
    (mergeComments worksheet comments sheetHidden).cells.toList.filterMap
        (fun entry => entry.2.comment.map (pieceOf sheet entry.1 .comment .latent)) =
      comments.toList.filterMap (expectedComment sheet) := by
  have hsame : (mergeComments worksheet comments sheetHidden).cells.toList.filterMap
        (fun entry => entry.2.comment.map (entry.1, ·)) =
      comments.toList.filterMap fun entry => (nonempty (some entry.2)).map (entry.1, ·) := by
    apply (keySorted_filterMap (keySorted_toList _) _).ext (keySorted_filterMap (keySorted_toList _) _)
    intro found
    rw [mem_filterMap_toList, mem_filterMap_toList, mergeComments_spec]
    cases hcomment : comments[found.1]? with
    | some comment => simp [withComment]
    | none =>
      cases hget : worksheet.cells[found.1]? with
      | none => simp
      | some record => simp [(filled_of_getElem? hcellsRead hcells hget).2]
  have hpieces := congrArg (map fun found : CellCoordinate × Text =>
    pieceOf sheet found.1 .comment .latent found.2) hsame
  rw [map_filterMap, map_filterMap] at hpieces
  simp only [Option.map_map] at hpieces
  exact hpieces

end

/-- The sections of a sheet's cells, comments merged. -/
theorem sheetConserved (sheet : SheetDescriptor) (sheetHidden : Bool)
    (comments : Std.ExtTreeMap CellCoordinate Text CellCoordinate.order)
    (hcellsRead : WorksheetSays sharedStrings content records)
    (hcells : worksheet.cells.toList = recordsOf (hiddenRanges content) records) :
    SheetConserved sharedStrings content comments sheet records
      ((mergeComments worksheet comments sheetHidden).cells.toList.flatMap (cellPieces sheet)) where
  reads := hcellsRead
  distinct := distinct_of_rowMajor hcellsRead.sorted
  rowMajor := rowMajor_pieces sheet (keySorted_toList _)
  values := by
    rw [ofKind_flatMap fun entry => (ofKind_cellPieces sheet entry).1]
    exact values_mergeComments hcells
  formulas := by
    rw [ofKind_flatMap fun entry => (ofKind_cellPieces sheet entry).2.1]
    exact formulas_mergeComments hcells
  comments := by
    rw [ofKind_flatMap fun entry => (ofKind_cellPieces sheet entry).2.2]
    exact comments_mergeComments hcellsRead hcells

/-- No section of a cell is empty. -/
theorem kept_cellPieces (sheet : SheetDescriptor) (h : ∀ entry ∈ entries, Filled entry.2) :
    kept (entries.flatMap fun entry => cellSections sheet entry.1 entry.2) =
      (entries.flatMap (cellPieces sheet)).map CellPiece.piece := by
  have hsame : (entries.flatMap fun entry => cellSections sheet entry.1 entry.2) =
      (entries.flatMap (cellPieces sheet)).map CellPiece.piece := by
    rw [map_flatMap]
    congr 1
    funext entry
    exact cellSections_eq sheet entry
  rw [kept, hsame, filter_eq_self]
  intro piece hmem
  obtain ⟨cellPiece, hcellPiece, rfl⟩ := mem_map.mp hmem
  obtain ⟨entry, hentry, hpiece⟩ := mem_flatMap.mp hcellPiece
  obtain ⟨kind, role, text, rfl, htext⟩ := mem_cellPieces hpiece
  have hfilled := h entry hentry
  have hne : text ≠ [] := by
    rcases htext with hvalue | hformula | hcomment
    · exact hfilled.value text hvalue
    · exact hfilled.formula text hformula
    · exact hfilled.comment text hcomment
  exact decide_eq_true hne

/-! ## §5 Sheets -/

variable {R : XmlReader} {package : ExcelPackage}

lemma ofPackage_ok {S : Type} {x : Except DocxError S} {s : S} (h : ofPackage x = .ok s) :
    x = .ok s := by
  cases x with
  | error e => cases h
  | ok result =>
    cases h
    rfl

lemma holds_of_openXml {inventory : ArchiveInventory} {uri : Text} {state state' : ReadState R}
    {bytes : Bytes} (h : openXml inventory uri state = .ok (bytes, state')) :
    inventory.Holds uri bytes := by
  simp only [openXml, bind_ok_iff, Prod.exists, pure, Except.pure, Except.ok.injEq,
    Prod.mk.injEq] at h
  obtain ⟨-, -, bytes', selected, hopen, rfl, -⟩ := h
  exact holds_of_openSelectedXml (ofPackage_ok hopen)

lemma holds_of_openTypedXml {uri contentType : Text} {state state' : ReadState R} {bytes : Bytes}
    (h : package.openTypedXml uri contentType state = .ok (bytes, state')) :
    package.inventory.Holds uri bytes := by
  simp only [ExcelPackage.openTypedXml, bind_ok_iff] at h
  obtain ⟨-, -, hopen⟩ := h
  exact holds_of_openXml hopen

/-- The comments of a worksheet: those of the part its one comments relationship leads to, if the
part is there. -/
def CommentsRead (R : XmlReader) (package : ExcelPackage) (uri : Text)
    (relationships : List Relationship)
    (comments : Std.ExtTreeMap CellCoordinate Text CellCoordinate.order) : Prop :=
  match relationships.filter isComments with
  | [] => comments = ∅
  | [relationship] => ∃ target,
      ExcelPackage.resolveInternal uri relationship = .ok target ∧
        if package.inventory.contains target then
          ∃ bytes, package.inventory.Holds target bytes ∧ ∃ budget budget' : R.Budget,
            parseComments bytes budget = .ok (comments, budget')
        else comments = ∅
  | _ => False

/-- The events of a sheet's worksheet without its root, and the comments on its cells. -/
def SheetRead (R : XmlReader) (package : ExcelPackage) (sheet : SheetDescriptor)
    (content : List XmlEvent)
    (comments : Std.ExtTreeMap CellCoordinate Text CellCoordinate.order) : Prop :=
  ∃ uri bytes relationships, worksheetUri package sheet = .ok uri ∧
    package.inventory.Holds uri bytes ∧
    (∃ budget : R.Budget, content = contentOf (R.events bytes budget).1) ∧
    (∃ state state' : ReadState R,
      package.relationshipsForPart uri state = .ok (relationships, state')) ∧
    CommentsRead R package uri relationships comments

variable {notices notices' : List Pdf.ExtractionNotice}

lemma selectComments_ok {relationships : List Relationship}
    {selected selected' : Option Relationship}
    (h : relationships.foldlM selectComments (selected, notices) = .ok (selected', notices')) :
    selected.toList ++ relationships.filter isComments = selected'.toList := by
  induction relationships generalizing selected notices with
  | nil =>
    cases h
    simp
  | cons relationship rest ih =>
    obtain ⟨⟨next, notices₁⟩, hfirst, hrest⟩ := foldlM_cons_ok _ h
    have hlater := ih hrest
    unfold selectComments at hfirst
    split at hfirst
    next hcomments =>
      cases selected with
      | some _ => cases hfirst
      | none =>
        cases hfirst
        rw [filter_cons_of_pos hcomments]
        exact hlater
    next hcomments =>
      rw [filter_cons_of_neg hcomments]
      split at hfirst
      · cases hfirst
        exact hlater
      · cases hfirst
        exact hlater

lemma mergeComments_empty (worksheet : WorksheetModel) (sheetHidden : Bool) :
    mergeComments worksheet ∅ sheetHidden = worksheet := by
  rw [mergeComments, Std.ExtTreeMap.toList_eq_nil_iff.mpr rfl]
  rfl

/-- A sheet that is read gives the cells of its worksheet with its comments. -/
theorem readSheet_ok {reading reading' : ReadState R} {merged : WorksheetModel}
    (h : readSheet package sharedStrings sheet reading notices = .ok (merged, reading', notices')) :
    ∃ content comments records worksheet, SheetRead R package sheet content comments ∧
      WorksheetSays sharedStrings content records ∧
      worksheet.cells.toList = recordsOf (hiddenRanges content) records ∧
      merged = mergeComments worksheet comments sheet.visibility.isHidden := by
  simp only [readSheet, bind_ok_iff, Prod.exists] at h
  obtain ⟨uri, huri, bytes, opened, hopen, worksheet, budget, hparse, relationships, related,
    hrelationships, relationship, noticed, hselect, hattach⟩ := h
  obtain ⟨records, hcellsRead, hcells⟩ := parseWorksheet_spec hparse
  have hselected := selectComments_ok hselect
  rw [toList_none, nil_append] at hselected
  have hread : ∀ comments, CommentsRead R package uri relationships comments →
      SheetRead R package sheet (contentOf (R.events bytes opened.xmlBudget).1) comments :=
    fun comments hcomments => ⟨uri, bytes, relationships, huri, holds_of_openTypedXml hopen,
      ⟨_, rfl⟩, ⟨_, _, hrelationships⟩, hcomments⟩
  unfold attachComments at hattach
  cases relationship with
  | none =>
    cases hattach
    refine ⟨_, ∅, records, merged, hread ∅ ?_, hcellsRead, hcells, (mergeComments_empty _ _).symm⟩
    rw [CommentsRead, hselected]
    rfl
  | some relationship =>
    simp only [bind_ok_iff] at hattach
    obtain ⟨target, htarget, hattach⟩ := hattach
    split at hattach
    next hcontains =>
      simp only [bind_ok_iff, Prod.exists, pure, Except.pure, Except.ok.injEq,
        Prod.mk.injEq] at hattach
      obtain ⟨commentBytes, commentState, hcommentOpen, comments, commentBudget, hcommentParse,
        rfl, -, -⟩ := hattach
      refine ⟨_, comments, records, worksheet, hread comments ?_, hcellsRead, hcells, rfl⟩
      rw [CommentsRead, hselected]
      refine ⟨target, htarget, ?_⟩
      rw [if_pos hcontains]
      exact ⟨commentBytes, holds_of_openTypedXml hcommentOpen, _, _, hcommentParse⟩
    next hcontains =>
      cases hattach
      refine ⟨_, ∅, records, merged, hread ∅ ?_, hcellsRead, hcells, (mergeComments_empty _ _).symm⟩
      rw [CommentsRead, hselected]
      refine ⟨target, htarget, ?_⟩
      rw [if_neg hcontains]

/-! ## §6 Workbooks -/

/-- The sections of one sheet: its prelude, and its cells. -/
def SheetSections (R : XmlReader) (package : ExcelPackage) (workbook : WorkbookModel)
    (sharedStrings : Option (List Text)) (entry : SheetDescriptor × ℕ)
    (sections : List ExcelSection) : Prop :=
  ∃ content comments records pieces, SheetRead R package entry.1 content comments ∧
    SheetConserved sharedStrings content comments entry.1 records pieces ∧
    sections = kept (preludeSections entry.2 entry.1 workbook.definedNames) ++
      pieces.map CellPiece.piece

lemma emitSheet_ok {workbook : WorkbookModel} {state state' : ExtractState R}
    {entry : SheetDescriptor × ℕ}
    (h : emitSheet package workbook sharedStrings state entry = .ok state') :
    ∃ sections, SheetSections R package workbook sharedStrings entry sections ∧
      state'.budget.output = state.budget.output ++ sections := by
  simp only [emitSheet, bind_ok_iff, Prod.exists, pure, Except.pure, Except.ok.injEq] at h
  obtain ⟨started, hprelude, merged, reading, notices, hread, budget, hcells, rfl⟩ := h
  obtain ⟨content, comments, records, worksheet, hsheet, hcellsRead, hworksheet, rfl⟩ :=
    readSheet_ok hread
  have hconserved := sheetConserved entry.1 entry.1.visibility.isHidden comments hcellsRead hworksheet
  refine ⟨_, ⟨content, comments, records, _, hsheet, hconserved, rfl⟩, ?_⟩
  have houtput := foldlM_output hcells fun _ _ _ hone => foldlM_push_output hone
  show budget.output = _
  rw [houtput, emitSheetPrelude_output hprelude, append_assoc, kept_cellPieces]
  intro found hmem
  exact filled_mergeComments hcellsRead hworksheet
    (Std.ExtTreeMap.mem_toList_iff_getElem?_eq_some.mp hmem)

lemma emitSheets_ok {workbook : WorkbookModel} {state state' : ExtractState R}
    {entries : List (SheetDescriptor × ℕ)}
    (h : entries.foldlM (emitSheet package workbook sharedStrings) state = .ok state') :
    ∃ bySheet, List.Forall₂ (SheetSections R package workbook sharedStrings) entries bySheet ∧
      state'.budget.output = state.budget.output ++ bySheet.flatten := by
  induction entries generalizing state with
  | nil =>
    cases h
    exact ⟨[], .nil, by simp⟩
  | cons entry rest ih =>
    obtain ⟨next, hfirst, hrest⟩ := foldlM_cons_ok _ h
    obtain ⟨sections, hsections, hnext⟩ := emitSheet_ok hfirst
    obtain ⟨bySheet, hbySheet, hfinal⟩ := ih hrest
    refine ⟨sections :: bySheet, .cons hsections hbySheet, ?_⟩
    rw [hfinal, hnext, flatten_cons, append_assoc]

/-- The sections of the global names. -/
def globalSections (workbook : WorkbookModel) : List ExcelSection :=
  kept ((workbook.definedNames.filter fun name => name.localSheet.isNone).flatMap
    (definedNameSections [] false))

/-- The cells of a workbook are conserved: after the global names come the sheets in their order,
each with its prelude and its cells. -/
def WorkbookConserved (R : XmlReader) (archive : Bytes → Except DocxError ArchiveInventory)
    (bytes : Bytes) (sections : List ExcelSection) : Prop :=
  ∃ (package : ExcelPackage) (workbook : WorkbookModel) (sharedStrings : Option (List Text))
    (opened shared : ReadState R) (budget : R.Budget) (bySheet : List (List ExcelSection)),
    ExcelPackage.openBytes R archive bytes = .ok (package, opened) ∧
    parseWorkbook package.workbookBytes opened.xmlBudget = .ok (workbook, budget) ∧
    loadSharedStrings package { opened with xmlBudget := budget } = .ok (sharedStrings, shared) ∧
    List.Forall₂ (SheetSections R package workbook sharedStrings) workbook.sheets.zipIdx bySheet ∧
    sections = globalSections workbook ++ bySheet.flatten

/-- In a workbook that is accepted, every value of a cell is emitted once, row by row and under its
own name, and is latent if its row, its column or its sheet is hidden; every formula and every
comment is latent. -/
theorem extractCandidate_conserves {archive : Bytes → Except DocxError ArchiveInventory}
    {bytes : Bytes} {candidate : ExcelCandidate}
    (h : extractCandidate R archive bytes = .ok candidate) :
    WorkbookConserved R archive bytes candidate.sections := by
  simp only [extractCandidate, bind_ok_iff, Prod.exists, pure, Except.pure, Except.ok.injEq] at h
  obtain ⟨package, opened, hopen, workbook, budget, hworkbook, sharedStrings, shared, hshared,
    output, hglobal, final, hsheets, rfl⟩ := h
  obtain ⟨bySheet, hbySheet, hfinal⟩ := emitSheets_ok hsheets
  refine ⟨package, workbook, sharedStrings, opened, shared, budget, bySheet, hopen, hworkbook,
    hshared, hbySheet, ?_⟩
  have hsections : (closeCandidate final.budget.output final.notices).sections =
      final.budget.output := by
    unfold closeCandidate
    split
    · rfl
    · split <;> rfl
  have hnames := foldlM_output hglobal fun _ _ _ hone => emitDefinedName_output hone
  rw [hsections, hfinal, hnames]
  rfl

/-! ## §7 A hidden column and a hidden row -/

/-- An element of a spreadsheet part. -/
def spreadsheetXml (name : String) (attributes : List (String × Text)) (content : List XmlEvent) :
    List XmlEvent :=
  documentOf spreadsheetNamespaces.headI name attributes content

def valueXml (value : String) : List XmlEvent := spreadsheetXml "v" [] [.text value.toList]

/-- The documents of a workbook with one sheet. Of its two rows the second is hidden, as is its
first column; the cell with a formula has a comment. -/
def columnDocuments : List (String × List XmlEvent) :=
  [("/[Content_Types].xml", contentTypesXml [("/w.xml", xlsxWorkbookContentType),
      ("/s.xml", worksheetContentType), ("/c.xml", commentsContentType)]),
    ("/_rels/.rels", relationshipsXml [relationshipElement "r1" "officeDocument" "w.xml"]),
    ("/w.xml", spreadsheetXml "workbook" [("xmlns:r", officeRelTransitional.dropLast)]
      [leafElement spreadsheetNamespaces.headI "sheet"
        [("name", "S".toList), ("r:id", "r1".toList)]]),
    ("/_rels/w.xml.rels", relationshipsXml [relationshipElement "r1" "worksheet" "s.xml"]),
    ("/_rels/s.xml.rels", relationshipsXml [relationshipElement "r1" "comments" "c.xml"]),
    ("/s.xml", spreadsheetXml "worksheet" []
      (spreadsheetXml "row" [] (spreadsheetXml "c" [] (valueXml "5") ++
          spreadsheetXml "c" [] (spreadsheetXml "f" [] [.text "A1+1".toList] ++ valueXml "6")) ++
        spreadsheetXml "row" [("hidden", "1".toList)]
          (spreadsheetXml "c" [("r", "C2".toList)] (valueXml "7")) ++
        [leafElement spreadsheetNamespaces.headI "col"
          [("min", "1".toList), ("max", "1".toList), ("hidden", "1".toList)]])),
    ("/c.xml", spreadsheetXml "comments" []
      (spreadsheetXml "comment" [("ref", "B1".toList)]
        (spreadsheetXml "text" [] (spreadsheetXml "t" [] [.text "ok".toList]))))]

def columnReader : XmlReader := knownReader (columnDocuments.map Prod.snd)

def columnPackage : ArchiveInventory := knownPackage columnDocuments (by decide +kernel)

/-- The signature of an archive. -/
def zipSignature : Bytes := [0x50, 0x4b, 0x03, 0x04]

/-- Only the value of the second cell is in a row and a column that are shown. -/
def columnSections : List ExcelSection :=
  let section_ (text : String) (visibility : ContentRole) (cell : String) : ExcelSection :=
    ⟨["S".toList], text.toList, visibility, some ⟨"S".toList, cell.toList⟩⟩
  [⟨["S".toList], "S".toList, .primary, none⟩, section_ "5" .latent "A1", section_ "6" .primary "B1",
    section_ "A1+1" .latent "B1", section_ "ok" .latent "B1", section_ "7" .latent "C2"]

lemma columnPackage_sections :
    (extractCandidate columnReader (fun _ => .ok columnPackage) zipSignature).toOption.map
      ExcelCandidate.sections = some columnSections := by
  decide +kernel

theorem columnPackage_conserved :
    WorkbookConserved columnReader (fun _ => .ok columnPackage) zipSignature columnSections := by
  have hsections := columnPackage_sections
  cases hextract : extractCandidate columnReader (fun _ => .ok columnPackage) zipSignature with
  | error error =>
    rw [hextract] at hsections
    cases hsections
  | ok candidate =>
    rw [hextract] at hsections
    have hcandidate : candidate.sections = _ := some.inj hsections
    rw [← hcandidate]
    exact extractCandidate_conserves hextract

end Kwiry.Excel
