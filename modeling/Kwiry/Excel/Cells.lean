import Kwiry.Excel.Coordinates

/-!
# The Cells of a Worksheet

What a worksheet says, read off its events without the state of the parser: a cell is a `c` element
with its body, it stands where the rows and cells before it put it, it is hidden with its row, and
the hidden column ranges are those of all `col` elements, wherever they are.
-/

namespace Kwiry.Excel

open Foundations Docx List Option

/-! ## §1 The root -/

/-- The events of a part without its root. -/
def contentOf (events : List XmlEvent) : List XmlEvent :=
  events.eraseP fun event => event.element.isSome

variable {body events : List XmlEvent}

section

variable {S : Type} {root : String} {onEvent : S → XmlEvent → Except DocxError S}

lemma afterRoot_true (state : S) (event : XmlEvent) :
    afterRoot root onEvent (true, state) event = (do
      let next ← onEvent state event
      return (true, next)) := by
  unfold afterRoot
  cases event.element <;> rfl

lemma foldlM_afterRoot_true {state state' : S} {rootChecked : Bool}
    (h : events.foldlM (afterRoot root onEvent) (true, state) = .ok (rootChecked, state')) :
    events.foldlM onEvent state = .ok state' := by
  induction events generalizing state with
  | nil =>
    cases h
    rfl
  | cons event rest ih =>
    obtain ⟨next, hfirst, hrest⟩ := foldlM_cons_ok _ h
    rw [afterRoot_true] at hfirst
    simp only [bind_ok_iff, pure, Except.pure, Except.ok.injEq] at hfirst
    obtain ⟨state₁, hevent, rfl⟩ := hfirst
    rw [foldlM_cons, hevent]
    exact ih hrest

/-- A parser passes over the root, and handles all other events. -/
theorem foldlM_afterRoot {state state' : S}
    (h : events.foldlM (afterRoot root onEvent) (false, state) = .ok (true, state')) :
    (contentOf events).foldlM onEvent state = .ok state' := by
  induction events generalizing state with
  | nil => cases h
  | cons event rest ih =>
    obtain ⟨next, hfirst, hrest⟩ := foldlM_cons_ok _ h
    cases helement : event.element with
    | some element =>
      rw [afterRoot, helement] at hfirst
      simp only [bind_ok_iff, pure, Except.pure, Except.ok.injEq] at hfirst
      obtain ⟨-, -, rfl⟩ := hfirst
      rw [contentOf, eraseP_cons_of_pos (by simp [helement])]
      exact foldlM_afterRoot_true hrest
    | none =>
      rw [afterRoot, helement] at hfirst
      simp only [bind_ok_iff, pure, Except.pure, Except.ok.injEq] at hfirst
      obtain ⟨state₁, hevent, rfl⟩ := hfirst
      rw [contentOf, eraseP_cons_of_neg (by simp [helement]), foldlM_cons, hevent]
      exact ih hrest

end

/-! ## §2 What a worksheet says -/

open WorksheetState

/-- The number of the last row, and the row an event stands in. -/
structure Place where
  lastRow : ℕ
  row : RowState

namespace Place

def start : Place := ⟨0, ⟨0, false, 0⟩⟩

/-- A cell moves on to its column. -/
def afterCell (place : Place) (element : XmlElement) : Place :=
  match nextCoordinate place.row element with
  | .ok coordinate => { place with row := { place.row with lastColumn := coordinate.column } }
  | .error _ => place

/-- Only rows and cells matter. -/
def after (place : Place) : XmlEvent → Place
  | .start element =>
    if isSpreadsheetElement element "row" then
      match rowNumber place.lastRow element, hiddenAttribute element with
      | .ok number, .ok hidden => ⟨number, ⟨number, hidden, 0⟩⟩
      | _, _ => place
    else if isSpreadsheetElement element "c" then place.afterCell element
    else place
  | .empty element =>
    if isSpreadsheetElement element "row" then
      match rowNumber place.lastRow element with
      | .ok number => { place with lastRow := number }
      | .error _ => place
    else if isSpreadsheetElement element "c" then place.afterCell element
    else place
  | _ => place

end Place

/-- A cell: its start tag with what comes before it, and what comes after it up to its end tag. -/
structure CellElement where
  before : List XmlEvent
  element : XmlElement
  body : List XmlEvent

def endsCell : XmlEvent → Bool
  | .stop nameSpace localName => isSpreadsheetName nameSpace localName "c"
  | _ => false

def startsCell : XmlEvent → Option XmlElement
  | .start element => if isSpreadsheetElement element "c" then some element else none
  | _ => none

/-- The events up to the end of a cell. -/
def bodyOf (events : List XmlEvent) : List XmlEvent :=
  events.takeWhile fun event => endsCell event = false

/-- The cells of a worksheet. -/
def cellElements (before : List XmlEvent) : List XmlEvent → List CellElement
  | [] => []
  | event :: rest =>
    match startsCell event with
    | some element => ⟨before, element, bodyOf rest⟩ :: cellElements (before ++ [event]) rest
    | none => cellElements (before ++ [event]) rest

/-- A cell with a coordinate, and what its body gives. -/
def readBody (sharedStrings : Option (List Text)) (builder : CellBuilder) (body : List XmlEvent) :
    Except DocxError (CellCoordinate × Option CellRecord) := do
  let finished ← body.foldlM CellBuilder.onEvent builder
  let record ← finishCell finished sharedStrings
  return (builder.coordinate, record)

/-- Where a cell stands and what it holds. -/
def CellElement.read (sharedStrings : Option (List Text)) (cell : CellElement) :
    Except DocxError (CellCoordinate × Option CellRecord) := do
  let row := (cell.before.foldl Place.after Place.start).row
  let coordinate ← nextCoordinate row cell.element
  let cellType ← parseCellType (optionalAttribute cell.element "t")
  readBody sharedStrings (.new coordinate cellType row.hidden) cell.body

/-- The hidden columns an event declares. -/
def hiddenColumns (event : XmlEvent) : Option (ℕ × ℕ) := do
  let element ← event.element
  if isSpreadsheetElement element "col" then (hiddenRange element).toOption.join else none

/-- The hidden column ranges of a worksheet. -/
def hiddenRanges (events : List XmlEvent) : List (ℕ × ℕ) :=
  events.filterMap hiddenColumns

/-! ## §3 One event -/

variable {name : String}

lemma isSpreadsheetName_unique {nameSpace : Option Text} {localName : Text} {name' : String}
    (h : isSpreadsheetName nameSpace localName name = true)
    (h' : isSpreadsheetName nameSpace localName name' = true) : name = name' := by
  simp only [isSpreadsheetName, decide_eq_true_eq] at h h'
  exact String.toList_inj.mp (h.1.symm.trans h'.1)

variable {element : XmlElement}

/-- An element with one name has no other. -/
theorem isSpreadsheetElement_ne (name' : String) (h : isSpreadsheetElement element name = true)
    (hne : name ≠ name') : isSpreadsheetElement element name' = false := by
  by_contra h'
  exact hne (isSpreadsheetName_unique h (Bool.eq_true_of_not_eq_false h'))

/-- Events that are neither columns nor rows nor cells. -/
def Plain : XmlEvent → Prop
  | .start element | .empty element =>
    ∀ name ∈ ["col", "row", "c"], isSpreadsheetElement element name = false
  | .text _ => True
  | .stop nameSpace localName => isSpreadsheetName nameSpace localName "c" = false

/-- Records a cell that holds something. -/
def insertRecord (cells : Std.ExtTreeMap CellCoordinate CellRecord CellCoordinate.order)
    (cell : CellCoordinate × Option CellRecord) :
    Std.ExtTreeMap CellCoordinate CellRecord CellCoordinate.order :=
  match cell.2 with
  | some record => cells.insert cell.1 record
  | none => cells

/-- What one event does to a worksheet. -/
inductive WorksheetStep (sharedStrings : Option (List Text)) (state : WorksheetState) :
    XmlEvent → WorksheetState → Prop where
  | columns {event element range} (helement : event.element = some element)
      (hname : isSpreadsheetElement element "col" = true)
      (hrange : hiddenRange element = .ok range) :
      WorksheetStep sharedStrings state event
        { state with columnRanges := state.columnRanges ++ range.toList }
  | startRow {element number hidden} (hname : isSpreadsheetElement element "row" = true)
      (hrow : state.row = none) (hcell : state.cell = none)
      (hnumber : rowNumber state.lastRow element = .ok number)
      (hhidden : hiddenAttribute element = .ok hidden) :
      WorksheetStep sharedStrings state (.start element)
        { state with row := some ⟨number, hidden, 0⟩, lastRow := number }
  | emptyRow {element number} (hname : isSpreadsheetElement element "row" = true)
      (hnumber : rowNumber state.lastRow element = .ok number) :
      WorksheetStep sharedStrings state (.empty element) { state with lastRow := number }
  | startCell {element row coordinate cellType processed}
      (hname : isSpreadsheetElement element "c" = true) (hcell : state.cell = none)
      (hrow : state.row = some row) (hcoordinate : nextCoordinate row element = .ok coordinate)
      (htype : parseCellType (optionalAttribute element "t") = .ok cellType) :
      WorksheetStep sharedStrings state (.start element)
        { state with
          processedCells := processed
          row := some { row with lastColumn := coordinate.column }
          cell := some (.new coordinate cellType row.hidden) }
  | emptyCell {element row coordinate processed}
      (hname : isSpreadsheetElement element "c" = true) (hrow : state.row = some row)
      (hcoordinate : nextCoordinate row element = .ok coordinate) :
      WorksheetStep sharedStrings state (.empty element)
        { state with
          processedCells := processed
          row := some { row with lastColumn := coordinate.column } }
  | stopCell {event builder record} (hends : endsCell event = true)
      (hcell : state.cell = some builder) (hrecord : finishCell builder sharedStrings = .ok record)
      (hnew : record.isSome → state.model.cells.contains builder.coordinate = false) :
      WorksheetStep sharedStrings state event
        { state with
          cell := none
          model := ⟨insertRecord state.model.cells (builder.coordinate, record)⟩ }
  | stopRow {nameSpace localName} (hname : isSpreadsheetName nameSpace localName "row" = true)
      (hcell : state.cell = none) :
      WorksheetStep sharedStrings state (.stop nameSpace localName) { state with row := none }
  | inCell {event builder builder'} (hplain : Plain event) (hcell : state.cell = some builder)
      (hbuilder : builder.onEvent event = .ok builder') :
      WorksheetStep sharedStrings state event { state with cell := some builder' }
  | outside {event} (hplain : Plain event) (hcell : state.cell = none) :
      WorksheetStep sharedStrings state event state

variable {sharedStrings : Option (List Text)} {state state' : WorksheetState}

variable {event : XmlEvent} {coordinate : CellCoordinate} {builder : CellBuilder}
  {before rest : List XmlEvent} {records : List (CellCoordinate × Option CellRecord)}
  {state₁ : WorksheetState}

lemma worksheetStep_of_addColumns (helement : event.element = some element)
    (hname : isSpreadsheetElement element "col" = true)
    (h : state.addColumns element = .ok state') :
    WorksheetStep sharedStrings state event state' := by
  simp only [addColumns, bind_ok_iff] at h
  obtain ⟨-, -, -, -, range, hrange, h⟩ := h
  have hstep : WorksheetStep sharedStrings state event _ := .columns helement hname hrange
  cases range with
  | none =>
    cases h
    simpa using hstep
  | some range =>
    cases h
    exact hstep

variable {row : RowState}

lemma placeCell_ok (h : state.placeCell element = .ok (row, coordinate, state')) :
    state.row = some row ∧ nextCoordinate row element = .ok coordinate ∧
      state' = { state with
        processedCells := state.processedCells + 1
        row := some { row with lastColumn := coordinate.column } } := by
  unfold placeCell at h
  split at h
  next => cases h
  next row' hrow =>
    simp only [bind_ok_iff, pure, Except.pure, Except.ok.injEq, Prod.mk.injEq] at h
    obtain ⟨-, -, coordinate', hcoordinate, rfl, rfl, rfl⟩ := h
    exact ⟨hrow, hcoordinate, rfl⟩

lemma worksheetStep_of_inCell (hplain : Plain event) (h : state.inCell event = .ok state') :
    WorksheetStep sharedStrings state event state' := by
  unfold inCell at h
  split at h
  next builder hcell =>
    simp only [bind_ok_iff, pure, Except.pure, Except.ok.injEq] at h
    obtain ⟨builder', hbuilder, rfl⟩ := h
    exact .inCell hplain hcell hbuilder
  next hcell =>
    split at h
    next => cases h
    next =>
      cases h
      exact .outside hplain hcell

lemma worksheetStep_of_onEvent (h : state.onEvent sharedStrings event = .ok state') :
    WorksheetStep sharedStrings state event state' := by
  cases event with
  | start element =>
    simp only [onEvent] at h
    split at h
    next hcol => exact worksheetStep_of_addColumns rfl hcol h
    next hcol =>
      split at h
      next hrow =>
        simp only [WorksheetState.startRow, bind_ok_iff, rejectIf_ok, not_or, Bool.not_eq_true,
          isSome_eq_false_iff, isNone_iff_eq_none, pure, Except.pure,
          Except.ok.injEq] at h
        obtain ⟨-, ⟨hnoRow, hnoCell⟩, number, hnumber, hidden, hhidden, rfl⟩ := h
        exact .startRow hrow hnoRow hnoCell hnumber hhidden
      next hrow =>
        split at h
        next hc =>
          simp only [WorksheetState.startCell, bind_ok_iff, rejectIf_ok, Bool.not_eq_true,
            isSome_eq_false_iff, isNone_iff_eq_none, pure, Except.pure,
            Except.ok.injEq, Prod.exists] at h
          obtain ⟨-, hnoCell, row, coordinate, placed, hplaced, cellType, htype, rfl⟩ := h
          obtain ⟨hstateRow, hcoordinate, rfl⟩ := placeCell_ok hplaced
          exact .startCell hc hnoCell hstateRow hcoordinate htype
        next hc =>
          refine worksheetStep_of_inCell ?_ h
          simp only [Plain, forall_mem_cons]
          exact ⟨by simpa using hcol, by simpa using hrow, by simpa using hc, by simp⟩
  | empty element =>
    simp only [onEvent] at h
    split at h
    next hcol => exact worksheetStep_of_addColumns rfl hcol h
    next hcol =>
      split at h
      next hrow =>
        simp only [WorksheetState.emptyRow, bind_ok_iff, pure, Except.pure, Except.ok.injEq] at h
        obtain ⟨number, hnumber, rfl⟩ := h
        exact .emptyRow hrow hnumber
      next hrow =>
        split at h
        next hc =>
          simp only [WorksheetState.emptyCell, bind_ok_iff, pure, Except.pure, Except.ok.injEq,
            Prod.exists] at h
          obtain ⟨row, coordinate, placed, hplaced, rfl⟩ := h
          obtain ⟨hstateRow, hcoordinate, rfl⟩ := placeCell_ok hplaced
          exact .emptyCell hc hstateRow hcoordinate
        next hc =>
          refine worksheetStep_of_inCell ?_ h
          simp only [Plain, forall_mem_cons]
          exact ⟨by simpa using hcol, by simpa using hrow, by simpa using hc, by simp⟩
  | text text => exact worksheetStep_of_inCell trivial h
  | stop nameSpace localName =>
    simp only [onEvent] at h
    split at h
    next hc =>
      have hends : endsCell (.stop nameSpace localName) = true := hc
      unfold stopCell at h
      split at h
      next => cases h
      next builder hcell =>
        simp only [bind_ok_iff] at h
        obtain ⟨record, hrecord, h⟩ := h
        cases record with
        | none =>
          cases h
          exact .stopCell hends hcell hrecord (by simp)
        | some record =>
          simp only [bind_ok_iff, rejectIf_ok, Bool.not_eq_true, pure, Except.pure,
            Except.ok.injEq] at h
          obtain ⟨-, hnew, rfl⟩ := h
          exact .stopCell hends hcell hrecord fun _ => hnew
    next hc =>
      have hnotCell : isSpreadsheetName nameSpace localName "c" = false :=
        Bool.eq_false_of_not_eq_true hc
      split at h
      next hrow =>
        simp only [WorksheetState.stopRow, bind_ok_iff, rejectIf_ok, not_or, Bool.not_eq_true,
          isSome_eq_false_iff, isNone_iff_eq_none, pure, Except.pure,
          Except.ok.injEq] at h
        obtain ⟨-, ⟨hnoCell, -⟩, rfl⟩ := h
        exact .stopRow hrow hnoCell
      next hrow => exact worksheetStep_of_inCell hnotCell h

/-- A cell takes no notice of columns, rows and cells in its body. -/
theorem onEvent_of_element (helement : event.element = some element)
    (hname : isSpreadsheetElement element name = true) (hmem : name ∈ ["col", "row", "c"]) :
    builder.onEvent event = .ok builder := by
  have hother : ∀ name' ∈ ["v", "f", "is", "rPh", "t"],
      isSpreadsheetElement element name' = false := by
    intro name' hmem'
    apply isSpreadsheetElement_ne name' hname
    intro heq
    have hdisjoint : ∀ name ∈ ["col", "row", "c"], name ∉ ["v", "f", "is", "rPh", "t"] := by decide
    exact hdisjoint name hmem (heq ▸ hmem')
  simp only [forall_mem_cons] at hother
  obtain ⟨hv, hf, his, hrPh, ht, -⟩ := hother
  cases event with
  | start element' =>
    cases helement
    simp [CellBuilder.onEvent, CellBuilder.onStart, hv, hf, his, hrPh, ht]
  | empty element' =>
    cases helement
    simp [CellBuilder.onEvent, CellBuilder.onEmpty, hv, hf, his]
  | text | stop => cases helement

/-! ## §4 The run -/

/-- The events before a state say where it stands. -/
structure Stands (before : List XmlEvent) (state : WorksheetState) : Prop where
  lastRow : (before.foldl Place.after Place.start).lastRow = state.lastRow
  row : ∀ row, state.row = some row →
    (before.foldl Place.after Place.start).row = row ∧ row.row ≤ state.lastRow
  cell : ∀ builder, state.cell = some builder → ∃ row, state.row = some row ∧
    builder.coordinate.row = row.row ∧ builder.coordinate.column ≤ row.lastColumn

/-- Cells that may still come: the rest of the row, or later rows. -/
def Ahead (state : WorksheetState) (coordinate : CellCoordinate) : Prop :=
  match state.row with
  | some row => CellCoordinate.order ⟨row.row, row.lastColumn⟩ coordinate = .lt
  | none => state.lastRow < coordinate.row

lemma coordinate_of_nextCoordinate (h : nextCoordinate row element = .ok coordinate) :
    coordinate.row = row.row ∧ row.lastColumn < coordinate.column := by
  unfold nextCoordinate at h
  split at h
  next reference href =>
    simp only [bind_ok_iff, rejectIf_ok, not_or, not_not, not_le, pure, Except.pure,
      Except.ok.injEq] at h
    obtain ⟨found, -, -, hplace, rfl⟩ := h
    exact hplace
  next =>
    simp only [bind_ok_iff, pure, Except.pure, Except.ok.injEq] at h
    obtain ⟨-, -, rfl⟩ := h
    exact ⟨rfl, Nat.lt_succ_self _⟩

lemma lt_of_rowNumber {lastRow number : ℕ} (h : rowNumber lastRow element = .ok number) :
    lastRow < number := by
  simp only [rowNumber, bind_ok_iff, rejectIf_ok, not_or, not_le, pure, Except.pure,
    Except.ok.injEq] at h
  obtain ⟨reference, -, -, ⟨-, hlt⟩, rfl⟩ := h
  exact hlt

lemma place_of_plain (h : Plain event) (place : Place) : place.after event = place := by
  cases event with
  | start element | empty element =>
    simp only [Plain, forall_mem_cons] at h
    simp [Place.after, h.2.1, h.2.2.1]
  | text => rfl
  | stop => rfl

lemma eq_of_checked {E S : Type} {p : Prop} [Decidable p] {error : E} {a b : S}
    (h : (do rejectIf p error; return a : Except E S) = .ok b) : b = a := by
  simp only [bind_ok_iff, pure, Except.pure, Except.ok.injEq] at h
  obtain ⟨-, -, rfl⟩ := h
  rfl

lemma coordinate_of_onEvent {builder' : CellBuilder} (h : builder.onEvent event = .ok builder') :
    builder'.coordinate = builder.coordinate := by
  cases event with
  | start element =>
    simp only [CellBuilder.onEvent, CellBuilder.onStart] at h
    split_ifs at h
    · rw [eq_of_checked h]
    · rw [eq_of_checked h]
    · rw [eq_of_checked h]
    · rw [eq_of_checked h]
    · cases h
      rfl
    · cases h
      rfl
    · cases h
      rfl
  | empty element =>
    simp only [CellBuilder.onEvent, CellBuilder.onEmpty] at h
    split_ifs at h
    · rw [eq_of_checked h]
    · rw [eq_of_checked h]
    · rw [eq_of_checked h]
    · cases h
      rfl
  | text text =>
    simp only [CellBuilder.onEvent, CellBuilder.onText] at h
    split_ifs at h
    · cases h
      rfl
    · split at h
      · cases h
        rfl
      · split at h <;> cases h
        rfl
      · split at h <;> cases h
        rfl
  | stop nameSpace localName =>
    simp only [CellBuilder.onEvent, CellBuilder.onStop] at h
    split_ifs at h
    · cases h
      rfl
    · cases h
      rfl
    · rw [eq_of_checked h]
    · cases h
      rfl
    · cases h
      rfl

lemma place_append (before : List XmlEvent) (event : XmlEvent) :
    (before ++ [event]).foldl Place.after Place.start =
      (before.foldl Place.after Place.start).after event := by
  rw [foldl_append]
  rfl

/-- An event that moves neither the place nor the row. -/
theorem Stands.of_same (h : Stands before state)
    (hsame : ∀ place : Place, place.after event = place) (hlastRow : state'.lastRow = state.lastRow)
    (hrow : state'.row = state.row)
    (hcell : ∀ builder, state'.cell = some builder → ∃ row, state.row = some row ∧
      builder.coordinate.row = row.row ∧ builder.coordinate.column ≤ row.lastColumn) :
    Stands (before ++ [event]) state' where
  lastRow := by
    rw [place_append, hsame, hlastRow]
    exact h.lastRow
  row := by
    rw [place_append, hsame, hlastRow, hrow]
    exact h.row
  cell := by
    rw [hrow]
    exact hcell

/-- A cell moves the place and the row to its column. -/
theorem Stands.of_cell (h : Stands before state)
    (hafter : ∀ place : Place, place.after event = place.afterCell element)
    (hstateRow : state.row = some row) (hcoordinate : nextCoordinate row element = .ok coordinate)
    (hlastRow : state'.lastRow = state.lastRow)
    (hrow : state'.row = some { row with lastColumn := coordinate.column })
    (hcell : ∀ builder, state'.cell = some builder → builder.coordinate.row = row.row ∧
      builder.coordinate.column ≤ coordinate.column) : Stands (before ++ [event]) state' := by
  obtain ⟨hsame, hle⟩ := h.row row hstateRow
  have hplace : (before ++ [event]).foldl Place.after Place.start =
      { before.foldl Place.after Place.start with
        row := { row with lastColumn := coordinate.column } } := by
    rw [place_append, hafter]
    simp [Place.afterCell, hsame, hcoordinate]
  refine ⟨?_, ?_, ?_⟩
  · rw [hplace, hlastRow]
    exact h.lastRow
  · intro row' hrow'
    rw [hrow] at hrow'
    cases hrow'
    rw [hplace, hlastRow]
    exact ⟨rfl, hle⟩
  · intro builder hbuilder
    exact ⟨_, hrow, hcell builder hbuilder⟩

lemma WorksheetStep.stands (h : WorksheetStep sharedStrings state event state')
    (hstands : Stands before state) : Stands (before ++ [event]) state' := by
  -- what the place does is read off the event's name
  cases h with
  | @columns _ element range helement hname =>
    have hr := isSpreadsheetElement_ne "row" hname (by decide)
    have hc := isSpreadsheetElement_ne "c" hname (by decide)
    refine hstands.of_same ?_ rfl rfl hstands.cell
    intro place
    cases event with
    | start element' | empty element' =>
      cases helement
      simp [Place.after, hr, hc]
    | text => rfl
    | stop => rfl
  | @startRow element number hidden hname hnoRow hnoCell hnumber hhidden =>
    have hplace : (before ++ [XmlEvent.start element]).foldl Place.after Place.start =
        ⟨number, ⟨number, hidden, 0⟩⟩ := by
      rw [place_append]
      simp [Place.after, hname, hstands.lastRow, hnumber, hhidden]
    refine ⟨?_, ?_, ?_⟩
    · rw [hplace]
    · intro row hrow
      cases hrow
      rw [hplace]
      exact ⟨rfl, le_refl _⟩
    · intro builder hbuilder
      rw [show state.cell = some builder from hbuilder] at hnoCell
      cases hnoCell
  | @emptyRow element number hname hnumber =>
    have hplace : (before ++ [XmlEvent.empty element]).foldl Place.after Place.start =
        { before.foldl Place.after Place.start with lastRow := number } := by
      rw [place_append]
      simp [Place.after, hname, hstands.lastRow, hnumber]
    refine ⟨?_, ?_, hstands.cell⟩
    · rw [hplace]
    · intro row hrow
      obtain ⟨hsame, hle⟩ := hstands.row row hrow
      rw [hplace]
      exact ⟨hsame, hle.trans (lt_of_rowNumber hnumber).le⟩
  | @startCell element row coordinate cellType processed hname hnoCell hrow hcoordinate =>
    have hr := isSpreadsheetElement_ne "row" hname (by decide)
    refine hstands.of_cell (fun place => ?_) hrow hcoordinate rfl rfl ?_
    · simp [Place.after, hname, hr]
    · intro builder hbuilder
      cases hbuilder
      exact ⟨(coordinate_of_nextCoordinate hcoordinate).1, le_refl _⟩
  | @emptyCell element row coordinate processed hname hrow hcoordinate =>
    have hr := isSpreadsheetElement_ne "row" hname (by decide)
    refine hstands.of_cell (fun place => ?_) hrow hcoordinate rfl rfl ?_
    · simp [Place.after, hname, hr]
    · intro builder hbuilder
      obtain ⟨row', hrow', hsameRow, hcolumn⟩ := hstands.cell builder hbuilder
      rw [hrow] at hrow'
      cases hrow'
      exact ⟨hsameRow, hcolumn.trans (coordinate_of_nextCoordinate hcoordinate).2.le⟩
  | stopCell hends =>
    refine hstands.of_same ?_ rfl rfl ?_
    · intro place
      cases event with
      | stop => rfl
      | start | empty | text => cases hends
    · intro builder hbuilder
      cases hbuilder
  | stopRow hname hnoCell =>
    refine ⟨?_, ?_, ?_⟩
    · rw [place_append]
      exact hstands.lastRow
    · intro row hrow
      cases hrow
    · intro builder hbuilder
      rw [show state.cell = some builder from hbuilder] at hnoCell
      cases hnoCell
  | @inCell _ builder builder' hplain hcell hbuilder =>
    refine hstands.of_same (place_of_plain hplain) rfl rfl ?_
    intro builder'' hbuilder''
    cases hbuilder''
    rw [coordinate_of_onEvent hbuilder]
    exact hstands.cell builder hcell
  | outside hplain => exact hstands.of_same (place_of_plain hplain) rfl rfl hstands.cell

/-- What is still to be read: the rest of the open cell, and the cells after it. -/
def Reads (sharedStrings : Option (List Text)) (cell : Option CellBuilder)
    (before events : List XmlEvent) (records : List (CellCoordinate × Option CellRecord)) : Prop :=
  match cell with
  | none => (cellElements before events).mapM (CellElement.read sharedStrings) = .ok records
  | some builder => ∃ first rest, records = first :: rest ∧
      readBody sharedStrings builder (bodyOf events) = .ok first ∧
      (cellElements before events).mapM (CellElement.read sharedStrings) = .ok rest

/-- Cells row by row. -/
def RowMajor (records : List (CellCoordinate × Option CellRecord)) : Prop :=
  KeySorted CellCoordinate.order records

lemma coordinate_of_readBody {record : CellCoordinate × Option CellRecord}
    (h : readBody sharedStrings builder body = .ok record) : record.1 = builder.coordinate := by
  simp only [readBody, bind_ok_iff, pure, Except.pure, Except.ok.injEq] at h
  obtain ⟨-, -, -, -, rfl⟩ := h
  rfl

lemma readBody_cons {builder' : CellBuilder} (h : builder.onEvent event = .ok builder') :
    readBody sharedStrings builder (event :: body) = readBody sharedStrings builder' body := by
  simp only [readBody, foldlM_cons, h, coordinate_of_onEvent h]
  rfl

lemma ahead_trans {a b : CellCoordinate} (ha : Ahead state a)
    (hab : CellCoordinate.order a b = .lt) : Ahead state b := by
  unfold Ahead at ha ⊢
  split at ha
  next => exact Std.TransCmp.lt_trans ha hab
  next =>
    rw [CellCoordinate.order_eq_lt_iff] at hab
    omega

/-- What an event that neither starts nor ends a cell leaves to be read. -/
theorem Reads.cons_other {cell cell' : Option CellBuilder} (hstart : startsCell event = none)
    (hend : endsCell event = false) (hnone : cell = none → cell' = none)
    (hsome : ∀ builder, cell = some builder → ∃ builder', cell' = some builder' ∧
      builder.onEvent event = .ok builder')
    (h : Reads sharedStrings cell' (before ++ [event]) rest records) :
    Reads sharedStrings cell before (event :: rest) records := by
  have hcells : cellElements before (event :: rest) = cellElements (before ++ [event]) rest := by
    rw [cellElements, hstart]
  have hbody : bodyOf (event :: rest) = event :: bodyOf rest := by
    rw [bodyOf, takeWhile_cons_of_pos (by simp [hend])]
    rfl
  cases cell with
  | none =>
    rw [hnone rfl] at h
    unfold Reads
    rw [hcells]
    exact h
  | some builder =>
    obtain ⟨builder', rfl, hbuilder⟩ := hsome builder rfl
    obtain ⟨first, later, hrecords, hfirst, hlater⟩ := h
    refine ⟨first, later, hrecords, ?_, ?_⟩
    · rw [hbody, readBody_cons hbuilder]
      exact hfirst
    · rw [hcells]
      exact hlater

/-- What the rest of a worksheet does. -/
structure Run (sharedStrings : Option (List Text)) (before events : List XmlEvent)
    (state state' : WorksheetState) (records : List (CellCoordinate × Option CellRecord)) :
    Prop where
  reads : Reads sharedStrings state.cell before events records
  cells : state'.model.cells = records.foldl insertRecord state.model.cells
  ranges : state'.columnRanges = state.columnRanges ++ hiddenRanges events
  sorted : RowMajor records
  ahead : state.cell = none → ∀ record ∈ records, Ahead state record.1

lemma hiddenRanges_cons (event : XmlEvent) (rest : List XmlEvent) :
    hiddenRanges (event :: rest) = (hiddenColumns event).toList ++ hiddenRanges rest := by
  rw [hiddenRanges, filterMap_cons]
  cases hiddenColumns event <;> rfl

lemma hiddenColumns_of_col {range : Option (ℕ × ℕ)} (helement : event.element = some element)
    (hname : isSpreadsheetElement element "col" = true) (hrange : hiddenRange element = .ok range) :
    hiddenColumns event = range := by
  rw [hiddenColumns, helement]
  simp [hname, hrange, Except.toOption]

lemma hiddenColumns_of_element (helement : event.element = some element)
    (hname : isSpreadsheetElement element name = true) (hne : name ≠ "col") :
    hiddenColumns event = none := by
  rw [hiddenColumns, helement]
  simp [isSpreadsheetElement_ne "col" hname hne]

lemma hiddenColumns_of_plain (h : Plain event) : hiddenColumns event = none := by
  cases event with
  | start element | empty element =>
    simp only [Plain, forall_mem_cons] at h
    simp [hiddenColumns, XmlEvent.element, h.1]
  | text => rfl
  | stop => rfl

lemma startsCell_of_plain (h : Plain event) :
    startsCell event = none ∧ endsCell event = false := by
  cases event with
  | start element =>
    simp only [Plain, forall_mem_cons] at h
    simp [startsCell, endsCell, h.2.2.1]
  | empty | text => exact ⟨rfl, rfl⟩
  | stop => exact ⟨rfl, h⟩

/-- An event that is no cell tag: the rest of the run is the run. -/
theorem Run.cons_other (h : Run sharedStrings (before ++ [event]) rest state₁ state' records)
    (hstart : startsCell event = none) (hend : endsCell event = false)
    (hnone : state.cell = none → state₁.cell = none)
    (hsome : ∀ builder, state.cell = some builder → ∃ builder', state₁.cell = some builder' ∧
      builder.onEvent event = .ok builder') (hmodel : state₁.model = state.model)
    (hcolumns : state₁.columnRanges = state.columnRanges ++ (hiddenColumns event).toList)
    (hahead : ∀ coordinate, Ahead state₁ coordinate → Ahead state coordinate) :
    Run sharedStrings before (event :: rest) state state' records where
  reads := h.reads.cons_other hstart hend hnone hsome
  cells := by
    rw [h.cells, hmodel]
  ranges := by
    rw [h.ranges, hcolumns, hiddenRanges_cons, append_assoc]
  sorted := h.sorted
  ahead := fun hcell record hmem => hahead _ (h.ahead (hnone hcell) record hmem)

/-- A cell starts: what is read of it is the first record. -/
theorem Run.startCell {cellType : CellType}
    (h : Run sharedStrings (before ++ [.start element]) rest state₁ state' records)
    (hstands : Stands before state) (hname : isSpreadsheetElement element "c" = true)
    (hcell : state.cell = none) (hrow : state.row = some row)
    (hcoordinate : nextCoordinate row element = .ok coordinate)
    (htype : parseCellType (optionalAttribute element "t") = .ok cellType)
    (hcell₁ : state₁.cell = some (.new coordinate cellType row.hidden))
    (hmodel : state₁.model = state.model) (hcolumns : state₁.columnRanges = state.columnRanges) :
    Run sharedStrings before (.start element :: rest) state state' records := by
  have hreads := h.reads
  rw [hcell₁] at hreads
  obtain ⟨first, later, rfl, hfirst, hlater⟩ := hreads
  have hcells : cellElements before (.start element :: rest) =
      ⟨before, element, bodyOf rest⟩ :: cellElements (before ++ [.start element]) rest := by
    simp [cellElements, startsCell, hname]
  have hread : CellElement.read sharedStrings ⟨before, element, bodyOf rest⟩ = .ok first := by
    simp only [CellElement.read, (hstands.row row hrow).1, hcoordinate, htype, bind_ok_iff,
      Except.ok.injEq, exists_eq_left']
    exact hfirst
  obtain ⟨hsameRow, hlt⟩ := coordinate_of_nextCoordinate hcoordinate
  have hahead : Ahead state first.1 := by
    rw [coordinate_of_readBody hfirst, Ahead, hrow]
    exact CellCoordinate.order_eq_lt_iff.mpr (.inr ⟨hsameRow.symm, hlt⟩)
  refine ⟨?_, ?_, ?_, h.sorted, ?_⟩
  · rw [hcell]
    show (cellElements before (.start element :: rest)).mapM _ = _
    rw [hcells, mapM_cons, hread, hlater]
    rfl
  · rw [h.cells, hmodel]
  · rw [h.ranges, hcolumns, hiddenRanges_cons, hiddenColumns_of_element rfl hname (by decide)]
    rfl
  · intro _ record hmem
    rcases mem_cons.mp hmem with hhead | htail
    · rw [hhead]
      exact hahead
    · exact ahead_trans hahead (rel_of_pairwise_cons h.sorted htail)

/-- A cell ends: its record is the first one. -/
theorem Run.stopCell {record : Option CellRecord}
    (h : Run sharedStrings (before ++ [event]) rest state₁ state' records)
    (hstands : Stands before state) (hends : endsCell event = true)
    (hcell : state.cell = some builder) (hrecord : finishCell builder sharedStrings = .ok record)
    (hcell₁ : state₁.cell = none) (hrow : state₁.row = state.row)
    (hmodel : state₁.model = ⟨insertRecord state.model.cells (builder.coordinate, record)⟩)
    (hcolumns : state₁.columnRanges = state.columnRanges) :
    Run sharedStrings before (event :: rest) state state' ((builder.coordinate, record) :: records) := by
  have hreads := h.reads
  rw [hcell₁] at hreads
  have hstart : startsCell event = none := by
    cases event with
    | stop => rfl
    | start | empty | text => cases hends
  have hcolumn : hiddenColumns event = none := by
    cases event with
    | stop => rfl
    | start | empty | text => cases hends
  refine ⟨?_, ?_, ?_, ?_, ?_⟩
  · rw [hcell]
    refine ⟨_, records, rfl, ?_, ?_⟩
    · rw [bodyOf, takeWhile_cons_of_neg (by simp [hends]), readBody]
      simp only [foldlM_nil, pure_bind, hrecord]
      rfl
    · rw [cellElements, hstart]
      exact hreads
  · rw [h.cells, hmodel]
    rfl
  · rw [h.ranges, hcolumns, hiddenRanges_cons, hcolumn]
    rfl
  · apply pairwise_cons.mpr
    refine ⟨?_, h.sorted⟩
    intro later hmem
    obtain ⟨row, hstateRow, hsameRow, hcolumn⟩ := hstands.cell builder hcell
    have hlater := h.ahead hcell₁ later hmem
    rw [Ahead, hrow, hstateRow] at hlater
    have hlt := CellCoordinate.order_eq_lt_iff.mp hlater
    apply CellCoordinate.order_eq_lt_iff.mpr
    show builder.coordinate.row < later.1.row ∨ builder.coordinate.row = later.1.row ∧
      builder.coordinate.column < later.1.column
    simp only at hlt
    omega
  · intro hnone
    rw [hcell] at hnone
    cases hnone

theorem WorksheetStep.run (hstep : WorksheetStep sharedStrings state event state₁)
    (hstands : Stands before state)
    (h : Run sharedStrings (before ++ [event]) rest state₁ state' records) :
    ∃ records', Run sharedStrings before (event :: rest) state state' records' := by
  -- an element with this name neither starts nor ends a cell, and leaves an open cell as it is
  have hpassed : ∀ {element : XmlElement} {name : String}, event.element = some element →
      isSpreadsheetElement element name = true → name ∈ ["col", "row", "c"] →
      ∀ builder, state.cell = some builder →
        ∃ builder', state.cell = some builder' ∧ builder.onEvent event = .ok builder' :=
    fun helement hname hmem builder hcell =>
      ⟨builder, hcell, onEvent_of_element helement hname hmem⟩
  cases hstep with
  | @columns _ element range helement hname hrange =>
    have hplain : startsCell event = none ∧ endsCell event = false := by
      have hc := isSpreadsheetElement_ne "c" hname (by decide)
      cases event with
      | start element' =>
        cases helement
        simp [startsCell, endsCell, hc]
      | empty => exact ⟨rfl, rfl⟩
      | text | stop => cases helement
    refine ⟨records, h.cons_other hplain.1 hplain.2 id (hpassed helement hname (by decide)) rfl ?_
      fun _ hahead => hahead⟩
    rw [hiddenColumns_of_col helement hname hrange]
  | @startRow element number hidden hname hnoRow hnoCell hnumber =>
    have hc := isSpreadsheetElement_ne "c" hname (by decide)
    refine ⟨records, h.cons_other (by simp [startsCell, hc]) rfl id
      (hpassed rfl hname (by decide)) rfl ?_ ?_⟩
    · rw [hiddenColumns_of_element rfl hname (by decide)]
      simp
    · intro coordinate hahead
      have hlt := CellCoordinate.order_eq_lt_iff.mp hahead
      have hnumberLt := lt_of_rowNumber hnumber
      rw [Ahead, hnoRow]
      simp only at hlt ⊢
      omega
  | @emptyRow element number hname hnumber =>
    refine ⟨records, h.cons_other rfl rfl id (hpassed rfl hname (by decide)) rfl ?_ ?_⟩
    · rw [hiddenColumns_of_element rfl hname (by decide)]
      simp
    · intro coordinate hahead
      have hnumberLt := lt_of_rowNumber hnumber
      unfold Ahead at hahead ⊢
      cases hrow : state.row with
      | some row =>
        simp only [hrow] at hahead ⊢
        exact hahead
      | none =>
        simp only [hrow] at hahead ⊢
        omega
  | startCell hname hnoCell hrow hcoordinate htype =>
    exact ⟨records, h.startCell hstands hname hnoCell hrow hcoordinate htype rfl rfl rfl⟩
  | @emptyCell element row coordinate processed hname hrow hcoordinate =>
    refine ⟨records, h.cons_other rfl rfl id (hpassed rfl hname (by decide)) rfl ?_ ?_⟩
    · rw [hiddenColumns_of_element rfl hname (by decide)]
      simp
    · intro later hahead
      obtain ⟨hsameRow, hlt⟩ := coordinate_of_nextCoordinate hcoordinate
      have hlater := CellCoordinate.order_eq_lt_iff.mp hahead
      rw [Ahead, hrow]
      apply CellCoordinate.order_eq_lt_iff.mpr
      simp only at hlater ⊢
      omega
  | stopCell hends hcell hrecord =>
    exact ⟨_, h.stopCell hstands hends hcell hrecord rfl rfl rfl rfl⟩
  | @stopRow nameSpace localName hname hnoCell =>
    have hend : endsCell (.stop nameSpace localName) = false := by
      apply Bool.eq_false_of_not_eq_true
      intro hc
      exact absurd (isSpreadsheetName_unique hname hc) (by decide)
    refine ⟨records, h.cons_other rfl hend id ?_ rfl ?_ ?_⟩
    · intro builder hcell
      rw [hnoCell] at hcell
      cases hcell
    · simp [hiddenColumns, XmlEvent.element]
    · intro coordinate hahead
      have hlater : state.lastRow < coordinate.row := hahead
      unfold Ahead
      cases hrow : state.row with
      | some row =>
        have hle := (hstands.row row hrow).2
        apply CellCoordinate.order_eq_lt_iff.mpr
        simp only
        omega
      | none => exact hlater
  | @inCell _ builder builder' hplain hcell hbuilder =>
    obtain ⟨hstart, hend⟩ := startsCell_of_plain hplain
    refine ⟨records, h.cons_other hstart hend ?_ ?_ rfl ?_ fun _ hahead => hahead⟩
    · intro hnone
      rw [hcell] at hnone
      cases hnone
    · intro builder'' hcell''
      rw [hcell] at hcell''
      cases hcell''
      exact ⟨builder', rfl, hbuilder⟩
    · rw [hiddenColumns_of_plain hplain]
      simp
  | outside hplain hcell =>
    obtain ⟨hstart, hend⟩ := startsCell_of_plain hplain
    refine ⟨records, h.cons_other hstart hend id ?_ rfl ?_ fun _ hahead => hahead⟩
    · intro builder hcell'
      rw [hcell] at hcell'
      cases hcell'
    · rw [hiddenColumns_of_plain hplain]
      simp

/-- The parser records the cells that the events have. -/
theorem worksheet_run (hstands : Stands before state)
    (h : events.foldlM (WorksheetState.onEvent sharedStrings) state = .ok state')
    (hend : state'.cell = none) :
    ∃ records, Run sharedStrings before events state state' records := by
  induction events generalizing before state with
  | nil =>
    cases h
    refine ⟨[], ?_, rfl, by simp [hiddenRanges], Pairwise.nil, by simp⟩
    rw [hend]
    rfl
  | cons event rest ih =>
    obtain ⟨next, hfirst, hrest⟩ := foldlM_cons_ok _ h
    have hstep := worksheetStep_of_onEvent hfirst
    obtain ⟨records, hrun⟩ := ih (hstep.stands hstands) hrest
    exact hstep.run hstands hrun

/-! ## §5 Worksheets -/

/-- What the cells hold, and whether their columns are hidden. -/
def recordsOf (ranges : List (ℕ × ℕ)) (records : List (CellCoordinate × Option CellRecord)) :
    List (CellCoordinate × CellRecord) :=
  records.filterMap fun record =>
    record.2.map fun cell => (record.1, hideColumns ranges record.1 cell)

lemma foldl_insertRecord (records : List (CellCoordinate × Option CellRecord))
    (cells : Std.ExtTreeMap CellCoordinate CellRecord CellCoordinate.order) :
    records.foldl insertRecord cells =
      (records.filterMap fun record => record.2.map (record.1, ·)).foldl
        (fun cells entry => cells.insert entry.1 entry.2) cells := by
  induction records generalizing cells with
  | nil => rfl
  | cons record rest ih =>
    obtain ⟨coordinate, cell⟩ := record
    cases cell with
    | none => exact ih cells
    | some cell => exact ih (cells.insert coordinate cell)

/-- The cells of a worksheet, with what they hold. -/
structure WorksheetSays (sharedStrings : Option (List Text)) (content : List XmlEvent)
    (records : List (CellCoordinate × Option CellRecord)) : Prop where
  reads : (cellElements [] content).mapM (CellElement.read sharedStrings) = .ok records
  sorted : RowMajor records

variable {R : XmlReader}

/-- The events a parser went through. -/
theorem eventsFold_of_ofPackage {S : Type} {bytes : Bytes} {budget budget' : R.Budget}
    {initial final : S} {onEvent : S → XmlEvent → Except DocxError S}
    (h : ofPackage (parseXmlEvents R bytes budget initial onEvent) = .ok (final, budget')) :
    (R.events bytes budget).1.foldlM onEvent initial = .ok final := by
  cases hparse : parseXmlEvents R bytes budget initial onEvent with
  | error e =>
    rw [hparse] at h
    cases h
  | ok result =>
    rw [hparse] at h
    cases h
    simp only [parseXmlEvents, bind_ok_iff, pure, Except.pure, Except.ok.injEq,
      Prod.mk.injEq] at hparse
    obtain ⟨state, hfold, -, -, rfl, -⟩ := hparse
    exact hfold

/-- A worksheet that is parsed holds exactly its cells, row by row. -/
theorem parseWorksheet_spec {bytes : Bytes} {budget budget' : R.Budget} {model : WorksheetModel}
    (h : parseWorksheet bytes sharedStrings budget = .ok (model, budget')) :
    ∃ records, WorksheetSays sharedStrings (contentOf (R.events bytes budget).1) records ∧
      model.cells.toList =
        recordsOf (hiddenRanges (contentOf (R.events bytes budget).1)) records := by
  simp only [parseWorksheet, bind_ok_iff, Prod.exists, rejectIf_ok, pure, Except.pure,
    Except.ok.injEq, Prod.mk.injEq] at h
  obtain ⟨rootChecked, state, budget', hparse, -, hclosed, rfl, rfl⟩ := h
  simp only [not_or, Bool.not_eq_false, Bool.not_eq_true, isSome_eq_false_iff,
    isNone_iff_eq_none] at hclosed
  obtain ⟨hroot, -, hcell⟩ := hclosed
  rw [hroot] at hparse
  have hrun := foldlM_afterRoot (eventsFold_of_ofPackage hparse)
  have hstands : Stands [] (⟨⟨∅⟩, 0, none, none, [], 0⟩ : WorksheetState) := by
    refine ⟨rfl, ?_, ?_⟩
    · intro row hrow
      cases hrow
    · intro builder hbuilder
      cases hbuilder
  obtain ⟨records, hreads, hcells, hranges, hsorted, -⟩ := worksheet_run hstands hrun hcell
  refine ⟨records, ⟨hreads, hsorted⟩, ?_⟩
  have hrecorded : KeySorted CellCoordinate.order
      (records.filterMap fun record => record.2.map (record.1, ·)) := by
    apply hsorted.filterMap
    intro a b hlt a' ha b' hb
    obtain ⟨-, -, rfl⟩ := map_eq_some_iff.mp ha
    obtain ⟨-, -, rfl⟩ := map_eq_some_iff.mp hb
    exact hlt
  rw [Std.ExtTreeMap.toList_map, hcells, foldl_insertRecord, toList_foldl_insert hrecorded, hranges,
    nil_append, map_filterMap, recordsOf]
  simp only [Option.map_map]
  rfl

end Kwiry.Excel
