import Mathlib.Algebra.Order.Ring.Rat
import Kwiry.Pdf.LayoutRegions

/-!
# Where the Cells of a Table End Up

The cells of a row are joined by tabs, and readers of the text find a cell's column by the tabs
before it on its line. Normalization trims every line, so the tabs before the first visible
character of a line are lost. A cell is found at its column exactly when the separating tabs that
are lost before it are as many as the tabs of the texts themselves that are counted.
-/

namespace Kwiry.Pdf.Layout

open Foundations List
open Docx (squash squash_append)

/-! ## §1 Tab indices -/

/-- The visible characters of a text, each with the number that a scan has reached before it. -/
def marks {S : Type} (step : S → Char → S) (tabs : S → ℕ) : S → Text → List (Char × ℕ)
  | _, [] => []
  | s, c :: rest =>
    (if Foundations.isWhitespace c then [] else [(c, tabs s)]) ++ marks step tabs (step s c) rest

/-- The tabs on a line, one character further. -/
def countTab (n : ℕ) (c : Char) : ℕ :=
  if c = '\n' then 0 else if c = '\t' then n + 1 else n

/-- The visible characters of a text, each with the tabs before it on its line. -/
def tabIndices (t : Text) : List (Char × ℕ) := marks countTab id 0 t

/-- The tabs that trimming keeps: none before the first visible character of a line. -/
def countKeptTab (s : Option ℕ) (c : Char) : Option ℕ :=
  if c = '\n' then none
  else if c = '\t' then s.map (· + 1)
  else if Foundations.isWhitespace c then s else some (s.getD 0)

def keptIndices (s : Option ℕ) (t : Text) : List (Char × ℕ) := marks countKeptTab (·.getD 0) s t

/-- A scan begins again with every line, and does not see spaces. -/
structure LineScan {S : Type} (step : S → Char → S) (start : S) : Prop where
  feed : ∀ s, step s '\n' = start
  space : ∀ s c, c = ' ' ∨ c = '\u00a0' → step s c = s

lemma countTab_lineScan : LineScan countTab 0 where
  feed _ := rfl
  space s c hc := by rcases hc with rfl | rfl <;> rfl

lemma countKeptTab_lineScan : LineScan countKeptTab none where
  feed _ := rfl
  space s c hc := by rcases hc with rfl | rfl <;> rfl

variable {cell t : Text}

section Marks

variable {S : Type} (step : S → Char → S) (tabs : S → ℕ)

lemma marks_cons_blank (s : S) {c : Char} (hc : Foundations.isWhitespace c = true) (t : Text) :
    marks step tabs s (c :: t) = marks step tabs (step s c) t := by
  rw [marks, if_pos hc, nil_append]

lemma marks_append (s : S) (front t : Text) :
    marks step tabs s (front ++ t) =
      marks step tabs s front ++ marks step tabs (front.foldl step s) t := by
  induction front generalizing s with
  | nil => rfl
  | cons c front ih => rw [cons_append, marks, marks, ih, append_assoc]; rfl

lemma marks_blank (s : S) (ht : ∀ c ∈ t, Foundations.isWhitespace c = true) :
    marks step tabs s t = [] := by
  induction t generalizing s with
  | nil => rfl
  | cons c t ih =>
    obtain ⟨hc, hrest⟩ := forall_mem_cons.mp ht
    rw [marks_cons_blank step tabs s hc, ih _ hrest]

lemma length_marks (s : S) (t : Text) : (marks step tabs s t).length = (squash t).length := by
  induction t generalizing s with
  | nil => rfl
  | cons c t ih =>
    rw [marks, length_append, ih]
    cases hc : Foundations.isWhitespace c
    · simp [squash, hc, Nat.add_comm]
    · simp [squash, hc]

/-- The mark of a visible character is found by what is visible before it. -/
theorem marks_getElem? (s : S) (front rest : Text) {c : Char}
    (hc : Foundations.isWhitespace c = false) :
    (marks step tabs s (front ++ c :: rest))[(squash front).length]? =
      some (c, tabs (front.foldl step s)) := by
  rw [marks_append, getElem?_append_right (length_marks step tabs s front).le, length_marks,
    Nat.sub_self, marks, if_neg (by simp [hc])]
  rfl

variable {step tabs} {start : S}

lemma LineScan.linewise (h : LineScan step start) : Linewise (marks step tabs start) where
  nil := rfl
  feed front t := by
    rw [marks_append, marks_cons_blank step tabs _ rfl, h.feed]
  carriage front := by
    rw [marks_append, marks_cons_blank step tabs _ rfl, marks, append_nil]

lemma LineScan.collapse (h : LineScan step start) (spacing : Bool) (s : S) (t : Text) :
    marks step tabs s (collapse spacing t) = marks step tabs s t := by
  induction t generalizing spacing s with
  | nil => rfl
  | cons c t ih =>
    rw [Layout.collapse]
    split
    · next hc =>
      rw [marks_cons_blank step tabs s (isWhitespace_space hc), h.space s c hc]
      split
      · exact ih true s
      · rw [marks_cons_blank step tabs s rfl, h.space s ' ' (.inl rfl), ih]
    · rw [marks, marks, ih]

end Marks

/-! ## §2 Trimming -/

lemma marks_eq_keptIndices (ht : '\n' ∉ t) (n : ℕ) :
    marks countTab id n t = keptIndices (some n) t := by
  induction t generalizing n with
  | nil => rfl
  | cons c t ih =>
    obtain ⟨hc, hrest⟩ := not_or.mp (mt mem_cons.mpr ht)
    have hstep : countKeptTab (some n) c = some (countTab n c) := by
      unfold countKeptTab countTab
      rw [if_neg (Ne.symm hc), if_neg (Ne.symm hc)]
      split
      · rfl
      · split <;> rfl
    rw [marks, keptIndices, marks, hstep, ih hrest]
    rfl

lemma keptIndices_cons_visible {c : Char} (hc : Foundations.isWhitespace c = false)
    (t : Text) : keptIndices none (c :: t) = keptIndices (some 0) (c :: t) := by
  have hstep : ∀ s, countKeptTab s c = some (s.getD 0) := by
    intro s
    unfold countKeptTab
    rw [if_neg (by rintro rfl; cases hc), if_neg (by rintro rfl; cases hc), if_neg (by simp [hc])]
  rw [keptIndices, keptIndices, marks, marks, hstep, hstep]
  rfl

lemma keptIndices_dropWhile (ht : '\n' ∉ t) :
    keptIndices none (t.dropWhile Foundations.isWhitespace) = keptIndices none t := by
  induction t with
  | nil => rfl
  | cons c t ih =>
    obtain ⟨hc, hrest⟩ := not_or.mp (mt mem_cons.mpr ht)
    rw [dropWhile_cons]
    split
    · next hblank =>
      have hstep : countKeptTab none c = none := by
        unfold countKeptTab
        rw [if_neg (Ne.symm hc), if_pos hblank]
        split <;> rfl
      rw [ih hrest]
      conv_rhs => rw [keptIndices, marks_cons_blank _ _ none hblank, hstep]
      rfl
    · rfl

lemma marks_dropWhile_reverse {S : Type} (step : S → Char → S) (tabs : S → ℕ) (s : S) (t : Text) :
    marks step tabs s (t.reverse.dropWhile Foundations.isWhitespace).reverse =
      marks step tabs s t := by
  have hsplit : t = (t.reverse.dropWhile Foundations.isWhitespace).reverse ++
      (t.reverse.takeWhile Foundations.isWhitespace).reverse := by
    rw [← reverse_append, takeWhile_append_dropWhile, reverse_reverse]
  conv_rhs => rw [hsplit, marks_append]
  rw [marks_blank step tabs _ fun c hc => mem_takeWhile_imp (mem_reverse.mp hc), append_nil]

lemma tabIndices_trim (ht : '\n' ∉ t) : tabIndices (trim t) = keptIndices none t := by
  rw [tabIndices, trim, marks_dropWhile_reverse, ← keptIndices_dropWhile ht]
  have hfree : '\n' ∉ t.dropWhile Foundations.isWhitespace :=
    fun hmem => ht ((dropWhile_sublist _).subset hmem)
  rw [marks_eq_keptIndices hfree]
  cases hdrop : t.dropWhile Foundations.isWhitespace with
  | nil => rfl
  | cons c rest =>
    have hc := head?_dropWhile_not Foundations.isWhitespace t
    rw [hdrop] at hc
    exact (keptIndices_cons_visible hc rest).symm

lemma not_mem_collapse {c : Char} (hc : c ≠ ' ') (spacing : Bool) (ht : c ∉ t) :
    c ∉ collapse spacing t := by
  induction t generalizing spacing with
  | nil => simp [collapse]
  | cons d t ih =>
    obtain ⟨hd, hrest⟩ := not_or.mp (mt mem_cons.mpr ht)
    rw [collapse]
    split
    · split
      · exact ih true hrest
      · exact not_mem_cons_of_ne_of_not_mem hc (ih true hrest)
    · exact not_mem_cons_of_ne_of_not_mem hd (ih false hrest)

lemma tabIndices_normalize (t : Text) : tabIndices (normalize t) = keptIndices none t := by
  have htab : Linewise tabIndices := countTab_lineScan.linewise
  have hkept : Linewise (keptIndices none) := countKeptTab_lineScan.linewise
  refine htab.normalize hkept (fun line hline => ?_) t
  rw [normalizeLine, tabIndices_trim (not_mem_collapse (by decide) false hline)]
  exact countKeptTab_lineScan.collapse false none line

/-! ## §3 What stands before a cell -/

/-- A character before a cell: of the text of a cell, or a separator. -/
inductive Mark where
  | own (c : Char)
  | separator
  deriving DecidableEq

def Mark.char : Mark → Char
  | .own c => c
  | .separator => '\t'

/-- What stands before a cell, from the first visible character of the cell's line on, and what is
before that. -/
structure Standing where
  (unseen seen : List Mark)

def Standing.push (s : Standing) (m : Mark) : Standing :=
  if m.char = '\n' then ⟨s.unseen ++ s.seen ++ [m], []⟩
  else if s.seen.isEmpty ∧ Foundations.isWhitespace m.char then ⟨s.unseen ++ [m], []⟩
  else ⟨s.unseen, s.seen ++ [m]⟩

/-- The separating tabs that are not on the cell's line, or that trimming takes from it. -/
def Standing.lostSeparators (s : Standing) : ℕ := s.unseen.count .separator

/-- The tabs of the cells' own texts that are counted for the cell. -/
def Standing.ownTabs (s : Standing) : ℕ := s.seen.count (.own '\t')

/-- What a row has before a text in one of its cells. -/
def marksBefore (cells : List Text) (j : ℕ) (lead : Text) : List Mark :=
  ((cells.take j).flatMap fun cell => cell.map .own ++ [.separator]) ++ lead.map .own

def standing (cells : List Text) (j : ℕ) (lead : Text) : Standing :=
  (marksBefore cells j lead).foldl .push ⟨[], []⟩

/-- The tabs a scan has kept there. -/
def Standing.kept (s : Standing) : Option ℕ :=
  if s.seen.isEmpty then none else some (s.seen.countP fun m => m.char = '\t')

namespace Standing

lemma push_parts (s : Standing) (m : Mark) :
    (s.push m).unseen ++ (s.push m).seen = s.unseen ++ s.seen ++ [m] := by
  unfold push
  split
  · simp
  · split
    · next hblank => simp [List.isEmpty_iff.mp hblank.1]
    · simp

lemma foldl_parts (ms : List Mark) (s : Standing) :
    (ms.foldl push s).unseen ++ (ms.foldl push s).seen = s.unseen ++ s.seen ++ ms := by
  induction ms generalizing s with
  | nil => rw [foldl_nil, append_nil]
  | cons m ms ih =>
    rw [foldl_cons, ih, push_parts, append_assoc, singleton_append]

lemma kept_push (s : Standing) (m : Mark) : (s.push m).kept = countKeptTab s.kept m.char := by
  unfold push countKeptTab
  split
  · rfl
  · next hfeed =>
    split
    · -- a blank before the line is visible: a tab is as good as a space
      next hblank =>
      have hkept : s.kept = none := if_pos hblank.1
      rw [hkept, if_pos hblank.2]
      split <;> rfl
    · next hseen =>
      have hkept : (⟨s.unseen, s.seen ++ [m]⟩ : Standing).kept =
          some ((s.seen ++ [m]).countP fun m => m.char = '\t') := if_neg (by simp)
      rw [hkept, countP_append, countP_singleton]
      by_cases hempty : s.seen.isEmpty
      · have hvisible : Foundations.isWhitespace m.char = false :=
          Bool.eq_false_iff.mpr fun hm => hseen ⟨hempty, hm⟩
        have htab : m.char ≠ '\t' := fun hm => by rw [hm] at hvisible; cases hvisible
        simp [kept, isEmpty_iff.mp hempty, htab, hvisible]
      · by_cases htab : m.char = '\t'
        · simp [kept, hempty, htab]
        · simp [kept, hempty, htab]

lemma kept_foldl (ms : List Mark) (s : Standing) :
    (ms.foldl push s).kept = (ms.map Mark.char).foldl countKeptTab s.kept := by
  induction ms generalizing s with
  | nil => rfl
  | cons m ms ih => rw [foldl_cons, ih, kept_push]; rfl

lemma kept_getD (s : Standing) : s.kept.getD 0 = s.seen.countP fun m => m.char = '\t' := by
  unfold kept
  split
  · next hempty => rw [isEmpty_iff.mp hempty]; rfl
  · rfl

lemma countP_tab (ms : List Mark) :
    (ms.countP fun m => m.char = '\t') = ms.count .separator + ms.count (.own '\t') := by
  induction ms with
  | nil => rfl
  | cons m ms ih =>
    rw [countP_cons, count_cons, count_cons, ih]
    cases m with
    | separator =>
      rw [if_pos (by rfl), if_pos (by rfl), if_neg (by simp)]
      omega
    | own c =>
      by_cases hc : c = '\t'
      · rw [if_pos (by simp [Mark.char, hc]), if_neg (by simp), if_pos (by simp [hc])]
        omega
      · rw [if_neg (by simp [Mark.char, hc]), if_neg (by simp), if_neg (by simp [hc])]
        omega

end Standing

lemma count_separator_own (t : Text) : (t.map Mark.own).count .separator = 0 := by
  simp [count_eq_zero]

variable {cells : List Text}

lemma count_separator_marksBefore {j : ℕ} (hj : j ≤ cells.length) (lead : Text) :
    (marksBefore cells j lead).count .separator = j := by
  rw [marksBefore, count_append, count_separator_own, Nat.add_zero]
  have hcount : ∀ parts : List Text,
      (parts.flatMap fun cell => cell.map Mark.own ++ [.separator]).count .separator =
        parts.length := by
    intro parts
    induction parts with
    | nil => rfl
    | cons part parts ih =>
      rw [flatMap_cons, count_append, ih, count_append, count_separator_own]
      simp [Nat.add_comm]
  rw [hcount, length_take, Nat.min_eq_left hj]

/-- The tabs kept before a cell are its column's when the separators that are lost are as many as
the tabs of texts that are counted. -/
theorem kept_standing_iff {j : ℕ} (hj : j ≤ cells.length) (lead : Text) :
    (standing cells j lead).kept.getD 0 = j ↔
      (standing cells j lead).lostSeparators = (standing cells j lead).ownTabs := by
  have hparts := Standing.foldl_parts (marksBefore cells j lead) ⟨[], []⟩
  have hcount := congrArg (count Mark.separator) hparts
  rw [count_append, nil_append, nil_append, count_separator_marksBefore hj] at hcount
  rw [Standing.kept_getD, Standing.countP_tab, Standing.lostSeparators, Standing.ownTabs]
  unfold standing
  omega

/-! ## §4 A cell in the text -/

/-- Up to one of the parts, a joined text is each part before it with the separator. -/
theorem joinWith_split (sep : Text) (front : List Text) (part : Text) (back : List Text) :
    ∃ rest, joinWith sep (front ++ part :: back) =
      (front.flatMap fun t => t ++ sep) ++ part ++ rest := by
  induction front with
  | nil =>
    cases back with
    | nil => exact ⟨[], by simp [joinWith]⟩
    | cons next back =>
      exact ⟨sep ++ joinWith sep (next :: back), by
        rw [nil_append, joinWith_cons_cons]
        simp⟩
  | cons first front ih =>
    obtain ⟨rest, hrest⟩ := ih
    refine ⟨rest, ?_⟩
    cases front with
    | nil =>
      rw [nil_append] at hrest
      rw [cons_append, nil_append, joinWith_cons_cons, hrest]
      simp
    | cons second front =>
      rw [cons_append] at hrest
      rw [cons_append, cons_append, joinWith_cons_cons, hrest]
      simp

/-- Only empty cells after a cell that is not empty are left out of a row. -/
theorem dropTrailing_split (front back : List Text) (hcell : cell ≠ []) :
    ∃ back', ((front ++ cell :: back).reverse.dropWhile (· = [])).reverse =
      front ++ cell :: back' := by
  refine ⟨(back.reverse.dropWhile (· = [])).reverse, ?_⟩
  have hreverse : (front ++ cell :: back).reverse = back.reverse ++ (cell :: front.reverse) := by
    simp
  rw [hreverse, dropWhile_append]
  split
  · next hempty =>
    rw [isEmpty_iff.mp hempty]
    simp [hcell]
  · simp

lemma squash_blank (ht : ∀ c ∈ t, Foundations.isWhitespace c = true) : squash t = [] := by
  simp only [squash, filter_eq_nil_iff]
  intro c hc
  simp [ht c hc]

lemma squash_parts {sep : Text} (hsep : ∀ c ∈ sep, Foundations.isWhitespace c = true)
    (parts : List Text) : squash (parts.flatMap fun t => t ++ sep) = squash parts.flatten := by
  induction parts with
  | nil => rfl
  | cons part parts ih =>
    rw [flatMap_cons, flatten_cons, squash_append, squash_append, squash_append, ih,
      squash_blank hsep, append_nil]

/-- A scan begins again after parts that each end with a line feed. -/
theorem LineScan.foldl_parts {S : Type} {step : S → Char → S} {start : S}
    (h : LineScan step start) (sep : Text) (parts : List Text) :
    (parts.flatMap fun t => t ++ (sep ++ ['\n'])).foldl step start = start := by
  induction parts with
  | nil => rfl
  | cons part parts ih =>
    rw [flatMap_cons, foldl_append, foldl_append, foldl_append, foldl_cons, foldl_nil, h.feed, ih]

lemma map_char_marksBefore (cells : List Text) (j : ℕ) (lead : Text) :
    (marksBefore cells j lead).map Mark.char =
      ((cells.take j).flatMap fun cell => cell ++ ['\t']) ++ lead := by
  have hown : ∀ t : Text, (t.map Mark.own).map Mark.char = t := by
    intro t
    rw [map_map]
    exact map_id t
  rw [marksBefore, map_append, hown, map_flatMap]
  congr 2
  funext cell
  rw [map_append, hown]
  rfl

section Tables

variable {F : Type} [Coordinates F]

/-- What is written before a cell's first visible character `c`, and how it goes on. -/
def VisibleAt (columns : Columns F) (line : Line F) (j : ℕ) (lead : Text) (c : Char) : Prop :=
  (∃ rest, (tableCells columns line)[j]? = some (lead ++ c :: rest)) ∧
    (∀ d ∈ lead, Foundations.isWhitespace d = true) ∧ Foundations.isWhitespace c = false

/-- How many visible characters are written before a cell, after blocks and rows. -/
def placeOf (before : List Text) (above : List (Line F)) (columns : Columns F) (line : Line F)
    (j : ℕ) : ℕ :=
  (squash (before ++ above.map (tableRow columns) ++
    (tableCells columns line).take j).flatten).length

/-- Every cell of a table that follows some blocks is at its column's tab index. -/
def CellsAligned (text : Text) (before : List Text) (lines : List (Line F))
    (columns : Columns F) : Prop :=
  ∀ above line below, lines = above ++ line :: below →
    ∀ j lead c, VisibleAt columns line j lead c →
      (tabIndices text)[placeOf before above columns line j]? = some (c, j)

/-- A row up to a cell that is not empty. -/
theorem tableRow_split {columns : Columns F} {line : Line F} {j : ℕ}
    (hcell : (tableCells columns line)[j]? = some cell) (hne : cell ≠ []) :
    ∃ rest, tableRow columns line =
      (((tableCells columns line).take j).flatMap fun t => t ++ ['\t']) ++ cell ++ rest := by
  obtain ⟨hj, rfl⟩ := List.getElem?_eq_some_iff.mp hcell
  have hcells : tableCells columns line = (tableCells columns line).take j ++
      (tableCells columns line)[j] :: (tableCells columns line).drop (j + 1) := by simp
  obtain ⟨back, hback⟩ := dropTrailing_split ((tableCells columns line).take j)
    ((tableCells columns line).drop (j + 1)) hne
  rw [← hcells] at hback
  rw [tableRow, hback]
  exact joinWith_split ['\t'] _ _ back

section

variable {columns : Columns F} {line : Line F} {j : ℕ} {lead : Text} {c : Char}
  (before after : List Text) (above below : List (Line F)) (hcell : VisibleAt columns line j lead c)

include hcell

/-- The tab index of a cell in a text of blocks, one of them its table. -/
theorem tabIndices_cell :
    (tabIndices (normalize (joinWith ['\n', '\n']
        (before ++ renderTable (above ++ line :: below) columns :: after))))[placeOf before above
          columns line j]? =
      some (c, (standing (tableCells columns line) j lead).kept.getD 0) := by
  obtain ⟨⟨rest, hget⟩, hlead, hc⟩ := hcell
  obtain ⟨rowRest, hrow⟩ := tableRow_split hget (by simp)
  obtain ⟨tableRest, htable⟩ := joinWith_split ['\n'] (above.map (tableRow columns))
    (tableRow columns line) (below.map (tableRow columns))
  obtain ⟨textRest, htext⟩ := joinWith_split ['\n', '\n'] before
    (renderTable (above ++ line :: below) columns) after
  have hrender : renderTable (above ++ line :: below) columns =
      joinWith ['\n'] (above.map (tableRow columns) ++ tableRow columns line ::
        below.map (tableRow columns)) := by
    rw [renderTable, map_append, map_cons]
  -- the text up to the character, in blocks, rows and the row's own part
  let blocksPart := before.flatMap fun t => t ++ ['\n', '\n']
  let rowsPart := (above.map (tableRow columns)).flatMap fun t => t ++ ['\n']
  let rowPart := (((tableCells columns line).take j).flatMap fun t => t ++ ['\t']) ++ lead
  have hsplit : joinWith ['\n', '\n']
      (before ++ renderTable (above ++ line :: below) columns :: after) =
        (blocksPart ++ rowsPart ++ rowPart) ++ c :: (rest ++ rowRest ++ tableRest ++ textRest) := by
    rw [htext, hrender, htable, hrow]
    simp [blocksPart, rowsPart, rowPart]
  have hplace : placeOf before above columns line j =
      (squash (blocksPart ++ rowsPart ++ rowPart)).length := by
    rw [placeOf, flatten_append, flatten_append, squash_append, squash_append,
      squash_append, squash_append, squash_append, squash_blank hlead, append_nil,
      squash_parts (by decide), squash_parts (by decide), squash_parts (by decide)]
  have hstate : (blocksPart ++ rowsPart ++ rowPart).foldl countKeptTab none =
      (standing (tableCells columns line) j lead).kept := by
    have hblocks : blocksPart.foldl countKeptTab none = none :=
      countKeptTab_lineScan.foldl_parts ['\n'] before
    have hrows : rowsPart.foldl countKeptTab none = none :=
      countKeptTab_lineScan.foldl_parts [] (above.map (tableRow columns))
    have hfront : (blocksPart ++ rowsPart).foldl countKeptTab none = none := by
      rw [foldl_append, hblocks, hrows]
    rw [foldl_append, hfront, standing, Standing.kept_foldl, map_char_marksBefore]
    rfl
  rw [tabIndices_normalize, hsplit, hplace, keptIndices,
    marks_getElem? countKeptTab _ none _ _ hc, hstate]

/-- A cell is at its column's tab index when the separators lost before it are as many as the tabs
of texts that are counted. -/
theorem cell_aligned_iff :
    (tabIndices (normalize (joinWith ['\n', '\n']
        (before ++ renderTable (above ++ line :: below) columns :: after))))[placeOf before above
          columns line j]? = some (c, j) ↔
      (standing (tableCells columns line) j lead).lostSeparators =
        (standing (tableCells columns line) j lead).ownTabs := by
  obtain ⟨rest, hget⟩ := hcell.1
  obtain ⟨hj, -⟩ := List.getElem?_eq_some_iff.mp hget
  rw [tabIndices_cell before after above below hcell, ← kept_standing_iff hj.le lead]
  simp

end

/-! ## §5 The columns of a table -/

/-! Without line feeds the cell's line is the whole row, and what is lost are the blanks it begins
with. -/

lemma Standing.foldl_push_seen {ms : List Mark} (hms : ∀ m ∈ ms, m.char ≠ '\n')
    {unseen seen : List Mark} (hseen : seen ≠ []) :
    ms.foldl Standing.push ⟨unseen, seen⟩ = ⟨unseen, seen ++ ms⟩ := by
  induction ms generalizing seen with
  | nil => rw [foldl_nil, append_nil]
  | cons m ms ih =>
    obtain ⟨hm, hrest⟩ := forall_mem_cons.mp hms
    rw [foldl_cons, Standing.push, if_neg hm, if_neg (by simp [hseen]), ih hrest (by simp),
      append_assoc, singleton_append]

lemma Standing.foldl_push_line {ms : List Mark} (hms : ∀ m ∈ ms, m.char ≠ '\n')
    (unseen : List Mark) :
    (ms.foldl Standing.push ⟨unseen, []⟩).unseen =
      unseen ++ ms.takeWhile fun m => Foundations.isWhitespace m.char := by
  induction ms generalizing unseen with
  | nil => rw [foldl_nil, takeWhile_nil, append_nil]
  | cons m ms ih =>
    obtain ⟨hm, hrest⟩ := forall_mem_cons.mp hms
    rw [foldl_cons, Standing.push, if_neg hm]
    cases hblank : Foundations.isWhitespace m.char
    · rw [if_neg (by simp), Standing.foldl_push_seen hrest (by simp),
        takeWhile_cons_of_neg (by simp [hblank]), append_nil]
    · rw [if_pos (by simp), ih hrest, takeWhile_cons_of_pos (by simp [hblank]),
        List.append_assoc, singleton_append]

lemma mem_marksBefore {j : ℕ} {lead : Text} {m : Mark} (hm : m ∈ marksBefore cells j lead) :
    m = .separator ∨ ∃ cell ∈ lead :: cells, ∃ c ∈ cell, m = .own c := by
  rcases mem_append.mp hm with hcells | hlead
  · obtain ⟨cell, hcell, hmem⟩ := mem_flatMap.mp hcells
    rcases mem_append.mp hmem with hown | hseparator
    · obtain ⟨c, hc, rfl⟩ := mem_map.mp hown
      exact .inr ⟨cell, mem_cons_of_mem _ (mem_of_mem_take hcell), c, hc, rfl⟩
    · exact .inl (mem_singleton.mp hseparator)
  · obtain ⟨c, hc, rfl⟩ := mem_map.mp hlead
    exact .inr ⟨lead, mem_cons_self, c, hc, rfl⟩

/-- Texts without tabs and line feeds lose no separator exactly in the first column and after a
first cell that is visible. -/
theorem standing_plain {first : Text} {rest : List Text} {j : ℕ} {lead : Text}
    (hplain : ∀ cell ∈ lead :: first :: rest, '\t' ∉ cell ∧ '\n' ∉ cell) :
    (standing (first :: rest) j lead).lostSeparators =
        (standing (first :: rest) j lead).ownTabs ↔
      j = 0 ∨ ∃ c ∈ first, Foundations.isWhitespace c = false := by
  have hparts := Standing.foldl_parts (marksBefore (first :: rest) j lead) ⟨[], []⟩
  rw [nil_append, nil_append] at hparts
  have hfeed : ∀ m ∈ marksBefore (first :: rest) j lead, m.char ≠ '\n' := by
    intro m hm
    rcases mem_marksBefore hm with rfl | ⟨cell, hcell, c, hc, rfl⟩
    · simp [Mark.char]
    · intro hnewline
      exact (hplain cell hcell).2 (hnewline ▸ hc)
  have hown : (standing (first :: rest) j lead).ownTabs = 0 := by
    refine count_eq_zero.mpr fun htab => ?_
    have hmem : Mark.own '\t' ∈ marksBefore (first :: rest) j lead :=
      hparts ▸ mem_append_right _ htab
    rcases mem_marksBefore hmem with hseparator | ⟨cell, hcell, c, hc, hchar⟩
    · cases hseparator
    · cases hchar
      exact (hplain cell hcell).1 hc
  rw [hown, Standing.lostSeparators, standing, Standing.foldl_push_line hfeed, nil_append]
  cases j with
  | zero =>
    have hlead : ((marksBefore (first :: rest) 0 lead).takeWhile fun m =>
        Foundations.isWhitespace m.char).count .separator = 0 := by
      have hle := (takeWhile_sublist (l := marksBefore (first :: rest) 0 lead)
        fun m => Foundations.isWhitespace m.char).count_le .separator
      rw [count_separator_marksBefore (Nat.zero_le _)] at hle
      exact Nat.le_zero.mp hle
    simp [hlead]
  | succ j =>
    have hmarks : marksBefore (first :: rest) (j + 1) lead =
        first.map .own ++ .separator :: marksBefore rest j lead := by
      simp [marksBefore]
    rw [hmarks, takeWhile_append]
    split
    · next hall =>
      -- the first cell is blank, so the tab after it is lost
      have hblank : ∀ c ∈ first, Foundations.isWhitespace c = true := by
        have htake := takeWhile_eq_self_iff.mp ((List.takeWhile_prefix _).eq_of_length hall)
        intro c hc
        exact htake (.own c) (mem_map_of_mem hc)
      have hnone : ¬ ∃ c ∈ first, Foundations.isWhitespace c = false := by
        intro hsome
        obtain ⟨c, hc, hvisible⟩ := hsome
        rw [hblank c hc] at hvisible
        cases hvisible
      rw [takeWhile_cons_of_pos (by rfl)]
      simp [hnone]
    · next hsome =>
      have hvisible : ∃ c ∈ first, Foundations.isWhitespace c = false := by
        by_contra hnone
        refine hsome (congrArg length (takeWhile_eq_self_iff.mpr ?_))
        intro m hm
        obtain ⟨c, hc, rfl⟩ := mem_map.mp hm
        exact Bool.of_not_eq_false fun hfalse => hnone ⟨c, hc, hfalse⟩
      have hcount := (takeWhile_sublist (l := first.map Mark.own)
        fun m => Foundations.isWhitespace m.char).count_le .separator
      rw [count_separator_own] at hcount
      simp [hvisible, Nat.le_zero.mp hcount]

/-- A cell of a row without tabs and line feeds in its texts loses no separator exactly in the first
column and when the row's first cell is visible. -/
theorem visibleAt_plain {columns : Columns F} {line : Line F} {j : ℕ} {lead : Text} {c : Char}
    (hcell : VisibleAt columns line j lead c)
    (hplain : ∀ cell ∈ tableCells columns line, '\t' ∉ cell ∧ '\n' ∉ cell) :
    (standing (tableCells columns line) j lead).lostSeparators =
        (standing (tableCells columns line) j lead).ownTabs ↔
      j = 0 ∨ ∃ first d, VisibleAt columns line 0 first d := by
  obtain ⟨⟨rest, hget⟩, -, -⟩ := hcell
  have hmem := mem_of_getElem? hget
  cases hcells : tableCells columns line with
  | nil =>
    rw [hcells] at hmem
    cases hmem
  | cons first others =>
    have hlead : '\t' ∉ lead ∧ '\n' ∉ lead :=
      ⟨fun htab => (hplain _ hmem).1 (mem_append_left _ htab),
        fun hfeed => (hplain _ hmem).2 (mem_append_left _ hfeed)⟩
    rw [standing_plain (forall_mem_cons.mpr ⟨hlead, hcells ▸ hplain⟩)]
    refine or_congr_right ⟨fun hvisible => ?_, fun hvisible => ?_⟩
    · -- the first visible character of the first cell
      have hdrop : first.dropWhile Foundations.isWhitespace ≠ [] := by
        intro hnil
        obtain ⟨d, hd, hfalse⟩ := hvisible
        rw [dropWhile_eq_nil_iff.mp hnil d hd] at hfalse
        cases hfalse
      obtain ⟨d, tail, hsplit⟩ := exists_cons_of_ne_nil hdrop
      have hd := head?_dropWhile_not Foundations.isWhitespace first
      rw [hsplit] at hd
      refine ⟨first.takeWhile Foundations.isWhitespace, d, ⟨tail, ?_⟩,
        fun e he => mem_takeWhile_imp he, hd⟩
      rw [hcells, ← hsplit, takeWhile_append_dropWhile]
      rfl
    · obtain ⟨front, d, ⟨tail, hfirst⟩, -, hd⟩ := hvisible
      rw [hcells] at hfirst
      cases hfirst
      exact ⟨d, by simp, hd⟩

/-- The text of a page with items is its region's, and what is placed after it. -/
theorem composePage_eq_cut {page : PageGeometry F} (h : (collect page).1 ≠ []) :
    (composePage page).text = normalize (joinWith ['\n', '\n'] ([] ++
      cut maxCutDepth (collect page).1 ++
      if (collect page).2 = [] then [] else [joinWith ['\n'] (collect page).2])) := by
  rw [composePage]
  simp only [if_neg h, nil_append]

/-- The cells of a table that a region is cut into are at their columns' tab indices exactly when,
before every cell, as many separating tabs are lost as tabs of the cells' texts are counted. Where
the texts have no tabs and no line feeds, these are the tables whose every row with a visible cell
has a visible first cell or none after it. What the page has before and after the region does not
matter. -/
theorem cellsAligned_iff {depth : ℕ} {region : List (Item F)} {earlier later : List (Block F)}
    {lines : List (Line F)} {columns : Columns F}
    (h : blocks depth region = earlier ++ .table lines columns :: later)
    (before after : List Text) :
    (CellsAligned (normalize (joinWith ['\n', '\n'] (before ++ cut depth region ++ after)))
        (before ++ earlier.map Block.render) lines columns ↔
      ∀ line ∈ lines, ∀ j lead c, VisibleAt columns line j lead c →
        (standing (tableCells columns line) j lead).lostSeparators =
          (standing (tableCells columns line) j lead).ownTabs) ∧
    ((∀ line ∈ lines, ∀ cell ∈ tableCells columns line, '\t' ∉ cell ∧ '\n' ∉ cell) →
      (CellsAligned (normalize (joinWith ['\n', '\n'] (before ++ cut depth region ++ after)))
          (before ++ earlier.map Block.render) lines columns ↔
        ∀ line ∈ lines, ∀ j lead c, VisibleAt columns line j lead c →
          j = 0 ∨ ∃ first d, VisibleAt columns line 0 first d)) := by
  have hcut : before ++ cut depth region ++ after = (before ++ earlier.map Block.render) ++
      renderTable lines columns :: (later.map Block.render ++ after) := by
    rw [cut_eq_blocks, h]
    simp [Block.render]
  have hall : CellsAligned (normalize (joinWith ['\n', '\n'] (before ++ cut depth region ++ after)))
        (before ++ earlier.map Block.render) lines columns ↔
      ∀ line ∈ lines, ∀ j lead c, VisibleAt columns line j lead c →
        (standing (tableCells columns line) j lead).lostSeparators =
          (standing (tableCells columns line) j lead).ownTabs := by
    rw [hcut]
    constructor
    · intro haligned line hline j lead c hcell
      obtain ⟨above, below, rfl⟩ := append_of_mem hline
      rw [← cell_aligned_iff _ _ above below hcell]
      exact haligned above line below rfl j lead c hcell
    · intro hcounts above line below hlines j lead c hcell
      subst hlines
      rw [cell_aligned_iff _ _ above below hcell]
      exact hcounts line (by simp) j lead c hcell
  refine ⟨hall, fun hplain => hall.trans ⟨fun hcounts => ?_, fun hfirst => ?_⟩⟩
  · intro line hline j lead c hcell
    rw [← visibleAt_plain hcell (hplain line hline)]
    exact hcounts line hline j lead c hcell
  · intro line hline j lead c hcell
    rw [visibleAt_plain hcell (hplain line hline)]
    exact hfirst line hline j lead c hcell

end Tables

/-! ## §6 A row without a label -/

/-- Fractions, on which the comparisons of coordinates are exact. -/
@[reducible]
def fractions : Coordinates ℚ where
  ofInt n := n
  toInt a := a.floor
  isFinite _ := true
  le a b := a ≤ b
  min a b := if a ≤ b then a else b
  max a b := if a ≤ b then b else a
  abs a := if 0 ≤ a then a else -a
  totalCmp a b := if a < b then .lt else if a = b then .eq else .gt
  infinity := 1000000000

/-- Ten-point text whose glyphs are half as wide. -/
def billRun (x y : ℕ) (text : String) : TextRun ℚ where
  text := text.toList
  origin := (x, y)
  endpoint := (x + 5 * text.length, y)
  advanceDirection := (1, 0)
  fontSize := 10
  rise := 0
  renderMode := 0
  vertical := false
  geometryExact := true

/-- Three columns, and a last row of sums without a name. -/
def bill : PageGeometry ℚ where
  runs :=
    [billRun 72 92 "Name", billRun 200 92 "Qty", billRun 330 92 "Price",
      billRun 72 106 "gadget", billRun 200 106 "7", billRun 330 106 "11.25",
      billRun 72 120 "bolt", billRun 200 120 "9", billRun 330 120 "0.75",
      billRun 200 134 "16", billRun 330 134 "12.00"]

section Bill

attribute [local instance] fractions

def billLines : List (Line ℚ) := assembleLines (collect bill).1

def billColumns : Columns ℚ := (columns (collect bill).1 billLines.length).getD ⟨[], []⟩

lemma bill_blocks : blocks maxCutDepth (collect bill).1 = [.table billLines billColumns] := by
  decide +kernel

/-- The row of sums. -/
def billSums : Line ℚ := billLines.getD 3 ⟨[], 0, 0, 0, 0⟩

/-- Before the first sum stands no tab, although it is in the second column. -/
theorem bill_not_aligned :
    (composePage bill).text =
        "Name\tQty\tPrice\ngadget\t7\t11.25\nbolt\t9\t0.75\n16\t12.00".toList ∧
      blocks maxCutDepth (collect bill).1 = [.table billLines billColumns] ∧
      ¬ CellsAligned (composePage bill).text [] billLines billColumns := by
  refine ⟨by decide +kernel, bill_blocks, fun haligned => ?_⟩
  have hrows : billLines = billLines.take 3 ++ billSums :: [] := by decide +kernel
  have hcell : VisibleAt billColumns billSums 1 [] '1' :=
    ⟨⟨['6'], by decide +kernel⟩, by simp, rfl⟩
  have hindex := haligned (billLines.take 3) billSums [] hrows 1 [] '1' hcell
  revert hindex
  decide +kernel

theorem cellsAligned_iff_bill :
    CellsAligned (composePage bill).text [] billLines billColumns ↔
      ∀ line ∈ billLines, ∀ j lead c, VisibleAt billColumns line j lead c →
        (standing (tableCells billColumns line) j lead).lostSeparators =
          (standing (tableCells billColumns line) j lead).ownTabs := by
  rw [composePage_eq_cut (by decide +kernel)]
  exact (cellsAligned_iff (show blocks maxCutDepth (collect bill).1 =
    [] ++ .table billLines billColumns :: [] from bill_blocks) [] _).1

end Bill

end Kwiry.Pdf.Layout
