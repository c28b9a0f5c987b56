import Mathlib.Data.List.Perm.Basic
import Kwiry.Docx.StoryPlaces
import Kwiry.Pdf.LayoutLines

/-!
# What a Page's Text Keeps

However a page is cut, its text has every run exactly once, and the runs of different lines, cells
and regions are never fused. The geometry only decides how the runs are grouped: nothing is used
of the coordinates' arithmetic.

A group is the runs of one line of a block, of one cell of a row, or one run outside the reading
order. The words of the page are those of its groups, one group after the other.
-/

namespace Kwiry.Pdf.Layout

open Foundations List
open Docx (squash squash_append)

section Regions

variable {F : Type} [Coordinates F]

/-! ## §1 Groups of runs -/

/-- What a region comes to: lines that follow each other, or the rows of a table. -/
inductive Block (F : Type) where
  | block (lines : List (Line F))
  | table (lines : List (Line F)) (columns : Columns F)
  deriving DecidableEq

def Block.render : Block F → Text
  | .block lines => renderBlock lines
  | .table lines columns => renderTable lines columns

/-- Runs that are written together, and what is written. -/
structure Group where
  texts : List Text
  text : Text

def lineGroup (line : Line F) (members : List (Item F)) : Group :=
  ⟨members.map Item.text, renderMembers members line⟩

/-- The members of a line in one of the columns. -/
def cellMembers (columns : Columns F) (line : Line F) (child : ℕ) : List (Item F) :=
  line.members.filter fun item => columns.childOf item.x0 = child

/-- One group for each line of a block and for each cell of a table. -/
def Block.groups : Block F → List Group
  | .block lines => lines.map fun line => lineGroup line line.members
  | .table lines columns => lines.flatMap fun line =>
      (range columns.children.length).map fun child =>
        lineGroup line (cellMembers columns line child)

/-- The blocks of a region, before they are written; the number is the depth that is left. -/
def blocks : ℕ → List (Item F) → List (Block F)
  | 0, region => [.block (assembleLines region)]
  | depth + 1, region =>
    if (assembleLines region).length ≤ 1 then [.block (assembleLines region)]
    else
      match columns region (assembleLines region).length with
      | some columns =>
        if isTable (assembleLines region) columns then [.table (assembleLines region) columns]
        else columns.children.flatMap (blocks depth)
      | none =>
        match horizontalSplit (assembleLines region) with
        | some (upper, lower) => blocks depth upper ++ blocks depth lower
        | none => [.block (assembleLines region)]

/-- The groups of a page: those of its blocks, and each run outside the reading order. -/
def pageGroups (page : PageGeometry F) : List Group :=
  (if (collect page).1 = [] then []
    else (blocks maxCutDepth (collect page).1).flatMap Block.groups) ++
    (collect page).2.map fun text => ⟨[text], text⟩

lemma cut_eq_blocks (depth : ℕ) (region : List (Item F)) :
    cut depth region = (blocks depth region).map Block.render := by
  induction depth generalizing region with
  | zero => rfl
  | succ depth ih =>
    rw [cut, blocks]
    split
    · rfl
    · cases hcolumns : columns region (assembleLines region).length with
      | some columns =>
        by_cases htable : isTable (assembleLines region) columns = true
        · simp only [htable, if_true]
          rfl
        · simp only [htable]
          rw [if_neg (by simp), if_neg (by simp), map_flatMap]
          exact flatMap_congr fun child _ => ih child
      | none =>
        cases hsplit : horizontalSplit (assembleLines region) with
        | some halves =>
          obtain ⟨upper, lower⟩ := halves
          simp only
          rw [map_append, ih, ih]
        | none => rfl

/-! ## §2 Words of blocks -/

lemma splitWhitespace_renderLinesAfter (leading left : F) (previous : Line F)
    (rest : List (Line F)) (front : Text) :
    splitWhitespace (front ++ renderLinesAfter leading left previous rest) =
      splitWhitespace front ++
        rest.flatMap fun line => splitWhitespace (renderMembers line.members line) := by
  induction rest generalizing previous front with
  | nil => simp [renderLinesAfter]
  | cons line rest ih =>
    have hline := ih line (renderMembers line.members line)
    rw [renderLinesAfter, flatMap_cons, ← hline, append_assoc]
    split
    · rw [cons_append, splitWhitespace_append rfl, singleton_append, splitWhitespace_cons rfl]
    · rw [singleton_append, splitWhitespace_append rfl]

lemma splitWhitespace_renderBlock (lines : List (Line F)) :
    splitWhitespace (renderBlock lines) =
      lines.flatMap fun line => splitWhitespace (renderMembers line.members line) := by
  cases lines with
  | nil => rfl
  | cons first rest => exact splitWhitespace_renderLinesAfter _ _ first rest _

lemma splitWhitespace_tableRow (columns : Columns F) (line : Line F) :
    splitWhitespace (tableRow columns line) =
      (tableCells columns line).flatMap splitWhitespace := by
  rw [tableRow, splitWhitespace_joinWith (by simp) (by decide),
    flatMap_dropLast_empty splitWhitespace_nil]

lemma splitWhitespace_render (block : Block F) :
    splitWhitespace block.render = block.groups.flatMap fun g => splitWhitespace g.text := by
  cases block with
  | block lines =>
    rw [Block.render, splitWhitespace_renderBlock, Block.groups, flatMap_map]
    rfl
  | table lines columns =>
    rw [Block.render, renderTable, splitWhitespace_joinWith (by simp) (by decide), Block.groups,
      flatMap_map, flatMap_assoc]
    refine flatMap_congr fun line _ => ?_
    rw [splitWhitespace_tableRow, tableCells, flatMap_map, flatMap_map]
    rfl

lemma squash_renderMembers (line : Line F) (members : List (Item F)) :
    squash (renderMembers members line) = members.flatMap fun item => squash item.text := by
  have hafter : ∀ (rest : List (Item F)) (previous : Item F),
      squash (renderAfter line previous rest) = rest.flatMap fun item => squash item.text := by
    intro rest
    induction rest with
    | nil => exact fun _ => rfl
    | cons next rest ih =>
      intro previous
      rw [renderAfter, squash_append, squash_append, ih, flatMap_cons]
      split <;> rfl
  cases members with
  | nil => rfl
  | cons first rest => rw [renderMembers, squash_append, hafter, flatMap_cons]

/-! ## §3 Partitions -/

lemma placeItem_members (lines : List (Line F)) (item : Item F) :
    (placeItem lines item).flatMap Line.members = lines.flatMap Line.members ++ [item] := by
  unfold placeItem
  split
  · next line hlast =>
    split
    · conv_rhs => rw [← dropLast_append_getLast? line hlast]
      simp [Line.extend]
    · simp [Line.start]
  · simp [Line.start]

lemma assembleLines_members (region : List (Item F)) :
    ((assembleLines region).flatMap Line.members).Perm region := by
  have hplaced : ∀ (items : List (Item F)) (lines : List (Line F)),
      (items.foldl placeItem lines).flatMap Line.members = lines.flatMap Line.members ++ items := by
    intro items
    induction items with
    | nil => simp
    | cons item rest ih =>
      intro lines
      rw [foldl_cons, ih, placeItem_members, append_assoc, singleton_append]
  have hsorted : ∀ lines : List (Line F),
      ((lines.map Line.sorted).flatMap Line.members).Perm (lines.flatMap Line.members) := by
    intro lines
    induction lines with
    | nil => exact .refl _
    | cons line rest ih => exact (sortBy_perm byLeft line.members).append ih
  refine (hsorted _).trans ?_
  rw [hplaced, flatMap_nil, nil_append]
  exact sortBy_perm byBaseline region

variable {lower region upper : List (Item F)}

lemma assembleLines_ne_nil {line : Line F} (h : line ∈ assembleLines region) :
    line.members ≠ [] := by
  have hplaced : ∀ (items : List (Item F)) (lines : List (Line F)),
      (∀ line ∈ lines, line.members ≠ []) →
        ∀ line ∈ items.foldl placeItem lines, line.members ≠ [] := by
    intro items
    induction items with
    | nil => exact fun _ hlines => hlines
    | cons item rest ih =>
      intro lines hlines
      refine ih _ fun placed hplaced => ?_
      unfold placeItem at hplaced
      split at hplaced
      · next last hlast =>
        split at hplaced
        · rcases mem_append.mp hplaced with hfront | hend
          · exact hlines placed (dropLast_subset _ hfront)
          · rw [mem_singleton.mp hend]
            simp [Line.extend]
        · rcases mem_append.mp hplaced with hfront | hend
          · exact hlines placed hfront
          · rw [mem_singleton.mp hend]
            simp [Line.start]
      · rcases mem_append.mp hplaced with hfront | hend
        · exact hlines placed hfront
        · rw [mem_singleton.mp hend]
          simp [Line.start]
  obtain ⟨placed, hmem, rfl⟩ := mem_map.mp h
  have hne := hplaced _ [] (by simp) placed hmem
  intro hnil
  have hlength := (sortBy_perm byLeft placed.members).length_eq
  rw [show sortBy byLeft placed.members = [] from hnil] at hlength
  exact hne (eq_nil_of_length_eq_zero hlength.symm)

/-- The children of a region have each of its items once, and none is empty. -/
theorem columns_spec {bands : ℕ} {cols : Columns F} (h : columns region bands = some cols) :
    cols.children.flatten.Perm region ∧ 2 ≤ cols.children.length ∧
      ∀ child ∈ cols.children, child ≠ [] := by
  unfold columns at h
  split at h
  · cases h
  · split at h
    · cases h
    · next first rest _ =>
      simp only at h
      generalize corridorsFrom _ first.2 rest = corridors at h
      split at h
      · cases h
      · next hcorridors =>
        split at h
        · cases h
        · next hempty =>
          simp only [Option.some.injEq] at h
          subst h
          have hbelow : ∀ item ∈ region, corridorsBefore corridors item.x0 < corridors.length + 1 :=
            fun item _ => Nat.lt_succ_of_le (length_filter_le _ _)
          refine ⟨?_, ?_, ?_⟩
          · rw [← flatMap_def]
            exact perm_flatMap_classes hbelow
          · have hpos := length_pos_iff.mpr (not_or.mp hcorridors).1
            simp only [length_map, length_range]
            omega
          · intro child hchild hnil
            refine hempty (any_eq_true.mpr ⟨child, hchild, ?_⟩)
            rw [hnil]
            rfl

/-- The cells of a row have each of its items once. -/
theorem cellMembers_perm (columns : Columns F) (line : Line F)
    (hchildren : 0 < columns.children.length) :
    ((range columns.children.length).flatMap (cellMembers columns line)).Perm
      line.members := by
  refine perm_flatMap_classes fun item _ => ?_
  have hle := Nat.min_le_right (corridorsBefore columns.corridors item.x0)
    (columns.children.length - 1)
  exact Nat.lt_of_le_of_lt hle (Nat.sub_lt hchildren Nat.one_pos)

variable {lines : List (Line F)}

/-- The halves of a region are its lines above and below a gap. -/
theorem horizontalSplit_spec (h : horizontalSplit lines = some (upper, lower)) :
    ∃ n, 0 < n ∧ n < lines.length ∧ upper = (lines.take n).flatMap Line.members ∧
      lower = (lines.drop n).flatMap Line.members := by
  unfold horizontalSplit at h
  split at h
  · cases h
  · simp only at h
    split at h
    · cases h
    · split at h
      · cases h
      · next widest position hmax =>
        split at h
        · cases h
        · simp only [Option.some.injEq, Prod.mk.injEq] at h
          obtain ⟨rfl, rfl⟩ := h
          have hlt : position < (deltas lines).length + 0 :=
            snd_lt_of_mem_zipIdx (mem_of_maxBy hmax)
          rw [deltas, length_zipWith, length_tail] at hlt
          exact ⟨position + 1, Nat.succ_pos _, by omega, rfl, rfl⟩

lemma horizontalSplit_perm (h : horizontalSplit lines = some (upper, lower)) :
    upper ++ lower = lines.flatMap Line.members := by
  obtain ⟨n, _, _, rfl, rfl⟩ := horizontalSplit_spec h
  rw [← flatMap_append, take_append_drop]

/-! ## §4 Cutting ends -/

/-- A region is cut into columns or halves, and this is one of them. -/
def Cuts (region child : List (Item F)) : Prop :=
  1 < (assembleLines region).length ∧
    ((∃ cols, columns region (assembleLines region).length = some cols ∧
        isTable (assembleLines region) cols = false ∧ child ∈ cols.children) ∨
      (columns region (assembleLines region).length = none ∧ ∃ upper lower,
        horizontalSplit (assembleLines region) = some (upper, lower) ∧
          (child = upper ∨ child = lower)))

omit [Coordinates F] in
lemma flatMap_members_ne_nil (hlines : lines ≠ [])
    (hmembers : ∀ line ∈ lines, line.members ≠ []) : lines.flatMap Line.members ≠ [] := by
  obtain ⟨line, rest, rfl⟩ := exists_cons_of_ne_nil hlines
  have hline := hmembers line mem_cons_self
  simp [hline]

lemma Cuts.length_lt {child : List (Item F)} (h : Cuts region child) :
    child.length < region.length := by
  have hlines := (assembleLines_members region).length_eq
  rcases h.2 with ⟨cols, hcols, _, hchild⟩ | ⟨_, upper, lower, hsplit, hchild⟩
  · obtain ⟨hperm, hlength, hne⟩ := columns_spec hcols
    rw [← hperm.length_eq]
    exact length_lt_of_mem_parts hlength hne hchild
  · have hwhole := horizontalSplit_perm hsplit
    obtain ⟨n, hpos, hn, hupper, hlower⟩ := horizontalSplit_spec hsplit
    have hupper : upper ≠ [] := by
      rw [hupper]
      refine flatMap_members_ne_nil ?_ fun line hline =>
        assembleLines_ne_nil (mem_of_mem_take hline)
      intro hnil
      have := congrArg length hnil
      rw [length_take] at this
      simp only [length_nil] at this
      omega
    have hlower : lower ≠ [] := by
      rw [hlower]
      refine flatMap_members_ne_nil ?_ fun line hline =>
        assembleLines_ne_nil (mem_of_mem_drop hline)
      intro hnil
      have := congrArg length hnil
      rw [length_drop] at this
      simp only [length_nil] at this
      omega
    have hmem : child ∈ [upper, lower] := by simpa using hchild
    have hsmaller := length_lt_of_mem_parts (by simp) (by simp [hupper, hlower]) hmem
    rw [← hlines, ← hwhole]
    simpa using hsmaller

lemma cuts_wellFounded : WellFounded fun child region : List (Item F) => Cuts region child :=
  Subrelation.wf (fun h => Cuts.length_lt h) (measure length).wf

/-! ## §5 Every run once -/

lemma texts_cells (columns : Columns F) (line : Line F)
    (hchildren : 0 < columns.children.length) :
    (((range columns.children.length).map fun child =>
        lineGroup line (cellMembers columns line child)).flatMap Group.texts).Perm
      (line.members.map Item.text) := by
  rw [flatMap_map]
  show ((range columns.children.length).flatMap fun child =>
    (cellMembers columns line child).map Item.text).Perm _
  rw [← map_flatMap]
  exact (cellMembers_perm columns line hchildren).map _

lemma texts_groups_table (lines : List (Line F)) (columns : Columns F)
    (hchildren : 0 < columns.children.length) :
    ((Block.table lines columns).groups.flatMap Group.texts).Perm
      ((lines.flatMap Line.members).map Item.text) := by
  rw [Block.groups, flatMap_assoc, map_flatMap]
  exact Perm.flatMap_left _ fun line _ => texts_cells columns line hchildren

lemma texts_groups_block (lines : List (Line F)) :
    (Block.block lines).groups.flatMap Group.texts =
      (lines.flatMap Line.members).map Item.text := by
  rw [Block.groups, flatMap_map, map_flatMap]
  rfl

lemma texts_blocks (depth : ℕ) (region : List (Item F)) :
    (((blocks depth region).flatMap Block.groups).flatMap Group.texts).Perm
      (region.map Item.text) := by
  have hlines : ((Block.block (assembleLines region)).groups.flatMap Group.texts).Perm
      (region.map Item.text) := by
    rw [texts_groups_block]
    exact (assembleLines_members region).map _
  induction depth generalizing region with
  | zero => simpa [blocks] using hlines
  | succ depth ih =>
    have hih : ∀ child : List (Item F),
        (((blocks depth child).flatMap Block.groups).flatMap Group.texts).Perm
          (child.map Item.text) := by
      intro child
      refine ih child ?_
      rw [texts_groups_block]
      exact (assembleLines_members child).map _
    rw [blocks]
    split
    · simpa using hlines
    · cases hcolumns : columns region (assembleLines region).length with
      | some cols =>
        obtain ⟨hperm, hlength, _⟩ := columns_spec hcolumns
        simp only
        split
        · rw [flatMap_singleton]
          exact (texts_groups_table _ cols (by omega)).trans ((assembleLines_members region).map _)
        · rw [flatMap_assoc, flatMap_assoc]
          have hchildren : (cols.children.flatMap fun child =>
              (blocks depth child).flatMap fun block => block.groups.flatMap Group.texts).Perm
              (cols.children.flatMap fun child => child.map Item.text) := by
            refine Perm.flatMap_left _ fun child _ => ?_
            rw [← flatMap_assoc]
            exact hih child
          refine hchildren.trans ?_
          rw [← map_flatMap, flatMap_id']
          exact hperm.map _
      | none =>
        cases hsplit : horizontalSplit (assembleLines region) with
        | some halves =>
          obtain ⟨upper, lower⟩ := halves
          simp only
          rw [flatMap_append, flatMap_append]
          refine ((hih upper).append (hih lower)).trans ?_
          rw [← map_append, horizontalSplit_perm hsplit]
          exact (assembleLines_members region).map _
        | none => simpa using hlines

section

variable (page : PageGeometry F)

include page

lemma texts_collect :
    ((collect page).1.map Item.text ++ (collect page).2).Perm
      ((page.runs.filter isKept).map TextRun.text) := by
  have htext : ∀ runs : List (TextRun F),
      (runs.map item).map Item.text = runs.map TextRun.text := by
    intro runs
    rw [map_map]
    rfl
  rw [collect, htext, ← map_append]
  exact (filter_append_perm isOrdered (page.runs.filter isKept)).map _

lemma texts_pageGroups :
    ((pageGroups page).flatMap Group.texts).Perm ((page.runs.filter isKept).map TextRun.text) := by
  refine Perm.trans ?_ (texts_collect page)
  rw [pageGroups, flatMap_append]
  refine Perm.append ?_ ?_
  · split
    · next hitems => simp [hitems]
    · exact texts_blocks maxCutDepth (collect page).1
  · simp [flatMap_map]

lemma squash_pageGroups : ∀ g ∈ pageGroups page, squash g.text = g.texts.flatMap squash := by
  have hline : ∀ (line : Line F) (members : List (Item F)),
      squash (lineGroup line members).text = (lineGroup line members).texts.flatMap squash := by
    intro line members
    rw [lineGroup, squash_renderMembers, flatMap_map]
  intro g hg
  rcases mem_append.mp hg with hitem | htail
  · split at hitem
    · cases hitem
    · obtain ⟨block, _, hblock⟩ := mem_flatMap.mp hitem
      cases block with
      | block lines =>
        obtain ⟨line, _, rfl⟩ := mem_map.mp hblock
        exact hline line _
      | table lines columns =>
        obtain ⟨line, _, hcell⟩ := mem_flatMap.mp hblock
        obtain ⟨child, _, rfl⟩ := mem_map.mp hcell
        exact hline line _
  · obtain ⟨text, _, rfl⟩ := mem_map.mp htail
    simp

lemma splitWhitespace_composePage :
    splitWhitespace (composePage page).text =
      (pageGroups page).flatMap fun g => splitWhitespace g.text := by
  rw [composePage]
  simp only
  rw [splitWhitespace_normalize, splitWhitespace_joinWith (by simp) (by decide), pageGroups,
    flatMap_append, flatMap_append]
  congr 1
  · split
    · rfl
    · rw [cut_eq_blocks, flatMap_map, flatMap_assoc]
      exact flatMap_congr fun block _ => splitWhitespace_render block
  · split
    · next hunordered => rw [hunordered]; rfl
    · rw [flatMap_singleton, splitWhitespace_joinWith (by simp) (by decide), flatMap_map]

/-- A page's text has the words of its groups, so that no word has runs of two of them. A group has
the characters of its runs, every run that is kept is in one group, and cutting ends. -/
theorem composePage_words :
    splitWhitespace (composePage page).text =
        ((pageGroups page).flatMap fun g => splitWhitespace g.text) ∧
      (∀ g ∈ pageGroups page, squash g.text = g.texts.flatMap squash) ∧
      ((pageGroups page).flatMap Group.texts).Perm
        ((page.runs.filter isKept).map TextRun.text) ∧
      WellFounded fun child region : List (Item F) => Cuts region child :=
  ⟨splitWhitespace_composePage page, squash_pageGroups page, texts_pageGroups page,
    cuts_wellFounded⟩

end

end Regions

end Kwiry.Pdf.Layout
