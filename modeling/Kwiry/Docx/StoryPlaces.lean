import Kwiry.Docx.StoryFlags
import Mathlib.Algebra.BigOperators.Group.List.Basic

/-!
# Where the Text of a Story Stands

What every operation of the story parser does to the text it holds. A passage is faithful when its
characters outside whitespace are those of the events it names; the text of one event is counted
over all the passages of a state. An operation keeps every passage faithful and moves text, it
neither loses nor doubles any. Only an append adds text, that of the present event.
-/

namespace Kwiry.Docx

open Foundations List Option

/-! ## §1 Characters outside whitespace -/

def squash (t : Text) : Text :=
  t.filter (!isWhitespace ·)

@[simp] lemma squash_append (s t : Text) : squash (s ++ t) = squash s ++ squash t :=
  filter_append ..

lemma squash_flatMap {A : Type} (items : List A) (text : A → Text) :
    squash (items.flatMap text) = items.flatMap fun item => squash (text item) := by
  induction items with
  | nil => rfl
  | cons item rest ih => simp only [flatMap_cons, squash_append, ih]

lemma squash_eq_nil_iff {t : Text} : squash t = [] ↔ isBlank t = true := by
  simp [squash, isBlank, filter_eq_nil_iff, List.all_eq_true]

lemma squash_dropWhile (t : Text) : squash (t.dropWhile isWhitespace) = squash t := by
  conv_rhs => rw [← takeWhile_append_dropWhile (p := isWhitespace) (l := t)]
  have hspace : squash (t.takeWhile isWhitespace) = [] := by
    rw [squash, filter_eq_nil_iff]
    intro c hc
    simp [mem_takeWhile_imp hc]
  rw [squash_append, hspace, nil_append]

lemma squash_reverse (t : Text) : squash t.reverse = (squash t).reverse :=
  filter_reverse ..

@[simp] lemma squash_trim (t : Text) : squash (trim t) = squash t := by
  rw [trim, squash_reverse, squash_dropWhile, squash_reverse, squash_dropWhile, reverse_reverse]

variable {localName sep : Text}

lemma squash_joinWith (hsep : squash sep = []) (ts : List Text) :
    squash (joinWith sep ts) = ts.flatMap squash := by
  induction ts with
  | nil => rfl
  | cons t rest ih =>
    cases rest with
    | nil => simp [joinWith]
    | cons t' rest =>
      have hjoin : joinWith sep (t :: t' :: rest) = t ++ (sep ++ joinWith sep (t' :: rest)) := by
        simp [joinWith]
      rw [hjoin, squash_append, squash_append, hsep, ih]
      rfl

@[simp] lemma squash_normalizeFragment (t : Text) : squash (normalizeFragment t) = squash t := by
  have hlines : joinWith ['\n'] (t.splitOn '\n') = t := intercalate_splitOn '\n'
  calc squash (normalizeFragment t)
      = ((t.splitOn '\n').map trim).flatMap squash := by
        rw [normalizeFragment, squash_trim, squash_joinWith (by decide)]
    _ = (t.splitOn '\n').flatMap squash := by simp [flatMap_map]
    _ = squash (joinWith ['\n'] (t.splitOn '\n')) := (squash_joinWith (by decide) _).symm
    _ = squash t := by rw [hlines]

/-! ## §2 Faithful passages -/

/-- The characters of a passage outside whitespace are those its events say, in order. -/
def Passage.Faithful (told : ℕ → Text) (passage : Passage) : Prop :=
  squash passage.text = passage.sources.flatMap fun source => squash (told source)

namespace Passage

variable {told : ℕ → Text} {passage other : Passage}

lemma faithful_empty : Faithful told empty := rfl

lemma Faithful.append (h : Faithful told passage) (h' : Faithful told other) :
    Faithful told (passage.append other) := by
  simp only [Faithful, Passage.append, squash_append, flatMap_append] at h h' ⊢
  rw [h, h']

lemma faithful_concat {passages : List Passage} (h : ∀ passage ∈ passages, Faithful told passage) :
    Faithful told (concat passages) := by
  rw [Faithful, concat, squash_flatMap]
  simp only [flatMap_assoc]
  induction passages with
  | nil => rfl
  | cons passage rest ih =>
    rw [flatMap_cons, flatMap_cons, h passage mem_cons_self,
      ih fun passage hmem => h passage (mem_cons_of_mem _ hmem)]

lemma faithful_join (hsep : squash sep = []) {passages : List Passage}
    (h : ∀ passage ∈ passages, Faithful told passage) : Faithful told (join sep passages) := by
  have hconcat := faithful_concat h
  rw [Faithful, concat, squash_flatMap] at hconcat
  rw [Faithful, join, squash_joinWith hsep, flatMap_map]
  exact hconcat

lemma Faithful.normalize (h : Faithful told passage) : Faithful told passage.normalize := by
  simpa [Faithful, Passage.normalize] using h

lemma Faithful.not_mem_sources (h : Faithful told passage) (hblank : squash passage.text = [])
    {source : ℕ} (htold : squash (told source) ≠ []) : source ∉ passage.sources := by
  intro hmem
  rw [Faithful, hblank, eq_comm, flatMap_eq_nil_iff] at h
  exact htold (h source hmem)

end Passage

/-! ## §3 Paragraphs and rows -/

section

variable {told : ℕ → Text}

lemma Passage.append_assoc (a b c : Passage) : (a.append b).append c = a.append (b.append c) := by
  simp [Passage.append]

lemma Passage.concat_cons (passage : Passage) (rest : List Passage) :
    concat (passage :: rest) = passage.append (concat rest) := rfl

lemma concat_appendFragment (role ρ : ContentRole) (passage : Passage)
    (fragments : List (ContentRole × Passage)) :
    Passage.concat (((appendFragment role passage fragments).filter (·.1 = ρ)).map Prod.snd) =
      if role = ρ then
        (Passage.concat ((fragments.filter (·.1 = ρ)).map Prod.snd)).append passage
      else Passage.concat ((fragments.filter (·.1 = ρ)).map Prod.snd) := by
  fun_induction appendFragment role passage fragments with
  | case1 | case2 value =>
    by_cases hrole : role = ρ <;> simp [hrole, Passage.concat, Passage.append]
  | case3 lastRole value hlast =>
    by_cases hrole : role = ρ <;> by_cases hlastRole : lastRole = ρ <;>
      simp [hrole, hlastRole, Passage.concat, Passage.append]
  | case4 first second rest ih =>
    by_cases hfirst : first.1 = ρ
    · have hcons (others : List (ContentRole × Passage)) :
          (first :: others).filter (·.1 = ρ) = first :: others.filter (·.1 = ρ) :=
        filter_cons_of_pos (by simpa using hfirst)
      rw [hcons, hcons, map_cons, map_cons, Passage.concat_cons, Passage.concat_cons, ih]
      split
      · rw [Passage.append_assoc]
      · rfl
    · have hcons (others : List (ContentRole × Passage)) :
          (first :: others).filter (·.1 = ρ) = others.filter (·.1 = ρ) :=
        filter_cons_of_neg (by simpa using hfirst)
      rw [hcons, hcons, ih]

/-- What a paragraph has in one role, after an append in some role. -/
theorem Paragraph.byRole_append (paragraph : Paragraph) (role ρ : ContentRole) (passage : Passage) :
    (paragraph.append role passage).byRole ρ =
      if role = ρ ∧ passage.text ≠ [] then (paragraph.byRole ρ).append passage
      else paragraph.byRole ρ := by
  unfold Paragraph.append
  by_cases htext : passage.text = []
  · simp [htext]
  · simp only [htext, if_false, Paragraph.byRole, concat_appendFragment, ne_eq, not_false_eq_true,
      and_true]

/-- Every passage of a row is faithful. -/
structure TableRow.Sound (told : ℕ → Text) (row : TableRow) : Prop where
  cells : ∀ cell ∈ row.cells, ∀ role, (cell role).Faithful told
  currentCell : ∀ cell ∈ row.currentCell, ∀ role, (cell role).Faithful told

/-- How often a row holds an event in a role. -/
def TableRow.held (row : TableRow) (source : ℕ) (role : ContentRole) : ℕ :=
  (row.render role).sources.count source +
    row.currentCell.elim 0 fun cell => (cell role).sources.count source

variable {row row' : TableRow} {paragraph : Paragraph}

lemma TableRow.Sound.render (h : row.Sound told) (role : ContentRole) :
    (row.render role).Faithful told := by
  apply Passage.faithful_join (by decide)
  intro passage hmem
  obtain ⟨cell, hcell, rfl⟩ := mem_map.mp hmem
  exact h.cells cell hcell role

lemma TableRow.startCell_ok (h : row.startCell = .ok row') :
    row.currentCell = none ∧ row' = { row with currentCell := some fun _ => .empty } := by
  unfold TableRow.startCell at h
  split at h
  next => cases h
  next hnone =>
    cases h
    exact ⟨hnone, rfl⟩

lemma TableRow.endCell_ok (h : row.endCell = .ok row') :
    ∃ cell, row.currentCell = some cell ∧ row' = ⟨row.cells ++ [cell], none⟩ := by
  unfold TableRow.endCell at h
  split at h
  next => cases h
  next cell hcell =>
    cases h
    exact ⟨cell, hcell, rfl⟩

lemma TableRow.pushParagraph_ok (h : row.pushParagraph paragraph = .ok row') :
    ∃ cell, row.currentCell = some cell ∧ row' = { row with
      currentCell := some fun role => addLine (cell role) (paragraph.byRole role).normalize } := by
  unfold TableRow.pushParagraph at h
  split at h
  next => cases h
  next cell hcell =>
    cases h
    exact ⟨cell, hcell, rfl⟩

/-- A line that is left out names no event that tells something, nor does a value it replaces. -/
theorem addLine_spec {value line : Passage} (hvalue : value.Faithful told)
    (hline : line.Faithful told) :
    (TableRow.addLine value line).Faithful told ∧ ∀ source, squash (told source) ≠ [] →
      (TableRow.addLine value line).sources.count source =
        value.sources.count source + line.sources.count source := by
  unfold TableRow.addLine
  split
  next hempty =>
    refine ⟨hvalue, fun source htold => ?_⟩
    have hnot := hline.not_mem_sources (by rw [hempty]; rfl) htold
    rw [count_eq_zero_of_not_mem hnot, Nat.add_zero]
  next =>
    split
    next => exact ⟨hvalue.append hline, fun source _ => count_append⟩
    next =>
      constructor
      · have happend := hvalue.append hline
        have hbreak : squash ('\n' :: line.text) = squash line.text := rfl
        simp only [Passage.Faithful, Passage.append, squash_append, hbreak] at happend ⊢
        exact happend
      · intro source _
        exact count_append

lemma TableRow.endCell_spec (h : row.endCell = .ok row') (hsound : row.Sound told) :
    row'.Sound told ∧ ∀ source role, row'.held source role = row.held source role := by
  obtain ⟨cell, hcell, rfl⟩ := endCell_ok h
  constructor
  · constructor
    · intro other hmem
      rcases mem_append.mp hmem with hmem | hmem
      · exact hsound.cells other hmem
      · rw [mem_singleton.mp hmem]
        exact hsound.currentCell cell hcell
    · simp
  · intro source role
    simp [TableRow.held, TableRow.render, Passage.join, hcell]

lemma TableRow.startCell_spec (h : row.startCell = .ok row') (hsound : row.Sound told) :
    row'.Sound told ∧ ∀ source role, row'.held source role = row.held source role := by
  obtain ⟨hnone, rfl⟩ := startCell_ok h
  constructor
  · refine ⟨hsound.cells, ?_⟩
    intro cell hcell role
    cases hcell
    exact Passage.faithful_empty
  · intro source role
    simp [TableRow.held, TableRow.render, Passage.empty, hnone]

/-- A paragraph that ends in a cell has its text there. -/
theorem TableRow.pushParagraph_spec (h : row.pushParagraph paragraph = .ok row')
    (hsound : row.Sound told) (hparagraph : ∀ role, (paragraph.byRole role).Faithful told) :
    row'.Sound told ∧ ∀ source role, squash (told source) ≠ [] → row'.held source role =
      row.held source role + (paragraph.byRole role).sources.count source := by
  obtain ⟨cell, hcell, rfl⟩ := pushParagraph_ok h
  have hline role := addLine_spec (hsound.currentCell cell hcell role) (hparagraph role).normalize
  constructor
  · refine ⟨hsound.cells, ?_⟩
    intro cell' hcell' role
    cases hcell'
    exact (hline role).1
  · intro source role htold
    have hcount := (hline role).2 source htold
    simp only [TableRow.held, TableRow.render, hcell, elim_some, hcount]
    rw [Nat.add_assoc]
    rfl

end

/-! ## §4 The state of the parser -/

namespace StoryParser

/-- Every passage of a state is faithful. -/
structure Sound (told : ℕ → Text) (parser : StoryParser) : Prop where
  emitted : ∀ piece ∈ parser.emitted, piece.content.Faithful told
  row : ∀ row ∈ parser.row, row.Sound told
  paragraph : ∀ paragraph ∈ parser.paragraph, ∀ role, (paragraph.byRole role).Faithful told

/-- How often a list of sections holds an event in a role. -/
def heldIn (sections : List SemanticSection) (source : ℕ) (role : ContentRole) : ℕ :=
  (sections.map fun piece =>
    if piece.role = role then piece.content.sources.count source else 0).sum

/-- How often a state holds an event in a role. -/
def held (parser : StoryParser) (source : ℕ) (role : ContentRole) : ℕ :=
  heldIn parser.emitted source role + parser.row.elim 0 (·.held source role) +
    parser.paragraph.elim 0 fun paragraph => (paragraph.byRole role).sources.count source

/-- A step keeps the passages faithful, and moves text only, but for that of the present event. -/
def Kept (told : ℕ → Text) (present : ℕ) (parser parser' : StoryParser) : Prop :=
  parser.Sound told → parser'.Sound told ∧ ∀ source role, source ≠ present →
    squash (told source) ≠ [] → parser'.held source role = parser.held source role

variable {told : ℕ → Text} {present : ℕ} {baseRole : ContentRole} {styles : Styles}
  {mode : ContainerMode} {parser parser' parser'' : StoryParser}

lemma Kept.trans (h : Kept told present parser parser') (h' : Kept told present parser' parser'') :
    Kept told present parser parser'' := by
  intro hsound
  obtain ⟨hsound', hheld⟩ := h hsound
  obtain ⟨hsound'', hheld'⟩ := h' hsound'
  refine ⟨hsound'', fun source role hne htold => ?_⟩
  rw [hheld' source role hne htold, hheld source role hne htold]

/-- A step that touches no passage. -/
theorem Kept.of_same (hemitted : parser'.emitted = parser.emitted) (hrow : parser'.row = parser.row)
    (hparagraph : parser'.paragraph = parser.paragraph) : Kept told present parser parser' := by
  intro hsound
  refine ⟨⟨?_, ?_, ?_⟩, fun source role _ _ => ?_⟩
  · rw [hemitted]
    exact hsound.emitted
  · rw [hrow]
    exact hsound.row
  · rw [hparagraph]
    exact hsound.paragraph
  · rw [held, hemitted, hrow, hparagraph]
    rfl

/-- A step that touches the properties of the paragraph. -/
theorem Kept.of_fragments {paragraph paragraph' : Paragraph}
    (hparagraph : parser.paragraph = some paragraph)
    (hparagraph' : parser'.paragraph = some paragraph') (hsame : paragraph'.byRole = paragraph.byRole)
    (hemitted : parser'.emitted = parser.emitted) (hrow : parser'.row = parser.row) :
    Kept told present parser parser' := by
  intro hsound
  refine ⟨⟨hemitted ▸ hsound.emitted, hrow ▸ hsound.row, ?_⟩, fun source role _ _ => ?_⟩
  · intro other hother
    rw [hparagraph'] at hother
    cases hother
    rw [hsame]
    exact hsound.paragraph paragraph hparagraph
  · simp only [held, hemitted, hrow, hparagraph, hparagraph', elim_some, hsame]

/-- A step that opens a paragraph. -/
theorem Kept.of_emptyParagraph (hparagraph : parser.paragraph = none)
    (hemitted : parser'.emitted = parser.emitted) (hrow : parser'.row = parser.row)
    (hparagraph' : parser'.paragraph = some .empty) : Kept told present parser parser' := by
  intro hsound
  refine ⟨⟨hemitted ▸ hsound.emitted, hrow ▸ hsound.row, ?_⟩, fun source role _ _ => ?_⟩
  · intro other hother role
    rw [hparagraph'] at hother
    cases hother
    exact Passage.faithful_empty
  · simp only [held, hemitted, hrow, hparagraph, hparagraph', elim_some, elim_none]
    rfl

/-- A step that touches the row alone. -/
theorem Kept.of_row {row row' : TableRow} (hrow : parser.row = some row)
    (h : row.Sound told → row'.Sound told ∧
      ∀ source role, row'.held source role = row.held source role) :
    Kept told present parser { parser with row := some row' } := by
  intro hsound
  obtain ⟨hrow', hheld⟩ := h (hsound.row row hrow)
  refine ⟨⟨hsound.emitted, ?_, hsound.paragraph⟩, fun source role _ _ => ?_⟩
  · intro other hother
    cases hother
    exact hrow'
  · simp only [held, hrow, elim_some, hheld]
    rfl

lemma Kept.of_emptyRow (hrow : parser.row = none) :
    Kept told present parser { parser with row := some .empty } := by
  intro hsound
  refine ⟨⟨hsound.emitted, ?_, hsound.paragraph⟩, fun source role _ _ => ?_⟩
  · intro row hmem
    cases hmem
    exact ⟨by simp [TableRow.empty], by simp [TableRow.empty]⟩
  · simp only [held, hrow, elim_some, elim_none]
    rfl

/-! ### Emission -/

variable {role : ContentRole}

variable {budget : OutputBudget} {content : Passage}

lemma push_ok {budget' : OutputBudget} {headingStack : List (ℕ × Text)}
    {pushed : Option SemanticSection}
    (h : budget.push headingStack content role = .ok (budget', pushed)) :
    content.normalize.text = [] ∧ pushed = none ∨
      pushed = some ⟨headingStack.map Prod.snd, content.normalize, role⟩ := by
  unfold OutputBudget.push at h
  split at h
  next hempty =>
    cases h
    exact .inl ⟨hempty, rfl⟩
  next =>
    simp only [bind_ok_iff] at h
    obtain ⟨-, -, -, -, -, -, h⟩ := h
    cases h
    exact .inr rfl

/-- What an emission adds, wherever it goes. -/
theorem emit_ok (h : parser.emit content role = .ok parser') :
    ∃ budget pushed sections containerSections,
      parser' = { parser with
        outputBudget := budget
        sections := sections
        containerSections := containerSections } ∧
      parser'.emitted.Perm (parser.emitted ++ pushed.toList) ∧
      (content.normalize.text = [] ∧ pushed = none ∨
        pushed = some ⟨parser.headingStack.map Prod.snd, content.normalize, role⟩) := by
  simp only [emit, bind_ok_iff] at h
  obtain ⟨⟨budget, pushed⟩, hpush, h⟩ := h
  dsimp only at h
  split at h
  next id =>
    cases h
    refine ⟨budget, pushed, _, _, rfl, ?_, push_ok hpush⟩
    cases pushed <;> simp [emitted]
  next =>
    cases h
    refine ⟨budget, pushed, _, _, rfl, ?_, push_ok hpush⟩
    simp only [emitted, append_assoc]
    exact perm_append_comm.append_left _

lemma heldIn_perm {sections sections' : List SemanticSection} (h : sections.Perm sections')
    (source : ℕ) (role : ContentRole) : heldIn sections source role = heldIn sections' source role :=
  (h.map _).sum_eq

lemma heldIn_append (sections sections' : List SemanticSection) (source : ℕ) (role : ContentRole) :
    heldIn (sections ++ sections') source role =
      heldIn sections source role + heldIn sections' source role := by
  simp [heldIn]

lemma emit_spec (h : parser.emit content role = .ok parser') (hsound : parser.Sound told)
    (hcontent : content.Faithful told) :
    parser'.Sound told ∧ ∀ source ρ, squash (told source) ≠ [] → parser'.held source ρ =
      parser.held source ρ + if role = ρ then content.sources.count source else 0 := by
  obtain ⟨budget, pushed, sections, containerSections, hparser', hperm, hpushed⟩ := emit_ok h
  have hrow : parser'.row = parser.row := by rw [hparser']
  have hparagraph : parser'.paragraph = parser.paragraph := by rw [hparser']
  have hheld (source : ℕ) (ρ : ContentRole) : parser'.held source ρ =
      parser.held source ρ + heldIn pushed.toList source ρ := by
    rw [held, held, hrow, hparagraph, heldIn_perm hperm, heldIn_append]
    omega
  constructor
  · refine ⟨fun piece hmem => ?_, hrow ▸ hsound.row, hparagraph ▸ hsound.paragraph⟩
    rcases mem_append.mp (hperm.mem_iff.mp hmem) with hmem | hmem
    · exact hsound.emitted piece hmem
    · rcases hpushed with ⟨-, rfl⟩ | rfl
      · cases hmem
      · rw [toList_some, mem_singleton] at hmem
        rw [hmem]
        exact hcontent.normalize
  · intro source ρ htold
    rw [hheld]
    rcases hpushed with ⟨hempty, rfl⟩ | rfl
    · -- a blank content names no event that tells something
      have hnot := hcontent.normalize.not_mem_sources (by rw [hempty]; rfl) htold
      have hcount : content.sources.count source = 0 := count_eq_zero_of_not_mem hnot
      simp [heldIn, hcount]
    · simp [heldIn, Passage.normalize]

/-- An emission for each role moves a text by role to the sections. -/
theorem emitAll_spec {content : ContentRole → Passage} (h : parser.emitAll content = .ok parser')
    (hsound : parser.Sound told) (hcontent : ∀ role, (content role).Faithful told) :
    parser'.Sound told ∧ ∀ source role, squash (told source) ≠ [] → parser'.held source role =
      parser.held source role + (content role).sources.count source := by
  simp only [emitAll, storyRoles, foldlM_cons, foldlM_nil, bind_ok_iff] at h
  obtain ⟨first, hfirst, second, hsecond, third, hthird, h⟩ := h
  cases h
  obtain ⟨hsound₁, hheld₁⟩ := emit_spec hfirst hsound (hcontent _)
  obtain ⟨hsound₂, hheld₂⟩ := emit_spec hsecond hsound₁ (hcontent _)
  obtain ⟨hsound₃, hheld₃⟩ := emit_spec hthird hsound₂ (hcontent _)
  refine ⟨hsound₃, fun source role htold => ?_⟩
  rw [hheld₃ source role htold, hheld₂ source role htold, hheld₁ source role htold]
  cases role <;> simp

/-! ### Ends of paragraphs and rows -/

lemma enterHeading_frame (paragraph : Paragraph) :
    ∃ headingStack, parser.enterHeading baseRole styles paragraph =
      { parser with headingStack := headingStack } := by
  unfold enterHeading
  split
  · exact ⟨_, rfl⟩
  · dsimp only
    split
    · exact ⟨_, rfl⟩
    · exact ⟨_, rfl⟩

lemma kept_of_finishParagraph (h : parser.finishParagraph baseRole styles = .ok parser') :
    Kept told present parser parser' := by
  intro hsound
  unfold finishParagraph at h
  split at h
  next => cases h
  next paragraph hparagraph =>
    obtain ⟨headingStack, hheading⟩ : ∃ headingStack,
        { parser with paragraph := none }.enterHeading baseRole styles paragraph =
          { parser with paragraph := none, headingStack := headingStack } :=
      enterHeading_frame paragraph
    rw [hheading] at h
    have hfaithful := hsound.paragraph paragraph hparagraph
    have hopen : { parser with paragraph := none, headingStack := headingStack }.Sound told :=
      ⟨hsound.emitted, hsound.row, by simp⟩
    have hheld (source : ℕ) (role : ContentRole) : parser.held source role =
        { parser with paragraph := none, headingStack := headingStack }.held source role +
          (paragraph.byRole role).sources.count source := by
      simp only [held, hparagraph, elim_some, elim_none]
      rfl
    dsimp only at h
    split at h
    next =>
      split at h
      next => cases h
      next row hrow =>
        simp only [bind_ok_iff] at h
        obtain ⟨row', hpush, h⟩ := h
        cases h
        obtain ⟨hrow', hcount⟩ := TableRow.pushParagraph_spec hpush (hsound.row row hrow) hfaithful
        refine ⟨⟨hsound.emitted, ?_, by simp⟩, fun source role _ htold => ?_⟩
        · intro other hother
          cases hother
          exact hrow'
        · rw [hheld]
          simp only [held, hrow, elim_some, elim_none, hcount source role htold]
          show heldIn parser.emitted source role +
              (row.held source role + (paragraph.byRole role).sources.count source) + 0 =
            heldIn parser.emitted source role + row.held source role + 0 +
              (paragraph.byRole role).sources.count source
          omega
    next =>
      obtain ⟨hsound', hcount⟩ := emitAll_spec h hopen hfaithful
      refine ⟨hsound', fun source role _ htold => ?_⟩
      rw [hcount source role htold, hheld]

lemma kept_of_finishRow (h : parser.finishRow = .ok parser') :
    Kept told present parser parser' := by
  intro hsound
  unfold finishRow at h
  split at h
  next => cases h
  next row hrow =>
    simp only [bind_unit_ok_iff, rejectIf_ok] at h
    obtain ⟨hcell, h⟩ := h
    have hcellNone : row.currentCell = none := by simpa using hcell
    have hopen : { parser with row := none }.Sound told :=
      ⟨hsound.emitted, by simp, hsound.paragraph⟩
    obtain ⟨hsound', hcount⟩ := emitAll_spec h hopen (hsound.row row hrow).render
    refine ⟨hsound', fun source role _ htold => ?_⟩
    rw [hcount source role htold]
    simp only [held, hrow, elim_some, elim_none, TableRow.held, hcellNone]
    show heldIn parser.emitted source role + 0 + _ + _ = heldIn parser.emitted source role + _ + _
    omega

/-! ### Events -/

/-- What an append adds: the present event, in the role of the append. -/
theorem appendText_spec (role : ContentRole) (text : Text)
    (htold : squash (told parser.position) = squash text) (hsound : parser.Sound told) :
    (parser.appendText role text).Sound told ∧ ∀ source ρ,
      (parser.appendText role text).held source ρ = parser.held source ρ +
        if parser.paragraph.isSome ∧ role = ρ ∧ text ≠ [] ∧ source = parser.position then 1
        else 0 := by
  cases hparagraph : parser.paragraph with
  | none =>
    have hsame : parser.appendText role text = parser := by
      rw [appendText, hparagraph, map_none, ← hparagraph]
    rw [hsame]
    exact ⟨hsound, by simp⟩
  | some paragraph =>
    have hpiece : Passage.Faithful told ⟨text, [parser.position]⟩ := by
      simp [Passage.Faithful, htold]
    constructor
    · refine ⟨hsound.emitted, hsound.row, ?_⟩
      intro other hother ρ
      simp only [appendText, hparagraph, map_some, mem_some_iff] at hother
      rw [← hother, Paragraph.byRole_append]
      split
      · exact (hsound.paragraph paragraph hparagraph ρ).append hpiece
      · exact hsound.paragraph paragraph hparagraph ρ
    · intro source ρ
      simp only [held, appendText, hparagraph, map_some, elim_some, Paragraph.byRole_append]
      show heldIn parser.emitted source ρ + _ + _ = heldIn parser.emitted source ρ + _ + _ + _
      by_cases hrole : role = ρ <;> by_cases htext : text = [] <;>
        by_cases hsource : source = parser.position <;>
        simp [hrole, htext, hsource, Passage.append, Ne.symm, Nat.add_assoc]

lemma kept_appendText (role : ContentRole) (text : Text)
    (htold : squash (told parser.position) = squash text) :
    Kept told parser.position parser (parser.appendText role text) := by
  intro hsound
  obtain ⟨hsound', hheld⟩ := appendText_spec role text htold hsound
  refine ⟨hsound', fun source ρ hne _ => ?_⟩
  rw [hheld]
  simp [hne]

variable {element : XmlElement}

lemma SameText.kept (h : SameText parser parser') : Kept told present parser parser' :=
  .of_same h.emitted h.row h.paragraph

lemma kept_of_leave (h : parser.leave baseRole styles localName = .ok parser') :
    Kept told present parser parser' := by
  unfold leave at h
  split at h
  case h_1 => exact kept_of_finishParagraph h
  case h_5 | h_6 | h_7 | h_2 =>
    cases h
    exact .of_same rfl rfl rfl
  case h_3 | h_4 | h_10 =>
    simp only [bind_ok_iff] at h
    obtain ⟨depth, -, h⟩ := h
    cases h
    exact .of_same rfl rfl rfl
  case h_8 =>
    split at h
    · split at h
      · cases h
      · next row hrow =>
        simp only [bind_ok_iff] at h
        obtain ⟨row', hrow', h⟩ := h
        cases h
        exact .of_row hrow fun hsound => TableRow.endCell_spec hrow' hsound
    · cases h
      exact .of_same rfl rfl rfl
  case h_9 =>
    split at h
    · exact kept_of_finishRow h
    · cases h
      exact .of_same rfl rfl rfl
  case h_11 =>
    cases h
    exact .of_same rfl rfl rfl

/-- What an element says by itself. -/
def saidBy (element : XmlElement) : Text :=
  if storyTag element.localName = .fldSimple then (attributeLocal element "instr").getD [] else []

lemma kept_of_enter (h : parser.enter baseRole styles element = .ok parser')
    (htold : squash (told parser.position) = squash (saidBy element)) :
    Kept told parser.position parser parser' := by
  unfold enter at h
  split at h
  case h_1 =>
    simp only [bind_unit_ok_iff, rejectIf_ok] at h
    obtain ⟨hnone, h⟩ := h
    cases h
    exact .of_emptyParagraph (by simpa using hnone) rfl rfl rfl
  case h_2 =>
    split at h
    · cases h
      exact .of_same rfl rfl rfl
    next paragraph hparagraph =>
      cases h
      exact .of_fragments hparagraph rfl rfl rfl rfl
  case h_4 =>
    cases h
    cases hparagraph : parser.paragraph with
    | none => exact .of_same rfl rfl (by simp [hparagraph])
    | some paragraph =>
      exact .of_fragments hparagraph rfl rfl rfl rfl
  case h_3 | h_5 | h_6 | h_7 | h_10 | h_11 | h_12 | h_22 | h_23 | h_24 =>
    cases h
    exact .of_same rfl rfl rfl
  case h_8 | h_9 | h_17 =>
    simp only [bind_ok_iff] at h
    obtain ⟨depth, -, h⟩ := h
    cases h
    exact .of_same rfl rfl rfl
  case h_13 htag | h_14 htag | h_15 htag =>
    cases h
    apply kept_appendText
    rw [htold, saidBy, htag]
    rfl
  case h_16 htag =>
    split at h
    next instruction hinstruction =>
      cases h
      apply kept_appendText
      rw [htold, saidBy, htag, hinstruction]
      rfl
    next =>
      cases h
      exact .of_same rfl rfl rfl
  case h_18 =>
    split at h
    · simp only [bind_unit_ok_iff, rejectIf_ok] at h
      obtain ⟨hnone, h⟩ := h
      cases h
      exact .of_emptyRow (by simpa using hnone)
    · cases h
      exact .of_same rfl rfl rfl
  case h_19 =>
    split at h
    · split at h
      · cases h
      next row hrow =>
        simp only [bind_ok_iff] at h
        obtain ⟨row', hrow', h⟩ := h
        cases h
        exact .of_row hrow fun hsound => TableRow.startCell_spec hrow' hsound
    · cases h
      exact .of_same rfl rfl rfl
  case h_20 | h_21 => exact (sameText_of_reference h).kept

/-- What an event says. -/
def said : XmlEvent → Text
  | .text text => text
  | .start element | .empty element => if isWordprocessing element.nameSpace then saidBy element else []
  | .stop _ _ => []

lemma kept_of_stop {nameSpace : Option Text}
    (h : parser.stop baseRole styles mode nameSpace localName = .ok parser') :
    Kept told present parser parser' := by
  unfold stop at h
  split at h
  · simp only [bind_ok_iff] at h
    obtain ⟨left, hleave, h⟩ := h
    exact (kept_of_leave hleave).trans (sameText_of_leaveContainer h).kept
  · cases h
    exact .of_same rfl rfl rfl

lemma kept_of_start {empty : Bool}
    (h : parser.start baseRole styles mode element empty = .ok parser')
    (htold : squash (told parser.position) =
      squash (if isWordprocessing element.nameSpace then saidBy element else [])) :
    Kept told parser.position parser parser' := by
  unfold start at h
  split at h
  next hname =>
    rw [if_pos hname] at htold
    simp only [bind_ok_iff] at h
    obtain ⟨contained, hcontained, entered, hentered, h⟩ := h
    have hposition : contained.position = parser.position :=
      congrArg Flags.position (sameText_of_enterContainer hcontained).flags
    have hkept : Kept told parser.position parser entered := by
      apply (sameText_of_enterContainer hcontained).kept.trans
      rw [← hposition]
      exact kept_of_enter hentered (hposition ▸ htold)
    split at h
    · exact hkept.trans (kept_of_stop h)
    · cases h
      exact hkept
  next =>
    cases h
    exact .of_same rfl rfl rfl

variable {event : XmlEvent}

/-- An event moves text, but for its own. -/
theorem kept_of_onEvent (h : parser.onEvent baseRole styles mode event = .ok parser')
    (htold : squash (told parser.position) = squash (said event)) :
    Kept told parser.position parser parser' := by
  cases event with
  | start element | empty element => exact kept_of_start h htold
  | stop nameSpace localName => exact kept_of_stop h
  | text text =>
    cases h
    split
    · exact kept_appendText _ text htold
    · exact .of_same rfl rfl rfl

lemma event_ok (h : parser.event baseRole styles mode event = .ok parser') :
    ∃ next, parser.onEvent baseRole styles mode event = .ok next ∧
      parser' = { next with position := next.position + 1 } := by
  simp only [StoryParser.event, bind_ok_iff] at h
  obtain ⟨next, hnext, h⟩ := h
  cases h
  exact ⟨next, hnext, rfl⟩

lemma kept_of_event (h : parser.event baseRole styles mode event = .ok parser')
    (htold : squash (told parser.position) = squash (said event)) :
    Kept told parser.position parser parser' := by
  obtain ⟨next, hnext, rfl⟩ := event_ok h
  exact (kept_of_onEvent hnext htold).trans (.of_same rfl rfl rfl)

/-! ## §5 Whole parts -/

/-- What the events of a part say, by their positions. -/
def toldBy (events : List XmlEvent) (source : ℕ) : Text :=
  (events[source]?.map said).getD []

/-- A run over some of the events moves text, but for that of its own events. -/
theorem kept_of_run {items : List XmlEvent}
    (h : items.foldlM (StoryParser.event baseRole styles mode) parser = .ok parser')
    (htold : ∀ i event, items[i]? = some event → told (parser.position + i) = said event)
    (hsound : parser.Sound told) :
    parser'.position = parser.position + items.length ∧ parser'.Sound told ∧
      ∀ source role, source < parser.position ∨ parser.position + items.length ≤ source →
        squash (told source) ≠ [] → parser'.held source role = parser.held source role := by
  induction items generalizing parser with
  | nil =>
    cases h
    exact ⟨rfl, hsound, fun _ _ _ _ => rfl⟩
  | cons event rest ih =>
    obtain ⟨next, hnext, hrest⟩ := foldlM_cons_ok _ h
    have hposition : next.position = parser.position + 1 :=
      congrArg Flags.position (flags_of_event hnext).1
    have hhead : told parser.position = said event := htold 0 event rfl
    obtain ⟨hsound', hheld⟩ := kept_of_event hnext (by rw [hhead]) hsound
    have htail : ∀ i other, rest[i]? = some other → told (next.position + i) = said other := by
      intro i other hother
      rw [hposition, Nat.add_assoc, Nat.add_comm 1]
      exact htold (i + 1) other hother
    obtain ⟨hposition', hsound'', hheld'⟩ := ih hrest htail hsound'
    rw [length_cons]
    refine ⟨by omega, hsound'', fun source role hsource hnew => ?_⟩
    rw [hheld' source role (by omega) hnew, hheld source role (by omega) hnew]

lemma sound_new (budget : OutputBudget) : (new budget).Sound told :=
  ⟨by simp [emitted, new], by simp [new], by simp [new]⟩

lemma held_new (budget : OutputBudget) (source : ℕ) (role : ContentRole) :
    (new budget).held source role = 0 := rfl

/-- After a run every passage is faithful. -/
theorem sound_of_run {events : List XmlEvent}
    (h : events.foldlM (StoryParser.event baseRole styles mode) (new budget) = .ok parser) :
    parser.Sound (toldBy events) := by
  have hsaid : ∀ i event, events[i]? = some event →
      toldBy events ((new budget).position + i) = said event := by
    intro i event hi
    simp [toldBy, new, hi]
  exact (kept_of_run h hsaid (sound_new budget)).2.1

/-- After the whole run the text of an event is held in the role the parser was in when it came, if
it was in a paragraph. -/
theorem held_of_run {before after : List XmlEvent} {text : Text}
    (h : (before ++ .text text :: after).foldlM (StoryParser.event baseRole styles mode)
      (new budget) = .ok parser) (htext : squash text ≠ []) :
    ∃ reached, before.foldlM (StoryParser.event baseRole styles mode) (new budget) = .ok reached ∧
      ∀ role, parser.held before.length role =
        if reached.paragraph.isSome ∧ reached.textRole = some role then 1 else 0 := by
  set events := before ++ .text text :: after with hevents
  obtain ⟨reached, next, hbefore, hstep, hafter⟩ := foldlM_append_cons_ok _ h
  have hown : toldBy events before.length = text := by simp [toldBy, hevents, said]
  have hearlier : ∀ i event, before[i]? = some event →
      toldBy events ((new budget).position + i) = said event := by
    intro i event hi
    have hlt : i < before.length := (List.getElem?_eq_some_iff.mp hi).1
    simp [toldBy, hevents, new, getElem?_append_left hlt, hi]
  obtain ⟨hposition, hsound, hheld⟩ := kept_of_run hbefore hearlier (sound_new budget)
  have hreached : reached.position = before.length := by simpa [new] using hposition
  -- up to the event nothing is held of it
  have hnone (role : ContentRole) : reached.held before.length role = 0 := by
    rw [hheld _ role (.inr (by simp [new])) (by rwa [hown]), held_new]
  obtain ⟨moved, hmoved, rfl⟩ := event_ok hstep
  have hmovedSpec : moved.position = before.length ∧ moved.Sound (toldBy events) ∧
      ∀ role, moved.held before.length role =
        if reached.paragraph.isSome ∧ reached.textRole = some role then 1 else 0 := by
    cases hmoved
    cases hrole : reached.textRole with
    | none => exact ⟨hreached, hsound, by simp [hnone]⟩
    | some role₀ =>
      obtain ⟨hsound', happend⟩ :=
        appendText_spec role₀ text (by rw [hreached, hown]) hsound
      refine ⟨hreached, hsound', fun role => ?_⟩
      have hne : text ≠ [] := by
        rintro rfl
        exact htext rfl
      simp [happend, hnone, hne, hreached]
  obtain ⟨hmovedPosition, hmovedSound, hmovedHeld⟩ := hmovedSpec
  have hlater : ∀ i event, after[i]? = some event →
      toldBy events ({ moved with position := moved.position + 1 }.position + i) = said event := by
    intro i event hi
    simp [toldBy, hevents, getElem?_append_right, hmovedPosition, hi, Nat.add_assoc, Nat.add_comm 1]
  obtain ⟨-, -, hheld'⟩ := kept_of_run hafter hlater
    ⟨hmovedSound.emitted, hmovedSound.row, hmovedSound.paragraph⟩
  refine ⟨reached, hbefore, fun role => ?_⟩
  have hpast : before.length < { moved with position := moved.position + 1 }.position := by
    show before.length < moved.position + 1
    omega
  rw [hheld' before.length role (.inl hpast) (by rwa [hown])]
  exact hmovedHeld role

end StoryParser

end Kwiry.Docx
