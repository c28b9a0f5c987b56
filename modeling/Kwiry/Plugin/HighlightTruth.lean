import Mathlib.Data.List.Infix
import Mathlib.Data.List.ModifyLast
import Kwiry.Foundations.Folds
import Kwiry.Plugin.HighlightMaps

/-!
# Highlights That Are True

An excerpt is cut from its text, and what it marks are occurrences of the terms, wherever the map of
the folded text is in step with it.
-/

namespace Kwiry.Plugin.Highlights

open Foundations List

variable (T : ScriptTables)

/-! ## §1 Terms and matches -/

lemma ne_nil_of_mem_extractHighlightTerms {query term : JsString}
    (h : term ∈ extractHighlightTerms T query) : term ≠ [] := by
  have hstep : ∀ (terms : List JsString) (piece : List JsString), (∀ term ∈ terms, term ≠ []) →
      ∀ term ∈ addTerm T terms piece, term ≠ [] := by
    intro terms piece hterms term hterm
    rw [addTerm] at hterm
    split at hterm
    · exact hterms term hterm
    · next hnew =>
      rcases mem_append.mp hterm with hterm | hterm
      · exact hterms term hterm
      · cases mem_singleton.mp hterm
        exact fun hnil => hnew (.inr (.inl hnil))
  exact foldl_induction hstep _ (fun _ hnone => by cases hnone) term h

section Matches

variable {folded : JsString} {terms : List JsString}

lemma termMatches_occurrences {term : JsString} (hterm : term ∈ terms) (fuel from_ : ℕ)
    {found : List Span} (hfound : ∀ span ∈ found, IsOccurrence terms folded span) :
    ∀ span ∈ termMatches folded term fuel from_ found, IsOccurrence terms folded span := by
  induction fuel generalizing from_ found with
  | zero => exact hfound
  | succ fuel ih =>
    rw [termMatches]
    split
    · exact hfound
    · next place hplace =>
      have hnext : ∀ span ∈ found ++ [(⟨place, place + term.length⟩ : Span)],
          IsOccurrence terms folded span := by
        intro span hspan
        rcases mem_append.mp hspan with hspan | hspan
        · exact hfound span hspan
        · cases mem_singleton.mp hspan
          exact ⟨term, hterm, (occurs_of_indexOf hplace).2, rfl⟩
      simp only
      split
      · exact hnext
      · exact ih _ hnext

lemma allMatches_occurrences (folded : JsString) (terms : List JsString) :
    ∀ span ∈ allMatches folded terms, IsOccurrence terms folded span := by
  unfold allMatches
  apply foldlRecOn (motive := fun found => ∀ span ∈ found, IsOccurrence terms folded span)
  · intro span hnone
    cases hnone
  · intro found hfound term hterm
    split
    · exact hfound
    · exact termMatches_occurrences hterm _ _ hfound

instance : Std.TransCmp compareMatches :=
  inferInstanceAs (Std.TransCmp (compareLex (compareOn Span.start)
    fun left right => compareOn Span.stop right left))

lemma findMatches_run {found : Span} (h : found ∈ findMatches folded terms) :
    Run terms folded found.start found.stop := by
  refine mergeSpans_run (fun span hspan => ?_) ?_ found h
  · exact allMatches_occurrences folded terms span (mem_sortBy.mp hspan)
  · refine (pairwise_sortBy compareMatches _).imp fun {left right} hle => ?_
    have hfirst : (compare left.start right.start).isLE = true := by
      cases hcmp : compare left.start right.start with
      | lt | eq => rfl
      | gt =>
        rw [compareMatches, hcmp] at hle
        cases hle
    exact Nat.isLE_compare.mp hfirst

end Matches

/-! ## §2 Segments -/

def joined (segments : List ExcerptSegment) : JsString := segments.flatMap ExcerptSegment.text

variable {segment : ExcerptSegment}

section Segments

variable {text : JsString} {map : List ℕ}

/-- What is marked is marked for a match. -/
theorem match_of_highlighted {cursor : ℕ} {matches_ : List Span}
    (h : segment ∈ segmentsFrom text map cursor matches_) (hmarked : segment.highlighted = true) :
    ∃ found ∈ matches_, segment.text =
      slice text (map[found.start]?.getD text.length) (sourceEnd map found.stop text.length) := by
  induction matches_ generalizing cursor with
  | nil =>
    rw [segmentsFrom] at h
    split at h
    · cases mem_singleton.mp h
      cases hmarked
    · cases h
  | cons found rest ih =>
    simp only [segmentsFrom] at h
    split at h
    · obtain ⟨other, hother, htext⟩ := ih h
      exact ⟨other, mem_cons_of_mem _ hother, htext⟩
    · rcases mem_append.mp h with hplain | hrest
      · split at hplain
        · cases mem_singleton.mp hplain
          cases hmarked
        · cases hplain
      · rcases mem_cons.mp hrest with rfl | hrest
        · exact ⟨found, mem_cons_self, rfl⟩
        · obtain ⟨other, hother, htext⟩ := ih hrest
          exact ⟨other, mem_cons_of_mem _ hother, htext⟩

lemma slice_append_slice (text : JsString) {start middle stop : ℕ} (hstart : start ≤ middle)
    (hstop : middle ≤ stop) :
    slice text start middle ++ slice text middle stop = slice text start stop := by
  rw [slice, slice, slice, drop_take, drop_take, drop_take]
  have hmiddle : middle - start + (stop - middle) = stop - start := by omega
  rw [← hmiddle, take_add, drop_drop, Nat.add_sub_cancel' hstart]

lemma slice_append_drop (text : JsString) {start stop : ℕ} (h : start ≤ stop) :
    slice text start stop ++ text.drop stop = text.drop start := by
  by_cases hstop : stop ≤ text.length
  · have hle : start ≤ (text.take stop).length := by rwa [length_take_of_le hstop]
    rw [slice, ← drop_append_of_le_length hle, take_append_drop]
  · have hall : text.length ≤ stop := Nat.le_of_not_le hstop
    rw [slice, take_of_length_le hall, drop_eq_nil_of_le hall, append_nil]

/-- The segments make up the rest of the text. -/
theorem joined_segmentsFrom {cursor : ℕ} {matches_ : List Span} (hrising : map.Pairwise (· ≤ ·))
    (hbounds : ∀ entry ∈ map, entry ≤ text.length)
    (hmatches : ∀ found ∈ matches_, found.start ≤ found.stop) :
    joined (segmentsFrom text map cursor matches_) = text.drop cursor := by
  induction matches_ generalizing cursor with
  | nil =>
    rw [segmentsFrom]
    split
    · exact append_nil _
    · next hend => exact (drop_eq_nil_of_le (Nat.le_of_not_lt hend)).symm
  | cons found rest ih =>
    have hrest := fun cursor => @ih cursor fun other hother =>
      hmatches other (mem_cons_of_mem _ hother)
    simp only [segmentsFrom]
    split
    · exact hrest cursor
    · next hstart =>
      set start := map[found.start]?.getD text.length with hstart_def
      set stop := sourceEnd map found.stop text.length with hstop_def
      have hstop : start ≤ stop := getD_mono hrising hbounds (hmatches found mem_cons_self)
      have hplain : joined (if cursor < start then [⟨slice text cursor start, false⟩] else []) =
          slice text cursor start := by
        split
        · exact append_nil _
        · next hnot =>
          have hnone : slice text cursor start = [] := by
            rw [slice, drop_eq_nil_iff]
            exact (length_take_le _ _).trans (Nat.le_of_not_lt hnot)
          rw [hnone]
          rfl
      have hcons : ∀ segments, joined (⟨slice text start stop, true⟩ :: segments) =
          slice text start stop ++ joined segments := fun _ => rfl
      rw [joined, flatMap_append]
      change joined _ ++ joined _ = _
      rw [hplain, hcons, hrest, ← append_assoc,
        slice_append_slice text (Nat.le_of_not_lt hstart) hstop]
      exact slice_append_drop text ((Nat.le_of_not_lt hstart).trans hstop)

end Segments

/-! ## §3 The cap and the blanks -/

lemma joined_boundSegments (total : ℕ) (segments : List ExcerptSegment) :
    joined (boundSegments total segments).1 <+: joined segments := by
  induction segments generalizing total with
  | nil => exact prefix_rfl
  | cons segment rest ih =>
    have hcons : joined (segment :: rest) = segment.text ++ joined rest := rfl
    rw [boundSegments]
    split
    · next hempty =>
      rw [hcons, hempty]
      exact ih total
    · split
      · exact nil_prefix
      · split
        · rw [hcons]
          have hcut : joined [⟨segment.text.take (maxHydratedExcerptCharacters - total),
              segment.highlighted⟩] =
              segment.text.take (maxHydratedExcerptCharacters - total) := append_nil _
          rw [hcut]
          refine IsPrefix.trans ?_ (prefix_append _ _)
          exact take_prefix _ _
        · exact (prefix_append_right_inj segment.text).mpr (ih _)

lemma joined_filter (segments : List ExcerptSegment) :
    joined (segments.filter fun segment => segment.text ≠ []) = joined segments := by
  induction segments with
  | nil => rfl
  | cons segment rest ih =>
    rw [filter_cons]
    split
    · exact congrArg (segment.text ++ ·) ih
    · next hempty =>
      have hempty : segment.text = [] := by simpa using hempty
      have hcons : joined (segment :: rest) = segment.text ++ joined rest := rfl
      rw [ih, hcons, hempty, nil_append]

lemma trimPlain_text (trim : JsString → JsString) (segment : ExcerptSegment) :
    (trimPlain trim segment).text = segment.text ∨
      (trimPlain trim segment).text = trim segment.text := by
  rw [trimPlain]
  split
  · exact .inl rfl
  · exact .inr rfl

lemma joined_modifyHead (segments : List ExcerptSegment) :
    joined (segments.modifyHead (trimPlain trimStart)) <:+ joined segments := by
  cases segments with
  | nil => exact suffix_rfl
  | cons segment rest =>
    have hsuffix : (trimPlain trimStart segment).text <:+ segment.text := by
      rcases trimPlain_text trimStart segment with htext | htext
      · rw [htext]
      · rw [htext]
        exact dropWhile_suffix _
    obtain ⟨gone, hgone⟩ := hsuffix
    refine ⟨gone, ?_⟩
    show gone ++ ((trimPlain trimStart segment).text ++ joined rest) = segment.text ++ joined rest
    rw [← append_assoc, hgone]

lemma joined_modifyLast (segments : List ExcerptSegment) :
    joined (segments.modifyLast (trimPlain trimEnd)) <+: joined segments := by
  rcases eq_nil_or_concat segments with rfl | ⟨front, segment, rfl⟩
  · exact prefix_rfl
  · have hprefix : (trimPlain trimEnd segment).text <+: segment.text := by
      rcases trimPlain_text trimEnd segment with htext | htext
      · rw [htext]
      · rw [htext, trimEnd, ← reverse_suffix, reverse_reverse]
        exact dropWhile_suffix _
    have hlast : ∀ last : ExcerptSegment, joined (front ++ [last]) = joined front ++ last.text := by
      intro last
      rw [joined, flatMap_append]
      simp [joined]
    rw [concat_eq_append, modifyLast_concat, hlast, hlast]
    exact (prefix_append_right_inj _).mpr hprefix

lemma joined_trimSegments (segments : List ExcerptSegment) :
    joined (trimSegments segments) <:+: joined segments := by
  rw [trimSegments, joined_filter]
  exact (joined_modifyLast _).isInfix.trans (joined_modifyHead segments).isInfix

/-! ## §4 The excerpt -/

/-- The piece of a text that its excerpt shows. -/
def shownPiece (text : JsString) (terms : List JsString) : JsString :=
  if isBlank (scopedText text) then [] else shownText T (scopedText text) terms

/-- The segments of an excerpt that are of its text. -/
def ownSegments (text : JsString) (terms : List JsString) : List ExcerptSegment :=
  if isBlank (scopedText text) then []
  else trimSegments (boundSegments 0 (markedSegments T (shownPiece T text terms) terms)).1

/-- The segments that the cap has not cut are those that were marked in the piece that is shown. -/
structure HighlightsTruthful (text : JsString) (terms : List JsString) : Prop where
  ellipses : ∃ before after : List ExcerptSegment, before ⊆ [ellipsis] ∧ after ⊆ [ellipsis] ∧
    hydrateExcerpt T text terms = before ++ ownSegments T text terms ++ after
  piece : joined (ownSegments T text terms) <:+: sanitizeExcerptText text
  marked : ∀ segment ∈ ownSegments T text terms, segment.highlighted = true →
    segment ∈ markedSegments T (shownPiece T text terms) terms →
    IsUnion terms (folds T segment.text)
  exact : ∀ found ∈ findMatches (folds T (shownPiece T text terms)) terms,
    MarksExactly T (shownPiece T text terms) found

/-- The matches in a text lie between boundaries. -/
def InStep (shown : JsString) (terms : List JsString) : Prop :=
  ∀ found ∈ findMatches (folds T shown) terms,
    Boundary T shown found.start ∧ EndBoundary T shown found.stop

lemma hydrateExcerpt_own (text : JsString) (terms : List JsString) :
    ∃ before after : List ExcerptSegment, before ⊆ [ellipsis] ∧ after ⊆ [ellipsis] ∧
      hydrateExcerpt T text terms = before ++ ownSegments T text terms ++ after := by
  unfold hydrateExcerpt ownSegments shownPiece
  simp only
  split
  · exact ⟨[], [], nil_subset _, nil_subset _, rfl⟩
  · unfold finalizeSegments
    simp only
    split
    · next hnone => exact ⟨[], [], nil_subset _, nil_subset _, by rw [hnone]; rfl⟩
    · refine ⟨_, _, ?_, ?_, rfl⟩
      · split
        · exact Subset.refl _
        · exact nil_subset _
      · split
        · exact Subset.refl _
        · exact nil_subset _

lemma joined_markedSegments (shown : JsString) (terms : List JsString) :
    joined (markedSegments T shown terms) = shown := by
  obtain ⟨hrising, hbounds⟩ := foldFrom_rising T 0 (characters shown)
  rw [flatten_characters, Nat.zero_add] at hbounds
  exact joined_segmentsFrom hrising (fun entry hentry => (hbounds entry hentry).2)
    fun _ hfound => (findMatches_run hfound).le

lemma own_infix (text : JsString) (terms : List JsString) :
    joined (ownSegments T text terms) <:+: sanitizeExcerptText text := by
  unfold ownSegments shownPiece
  split
  · exact nil_infix
  · set body := scopedText text
    have hbound := joined_boundSegments 0 (markedSegments T (shownText T body terms) terms)
    refine (joined_trimSegments _).trans (hbound.isInfix.trans ?_)
    rw [joined_markedSegments]
    have htake : body.take (excerptWindow T body terms).stop <+: body := take_prefix _ _
    have hslice : slice body (excerptWindow T body terms).start (excerptWindow T body terms).stop
        <:+: text :=
      ((drop_suffix _ _).isInfix.trans htake.isInfix).trans (drop_suffix _ _).isInfix
    exact hslice.map _

/-- A segment that is marked exactly is a union of occurrences. -/
theorem union_of_marksExactly {shown : JsString} {terms : List JsString}
    (hne : ∀ term ∈ terms, term ≠ [])
    (h : ∀ found ∈ findMatches (folds T shown) terms, MarksExactly T shown found)
    (hsegment : segment ∈ markedSegments T shown terms) (hmarked : segment.highlighted = true) :
    IsUnion terms (folds T segment.text) := by
  rw [markedSegments, folded_foldWithMap] at hsegment
  obtain ⟨found, hfound, htext⟩ := match_of_highlighted hsegment hmarked
  have hfolds := folds_mark T (h found hfound)
  rw [markOf, ← htext] at hfolds
  rw [hfolds]
  exact isUnion_slice (findMatches_run hfound) hne

lemma marksExactly_iff_inStep {shown : JsString} {terms : List JsString}
    (hne : ∀ term ∈ terms, term ≠ []) :
    (∀ found ∈ findMatches (folds T shown) terms, MarksExactly T shown found) ↔
      InStep T shown terms := by
  refine forall₂_congr fun found hfound => ?_
  have hrun := findMatches_run hfound
  exact marksExactly_iff T (hrun.lt hne) (hrun.le_length hne)

/-- Which excerpts are truthful: those where each match begins between two characters, with fewer
characters outside the basic plane before it than its first character folds to, and ends so or with
the piece that is shown. -/
theorem truthful_iff (text query : JsString) :
    HighlightsTruthful T text (extractHighlightTerms T query) ↔
      InStep T (shownPiece T text (extractHighlightTerms T query))
        (extractHighlightTerms T query) := by
  have hne : ∀ term ∈ extractHighlightTerms T query, term ≠ [] :=
    fun _ hterm => ne_nil_of_mem_extractHighlightTerms T hterm
  rw [← marksExactly_iff_inStep T hne]
  constructor
  · exact fun h => h.exact
  · intro hexact
    exact ⟨hydrateExcerpt_own T text _, own_infix T text _,
      fun _ _ hmarked huncut => union_of_marksExactly T hne hexact huncut hmarked, hexact⟩

/-! ## §5 A character outside the basic plane -/

/-- The small table, with its letters. -/
def latinScript : ScriptTables where
  toCharTables := CharTables.latin
  isLetter c := c.isAlpha
  isCased c := c.isAlpha
  isCaseIgnorable _ := false
  ascii c hc := CharTables.of_ascii
    (P := fun c => CharTables.latin.decompose c = [c] ∧
      CharTables.latin.isCombiningMark c = false ∧ CharTables.latin.toLowercase c = [c.toLower])
    (by decide +kernel) c hc

/-- An emoji, and a word that the query has. -/
def astralText : JsString := [0xd83d, 0xde00] ++ js "cat sat"

/-- The mark begins and ends a letter too late. -/
theorem astral_untruthful :
    ¬ HighlightsTruthful latinScript astralText (extractHighlightTerms latinScript (js "cat")) := by
  intro h
  have hmarked := h.marked ⟨js "at ", true⟩ (by decide +kernel) rfl (by decide +kernel)
  obtain ⟨term, hterm, hoccurs⟩ := hmarked.begins
  have hterms : extractHighlightTerms latinScript (js "cat") = [js "cat"] := by decide +kernel
  rw [hterms, mem_singleton] at hterm
  subst hterm
  revert hoccurs
  decide +kernel

end Kwiry.Plugin.Highlights
