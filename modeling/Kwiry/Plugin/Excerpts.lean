import Kwiry.Foundations.Replacement

/-!
# Excerpts on Their Way to the Plugin

The daemon shows a snippet with its matches in `<b>` tags and its text escaped, or, where there is
no snippet, the beginning of the chunk as it stands. The plugin has one reader for both. It reads a
snippet back exactly; text of a note is taken for markup where it looks like it.
-/

namespace Kwiry.Plugin

open Foundations List

/-! ## §1 The daemon -/

/-- What a snippet generator finds: its fragment, cut before and after each range it marks, and what
is left after the last one. -/
structure Snippet where
  pieces : List (Text × Text)
  tail : Text

def Snippet.fragment (s : Snippet) : Text :=
  s.pieces.flatMap (fun piece => piece.1 ++ piece.2) ++ s.tail

/-- The characters of a fragment, each with whether it is in a marked range. -/
def Snippet.marks (s : Snippet) : List (Char × Bool) :=
  s.pieces.flatMap (fun piece => piece.1.map (·, false) ++ piece.2.map (·, true)) ++
    s.tail.map (·, false)

/-- The entities for an apostrophe. -/
def apostrophes : List Text := ["&#x27;".toList, "&#39;".toList, "&apos;".toList]

/-- The one that a snippet generator writes. -/
structure Apostrophe where
  entity : Text
  known : entity ∈ apostrophes

/-- A character of a fragment in HTML. -/
def escapeChar (apostrophe : Text) (c : Char) : Text :=
  if c = '&' then "&amp;".toList
  else if c = '<' then "&lt;".toList
  else if c = '>' then "&gt;".toList
  else if c = '"' then "&quot;".toList
  else if c = '\'' then apostrophe
  else [c]

def htmlEscape (apostrophe : Apostrophe) (t : Text) : Text :=
  t.flatMap (escapeChar apostrophe.entity)

def highlightOpen : Text := "<b>".toList

def highlightClose : Text := "</b>".toList

def Snippet.toHtml (apostrophe : Apostrophe) (s : Snippet) : Text :=
  s.pieces.flatMap (fun piece =>
    htmlEscape apostrophe piece.1 ++ (highlightOpen ++
      (htmlEscape apostrophe piece.2 ++ highlightClose))) ++
    htmlEscape apostrophe s.tail

/-- The beginning of a chunk. -/
def fallbackExcerpt (content : Text) : Text :=
  content.take 240 ++ if 240 < content.length then ['…'] else []

/-- The excerpt of a hit: a hit without a snippet generator has the beginning of its chunk, and so
has one whose fragment is blank. -/
def hitExcerpt (apostrophe : Apostrophe) (content : Text) : Option Snippet → Text
  | some snippet =>
    if trim snippet.fragment = [] then fallbackExcerpt content else snippet.toHtml apostrophe
  | none => fallbackExcerpt content

/-! ## §2 The plugin -/

structure ExcerptSegment where
  text : Text
  highlighted : Bool

/-- The passes of `decodeEntities`: the entities of each, and their character. -/
def entityPasses : List (List Text × Text) :=
  [(["&lt;".toList], ['<']), (["&gt;".toList], ['>']), (["&quot;".toList], ['"']),
    (["&#x27;".toList, "&#27;".toList, "&#39;".toList, "&apos;".toList], ['\'']),
    (["&amp;".toList], ['&'])]

def decodeEntities (t : Text) : Text := replacePasses entityPasses t

/-- The rounds of `parseMarkedExcerpt` over what is left of an excerpt. -/
def markedSegments (startMarker endMarker : Text) (normalize : Text → Text) :
    ℕ → Text → List ExcerptSegment
  | 0, _ => []
  | rounds + 1, rest =>
    if rest = [] then []
    else match splitFirst startMarker rest with
      | none => [⟨normalize rest, false⟩]
      | some (before, inside) =>
        match splitFirst endMarker inside with
        | none => [⟨normalize rest, false⟩]
        | some (marked, after) =>
          (if before = [] then [] else [⟨normalize before, false⟩]) ++
            ⟨normalize marked, true⟩ :: markedSegments startMarker endMarker normalize rounds after

/-- Every round but the last takes a start marker from the excerpt, so that there are never more
rounds than characters. -/
def parseMarkedExcerpt (excerpt startMarker endMarker : Text) (normalize : Text → Text) :
    List ExcerptSegment :=
  (markedSegments startMarker endMarker normalize excerpt.length excerpt).filter
    fun segment => 0 < segment.text.length

def parseExcerpt (excerpt : Text) : List ExcerptSegment :=
  parseMarkedExcerpt excerpt highlightOpen highlightClose decodeEntities

/-! ## §3 What survives -/

/-- The text of segments. -/
def segmentText (segments : List ExcerptSegment) : Text := segments.flatMap (·.text)

/-- The characters of segments, each with whether it is highlighted. -/
def segmentMarks (segments : List ExcerptSegment) : List (Char × Bool) :=
  segments.flatMap fun segment => segment.text.map (·, segment.highlighted)

/-- The text that an excerpt is made from. -/
def sourceText (content : Text) : Option Snippet → Text
  | some snippet =>
    if trim snippet.fragment = [] then fallbackExcerpt content else snippet.fragment
  | none => fallbackExcerpt content

/-- The characters of that text, each with whether the snippet generator marked it. -/
def sourceMarks (content : Text) : Option Snippet → List (Char × Bool)
  | some snippet =>
    if trim snippet.fragment = [] then (fallbackExcerpt content).map (·, false)
    else snippet.marks
  | none => (fallbackExcerpt content).map (·, false)

/-- The segments of a hit have the text its excerpt is made from, and of it is highlighted what the
snippet generator marked. -/
def Survives (apostrophe : Apostrophe) (content : Text) (snippet : Option Snippet) : Prop :=
  segmentText (parseExcerpt (hitExcerpt apostrophe content snippet)) = sourceText content snippet ∧
    segmentMarks (parseExcerpt (hitExcerpt apostrophe content snippet)) =
      sourceMarks content snippet

/-- The hit shows a snippet. -/
def ShowsSnippet (snippet : Option Snippet) : Prop := ∃ s ∈ snippet, trim s.fragment ≠ []

/-- Nothing in a text looks like an entity or a pair of highlight tags. -/
def IsLiteral (t : Text) : Prop :=
  (∀ pass ∈ entityPasses, ∀ entity ∈ pass.1, ¬ entity <:+: t) ∧
    ¬ ∃ before inside after,
      t = before ++ (highlightOpen ++ (inside ++ (highlightClose ++ after)))

/-! ## §4 Entities -/

lemma entityPasses_shorter :
    ∀ pass ∈ entityPasses, ∀ entity ∈ pass.1, pass.2.length < entity.length := by decide

/-- The characters that are escaped. -/
def specialChars : List Char := ['&', '<', '>', '"', '\'']

lemma escapeChar_plain {apostrophe : Text} {c : Char} (hc : c ∉ specialChars) :
    escapeChar apostrophe c = [c] := by
  simp only [specialChars, mem_cons, not_mem_nil, or_false, not_or] at hc
  simp [escapeChar, hc]

lemma escapeChar_entity : ∀ apostrophe ∈ apostrophes, ∀ c ∈ specialChars,
    (escapeChar apostrophe c).head? = some '&' ∧ '&' ∉ (escapeChar apostrophe c).tail := by
  decide

/-- Each pass restores its own character, and no other is taken for it. -/
theorem entityPasses_apart : ∀ apostrophe ∈ apostrophes, ∀ pass ∈ entityPasses,
    ∀ c ∈ specialChars,
      (pass.2 = [c] → escapeChar apostrophe c ∈ pass.1) ∧
      (pass.2 ≠ [c] → ∀ pattern ∈ pass.1,
        ¬ pattern <+: escapeChar apostrophe c ∧ ¬ escapeChar apostrophe c <+: pattern) := by
  decide

lemma entityPasses_patterns : ∀ pass ∈ entityPasses,
    (∀ pattern ∈ pass.1, pattern.head? = some '&') ∧
      ∀ pattern ∈ pass.1, ∀ other ∈ pass.1, pattern <+: other → pattern = other := by
  decide

/-- The spelling of a character after the passes for some characters. -/
def escapeRest (apostrophe : Text) (done : List Char) (c : Char) : Text :=
  if c ∈ done then [c] else escapeChar apostrophe c

section Decoding

variable {apostrophe : Text} (hknown : apostrophe ∈ apostrophes)

include hknown in
lemma escapeRest_respelled {done patterns : List _} {d : Char}
    (hpass : (patterns, [d]) ∈ entityPasses) (hspecial : d ∈ specialChars) (hamp : '&' ∉ done)
    (c : Char) :
    Respelled '&' patterns [d] c (escapeRest apostrophe done c)
      (escapeRest apostrophe (d :: done) c) := by
  by_cases hdone : c ∈ done
  · rw [escapeRest, escapeRest, if_pos hdone, if_pos (mem_cons_of_mem d hdone)]
    apply Respelled.plain
    rintro rfl
    exact hamp hdone
  · rw [escapeRest, if_neg hdone]
    by_cases hc : c = d
    · subst hc
      rw [escapeRest, if_pos mem_cons_self]
      exact .replaced _ ((entityPasses_apart _ hknown _ hpass c hspecial).1 rfl)
    · rw [escapeRest, if_neg (by simp [hc, hdone])]
      by_cases hescaped : c ∈ specialChars
      · obtain ⟨hhead, htail⟩ := escapeChar_entity _ hknown c hescaped
        have happart := (entityPasses_apart _ hknown _ hpass c hescaped).2 (by simp [Ne.symm hc])
        refine .kept _ ⟨_, ?_, htail⟩ happart
        exact eq_cons_of_mem_head? hhead
      · rw [escapeChar_plain hescaped]
        apply Respelled.plain
        rintro rfl
        exact hescaped (by simp [specialChars])

include hknown in
lemma pass_escapeRest {done patterns : List _} {d : Char} (hpass : (patterns, [d]) ∈ entityPasses)
    (hspecial : d ∈ specialChars) (hamp : '&' ∉ done) (t : Text) :
    replaceAll patterns [d] (t.flatMap (escapeRest apostrophe done)) =
      t.flatMap (escapeRest apostrophe (d :: done)) := by
  obtain ⟨hpatterns, hfree⟩ := entityPasses_patterns _ hpass
  exact replaceAll_flatMap hpatterns hfree (escapeRest_respelled hknown hpass hspecial hamp) t

end Decoding

lemma decodeEntities_htmlEscape (apostrophe : Apostrophe) (t : Text) :
    decodeEntities (htmlEscape apostrophe t) = t := by
  have hstart : htmlEscape apostrophe t = t.flatMap (escapeRest apostrophe.entity []) := rfl
  have hend : t.flatMap (escapeRest apostrophe.entity ['&', '\'', '"', '>', '<']) = t := by
    have hall : ∀ c, escapeRest apostrophe.entity ['&', '\'', '"', '>', '<'] c = [c] := by
      intro c
      rw [escapeRest]
      split
      · rfl
      · next hdone =>
        refine escapeChar_plain (mt ?_ hdone)
        simp only [specialChars, mem_cons, not_mem_nil, or_false]
        tauto
    rw [funext hall]
    exact flatMap_singleton' t
  have hknown := apostrophe.known
  rw [decodeEntities, hstart]
  simp only [replacePasses, entityPasses, foldl_cons, foldl_nil]
  rw [pass_escapeRest hknown (by decide) (by decide) (by decide),
    pass_escapeRest hknown (by decide) (by decide) (by decide),
    pass_escapeRest hknown (by decide) (by decide) (by decide),
    pass_escapeRest hknown (by decide) (by decide) (by decide),
    pass_escapeRest hknown (by decide) (by decide) (by decide), hend]

/-! ## §5 Rounds -/

section

variable {startMarker endMarker : Text} {normalize : Text → Text}

/-- As many rounds as characters are enough. -/
theorem markedSegments_enough (hstart : startMarker ≠ []) {rounds more : ℕ} {rest : Text}
    (hrounds : rest.length ≤ rounds) (hmore : rest.length ≤ more) :
    markedSegments startMarker endMarker normalize rounds rest =
      markedSegments startMarker endMarker normalize more rest := by
  induction rounds generalizing more rest with
  | zero =>
    have hempty : rest = [] := length_eq_zero_iff.mp (Nat.le_zero.mp hrounds)
    cases more with
    | zero => rfl
    | succ more => rw [markedSegments, markedSegments, if_pos hempty]
  | succ rounds ih =>
    cases more with
    | zero =>
      have hempty : rest = [] := length_eq_zero_iff.mp (Nat.le_zero.mp hmore)
      rw [markedSegments, markedSegments, if_pos hempty]
    | succ more =>
      rw [markedSegments, markedSegments]
      split
      · rfl
      · split
        · rfl
        · next before inside hopen =>
          split
          · rfl
          · next marked after hclose =>
            -- a start marker has been taken from what is left
            have hlength := congrArg length (splitFirst_eq_some hopen)
            have hinside := congrArg length (splitFirst_eq_some hclose)
            have hpos := length_pos_iff.mpr hstart
            simp only [length_append] at hlength hinside
            rw [ih (by omega) (show after.length ≤ more by omega)]

end

/-- The segments of one round. -/
theorem parseExcerpt_found {excerpt before inside marked after : Text}
    (hopen : splitFirst highlightOpen excerpt = some (before, inside))
    (hclose : splitFirst highlightClose inside = some (marked, after)) :
    parseExcerpt excerpt =
      [⟨decodeEntities before, false⟩, ⟨decodeEntities marked, true⟩].filter
        (fun segment => 0 < segment.text.length) ++ parseExcerpt after := by
  have hlength := congrArg length (splitFirst_eq_some hopen)
  have hinside := congrArg length (splitFirst_eq_some hclose)
  have hpos : highlightOpen.length = 3 := by decide
  simp only [length_append] at hlength hinside
  obtain ⟨rounds, hrounds⟩ : ∃ rounds, excerpt.length = rounds + 1 :=
    Nat.exists_eq_succ_of_ne_zero (by omega)
  have hne : excerpt ≠ [] := length_pos_iff.mp (by omega)
  have hsegments : markedSegments highlightOpen highlightClose decodeEntities excerpt.length excerpt
      = (if before = [] then [] else [⟨decodeEntities before, false⟩]) ++
        ⟨decodeEntities marked, true⟩ ::
          markedSegments highlightOpen highlightClose decodeEntities after.length after := by
    rw [hrounds, markedSegments, if_neg hne]
    simp only [hopen, hclose]
    rw [markedSegments_enough (by decide) (show after.length ≤ rounds by omega) (Nat.le_refl _)]
  rw [parseExcerpt, parseMarkedExcerpt, hsegments, filter_append, filter_cons]
  have hbefore : (if before = [] then [] else [⟨decodeEntities before, false⟩]).filter
      (fun segment : ExcerptSegment => 0 < segment.text.length) =
      [⟨decodeEntities before, false⟩].filter (fun segment => 0 < segment.text.length) := by
    split
    · next hempty =>
      rw [hempty]
      rfl
    · rfl
  rw [hbefore]
  simp only [parseExcerpt, parseMarkedExcerpt, filter_cons, filter_nil]
  split <;> split <;> rfl

/-- Without a pair of tags an excerpt is one segment. -/
theorem parseExcerpt_plain {excerpt : Text}
    (hnone : ∀ before inside, splitFirst highlightOpen excerpt = some (before, inside) →
      splitFirst highlightClose inside = none) :
    parseExcerpt excerpt =
      [⟨decodeEntities excerpt, false⟩].filter (fun segment => 0 < segment.text.length) := by
  rw [parseExcerpt, parseMarkedExcerpt]
  cases hlength : excerpt.length with
  | zero =>
    rw [length_eq_zero_iff.mp hlength]
    rfl
  | succ rounds =>
    have hne : excerpt ≠ [] := length_pos_iff.mp (by omega)
    rw [markedSegments, if_neg hne]
    cases hopen : splitFirst highlightOpen excerpt with
    | none => rfl
    | some parts =>
      obtain ⟨before, inside⟩ := parts
      simp only [hnone before inside hopen]

@[simp] lemma segmentText_append (front back : List ExcerptSegment) :
    segmentText (front ++ back) = segmentText front ++ segmentText back := flatMap_append

lemma segmentMarks_filter (segments : List ExcerptSegment) :
    segmentMarks (segments.filter fun segment => 0 < segment.text.length) =
      segmentMarks segments := by
  induction segments with
  | nil => rfl
  | cons segment segments ih =>
    rw [filter_cons]
    split
    · exact congrArg (segment.text.map (·, segment.highlighted) ++ ·) ih
    · next hempty =>
      have htext : segment.text = [] := by simpa using hempty
      rw [ih]
      show _ = segment.text.map (·, segment.highlighted) ++ _
      rw [htext]
      rfl

lemma segmentText_eq (segments : List ExcerptSegment) :
    segmentText segments = (segmentMarks segments).map Prod.fst := by
  induction segments with
  | nil => rfl
  | cons segment segments ih =>
    show segment.text ++ segmentText segments = map _ (_ ++ segmentMarks segments)
    rw [map_append, ih, map_map]
    show _ = map id segment.text ++ _
    rw [map_id]

/-! ## §6 Snippets -/

lemma escapeChar_ne_open : ∀ apostrophe ∈ apostrophes, ∀ c ∈ specialChars,
    '<' ∉ escapeChar apostrophe c := by decide

lemma not_mem_htmlEscape (apostrophe : Apostrophe) (t : Text) :
    '<' ∉ htmlEscape apostrophe t := by
  intro hmem
  obtain ⟨c, -, hc⟩ := mem_flatMap.mp hmem
  by_cases hspecial : c ∈ specialChars
  · exact escapeChar_ne_open _ apostrophe.known c hspecial hc
  · rw [escapeChar_plain hspecial, mem_singleton] at hc
    exact hspecial (hc ▸ by decide)

lemma parseExcerpt_escaped (apostrophe : Apostrophe) (t : Text) :
    parseExcerpt (htmlEscape apostrophe t) =
      [⟨t, false⟩].filter fun segment => 0 < segment.text.length := by
  rw [parseExcerpt_plain, decodeEntities_htmlEscape]
  intro before inside hopen
  have hmem : '<' ∈ htmlEscape apostrophe t := by
    rw [splitFirst_eq_some hopen]
    simp [highlightOpen]
  exact absurd hmem (not_mem_htmlEscape apostrophe t)

lemma parseExcerpt_piece (apostrophe : Apostrophe) (before marked after : Text) :
    parseExcerpt (htmlEscape apostrophe before ++ (highlightOpen ++
        (htmlEscape apostrophe marked ++ highlightClose)) ++ after) =
      [⟨before, false⟩, ⟨marked, true⟩].filter (fun segment => 0 < segment.text.length) ++
        parseExcerpt after := by
  have hopen : splitFirst highlightOpen (htmlEscape apostrophe before ++ (highlightOpen ++
      (htmlEscape apostrophe marked ++ highlightClose)) ++ after) =
      some (htmlEscape apostrophe before ++ [],
        htmlEscape apostrophe marked ++ (highlightClose ++ after)) := by
    rw [append_assoc, append_assoc, append_assoc]
    apply splitFirst_append (not_mem_htmlEscape apostrophe before)
    exact splitFirst_found (by decide) _
  have hclose : splitFirst highlightClose
      (htmlEscape apostrophe marked ++ (highlightClose ++ after)) =
      some (htmlEscape apostrophe marked ++ [], after) := by
    apply splitFirst_append (not_mem_htmlEscape apostrophe marked)
    exact splitFirst_found (by decide) _
  rw [parseExcerpt_found hopen hclose, append_nil, append_nil,
    decodeEntities_htmlEscape, decodeEntities_htmlEscape]

/-- The segments of a snippet, its marked ranges highlighted. -/
def Snippet.segments (s : Snippet) : List ExcerptSegment :=
  s.pieces.flatMap (fun piece => [⟨piece.1, false⟩, ⟨piece.2, true⟩]) ++ [⟨s.tail, false⟩]

lemma parseExcerpt_toHtml (apostrophe : Apostrophe) (s : Snippet) :
    parseExcerpt (s.toHtml apostrophe) =
      s.segments.filter fun segment => 0 < segment.text.length := by
  obtain ⟨pieces, tail⟩ := s
  rw [Snippet.toHtml, Snippet.segments]
  induction pieces with
  | nil => exact parseExcerpt_escaped apostrophe tail
  | cons piece pieces ih =>
    rw [flatMap_cons, append_assoc, parseExcerpt_piece, ih, flatMap_cons,
      append_assoc, filter_append, filter_append, filter_append]

lemma segmentMarks_toHtml (apostrophe : Apostrophe) (s : Snippet) :
    segmentMarks (parseExcerpt (s.toHtml apostrophe)) = s.marks := by
  rw [parseExcerpt_toHtml, segmentMarks_filter, segmentMarks, Snippet.segments, Snippet.marks,
    flatMap_append, flatMap_assoc]
  simp

lemma Snippet.marks_text (s : Snippet) : s.marks.map Prod.fst = s.fragment := by
  rw [Snippet.marks, Snippet.fragment, map_append, map_flatMap]
  simp [map_map, Function.comp_def]

/-! ## §7 Plain text -/

lemma decodeEntities_length_le (t : Text) : (decodeEntities t).length ≤ t.length :=
  replacePasses_length_le entityPasses_shorter t

lemma segmentText_length_le (excerpt : Text) :
    (segmentText (parseExcerpt excerpt)).length ≤ excerpt.length := by
  induction hlength : excerpt.length using Nat.strong_induction_on generalizing excerpt with
  | _ n ih =>
    subst hlength
    by_cases hfound : ∃ before inside marked after,
        splitFirst highlightOpen excerpt = some (before, inside) ∧
          splitFirst highlightClose inside = some (marked, after)
    · obtain ⟨before, inside, marked, after, hopen, hclose⟩ := hfound
      have hexcerpt := congrArg length (splitFirst_eq_some hopen)
      have hinside := congrArg length (splitFirst_eq_some hclose)
      have hpos : highlightOpen.length = 3 := by decide
      simp only [length_append] at hexcerpt hinside
      have hafter := ih after.length (by omega) after rfl
      have hbefore := decodeEntities_length_le before
      have hmarked := decodeEntities_length_le marked
      rw [parseExcerpt_found hopen hclose, segmentText_append, length_append,
        segmentText_eq, segmentMarks_filter]
      simp [segmentMarks]
      omega
    · rw [parseExcerpt_plain, segmentText_eq, segmentMarks_filter]
      · simpa [segmentMarks] using decodeEntities_length_le excerpt
      · intro before inside hopen
        by_contra hsome
        obtain ⟨parts, hparts⟩ := Option.ne_none_iff_exists'.mp hsome
        exact hfound ⟨before, inside, parts.1, parts.2, hopen, hparts⟩

lemma highlightPair_iff (t : Text) :
    (∃ before inside after,
        t = before ++ (highlightOpen ++ (inside ++ (highlightClose ++ after)))) ↔
      ∃ before inside marked after, splitFirst highlightOpen t = some (before, inside) ∧
        splitFirst highlightClose inside = some (marked, after) := by
  constructor
  · rintro ⟨before, inside, after, rfl⟩
    -- the first opening tag stands no later, and so the closing one is after it
    obtain ⟨first, rest, hopen, front, hfront⟩ := splitFirst_isSome_of_append
      highlightOpen before (inside ++ (highlightClose ++ after))
    obtain ⟨marked, more, hclose, -⟩ := splitFirst_isSome_of_append
      highlightClose (front ++ inside) after
    refine ⟨first, rest, marked, more, hopen, ?_⟩
    rw [← hfront, ← hclose, append_assoc]
  · rintro ⟨before, inside, marked, after, hopen, hclose⟩
    exact ⟨before, marked, after, by rw [splitFirst_eq_some hopen, splitFirst_eq_some hclose]⟩

lemma plain_survives_iff (t : Text) :
    (segmentText (parseExcerpt t) = t ∧ segmentMarks (parseExcerpt t) = t.map (·, false)) ↔
      IsLiteral t := by
  rw [IsLiteral, ← replacePasses_eq_self_iff entityPasses_shorter, highlightPair_iff]
  by_cases hfound : ∃ before inside marked after,
      splitFirst highlightOpen t = some (before, inside) ∧
        splitFirst highlightClose inside = some (marked, after)
  · refine iff_of_false ?_ fun h => h.2 hfound
    rintro ⟨htext, -⟩
    obtain ⟨before, inside, marked, after, hopen, hclose⟩ := hfound
    -- the tags themselves are lost
    have hlength := congrArg length htext
    have ht := congrArg length (splitFirst_eq_some hopen)
    have hinside := congrArg length (splitFirst_eq_some hclose)
    have hpos : highlightOpen.length = 3 := by decide
    have hbefore := decodeEntities_length_le before
    have hmarked := decodeEntities_length_le marked
    have hafter := segmentText_length_le after
    rw [parseExcerpt_found hopen hclose, segmentText_append, length_append, segmentText_eq,
      segmentMarks_filter] at hlength
    simp only [length_append] at ht hinside
    simp [segmentMarks] at hlength
    omega
  · have hplain : parseExcerpt t =
        [⟨decodeEntities t, false⟩].filter (fun segment => 0 < segment.text.length) := by
      apply parseExcerpt_plain
      intro before inside hopen
      by_contra hsome
      obtain ⟨parts, hparts⟩ := Option.ne_none_iff_exists'.mp hsome
      exact hfound ⟨before, inside, parts.1, parts.2, hopen, hparts⟩
    have hmarks : segmentMarks (parseExcerpt t) = (decodeEntities t).map (·, false) := by
      rw [hplain, segmentMarks_filter]
      simp [segmentMarks]
    have htext : segmentText (parseExcerpt t) = decodeEntities t := by
      rw [segmentText_eq, hmarks, map_map]
      exact map_id _
    rw [htext, hmarks]
    constructor
    · intro h
      exact ⟨h.1, hfound⟩
    · intro h
      have hself : decodeEntities t = t := h.1
      rw [hself]
      exact ⟨rfl, rfl⟩

/-! ## §8 Hits -/

/-- Excerpts survive where they show a snippet, or where the beginning of the chunk looks like
nothing else than what it is. -/
theorem excerpt_survives_iff (apostrophe : Apostrophe) (content : Text) (snippet : Option Snippet) :
    Survives apostrophe content snippet ↔
      ShowsSnippet snippet ∨ IsLiteral (fallbackExcerpt content) := by
  by_cases hshows : ShowsSnippet snippet
  · refine iff_of_true ?_ (Or.inl hshows)
    obtain ⟨s, hs, hblank⟩ := hshows
    cases hs
    simp only [Survives, hitExcerpt, sourceText, sourceMarks, if_neg hblank]
    rw [segmentText_eq, segmentMarks_toHtml, Snippet.marks_text]
    exact ⟨rfl, rfl⟩
  · have hfallback : Survives apostrophe content snippet ↔
        segmentText (parseExcerpt (fallbackExcerpt content)) = fallbackExcerpt content ∧
          segmentMarks (parseExcerpt (fallbackExcerpt content)) =
            (fallbackExcerpt content).map (·, false) := by
      cases snippet with
      | none => rfl
      | some s =>
        have hblank : trim s.fragment = [] := by
          by_contra hblank
          exact hshows ⟨s, rfl, hblank⟩
        simp only [Survives, hitExcerpt, sourceText, sourceMarks, if_pos hblank]
    rw [hfallback, plain_survives_iff]
    exact (or_iff_right hshows).symm

/-- A note on HTML, found by its meaning: its text is taken for markup. -/
theorem html_note_not_survives :
    ¬ ∀ (apostrophe : Apostrophe) (content : Text) (snippet : Option Snippet),
      Survives apostrophe content snippet := by
  intro h
  have hnote := (h ⟨"&#39;".toList, by decide⟩ "&lt;b&gt; makes <b>bold</b>".toList none).1
  exact absurd hnote (by decide)

end Kwiry.Plugin
