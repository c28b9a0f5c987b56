import Kwiry.Query.Terms

/-!
# Query Preparation

`prepare_lexical_query`: the draft of a plan, and the validation the planner puts it through. A
draft is canonical in everything but two things that validation asks again of the terms: that an
identifier is recognized in its own normalized form, and that an identifier query has an anchor.
-/

namespace Kwiry

open Foundations List

variable (T : CharTables)

/-! ## §1 The planner -/

def metadataProbeFor (kind : QueryPlanKind) (controls : ParsedFieldControls) :
    Option QueryMetadataProbe :=
  let fields := metadataFieldsForScope controls.scope
  if kind = .ordinary ∧ fields ≠ [] ∧ isLowercaseIdentifierCandidate T controls.queryText then
    some { query := controls.queryText, fields, conjunction := true }
  else none

def plannedIntents (controls : ParsedFieldControls) : List QueryTermIntent :=
  let kind := classifyQuery T controls.queryText
  if kind = .explicit then [] else queryTermIntents T controls.queryText kind

def supportProbe (intent : QueryTermIntent) : QueryTermSupportProbe where
  probeId := intent.index
  termIndex := intent.index
  term := intent.text
  fieldGroup := .searchableText

/-- The plan before it is validated. -/
def draftPlan (query : Text) (controls : ParsedFieldControls) : LexicalQueryPlan :=
  let kind := classifyQuery T controls.queryText
  let assistance : QueryAssistanceEligibility :=
    if kind = .explicit then .explicitSyntaxBypass else .eligible
  let termIntents := plannedIntents T controls
  let terms := termIntents.map (·.text)
  let normalizedExact :=
    if assistance = .eligible then normalizeRaw T controls.queryText else none
  let phraseBoost : Bool := assistance = .eligible && 1 < terms.length
  { schemaVersion := lexicalQueryPlanSchemaVersion
    profileId := profileOf kind
    fieldControlsSchemaVersion := fieldControlsSchemaVersion
    query
    queryText := controls.queryText
    scope := controls.scope
    emphasis := controls.emphasis
    kind
    matchOperator := matchOperatorOf kind
    assistance
    execution := match assistance with
      | .explicitSyntaxBypass => .explicitBypass
      | .eligible => if terms = [] then .emptyNoEvidence else .awaitingEvidence
    terms
    termIntents
    normalizedExact
    exactIntent := normalizedExact.map fun normalized => { normalized, fieldGroup := .exact }
    phraseBoost
    phraseIntent := if phraseBoost then some { terms, fieldGroup := .phrase } else none
    fieldGroups := fieldGroupsOf kind controls.scope
    bounds := .lexicalV1
    typoStage := .disabled
    supportProbes := termIntents.map supportProbe
    evidenceStages := []
    metadataProbe := metadataProbeFor T kind controls }

def prepareLexicalQuery (query : Text) : Except QueryPlanError LexicalQueryPlan := do
  rejectIf (isBlank query) (invalidQuery "query must not be empty")
  rejectIf (maxQueryBytes < utf8Len query)
    (invalidQuery "query must not exceed 4096 UTF-8 bytes")
  rejectIf (maxQueryTerms < (splitWhitespace query).length)
    (invalidQuery "query must not exceed 128 terms")
  let controls ← parseFieldControls query
  rejectIf (maxTermSupportProbes < (plannedIntents T controls).length)
    (invalidQuery "query must not exceed 128 evidence terms")
  validatePlan T (draftPlan T query controls)
  .ok (draftPlan T query controls)

variable {T}

/-! ## §2 Field controls -/

/-- What tells a control from other words. -/
def IsControlToken (token : Text) : Prop :=
  '>' ∈ token ∨ ':' ∈ token

/-- Where a scan of the controls of a query can stand. -/
structure ControlScan.Within (query : Text) (scan : ControlScan) : Prop where
  suffix : scan.rest <:+ query
  head : ∀ c ∈ scan.rest.head?, isWhitespace c = false
  front : ∃ front, splitWhitespace query = front ++ splitWhitespace scan.rest ∧
    ∀ token ∈ front, IsControlToken token

lemma mem_of_stripText {lead token value : Text} (h : stripText lead token = some value)
    {c : Char} (hc : c ∈ lead) : c ∈ token := by
  unfold stripText at h
  split at h
  · rename_i hleading
    exact (List.isPrefixOf_iff_prefix.mp hleading).subset hc
  · cases h

/-- A round that reads a control moves on. -/
theorem ControlScan.Within.next {query : Text} {scan next : ControlScan} (h : scan.Within query)
    (hread : readControl scan = .ok (some next)) :
    next.Within query ∧ next.parsedAny = true ∧ next.rest.length < scan.rest.length := by
  set token := scan.rest.takeWhile (!isWhitespace ·) with htoken
  set rest := (scan.rest.drop token.length).dropWhile isWhitespace with hrest
  have hsuffix : rest <:+ scan.rest :=
    (dropWhile_suffix _).trans (drop_suffix _ _)
  have hlength : rest.length ≤ scan.rest.length - token.length := by
    rw [← length_drop]
    exact length_dropWhile_le _ _
  have hwithin : token ≠ [] → IsControlToken token → ∀ scope emphasis,
      ControlScan.Within query ⟨rest, scope, emphasis, true⟩ := by
    intro hne hcontrol scope emphasis
    obtain ⟨front, hfront, hcontrols⟩ := h.front
    refine ⟨hsuffix.trans h.suffix, head?_dropWhile_neg _ _, front ++ [token], ?_, ?_⟩
    · rw [hfront, splitWhitespace_head hne, ← htoken, hrest, splitWhitespace_dropWhile]
      simp
    · intro t ht
      rcases mem_append.mp ht with ht | ht
      · exact hcontrols t ht
      · rw [mem_singleton.mp ht]
        exact hcontrol
  -- a control is a nonempty word
  have hshorter : token ≠ [] → rest.length < scan.rest.length := by
    intro hne
    have hpos := length_pos_of_ne_nil hne
    have hle : token.length ≤ scan.rest.length := (List.takeWhile_prefix _).length_le
    omega
  simp only [readControl, ← htoken, ← hrest] at hread
  split at hread
  · rename_i value hstrip
    have hne : token ≠ [] := by
      intro hnil
      rw [hnil, show stripText "in:".toList [] = none by decide +kernel] at hstrip
      cases hstrip
    split at hread
    · cases hread
    split at hread
    · cases hread
    cases hread
    have hcontrol : IsControlToken token := .inr (mem_of_stripText hstrip (by decide +kernel))
    exact ⟨hwithin hne hcontrol _ _, rfl, hshorter hne⟩
  · split at hread
    · cases hread
    · cases hread
    rename_i value hvalue hstrip
    have hne : token ≠ [] := by
      intro hnil
      rw [hnil, show stripText ">".toList [] = none by decide +kernel] at hstrip
      cases hstrip
    split at hread
    · cases hread
    split at hread
    · cases hread
    cases hread
    have hcontrol : IsControlToken token := .inl (mem_of_stripText hstrip (by decide +kernel))
    exact ⟨hwithin hne hcontrol _ _, rfl, hshorter hne⟩

/-- With more rounds than characters the loop ends where no control stands. -/
theorem readControls_spec {query : Text} {rounds : ℕ} {scan final : ControlScan}
    (h : scan.Within query) (hrounds : scan.rest.length < rounds)
    (hread : readControls rounds scan = .ok final) :
    final.Within query ∧ readControl final = .ok none ∧ (final.parsedAny = true ∨ final = scan) := by
  induction rounds generalizing scan with
  | zero => exact absurd hrounds (Nat.not_lt_zero _)
  | succ rounds ih =>
    rw [readControls, bind_ok_iff] at hread
    obtain ⟨next, hnext, hread⟩ := hread
    cases next with
    | none =>
      cases hread
      exact ⟨h, hnext, .inr rfl⟩
    | some next =>
      obtain ⟨hwithin, hparsed, hshorter⟩ := h.next hnext
      obtain ⟨hfinal, hbreak, hkept⟩ := ih hwithin (by omega) hread
      refine ⟨hfinal, hbreak, .inl ?_⟩
      rcases hkept with hkept | rfl
      · exact hkept
      · exact hparsed

/-- What controls leave of a query: all of it when there are none, else a part behind them that
starts with a word and is free of explicit syntax. -/
theorem parseFieldControls_spec {query : Text} {controls : ParsedFieldControls}
    (h : parseFieldControls query = .ok controls) :
    controls = ⟨query, none, none⟩ ∨
      (controls.queryText <:+ query ∧ (∃ c ∈ controls.queryText.head?, isWhitespace c = false) ∧
        hasExplicitSyntax controls.queryText = false ∧
        controlsContradict controls.scope controls.emphasis = false ∧
        ∃ front, splitWhitespace query = front ++ splitWhitespace controls.queryText ∧
          ∀ token ∈ front, IsControlToken token) := by
  rw [parseFieldControls, bind_ok_iff] at h
  obtain ⟨scan, hscan, h⟩ := h
  have hstart : ControlScan.Within query ⟨query.dropWhile isWhitespace, none, none, false⟩ :=
    ⟨dropWhile_suffix _, head?_dropWhile_neg _ _, [],
      by rw [splitWhitespace_dropWhile]; rfl, by simp⟩
  obtain ⟨hwithin, -, -⟩ := readControls_spec hstart (Nat.lt_succ_self _) hscan
  split at h
  · cases h
    exact .inl rfl
  · simp only [bind_unit_ok_iff, rejectIf_ok] at h
    obtain ⟨hne, hprose, hcontradict, hcontrols⟩ := h
    cases hcontrols
    obtain ⟨c, rest, hrest⟩ := exists_cons_of_ne_nil hne
    refine .inr ⟨hwithin.suffix, ⟨c, by rw [hrest]; rfl, hwithin.head c (by rw [hrest]; rfl)⟩, ?_, ?_,
      hwithin.front⟩
    · simpa using hprose
    · simpa using hcontradict

/-! ## §3 Valid drafts -/

/-- The limits on a query that is prepared at all. -/
structure WithinLimits (query : Text) : Prop where
  nonblank : isBlank query = false
  bytes : utf8Len query ≤ maxQueryBytes
  words : (splitWhitespace query).length ≤ maxQueryTerms

section Draft

variable {query : Text} {controls : ParsedFieldControls}

lemma hasInvalidQuery_draft (hlimits : WithinLimits query)
    (hcontrols : parseFieldControls query = .ok controls) :
    hasInvalidQuery (draftPlan T query controls) = false := by
  have htext : isBlank controls.queryText = false ∧ utf8Len controls.queryText ≤ maxQueryBytes := by
    rcases parseFieldControls_spec hcontrols with rfl | ⟨hsuffix, ⟨c, hc, hspace⟩, -⟩
    · exact ⟨hlimits.nonblank, hlimits.bytes⟩
    · refine ⟨?_, (utf8Len_le_of_part hsuffix.isInfix).trans hlimits.bytes⟩
      by_contra hblank
      have hall := all_eq_true.mp (Bool.not_eq_false _ ▸ hblank : isBlank controls.queryText = true)
      rw [hall c (mem_of_mem_head? hc)] at hspace
      cases hspace
  simp [hasInvalidQuery, draftPlan, hlimits.nonblank, htext.1, hlimits.bytes, htext.2,
    hlimits.words]

lemma validateHeader_draft (hlimits : WithinLimits query)
    (hcontrols : parseFieldControls query = .ok controls) :
    validateHeader (draftPlan T query controls) = .ok () := by
  have hexplicit : classifyQuery T controls.queryText = .explicit →
      controls.scope = none ∧ controls.emphasis = none := by
    intro hkind
    rcases parseFieldControls_spec hcontrols with rfl | ⟨-, -, hprose, -⟩
    · exact ⟨rfl, rfl⟩
    · unfold classifyQuery at hkind
      rw [hprose] at hkind
      simp only [Bool.false_eq_true, if_false] at hkind
      split at hkind <;> cases hkind
  have hcontradict : controlsContradict controls.scope controls.emphasis = false := by
    rcases parseFieldControls_spec hcontrols with rfl | ⟨-, -, -, h, -⟩
    · rfl
    · exact h
  simp only [validateHeader, bind_unit_ok_iff, rejectIf_ok, hasInvalidQuery_draft hlimits hcontrols]
  refine ⟨by simp [draftPlan], by simp [draftPlan], by simp, by simp [draftPlan], ?_, ?_, ?_, ?_⟩
  · rintro ⟨hkind, hsome⟩
    obtain ⟨hscope, hemphasis⟩ := hexplicit hkind
    simp [draftPlan, hscope, hemphasis] at hsome
  · simpa [draftPlan] using hcontradict
  · simp [validateControls, draftPlan, hcontrols]
  · simp [draftPlan]

lemma validateExplicit_draft (hkind : classifyQuery T controls.queryText = .explicit) :
    validateExplicit (draftPlan T query controls) = .ok () := by
  simp [validateExplicit, draftPlan, plannedIntents, hkind, metadataProbeFor]

/-- Whether every identifier that is planned is recognized in its own normalized form. -/
def IdentifiersRecognized (T : CharTables) (query : Text) : Prop :=
  ∀ t ∈ plannedTerms T query, t.2 = .exactIdentifier → t.1 ∈ technicalIdentifiers T t.1

lemma mem_zipIdx_zip_map {A B : Type} {f : A → B} {l : List A} {entry : (B × A) × ℕ} :
    entry ∈ ((l.map f).zip l).zipIdx ↔ l[entry.2]? = some entry.1.2 ∧ entry.1.1 = f entry.1.2 := by
  obtain ⟨⟨b, a⟩, i⟩ := entry
  have hzip : (l.map f).zip l = l.map fun a => (f a, a) := by
    conv_lhs => rw [← map_id l, map_map, zip_map']
    rfl
  rw [mk_mem_zipIdx_iff_getElem?, hzip, getElem?_map, Option.map_eq_some_iff]
  simp only [Prod.mk.injEq]
  constructor
  · rintro ⟨a', ha', rfl, rfl⟩
    exact ⟨ha', rfl⟩
  · rintro ⟨ha, rfl⟩
    exact ⟨a, ha, rfl, rfl⟩

section

variable (hcount : (plannedTerms T controls.queryText).length ≤ maxTermSupportProbes)
  (hkind : classifyQuery T controls.queryText ≠ .explicit)

include hcount hkind

lemma validateTermIntents_draft :
    ((draftPlan T query controls).terms.zip (draftPlan T query controls).termIntents).zipIdx.forM
      (validateTermIntent T) = .ok () ↔ IdentifiersRecognized T controls.queryText := by
  have hintents : plannedIntents T controls =
      queryTermIntents T controls.queryText (classifyQuery T controls.queryText) := if_neg hkind
  rw [forM_ok_iff]
  simp only [draftPlan, mem_zipIdx_zip_map, Prod.forall]
  constructor
  · intro h t ht hprojection
    obtain ⟨i, hi⟩ := mem_iff_getElem?.mp ht
    have hget := getElem?_queryTermIntents (T := T) controls.queryText
      (classifyQuery T controls.queryText) i
    rw [hi, Option.map_some, ← hintents] at hget
    have hcheck := h _ _ i ⟨hget, rfl⟩
    simp only [validateTermIntent, bind_unit_ok_iff, rejectIf_ok] at hcheck
    by_contra hrecognized
    exact hcheck.2 ⟨hprojection, .inr hrecognized⟩
  · rintro h term intent i ⟨hget, rfl⟩
    rw [hintents] at hget
    have hindex := index_queryTermIntents hcount hget
    obtain ⟨j, t, hj, rfl⟩ := mem_queryTermIntents.mp (mem_of_getElem? hget)
    have hlt := (List.getElem?_eq_some_iff.mp hget).1
    simp only [validateTermIntent, bind_unit_ok_iff, rejectIf_ok]
    constructor
    · rintro (hne | hne)
      · rw [hindex] at hne
        rw [length_queryTermIntents] at hlt
        unfold maxTermSupportProbes at hcount
        omega
      · exact hne rfl
    · rintro ⟨hprojection, hrole | hrecognized⟩
      · have hanchor : (plannedIntent (fallbackAnchors T controls.queryText
            (classifyQuery T controls.queryText)) (t, j)).isAnchor = true :=
          isAnchor_plannedIntent.mpr (.inl hprojection)
        exact hrole (of_decide_eq_true hanchor)
      · exact hrecognized (h t (mem_of_getElem? hj) hprojection)

lemma validateExecution_draft :
    validateExecution (draftPlan T query controls) = .ok () := by
  have hintents : plannedIntents T controls =
      queryTermIntents T controls.queryText (classifyQuery T controls.queryText) := if_neg hkind
  have hunknown : ∀ intent ∈ plannedIntents T controls, intent.support = .unknown := by
    intro intent hintent
    rw [hintents] at hintent
    obtain ⟨i, t, -, rfl⟩ := mem_queryTermIntents.mp hintent
    rfl
  by_cases hnil : plannedIntents T controls = []
  · simp [validateExecution, draftPlan, hkind, hnil, bind_unit_ok_iff]
  · have hexecution : (draftPlan T query controls).execution = .awaitingEvidence := by
      simp [draftPlan, hkind, hnil]
    unfold validateExecution
    rw [hexecution]
    simp only [bind_unit_ok_iff, rejectIf_ok, forM_ok_iff]
    constructor
    · simpa [draftPlan, hnil, isUnknown] using hunknown
    · rintro ⟨probe, i⟩ hprobe
      rw [mk_mem_zipIdx_iff_getElem?] at hprobe
      simp only [draftPlan, getElem?_map, Option.map_eq_some_iff] at hprobe
      obtain ⟨intent, hget, rfl⟩ := hprobe
      have hget' := hget
      rw [hintents] at hget'
      have hindex := index_queryTermIntents hcount hget'
      have hlt := (List.getElem?_eq_some_iff.mp hget').1
      rw [length_queryTermIntents] at hlt
      have hsmall : i % 2 ^ 16 = i := by
        unfold maxTermSupportProbes at hcount
        exact Nat.mod_eq_of_lt (by omega)
      simp only [validateProbe, supportProbe, draftPlan, rejectIf_ok, hindex, hsmall,
        getElem?_map, hget, Option.map_some]
      simp

end

/-- A draft is valid unless an identifier is not recognized or an identifier query has no anchor. -/
theorem validatePlan_draft_iff (hlimits : WithinLimits query)
    (hcontrols : parseFieldControls query = .ok controls)
    (hcount : (plannedTerms T controls.queryText).length ≤ maxTermSupportProbes) :
    validatePlan T (draftPlan T query controls) = .ok () ↔
      classifyQuery T controls.queryText = .explicit ∨
        (IdentifiersRecognized T controls.queryText ∧
          (classifyQuery T controls.queryText = .identifier →
            ∃ intent ∈ plannedIntents T controls, intent.isAnchor)) := by
  unfold validatePlan
  rw [bind_unit_ok_iff, and_iff_right (validateHeader_draft hlimits hcontrols)]
  change (if classifyQuery T controls.queryText = .explicit then _ else _) = _ ↔ _
  by_cases hkind : classifyQuery T controls.queryText = .explicit
  · rw [if_pos hkind]
    simp [hkind, validateExplicit_draft hkind]
  · have hlength : ((draftPlan T query controls).termIntents).length =
        (plannedTerms T controls.queryText).length := by
      simp [draftPlan, plannedIntents, hkind]
    have hexact : exactIntentInconsistent (draftPlan T query controls) = false := by
      cases h : normalizeRaw T controls.queryText <;>
        simp [exactIntentInconsistent, draftPlan, hkind, h]
    have hphrase : phraseIntentInconsistent (draftPlan T query controls) = false := by
      by_cases hboost : 1 < (plannedIntents T controls).length
      · have htwo : ¬ (plannedIntents T controls).length < 2 := Nat.not_lt.mpr hboost
        simp only [phraseIntentInconsistent, draftPlan, hkind, if_false, decide_true, length_map,
          hboost, Bool.and_self, if_true, Option.isSome_some, ne_eq, not_true_eq_false,
          decide_false, decide_not, Option.any_some, Bool.not_true, htwo, Bool.or_self]
      · simp [phraseIntentInconsistent, draftPlan, hkind, hboost]
    rw [if_neg hkind]
    simp only [validateAssisted, bind_unit_ok_iff, rejectIf_ok,
      validateTermIntents_draft hcount hkind, validateExecution_draft hcount hkind, hexact, hphrase]
    have hassistance : (draftPlan T query controls).assistance = .eligible := by
      simp [draftPlan, hkind]
    have hterms : (draftPlan T query controls).terms.length =
        (draftPlan T query controls).termIntents.length := by
      simp [draftPlan]
    have hbound : (draftPlan T query controls).bounds.maxTermSupportProbes = maxTermSupportProbes :=
      rfl
    have hanchors : (draftPlan T query controls).kind = classifyQuery T controls.queryText ∧
        (draftPlan T query controls).termIntents = plannedIntents T controls := ⟨rfl, rfl⟩
    simp only [hassistance, hterms, hbound, hanchors.1, hanchors.2, hkind, false_or]
    simp only [ne_eq, not_true_eq_false, not_false_eq_true, true_and, false_or, not_lt,
      Bool.false_eq_true, and_true, not_and, Bool.not_eq_true', Bool.not_eq_false, any_eq_true]
    exact and_iff_right (hlength.trans_le hcount)

end Draft

/-! ## §4 Validity in terms of the text -/

/-- Every identifier of a text ends in a word character. -/
def IdentifiersEndInWords (T : CharTables) (text : Text) : Prop :=
  ∀ entry ∈ technicalIdentifierSpans T text,
    ∀ c ∈ (spanText text entry.1).getLast?, T.isWord c = true

/-- An identifier, or a word that looks like one and normalizes to a single term. -/
def HasAnchor (T : CharTables) (text : Text) : Prop :=
  technicalIdentifierSpans T text ≠ [] ∨
    ∃ token ∈ splitWhitespace text, isFallbackAnchor T token = true ∧
      ∃ n, normalizeToken T token = some n ∧ IsTerm T n

lemma identifiersRecognized_iff (hT : T.Lawful) (text : Text) :
    IdentifiersRecognized T text ↔ IdentifiersEndInWords T text := by
  constructor
  · rintro h ⟨span, N⟩ hspan
    have hplanned : (N, QueryTermProjection.exactIdentifier) ∈ plannedTerms T text :=
      mem_plannedTerms.mpr (.inl ⟨rfl, span, hspan⟩)
    exact (mem_technicalIdentifiers_self_iff hT hspan).mp (h _ hplanned rfl)
  · rintro h ⟨N, projection⟩ hplanned rfl
    rcases mem_plannedTerms.mp hplanned with ⟨-, span, hspan⟩ | ⟨hprojection, -⟩
    · exact (mem_technicalIdentifiers_self_iff hT hspan).mpr (h _ hspan)
    · cases hprojection

/-- The intents of an identifier query have an anchor exactly when its text has one. -/
theorem exists_isAnchor_iff (hT : T.Lawful) {controls : ParsedFieldControls}
    (hkind : classifyQuery T controls.queryText = .identifier) :
    (∃ intent ∈ plannedIntents T controls, intent.isAnchor) ↔ HasAnchor T controls.queryText := by
  set text := controls.queryText with htext
  have hintents : plannedIntents T controls = queryTermIntents T text .identifier := by
    simp [plannedIntents, ← htext, hkind]
  have hfallback : ∀ n, n ∈ fallbackAnchors T text .identifier ↔
      ∃ token ∈ splitWhitespace text, isFallbackAnchor T token = true ∧
        normalizeToken T token = some n := by
    intro n
    simp [fallbackAnchors, and_assoc]
  rw [hintents]
  constructor
  · rintro ⟨intent, hintent, hanchor⟩
    obtain ⟨i, t, hi, rfl⟩ := mem_queryTermIntents.mp hintent
    rcases mem_plannedTerms.mp (mem_of_getElem? hi) with ⟨-, span, hspan⟩ |
      ⟨hprojection, gap, -, authored, -, hcomponent⟩
    · exact .inl (ne_nil_of_mem hspan)
    · rcases isAnchor_plannedIntent.mp hanchor with hexact | hmem
      · rw [hprojection] at hexact
        cases hexact
      · obtain ⟨token, htoken, hlike, hnormalized⟩ := (hfallback _).mp hmem
        exact .inr ⟨token, htoken, hlike, t.1, hnormalized,
          (isTerm_of_mem_components hT hcomponent).1⟩
  · intro hhas
    have hplanned : ∃ t ∈ plannedTerms T text,
        t.2 = .exactIdentifier ∨ t.1 ∈ fallbackAnchors T text .identifier := by
      by_cases hspans : technicalIdentifierSpans T text = []
      · rcases hhas with hne | ⟨token, htoken, hlike, n, hnormalized, hterm⟩
        · exact absurd hspans hne
        refine ⟨(n, .analyzedText), mem_plannedTerms.mpr (.inr ⟨rfl, text, ?_, token, htoken,
          mem_components_of_isTerm hT hnormalized hterm⟩), .inr ((hfallback n).mpr
            ⟨token, htoken, hlike, hnormalized⟩)⟩
        rw [identifierGaps_of_none hspans]
        exact mem_singleton_self _
      · obtain ⟨⟨span, N⟩, rest, hspan⟩ := exists_cons_of_ne_nil hspans
        exact ⟨(N, .exactIdentifier), mem_plannedTerms.mpr (.inl ⟨rfl, span, by
          rw [hspan]; exact mem_cons_self⟩), .inl rfl⟩
    obtain ⟨t, ht, hanchor⟩ := hplanned
    obtain ⟨i, hi⟩ := mem_iff_getElem?.mp ht
    exact ⟨_, mem_queryTermIntents.mpr ⟨i, t, hi, rfl⟩, isAnchor_plannedIntent.mpr hanchor⟩

/-- What a prepared query is. -/
theorem prepareLexicalQuery_ok_iff {query : Text} {plan : LexicalQueryPlan} :
    prepareLexicalQuery T query = .ok plan ↔ WithinLimits query ∧
      ∃ controls, parseFieldControls query = .ok controls ∧
        (plannedIntents T controls).length ≤ maxTermSupportProbes ∧
        validatePlan T (draftPlan T query controls) = .ok () ∧ plan = draftPlan T query controls := by
  simp only [prepareLexicalQuery, ↓bind_unit_ok_iff, rejectIf_ok, bind_ok_iff, Except.ok.injEq,
    Bool.not_eq_true, not_lt, exists_const]
  constructor
  · rintro ⟨hblank, hbytes, hwords, controls, hcontrols, hcount, hvalid, rfl⟩
    exact ⟨⟨hblank, hbytes, hwords⟩, controls, hcontrols, hcount, hvalid, rfl⟩
  · rintro ⟨⟨hblank, hbytes, hwords⟩, controls, hcontrols, hcount, hvalid, rfl⟩
    exact ⟨hblank, hbytes, hwords, controls, hcontrols, hcount, hvalid, rfl⟩

/-- A query within every limit is prepared exactly when it is explicit, or its identifiers end in
words and it has an anchor if it is an identifier query. -/
theorem prepareLexicalQuery_accepts_iff (hT : T.Lawful) {query : Text}
    {controls : ParsedFieldControls} (hlimits : WithinLimits query)
    (hcontrols : parseFieldControls query = .ok controls)
    (hcount : (queryTermIntents T controls.queryText (classifyQuery T controls.queryText)).length ≤
      maxTermSupportProbes) :
    (∃ plan, prepareLexicalQuery T query = .ok plan) ↔
      classifyQuery T controls.queryText = .explicit ∨
        (IdentifiersEndInWords T controls.queryText ∧
          (classifyQuery T controls.queryText = .identifier → HasAnchor T controls.queryText)) := by
  rw [length_queryTermIntents] at hcount
  have hvalid := validatePlan_draft_iff (T := T) hlimits hcontrols hcount
  rw [identifiersRecognized_iff hT, forall_congr' fun hkind => exists_isAnchor_iff hT hkind] at hvalid
  rw [← hvalid]
  constructor
  · rintro ⟨plan, hplan⟩
    obtain ⟨-, controls', hcontrols', -, hok, -⟩ := prepareLexicalQuery_ok_iff.mp hplan
    rw [hcontrols] at hcontrols'
    cases hcontrols'
    exact hok
  · intro hok
    refine ⟨_, prepareLexicalQuery_ok_iff.mpr ⟨hlimits, controls, hcontrols, ?_, hok, rfl⟩⟩
    by_cases hkind : classifyQuery T controls.queryText = .explicit
    · simp [plannedIntents, hkind]
    · simpa [plannedIntents, hkind] using hcount

theorem prepareLexicalQuery_accepts_rfc :
    (∃ plan, prepareLexicalQuery .latin "RFC 9110 caching".toList = .ok plan) ↔
      classifyQuery .latin "RFC 9110 caching".toList = .explicit ∨
        (IdentifiersEndInWords .latin "RFC 9110 caching".toList ∧
          (classifyQuery .latin "RFC 9110 caching".toList = .identifier →
            HasAnchor .latin "RFC 9110 caching".toList)) :=
  prepareLexicalQuery_accepts_iff CharTables.latin_lawful
    ⟨by decide +kernel, by decide +kernel, by decide +kernel⟩
      (show parseFieldControls _ = .ok ⟨"RFC 9110 caching".toList, none, none⟩ by decide +kernel)
    (by decide +kernel)

/-- The one word of `C#9` is an identifier by its looks, but its terms are `c` and `9`. -/
theorem prepareLexicalQuery_rejects_sharp :
    ¬ ∀ T : CharTables, T.Lawful → ∀ query controls, WithinLimits query →
      parseFieldControls query = .ok controls →
      (queryTermIntents T controls.queryText (classifyQuery T controls.queryText)).length ≤
        maxTermSupportProbes →
      ∃ plan, prepareLexicalQuery T query = .ok plan := by
  intro h
  obtain ⟨plan, hplan⟩ := h .latin CharTables.latin_lawful "C#9".toList ⟨"C#9".toList, none, none⟩
    ⟨by decide +kernel, by decide +kernel, by decide +kernel⟩ (by decide +kernel) (by decide +kernel)
  have hrejected : prepareLexicalQuery .latin "C#9".toList =
      .error (invalidPlan "identifier query must declare at least one required anchor") := by
    decide +kernel
  rw [hrejected] at hplan
  cases hplan

end Kwiry
