import Kwiry.Query.Evidence

/-!
# Finalization Accepts Faithful Reports

A prepared plan waits for answers to its own terms. Whatever the answers, the plan they lead to is
canonical, with one exception: promoting a query typed in lower case looks for the anchors in the
query with its controls, which may have outgrown the words the promotion was asked for.
-/

namespace Kwiry

open Foundations List

variable {T : CharTables}

/-! ## §1 Concluded plans -/

/-- What a plan keeps while it is answered: it is canonical but for its evidence. -/
structure Answerable (T : CharTables) (plan : LexicalQueryPlan) : Prop where
  header : validateHeader plan = .ok ()
  assisted : plan.kind ≠ .explicit ∧ plan.assistance = .eligible
  bounds : plan.bounds = .lexicalV1
  terms : plan.terms = plan.termIntents.map (·.text)
  indexed : Indexed plan.termIntents
  recognized : ∀ intent ∈ plan.termIntents, intent.projection = .exactIdentifier →
    intent.role = .requiredIdentifierAnchor ∧ intent.text ∈ technicalIdentifiers T intent.text
  exact : exactIntentInconsistent plan = false
  phrase : phraseIntentInconsistent plan = false

/-- A plan whose terms carry their support, canonical but for the question of an anchor. -/
structure Resolved (T : CharTables) (plan : LexicalQueryPlan) : Prop extends Answerable T plan where
  known : plan.termIntents.any isUnknown = false
  cleared : plan.supportProbes = [] ∧ plan.evidenceStages = []

namespace Resolved

variable {plan : LexicalQueryPlan}

lemma validateTermIntents_ok (h : Resolved T plan) :
    (plan.terms.zip plan.termIntents).zipIdx.forM (validateTermIntent T) = .ok () := by
  rw [forM_ok_iff, h.terms]
  rintro ⟨⟨term, intent⟩, i⟩ hentry
  obtain ⟨hget, htext⟩ := mem_zipIdx_zip_map.mp hentry
  simp only at hget htext
  have hindex := h.indexed.index i intent hget
  have hlt := (List.getElem?_eq_some_iff.mp hget).1
  have hcount := h.indexed.count
  unfold maxTermSupportProbes at hcount
  simp only [validateTermIntent, bind_unit_ok_iff, rejectIf_ok]
  constructor
  · rintro (hne | hne)
    · rw [hindex] at hne
      omega
    · exact hne htext.symm
  · rintro ⟨hprojection, hnot⟩
    obtain ⟨hrole, hrecognized⟩ := h.recognized intent (mem_of_getElem? hget) hprojection
    rcases hnot with hnot | hnot
    · exact hnot hrole
    · exact hnot hrecognized

lemma validatePlan_with (h : Resolved T plan) (execution : QueryExecutionDisposition)
    (stages : List QueryEvidenceStage) :
    validatePlan T { plan with execution := execution, evidenceStages := stages } = .ok () ↔
      (plan.kind = .identifier → ∃ intent ∈ plan.termIntents, intent.isAnchor) ∧
        validateExecution { plan with execution := execution, evidenceStages := stages } = .ok () := by
  have hheader : validateHeader { plan with execution := execution, evidenceStages := stages } =
      .ok () := h.header
  unfold validatePlan
  rw [bind_unit_ok_iff, and_iff_right hheader]
  simp only [if_neg h.assisted.1]
  simp only [validateAssisted, bind_unit_ok_iff, rejectIf_ok]
  have hlength : plan.terms.length = plan.termIntents.length := by rw [h.terms, length_map]
  have hcount : ¬ plan.bounds.maxTermSupportProbes < plan.termIntents.length := by
    rw [h.bounds, not_lt]
    exact h.indexed.count
  have hexact : exactIntentInconsistent
      { plan with execution := execution, evidenceStages := stages } = false := h.exact
  have hphrase : phraseIntentInconsistent
      { plan with execution := execution, evidenceStages := stages } = false := h.phrase
  rw [hexact, hphrase]
  simp only [h.assisted.2, hlength, hcount, h.validateTermIntents_ok]
  simp

/-- Concluding leaves only the anchor to validation. -/
theorem validatePlan_conclude_iff (h : Resolved T plan)
    (observations : List QueryTermSupportObservation) :
    validatePlan T (concludeEvidence plan observations) = .ok () ↔
      (plan.kind = .identifier → ∃ intent ∈ plan.termIntents, intent.isAnchor) := by
  have hempty : validatePlan T { plan with execution := .emptyNoEvidence } = .ok () ↔
      (plan.kind = .identifier → ∃ intent ∈ plan.termIntents, intent.isAnchor) := by
    refine (h.validatePlan_with .emptyNoEvidence plan.evidenceStages).trans (and_iff_left ?_)
    simp [validateExecution, bind_unit_ok_iff, h.cleared, h.known]
  have hprefixes := prefixIndexes_spec h.indexed h.bounds observations
  unfold concludeEvidence
  simp only
  split
  · exact hempty
  split
  · exact hempty
  refine (h.validatePlan_with .ready _).trans (and_iff_left ?_)
  have hladder := validateStages_ladder h.indexed h.bounds hprefixes
  have hstages : (withLadder plan (prefixIndexes plan observations)).evidenceStages ≠ [] := by
    have hmem : (⟨.allTerms, .always, .searchableText, indexesOf plan.termIntents, [], 0⟩ :
        StageDraft) ∈ ladderDrafts plan (prefixIndexes plan observations) := by
      simp [ladderDrafts]
    intro hnil
    rw [← draft_withLadder, hnil] at hmem
    cases hmem
  change (do
    rejectIf ((withLadder plan (prefixIndexes plan observations)).evidenceStages = [] ∨
      plan.supportProbes ≠ [] ∨ plan.termIntents.any isUnknown) _
    validateStages (withLadder plan (prefixIndexes plan observations))) = Except.ok ()
  rw [bind_unit_ok_iff, rejectIf_ok, h.cleared.1, h.known]
  exact ⟨by simp [hstages], hladder⟩

end Resolved

/-! ## §2 Faithful reports -/

/-- A report that answers what a plan asked, with any counts within the bound. -/
structure FaithfulReport (plan : LexicalQueryPlan) (report : QueryEvidenceReport) : Prop where
  schemaVersion : report.schemaVersion = lexicalQueryPlanSchemaVersion
  identifier : report.identifierProbeMatched.isSome = plan.metadataProbe.isSome
  terms : report.termSupport.map (fun o => (o.probeId, o.termIndex)) =
    plan.supportProbes.map fun probe => (probe.probeId, probe.termIndex)
  expansions : ∀ o ∈ report.termSupport, o.prefixExpansions ≤ plan.bounds.maxPrefixExpansionsPerTerm

variable {observations : List QueryTermSupportObservation} {intents : List QueryTermIntent}

lemma mapM_recordSupport (bounds : QueryBounds) (intents : List QueryTermIntent)
    (hterms : observations.map (fun o => (o.probeId, o.termIndex)) =
      intents.map fun intent => (intent.index, intent.index))
    (hexpansions : ∀ o ∈ observations, o.prefixExpansions ≤ bounds.maxPrefixExpansionsPerTerm) :
    (((intents.map supportProbe).zip observations).zip intents).mapM (recordSupport bounds) =
      .ok (zipWith withSupport intents observations) := by
  induction intents generalizing observations with
  | nil => rfl
  | cons intent rest ih =>
    cases observations with
    | nil => cases hterms
    | cons o observations =>
      rw [map_cons, map_cons, cons.injEq, Prod.mk.injEq] at hterms
      obtain ⟨⟨hprobe, hindex⟩, hterms⟩ := hterms
      have hbound := hexpansions o mem_cons_self
      have hrest := ih hterms fun o' ho' => hexpansions o' (mem_cons_of_mem _ ho')
      have hhead : recordSupport bounds ((supportProbe intent, o), intent) =
          .ok (withSupport intent o) := by
        simp [recordSupport, supportProbe, bind_unit_ok_iff, hprobe, hindex, hbound]
      rw [map_cons, zip_cons_cons, zip_cons_cons, mapM_cons, hhead, zipWith_cons_cons]
      change (do
        let results ← mapM (recordSupport bounds) _
        pure (withSupport intent o :: results)) = _
      rw [hrest]
      rfl

/-- A plan that asked for its own terms, with their answers. -/
theorem recordSupports_ok {plan : LexicalQueryPlan}
    (hprobes : plan.supportProbes = plan.termIntents.map supportProbe)
    (hterms : observations.map (fun o => (o.probeId, o.termIndex)) =
      plan.supportProbes.map fun probe => (probe.probeId, probe.termIndex))
    (hexpansions : ∀ o ∈ observations, o.prefixExpansions ≤ plan.bounds.maxPrefixExpansionsPerTerm) :
    recordSupports plan observations = .ok { plan with
      termIntents := zipWith withSupport plan.termIntents observations
      supportProbes := []
      evidenceStages := [] } := by
  have hlength : observations.length = plan.termIntents.length := by
    simpa [hprobes] using congrArg length hterms
  have hmap := mapM_recordSupport plan.bounds plan.termIntents
    (show observations.map _ = _ by rw [hterms, hprobes, map_map]; rfl) hexpansions
  simp only [recordSupports, bind_ok_iff, rejectIf_ok, hprobes, hmap]
  refine ⟨(), by simp [hlength], _, rfl, ?_⟩
  simp [hlength]

variable {intent : QueryTermIntent}

lemma mem_zipWith_withSupport (h : intent ∈ zipWith withSupport intents observations) :
    ∃ before ∈ intents, ∃ observation ∈ observations, intent = withSupport before observation := by
  rw [← map_uncurry_zip_eq_zipWith, mem_map] at h
  obtain ⟨⟨before, observation⟩, hzip, rfl⟩ := h
  obtain ⟨hbefore, hobservation⟩ := of_mem_zip hzip
  exact ⟨before, hbefore, observation, hobservation, rfl⟩

/-- An intent with some support. -/
theorem exists_withSupport (hlength : observations.length = intents.length) (h : intent ∈ intents) :
    ∃ observation, withSupport intent observation ∈ List.zipWith withSupport intents observations := by
  obtain ⟨i, hi⟩ := mem_iff_getElem?.mp h
  have hlt : i < observations.length := hlength ▸ (List.getElem?_eq_some_iff.mp hi).1
  refine ⟨observations[i], mem_of_getElem? (i := i) ?_⟩
  rw [getElem?_zipWith, hi, getElem?_eq_getElem hlt]

/-- A plan that waits for the answers to its own terms. -/
structure Awaiting (T : CharTables) (plan : LexicalQueryPlan) : Prop extends Answerable T plan where
  probes : plan.supportProbes = plan.termIntents.map supportProbe

lemma Awaiting.resolved {plan : LexicalQueryPlan} (h : Awaiting T plan)
    (hlength : observations.length = plan.termIntents.length) :
    Resolved T { plan with
      termIntents := zipWith withSupport plan.termIntents observations
      supportProbes := []
      evidenceStages := [] } where
  header := h.header
  assisted := h.assisted
  bounds := h.bounds
  terms := by
    rw [h.terms]
    refine ext_getElem? fun i => ?_
    simp only [getElem?_map, getElem?_zipWith]
    cases hget : plan.termIntents[i]? with
    | none => rfl
    | some intent =>
      have hlt : i < observations.length := hlength ▸ (List.getElem?_eq_some_iff.mp hget).1
      rw [getElem?_eq_getElem hlt]
      rfl
  indexed := by
    refine ⟨fun i intent hget => ?_, ?_⟩
    · rw [getElem?_zipWith] at hget
      cases hbefore : plan.termIntents[i]? with
      | none => simp [hbefore] at hget
      | some before =>
        cases ho : observations[i]? with
        | none => simp [hbefore, ho] at hget
        | some o =>
          simp only [hbefore, ho, Option.some.injEq] at hget
          rw [← hget]
          exact h.indexed.index i before hbefore
    · rw [length_zipWith, hlength, min_self]
      exact h.indexed.count
  recognized := by
    intro intent hintent
    obtain ⟨before, hbefore, o, -, rfl⟩ := mem_zipWith_withSupport hintent
    exact h.recognized before hbefore
  exact := h.exact
  phrase := h.phrase
  known := by
    rw [any_eq_false]
    intro intent hintent
    obtain ⟨before, -, o, -, rfl⟩ := mem_zipWith_withSupport hintent
    simp only [isUnknown, withSupport]
    split <;> simp
  cleared := ⟨rfl, rfl⟩

/-- Answering a waiting plan succeeds exactly when an identifier plan has an anchor. -/
theorem Awaiting.conclude_iff {plan : LexicalQueryPlan} (h : Awaiting T plan)
    (hterms : observations.map (fun o => (o.probeId, o.termIndex)) =
      plan.supportProbes.map fun probe => (probe.probeId, probe.termIndex))
    (hexpansions : ∀ o ∈ observations, o.prefixExpansions ≤ plan.bounds.maxPrefixExpansionsPerTerm) :
    (∃ final, (do
      let plan ← recordSupports plan observations
      let concluded := concludeEvidence plan observations
      validatePlan T concluded
      .ok concluded : Except QueryPlanError LexicalQueryPlan) = .ok final) ↔
      (plan.kind = .identifier → ∃ intent ∈ plan.termIntents, intent.isAnchor) := by
  have hlength : observations.length = plan.termIntents.length := by
    simpa [h.probes] using congrArg length hterms
  have hresolved := h.resolved hlength
  have hconclude := hresolved.validatePlan_conclude_iff observations
  rw [recordSupports_ok h.probes hterms hexpansions]
  change (∃ final, (do
    validatePlan T (concludeEvidence _ observations)
    .ok (concludeEvidence _ observations) : Except QueryPlanError LexicalQueryPlan) = .ok final) ↔ _
  simp only [bind_unit_ok_iff, exists_and_left, hconclude]
  refine and_iff_left ⟨_, rfl⟩ |>.trans (forall_congr' fun hkind => ⟨?_, ?_⟩)
  · rintro ⟨intent, hintent, hanchor⟩
    obtain ⟨before, hbefore, o, -, rfl⟩ := mem_zipWith_withSupport hintent
    exact ⟨before, hbefore, hanchor⟩
  · rintro ⟨intent, hintent, hanchor⟩
    obtain ⟨o, ho⟩ := exists_withSupport hlength hintent
    exact ⟨_, ho, hanchor⟩

/-! ## §3 Prepared plans wait -/

lemma awaiting_of_prepared {query : Text} {plan : LexicalQueryPlan}
    (h : prepareLexicalQuery T query = .ok plan) (heligible : plan.assistance = .eligible) :
    Awaiting T plan := by
  obtain ⟨-, controls, -, hcount, hvalid, rfl⟩ := prepareLexicalQuery_ok_iff.mp h
  have hkind : classifyQuery T controls.queryText ≠ .explicit := by
    intro hkind
    simp [draftPlan, hkind] at heligible
  have hintents : plannedIntents T controls =
      queryTermIntents T controls.queryText (classifyQuery T controls.queryText) := if_neg hkind
  have hplanned : (plannedTerms T controls.queryText).length ≤ maxTermSupportProbes := by
    rwa [hintents, length_queryTermIntents] at hcount
  rw [validatePlan, bind_unit_ok_iff] at hvalid
  obtain ⟨hheader, hassisted⟩ := hvalid
  rw [if_neg (show (draftPlan T query controls).kind ≠ .explicit from hkind)] at hassisted
  simp only [validateAssisted, bind_unit_ok_iff, rejectIf_ok, Bool.not_eq_true] at hassisted
  obtain ⟨-, -, hterms, -, hexact, hphrase, -⟩ := hassisted
  exact {
    header := hheader
    assisted := ⟨hkind, heligible⟩
    bounds := rfl
    terms := rfl
    indexed := by
      refine ⟨fun i intent hget => ?_, hcount⟩
      change (plannedIntents T controls)[i]? = some intent at hget
      rw [hintents] at hget
      exact index_queryTermIntents hplanned hget
    recognized := by
      intro intent hintent hprojection
      obtain ⟨i, hget⟩ := mem_iff_getElem?.mp hintent
      have hcheck := forM_ok_iff.mp hterms ((intent.text, intent), i)
        (mem_zipIdx_zip_map.mpr ⟨hget, rfl⟩)
      simp only [validateTermIntent, bind_unit_ok_iff, rejectIf_ok] at hcheck
      by_contra hnot
      rw [not_and_or] at hnot
      exact hcheck.2 ⟨hprojection, hnot⟩
    exact := hexact
    phrase := hphrase
    probes := rfl }

/-- Promotion changes roles only. -/
theorem promoteIntent_spec (anchors : List ℕ) (entry : QueryTermIntent × ℕ) :
    (promoteIntent anchors entry).index = entry.1.index ∧
      (promoteIntent anchors entry).text = entry.1.text ∧
      (promoteIntent anchors entry).projection = entry.1.projection ∧
      (entry.1.role = .requiredIdentifierAnchor →
        (promoteIntent anchors entry).role = .requiredIdentifierAnchor) := by
  unfold promoteIntent
  split <;> simp

lemma map_promoted {B : Type} {anchors : List ℕ} {f : QueryTermIntent → B}
    (hf : ∀ entry, f (promoteIntent anchors entry) = f entry.1) :
    (intents.zipIdx.map (promoteIntent anchors)).map f = intents.map f := by
  rw [map_map]
  conv_rhs => rw [← zipIdx_map_fst 0 intents, map_map]
  exact map_congr_left fun entry _ => hf entry

lemma mem_promoted {anchors : List ℕ} :
    intent ∈ intents.zipIdx.map (promoteIntent anchors) ↔
      ∃ before i, intents[i]? = some before ∧ intent = promoteIntent anchors (before, i) := by
  simp only [mem_map, Prod.exists, mk_mem_zipIdx_iff_getElem?, eq_comm]

lemma Awaiting.promote {plan : LexicalQueryPlan} (h : Awaiting T plan)
    (hkind : plan.kind = .ordinary) :
    Awaiting T (promoteIdentifierCandidate T { plan with metadataProbe := none }) where
  header := by
    have hheader := h.header
    simp only [validateHeader, bind_unit_ok_iff, rejectIf_ok] at hheader ⊢
    obtain ⟨h1, h2, h3, h4, -, h6, h7, h8, h9, h10, -⟩ := hheader
    rw [hkind] at h4 h8
    exact ⟨h1, h2, h3, h4, by simp [promoteIdentifierCandidate], h6, h7, h8, h9, h10,
      not_not.mpr rfl⟩
  assisted := by
    refine ⟨?_, h.assisted.2⟩
    change QueryPlanKind.identifier ≠ .explicit
    decide
  bounds := h.bounds
  terms := h.terms.trans (map_promoted fun entry => (promoteIntent_spec _ entry).2.1).symm
  indexed := by
    refine ⟨fun i intent hget => ?_, by simpa [promoteIdentifierCandidate] using h.indexed.count⟩
    simp only [promoteIdentifierCandidate, getElem?_map, getElem?_zipIdx,
      Option.map_map, Option.map_eq_some_iff] at hget
    obtain ⟨before, hbefore, rfl⟩ := hget
    exact (promoteIntent_spec _ _).1.trans (h.indexed.index i before hbefore)
  recognized := by
    intro intent hintent hprojection
    obtain ⟨before, i, hget, rfl⟩ := mem_promoted.mp hintent
    obtain ⟨-, htext, hsame, hrole⟩ := promoteIntent_spec
      (lowercaseIdentifierAnchorIndexes T plan.query plan.terms) (before, i)
    rw [hsame] at hprojection
    rw [htext]
    obtain ⟨hanchor, hrecognized⟩ :=
      h.recognized before (mem_of_getElem? hget) hprojection
    exact ⟨hrole hanchor, hrecognized⟩
  exact := h.exact
  phrase := h.phrase
  probes := by
    rw [promoteIdentifierCandidate]
    refine h.probes.trans (map_promoted fun entry => ?_).symm
    obtain ⟨hindex, htext, -⟩ := promoteIntent_spec
      (lowercaseIdentifierAnchorIndexes T plan.query plan.terms) entry
    simp [supportProbe, hindex, htext]

/-! ## §4 Anchors of a promoted plan -/

lemma IsControlToken.not_word (hT : T.Lawful) {token : Text} (h : IsControlToken token) :
    isAsciiNumber token = false ∧ isShortAlphabetic T token = false := by
  have hchar : ∃ c ∈ token, c.isDigit = false ∧ T.isAlphabetic c = false := by
    rcases h with h | h
    · exact ⟨'>', h, by decide +kernel,
        (hT.alphabetic_ascii '>' (by decide +kernel)).trans (by decide +kernel)⟩
    · exact ⟨':', h, by decide +kernel,
        (hT.alphabetic_ascii ':' (by decide +kernel)).trans (by decide +kernel)⟩
  obtain ⟨c, hc, hdigit, halphabetic⟩ := hchar
  constructor
  · exact all_eq_false.mpr ⟨c, hc, by simp [hdigit]⟩
  · have hall : token.all T.isAlphabetic = false :=
      all_eq_false.mpr ⟨c, hc, by simp [halphabetic]⟩
    simp [isShortAlphabetic, hall]

/-- Controls in front of a candidate shift its number, and may make it too long. -/
theorem lowercaseIdentifierComponents_behind (hT : T.Lawful) {query text : Text}
    {front tokens : List Text} {numberIndex : ℕ}
    (hquery : splitWhitespace query = front ++ splitWhitespace text)
    (hfront : ∀ token ∈ front, IsControlToken token)
    (h : lowercaseIdentifierComponents T text = some (tokens, numberIndex)) :
    lowercaseIdentifierComponents T query =
      if 6 < (splitWhitespace query).length then none
      else some (front ++ tokens, front.length + numberIndex) := by
  unfold lowercaseIdentifierComponents at h ⊢
  simp only at h ⊢
  split at h
  · cases h
  rename_i hshort
  rw [not_or, not_lt] at hshort
  split at h
  · cases h
  rename_i number hnumber
  split at h
  swap
  · cases h
  rename_i hcandidate
  cases h
  have hne : splitWhitespace query ≠ [] := by simp [hquery, hshort.1]
  have hfind : (splitWhitespace query).findIdx? isAsciiNumber =
      some (front.length + numberIndex) := by
    have hnone : front.findIdx? isAsciiNumber = none :=
      findIdx?_eq_none_iff.mpr fun token htoken => ((hfront token htoken).not_word hT).1
    rw [hquery, findIdx?_append, hnone, hnumber]
    simp [Nat.add_comm]
  have htake : (splitWhitespace query).take (front.length + numberIndex) =
      front ++ (splitWhitespace text).take numberIndex := by
    rw [hquery, take_length_add_append]
  by_cases hlong : 6 < (splitWhitespace query).length
  · simp [hlong]
  · rw [if_neg (by simp [hne, hlong]), if_neg hlong, hfind]
    simp only [htake, any_append, hcandidate, Bool.or_true, if_true]
    rw [hquery]

/-- A number of a query is a term of it as it stands. -/
theorem number_isTerm (hT : T.Lawful) {token : Text} (hne : token ≠ [])
    (hnumber : isAsciiNumber token = true) (hbytes : utf8Len token ≤ maxNormalizedExactBytes) :
    IsTerm T token ∧ normalizeToken T token = some token := by
  have hdigit : ∀ c ∈ token, c.isDigit = true := all_eq_true.mp hnumber
  have hascii : ∀ c ∈ token, c.toNat < 128 := by
    intro c hc
    by_contra hbeyond
    have hnot := (CharTables.beyond_ascii hbeyond).2.1
    rw [hdigit c hc] at hnot
    cases hnot
  have halphanumeric : ∀ c ∈ token, T.isAlphanumeric c = true := by
    intro c hc
    simp [CharTables.isAlphanumeric, hT.numeric_ascii c (hascii c hc), hdigit c hc]
  have hfixed : T.fold token = token := by
    refine fold_of_fixed fun c hc => (hT.foldChar_ascii c (hascii c hc)).trans ?_
    rw [CharTables.of_ascii (P := fun c => c.isDigit = true → c.toLower = c) (by decide +kernel) c
      (hascii c hc) (hdigit c hc)]
  have hterm : IsTerm T token := by
    refine ⟨hne, fun c hc => ?_, fun c hc => ?_, fun c hc => ?_⟩
    · simp [isTermChar, halphanumeric c hc]
    · exact halphanumeric c (mem_of_mem_head? hc)
    · exact halphanumeric c (mem_of_mem_getLast? hc)
  refine ⟨hterm, ?_⟩
  rw [normalizeToken, hterm.trim_self,
    normalizeRaw_of_word hne (fun c hc => termChar_not_whitespace hT (hterm.chars c hc)), hfixed]
  · rwa [hfixed]
  · rwa [hfixed]

section Promotion

variable {query : Text} {controls : ParsedFieldControls}

/-- An ordinary query of few words has no identifiers. -/
theorem no_identifiers (hkind : classifyQuery T controls.queryText = .ordinary)
    {components : List Text × ℕ}
    (hcandidate : lowercaseIdentifierComponents T controls.queryText = some components) :
    technicalIdentifierSpans T controls.queryText = [] := by
  have hshort : ¬ (splitWhitespace controls.queryText = [] ∨
      6 < (splitWhitespace controls.queryText).length) := by
    intro hlong
    simp [lowercaseIdentifierComponents, hlong] at hcandidate
  by_contra hne
  obtain ⟨⟨span, N⟩, rest, hspans⟩ := exists_cons_of_ne_nil hne
  have hidentifier : technicalIdentifiers T controls.queryText ≠ [] :=
    ne_nil_of_mem (mem_technicalIdentifiers.mpr ⟨span, by
      rw [hspans]
      exact mem_cons_self⟩)
  have hlike : isIdentifierLike T controls.queryText = true := by
    simp [isIdentifierLike, hshort, hidentifier]
  unfold classifyQuery at hkind
  rw [hlike, Bool.or_true, if_pos rfl] at hkind
  split at hkind <;> cases hkind

/-- Promotion finds an anchor exactly when the query, controls included, is no longer than a
candidate may be. -/
theorem promoted_anchor_iff (hT : T.Lawful) (hlimits : WithinLimits query)
    (hcontrols : parseFieldControls query = .ok controls)
    (hcount : (plannedIntents T controls).length ≤ maxTermSupportProbes)
    (hkind : classifyQuery T controls.queryText = .ordinary)
    (hcandidate : isLowercaseIdentifierCandidate T controls.queryText = true) :
    (∃ intent ∈ (promoteIdentifierCandidate T
        { draftPlan T query controls with metadataProbe := none }).termIntents, intent.isAnchor) ↔
      ¬ 6 < (splitWhitespace query).length := by
  obtain ⟨⟨tokens, numberIndex⟩, hcomponents⟩ := Option.isSome_iff_exists.mp hcandidate
  have hspans := no_identifiers hkind hcomponents
  have hintents : plannedIntents T controls = queryTermIntents T controls.queryText .ordinary := by
    simp [plannedIntents, hkind]
  obtain ⟨front, hquery, hfront⟩ : ∃ front,
      splitWhitespace query = front ++ splitWhitespace controls.queryText ∧
        ∀ token ∈ front, IsControlToken token := by
    rcases parseFieldControls_spec hcontrols with rfl | ⟨-, -, -, -, hfront⟩
    · exact ⟨[], rfl, by simp⟩
    · exact hfront
  have hbehind := lowercaseIdentifierComponents_behind hT hquery hfront hcomponents
  -- nothing is an anchor before the promotion
  have hoptional : ∀ intent ∈ plannedIntents T controls, intent.isAnchor = false := by
    intro intent hintent
    rw [hintents] at hintent
    obtain ⟨i, t, hi, rfl⟩ := mem_queryTermIntents.mp hintent
    rw [Bool.eq_false_iff, ne_eq, isAnchor_plannedIntent]
    rintro (hexact | hfallback)
    · rcases mem_plannedTerms.mp (mem_of_getElem? hi) with ⟨-, span, hspan⟩ | ⟨hanalyzed, -⟩
      · rw [hspans] at hspan
        cases hspan
      · rw [hexact] at hanalyzed
        cases hanalyzed
    · simp [fallbackAnchors] at hfallback
  by_cases hlong : 6 < (splitWhitespace query).length
  · refine iff_of_false ?_ (not_not.mpr hlong)
    rintro ⟨intent, hintent, hanchor⟩
    obtain ⟨before, i, hget, rfl⟩ := mem_promoted.mp hintent
    have hanchors : lowercaseIdentifierAnchorIndexes T query
        (draftPlan T query controls).terms = [] := by
      simp [lowercaseIdentifierAnchorIndexes, hbehind, hlong]
    have hbefore := hoptional before (mem_of_getElem? hget)
    change (promoteIntent (lowercaseIdentifierAnchorIndexes T query _) (before, i)).isAnchor = true
      at hanchor
    rw [hanchors] at hanchor
    simp [promoteIntent, hbefore] at hanchor
  · refine iff_of_true ?_ hlong
    rw [if_neg hlong] at hbehind
    -- the number is a term, and promotion names it
    have hnumber : ∃ number ∈ splitWhitespace controls.queryText,
        tokens[numberIndex]? = some number ∧ isAsciiNumber number = true := by
      unfold lowercaseIdentifierComponents at hcomponents
      simp only at hcomponents
      split at hcomponents
      · cases hcomponents
      split at hcomponents
      · cases hcomponents
      rename_i found hfound
      split at hcomponents
      swap
      · cases hcomponents
      cases hcomponents
      obtain ⟨hlt, hnumber, -⟩ := findIdx?_eq_some_iff_getElem.mp hfound
      exact ⟨_, getElem_mem hlt, getElem?_eq_getElem hlt, hnumber⟩
    obtain ⟨number, hword, hget, hdigits⟩ := hnumber
    have hbytes : utf8Len number ≤ maxNormalizedExactBytes := by
      have hpart : number ∈ splitWhitespace query := by
        rw [hquery]
        exact mem_append_right _ hword
      exact (utf8Len_le_of_part (part_of_mem_runs hpart).1).trans hlimits.bytes
    obtain ⟨hterm, hnormalized⟩ :=
      number_isTerm hT (mem_splitWhitespace hword).1 hdigits hbytes
    have hplanned : (number, QueryTermProjection.analyzedText) ∈ plannedTerms T controls.queryText := by
      refine mem_plannedTerms.mpr (.inr ⟨rfl, controls.queryText, ?_, number, hword,
        mem_components_of_isTerm hT hnormalized hterm⟩)
      rw [identifierGaps_of_none hspans]
      exact mem_singleton_self _
    obtain ⟨i, hi⟩ := mem_iff_getElem?.mp hplanned
    have hintent := getElem?_queryTermIntents (T := T) controls.queryText .ordinary i
    rw [hi, Option.map_some, ← hintents] at hintent
    refine ⟨_, mem_promoted.mpr ⟨_, i, hintent, rfl⟩, ?_⟩
    have hi16 : i % 2 ^ 16 = i := by
      have hlt := (List.getElem?_eq_some_iff.mp hintent).1
      unfold maxTermSupportProbes at hcount
      exact Nat.mod_eq_of_lt (by omega)
    have hmem : i ∈ lowercaseIdentifierAnchorIndexes T query (draftPlan T query controls).terms := by
      unfold lowercaseIdentifierAnchorIndexes
      rw [hbehind]
      refine mem_map.mpr ⟨(number, i), mem_filter.mpr ⟨?_, ?_⟩, hi16⟩
      · rw [mk_mem_zipIdx_iff_getElem?]
        change ((plannedIntents T controls).map (·.text))[i]? = some number
        rw [getElem?_map, hintent]
        rfl
      · simp [getD_eq_getElem?_getD, getElem?_append_right, hget, hnormalized]
    change (promoteIntent (lowercaseIdentifierAnchorIndexes T query _) (_, i)).isAnchor = true
    simp [promoteIntent, hmem, QueryTermIntent.isAnchor]

end Promotion

/-! ## §5 Finalization -/

lemma metadataProbe_some {query : Text} {controls : ParsedFieldControls}
    (h : (draftPlan T query controls).metadataProbe.isSome = true) :
    classifyQuery T controls.queryText = .ordinary ∧
      isLowercaseIdentifierCandidate T controls.queryText = true := by
  change (metadataProbeFor T (classifyQuery T controls.queryText) controls).isSome = true at h
  unfold metadataProbeFor at h
  simp only at h
  split at h
  · rename_i hprobe
    exact ⟨hprobe.1, hprobe.2.2⟩
  · cases h

/-- A faithful report is accepted unless it promotes a query that its controls have made longer than
a candidate may be. -/
theorem finalizeEvidence_accepts_iff (hT : T.Lawful) {query : Text} {plan : LexicalQueryPlan}
    {report : QueryEvidenceReport} (hplan : prepareLexicalQuery T query = .ok plan)
    (heligible : plan.assistance = .eligible) (hreport : FaithfulReport plan report) :
    (∃ final, finalizeEvidence T plan report = .ok final) ↔
      ¬ (plan.metadataProbe.isSome ∧ report.identifierProbeMatched = some true ∧
        6 < (splitWhitespace plan.query).length) := by
  have hawaiting := awaiting_of_prepared hplan heligible
  obtain ⟨hlimits, controls, hcontrols, hcount, hvalid, hdraft⟩ := prepareLexicalQuery_ok_iff.mp hplan
  have hschema : ¬ report.schemaVersion ≠ lexicalQueryPlanSchemaVersion :=
    not_not.mpr hreport.schemaVersion
  have hbypass : ¬ plan.assistance = .explicitSyntaxBypass := by
    rw [heligible]
    decide
  have hsteps : (∃ final, finalizeEvidence T plan report = .ok final) ↔
      ∃ observed, observeIdentifier T plan report.identifierProbeMatched = .ok observed ∧
        ∃ final, (do
          let plan ← recordSupports observed report.termSupport
          let concluded := concludeEvidence plan report.termSupport
          validatePlan T concluded
          .ok concluded : Except QueryPlanError LexicalQueryPlan) = .ok final := by
    rw [hdraft] at hbypass hawaiting ⊢
    simp only [finalizeEvidence, rejectIf_ok, hvalid, hschema, if_neg hbypass,
      not_false_eq_true, true_and, bind_ok_iff]
    simp only [exists_const]
    exact exists_comm.trans (exists_congr fun _ => exists_and_left)
  have hanchored : ∀ observed : LexicalQueryPlan, observed.kind = plan.kind →
      observed.termIntents = plan.termIntents →
      (observed.kind = .identifier → ∃ intent ∈ observed.termIntents, intent.isAnchor) := by
    intro observed hkind hintents hidentifier
    rw [hkind] at hidentifier
    rw [hintents]
    rw [validatePlan, bind_unit_ok_iff, ← hdraft, if_neg hawaiting.assisted.1] at hvalid
    have hassisted := hvalid.2
    simp only [validateAssisted, bind_unit_ok_iff, rejectIf_ok] at hassisted
    simpa [hidentifier] using hassisted.2.2.2.1
  rw [hsteps]
  cases hprobe : plan.metadataProbe with
  | none =>
    have hunmatched : report.identifierProbeMatched = none := by
      have hsome := hreport.identifier
      rw [hprobe] at hsome
      simpa using hsome
    rw [hunmatched]
    have hobserved : observeIdentifier T plan none = .ok plan := by simp [observeIdentifier, hprobe]
    simp only [hobserved, Except.ok.injEq, exists_eq_left',
      hawaiting.conclude_iff hreport.terms hreport.expansions]
    simpa using hanchored plan rfl rfl
  | some probe =>
    obtain ⟨matched, hmatched⟩ : ∃ matched, report.identifierProbeMatched = some matched := by
      have hsome := hreport.identifier
      rw [hprobe] at hsome
      exact Option.isSome_iff_exists.mp hsome
    rw [hmatched]
    cases matched with
    | false =>
      have hobserved : observeIdentifier T plan (some false) =
          .ok { plan with metadataProbe := none } := by simp [observeIdentifier, hprobe]
      have hunprobed : Awaiting T { plan with metadataProbe := none } := { hawaiting with }
      simp only [hobserved, Except.ok.injEq, exists_eq_left']
      rw [hunprobed.conclude_iff hreport.terms hreport.expansions]
      simpa using hanchored { plan with metadataProbe := none } rfl rfl
    | true =>
      have hobserved : observeIdentifier T plan (some true) =
          .ok (promoteIdentifierCandidate T { plan with metadataProbe := none }) := by
        simp [observeIdentifier, hprobe]
      obtain ⟨hkind, hcandidate⟩ := metadataProbe_some
        (show (draftPlan T query controls).metadataProbe.isSome = true by
          rw [← hdraft, hprobe]
          rfl)
      have hpromoted := hawaiting.promote (by rw [hdraft]; exact hkind)
      simp only [hobserved, Except.ok.injEq, exists_eq_left']
      rw [hpromoted.conclude_iff hreport.terms hreport.expansions]
      have hquery : plan.query = query := by
        rw [hdraft]
        rfl
      rw [hquery]
      simp only [Option.isSome_some, true_and]
      subst hdraft
      -- a promoted plan is an identifier plan
      exact Iff.trans ⟨fun h => h rfl, fun h _ => h⟩
        (promoted_anchor_iff hT hlimits hcontrols hcount hkind hcandidate)

/-- Seven words with the controls, five without. -/
def controlledQuery : Text := "in:title >title abc 2 d e f".toList

def controlledReport (matched : Bool) : QueryEvidenceReport where
  schemaVersion := lexicalQueryPlanSchemaVersion
  identifierProbeMatched := some matched
  termSupport := [⟨0, 0, 1, 0⟩, ⟨1, 1, 1, 0⟩, ⟨2, 2, 1, 0⟩, ⟨3, 3, 1, 0⟩, ⟨4, 4, 1, 0⟩]

def controlledPlan : LexicalQueryPlan :=
  draftPlan .latin controlledQuery ⟨"abc 2 d e f".toList, some .title, some .title⟩

theorem finalizeEvidence_accepts_controlled :
    (∃ final, finalizeEvidence .latin controlledPlan (controlledReport false) = .ok final) ↔
      ¬ (controlledPlan.metadataProbe.isSome ∧
        (controlledReport false).identifierProbeMatched = some true ∧
        6 < (splitWhitespace controlledPlan.query).length) :=
  finalizeEvidence_accepts_iff CharTables.latin_lawful
    (show prepareLexicalQuery .latin controlledQuery = .ok controlledPlan by decide +kernel)
    (by decide +kernel)
    ⟨by decide +kernel, by decide +kernel, by decide +kernel, by decide +kernel⟩

/-- The probe asked about five words; the anchors are looked for among seven. -/
theorem finalizeEvidence_rejects_controlled :
    ¬ ∀ T : CharTables, T.Lawful → ∀ query plan report, prepareLexicalQuery T query = .ok plan →
      plan.assistance = .eligible → plan.execution = .awaitingEvidence →
      FaithfulReport plan report → ∃ final, finalizeEvidence T plan report = .ok final := by
  intro h
  obtain ⟨final, hfinal⟩ := h .latin CharTables.latin_lawful controlledQuery controlledPlan
    (controlledReport true) (by decide +kernel) (by decide +kernel) (by decide +kernel)
    ⟨by decide +kernel, by decide +kernel, by decide +kernel, by decide +kernel⟩
  have hrejected : finalizeEvidence .latin controlledPlan (controlledReport true) =
      .error (invalidPlan "identifier query must declare at least one required anchor") := by
    decide +kernel
  rw [hrejected] at hfinal
  cases hfinal

end Kwiry
