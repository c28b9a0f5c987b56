import Kwiry.Query.Finalization

/-!
# The Query Adapter

`evidence_probe_plans` of the plugin's WASM adapter: a prepared plan becomes probes of the FTS5
index. Each analyzed optional term that is long enough gets a prefix pattern, as long as its probe
stands among the first ones; the native engine counts the terms it expands instead.
-/

namespace Kwiry

open Foundations

structure AdapterError where
  (code message : Text)

def adapterError (code message : String) : AdapterError :=
  ⟨code.toList, message.toList⟩

def asAdapter {A : Type} (result : Except QueryPlanError A) : Except AdapterError A :=
  result.mapError fun error => ⟨error.code, error.message⟩

def fts5MatchPlanSchemaVersion : ℕ := 11
def maxMatchValueBytes : ℕ := 16 * 1024
def maxPrefixTermBytes : ℕ := 96

structure Fts5TermSupport where
  (schemaVersion probeId termIndex : ℕ)
  (matchValue exactIdentifier prefixPattern : Option Text)
  prefixFields : List QueryField
  prefixStem : Option Text
  (maxPrefixExpansions maxPrefixExpansionScan maxPrefixTermBytes : ℕ)

inductive Fts5EvidenceProbePlan where
  | identifierMetadataV3 (schemaVersion : ℕ) (matchValue : Text)
  | termSupportV3 (support : Fts5TermSupport)

/-! ## §1 Match values -/

/-- A quoted phrase, its own quotes doubled. -/
def quoteFtsPhrase (value : Text) : Text :=
  '"' :: value.flatMap (fun c => if c = '"' then ['"', '"'] else [c]) ++ ['"']

def matchTerms (terms : List Text) (operator : Text) : Except AdapterError Text := do
  rejectIf (terms = []) (adapterError "invalid_query" "Query does not contain searchable terms.")
  .ok (joinWith ([' '] ++ operator ++ [' ']) (terms.map quoteFtsPhrase))

def boundedMatchValue (value : Text) : Except AdapterError Text := do
  rejectIf (maxMatchValueBytes < utf8Len value)
    (adapterError "invalid_query" "Prepared match value exceeds the supported size.")
  .ok value

def declaredQueryFields (groups : QueryFieldGroups) : QueryFieldGroup → List QueryField
  | .searchableText => groups.searchableText
  | .metadata => groups.metadata
  | .exact => groups.exact
  | .phrase => groups.phrase
  | .prefixes => groups.prefixes
  | .prefixMetadata => groups.prefixMetadata

def fts5Column : QueryField → Text
  | .filename => "filename".toList
  | .stem => "stem".toList
  | .aliases => "aliases".toList
  | .title => "title".toList
  | .heading => "heading_text".toList
  | .tags => "tags".toList
  | .content => "content".toList
  | .contentIdentifiers => "identifiers".toList

def fts5Fields (plan : LexicalQueryPlan) (group : QueryFieldGroup) : Except AdapterError Text := do
  let fields := declaredQueryFields plan.fieldGroups group
  rejectIf (fields = []) (adapterError "invalid_query_plan" "Field group is empty.")
  .ok (joinWith [' '] (fields.map fts5Column))

def metadataColumn : QueryMetadataField → Text
  | .filename => "filename".toList
  | .stem => "stem".toList
  | .aliases => "aliases".toList
  | .title => "title".toList
  | .heading => "heading_text".toList
  | .tags => "tags".toList

def metadataProbeFields (fields : List QueryMetadataField) : Except AdapterError Text := do
  rejectIf (fields = []) (adapterError "invalid_query_plan" "Metadata probe fields are empty.")
  .ok (joinWith [' '] (fields.map metadataColumn))

/-- An expression over some columns. -/
def columnFilter (fields expression : Text) : Text :=
  ['{'] ++ fields ++ ['}', ' ', ':', ' ', '('] ++ expression ++ [')']

/-- The intents that indexes name. -/
def intentsAt (plan : LexicalQueryPlan) (indexes : List ℕ) (message : String) :
    Except AdapterError (List QueryTermIntent) :=
  indexes.mapM fun index =>
    match plan.termIntents[index]? with
    | none => .error (adapterError "invalid_query_plan" message)
    | some intent => .ok intent

def scopedOptionalAnalyzedTerms (plan : LexicalQueryPlan) (group : QueryFieldGroup)
    (indexes : List ℕ) (operator : Text) : Except AdapterError (Option Text) := do
  let intents ← intentsAt plan indexes "Unknown term index."
  let terms := (intents.filter (·.projection = .analyzedText)).map (·.text)
  if terms = [] then .ok none
  else do
    let fields ← fts5Fields plan group
    let expression ← matchTerms terms operator
    .ok (some (columnFilter fields expression))

def scopedAnalyzedTerms (plan : LexicalQueryPlan) (group : QueryFieldGroup) (indexes : List ℕ) :
    Except AdapterError Text := do
  match ← scopedOptionalAnalyzedTerms plan group indexes "AND".toList with
  | none => .error (adapterError "invalid_query_plan" "Analyzed term probe has no analyzed term.")
  | some value => .ok value

/-! ## §2 Evidence probes -/

variable (T : CharTables)

/-- A `LIKE` pattern for the terms that extend one; the wildcards in it are escaped. -/
def prefixPattern (term : Text) (minimumChars : ℕ) : Option Text :=
  if term.length < minimumChars ∨ !term.all (isTermChar T) then none
  else some (term.flatMap (fun c => if c ∈ ['\\', '%', '_'] then ['\\', c] else [c]) ++ ['%'])

section

variable (plan : LexicalQueryPlan)

/-- The pattern of a probe by its position. -/
def probePattern (intent : QueryTermIntent) (probe : QueryTermSupportProbe) (probeIndex : ℕ) :
    Option Text :=
  if intent.projection = .analyzedText ∧ intent.role = .optionalContext ∧
      probeIndex < plan.bounds.maxPrefixTerms then
    prefixPattern T probe.term plan.bounds.minPrefixChars
  else none

/-- The match value of an analyzed term. -/
def probeMatchValue (intent : QueryTermIntent) (probe : QueryTermSupportProbe) :
    Except AdapterError (Option Text) :=
  if intent.projection = .analyzedText then
    (scopedAnalyzedTerms plan probe.fieldGroup [probe.termIndex]).map some
  else .ok none

def termSupportPlan (entry : QueryTermSupportProbe × ℕ) :
    Except AdapterError Fts5EvidenceProbePlan := do
  let (probe, probeIndex) := entry
  match plan.termIntents[probe.termIndex]? with
  | none => .error (adapterError "invalid_query_plan" "Unknown support probe term.")
  | some intent => do
    let matchValue ← probeMatchValue plan intent probe
    let pattern := probePattern T plan intent probe probeIndex
    .ok (.termSupportV3 {
      schemaVersion := fts5MatchPlanSchemaVersion
      probeId := probe.probeId
      termIndex := probe.termIndex
      matchValue
      exactIdentifier := if intent.projection = .exactIdentifier then some intent.text else none
      prefixPattern := pattern
      prefixFields := if pattern.isSome then plan.fieldGroups.prefixes else []
      prefixStem := if pattern.isSome then some probe.term else none
      maxPrefixExpansions := plan.bounds.maxPrefixExpansionsPerTerm
      maxPrefixExpansionScan := plan.bounds.maxPrefixExpansionScan
      maxPrefixTermBytes := Kwiry.maxPrefixTermBytes })

def metadataProbePlan : Except AdapterError (List Fts5EvidenceProbePlan) :=
  match plan.metadataProbe with
  | none => .ok []
  | some probe => do
    let terms ← matchTerms plan.terms "AND".toList
    let fields ← metadataProbeFields probe.fields
    let matchValue ← boundedMatchValue (columnFilter fields terms)
    .ok [.identifierMetadataV3 fts5MatchPlanSchemaVersion matchValue]

def evidenceProbePlans :
    Except AdapterError (List Fts5EvidenceProbePlan) := do
  let _ ← asAdapter (validatePlan T plan)
  if plan.assistance = .explicitSyntaxBypass ∨ plan.execution = .emptyNoEvidence then .ok []
  else do
    let metadata ← metadataProbePlan plan
    let supports ← plan.supportProbes.zipIdx.mapM (termSupportPlan T plan)
    .ok (metadata ++ supports)

end

end Kwiry
