import Mathlib.Data.List.DropRight
import Kwiry.Foundations.Folds
import Kwiry.Foundations.Runs
import Kwiry.Lexical
import Kwiry.Query.Field

/-!
# The Lexical Query Plan

`query.rs`: the plan a query is turned into before any index is asked, its field controls, and
the terms it is made of. Classification, identifier spans, and the two passes over the words of
the text each cut the text in their own way.

Offsets count characters, lengths in bytes are those of UTF-8.
-/

namespace Kwiry

open Foundations

def lexicalQueryPlanSchemaVersion : ℕ := 12
def fieldControlsSchemaVersion : ℕ := 1
def maxQueryTerms : ℕ := 128
def maxTermSupportProbes : ℕ := 128
def maxEvidenceStages : ℕ := 6
def maxPartialCoverageTerms : ℕ := 128
def minFallbackOptionalTerms : ℕ := 2
def minPrefixChars : ℕ := 3
def maxPrefixTerms : ℕ := 8
def maxPrefixExpansionsPerTerm : ℕ := 16
def maxPrefixExpansionScan : ℕ := 256
def maxCandidatesPerStage : ℕ := 256

/-! ## §1 The parts of a plan -/

inductive QueryPlanKind where
  | explicit | ordinary | identifier
  deriving DecidableEq

inductive QueryMatchOperator where
  | explicit | any | all
  deriving DecidableEq

inductive QueryAssistanceEligibility where
  | explicitSyntaxBypass | eligible
  deriving DecidableEq

inductive QueryExecutionDisposition where
  | explicitBypass | awaitingEvidence | ready | emptyNoEvidence
  deriving DecidableEq

inductive QueryTermRole where
  | requiredIdentifierAnchor | optionalContext
  deriving DecidableEq

inductive QueryTermProjection where
  | analyzedText | exactIdentifier
  deriving DecidableEq

inductive QueryTermSupport where
  | unknown | useful | unsupported
  deriving DecidableEq

inductive QueryField where
  | filename | stem | aliases | title | heading | tags | content | contentIdentifiers
  deriving DecidableEq

inductive QueryFieldGroup where
  | searchableText | metadata | exact | phrase | prefixes | prefixMetadata
  deriving DecidableEq

inductive QueryTypoStage where
  | disabled
  deriving DecidableEq

inductive QueryMetadataField where
  | filename | stem | aliases | title | heading | tags
  deriving DecidableEq

/-- The evidence ladder, strongest first. -/
inductive QueryEvidenceStageKind where
  | exactMetadata | exactPhrase | prefixMetadata | allTerms | prefixes | partialCoverage
  deriving DecidableEq

inductive QueryEvidenceStageCondition where
  | always | ifFewerThanMinimumStandardSources
  deriving DecidableEq

structure QueryFieldGroups where
  (searchableText metadata exact phrase prefixes prefixMetadata : List QueryField)
  deriving DecidableEq

structure QueryBounds where
  (maxQueryBytes maxQueryTerms maxTermSupportProbes maxEvidenceStages maxPartialCoverageTerms : ℕ)
  (minPrefixChars maxPrefixTerms maxPrefixExpansionsPerTerm maxPrefixExpansionScan : ℕ)
  (maxCandidatesPerStage maxTotalCandidates minStandardSources : ℕ)
  deriving DecidableEq

structure QueryTermIntent where
  index : ℕ
  text : Text
  role : QueryTermRole
  projection : QueryTermProjection
  support : QueryTermSupport
  deriving DecidableEq

structure QueryExactIntent where
  normalized : Text
  fieldGroup : QueryFieldGroup
  deriving DecidableEq

structure QueryPhraseIntent where
  terms : List Text
  fieldGroup : QueryFieldGroup
  deriving DecidableEq

structure QueryTermSupportProbe where
  (probeId termIndex : ℕ)
  term : Text
  fieldGroup : QueryFieldGroup
  deriving DecidableEq

structure QueryTermSupportObservation where
  (probeId termIndex documentFrequency prefixExpansions : ℕ)

structure QueryEvidenceReport where
  schemaVersion : ℕ
  identifierProbeMatched : Option Bool
  termSupport : List QueryTermSupportObservation

structure QueryEvidenceStage where
  ordinal : ℕ
  kind : QueryEvidenceStageKind
  condition : QueryEvidenceStageCondition
  fieldGroup : QueryFieldGroup
  (requiredTermIndexes prefixTermIndexes : List ℕ)
  maxCandidates : ℕ
  /-- How many optional terms must match; with none, every term is required. -/
  minimumOptionalMatches : ℕ
  deriving DecidableEq

structure QueryMetadataProbe where
  query : Text
  fields : List QueryMetadataField
  conjunction : Bool
  deriving DecidableEq

structure LexicalQueryPlan where
  schemaVersion : ℕ
  profileId : Text
  fieldControlsSchemaVersion : ℕ
  (query queryText : Text)
  (scope emphasis : Option QueryPublicField)
  kind : QueryPlanKind
  matchOperator : QueryMatchOperator
  assistance : QueryAssistanceEligibility
  execution : QueryExecutionDisposition
  terms : List Text
  termIntents : List QueryTermIntent
  normalizedExact : Option Text
  exactIntent : Option QueryExactIntent
  phraseBoost : Bool
  phraseIntent : Option QueryPhraseIntent
  fieldGroups : QueryFieldGroups
  bounds : QueryBounds
  typoStage : QueryTypoStage
  supportProbes : List QueryTermSupportProbe
  evidenceStages : List QueryEvidenceStage
  metadataProbe : Option QueryMetadataProbe
  deriving DecidableEq

structure QueryPlanError where
  (code message : Text)
  deriving DecidableEq

def invalidQuery (message : String) : QueryPlanError :=
  ⟨"invalid_query".toList, message.toList⟩

def invalidControl (message : String) : QueryPlanError :=
  ⟨"invalid_field_control".toList, message.toList⟩

def invalidPlan (message : String) : QueryPlanError :=
  ⟨"invalid_query_plan".toList, message.toList⟩

/-! ## §2 Fields and bounds -/

namespace QueryPublicField

def parse (value : Text) : Option QueryPublicField :=
  if value = "name".toList then some .name
  else if value = "filename".toList then some .filename
  else if value = "title".toList then some .title
  else if value = "alias".toList then some .alias
  else if value = "heading".toList then some .heading
  else if value = "tag".toList then some .tag
  else if value = "body".toList then some .body
  else none

def fields : QueryPublicField → List QueryField
  | .name => [.filename, .stem, .aliases, .title]
  | .filename => [.filename, .stem]
  | .title => [.title]
  | .alias => [.aliases]
  | .heading => [.heading]
  | .tag => [.tags]
  | .body => [.content]

def contains (scope field : QueryPublicField) : Bool :=
  field.fields.all fun candidate => scope.fields.contains candidate

end QueryPublicField

namespace QueryFieldGroups

def lexicalV1 : QueryFieldGroups :=
  let searchableText := [.filename, .stem, .aliases, .title, .heading, .tags, .content]
  { searchableText
    metadata := searchableText.take 6
    exact := [.filename, .stem, .aliases, .title, .heading, .contentIdentifiers]
    phrase := searchableText
    prefixes := searchableText
    prefixMetadata := searchableText.take 4 }

def isPrefixMetadataField : QueryField → Bool
  | .filename | .stem | .aliases | .title => true
  | _ => false

def lexicalV2 (scope : Option QueryPublicField) : QueryFieldGroups :=
  let searchableText := match scope with
    | none => lexicalV1.searchableText
    | some field => field.fields
  { searchableText
    metadata := searchableText.filter (· ≠ .content)
    exact := match scope with
      | none => lexicalV1.exact
      | some .name => [.filename, .stem, .aliases, .title]
      | some .filename => [.filename, .stem]
      | some .title => [.title]
      | some .alias => [.aliases]
      | some .heading => [.heading]
      | some .tag => [.tags]
      | some .body => [.contentIdentifiers]
    phrase := searchableText
    prefixes := searchableText
    prefixMetadata := searchableText.filter isPrefixMetadataField }

end QueryFieldGroups

def QueryBounds.lexicalV1 : QueryBounds where
  maxQueryBytes := Kwiry.maxQueryBytes
  maxQueryTerms := Kwiry.maxQueryTerms
  maxTermSupportProbes := Kwiry.maxTermSupportProbes
  maxEvidenceStages := Kwiry.maxEvidenceStages
  maxPartialCoverageTerms := Kwiry.maxPartialCoverageTerms
  minPrefixChars := Kwiry.minPrefixChars
  maxPrefixTerms := Kwiry.maxPrefixTerms
  maxPrefixExpansionsPerTerm := Kwiry.maxPrefixExpansionsPerTerm
  maxPrefixExpansionScan := Kwiry.maxPrefixExpansionScan
  maxCandidatesPerStage := Kwiry.maxCandidatesPerStage
  maxTotalCandidates := Kwiry.maxTotalCandidates
  minStandardSources := Kwiry.minStandardSources

def metadataField : QueryField → Option QueryMetadataField
  | .filename => some .filename
  | .stem => some .stem
  | .aliases => some .aliases
  | .title => some .title
  | .heading => some .heading
  | .tags => some .tags
  | .content | .contentIdentifiers => none

def metadataFieldsForScope (scope : Option QueryPublicField) : List QueryMetadataField :=
  let fields := match scope with
    | none => QueryFieldGroups.lexicalV1.metadata
    | some field => field.fields
  fields.filterMap metadataField

/-! ## §3 Field controls -/

/-- A syntax that takes a query out of assistance. -/
def hasExplicitSyntax (query : Text) : Bool :=
  let words := splitWhitespace query
  if words.any (fun token => token = "AND".toList || token = "OR".toList || token = "NOT".toList) ||
      query.any (fun c => c ∈ ['"', '[', ']', '{', '}', '^', '~', '*']) ||
      query.contains ':' ||
      words.any (fun token => token.head? = some '+' || token.head? = some '-') then
    true
  else
    let trimmed := query.rdropWhile isWhitespace
    -- one question mark that ends a text of several words is prose
    let naturalTerminalQuestion := trimmed.getLast? = some '?' &&
      trimmed.dropLast.any isWhitespace && !trimmed.dropLast.contains '?'
    query.contains '?' && !naturalTerminalQuestion

/-- How far the controls of a query have been read. -/
structure ControlScan where
  rest : Text
  (scope emphasis : Option QueryPublicField)
  parsedAny : Bool

/-- The text behind a prefix. -/
def stripText (lead token : Text) : Option Text :=
  if lead.isPrefixOf token then some (token.drop lead.length) else none

/-- One round of the loop over the words in front: the scan behind a control, or nothing where the
query text starts. -/
def readControl (scan : ControlScan) : Except QueryPlanError (Option ControlScan) :=
  let token := scan.rest.takeWhile (!isWhitespace ·)
  let rest := (scan.rest.drop token.length).dropWhile isWhitespace
  match stripText "in:".toList token with
  | some value =>
    match QueryPublicField.parse value with
    | none => .error (invalidControl
        "unknown field scope; expected name, filename, title, alias, heading, tag, or body")
    | some field =>
      if scan.scope.isSome then
        .error (invalidControl "field scope may be declared only once")
      else
        .ok (some { scan with rest, scope := some field, parsedAny := true })
  | none =>
    match stripText ">".toList token with
    | none => .ok none
    | some [] => .ok none
    | some value =>
      match QueryPublicField.parse value with
      | none => .error (invalidControl
          "unknown emphasized field; expected name, filename, title, alias, heading, tag, or body")
      | some field =>
        if scan.emphasis.isSome then
          .error (invalidControl "field emphasis may be declared only once")
        else
          .ok (some { scan with rest, emphasis := some field, parsedAny := true })

/-- The loop over the controls, for as many rounds as given. -/
def readControls : ℕ → ControlScan → Except QueryPlanError ControlScan
  | 0, scan => .ok scan
  | rounds + 1, scan => do
    match ← readControl scan with
    | none => .ok scan
    | some next => readControls rounds next

structure ParsedFieldControls where
  queryText : Text
  (scope emphasis : Option QueryPublicField)
  deriving DecidableEq

def controlsContradict (scope emphasis : Option QueryPublicField) : Bool :=
  match scope, emphasis with
  | some scope, some emphasis => !scope.contains emphasis
  | _, _ => false

def parseFieldControls (query : Text) : Except QueryPlanError ParsedFieldControls := do
  let start := query.dropWhile isWhitespace
  -- every control takes at least one character
  let scan ← readControls (start.length + 1) ⟨start, none, none, false⟩
  if !scan.parsedAny then
    .ok ⟨query, none, none⟩
  else do
    rejectIf (scan.rest = []) (invalidControl "field controls require query text")
    rejectIf (hasExplicitSyntax scan.rest)
      (invalidControl "field controls cannot be combined with explicit query syntax")
    rejectIf (controlsContradict scan.scope scan.emphasis)
      (invalidControl "emphasized field must belong to the selected field scope")
    .ok ⟨scan.rest, scan.scope, scan.emphasis⟩

/-! ## §4 Classification -/

variable (T : CharTables)

def ordinaryNumberPrefixes : List Text :=
  ["best".toList, "chapter".toList, "episode".toList, "first".toList, "last".toList,
    "level".toList, "page".toList, "part".toList, "section".toList, "step".toList, "top".toList,
    "volume".toList]

def isAsciiNumber (token : Text) : Bool :=
  token.all Char.isDigit

/-- A word that may be the name in front of a number. -/
def isShortAlphabetic (token : Text) : Bool :=
  2 ≤ token.length && token.length ≤ 4 && token.all T.isAlphabetic

/-- The words of a query that may be a name typed in lower case and a number, and the position of
the number. -/
def lowercaseIdentifierComponents (query : Text) : Option (List Text × ℕ) :=
  let tokens := splitWhitespace query
  if tokens = [] ∨ 6 < tokens.length then none
  else match tokens.findIdx? isAsciiNumber with
    | none => none
    | some numberIndex =>
      let hasCandidate := (tokens.take numberIndex).any fun token =>
        isShortAlphabetic T token && token.map Char.toLower ∉ ordinaryNumberPrefixes
      if hasCandidate then some (tokens, numberIndex) else none

def isLowercaseIdentifierCandidate (query : Text) : Bool :=
  (lowercaseIdentifierComponents T query).isSome

def isStandaloneTechnicalIdentifier (query : Text) : Bool :=
  let trimmed := trim query
  (normalizeRaw T trimmed).any fun normalized => (technicalIdentifiers T trimmed).contains normalized

/-- Letters and digits in one word. -/
def isMixedAlphanumeric (token : Text) : Bool :=
  token.any T.isAlphabetic && token.any Char.isDigit

def isAcronymLike (token : Text) : Bool :=
  2 ≤ token.length && token.length ≤ 8 && token.all T.isAlphabetic &&
    token.all fun c => !T.isLowercase c

def isIdentifierLike (query : Text) : Bool :=
  let tokens := splitWhitespace query
  if tokens = [] ∨ 6 < tokens.length then false
  else if technicalIdentifiers T query ≠ [] then true
  else
    let hasNumber := tokens.any isAsciiNumber
    let hasAcronym := tokens.any fun token => isAcronymLike T token && token.any T.isUppercase
    tokens.any (isMixedAlphanumeric T) || (hasNumber && hasAcronym)

def classifyQuery (query : Text) : QueryPlanKind :=
  if hasExplicitSyntax query then .explicit
  else if isStandaloneTechnicalIdentifier T query || isIdentifierLike T query then .identifier
  else .ordinary

/-! ## §5 Terms -/

abbrev PlannedTerm := Text × QueryTermProjection

/-- Plans a term unless it is planned; the source keeps what it has seen beside the plan. -/
def pushTerm (planned : List PlannedTerm) (term : PlannedTerm) : List PlannedTerm :=
  if term ∈ planned then planned else planned ++ [term]

def trimNonAlphanumeric (token : Text) : Text :=
  trimMatches (fun c => !T.isAlphanumeric c) token

def normalizeToken (term : Text) : Option Text :=
  normalizeRaw T (trimNonAlphanumeric T term)

/-- Characters that stay together in a term. -/
def isTermChar (c : Char) : Bool :=
  T.isAlphanumeric c || c = '_'

/-- The normalized components of one authored word. -/
def analyzedComponents (authored : Text) : List Text :=
  match normalizeRaw T (trimNonAlphanumeric T authored) with
  | none => []
  | some folded => (folded.splitOnP fun c => !isTermChar T c).filterMap (normalizeToken T)

def pushAnalyzedTerms (source : Text) (planned : List PlannedTerm) : List PlannedTerm :=
  (splitWhitespace source).foldl (fun planned authored =>
    (analyzedComponents T authored).foldl (fun planned normalized =>
      pushTerm planned (normalized, .analyzedText)) planned) planned

/-- Plans the text up to an identifier and the identifier; the state is the cursor behind the last
identifier and what is planned. -/
def planSpan (query : Text) (state : ℕ × List PlannedTerm) (span : (ℕ × ℕ) × Text) :
    ℕ × List PlannedTerm :=
  let planned := pushAnalyzedTerms T ((query.take span.1.1).drop state.1) state.2
  (span.1.1 + span.1.2, pushTerm planned (span.2, .exactIdentifier))

def plannedTerms (query : Text) : List PlannedTerm :=
  let state := (technicalIdentifierSpans T query).foldl (planSpan T query) (0, [])
  pushAnalyzedTerms T (query.drop state.1) state.2

def isFallbackAnchor (token : Text) : Bool :=
  isMixedAlphanumeric T token || isAcronymLike T token || isAsciiNumber token

def fallbackAnchors (query : Text) (kind : QueryPlanKind) : List Text :=
  if kind = .identifier then
    ((splitWhitespace query).filter (isFallbackAnchor T)).filterMap (normalizeToken T)
  else []

def plannedIntent (fallback : List Text) (entry : PlannedTerm × ℕ) : QueryTermIntent where
  index := entry.2 % 2 ^ 16
  text := entry.1.1
  role := if entry.1.2 = .exactIdentifier ∨ entry.1.1 ∈ fallback then .requiredIdentifierAnchor
    else .optionalContext
  projection := entry.1.2
  support := .unknown

def queryTermIntents (query : Text) (kind : QueryPlanKind) : List QueryTermIntent :=
  (plannedTerms T query).zipIdx.map (plannedIntent (fallbackAnchors T query kind))

/-- The terms that a name typed in lower case and its number stand for. -/
def lowercaseIdentifierAnchorIndexes (query : Text) (terms : List Text) : List ℕ :=
  match lowercaseIdentifierComponents T query with
  | none => []
  | some (tokens, numberIndex) =>
    let anchors := ((tokens.take numberIndex).filter (isShortAlphabetic T)).filterMap (normalizeToken T)
      ++ (normalizeToken T (tokens.getD numberIndex [])).toList
    ((terms.zipIdx.filter fun entry => entry.1 ∈ anchors).map fun entry => entry.2 % 2 ^ 16)

end Kwiry
