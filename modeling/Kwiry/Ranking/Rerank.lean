import Kwiry.Ranking.Profile

/-!
# Metadata Reranking

`rerank_candidates`: each source is scored once by the rules of the profile, and candidates are
sorted by evidence tier, points and input order. Scoring adds a term for each rule, with both
signs, while validation bounds the sum of the terms' sizes; a score therefore stays within the
cap although nothing in the scoring looks at it.
-/

namespace Kwiry

open Foundations List

/-! ## §1 Candidates and signals -/

def rerankInputSchemaVersion : ℕ := 1
def maxRerankSourceObservations : ℕ := maxRerankCandidates
def maxPropertyValuesPerSourceObservation : ℕ := 256
def maxRankingWorkUnits : ℕ := 65536

inductive LexicalEvidenceTier where
  | explicit | exactMetadata | exactPhrase | prefixMetadata | allTerms | prefixTerms
  | partialCoverage

/-- The derived order, which follows the declaration. -/
instance : Ord LexicalEvidenceTier := ⟨compareOn LexicalEvidenceTier.ctorIdx⟩

instance : Std.TransOrd LexicalEvidenceTier :=
  inferInstanceAs (Std.TransCmp (compareOn LexicalEvidenceTier.ctorIdx))

instance : Std.LawfulEqOrd LexicalEvidenceTier :=
  lawfulEqCmp_compareOn LexicalEvidenceTier.ctorIdx
    fun a b h => by cases a <;> cases b <;> first | rfl | cases h

instance : Std.LawfulEqOrd QualifiedSourceId where
  eq_of_compare := QualifiedSourceId.eq_of_compare

structure RerankCandidate where
  source : QualifiedSourceId
  (chunkId path : Text)
  evidenceTier : LexicalEvidenceTier
  lexicalScore : F32

structure PropertyScalarObservation where
  (property pointer : Text)
  value : RankingScalar

structure SourceSignalObservation where
  source : QualifiedSourceId
  sourceMtimeEpochSeconds : Option ℕ
  (matchedPropertyRuleIds presentProperties : List Text)
  propertyValues : List PropertyScalarObservation

structure RerankInput where
  (schemaVersion queryTimeEpochSeconds : ℕ)
  candidates : List RerankCandidate
  sourceSignals : List SourceSignalObservation

structure RerankEvidenceEntry where
  tier : LexicalEvidenceTier
  ordinal : ℕ
  points : ℤ

structure RerankEvidence where
  (schemaVersion candidateCount sourceCount : ℕ)
  entries : List RerankEvidenceEntry

structure RerankResult where
  profileId : Text
  candidates : List RerankCandidate
  evidence : RerankEvidence

def workLimitError : RankingError :=
  ⟨"ranking_work_limit_exceeded", "ranking work exceeded its deterministic limit"⟩

/-! ## §2 Validation -/

/-- One candidate: the identities and the path of each source seen so far go on. -/
def validateRerankCandidate
    (seen : List (QualifiedSourceId × Text × Text) × Std.ExtTreeMap QualifiedSourceId Text)
    (candidate : RerankCandidate) :
    Except RankingError
      (List (QualifiedSourceId × Text × Text) × Std.ExtTreeMap QualifiedSourceId Text) := do
  validateSourceId candidate.source
  rejectIf (candidate.chunkId = [] ∨ maxChunkIdBytes < utf8Len candidate.chunkId ∨
      candidate.lexicalScore.isFinite = false ∨
      maxRankingFolderPrefixBytes < utf8Len candidate.path ∨
      isNormalizedRelativePath candidate.path = false ∨
      maxRankingPathDepth < pathDepth candidate.path)
    (invalidInput "rerank candidate is invalid")
  rejectIf ((candidate.source, candidate.chunkId, candidate.path) ∈ seen.1)
    (invalidInput "rerank candidate is duplicated")
  rejectIf (seen.2[candidate.source]?.any (· ≠ candidate.path))
    (invalidInput "candidate source maps to inconsistent paths")
  return ((candidate.source, candidate.chunkId, candidate.path) :: seen.1,
    seen.2.insert candidate.source candidate.path)

/-- Neighbours out of strict order under a comparator. -/
def unordered {α : Type} (cmp : α → α → Ordering) (items : List α) : Bool :=
  anyAdjacent (fun left right => (cmp left right).isGE) items

def validateObservedPointer (pointer : Text) : Except RankingError Unit :=
  (validateJsonPointer pointer).mapError fun _ =>
    invalidInput "observed property pointer is invalid"

def validateObservation (signal : SourceSignalObservation)
    (observation : PropertyScalarObservation) : Except RankingError Unit := do
  rejectIf (observation.property = [] ∨
      maxRankingPropertyNameBytes < utf8Len observation.property ∨
      observation.property ∉ signal.presentProperties)
    (invalidInput "observed property scalar is inconsistent")
  validateObservedPointer observation.pointer
  validateScalar observation.value false

def validateSignal (signal : SourceSignalObservation) : Except RankingError Unit := do
  validateSourceId signal.source
  rejectIf (maxPropertyRankingRules < signal.matchedPropertyRuleIds.length ∨
      maxPropertyValuesPerSourceObservation < signal.presentProperties.length ∨
      maxPropertyValuesPerSourceObservation < signal.propertyValues.length ∨
      unordered compare signal.matchedPropertyRuleIds ∨
      signal.matchedPropertyRuleIds.any (fun id =>
        id = [] || maxRankingRuleIdBytes < utf8Len id) ∨
      unordered compare signal.presentProperties ∨
      unordered (compareLex (compareOn PropertyScalarObservation.property)
        (compareOn PropertyScalarObservation.pointer)) signal.propertyValues)
    (invalidInput "source property observations are not canonical or bounded")
  signal.presentProperties.forM fun property =>
    rejectIf (property = [] ∨ maxRankingPropertyNameBytes < utf8Len property)
      (invalidInput "observed property name is invalid")
  signal.propertyValues.forM (validateObservation signal)

def validateRerankInput (input : RerankInput) : Except RankingError Unit := do
  rejectIf (input.schemaVersion ≠ rerankInputSchemaVersion)
    (invalidInput "rerank input schema is unsupported")
  rejectIf (maxRerankCandidates < input.candidates.length ∨
      maxRerankSourceObservations < input.sourceSignals.length)
    (invalidInput "rerank input exceeds a cardinality limit")
  rejectIf (anyAdjacent (fun left right : RerankCandidate =>
      (compare left.evidenceTier right.evidenceTier).isGT) input.candidates)
    (invalidInput "candidate order does not preserve lexical evidence tiers")
  let _ ← input.candidates.foldlM validateRerankCandidate ([], ∅)
  rejectIf (unordered (compareOn SourceSignalObservation.source) input.sourceSignals)
    (invalidInput "source observations must use canonical source order")
  input.sourceSignals.forM validateSignal

def validatePrecomputedPropertyMatches (profile : D5cRelevanceProfile) (input : RerankInput) :
    Except RankingError Unit :=
  input.sourceSignals.forM fun signal =>
    rejectIf (∃ id ∈ signal.matchedPropertyRuleIds, id ∉ profile.propertyRules.map PropertyRule.id)
      (invalidInput "source observation references an unknown property rule")

/-! ## §3 Scoring -/

def chargeWork (workUnits amount : ℕ) : Except RankingError ℕ :=
  if workUnits + amount ≤ maxRankingWorkUnits then .ok (workUnits + amount)
  else .error workLimitError

structure SourceScore where
  points : ℤ
  matchedRuleOrdinals : List ℕ

/-- The score so far, the ordinal of the next rule and the work spent. -/
structure Scoring where
  score : SourceScore
  (ordinal workUnits : ℕ)

namespace Scoring

def charge (scoring : Scoring) (amount : ℕ) : Except RankingError Scoring := do
  let workUnits ← chargeWork scoring.workUnits amount
  return { scoring with workUnits := workUnits }

def addMatch (scoring : Scoring) (ordinal : ℕ) (points : ℤ) : Scoring :=
  { scoring with
    score := ⟨scoring.score.points + points, scoring.score.matchedRuleOrdinals ++ [ordinal]⟩ }

/-- Goes past a number of rules, of which the one at an index may have matched. -/
def advance (scoring : Scoring) (rules : ℕ) (matched : Option (ℕ × ℤ)) : Scoring :=
  let scored := match matched with
    | some (index, points) => scoring.addMatch (scoring.ordinal + index) points
    | none => scoring
  { scored with ordinal := scoring.ordinal + rules }

end Scoring

def recencyMatches (rule : RecencyRule) (queryTime : ℕ) (signal : Option SourceSignalObservation) :
    Bool :=
  (signal.bind SourceSignalObservation.sourceMtimeEpochSeconds).any fun mtime =>
    0 < mtime && mtime ≤ queryTime && queryTime - mtime ≤ rule.horizon.seconds

def depthMatches (rule : PathDepthRule) (path : Text) : Bool :=
  let folderDepth := pathDepth path - 1
  match rule.predicate with
  | .atMost segments => folderDepth ≤ segments
  | .atLeast segments => segments ≤ folderDepth

/-- The deepest folder rule over a path, with its place among the rules. -/
def bestFolderMatch (rules : List FolderRule) (path : Text) : Option (FolderRule × ℕ) :=
  maxBy
    (fun left right =>
      (compare (pathDepth left.1.folder) (pathDepth right.1.folder)).then <|
      (compare right.1.id left.1.id).then <|
      compare right.2 left.2)
    (rules.zipIdx.filter fun rule => pathIsWithinFolder path rule.1.folder)

def withinRange (value : ℤ) (min max : Option ℤ) : Bool :=
  min.all (· ≤ value) && max.all (value ≤ ·)

/-- A scalar of the range's type within its bounds. -/
def parsedWithin (parse : Text → Option ℤ) (value : Text) (min max : Option Text) : Bool :=
  (parse value).any fun value => withinRange value (min.bind parse) (max.bind parse)

def scalarMatches (predicate : PropertyPredicate) (value : RankingScalar) : Bool :=
  match predicate, value with
  | .presence, _ => true
  | .exact _ expected, value => expected = value
  | .i64Range _ min max, .i64 value => parsedWithin parseCanonicalI64 value min max
  | .u64Range _ min max, .u64 value => parsedWithin parseCanonicalU64 value min max
  | .f64Range _ min max, .f64 value => parsedWithin parseCanonicalF64 value min max
  | .dateRange _ min max, .date value =>
    min.all (fun min => (compare min value).isLE) && max.all fun max => (compare value max).isLE
  | _, _ => false

/-- The observations of a rule's property, until one matches. -/
def matchObservations (rule : PropertyRule) (workUnits : ℕ) :
    List PropertyScalarObservation → Except RankingError (Bool × ℕ)
  | [] => .ok (false, workUnits)
  | observation :: rest =>
    if observation.property ≠ rule.property then matchObservations rule workUnits rest
    else do
      let workUnits ← chargeWork workUnits 1
      if rule.predicate.pointer.any (· ≠ observation.pointer) then
        matchObservations rule workUnits rest
      else if scalarMatches rule.predicate observation.value then
        .ok (true, workUnits)
      else
        matchObservations rule workUnits rest

def propertyRuleMatches (rule : PropertyRule) (signal : Option SourceSignalObservation)
    (workUnits : ℕ) : Except RankingError (Bool × ℕ) := do
  let workUnits ← chargeWork workUnits 1
  match signal with
  | none => .ok (false, workUnits)
  | some signal =>
    if rule.id ∈ signal.matchedPropertyRuleIds then .ok (true, workUnits)
    else if rule.predicate = .presence then
      .ok (decide (rule.property ∈ signal.presentProperties), workUnits)
    else if rule.property ∉ signal.presentProperties then .ok (false, workUnits)
    else matchObservations rule workUnits signal.propertyValues

def scoreProperty (signal : Option SourceSignalObservation) (scoring : Scoring)
    (rule : PropertyRule) : Except RankingError Scoring := do
  let (matched, workUnits) ← propertyRuleMatches rule signal scoring.workUnits
  return { scoring with workUnits := workUnits }.advance 1
    (if matched then some (0, rule.effect.apply rule.strength.points) else none)

/-- A family of folder rules: the best match counts, with the family's sign. -/
def scoreFolders (rules : List FolderRule) (path : Text) (effect : RuleEffect)
    (scoring : Scoring) : Except RankingError Scoring := do
  let scoring ← scoring.charge rules.length
  return scoring.advance rules.length
    ((bestFolderMatch rules path).map fun best =>
      (best.2, effect.apply best.1.strength.points))

def scoreRecency (queryTime : ℕ) (signal : Option SourceSignalObservation) (scoring : Scoring)
    (rule : RecencyRule) : Except RankingError Scoring := do
  let scoring ← scoring.charge 1
  return scoring.advance 1
    (if recencyMatches rule queryTime signal then some (0, rule.strength.points) else none)

def scoreDepth (path : Text) (scoring : Scoring) (rule : PathDepthRule) :
    Except RankingError Scoring := do
  let scoring ← scoring.charge 1
  return scoring.advance 1
    (if depthMatches rule path then some (0, rule.effect.apply rule.strength.points) else none)

def scoreSource (profile : D5cRelevanceProfile) (queryTime : ℕ) (path : Text)
    (signal : Option SourceSignalObservation) (workUnits : ℕ) :
    Except RankingError (SourceScore × ℕ) := do
  let scoring : Scoring := ⟨⟨0, []⟩, 0, workUnits⟩
  let scoring ← profile.recency.toList.foldlM (scoreRecency queryTime signal) scoring
  let scoring ← profile.hierarchy.depth.toList.foldlM (scoreDepth path) scoring
  let scoring ← scoreFolders profile.hierarchy.authorityFolders path .boost scoring
  let scoring ← scoreFolders profile.hierarchy.archiveFolders path .demote scoring
  let scoring ← profile.propertyRules.foldlM (scoreProperty signal) scoring
  return (scoring.score, scoring.workUnits)

/-! ## §4 Reranking -/

structure RankedCandidate where
  originalOrdinal : ℕ
  candidate : RerankCandidate
  metadataPoints : ℤ
  matchedRuleOrdinals : List ℕ

/-- The path of each source, that of its first candidate. -/
def sourcePaths (candidates : List RerankCandidate) : Std.ExtTreeMap QualifiedSourceId Text :=
  candidates.foldl (fun paths candidate => paths.insertIfNew candidate.source candidate.path) ∅

/-- Later observations of a source replace earlier ones. -/
def signalBySource (signals : List SourceSignalObservation) :
    Std.ExtTreeMap QualifiedSourceId SourceSignalObservation :=
  signals.foldl (fun bySource signal => bySource.insert signal.source signal) ∅

/-- One source of the scoring loop, with the work spent so far. -/
def scoreNext (profile : D5cRelevanceProfile) (input : RerankInput)
    (scored : Std.ExtTreeMap QualifiedSourceId SourceScore × ℕ)
    (entry : QualifiedSourceId × Text) :
    Except RankingError (Std.ExtTreeMap QualifiedSourceId SourceScore × ℕ) := do
  let (score, workUnits) ← scoreSource profile input.queryTimeEpochSeconds entry.2
    (signalBySource input.sourceSignals)[entry.1]? scored.2
  return (scored.1.insert entry.1 score, workUnits)

/-- A candidate with its source's score. Every candidate's source was scored. -/
def rankCandidate (scores : Std.ExtTreeMap QualifiedSourceId SourceScore)
    (entry : RerankCandidate × ℕ) : RankedCandidate :=
  let score := scores.getD entry.1.source ⟨0, []⟩
  ⟨entry.2, entry.1, score.points, score.matchedRuleOrdinals⟩

def compareRankedCandidates (left right : RankedCandidate) : Ordering :=
  (compare left.candidate.evidenceTier right.candidate.evidenceTier).then <|
  (compare right.metadataPoints left.metadataPoints).then <|
  (compare left.originalOrdinal right.originalOrdinal).then <|
  (compare left.candidate.chunkId right.candidate.chunkId).then <|
  compare left.candidate.path right.candidate.path

def RankedCandidate.entry (ranked : RankedCandidate) : RerankEvidenceEntry :=
  ⟨ranked.candidate.evidenceTier, ranked.originalOrdinal, ranked.metadataPoints⟩

def rerankResult (profileId : Text) (sourceCount : ℕ) (ranked : List RankedCandidate) :
    RerankResult where
  profileId := profileId
  candidates := ranked.map RankedCandidate.candidate
  evidence := ⟨1, ranked.length, sourceCount, ranked.map RankedCandidate.entry⟩

def rerankCandidatesWithInitialWork (codec : ProfileCodec) (profile : RelevanceProfile)
    (input : RerankInput) (initialWorkUnits : ℕ) : Except RankingError RerankResult := do
  rejectIf (maxRankingWorkUnits < initialWorkUnits) workLimitError
  validateRerankInput input
  match profile with
  | .lexicalV1 =>
    return {
      profileId := lexicalRelevanceProfileId
      candidates := input.candidates
      evidence := ⟨1, input.candidates.length, (sourcePaths input.candidates).size,
        input.candidates.zipIdx.map fun entry => ⟨entry.1.evidenceTier, entry.2, 0⟩⟩ }
  | .d5cPreviewV1 profile => do
    validateProfile codec profile
    validatePrecomputedPropertyMatches profile input
    let (scores, _) ← (sourcePaths input.candidates).toList.foldlM (scoreNext profile input)
      (∅, initialWorkUnits)
    return rerankResult profile.profileId scores.size
      (sortBy compareRankedCandidates (input.candidates.zipIdx.map (rankCandidate scores)))

/-! ## §5 The bound on points -/

lemma RuleStrength.points_nonneg (strength : RuleStrength) : 0 ≤ strength.points := by
  cases strength <;> decide

lemma RuleEffect.abs_apply (effect : RuleEffect) (strength : RuleStrength) :
    |effect.apply strength.points| = strength.points := by
  have hpoints := abs_of_nonneg strength.points_nonneg
  cases effect with
  | boost => exact hpoints
  | demote => rw [apply, abs_neg, hpoints]

lemma le_folderPoints {rules : List FolderRule} {rule : FolderRule} (h : rule ∈ rules) :
    rule.strength.points ≤ folderPoints rules := by
  have hmem : rule.strength.points ∈ rules.map fun rule => rule.strength.points :=
    mem_map_of_mem h
  unfold folderPoints
  cases hmax : (rules.map fun rule => rule.strength.points).max? with
  | none =>
    rw [max?_eq_none_iff.mp hmax] at hmem
    cases hmem
  | some best => exact (max?_eq_some_iff.mp hmax).2 _ hmem

lemma folderPoints_nonneg (rules : List FolderRule) : 0 ≤ folderPoints rules := by
  cases rules with
  | nil => exact le_rfl
  | cons rule rest => exact rule.strength.points_nonneg.trans (le_folderPoints mem_cons_self)

lemma D5cRelevanceProfile.theoreticalPoints_nonneg (profile : D5cRelevanceProfile) :
    0 ≤ profile.theoreticalPoints := by
  have hrecency : 0 ≤ profile.recency.elim 0 fun rule => rule.strength.points := by
    cases profile.recency with
    | none => exact le_rfl
    | some rule => exact rule.strength.points_nonneg
  have hdepth : 0 ≤ profile.hierarchy.depth.elim 0 fun rule => rule.strength.points := by
    cases profile.hierarchy.depth with
    | none => exact le_rfl
    | some rule => exact rule.strength.points_nonneg
  have hproperty : 0 ≤ (profile.propertyRules.map fun rule => rule.strength.points).sum := by
    generalize profile.propertyRules = rules
    induction rules with
    | nil => exact le_rfl
    | cons rule rest ih =>
      rw [map_cons, sum_cons]
      exact add_nonneg rule.strength.points_nonneg ih
  have hauthority := folderPoints_nonneg profile.hierarchy.authorityFolders
  have harchive := folderPoints_nonneg profile.hierarchy.archiveFolders
  unfold D5cRelevanceProfile.theoreticalPoints
  omega

namespace Scoring

variable {scoring scoring' : Scoring} {bound : ℤ}

lemma score_charge {amount : ℕ} (h : scoring.charge amount = .ok scoring') :
    scoring'.score = scoring.score := by
  obtain ⟨workUnits, -, h⟩ := bind_ok_iff.mp h
  cases h
  rfl

/-- Going past a rule adds at most what it is worth. -/
theorem abs_advance {rules : ℕ} {matched : Option (ℕ × ℤ)} {worth : ℤ} (hworth : 0 ≤ worth)
    (hmatched : ∀ entry, matched = some entry → |entry.2| ≤ worth)
    (h : |scoring.score.points| ≤ bound) :
    |(scoring.advance rules matched).score.points| ≤ bound + worth := by
  cases matched with
  | none => exact h.trans (le_add_of_nonneg_right hworth)
  | some entry =>
    calc |scoring.score.points + entry.2|
        ≤ |scoring.score.points| + |entry.2| := abs_add_le _ _
      _ ≤ bound + worth := add_le_add h (hmatched entry rfl)

end Scoring

section ScoreSource

variable {scoring scoring' : Scoring} {bound : ℤ} {path : Text} {queryTime : ℕ}
  {signal : Option SourceSignalObservation}

section

variable (h : |scoring.score.points| ≤ bound)

include h

lemma scoreRecency_le {rule : RecencyRule}
    (hok : scoreRecency queryTime signal scoring rule = .ok scoring') :
    |scoring'.score.points| ≤ bound + rule.strength.points := by
  obtain ⟨charged, hcharge, hok⟩ := bind_ok_iff.mp hok
  cases hok
  refine Scoring.abs_advance rule.strength.points_nonneg ?_ (Scoring.score_charge hcharge ▸ h)
  intro entry hentry
  split at hentry
  · cases hentry
    exact (abs_of_nonneg rule.strength.points_nonneg).le
  · cases hentry

lemma scoreDepth_le {rule : PathDepthRule} (hok : scoreDepth path scoring rule = .ok scoring') :
    |scoring'.score.points| ≤ bound + rule.strength.points := by
  obtain ⟨charged, hcharge, hok⟩ := bind_ok_iff.mp hok
  cases hok
  refine Scoring.abs_advance rule.strength.points_nonneg ?_ (Scoring.score_charge hcharge ▸ h)
  intro entry hentry
  split at hentry
  · cases hentry
    exact (rule.effect.abs_apply rule.strength).le
  · cases hentry

lemma scoreFolders_le {rules : List FolderRule} {effect : RuleEffect}
    (hok : scoreFolders rules path effect scoring = .ok scoring') :
    |scoring'.score.points| ≤ bound + folderPoints rules := by
  obtain ⟨charged, hcharge, hok⟩ := bind_ok_iff.mp hok
  cases hok
  refine Scoring.abs_advance (folderPoints_nonneg rules) ?_ (Scoring.score_charge hcharge ▸ h)
  intro entry hentry
  obtain ⟨best, hbest, rfl⟩ := Option.map_eq_some_iff.mp hentry
  rw [effect.abs_apply]
  refine le_folderPoints ?_
  have hmem := mem_of_mem_filter (mem_of_maxBy hbest)
  exact fst_mem_of_mem_zipIdx hmem

lemma scoreProperty_le {rule : PropertyRule}
    (hok : scoreProperty signal scoring rule = .ok scoring') :
    |scoring'.score.points| ≤ bound + rule.strength.points := by
  obtain ⟨matched, -, hok⟩ := bind_ok_iff.mp hok
  cases hok
  refine Scoring.abs_advance rule.strength.points_nonneg ?_ h
  intro entry hentry
  split at hentry
  · cases hentry
    exact (rule.effect.abs_apply rule.strength).le
  · cases hentry

end

/-- A loop over rules adds at most what they are worth together. -/
theorem foldlM_le {R : Type} (worth : R → ℤ) {step : Scoring → R → Except RankingError Scoring}
    (hstep : ∀ bound scoring scoring' rule, |scoring.score.points| ≤ bound →
      step scoring rule = .ok scoring' → |scoring'.score.points| ≤ bound + worth rule)
    {rules : List R} (h : |scoring.score.points| ≤ bound)
    (hok : rules.foldlM step scoring = .ok scoring') :
    |scoring'.score.points| ≤ bound + (rules.map worth).sum := by
  induction rules generalizing scoring bound with
  | nil =>
    cases hok
    simpa using h
  | cons rule rest ih =>
    obtain ⟨next, hnext, hrest⟩ := foldlM_cons_ok _ hok
    have hle := ih (hstep bound scoring next rule h hnext) hrest
    rwa [map_cons, sum_cons, ← add_assoc]

/-- **A score is at most what the rules of its profile are worth together.** -/
theorem scoreSource_le {profile : D5cRelevanceProfile} {workUnits workUnits' : ℕ}
    {score : SourceScore}
    (h : scoreSource profile queryTime path signal workUnits = .ok (score, workUnits')) :
    |score.points| ≤ profile.theoreticalPoints := by
  unfold scoreSource at h
  obtain ⟨recency, hrecency, h⟩ := bind_ok_iff.mp h
  obtain ⟨depth, hdepth, h⟩ := bind_ok_iff.mp h
  obtain ⟨authority, hauthority, h⟩ := bind_ok_iff.mp h
  obtain ⟨archive, harchive, h⟩ := bind_ok_iff.mp h
  obtain ⟨property, hproperty, h⟩ := bind_ok_iff.mp h
  have h : property.score = score := congrArg Prod.fst (Except.ok.inj h)
  subst h
  have hstart : |(⟨⟨0, []⟩, 0, workUnits⟩ : Scoring).score.points| ≤ 0 := abs_zero.le
  have hrecency := foldlM_le (fun rule : RecencyRule => rule.strength.points)
    (fun _ _ _ _ h => scoreRecency_le h) hstart hrecency
  have hdepth := foldlM_le (fun rule : PathDepthRule => rule.strength.points)
    (fun _ _ _ _ h => scoreDepth_le h) hrecency hdepth
  have hauthority := scoreFolders_le hdepth hauthority
  have harchive := scoreFolders_le hauthority harchive
  have hproperty := foldlM_le (fun rule : PropertyRule => rule.strength.points)
    (fun _ _ _ _ h => scoreProperty_le h) harchive hproperty
  refine hproperty.trans (le_of_eq ?_)
  unfold D5cRelevanceProfile.theoreticalPoints
  cases profile.recency <;> cases profile.hierarchy.depth <;> simp [add_assoc]

end ScoreSource

/-! ## §6 Every source is scored -/

section

variable {profile : D5cRelevanceProfile} {input : RerankInput}
  {scored scored' : Std.ExtTreeMap QualifiedSourceId SourceScore × ℕ}

lemma scoreNext_ok {entry : QualifiedSourceId × Text}
    (h : scoreNext profile input scored entry = .ok scored') :
    ∃ score, |score.points| ≤ profile.theoreticalPoints ∧
      scored'.1 = scored.1.insert entry.1 score := by
  obtain ⟨⟨score, workUnits⟩, hscore, h⟩ := bind_ok_iff.mp h
  cases h
  exact ⟨score, scoreSource_le hscore, rfl⟩

lemma scores_le {entries : List (QualifiedSourceId × Text)}
    (hscored : ∀ source, |(scored.1.getD source ⟨0, []⟩).points| ≤ profile.theoreticalPoints)
    (h : entries.foldlM (scoreNext profile input) scored = .ok scored') (source : QualifiedSourceId) :
    |(scored'.1.getD source ⟨0, []⟩).points| ≤ profile.theoreticalPoints := by
  refine foldlM_induction (scoreNext profile input) (fun scored => ∀ source,
      |(scored.1.getD source ⟨0, []⟩).points| ≤ profile.theoreticalPoints) ?_ hscored h source
  intro scored scored' entry _ hle hok source
  obtain ⟨score, hscore, hinsert⟩ := scoreNext_ok hok
  rw [hinsert, Std.ExtTreeMap.getD_insert]
  split
  · exact hscore
  · exact hle source

end

/-! ## §7 A bounded reorder -/

/-- What a reranking does to its input: entry `i` describes candidate `i` of the result. -/
structure RerankResult.BoundedReorder (input : RerankInput) (result : RerankResult) : Prop where
  perm : result.candidates.Perm input.candidates
  tiers : result.candidates.Pairwise fun candidate candidate' =>
    (compare candidate.evidenceTier candidate'.evidenceTier).isLE = true
  entries : List.Forall₂ (fun candidate entry => entry.tier = candidate.evidenceTier ∧
    input.candidates[entry.ordinal]? = some candidate) result.candidates result.evidence.entries
  order : result.evidence.entries.Pairwise fun entry entry' => entry.tier = entry'.tier →
    entry'.points < entry.points ∨ entry'.points = entry.points ∧ entry.ordinal < entry'.ordinal
  bound : ∀ entry ∈ result.evidence.entries, |entry.points| ≤ maxAbsoluteMetadataPoints
  sources : ∀ scored ∈ result.candidates.zip result.evidence.entries,
    ∀ scored' ∈ result.candidates.zip result.evidence.entries,
      scored.1.source = scored'.1.source → scored.2.points = scored'.2.points

lemma compareRankedCandidates_eq :
    compareRankedCandidates =
      compareLex (compareOn fun r => r.candidate.evidenceTier) (compareLex
        (fun a b => compareOn RankedCandidate.metadataPoints b a) (compareLex
        (compareOn RankedCandidate.originalOrdinal) (compareLex
        (compareOn fun r => r.candidate.chunkId) (compareOn fun r => r.candidate.path)))) := rfl

instance : Std.TransCmp compareRankedCandidates := by
  rw [compareRankedCandidates_eq]
  infer_instance

lemma isLE_of_compareRankedCandidates {left right : RankedCandidate}
    (h : (compareRankedCandidates left right).isLE = true) :
    (compare left.candidate.evidenceTier right.candidate.evidenceTier).isLE = true ∧
      (left.candidate.evidenceTier = right.candidate.evidenceTier →
        right.metadataPoints < left.metadataPoints ∨
          right.metadataPoints = left.metadataPoints ∧
            left.originalOrdinal ≤ right.originalOrdinal) := by
  simp only [compareRankedCandidates, Ordering.isLE_then_iff_and] at h
  refine ⟨h.1, fun htier => ?_⟩
  rcases h.2 with hlt | ⟨hpoints, hrest⟩
  · rw [htier, Std.ReflOrd.compare_self] at hlt
    cases hlt
  · rcases lt_or_eq_of_le (Int.isLE_compare.mp hpoints) with hlt | heq
    · exact .inl hlt
    · rcases hrest with hlt | ⟨hordinal, -⟩
      · exact .inl (Int.compare_eq_lt.mp hlt)
      · exact .inr ⟨heq, Nat.isLE_compare.mp hordinal⟩

/-- The candidates in their places, with scores by source. -/
theorem boundedReorder_of_sorted {input : RerankInput} {result : RerankResult}
    {scores : Std.ExtTreeMap QualifiedSourceId SourceScore} {ranked : List RankedCandidate}
    (hperm : ranked.Perm (input.candidates.zipIdx.map (rankCandidate scores)))
    (hsorted : ranked.Pairwise fun r r' => (compareRankedCandidates r r').isLE = true)
    (hbound : ∀ source, |(scores.getD source ⟨0, []⟩).points| ≤ maxAbsoluteMetadataPoints)
    (hcandidates : result.candidates = ranked.map RankedCandidate.candidate)
    (hentries : result.evidence.entries = ranked.map RankedCandidate.entry) :
    result.BoundedReorder input := by
  have hmem : ∀ r ∈ ranked, input.candidates[r.originalOrdinal]? = some r.candidate ∧
      r.metadataPoints = (scores.getD r.candidate.source ⟨0, []⟩).points := by
    intro r hr
    obtain ⟨⟨candidate, ordinal⟩, hentry, rfl⟩ := mem_map.mp (hperm.mem_iff.mp hr)
    exact ⟨mem_zipIdx_iff_getElem?.mp hentry, rfl⟩
  have hordinals : ranked.Pairwise fun r r' => r.originalOrdinal ≠ r'.originalOrdinal := by
    have hnodup : (ranked.map RankedCandidate.originalOrdinal).Nodup := by
      rw [(hperm.map _).nodup_iff, map_map]
      change (input.candidates.zipIdx.map Prod.snd).Nodup
      rw [zipIdx_map_snd]
      exact nodup_range'
    exact pairwise_map.mp hnodup
  have hzip : ∀ scored ∈ result.candidates.zip result.evidence.entries, ∃ r ∈ ranked,
      scored = (r.candidate, r.entry) := by
    intro scored hscored
    rw [hcandidates, hentries, zip_map'] at hscored
    obtain ⟨r, hr, rfl⟩ := mem_map.mp hscored
    exact ⟨r, hr, rfl⟩
  refine ⟨?_, ?_, ?_, ?_, ?_, ?_⟩
  · rw [hcandidates]
    refine (hperm.map _).trans ?_
    rw [map_map]
    change (input.candidates.zipIdx.map Prod.fst).Perm _
    rw [zipIdx_map_fst]
  · rw [hcandidates, pairwise_map]
    exact hsorted.imp fun hle => (isLE_of_compareRankedCandidates hle).1
  · rw [hcandidates, hentries, forall₂_map_left_iff, forall₂_map_right_iff, forall₂_same]
    exact fun r hr => ⟨rfl, (hmem r hr).1⟩
  · rw [hentries, pairwise_map]
    refine (hsorted.and hordinals).imp fun ⟨hle, hne⟩ htier => ?_
    rcases (isLE_of_compareRankedCandidates hle).2 htier with hlt | ⟨hpoints, hordinal⟩
    · exact .inl hlt
    · exact .inr ⟨hpoints, lt_of_le_of_ne hordinal hne⟩
  · intro entry hentry
    rw [hentries] at hentry
    obtain ⟨r, hr, rfl⟩ := mem_map.mp hentry
    change |r.metadataPoints| ≤ _
    rw [(hmem r hr).2]
    exact hbound _
  · intro scored hscored scored' hscored' hsource
    obtain ⟨r, hr, rfl⟩ := hzip scored hscored
    obtain ⟨r', hr', rfl⟩ := hzip scored' hscored'
    change r.metadataPoints = r'.metadataPoints
    rw [(hmem r hr).2, (hmem r' hr').2, hsource]

/-- The candidates of an accepted input keep their tiers in order. -/
theorem tiers_of_validateRerankInput {input : RerankInput}
    (h : validateRerankInput input = .ok ()) :
    input.candidates.Pairwise fun candidate candidate' =>
      (compare candidate.evidenceTier candidate'.evidenceTier).isLE = true := by
  simp only [validateRerankInput, bind_ok_iff, rejectIf_ok, Bool.not_eq_true] at h
  obtain ⟨_, -, _, -, _, htiers, -⟩ := h
  refine pairwise_of_anyAdjacent (fun _ _ _ => Std.TransCmp.isLE_trans) ?_ htiers
  intro candidate candidate' hgt
  cases hcompare : compare candidate.evidenceTier candidate'.evidenceTier <;>
    simp_all

/-- **Metadata reranking is a bounded reorder within tiers**, whatever work was spent before. -/
theorem rerankCandidates_bounded {codec : ProfileCodec} {profile : RelevanceProfile}
    {input : RerankInput} {initialWorkUnits : ℕ} {result : RerankResult}
    (h : rerankCandidatesWithInitialWork codec profile input initialWorkUnits = .ok result) :
    result.BoundedReorder input := by
  unfold rerankCandidatesWithInitialWork at h
  obtain ⟨_, -, h⟩ := bind_ok_iff.mp h
  obtain ⟨_, hvalid, h⟩ := bind_ok_iff.mp h
  cases profile with
  | lexicalV1 =>
    cases h
    have hempty : ∀ source : QualifiedSourceId,
        |((∅ : Std.ExtTreeMap QualifiedSourceId SourceScore).getD source ⟨0, []⟩).points| ≤
          maxAbsoluteMetadataPoints := by
      intro source
      rw [Std.ExtTreeMap.getD_empty]
      decide
    refine boundedReorder_of_sorted (List.Perm.refl _) ?_ hempty ?_ ?_
    · -- without points the input order stands
      rw [pairwise_map, pairwise_iff_getElem]
      intro i j hi hj hij
      have htiers := pairwise_iff_getElem.mp (tiers_of_validateRerankInput hvalid) i j
        (by simpa using hi) (by simpa using hj) hij
      simp only [length_zipIdx] at hi hj
      have hpoints : ∀ entry, (rankCandidate ∅ entry).metadataPoints = 0 := by
        intro entry
        simp [rankCandidate]
      simp only [compareRankedCandidates, Ordering.isLE_then_iff_and, hpoints,
        Std.ReflOrd.compare_self, getElem_zipIdx]
      refine ⟨htiers, Or.inr ⟨rfl, Or.inr ⟨?_, Or.inl ?_⟩⟩⟩
      · exact Nat.isLE_compare.mpr (by simp [rankCandidate]; omega)
      · exact Nat.compare_eq_lt.mpr (by simp [rankCandidate]; omega)
    · simp [map_map, Function.comp_def, rankCandidate]
    · simp [map_map, Function.comp_def, rankCandidate, RankedCandidate.entry]
  | d5cPreviewV1 profile =>
    obtain ⟨_, hprofile, h⟩ := bind_ok_iff.mp h
    obtain ⟨_, -, h⟩ := bind_ok_iff.mp h
    obtain ⟨⟨scores, workUnits⟩, hscores, h⟩ := bind_ok_iff.mp h
    cases h
    have hcap := validateProfile_points hprofile
    refine boundedReorder_of_sorted (sortBy_perm _ _) (pairwise_sortBy _ _) (fun source => ?_) rfl rfl
    refine (scores_le (fun source => ?_) hscores source).trans hcap
    rw [Std.ExtTreeMap.getD_empty, abs_zero]
    exact profile.theoreticalPoints_nonneg

/-! ## §8 A folder rule -/

/-- One rule: notes under `n` come first. -/
def folderProfile : D5cRelevanceProfile :=
  { D5cRelevanceProfile.preview with
    hierarchy := ⟨none, [⟨['a'], ['n'], .high⟩], []⟩ }

/-- The profile takes 205 bytes, and there is no predicate to write. -/
def folderCodec : ProfileCodec :=
  ⟨fun _ => some 205, fun _ _ => none⟩

def folderCandidate (key : Char) (path : Text) : RerankCandidate :=
  ⟨rankedSource key, ['c'], path, .allTerms, ⟨1065353216⟩⟩

def folderInput : RerankInput :=
  ⟨1, 0, [folderCandidate 'a' ['m'], folderCandidate 'b' ['n', '/', 'm']], []⟩

/-- The second candidate comes first, with the points of its folder. -/
theorem folderInput_bounded : ∃ result,
    rerankCandidatesWithInitialWork folderCodec (.d5cPreviewV1 folderProfile) folderInput 0 =
      .ok result ∧
    result.evidence.entries.map (fun entry => (entry.ordinal, entry.points)) = [(1, 4), (0, 0)] ∧
    result.BoundedReorder folderInput := by
  have hresult : ((rerankCandidatesWithInitialWork folderCodec (.d5cPreviewV1 folderProfile)
      folderInput 0).toOption.map fun result =>
        result.evidence.entries.map fun entry => (entry.ordinal, entry.points)) =
      some [(1, 4), (0, 0)] := by decide +kernel
  cases h : rerankCandidatesWithInitialWork folderCodec (.d5cPreviewV1 folderProfile) folderInput 0
    with
  | error e =>
    rw [h] at hresult
    cases hresult
  | ok result =>
    rw [h] at hresult
    exact ⟨result, rfl, Option.some.inj hresult, rerankCandidates_bounded h⟩

end Kwiry
