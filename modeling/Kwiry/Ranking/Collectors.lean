import Kwiry.Foundations.Insertion
import Kwiry.Identity
import Kwiry.Ranking.LexicalV2

/-!
# Lane Collectors

Both engines run the lanes of an evidence plan one after the other, merge what the lanes find into
a window of candidates, and rank the window. The native engine keeps its candidates in a map and
stops at a full window; the plugin keeps them in parallel arrays and skips the lanes that are left.
What a lane finds is given: the collector of documents and the query binder are not part of this
module. Traces are left out.
-/

namespace Kwiry

open Foundations List

variable {P : Type}

/-! ## §1 Lanes and hits -/

/-- A lane; `conditional` is the condition that fewer than the minimum of standard sources were
found. -/
structure CollectorLane where
  ordinal : ℕ
  field : LexicalV2ProofField
  kind : LexicalV2ProofKind
  conditional : Bool
  maxCandidates : ℕ
  bounded : 1 ≤ maxCandidates ∧ maxCandidates ≤ maxTotalCandidates

/-- A hit with what else is stored of it. Its source key and chunk id are hexadecimal digests. -/
structure SearchRow (P : Type) where
  (sourceKey chunkId path : Text)
  score : F32
  stored : P
  keysNoNul : '\x00' ∉ sourceKey ∧ '\x00' ∉ chunkId
  deriving DecidableEq

def SearchRow.identity (row : SearchRow P) : Text × Text × Text :=
  (row.sourceKey, row.chunkId, row.path)

/-- Best score first, then chunk and path. -/
def compareHits (left right : SearchRow P) : Ordering :=
  (F32.totalCmp right.score left.score).then <|
  (compare left.chunkId right.chunkId).then <|
  compare left.path right.path

/-- The proof a lane gives for the hit it returns at a position. -/
def CollectorLane.proof (lane : CollectorLane) (row : SearchRow P) (engineOrdinal : ℕ) :
    LexicalV2Proof :=
  ⟨lane.field, lane.kind, lane.ordinal, row.score, engineOrdinal⟩

inductive LexicalMatchQuality where
  | standardOnly | mixed | partialOnly | none
  deriving DecidableEq

def lexicalMatchQuality (selectedKinds : List LexicalV2ProofKind) : LexicalMatchQuality :=
  match selectedKinds.any (·.isPartial = false), selectedKinds.any (·.isPartial) with
  | true, true => .mixed
  | true, false => .standardOnly
  | false, true => .partialOnly
  | false, false => .none

/-! ## §2 The native collector -/

structure NativeLexicalV2Hit (P : Type) where
  source : QualifiedSourceId
  hit : SearchRow P
  proofs : List LexicalV2Proof
  deriving DecidableEq

def NativeLexicalV2Hit.identity (hit : NativeLexicalV2Hit P) : QualifiedSourceId × Text × Text :=
  (hit.source, hit.hit.chunkId, hit.hit.path)

def NativeLexicalV2Hit.candidate (hit : NativeLexicalV2Hit P) : LexicalV2Candidate :=
  ⟨hit.source, hit.hit.chunkId, hit.hit.path, hit.proofs⟩

/-- The id of a partition, a SHA-256 digest. -/
abbrev PartitionDigest := { id : Digest // id.length = 32 }

/-- The scope of a search context: a partition, or the desktop's files. -/
def authorizationScope : Option PartitionDigest → Text
  | none => "desktop".toList
  | some id => "openclast:".toList ++ hexText id

/-- What a lane finds, under the authorization scope of its context. -/
def collectStableLexicalV2Hits (scope : Text) (lane : CollectorLane) (rows : List (SearchRow P)) :
    List (NativeLexicalV2Hit P) :=
  rows.zipIdx.map fun (row, engineOrdinal) =>
    ⟨⟨scope, row.sourceKey⟩, row, [lane.proof row (engineOrdinal % 65536)]⟩

/-- The items whose keys were not seen before. -/
def retainFirst {α K : Type} [DecidableEq K] (key : α → K) : List K → List α → List α
  | _, [] => []
  | seen, item :: rest =>
    if key item ∈ seen then retainFirst key seen rest
    else item :: retainFirst key (key item :: seen) rest

def mergeBoundedLexicalV2Hits (target incoming : List (NativeLexicalV2Hit P)) (limit : ℕ) :
    List (NativeLexicalV2Hit P) :=
  (retainFirst NativeLexicalV2Hit.identity []
    (sortBy (fun left right => compareHits left.hit right.hit) (target ++ incoming))).take limit

/-- Adds a proof that has a slot of its own, while there is room. -/
def pushProof (known : List LexicalV2Proof) (proof : LexicalV2Proof) : List LexicalV2Proof :=
  if known.length < maxLexicalV2ProofsPerCandidate ∧ ∀ p ∈ known, p.slot ≠ proof.slot then
    known ++ [proof]
  else known

def collectHit (candidates : List (NativeLexicalV2Hit P)) (hit : NativeLexicalV2Hit P) :
    List (NativeLexicalV2Hit P) :=
  if hit.identity ∈ candidates.map NativeLexicalV2Hit.identity then
    candidates.map fun existing =>
      if existing.identity = hit.identity then
        { existing with proofs := hit.proofs.foldl pushProof existing.proofs }
      else existing
  else if candidates.length < maxTotalCandidates then candidates ++ [hit]
  else candidates

def collectLane (scope : Text) (rows : CollectorLane → List (SearchRow P)) (lane : CollectorLane)
    (candidates : List (NativeLexicalV2Hit P)) : List (NativeLexicalV2Hit P) :=
  (mergeBoundedLexicalV2Hits [] (collectStableLexicalV2Hits scope lane (rows lane))
    lane.maxCandidates).foldl collectHit candidates

/-- Whether the candidates come from fewer sources than the minimum. -/
def needsFallback (candidates : List (NativeLexicalV2Hit P)) : Bool :=
  (candidates.map NativeLexicalV2Hit.source).dedup.length < minStandardSources

def collectLanes (scope : Text) (rows : CollectorLane → List (SearchRow P)) :
    List CollectorLane → Option Bool → List (NativeLexicalV2Hit P) → List (NativeLexicalV2Hit P)
  | [], _, candidates => candidates
  | lane :: rest, fallbackEnabled, candidates =>
    if maxTotalCandidates ≤ candidates.length then candidates
    else if lane.conditional then
      -- the first conditional lane decides for all of them
      let enabled := fallbackEnabled.getD (needsFallback candidates)
      if enabled then
        collectLanes scope rows rest (some enabled) (collectLane scope rows lane candidates)
      else collectLanes scope rows rest (some enabled) candidates
    else collectLanes scope rows rest fallbackEnabled (collectLane scope rows lane candidates)

def compareNativeIdentities : QualifiedSourceId × Text × Text → QualifiedSourceId × Text × Text →
    Ordering :=
  compareLex (compareOn Prod.fst) (compareLex (compareOn fun i => i.2.1) (compareOn fun i => i.2.2))

/-- Takes the hits of ranked candidates out of the map, with their selected scores. -/
def takeRankedHits :
    List LexicalV2RankedCandidate → List (NativeLexicalV2Hit P) →
      Except RankingError (List (SearchRow P))
  | [], _ => .ok []
  | ranked :: rest, hitsByIdentity =>
    match hitsByIdentity.find? (·.identity = ranked.candidate.identity) with
    | none => .error (invalidInput "lexical-v2 ranker returned an unknown candidate")
    | some hit => do
      let hits ← takeRankedHits rest
        (hitsByIdentity.filter (·.identity ≠ ranked.candidate.identity))
      .ok ({ hit.hit with score := ranked.selectedProof.engineScore } :: hits)

/-- Hits of their own are taken out of the map one after the other. -/
theorem takeRankedHits_map {A : Type} {items : List A} (hit : A → NativeLexicalV2Hit P)
    {ranked : A → LexicalV2RankedCandidate}
    (hidentity : ∀ a, (ranked a).candidate.identity = (hit a).identity)
    (hdistinct : items.Pairwise fun a b => (hit a).identity ≠ (hit b).identity)
    {values : List (NativeLexicalV2Hit P)}
    (hvalues : (values.map NativeLexicalV2Hit.identity).Nodup) (hmem : ∀ a ∈ items, hit a ∈ values) :
    takeRankedHits (items.map ranked) values = .ok (items.map fun a =>
      { (hit a).hit with score := (ranked a).selectedProof.engineScore }) := by
  induction items generalizing values with
  | nil => rfl
  | cons a rest ih =>
    obtain ⟨hhead, htail⟩ := pairwise_cons.mp hdistinct
    have hfind : values.find? (·.identity = (hit a).identity) = some (hit a) :=
      (find?_key_eq_some_iff hvalues).mpr ⟨hmem a mem_cons_self, rfl⟩
    have hleft : ∀ b ∈ rest, hit b ∈ values.filter (·.identity ≠ (hit a).identity) := by
      intro b hb
      refine mem_filter.mpr ⟨hmem b (mem_cons_of_mem _ hb), ?_⟩
      simpa using (hhead b hb).symm
    rw [map_cons, takeRankedHits, hidentity, hfind]
    simp only [ih htail (hvalues.sublist (filter_sublist.map _)) hleft]
    rfl

structure LexicalSearchOutcome (P : Type) where
  hits : List (SearchRow P)
  matchQuality : LexicalMatchQuality
  deriving DecidableEq

def rankInput (laneCount : ℕ) (emphasis : Option QueryPublicField)
    (candidates : List LexicalV2Candidate) : LexicalV2RankInput :=
  ⟨lexicalV2RankSchemaVersion, lexicalV2ProfileId, laneCount, emphasis, candidates⟩

def executeLexicalV2 (resource : Option PartitionDigest) (lanes : List CollectorLane)
    (rows : CollectorLane → List (SearchRow P)) (emphasis : Option QueryPublicField) (limit : ℕ) :
    Except RankingError (LexicalSearchOutcome P) := do
  if lanes = [] then
    return ⟨[], .none⟩
  let candidates := collectLanes (authorizationScope resource) rows lanes none []
  -- the map is walked in the order of its identities
  let values := sortBy (fun a b => compareNativeIdentities a.identity b.identity) candidates
  let ranked ← rankLexicalV2
    (rankInput lanes.length emphasis (values.map NativeLexicalV2Hit.candidate))
  let hits ← takeRankedHits (ranked.take limit) values
  return ⟨hits, lexicalMatchQuality ((ranked.take limit).map (·.selectedProof.kind))⟩

/-! ## §3 The plugin's collector -/

def inPluginScope : Text := "in_plugin".toList

/-- The text under which the plugin knows a hit. -/
def SearchRow.identityText (row : SearchRow P) : Text :=
  row.sourceKey ++ '\x00' :: row.chunkId ++ '\x00' :: row.path

/-- The arrays of the plugin's loop, and the lanes whose queries it ran. -/
structure ReadyState (P : Type) where
  hits : List (SearchRow P)
  proofs : List (List LexicalV2Proof)
  candidateByIdentity : List (Text × ℕ)
  anyLaneSaturated : Bool
  fallbackEnabled : Option Bool
  executed : List CollectorLane

def ReadyState.initial : ReadyState P :=
  ⟨[], [], [], false, none, []⟩

def readyRow (lane : CollectorLane) (state : ReadyState P) (entry : SearchRow P × ℕ) :
    ReadyState P :=
  let (row, engineOrdinal) := entry
  let proof := lane.proof row engineOrdinal
  match state.candidateByIdentity.find? (·.1 = row.identityText) with
  | some (_, known) =>
    { state with proofs := state.proofs.modify known (pushProof · proof) }
  | none =>
    if state.hits.length = maxTotalCandidates then state
    else
      { state with
        candidateByIdentity := mapSet row.identityText state.hits.length state.candidateByIdentity
        hits := state.hits ++ [row]
        proofs := state.proofs ++ [[proof]] }

def readyExecute (rows : CollectorLane → List (SearchRow P)) (lane : CollectorLane)
    (state : ReadyState P) : ReadyState P :=
  (rows lane).zipIdx.foldl (readyRow lane) { state with
    anyLaneSaturated := state.anyLaneSaturated || decide ((rows lane).length = lane.maxCandidates)
    executed := state.executed ++ [lane] }

def readyLane (rows : CollectorLane → List (SearchRow P)) (state : ReadyState P)
    (lane : CollectorLane) : ReadyState P :=
  let state := if lane.conditional then
      { state with fallbackEnabled := some (state.fallbackEnabled.getD
          ((state.hits.map (·.sourceKey)).dedup.length < minStandardSources)) }
    else state
  if lane.conditional ∧ state.fallbackEnabled = some false then state
  else if state.hits.length = maxTotalCandidates then state
  else readyExecute rows lane state

def readyLanes (rows : CollectorLane → List (SearchRow P)) (lanes : List CollectorLane) :
    ReadyState P :=
  lanes.foldl (readyLane rows) .initial

inductive CollectorFault where
  | planRejected
  | invalidLimit
  | ranking (error : RankingError)
  | invalidRankOrder

structure FinalizedLexicalV2Rank where
  orderedCandidateOrdinals : List ℕ
  selectedScores : List F32
  selectedProofKinds : List LexicalV2ProofKind

/-- The position of a ranked candidate in what was ranked; of equal ones the last. -/
def candidateOrdinal (candidates : List LexicalV2Candidate) (ranked : LexicalV2RankedCandidate) :
    Except RankingError ℕ :=
  match candidates.zipIdx.reverse.find? (·.1.identity = ranked.candidate.identity) with
  | some (_, ordinal) => .ok ordinal
  | none => .error (invalidInput "Lexical-v2 ranker returned an unknown candidate.")

lemma candidateOrdinal_found (candidates : List LexicalV2Candidate)
    (ranked : LexicalV2RankedCandidate) {found : LexicalV2Candidate × ℕ}
    (h : (candidates.zipIdx.reverse.find? fun e => e.1.identity = ranked.candidate.identity) =
      some found) : candidateOrdinal candidates ranked = .ok found.2 := by
  rw [candidateOrdinal, h]

def finalizeLexicalV2Rank (input : LexicalV2RankInput) :
    Except RankingError FinalizedLexicalV2Rank := do
  let ranked ← rankLexicalV2 input
  let ordinals ← ranked.mapM (candidateOrdinal input.candidates)
  return ⟨ordinals, ranked.map (·.selectedProof.engineScore),
    ranked.map (·.selectedProof.kind)⟩

inductive CandidateWindowState where
  | candidateLimitReached | unknown | moreAvailable | exhausted
  deriving DecidableEq

structure ReadyResult (P : Type) where
  outcome : LexicalSearchOutcome P
  windowState : CandidateWindowState
  candidateCount : ℕ
  executed : List CollectorLane

/-- What the plugin accepts as a plan that is ready. -/
def acceptsLanes (lanes : List CollectorLane) : Bool :=
  lanes ≠ [] ∧ lanes.length ≤ maxLexicalV2Lanes ∧
    ∀ entry ∈ lanes.zipIdx, entry.1.ordinal = entry.2 ∧
      (entry.1.conditional = true → entry.1.kind = .partialCoverage)

def ReadyState.candidates (state : ReadyState P) : List LexicalV2Candidate :=
  (state.hits.zip state.proofs).map fun (hit, proofs) =>
    ⟨⟨inPluginScope, hit.sourceKey⟩, hit.chunkId, hit.path, proofs⟩

/-- A hit at a position of the window, with its selected score. -/
def ReadyState.rankedHit (state : ReadyState P) (entry : ℕ × F32) :
    Except CollectorFault (SearchRow P) :=
  match state.hits[entry.1]? with
  | some hit => .ok { hit with score := entry.2 }
  | none => .error .invalidRankOrder

def searchReady (lanes : List CollectorLane) (rows : CollectorLane → List (SearchRow P))
    (emphasis : Option QueryPublicField) (limit : ℕ) : Except CollectorFault (ReadyResult P) := do
  if acceptsLanes lanes = false then
    .error .planRejected
  else if limit < 1 ∨ maxTotalCandidates < limit then
    .error .invalidLimit
  else
    let state := readyLanes rows lanes
    let ranked ← (finalizeLexicalV2Rank
      (rankInput lanes.length emphasis state.candidates)).mapError .ranking
    let rankedHits ←
      (ranked.orderedCandidateOrdinals.zip ranked.selectedScores).mapM state.rankedHit
    let windowState : CandidateWindowState :=
      if state.hits.length = maxTotalCandidates then .candidateLimitReached
      else if state.anyLaneSaturated then .unknown
      else if limit < rankedHits.length then .moreAvailable
      else .exhausted
    return {
      outcome := ⟨rankedHits.take limit,
        lexicalMatchQuality (ranked.selectedProofKinds.take limit)⟩
      windowState := windowState
      candidateCount := state.hits.length
      executed := state.executed }

end Kwiry
