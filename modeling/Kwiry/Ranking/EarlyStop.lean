import Kwiry.Ranking.Collectors
import Kwiry.Ranking.Lanes

/-!
# Stopping at a Full Window

`execute_lexical_v2` ends its loop over the lanes once the window of candidates is full. Later lanes
could add no candidate, but they could add proofs, and a better proof changes what a candidate is
ranked behind. Without a stage on prefix metadata later lanes only have weaker proofs, and stopping
changes nothing; with one, a document that extends a term may have all of them, or extend it better,
and that is found out too late.

What a lane returns is given: any documents, with any finite scores.
-/

namespace Kwiry

open Foundations List

variable {P : Type} {plan : LexicalQueryPlan}

/-! ## §1 The procedure -/

/-- A document that a lane returns, and its position among those of its index. -/
structure LaneDocument (P : Type) where
  scope : Text
  row : SearchRow P
  engineOrdinal : ℕ

structure LaneResults (P : Type) where
  documents : LexicalV2Lane → List (LaneDocument P)
  finite : ∀ lane, ∀ document ∈ documents lane, document.row.score.isFinite = true

def LexicalV2Lane.proof (lane : LexicalV2Lane) (document : LaneDocument P) : LexicalV2Proof :=
  ⟨lane.field, lane.kind, lane.ordinal, document.row.score, document.engineOrdinal⟩

def LexicalV2Lane.hit (lane : LexicalV2Lane) (document : LaneDocument P) : NativeLexicalV2Hit P :=
  ⟨⟨document.scope, document.row.sourceKey⟩, document.row, [lane.proof document]⟩

def LaneResults.collect (results : LaneResults P) (lane : LexicalV2Lane)
    (candidates : List (NativeLexicalV2Hit P)) : List (NativeLexicalV2Hit P) :=
  ((results.documents lane).map lane.hit).foldl collectHit candidates

/-- The loop over the lanes; `stops` is whether it ends at a full window. -/
def runLanes (stops : Bool) (results : LaneResults P) :
    List LexicalV2Lane → Option Bool → List (NativeLexicalV2Hit P) → List (NativeLexicalV2Hit P)
  | [], _, candidates => candidates
  | lane :: rest, fallbackEnabled, candidates =>
    if stops = true ∧ maxTotalCandidates ≤ candidates.length then candidates
    else if lane.stage.condition = .ifFewerThanMinimumStandardSources then
      -- the first conditional lane decides for all of them
      let enabled := fallbackEnabled.getD (needsFallback candidates)
      runLanes stops results rest (some enabled)
        (if enabled then results.collect lane candidates else candidates)
    else runLanes stops results rest fallbackEnabled (results.collect lane candidates)

def rankWindow (laneCount : ℕ) (emphasis : Option QueryPublicField) (limit : ℕ)
    (candidates : List (NativeLexicalV2Hit P)) : Except RankingError (LexicalSearchOutcome P) := do
  -- the map is walked in the order of its identities
  let values := sortBy (fun a b => compareNativeIdentities a.identity b.identity) candidates
  let ranked ← rankLexicalV2 (rankInput laneCount emphasis (values.map NativeLexicalV2Hit.candidate))
  let hits ← takeRankedHits (ranked.take limit) values
  return ⟨hits, lexicalMatchQuality ((ranked.take limit).map (·.selectedProof.kind))⟩

def rankingError (error : RankingError) : NativeSearchError :=
  .query (error.code.toList ++ ": ".toList ++ error.message.toList)

def executePlan (stops : Bool) (plan : LexicalQueryPlan) (results : LaneResults P) (limit : ℕ) :
    Except NativeSearchError (LexicalSearchOutcome P) := do
  let lanes ← lexicalV2Lanes plan
  if lanes = [] then return ⟨[], .none⟩
  (rankWindow lanes.length plan.emphasis limit (runLanes stops results lanes none [])).mapError
    rankingError

/-- Whatever the lanes return, the break does not change the outcome. -/
def StopKeepsOutcome (plan : LexicalQueryPlan) : Prop :=
  ∀ (P : Type) (results : LaneResults P) (limit : ℕ),
    executePlan true plan results limit = executePlan false plan results limit

/-! ## §2 Candidates of a run -/

/-- A proof of one of the lanes. -/
def FromLanes (lanes : List LexicalV2Lane) (proof : LexicalV2Proof) : Prop :=
  ∃ lane ∈ lanes, proof.field = lane.field ∧ proof.kind = lane.kind ∧
    proof.laneOrdinal = lane.ordinal

/-- A candidate with proofs of some lanes. -/
structure Collected (lanes : List LexicalV2Lane) (hit : NativeLexicalV2Hit P) : Prop where
  nonempty : hit.proofs ≠ []
  count : hit.proofs.length ≤ maxLexicalV2ProofsPerCandidate
  lanes : ∀ proof ∈ hit.proofs, FromLanes lanes proof
  finite : ∀ proof ∈ hit.proofs, proof.engineScore.isFinite = true
  slots : (hit.proofs.map LexicalV2Proof.slot).Nodup

/-- The candidates of a window, no two of which are one. -/
structure Window (lanes : List LexicalV2Lane) (candidates : List (NativeLexicalV2Hit P)) :
    Prop where
  collected : ∀ hit ∈ candidates, Collected lanes hit
  nodup : (candidates.map NativeLexicalV2Hit.identity).Nodup
  count : candidates.length ≤ maxTotalCandidates

lemma pushProof_spec (known : List LexicalV2Proof) (proof : LexicalV2Proof) :
    pushProof known proof = known ∨
      pushProof known proof = known ++ [proof] ∧
        known.length < maxLexicalV2ProofsPerCandidate ∧ ∀ p ∈ known, p.slot ≠ proof.slot := by
  unfold pushProof
  split
  · next hroom => exact .inr ⟨rfl, hroom⟩
  · exact .inl rfl

/-- A hit goes to the candidate it has the identity of, or to a place of its own while there is
one. -/
theorem collectHit_spec (candidates : List (NativeLexicalV2Hit P)) (lane : LexicalV2Lane)
    (document : LaneDocument P) :
    (collectHit candidates (lane.hit document) = candidates.map fun existing =>
        if existing.identity = (lane.hit document).identity then
          { existing with proofs := pushProof existing.proofs (lane.proof document) }
        else existing) ∨
      collectHit candidates (lane.hit document) = candidates ++ [lane.hit document] ∧
        (lane.hit document).identity ∉ candidates.map NativeLexicalV2Hit.identity ∧
        candidates.length < maxTotalCandidates ∨
      collectHit candidates (lane.hit document) = candidates ∧
        maxTotalCandidates ≤ candidates.length := by
  unfold collectHit
  split
  · exact .inl rfl
  · next hnew =>
    split
    · next hroom => exact .inr (.inl ⟨rfl, hnew, hroom⟩)
    · next hfull => exact .inr (.inr ⟨rfl, not_lt.mp hfull⟩)

variable {document : LaneDocument P} {lane : LexicalV2Lane} {lanes : List LexicalV2Lane}
variable {candidates : List (NativeLexicalV2Hit P)} {rest : List LexicalV2Lane}
  {emphasis : Option QueryPublicField}

/-- What holds of a hit of its own, and still holds with one proof more, holds of a window. -/
theorem forall_collectHit {Q : NativeLexicalV2Hit P → Prop} (h : ∀ hit ∈ candidates, Q hit)
    (hnew : Q (lane.hit document))
    (hpush : ∀ hit, Q hit → Q { hit with proofs := pushProof hit.proofs (lane.proof document) }) :
    ∀ hit ∈ collectHit candidates (lane.hit document), Q hit := by
  intro hit hmem
  rcases collectHit_spec candidates lane document with heq | ⟨heq, -, -⟩ | ⟨heq, -⟩
  · rw [heq] at hmem
    obtain ⟨existing, hexisting, rfl⟩ := mem_map.mp hmem
    split
    · exact hpush existing (h existing hexisting)
    · exact h existing hexisting
  · rw [heq] at hmem
    rcases mem_append.mp hmem with hold | hlast
    · exact h hit hold
    · rwa [mem_singleton.mp hlast]
  · exact h hit (heq ▸ hmem)

lemma FromLanes.proof (h : lane ∈ lanes) (document : LaneDocument P) :
    FromLanes lanes (lane.proof document) :=
  ⟨lane, h, rfl, rfl, rfl⟩

lemma Collected.push {hit : NativeLexicalV2Hit P} (h : Collected lanes hit) (hlane : lane ∈ lanes)
    (hfinite : document.row.score.isFinite = true) :
    Collected lanes { hit with proofs := pushProof hit.proofs (lane.proof document) } := by
  rcases pushProof_spec hit.proofs (lane.proof document) with heq | ⟨heq, hroom, hfresh⟩
  · rw [heq]
    exact h
  · rw [heq]
    refine ⟨by simp, by simpa using Nat.succ_le_of_lt hroom, ?_, ?_, ?_⟩
    · intro proof hproof
      rcases mem_append.mp hproof with hold | hlast
      · exact h.lanes proof hold
      · exact mem_singleton.mp hlast ▸ FromLanes.proof hlane document
    · intro proof hproof
      rcases mem_append.mp hproof with hold | hlast
      · exact h.finite proof hold
      · exact mem_singleton.mp hlast ▸ hfinite
    · rw [map_append, nodup_append]
      refine ⟨h.slots, nodup_singleton _, ?_⟩
      intro slot hslot slot' hslot' heq
      obtain ⟨proof, hproof, rfl⟩ := mem_map.mp hslot
      obtain rfl := mem_singleton.mp hslot'
      exact hfresh proof hproof heq

lemma Collected.hit (hlane : lane ∈ lanes) (hfinite : document.row.score.isFinite = true) :
    Collected lanes (lane.hit document) := by
  refine ⟨by simp [LexicalV2Lane.hit], ?_, ?_, ?_, by simp [LexicalV2Lane.hit]⟩
  · exact (by decide : 1 ≤ maxLexicalV2ProofsPerCandidate)
  · intro proof hproof
    exact mem_singleton.mp hproof ▸ FromLanes.proof hlane document
  · intro proof hproof
    exact mem_singleton.mp hproof ▸ hfinite

variable {hit : NativeLexicalV2Hit P} {proof : LexicalV2Proof}

lemma identity_collectHit (candidates : List (NativeLexicalV2Hit P)) (lane : LexicalV2Lane)
    (document : LaneDocument P) :
    (collectHit candidates (lane.hit document)).map NativeLexicalV2Hit.identity =
        candidates.map NativeLexicalV2Hit.identity ∨
      (lane.hit document).identity ∉ candidates.map NativeLexicalV2Hit.identity ∧
        candidates.length < maxTotalCandidates ∧
        (collectHit candidates (lane.hit document)).map NativeLexicalV2Hit.identity =
          candidates.map NativeLexicalV2Hit.identity ++ [(lane.hit document).identity] := by
  rcases collectHit_spec candidates lane document with heq | ⟨heq, hnew, hroom⟩ | ⟨heq, -⟩
  · refine .inl ?_
    rw [heq, map_map]
    refine map_congr_left fun existing _ => ?_
    simp only [Function.comp_apply]
    split <;> rfl
  · refine .inr ⟨hnew, hroom, ?_⟩
    rw [heq, map_append]
    rfl
  · exact .inl (by rw [heq])

lemma Window.collectHit (h : Window lanes candidates)
    (hlane : lane ∈ lanes) (hfinite : document.row.score.isFinite = true) :
    Window lanes (collectHit candidates (lane.hit document)) := by
  have hcollected := forall_collectHit h.collected (.hit hlane hfinite) fun hit hhit =>
    hhit.push hlane hfinite
  rcases identity_collectHit candidates lane document with heq | ⟨hnew, hroom, heq⟩
  · have hlength := congrArg length heq
    rw [length_map, length_map] at hlength
    exact ⟨hcollected, heq ▸ h.nodup, hlength ▸ h.count⟩
  · have hlength := congrArg length heq
    rw [length_append, length_map, length_map, length_singleton] at hlength
    refine ⟨hcollected, ?_, hlength ▸ hroom⟩
    rw [heq, nodup_append]
    refine ⟨h.nodup, nodup_singleton _, ?_⟩
    rintro identity hidentity last hlast rfl
    exact hnew (mem_singleton.mp hlast ▸ hidentity)

/-- A run of the lanes keeps what every hit of every lane keeps. -/
theorem runLanes_induction {Q : List (NativeLexicalV2Hit P) → Prop} {results : LaneResults P}
    (stops : Bool)
    (hstep : ∀ lane ∈ rest, ∀ document ∈ results.documents lane, ∀ candidates, Q candidates →
      Q (collectHit candidates (lane.hit document))) (fallbackEnabled : Option Bool)
    (h : Q candidates) : Q (runLanes stops results rest fallbackEnabled candidates) := by
  have hfold : ∀ (lane : LexicalV2Lane) (documents : List (LaneDocument P)),
      (∀ document ∈ documents, ∀ candidates, Q candidates →
        Q (collectHit candidates (lane.hit document))) →
      ∀ candidates, Q candidates → Q ((documents.map lane.hit).foldl collectHit candidates) := by
    intro lane documents hdocuments
    induction documents with
    | nil => exact fun candidates h => h
    | cons document documents ih =>
      intro candidates h
      exact ih (fun other hother => hdocuments other (mem_cons_of_mem _ hother)) _
        (hdocuments document mem_cons_self candidates h)
  induction rest generalizing fallbackEnabled candidates with
  | nil => exact h
  | cons lane rest ih =>
    have hrest := fun other hother => hstep other (mem_cons_of_mem _ hother)
    have hlane : Q (results.collect lane candidates) :=
      hfold lane _ (hstep lane mem_cons_self) candidates h
    rw [runLanes]
    split
    · exact h
    · split
      · refine ih hrest _ ?_
        split
        · exact hlane
        · exact h
      · exact ih hrest _ hlane

lemma window_runLanes (lanes : List LexicalV2Lane) (results : LaneResults P) (stops : Bool) :
    Window lanes (runLanes stops results lanes none []) := by
  refine runLanes_induction stops ?_ none ⟨by simp, by simp, by simp⟩
  intro lane hlane document hdocument candidates hwindow
  exact hwindow.collectHit hlane (results.finite lane document hdocument)

/-! ## §3 The first proof of a candidate -/

/-- Proofs of some lanes, the strongest first. -/
def Ordered (emphasis : Option QueryPublicField) (lanes : List LexicalV2Lane)
    (hit : NativeLexicalV2Hit P) : Prop :=
  (∀ proof ∈ hit.proofs, FromLanes lanes proof) ∧
    hit.proofs.Pairwise fun p q => compareLexicalV2Proofs emphasis p q = .lt

lemma FromLanes.mono {lanes' : List LexicalV2Lane} (h : lanes ⊆ lanes')
    (hproof : FromLanes lanes proof) : FromLanes lanes' proof := by
  obtain ⟨lane, hlane, heq⟩ := hproof
  exact ⟨lane, h hlane, heq⟩

/-- A lane weaker than those before it adds its proof at the end, and one at most. -/
theorem Ordered.push {done : List LexicalV2Lane} (h : Ordered emphasis (lane :: done) hit)
    (hstronger : ∀ stronger ∈ done, stronger.Stronger emphasis lane) :
    Ordered emphasis (lane :: done)
      { hit with proofs := pushProof hit.proofs (lane.proof document) } := by
  rcases pushProof_spec hit.proofs (lane.proof document) with heq | ⟨heq, -, hfresh⟩
  · rw [heq]
    exact h
  · rw [heq]
    constructor
    · intro proof hproof
      rcases mem_append.mp hproof with hold | hlast
      · exact h.1 proof hold
      · exact mem_singleton.mp hlast ▸ FromLanes.proof mem_cons_self document
    · refine pairwise_append.mpr ⟨h.2, pairwise_singleton _ _, ?_⟩
      intro proof hproof last hlast
      obtain rfl := mem_singleton.mp hlast
      obtain ⟨other, hother, hfield, hkind, hordinal⟩ := h.1 proof hproof
      rcases mem_cons.mp hother with rfl | hdone
      · -- the lane gave this candidate a proof already
        refine absurd ?_ (hfresh proof hproof)
        rw [LexicalV2Proof.slot, hfield, hkind, hordinal]
        rfl
      · exact (hstronger other hdone).proofs ⟨hfield, hkind⟩ ⟨rfl, rfl⟩

lemma ordered_runLanes (results : LaneResults P) {rest done : List LexicalV2Lane} (stops : Bool)
    (fallbackEnabled : Option Bool) (candidates : List (NativeLexicalV2Hit P))
    (hrest : rest.Pairwise (LexicalV2Lane.Stronger emphasis))
    (hdone : ∀ stronger ∈ done, ∀ lane ∈ rest, stronger.Stronger emphasis lane)
    (h : ∀ hit ∈ candidates, Ordered emphasis done hit) :
    ∃ lanes, ∀ hit ∈ runLanes stops results rest fallbackEnabled candidates,
      Ordered emphasis lanes hit := by
  induction rest generalizing done fallbackEnabled candidates with
  | nil => exact ⟨done, h⟩
  | cons lane rest ih =>
    rw [pairwise_cons] at hrest
    have hlane : ∀ stronger ∈ done, stronger.Stronger emphasis lane := fun stronger hstronger =>
      hdone stronger hstronger lane mem_cons_self
    have hnext : ∀ stronger ∈ lane :: done, ∀ later ∈ rest, stronger.Stronger emphasis later := by
      intro stronger hstronger later hlater
      rcases mem_cons.mp hstronger with rfl | hin
      · exact hrest.1 later hlater
      · exact hdone stronger hin later (mem_cons_of_mem _ hlater)
    have hmono : ∀ hit ∈ candidates, Ordered emphasis (lane :: done) hit := fun hit hhit =>
      ⟨fun proof hproof => ((h hit hhit).1 proof hproof).mono (subset_cons_self _ _),
        (h hit hhit).2⟩
    have hcollect : ∀ hit ∈ results.collect lane candidates, Ordered emphasis (lane :: done) hit := by
      unfold LaneResults.collect
      clear h
      induction results.documents lane generalizing candidates with
      | nil => exact hmono
      | cons document documents ihd =>
        refine ihd _ (forall_collectHit hmono ?_ fun hit hhit => hhit.push hlane)
        refine ⟨fun proof hproof => ?_, pairwise_singleton _ _⟩
        exact mem_singleton.mp hproof ▸ FromLanes.proof mem_cons_self document
    rw [runLanes]
    split
    · exact ⟨done, h⟩
    · split
      · refine ih _ _ hrest.2 hnext ?_
        split
        · exact hcollect
        · exact hmono
      · exact ih _ _ hrest.2 hnext hcollect

/-! ## §4 What the lanes behind a full window do -/

/-- The same hit with more proofs behind those it has. -/
structure Extends (hit hit' : NativeLexicalV2Hit P) : Prop where
  source : hit'.source = hit.source
  row : hit'.hit = hit.hit
  proofs : hit.proofs <+: hit'.proofs

lemma Extends.refl (hit : NativeLexicalV2Hit P) : Extends hit hit :=
  ⟨rfl, rfl, prefix_refl _⟩

lemma Extends.trans {hit hit' hit'' : NativeLexicalV2Hit P} (h : Extends hit hit')
    (h' : Extends hit' hit'') : Extends hit hit'' :=
  ⟨h'.source.trans h.source, h'.row.trans h.row, h.proofs.trans h'.proofs⟩

lemma extends_refl (candidates : List (NativeLexicalV2Hit P)) :
    List.Forall₂ Extends candidates candidates :=
  forall₂_same.mpr fun hit _ => Extends.refl hit

lemma extends_trans {w w' w'' : List (NativeLexicalV2Hit P)} (h : List.Forall₂ Extends w w')
    (h' : List.Forall₂ Extends w' w'') : List.Forall₂ Extends w w'' := by
  induction h generalizing w'' with
  | nil => exact h'
  | cons hhead _ ih =>
    cases h' with
    | cons hhead' htail' => exact .cons (hhead.trans hhead') (ih htail')

lemma extends_collectHit (hfull : maxTotalCandidates ≤ candidates.length) (lane : LexicalV2Lane)
    (document : LaneDocument P) :
    List.Forall₂ Extends candidates (collectHit candidates (lane.hit document)) := by
  rcases collectHit_spec candidates lane document with heq | ⟨-, -, hroom⟩ | ⟨heq, -⟩
  · rw [heq, forall₂_map_right_iff]
    refine forall₂_same.mpr fun existing _ => ?_
    split
    · refine ⟨rfl, rfl, ?_⟩
      rcases pushProof_spec existing.proofs (lane.proof document) with heq | ⟨heq, -, -⟩
      · exact (congrArg (existing.proofs <+: ·) heq).mpr (prefix_refl _)
      · rw [heq]
        exact prefix_append _ _
    · exact Extends.refl existing
  · exact absurd hroom (not_lt.mpr hfull)
  · rw [heq]
    exact extends_refl candidates

/-- Behind a full window the lanes add proofs only. -/
theorem extends_runLanes {results : LaneResults P} (fallbackEnabled : Option Bool)
    (hfull : maxTotalCandidates ≤ candidates.length) :
    List.Forall₂ Extends candidates (runLanes false results rest fallbackEnabled candidates) := by
  refine runLanes_induction false ?_ fallbackEnabled (extends_refl candidates)
  intro lane _ document _ window hwindow
  exact extends_trans hwindow (extends_collectHit (hwindow.length_eq ▸ hfull) lane document)

/-- The run that stops and the run that goes on end with the same hits. -/
theorem extends_runLanes_stop (results : LaneResults P) (rest : List LexicalV2Lane)
    (fallbackEnabled : Option Bool) (candidates : List (NativeLexicalV2Hit P)) :
    List.Forall₂ Extends (runLanes true results rest fallbackEnabled candidates)
      (runLanes false results rest fallbackEnabled candidates) := by
  induction rest generalizing fallbackEnabled candidates with
  | nil => exact extends_refl candidates
  | cons lane rest ih =>
    by_cases hfull : maxTotalCandidates ≤ candidates.length
    · have hstop : runLanes true results (lane :: rest) fallbackEnabled candidates = candidates := by
        rw [runLanes, if_pos ⟨rfl, hfull⟩]
      rw [hstop]
      exact extends_runLanes fallbackEnabled hfull
    · have hgo : ∀ stops : Bool, ¬ (stops = true ∧ maxTotalCandidates ≤ candidates.length) :=
        fun _ h => hfull h.2
      rw [runLanes, if_neg (hgo true), runLanes, if_neg (hgo false)]
      split
      · exact ih _ _
      · exact ih _ _

/-! ## §5 Ranking a window -/

section

variable (emphasis : Option QueryPublicField) (hit : NativeLexicalV2Hit P)

/-- The best of the proofs of a hit. -/
def bestProof : LexicalV2Proof :=
  (sortBy (compareLexicalV2Proofs emphasis) hit.proofs).headD ⟨.body, .exact, 0, ⟨0⟩, 0⟩

def rankedHit : LexicalV2RankedCandidate :=
  ⟨hit.candidate, bestProof emphasis hit,
    lexicalV2EvidencePoints (bestProof emphasis hit) emphasis⟩

/-- The row a hit is returned as. -/
def scoredRow : SearchRow P :=
  { hit.hit with score := (bestProof emphasis hit).engineScore }

end

lemma rankLexicalV2Candidate_hit (h : hit.proofs ≠ []) :
    rankLexicalV2Candidate emphasis hit.candidate = .ok (rankedHit emphasis hit) := by
  have hsorted : sortBy (compareLexicalV2Proofs emphasis) hit.proofs ≠ [] := fun hnil =>
    h (hnil ▸ sortBy_perm (compareLexicalV2Proofs emphasis) hit.proofs).symm.eq_nil
  have hcandidate : hit.candidate.proofs = hit.proofs := rfl
  unfold rankLexicalV2Candidate rankedHit bestProof
  rw [hcandidate]
  cases hproofs : sortBy (compareLexicalV2Proofs emphasis) hit.proofs with
  | nil => exact absurd hproofs hsorted
  | cons proof rest => rfl

lemma bestProof_spec (emphasis : Option QueryPublicField)
    (h : hit.proofs ≠ []) : bestProof emphasis hit ∈ hit.proofs ∧ ∀ proof ∈ hit.proofs,
      (compareLexicalV2Proofs emphasis (bestProof emphasis hit) proof).isLE = true := by
  unfold bestProof
  cases hsorted : sortBy (compareLexicalV2Proofs emphasis) hit.proofs with
  | nil =>
    have hperm := sortBy_perm (compareLexicalV2Proofs emphasis) hit.proofs
    rw [hsorted] at hperm
    exact absurd hperm.symm.eq_nil h
  | cons first others => exact sortBy_head_isLE hsorted

/-- A proof that is better than those behind it is the best. -/
theorem bestProof_cons {rest : List LexicalV2Proof} (hproofs : hit.proofs = proof :: rest)
    (h : ∀ other ∈ rest, compareLexicalV2Proofs emphasis proof other = .lt) :
    bestProof emphasis hit = proof := by
  obtain ⟨hmem, hmin⟩ := bestProof_spec emphasis (hproofs ▸ cons_ne_nil proof rest)
  rw [hproofs] at hmem hmin
  rcases mem_cons.mp hmem with heq | hrest
  · exact heq
  · have hle := hmin proof mem_cons_self
    rw [Std.OrientedCmp.gt_of_lt (h _ hrest)] at hle
    cases hle

/-- The candidates of a window in the order they are ranked. -/
def rankedWindow (emphasis : Option QueryPublicField) (candidates : List (NativeLexicalV2Hit P)) :
    List (NativeLexicalV2Hit P) :=
  sortBy (fun a b => compareLexicalV2Candidates (rankedHit emphasis a) (rankedHit emphasis b))
    (sortBy (fun a b => compareNativeIdentities a.identity b.identity) candidates)

def windowOutcome (emphasis : Option QueryPublicField) (limit : ℕ)
    (candidates : List (NativeLexicalV2Hit P)) : LexicalSearchOutcome P :=
  let hits := (rankedWindow emphasis candidates).take limit
  ⟨hits.map (scoredRow emphasis),
    lexicalMatchQuality (hits.map fun hit => (bestProof emphasis hit).kind)⟩

/-- What validation looks at. -/
def windowInput (laneCount : ℕ) (emphasis : Option QueryPublicField)
    (candidates : List (NativeLexicalV2Hit P)) : LexicalV2RankInput :=
  rankInput laneCount emphasis
    ((sortBy (fun a b => compareNativeIdentities a.identity b.identity) candidates).map
      NativeLexicalV2Hit.candidate)

lemma rankedWindow_perm (emphasis : Option QueryPublicField)
    (candidates : List (NativeLexicalV2Hit P)) :
    (rankedWindow emphasis candidates).Perm candidates :=
  (sortBy_perm _ _).trans (sortBy_perm _ _)

/-- A window is ranked once its candidates pass. -/
theorem rankWindow_eq (h : Window lanes candidates)
    (laneCount : ℕ) (emphasis : Option QueryPublicField) (limit : ℕ) :
    rankWindow laneCount emphasis limit candidates = do
      validateLexicalV2Input (windowInput laneCount emphasis candidates)
      return windowOutcome emphasis limit candidates := by
  let values := sortBy (fun a b => compareNativeIdentities a.identity b.identity) candidates
  have hvalues : values.Perm candidates := sortBy_perm _ _
  have hranked : (values.map NativeLexicalV2Hit.candidate).mapM (rankLexicalV2Candidate emphasis) =
      .ok (values.map (rankedHit emphasis)) := by
    refine mapM_ok_iff.mpr ?_
    rw [forall₂_map_left_iff, forall₂_map_right_iff]
    refine forall₂_same.mpr fun hit hhit => ?_
    exact rankLexicalV2Candidate_hit (h.collected hit (hvalues.mem_iff.mp hhit)).nonempty
  have hsorted : sortBy compareLexicalV2Candidates (values.map (rankedHit emphasis)) =
      (rankedWindow emphasis candidates).map (rankedHit emphasis) :=
    (sortBy_map (rankedHit emphasis) fun _ _ _ _ => rfl).symm
  have hperm := rankedWindow_perm emphasis candidates
  have htake := take_sublist limit (rankedWindow emphasis candidates)
  have hhits : takeRankedHits
      (((rankedWindow emphasis candidates).take limit).map (rankedHit emphasis)) values =
        .ok (((rankedWindow emphasis candidates).take limit).map (scoredRow emphasis)) := by
    refine takeRankedHits_map id (fun _ => rfl) (pairwise_map.mp ?_)
      ((hvalues.map _).nodup_iff.mpr h.nodup) fun hit hhit => ?_
    · exact ((hperm.map _).nodup_iff.mpr h.nodup).sublist (htake.map _)
    · exact hvalues.mem_iff.mpr (hperm.mem_iff.mp (htake.subset hhit))
  unfold rankWindow
  simp only [rankLexicalV2]
  change (validateLexicalV2Input (windowInput laneCount emphasis candidates) >>= fun _ => _) >>= _ = _
  cases validateLexicalV2Input (windowInput laneCount emphasis candidates) with
  | error e => rfl
  | ok u =>
    change ((values.map NativeLexicalV2Hit.candidate).mapM (rankLexicalV2Candidate emphasis) >>=
      fun ranked => pure (sortBy compareLexicalV2Candidates ranked)) >>= _ = _
    rw [hranked]
    change (takeRankedHits ((sortBy compareLexicalV2Candidates
      (values.map (rankedHit emphasis))).take limit) values >>= _) = _
    rw [hsorted, ← map_take, hhits]
    change Except.ok _ = Except.ok _
    rw [map_map]
    rfl

/-- Two hits that rank alike. -/
structure RanksAlike (emphasis : Option QueryPublicField) (hit hit' : NativeLexicalV2Hit P) : Prop where
  source : hit'.source = hit.source
  row : hit'.hit = hit.hit
  best : bestProof emphasis hit' = bestProof emphasis hit

lemma RanksAlike.identity {hit hit' : NativeLexicalV2Hit P} (h : RanksAlike emphasis hit hit') :
    hit'.identity = hit.identity := by
  rw [NativeLexicalV2Hit.identity, NativeLexicalV2Hit.identity, h.source, h.row]

section

variable {pairs : List (NativeLexicalV2Hit P × NativeLexicalV2Hit P)}
  (h : ∀ pair ∈ pairs, RanksAlike emphasis pair.1 pair.2)

include h

/-- Pairs of hits are sorted by either side. -/
theorem identities_alike :
    ∃ pairs' : List (NativeLexicalV2Hit P × NativeLexicalV2Hit P), pairs'.Perm pairs ∧
      sortBy (fun a b => compareNativeIdentities a.identity b.identity) (pairs.map Prod.fst) =
        pairs'.map Prod.fst ∧
      sortBy (fun a b => compareNativeIdentities a.identity b.identity) (pairs.map Prod.snd) =
        pairs'.map Prod.snd := by
  refine ⟨sortBy (fun a b => compareNativeIdentities a.1.identity b.1.identity) pairs,
    sortBy_perm _ _, (sortBy_map Prod.fst fun _ _ _ _ => rfl).symm,
    (sortBy_map Prod.snd fun a ha b hb => ?_).symm⟩
  rw [(h a ha).identity, (h b hb).identity]

lemma windowOutcome_alike (limit : ℕ) :
    windowOutcome emphasis limit (pairs.map Prod.fst) =
      windowOutcome emphasis limit (pairs.map Prod.snd) := by
  obtain ⟨pairs', hperm, hfst, hsnd⟩ := identities_alike h
  have h' : ∀ pair ∈ pairs', RanksAlike emphasis pair.1 pair.2 := fun pair hpair =>
    h pair (hperm.mem_iff.mp hpair)
  let ranked := sortBy (fun a b : NativeLexicalV2Hit P × NativeLexicalV2Hit P =>
    compareLexicalV2Candidates (rankedHit emphasis a.1) (rankedHit emphasis b.1)) pairs'
  have hleft : rankedWindow emphasis (pairs.map Prod.fst) = ranked.map Prod.fst := by
    rw [rankedWindow, hfst]
    exact (sortBy_map Prod.fst fun _ _ _ _ => rfl).symm
  have hright : rankedWindow emphasis (pairs.map Prod.snd) = ranked.map Prod.snd := by
    rw [rankedWindow, hsnd]
    refine (sortBy_map Prod.snd fun a ha b hb => ?_).symm
    simp only [compareLexicalV2Candidates, rankedHit, NativeLexicalV2Hit.candidate,
      (h' a ha).best, (h' b hb).best, (h' a ha).source, (h' b hb).source, (h' a ha).row,
      (h' b hb).row]
    congr
  have htake : ∀ pair ∈ ranked.take limit, RanksAlike emphasis pair.1 pair.2 := fun pair hpair =>
    h' pair (mem_sortBy.mp (mem_of_mem_take hpair))
  have hrows : ((ranked.take limit).map Prod.fst).map (scoredRow emphasis) =
      ((ranked.take limit).map Prod.snd).map (scoredRow emphasis) := by
    rw [map_map, map_map]
    refine map_congr_left fun pair hpair => ?_
    simp only [Function.comp_apply, scoredRow, (htake pair hpair).row, (htake pair hpair).best]
  have hkinds : ((ranked.take limit).map Prod.fst).map (fun hit => (bestProof emphasis hit).kind) =
      ((ranked.take limit).map Prod.snd).map (fun hit => (bestProof emphasis hit).kind) := by
    rw [map_map, map_map]
    refine map_congr_left fun pair hpair => ?_
    simp only [Function.comp_apply, (htake pair hpair).best]
  simp only [windowOutcome, hleft, hright, ← map_take, hrows, hkinds]

end

lemma Collected.proved (h : Collected lanes hit)
    (hordinals : ∀ lane ∈ lanes, lane.ordinal < lanes.length) :
    hit.candidate.Proved lanes.length := by
  refine ⟨⟨h.nonempty, h.count⟩, fun proof hproof => ⟨?_, h.finite proof hproof⟩, h.slots⟩
  obtain ⟨lane, hlane, -, -, hordinal⟩ := h.lanes proof hproof
  exact hordinal ▸ hordinals lane hlane

/-- Two runs whose candidates rank alike have one outcome. -/
theorem rankWindow_alike {w w' : List (NativeLexicalV2Hit P)} (h : Window lanes w)
    (h' : Window lanes w') (hordinals : ∀ lane ∈ lanes, lane.ordinal < lanes.length)
    (halike : List.Forall₂ (RanksAlike emphasis) w w') (limit : ℕ) :
    rankWindow lanes.length emphasis limit w = rankWindow lanes.length emphasis limit w' := by
  obtain ⟨pairs, rfl, rfl⟩ : ∃ pairs : List (NativeLexicalV2Hit P × NativeLexicalV2Hit P),
      w = pairs.map Prod.fst ∧ w' = pairs.map Prod.snd :=
    ⟨w.zip w', (map_fst_zip halike.length_eq.le).symm, (map_snd_zip halike.length_eq.ge).symm⟩
  have hpairs : ∀ pair ∈ pairs, RanksAlike emphasis pair.1 pair.2 := by
    rw [forall₂_map_left_iff, forall₂_map_right_iff] at halike
    exact forall₂_same.mp halike
  rw [rankWindow_eq h, rankWindow_eq h', windowOutcome_alike hpairs limit]
  obtain ⟨pairs', hperm, hfst, hsnd⟩ := identities_alike hpairs
  have hstep : ∀ pair ∈ pairs', ∀ seen,
      validateLexicalV2Candidate lanes.length seen pair.1.candidate =
        validateLexicalV2Candidate lanes.length seen pair.2.candidate := by
    intro pair hpair seen
    have hpair := hperm.mem_iff.mp hpair
    refine validateLexicalV2Candidate_congr ?_
      ((h.collected _ (mem_map_of_mem hpair)).proved hordinals)
      ((h'.collected _ (mem_map_of_mem hpair)).proved hordinals)
    exact (hpairs pair hpair).identity
  have hfold : ∀ seen, (pairs'.map fun pair => pair.1.candidate).foldlM
          (validateLexicalV2Candidate lanes.length) seen =
        (pairs'.map fun pair => pair.2.candidate).foldlM
          (validateLexicalV2Candidate lanes.length) seen := by
    clear hperm hfst hsnd
    induction pairs' with
    | nil => exact fun _ => rfl
    | cons pair rest ih =>
      intro seen
      rw [map_cons, map_cons, foldlM_cons, foldlM_cons, hstep pair mem_cons_self seen]
      have hrest := ih fun other hother => hstep other (mem_cons_of_mem _ hother)
      simp only [hrest]
  have hvalidate : validateLexicalV2Input (windowInput lanes.length emphasis (pairs.map Prod.fst)) =
      validateLexicalV2Input (windowInput lanes.length emphasis (pairs.map Prod.snd)) := by
    unfold windowInput rankInput validateLexicalV2Input
    simp only [hfst, hsnd, map_map, length_map, Function.comp_def, hfold]
  rw [hvalidate]

/-! ## §6 Plans without prefix metadata -/

/-- In a run whose lanes come strongest first the first proof is the best. -/
theorem alike_of_extends {hit hit' : NativeLexicalV2Hit P} (h : Extends hit hit')
    (hnonempty : hit.proofs ≠ []) (hordered : Ordered emphasis lanes hit') :
    RanksAlike emphasis hit hit' := by
  obtain ⟨proof, rest, hproofs⟩ := exists_cons_of_ne_nil hnonempty
  obtain ⟨more, hmore⟩ := h.proofs
  have hproofs' : hit'.proofs = proof :: (rest ++ more) := by
    rw [← hmore, hproofs]
    rfl
  have hbetter : ∀ other ∈ rest ++ more, compareLexicalV2Proofs emphasis proof other = .lt := by
    have hpair := hordered.2
    rw [hproofs'] at hpair
    exact (pairwise_cons.mp hpair).1
  refine ⟨h.source, h.row, ?_⟩
  rw [bestProof_cons hproofs' hbetter,
    bestProof_cons hproofs fun other hother => hbetter other (mem_append_left _ hother)]

lemma ordinal_lt_of_mem_lanes (hlanes : lexicalV2Lanes plan = .ok lanes) (hlane : lane ∈ lanes) :
    lane.ordinal < lanes.length := by
  have hmem : lane.ordinal ∈ lanes.map (·.ordinal) := mem_map_of_mem hlane
  rw [(lexicalV2Lanes_ok hlanes).2.1] at hmem
  exact mem_range.mp hmem

lemma stopKeepsOutcome_of_no_metadata (h : StagesRanked plan)
    (hmetadata : ∀ stage ∈ plan.evidenceStages, stage.kind ≠ .prefixMetadata) :
    StopKeepsOutcome plan := by
  intro P results limit
  unfold executePlan
  cases hlanes : lexicalV2Lanes plan with
  | error e => rfl
  | ok lanes =>
    simp only [bind, Except.bind]
    split
    · rfl
    · have hwindow := window_runLanes lanes results true
      have hextends := extends_runLanes_stop results lanes none []
      have hnone : ∀ stronger ∈ ([] : List LexicalV2Lane), ∀ lane ∈ lanes,
          stronger.Stronger plan.emphasis lane := by simp
      obtain ⟨all, hordered⟩ := ordered_runLanes results false none []
        (lanes_pairwise_stronger h hmetadata hlanes) hnone (by simp)
      have halike : Forall₂ (RanksAlike plan.emphasis) (runLanes true results lanes none [])
          (runLanes false results lanes none []) := by
        refine (forall₂_iff_zip.mpr ⟨hextends.length_eq, fun {hit hit'} hpair => ?_⟩)
        have hmem := of_mem_zip hpair
        exact alike_of_extends (forall₂_zip hextends hpair)
          (hwindow.collected hit hmem.1).nonempty (hordered hit' hmem.2)
      rw [rankWindow_alike hwindow (window_runLanes lanes results false)
        (fun lane hlane => ordinal_lt_of_mem_lanes hlanes hlane) halike limit]

/-! ## §7 A better proof behind a full window -/

section

variable {results : LaneResults P} {stops : Bool} {candidates : List (NativeLexicalV2Hit P)}

/-- Lanes without documents pass. -/
theorem runLanes_silent (silent : List LexicalV2Lane)
    (hsilent : ∀ lane ∈ silent, results.documents lane = [])
    (hgo : ¬ (stops = true ∧ maxTotalCandidates ≤ candidates.length)) (rest : List LexicalV2Lane)
    (fallbackEnabled : Option Bool) :
    ∃ fallbackEnabled', runLanes stops results (silent ++ rest) fallbackEnabled candidates =
      runLanes stops results rest fallbackEnabled' candidates := by
  induction silent generalizing fallbackEnabled with
  | nil => exact ⟨fallbackEnabled, rfl⟩
  | cons lane silent ih =>
    have hcollect : results.collect lane candidates = candidates := by
      rw [LaneResults.collect, hsilent lane mem_cons_self]
      rfl
    have hrest := ih fun other hother => hsilent other (mem_cons_of_mem _ hother)
    rw [cons_append, runLanes, if_neg hgo, hcollect]
    split
    · simp only [ite_self]
      exact hrest _
    · exact hrest _

lemma runLanes_always {lane : LexicalV2Lane} (halways : lane.stage.condition = .always)
    (hgo : ¬ (stops = true ∧ maxTotalCandidates ≤ candidates.length)) (rest : List LexicalV2Lane)
    (fallbackEnabled : Option Bool) :
    runLanes stops results (lane :: rest) fallbackEnabled candidates =
      runLanes stops results rest fallbackEnabled (results.collect lane candidates) := by
  rw [runLanes, if_neg hgo, if_neg (by rw [halways]; decide)]

lemma runLanes_full (hfull : maxTotalCandidates ≤ candidates.length)
    (rest : List LexicalV2Lane) (fallbackEnabled : Option Bool) :
    runLanes true results rest fallbackEnabled candidates = candidates := by
  cases rest with
  | nil => rfl
  | cons lane rest => rw [runLanes, if_pos ⟨rfl, hfull⟩]

/-- Hits of their own take places of their own. -/
theorem foldl_collectHit_fresh {hits : List (NativeLexicalV2Hit P)}
    (hnodup : ((candidates ++ hits).map NativeLexicalV2Hit.identity).Nodup)
    (hroom : (candidates ++ hits).length ≤ maxTotalCandidates) :
    hits.foldl collectHit candidates = candidates ++ hits := by
  induction hits generalizing candidates with
  | nil => rw [append_nil]; rfl
  | cons hit rest ih =>
    have hsplit : candidates ++ hit :: rest = (candidates ++ [hit]) ++ rest := by simp
    have hnew : hit.identity ∉ candidates.map NativeLexicalV2Hit.identity := by
      intro hmem
      rw [map_append, nodup_append] at hnodup
      exact hnodup.2.2 _ hmem _ (mem_map_of_mem mem_cons_self) rfl
    have hplace : candidates.length < maxTotalCandidates := by
      rw [length_append, length_cons] at hroom
      omega
    rw [foldl_cons, collectHit, if_neg hnew, if_pos hplace, hsplit]
    rw [hsplit] at hnodup hroom
    exact ih hnodup hroom

end

/-- A document with a path of its own. -/
def pathDocument (score : F32) (i : ℕ) : LaneDocument Unit where
  scope := "desktop".toList
  row := ⟨['k'], ['c'], replicate (i + 1) 'p', score, (), by decide⟩
  engineOrdinal := i % 256

def scoreOne : F32 := ⟨1065353216⟩
def scoreTwo : F32 := ⟨1073741824⟩

/-- Two lanes fill the window, and a later one returns the first document again, with a better
score. -/
def lateResults (a b c : LexicalV2Lane) : LaneResults Unit where
  documents lane :=
    if lane = a then (range 256).map (pathDocument scoreOne)
    else if lane = b then (range' 256 256).map (pathDocument scoreOne)
    else if lane = c then [pathDocument scoreTwo 0]
    else []
  finite lane document hdocument := by
    have hone : scoreOne.isFinite = true := by decide
    have htwo : scoreTwo.isFinite = true := by decide
    split_ifs at hdocument
    · obtain ⟨i, -, rfl⟩ := mem_map.mp hdocument
      exact hone
    · obtain ⟨i, -, rfl⟩ := mem_map.mp hdocument
      exact hone
    · obtain rfl := mem_singleton.mp hdocument
      exact htwo
    · cases hdocument

lemma mem_lateResults {a b c : LexicalV2Lane} {document : LaneDocument Unit}
    (h : document ∈ (lateResults a b c).documents lane) :
    ∃ i < 512, ∃ score, document = pathDocument score i := by
  simp only [lateResults] at h
  split_ifs at h
  · obtain ⟨i, hi, rfl⟩ := mem_map.mp h
    exact ⟨i, (mem_range.mp hi).trans (by decide), _, rfl⟩
  · obtain ⟨i, hi, rfl⟩ := mem_map.mp h
    obtain ⟨-, hi⟩ := mem_range'_1.mp hi
    exact ⟨i, hi, _, rfl⟩
  · obtain rfl := mem_singleton.mp h
    exact ⟨0, by decide, _, rfl⟩
  · cases h

lemma identity_pathDocument_inj {lane' : LexicalV2Lane} {score score' : F32} {i j : ℕ}
    (h : (lane.hit (pathDocument score i)).identity = (lane'.hit (pathDocument score' j)).identity) :
    i = j := by
  have hpath : replicate (i + 1) 'p' = replicate (j + 1) 'p' :=
    congrArg (fun identity => identity.2.2) h
  have hlength := congrArg length hpath
  rw [length_replicate, length_replicate] at hlength
  omega

/-- A candidate that is one of the documents. -/
def IsPathDocument (hit : NativeLexicalV2Hit Unit) : Prop :=
  ∃ i < 512, ∃ score, hit.source = ⟨"desktop".toList, ['k']⟩ ∧
    hit.hit = (pathDocument score i).row

lemma isPathDocument_runLanes {a b c : LexicalV2Lane} (stops : Bool)
    (lanes : List LexicalV2Lane) :
    ∀ hit ∈ runLanes stops (lateResults a b c) lanes none [], IsPathDocument hit := by
  refine @runLanes_induction Unit [] lanes (fun window => ∀ hit ∈ window, IsPathDocument hit) _
    stops ?_ none (by simp)
  intro lane _ document hdocument candidates h
  obtain ⟨i, hi, score, rfl⟩ := mem_lateResults hdocument
  exact forall_collectHit h ⟨i, hi, score, rfl, rfl⟩ fun hit hhit => hhit

/-- The candidates of either run pass validation. -/
theorem validate_lateResults {a b c : LexicalV2Lane} (hlanes : lexicalV2Lanes plan = .ok lanes)
    (hnonempty : lanes ≠ []) (emphasis : Option QueryPublicField) (stops : Bool) :
    validateLexicalV2Input (windowInput lanes.length emphasis
      (runLanes stops (lateResults a b c) lanes none [])) = .ok () := by
  have hwindow := window_runLanes lanes (lateResults a b c) stops
  have hdocuments := isPathDocument_runLanes (a := a) (b := b) (c := c) stops lanes
  generalize runLanes stops (lateResults a b c) lanes none [] = w at hwindow hdocuments
  have hperm := sortBy_perm
    (fun a b : NativeLexicalV2Hit Unit => compareNativeIdentities a.identity b.identity) w
  refine validateLexicalV2Input_ok.mpr ⟨⟨rfl, rfl⟩, ⟨?_, (lexicalV2Lanes_ok hlanes).2.2⟩, ?_, ?_, ?_⟩
  · exact fun hzero => hnonempty (length_eq_zero_iff.mp hzero)
  · simp only [windowInput, rankInput, length_map, hperm.length_eq]
    exact hwindow.count
  · intro candidate hcandidate
    obtain ⟨hit, hhit, rfl⟩ := mem_map.mp hcandidate
    have hhit := hperm.mem_iff.mp hhit
    obtain ⟨hcount, hproof, hslots⟩ := (hwindow.collected hit hhit).proved
      fun lane hlane => ordinal_lt_of_mem_lanes hlanes hlane
    obtain ⟨i, hi, score, hsource, hrow⟩ := hdocuments hit hhit
    refine ⟨?_, ?_, ?_, hcount, hproof, hslots⟩
    · change validateSourceId hit.source = .ok ()
      rw [hsource]
      decide +kernel
    · change hit.hit.chunkId ≠ [] ∧ utf8Len hit.hit.chunkId ≤ maxChunkIdBytes
      rw [hrow]
      exact ⟨cons_ne_nil _ _, (by decide : utf8Len ['c'] ≤ maxChunkIdBytes)⟩
    · change hit.hit.path ≠ [] ∧ utf8Len hit.hit.path ≤ maxQueryBytes
      rw [hrow]
      refine ⟨cons_ne_nil _ _, ?_⟩
      have hlength : ∀ n : ℕ, utf8Len (replicate n 'p') = n := by
        intro n
        induction n with
        | zero => rfl
        | succ n ih =>
          rw [replicate_succ, utf8Len_cons, ih]
          exact Nat.add_comm 1 n
      change utf8Len (replicate (i + 1) 'p') ≤ 4096
      rw [hlength]
      omega
  · have hmap : ((sortBy (fun a b => compareNativeIdentities a.identity b.identity) w).map
        NativeLexicalV2Hit.candidate).map LexicalV2Candidate.identity =
        (sortBy (fun a b => compareNativeIdentities a.identity b.identity) w).map
          NativeLexicalV2Hit.identity := by
      rw [map_map]
      rfl
    change (((sortBy (fun a b => compareNativeIdentities a.identity b.identity) w).map
      NativeLexicalV2Hit.candidate).map LexicalV2Candidate.identity).Nodup
    rw [hmap]
    exact (hperm.map _).nodup_iff.mpr hwindow.nodup

/-- Three lanes of a plan that always run, the last with a better proof than the first. -/
structure LateLane (plan : LexicalQueryPlan) (a b c : LexicalV2Lane)
    (l₁ l₂ l₃ l₄ : List LexicalV2Lane) : Prop where
  lanes : lexicalV2Lanes plan = .ok ((l₁ ++ a :: l₂) ++ b :: (l₃ ++ c :: l₄))
  always : a.stage.condition = .always ∧ b.stage.condition = .always ∧ c.stage.condition = .always
  better : compareLexicalV2Proofs plan.emphasis (c.proof (pathDocument scoreTwo 0))
    (a.proof (pathDocument scoreOne 0)) = .lt

section Late

variable {a b c : LexicalV2Lane} {l₁ l₂ l₃ l₄ : List LexicalV2Lane}

/-- The window once the two lanes have filled it. -/
def fullWindow (a b : LexicalV2Lane) : List (NativeLexicalV2Hit Unit) :=
  (range 256).map (fun i => a.hit (pathDocument scoreOne i)) ++
    (range' 256 256).map fun i => b.hit (pathDocument scoreOne i)

lemma length_fullWindow (a b : LexicalV2Lane) : (fullWindow a b).length = maxTotalCandidates := by
  rw [fullWindow, length_append, length_map, length_map, length_range, length_range']
  rfl

lemma mem_fullWindow {hit : NativeLexicalV2Hit Unit} (h : hit ∈ fullWindow a b) :
    ∃ i, (i < 256 ∧ hit = a.hit (pathDocument scoreOne i)) ∨
      (256 ≤ i ∧ hit = b.hit (pathDocument scoreOne i)) := by
  rcases mem_append.mp h with h | h
  · obtain ⟨i, hi, rfl⟩ := mem_map.mp h
    exact ⟨i, .inl ⟨mem_range.mp hi, rfl⟩⟩
  · obtain ⟨i, hi, rfl⟩ := mem_map.mp h
    exact ⟨i, .inr ⟨(mem_range'_1.mp hi).1, rfl⟩⟩

lemma nodup_fullWindow (a b : LexicalV2Lane) :
    ((fullWindow a b).map NativeLexicalV2Hit.identity).Nodup := by
  rw [fullWindow, map_append, map_map, map_map, nodup_append]
  refine ⟨Nodup.map (fun i j heq => identity_pathDocument_inj heq) nodup_range,
    Nodup.map (fun i j heq => identity_pathDocument_inj heq) nodup_range', ?_⟩
  intro identity hidentity identity' hidentity' heq
  obtain ⟨i, hi, rfl⟩ := mem_map.mp hidentity
  obtain ⟨j, hj, rfl⟩ := mem_map.mp hidentity'
  have hij : i = j := identity_pathDocument_inj heq
  have hi := mem_range.mp hi
  have hj := (mem_range'_1.mp hj).1
  omega

namespace LateLane

section

variable (h : LateLane plan a b c l₁ l₂ l₃ l₄)

include h

lemma nodup : (((l₁ ++ a :: l₂) ++ b :: (l₃ ++ c :: l₄)).map (·.ordinal)).Nodup := by
  rw [(lexicalV2Lanes_ok h.lanes).2.1]
  exact nodup_range

lemma silent :
    (∀ lane ∈ l₁ ++ l₂ ++ l₃ ++ l₄, (lateResults a b c).documents lane = []) ∧
      b ≠ a ∧ c ≠ a ∧ c ≠ b ∧ a.ordinal ≠ c.ordinal := by
  have hordinals := h.nodup
  have hnodup := hordinals.of_map
  simp only [map_append, map_cons, nodup_append, nodup_cons, mem_append,
    mem_cons] at hordinals hnodup
  refine ⟨fun lane hlane => ?_, ?_, ?_, ?_, ?_⟩
  · have hne : lane ≠ a ∧ lane ≠ b ∧ lane ≠ c := by
      simp only [mem_append] at hlane
      refine ⟨?_, ?_, ?_⟩ <;> rintro rfl <;> grind
    simp only [lateResults, hne.1, hne.2.1, hne.2.2, if_false]
  all_goals grind

/-- Up to the second lane the two runs are one. -/
theorem runLanes_fill (stops : Bool) :
    ∃ fallbackEnabled, runLanes stops (lateResults a b c)
        ((l₁ ++ a :: l₂) ++ b :: (l₃ ++ c :: l₄)) none [] =
      runLanes stops (lateResults a b c) (l₃ ++ c :: l₄) fallbackEnabled (fullWindow a b) := by
  obtain ⟨hsilent, hba, -⟩ := h.silent
  obtain ⟨halways, halways', -⟩ := h.always
  have hquiet : ∀ silent : List LexicalV2Lane, silent ⊆ l₁ ++ l₂ ++ l₃ ++ l₄ →
      ∀ lane ∈ silent, (lateResults a b c).documents lane = [] := fun _ hsub lane hlane =>
    hsilent lane (hsub hlane)
  let first := (range 256).map fun i => a.hit (pathDocument scoreOne i)
  have hroom : ∀ w : List (NativeLexicalV2Hit Unit), w.length < maxTotalCandidates →
      ¬ (stops = true ∧ maxTotalCandidates ≤ w.length) := fun w hw hfull =>
    absurd hfull.2 (not_le.mpr hw)
  have hfirst : first.length < maxTotalCandidates := by
    simp only [first, length_map, length_range]
    decide
  have hnodup := nodup_fullWindow a b
  have hcollectA : (lateResults a b c).collect a [] = first := by
    have hdocuments : (lateResults a b c).documents a =
        (range 256).map (pathDocument scoreOne) := by simp [lateResults]
    rw [LaneResults.collect, hdocuments, map_map]
    refine (foldl_collectHit_fresh ?_ hfirst.le).trans (nil_append _)
    rw [fullWindow, map_append] at hnodup
    exact (nodup_append.mp hnodup).1
  have hcollectB : (lateResults a b c).collect b first = fullWindow a b := by
    have hdocuments : (lateResults a b c).documents b =
        (range' 256 256).map (pathDocument scoreOne) := by simp [lateResults, hba]
    rw [LaneResults.collect, hdocuments, map_map]
    exact foldl_collectHit_fresh hnodup (length_fullWindow a b).le
  rw [append_assoc]
  obtain ⟨fallback₁, h₁⟩ := runLanes_silent l₁ (hquiet l₁ (by simp))
    (hroom [] (by decide)) (a :: l₂ ++ b :: (l₃ ++ c :: l₄)) none
  obtain ⟨fallback₂, h₂⟩ := runLanes_silent l₂ (hquiet l₂ (by simp))
    (hroom first hfirst) (b :: (l₃ ++ c :: l₄)) fallback₁
  refine ⟨fallback₂, ?_⟩
  rw [h₁, cons_append, runLanes_always halways (hroom [] (by decide)), hcollectA, h₂,
    runLanes_always halways' (hroom first hfirst), hcollectB]

lemma runLanes_stopped :
    runLanes true (lateResults a b c) ((l₁ ++ a :: l₂) ++ b :: (l₃ ++ c :: l₄)) none [] =
      fullWindow a b := by
  obtain ⟨fallbackEnabled, hfill⟩ := h.runLanes_fill true
  rw [hfill, runLanes_full (length_fullWindow a b).ge]

/-- The run that goes on gives the first document its second proof. -/
theorem runLanes_gone_on :
    runLanes false (lateResults a b c) ((l₁ ++ a :: l₂) ++ b :: (l₃ ++ c :: l₄)) none [] =
      collectHit (fullWindow a b) (c.hit (pathDocument scoreTwo 0)) := by
  obtain ⟨fallback, hfill⟩ := h.runLanes_fill false
  obtain ⟨hsilent, -, hca, hcb, -⟩ := h.silent
  have hgo : ∀ w : List (NativeLexicalV2Hit Unit),
      ¬ (false = true ∧ maxTotalCandidates ≤ w.length) := fun w hfull => by cases hfull.1
  have hcollect : (lateResults a b c).collect c (fullWindow a b) =
      collectHit (fullWindow a b) (c.hit (pathDocument scoreTwo 0)) := by
    have hdocuments : (lateResults a b c).documents c = [pathDocument scoreTwo 0] := by
      simp [lateResults, hca, hcb]
    rw [LaneResults.collect, hdocuments]
    rfl
  obtain ⟨fallback₃, h₃⟩ := runLanes_silent l₃
    (fun lane hlane => hsilent lane (by simp [hlane])) (hgo (fullWindow a b)) (c :: l₄) fallback
  obtain ⟨fallback₄, h₄⟩ := runLanes_silent l₄ (fun lane hlane => hsilent lane (by simp [hlane]))
    (hgo (collectHit (fullWindow a b) (c.hit (pathDocument scoreTwo 0)))) [] fallback₃
  rw [append_nil] at h₄
  rw [hfill, h₃, runLanes_always h.always.2.2 (hgo _), hcollect, h₄]
  rfl

lemma outcome_ne :
    executePlan true plan (lateResults a b c) 512 ≠
      executePlan false plan (lateResults a b c) 512 := by
  intro hsame
  obtain ⟨-, -, -, -, hordinal⟩ := h.silent
  set lanes := (l₁ ++ a :: l₂) ++ b :: (l₃ ++ c :: l₄) with hlanes
  have hnonempty : lanes ≠ [] := by simp [hlanes]
  have hvalid := fun stops => validate_lateResults (a := a) (b := b) (c := c) h.lanes hnonempty
    plan.emphasis stops
  have houtcome : ∀ stops, executePlan stops plan (lateResults a b c) 512 =
      .ok (windowOutcome plan.emphasis 512 (runLanes stops (lateResults a b c) lanes none [])) := by
    intro stops
    rw [executePlan, h.lanes]
    change (if lanes = [] then _ else _) = _
    rw [if_neg hnonempty, rankWindow_eq (window_runLanes lanes _ stops), hvalid stops]
    rfl
  rw [houtcome true, houtcome false, h.runLanes_stopped, h.runLanes_gone_on] at hsame
  have hrows := congrArg LexicalSearchOutcome.hits (Except.ok.inj hsame)
  simp only [windowOutcome] at hrows
  -- the row of the first document, as it stands when the run stops
  set early := a.hit (pathDocument scoreOne 0) with hearly
  have hmem : early ∈ fullWindow a b :=
    mem_append_left _ (mem_map_of_mem (mem_range.mpr (by decide : 0 < 256)))
  have hperm := rankedWindow_perm plan.emphasis (fullWindow a b)
  have hall : (rankedWindow plan.emphasis (fullWindow a b)).length ≤ 512 := by
    rw [hperm.length_eq, length_fullWindow]
    exact le_rfl
  have hshown : scoredRow plan.emphasis early ∈
      ((rankedWindow plan.emphasis (fullWindow a b)).take 512).map (scoredRow plan.emphasis) := by
    rw [take_of_length_le hall]
    exact mem_map_of_mem (hperm.mem_iff.mpr hmem)
  rw [hrows] at hshown
  obtain ⟨late, hlate, hrow⟩ := mem_map.mp hshown
  have hlate := (rankedWindow_perm _ _).mem_iff.mp (mem_of_mem_take hlate)
  have hidentity : (c.hit (pathDocument scoreTwo 0)).identity = early.identity := rfl
  rw [collectHit, hidentity, if_pos (mem_map_of_mem hmem)] at hlate
  obtain ⟨existing, hexisting, rfl⟩ := mem_map.mp hlate
  -- no other candidate has its path
  have hpath : existing = early := by
    have hpaths : existing.hit.path = early.hit.path := by
      have hpaths := congrArg SearchRow.path hrow
      split at hpaths <;> exact hpaths
    have hlength : existing.hit.path.length = 1 := by
      rw [hpaths]
      rfl
    obtain ⟨i, ⟨-, rfl⟩ | ⟨hi, rfl⟩⟩ := mem_fullWindow hexisting
    · change (replicate (i + 1) 'p').length = 1 at hlength
      rw [length_replicate, Nat.add_eq_right] at hlength
      rw [hlength, hearly]
    · change (replicate (i + 1) 'p').length = 1 at hlength
      rw [length_replicate, Nat.add_eq_right] at hlength
      omega
  subst hpath
  rw [if_pos rfl] at hrow
  have hproofs : (c.hit (pathDocument scoreTwo 0)).proofs.foldl pushProof early.proofs =
      [a.proof (pathDocument scoreOne 0), c.proof (pathDocument scoreTwo 0)] := by
    have hslot : (a.proof (pathDocument scoreOne 0)).slot ≠
        (c.proof (pathDocument scoreTwo 0)).slot := fun heq =>
      hordinal (congrArg (fun slot => slot.2.2) heq)
    change pushProof [a.proof (pathDocument scoreOne 0)] (c.proof (pathDocument scoreTwo 0)) = _
    rw [pushProof, if_pos ⟨(by decide : 1 < maxLexicalV2ProofsPerCandidate), by simpa using hslot⟩]
    rfl
  have hscores := congrArg SearchRow.score hrow
  have hbest : bestProof plan.emphasis early = a.proof (pathDocument scoreOne 0) :=
    bestProof_cons rfl (by simp)
  simp only [scoredRow, hbest, hproofs] at hscores
  have hmin := bestProof_spec plan.emphasis
    (show ({ early with proofs := [a.proof (pathDocument scoreOne 0),
      c.proof (pathDocument scoreTwo 0)] } : NativeLexicalV2Hit Unit).proofs ≠ [] by simp)
  rcases mem_pair.mp hmin.1 with heq | heq
  · have hle := hmin.2 _ (mem_cons_of_mem _ mem_cons_self)
    rw [heq, Std.OrientedCmp.gt_of_lt h.better] at hle
    cases hle
  · rw [heq] at hscores
    exact absurd hscores (by decide : scoreTwo ≠ scoreOne)

end

end LateLane

/-- Lanes of a plan in such an order are lanes of its run in that order. -/
theorem exists_outcome_ne (hcount : plan.evidenceStages.length ≤ maxEvidenceStages)
    (ha : a ∈ unorderedLanes plan) (hb : b ∈ unorderedLanes plan) (hc : c ∈ unorderedLanes plan)
    (hab : compareLanes plan.emphasis a b = .lt) (hbc : compareLanes plan.emphasis b c = .lt)
    (halways : ∀ lane ∈ [a, b, c], lane.stage.condition = .always)
    (hbetter : ∀ i j, compareLexicalV2Proofs plan.emphasis ⟨c.field, c.kind, i, scoreTwo, 0⟩
      ⟨a.field, a.kind, j, scoreOne, 0⟩ = .lt) :
    ∃ a' b' c', a.Placed a' ∧ b.Placed b' ∧ c.Placed c' ∧
      executePlan true plan (lateResults a' b' c') 512 ≠
        executePlan false plan (lateResults a' b' c') 512 := by
  obtain ⟨lanes, hlanes⟩ := exists_lexicalV2Lanes hcount
  obtain ⟨a', b', c', l₁, l₂, l₃, l₄, hplacedA, hplacedB, hplacedC, rfl⟩ :=
    exists_lanes_split hlanes ha hb hc hab hbc
  have hlate : LateLane plan a' b' c' l₁ l₂ l₃ l₄ := by
    refine ⟨hlanes, ⟨?_, ?_, ?_⟩, ?_⟩
    · rw [hplacedA.stage]
      exact halways a (by simp)
    · rw [hplacedB.stage]
      exact halways b (by simp)
    · rw [hplacedC.stage]
      exact halways c (by simp)
    · have hbetter := hbetter c'.ordinal a'.ordinal
      rw [← hplacedC.field, ← hplacedC.kind, ← hplacedA.field, ← hplacedA.kind] at hbetter
      exact hbetter
  exact ⟨a', b', c', hplacedA, hplacedB, hplacedC, hlate.outcome_ne⟩

end Late

/-! ## §8 Which plans may stop -/

lemma ReadyPlan.exists_stage (h : ReadyPlan plan) {kind : QueryEvidenceStageKind}
    (hkind : kind ∈ expectedKinds plan) : ∃ stage ∈ plan.evidenceStages, stage.kind = kind := by
  rw [← h.stages.kinds] at hkind
  exact mem_map.mp hkind

section

variable {stage : QueryEvidenceStage} (h : ReadyPlan plan) (hstage : stage ∈ plan.evidenceStages)

include h hstage

/-- The stages beside one on prefix metadata. -/
theorem ReadyPlan.metadata_stages (hkind : stage.kind = .prefixMetadata) :
    (∃ all ∈ plan.evidenceStages, all.kind = .allTerms) ∧
      (∃ prefixes ∈ plan.evidenceStages, prefixes.kind = .prefixes) ∧
      ∃ field ∈ plan.fieldGroups.prefixMetadata, field ∈ plan.fieldGroups.searchableText ∧
        field ∈ plan.fieldGroups.prefixes := by
  have hmetadata : hasPrefixMetadata plan = true :=
    any_eq_true.mpr ⟨stage, hstage, by simp [hkind]⟩
  have hparts := h.stages.prefixMetadata
  rw [hmetadata, eq_comm, Bool.and_eq_true] at hparts
  obtain ⟨hprefixes, hfields⟩ := hparts
  refine ⟨h.exists_stage (by simp [expectedKinds]), h.exists_stage ?_, ?_⟩
  · simp only [expectedKinds, mem_append]
    exact .inl (.inr (by simpa using hprefixes))
  · obtain ⟨field, rest, hfirst⟩ := exists_cons_of_ne_nil (of_decide_eq_true hfields)
    have hmem : field ∈ plan.fieldGroups.prefixMetadata := hfirst ▸ mem_cons_self
    refine ⟨field, hmem, ?_⟩
    rw [h.groups] at hmem ⊢
    have hsearchable := (mem_filter.mp hmem).1
    exact ⟨hsearchable, hsearchable⟩

/-- What a checked stage leaves open is not its group, nor, but for partial coverage, its
condition. -/
theorem ReadyPlan.stage_group :
    (stage.kind = .prefixMetadata → stage.fieldGroup = .prefixMetadata ∧
        stage.condition = .always) ∧
      (stage.kind = .allTerms → stage.fieldGroup = .searchableText ∧ stage.condition = .always) ∧
      (stage.kind = .prefixes → stage.fieldGroup = .prefixes ∧ stage.condition = .always) := by
  have hdraft := (h.stages.stages stage hstage).draft_eq
  have hgroup := congrArg StageDraft.fieldGroup hdraft
  have hcondition := congrArg StageDraft.condition hdraft
  change stage.fieldGroup = _ at hgroup
  change stage.condition = _ at hcondition
  refine ⟨fun hkind => ?_, fun hkind => ?_, fun hkind => ?_⟩ <;>
    rw [hkind] at hgroup hcondition <;> exact ⟨hgroup, hcondition⟩

lemma not_stopKeepsOutcome_of_metadata (hkind : stage.kind = .prefixMetadata) :
    ¬ StopKeepsOutcome plan := by
  obtain ⟨⟨all, hall, hallKind⟩, ⟨prefixes, hprefixes, hprefixesKind⟩, declared, hmetadata,
    hsearchable, hleading⟩ := h.metadata_stages hstage hkind
  obtain ⟨hgroup, halways⟩ := (h.stage_group hstage).1 hkind
  obtain ⟨hgroup', halways'⟩ := (h.stage_group hall).2.1 hallKind
  obtain ⟨hgroup'', halways''⟩ := (h.stage_group hprefixes).2.2 hprefixesKind
  obtain ⟨field, hfield⟩ : ∃ field, lexicalV2ProofField declared = some field := by
    cases declared <;> exact ⟨_, rfl⟩
  have hmetadata : declared ∈ declaredFields plan stage.fieldGroup := by
    rw [hgroup]
    exact hmetadata
  have hsearchable : declared ∈ declaredFields plan all.fieldGroup := by
    rw [hgroup']
    exact hsearchable
  have hleading : declared ∈ declaredFields plan prefixes.fieldGroup := by
    rw [hgroup'']
    exact hleading
  obtain ⟨a, ha, hfieldA, hkindA⟩ := exists_fieldLane hmetadata hfield
  obtain ⟨b, hb, hfieldB, hkindB⟩ := exists_fieldLane hsearchable hfield
  obtain ⟨c, hc, hfieldC, hkindC⟩ := exists_fieldLane hleading hfield
  rw [hkind] at hkindA
  rw [hallKind] at hkindB
  rw [hprefixesKind] at hkindC
  obtain ⟨hofA, -, hstageA⟩ := mem_stageLanes ha hstage
  obtain ⟨hofB, -, hstageB⟩ := mem_stageLanes hb hall
  obtain ⟨hofC, -, hstageC⟩ := mem_stageLanes hc hprefixes
  -- evidence of all terms and of extended terms is worth as much
  have hpoints : a.points plan.emphasis = b.points plan.emphasis := by
    simp only [LexicalV2Lane.points, lexicalV2EvidencePoints, hfieldA, hfieldB, hkindA, hkindB]
    rfl
  have hpoints' : b.points plan.emphasis = c.points plan.emphasis := by
    simp only [LexicalV2Lane.points, lexicalV2EvidencePoints, hfieldB, hfieldC, hkindB, hkindC]
    rfl
  have hab : compareLanes plan.emphasis a b = .lt := by
    refine compareLanes_of_rank_lt h.stagesRanked hofA hofB ?_ hpoints ?_
    · rw [hkindA, hkindB]
      rfl
    · rw [hstageA, hstageB, hkind, hallKind]
      decide
  have hbc : compareLanes plan.emphasis b c = .lt := by
    refine compareLanes_of_rank_lt h.stagesRanked hofB hofC ?_ hpoints' ?_
    · rw [hkindB, hkindC]
      rfl
    · rw [hstageB, hstageC, hallKind, hprefixesKind]
      decide
  have hcount : plan.evidenceStages.length ≤ maxEvidenceStages := by
    have hcount := h.stages.count
    rwa [h.bounds] at hcount
  suffices ∃ a' b' c', a.Placed a' ∧ b.Placed b' ∧ c.Placed c' ∧
      executePlan true plan (lateResults a' b' c') 512 ≠
        executePlan false plan (lateResults a' b' c') 512 by
    obtain ⟨a', b', c', -, -, -, hne⟩ := this
    exact fun hkeep => hne (hkeep Unit (lateResults a' b' c') 512)
  refine exists_outcome_ne hcount (mem_flatMap.mpr ⟨stage, hstage, ha⟩)
    (mem_flatMap.mpr ⟨all, hall, hb⟩) (mem_flatMap.mpr ⟨prefixes, hprefixes, hc⟩) hab hbc
    ?_ ?_
  · intro lane hlane
    rcases mem_cons.mp hlane with rfl | hlane
    · rw [hstageA, halways]
    rcases mem_pair.mp hlane with rfl | rfl
    · rw [hstageB, halways']
    · rw [hstageC, halways'']
  · intro i j
    have hscores : F32.totalCmp scoreOne scoreTwo = .lt := by decide
    rw [hkindA, hkindC, hfieldA, hfieldC]
    simp [compareLexicalV2Proofs, lexicalV2EvidencePoints, lexicalV2ProofKind, hscores,
      Std.ReflOrd.compare_self]

end

/-- **Which plans may stop**: the break at a full window keeps the outcome of a ready plan, whatever
its lanes return, exactly if the plan has no stage on prefix metadata. -/
theorem stop_keeps_outcome_iff {T : CharTables} (h : validatePlan T plan = .ok ())
    (hready : plan.execution = .ready) :
    StopKeepsOutcome plan ↔ ∀ stage ∈ plan.evidenceStages, stage.kind ≠ .prefixMetadata := by
  have hplan := validatePlan_ready h hready
  constructor
  · intro hkeep stage hstage hkind
    exact not_stopKeepsOutcome_of_metadata hplan hstage hkind hkeep
  · exact stopKeepsOutcome_of_no_metadata hplan.stagesRanked

/-- The plan of two words may not stop: the first of them extends. -/
theorem not_stopKeepsOutcome_expanded : ¬ StopKeepsOutcome expandedReady := by
  have hvalid : validatePlan .latin expandedReady = .ok () := by decide +kernel
  intro hkeep
  have hnone := (stop_keeps_outcome_iff hvalid rfl).mp hkeep
  exact absurd hnone (by decide +kernel)

/-- For `alpha beta` the lanes that extend `alpha` in file names and in titles return 256 documents
each. One of them has both words in its file name, and the lane that would show it is the next. -/
theorem stop_changes_outcome_expanded :
    finalizeEvidence .latin expandedPlan expandedReport = .ok expandedReady ∧
      expandedReady.execution = .ready ∧
      ∃ a b c : LexicalV2Lane,
        (a.field = .filename ∧ a.stage.kind = .prefixMetadata) ∧
        (b.field = .title ∧ b.stage.kind = .prefixMetadata) ∧
        (c.field = .filename ∧ c.stage.kind = .allTerms) ∧
        (∀ lane, lane.stage ∈ expandedReady.evidenceStages →
          ((lateResults a b c).documents lane).length ≤ lane.stage.maxCandidates) ∧
        executePlan true expandedReady (lateResults a b c) 512 ≠
          executePlan false expandedReady (lateResults a b c) 512 := by
  refine ⟨by decide +kernel, rfl, ?_⟩
  obtain ⟨metadata, hmetadata, hkind, hgroup, hordinal, halways⟩ :
      ∃ stage ∈ expandedReady.evidenceStages, stage.kind = .prefixMetadata ∧
        stage.fieldGroup = .prefixMetadata ∧ stage.ordinal = 2 ∧ stage.condition = .always := by
    decide +kernel
  obtain ⟨all, hall, hkind', hgroup', hordinal', halways'⟩ :
      ∃ stage ∈ expandedReady.evidenceStages, stage.kind = .allTerms ∧
        stage.fieldGroup = .searchableText ∧ stage.ordinal = 3 ∧ stage.condition = .always := by
    decide +kernel
  have hfilename : .filename ∈ declaredFields expandedReady metadata.fieldGroup := by
    rw [hgroup]
    decide
  have htitle : .title ∈ declaredFields expandedReady metadata.fieldGroup := by
    rw [hgroup]
    decide
  have hfilename' : .filename ∈ declaredFields expandedReady all.fieldGroup := by
    rw [hgroup']
    decide
  obtain ⟨a, ha, hfieldA, hkindA⟩ := exists_fieldLane hfilename rfl
  obtain ⟨b, hb, hfieldB, hkindB⟩ := exists_fieldLane htitle rfl
  obtain ⟨c, hc, hfieldC, hkindC⟩ := exists_fieldLane hfilename' rfl
  have hstageA := (mem_stageLanes ha hmetadata).2.2
  have hstageB := (mem_stageLanes hb hmetadata).2.2
  have hstageC := (mem_stageLanes hc hall).2.2
  rw [hkind] at hkindA hkindB
  rw [hkind'] at hkindC
  have hemphasis : expandedReady.emphasis = none := rfl
  have hab : compareLanes expandedReady.emphasis a b = .lt := by
    rw [compareLanes, LexicalV2Lane.points, LexicalV2Lane.points, hfieldA, hfieldB, hkindA, hkindB,
      hstageA, hstageB, hordinal, hemphasis]
    decide
  have hbc : compareLanes expandedReady.emphasis b c = .lt := by
    rw [compareLanes, LexicalV2Lane.points, LexicalV2Lane.points, hfieldB, hfieldC, hkindB, hkindC,
      hstageB, hstageC, hordinal, hordinal', hemphasis]
    decide
  have hscores : ∀ i j, compareLexicalV2Proofs expandedReady.emphasis
      ⟨c.field, c.kind, i, scoreTwo, 0⟩ ⟨a.field, a.kind, j, scoreOne, 0⟩ = .lt := by
    intro i j
    rw [hfieldA, hfieldC, hkindA, hkindC, hemphasis]
    rfl
  obtain ⟨a', b', c', hplacedA, hplacedB, hplacedC, hne⟩ :=
    exists_outcome_ne (by decide) (mem_flatMap.mpr ⟨metadata, hmetadata, ha⟩)
      (mem_flatMap.mpr ⟨metadata, hmetadata, hb⟩) (mem_flatMap.mpr ⟨all, hall, hc⟩) hab hbc
      (by simp [hstageA, hstageB, hstageC, halways, halways']) hscores
  refine ⟨a', b', c', ⟨hplacedA.field.trans hfieldA, ?_⟩, ⟨hplacedB.field.trans hfieldB, ?_⟩,
    ⟨hplacedC.field.trans hfieldC, ?_⟩, fun lane hlane => ?_, hne⟩
  · rw [hplacedA.stage, hstageA, hkind]
  · rw [hplacedB.stage, hstageB, hkind]
  · rw [hplacedC.stage, hstageC, hkind']
  · have hcaps : ∀ stage ∈ expandedReady.evidenceStages, stage.maxCandidates = 256 := by
      decide +kernel
    rw [hcaps lane.stage hlane]
    simp only [lateResults]
    split_ifs <;> simp

end Kwiry
