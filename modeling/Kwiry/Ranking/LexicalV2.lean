import Kwiry.Foundations.Floats
import Kwiry.Foundations.Folds
import Kwiry.Foundations.Sorting
import Kwiry.Query.Field

/-!
# Lexical Ranking

`rank_lexical_v2`: each candidate is represented by the best of its proofs, and candidates are
sorted by their representatives. Both comparators are chains of keys in which the engine score
counts only between proofs of one kind in one field; as kind and field come before it, the
chains are plain lexicographic orders. Candidates differ in their identity, which closes the
chain, so that the ranking depends on neither the order of the candidates nor that of proofs.
-/

namespace Kwiry

open Foundations List

/-! ## §1 Errors and identities -/

structure RankingError where
  (code message : String)
  deriving DecidableEq

def invalidInput (message : String) : RankingError :=
  ⟨"invalid_rerank_input", message⟩

def maxRerankCandidates : ℕ := maxTotalCandidates
def maxAuthorizationScopeBytes : ℕ := 1024
def maxSourceKeyBytes : ℕ := 256
def maxChunkIdBytes : ℕ := 256

/-- Texts compare by code point, which is how their UTF-8 bytes compare. -/
structure QualifiedSourceId where
  (authorizationScope sourceKey : Text)
  deriving DecidableEq

instance lawfulBEqPassage : LawfulBEq (QualifiedSourceId × Text × Text) := inferInstance

instance : Ord QualifiedSourceId :=
  ⟨compareLex (compareOn QualifiedSourceId.authorizationScope)
    (compareOn QualifiedSourceId.sourceKey)⟩

instance : Std.TransOrd QualifiedSourceId :=
  inferInstanceAs (Std.TransCmp (compareLex (compareOn QualifiedSourceId.authorizationScope)
    (compareOn QualifiedSourceId.sourceKey)))

lemma QualifiedSourceId.eq_of_compare {a b : QualifiedSourceId} (h : compare a b = .eq) :
    a = b := by
  obtain ⟨hscope, hkey⟩ := compareLex_eq_eq.mp h
  cases a
  cases b
  have hscope := Std.LawfulEqOrd.eq_of_compare (α := Text) hscope
  have hkey := Std.LawfulEqOrd.eq_of_compare (α := Text) hkey
  simp_all

def validateSourceId (source : QualifiedSourceId) : Except RankingError Unit :=
  rejectIf (source.authorizationScope = [] ∨
      maxAuthorizationScopeBytes < utf8Len source.authorizationScope ∨ source.sourceKey = [] ∨
      maxSourceKeyBytes < utf8Len source.sourceKey)
    (invalidInput "qualified source identity is invalid")

/-! ## §2 Proofs and candidates -/

inductive LexicalV2ProofField where
  | filename | title | alias | heading | tag | body | crossField
  deriving DecidableEq

namespace LexicalV2ProofField

/-- The derived order, which follows the declaration. -/
instance : Ord LexicalV2ProofField := ⟨compareOn LexicalV2ProofField.ctorIdx⟩

instance : Std.TransOrd LexicalV2ProofField :=
  inferInstanceAs (Std.TransCmp (compareOn LexicalV2ProofField.ctorIdx))

instance : Std.LawfulEqOrd LexicalV2ProofField :=
  lawfulEqCmp_compareOn LexicalV2ProofField.ctorIdx
    fun a b h => by cases a <;> cases b <;> first | rfl | cases h

def points : LexicalV2ProofField → ℤ
  | .filename | .title | .alias => 10
  | .heading => 6
  | .tag => 3
  | .body | .crossField => 0

def publicField : LexicalV2ProofField → Option QueryPublicField
  | .filename => some .filename
  | .title => some .title
  | .alias => some .alias
  | .heading => some .heading
  | .tag => some .tag
  | .body => some .body
  | .crossField => none

end LexicalV2ProofField

inductive LexicalV2ProofKind where
  | exact | phrase | allTerms | prefixAssisted | crossFieldAllTerms | partialCoverage
  deriving DecidableEq

namespace LexicalV2ProofKind

instance : Ord LexicalV2ProofKind := ⟨compareOn LexicalV2ProofKind.ctorIdx⟩

instance : Std.TransOrd LexicalV2ProofKind :=
  inferInstanceAs (Std.TransCmp (compareOn LexicalV2ProofKind.ctorIdx))

instance : Std.LawfulEqOrd LexicalV2ProofKind :=
  lawfulEqCmp_compareOn LexicalV2ProofKind.ctorIdx
    fun a b h => by cases a <;> cases b <;> first | rfl | cases h

def isPartial (kind : LexicalV2ProofKind) : Bool :=
  kind = partialCoverage

def points : LexicalV2ProofKind → ℤ
  | .exact => 60
  | .phrase => 50
  | .allTerms | .prefixAssisted => 45
  | .crossFieldAllTerms => 25
  | .partialCoverage => 15

end LexicalV2ProofKind

structure LexicalV2Proof where
  field : LexicalV2ProofField
  kind : LexicalV2ProofKind
  laneOrdinal : ℕ
  engineScore : F32
  engineOrdinal : ℕ
  deriving DecidableEq

/-- What two proofs of one candidate may not share. -/
def LexicalV2Proof.slot (proof : LexicalV2Proof) : LexicalV2ProofField × LexicalV2ProofKind × ℕ :=
  (proof.field, proof.kind, proof.laneOrdinal)

structure LexicalV2Candidate where
  source : QualifiedSourceId
  (chunkId path : Text)
  proofs : List LexicalV2Proof
  deriving DecidableEq

/-- What two candidates may not share. -/
def LexicalV2Candidate.identity (candidate : LexicalV2Candidate) :
    QualifiedSourceId × Text × Text :=
  (candidate.source, candidate.chunkId, candidate.path)

structure LexicalV2RankInput where
  schemaVersion : ℕ
  profileId : Text
  laneCount : ℕ
  emphasis : Option QueryPublicField
  candidates : List LexicalV2Candidate

structure LexicalV2RankedCandidate where
  candidate : LexicalV2Candidate
  selectedProof : LexicalV2Proof
  evidencePoints : ℤ

/-! ## §3 Validation -/

def lexicalV2RankSchemaVersion : ℕ := 2
def maxLexicalV2ProofsPerCandidate : ℕ := 32
def maxLexicalV2Lanes : ℕ := 42
def lexicalV2EmphasisPoints : ℤ := 10

def validateLexicalV2Proof (laneCount : ℕ)
    (seen : List (LexicalV2ProofField × LexicalV2ProofKind × ℕ)) (proof : LexicalV2Proof) :
    Except RankingError (List (LexicalV2ProofField × LexicalV2ProofKind × ℕ)) := do
  rejectIf (laneCount ≤ proof.laneOrdinal ∨ proof.engineScore.isFinite = false ∨
      proof.slot ∈ seen) (invalidInput "lexical-v2 proof is invalid or duplicated")
  return proof.slot :: seen

def validateLexicalV2Candidate (laneCount : ℕ) (seen : List (QualifiedSourceId × Text × Text))
    (candidate : LexicalV2Candidate) :
    Except RankingError (List (QualifiedSourceId × Text × Text)) := do
  validateSourceId candidate.source
  rejectIf (candidate.chunkId = [] ∨ maxChunkIdBytes < utf8Len candidate.chunkId ∨
      candidate.path = [] ∨ maxQueryBytes < utf8Len candidate.path ∨ candidate.proofs = [] ∨
      maxLexicalV2ProofsPerCandidate < candidate.proofs.length)
    (invalidInput "lexical-v2 candidate shape is invalid")
  rejectIf (candidate.identity ∈ seen)
    (invalidInput "lexical-v2 candidate identity is duplicated")
  let _ ← candidate.proofs.foldlM (validateLexicalV2Proof laneCount) []
  return candidate.identity :: seen

def validateLexicalV2Input (input : LexicalV2RankInput) : Except RankingError Unit := do
  rejectIf (input.schemaVersion ≠ lexicalV2RankSchemaVersion ∨
      input.profileId ≠ lexicalV2ProfileId)
    (invalidInput "lexical-v2 rank identity or schema is unsupported")
  rejectIf (input.laneCount = 0 ∨ maxLexicalV2Lanes < input.laneCount)
    (invalidInput "lexical-v2 lane count exceeds its bound")
  rejectIf (maxRerankCandidates < input.candidates.length)
    (invalidInput "lexical-v2 candidate count exceeds its bound")
  let _ ← input.candidates.foldlM (validateLexicalV2Candidate input.laneCount) []
  return ()

/-- A candidate that passes on its own. -/
structure LexicalV2Candidate.Valid (laneCount : ℕ) (candidate : LexicalV2Candidate) : Prop where
  source : validateSourceId candidate.source = .ok ()
  chunkId : candidate.chunkId ≠ [] ∧ utf8Len candidate.chunkId ≤ maxChunkIdBytes
  path : candidate.path ≠ [] ∧ utf8Len candidate.path ≤ maxQueryBytes
  proofs : candidate.proofs ≠ [] ∧ candidate.proofs.length ≤ maxLexicalV2ProofsPerCandidate
  proof : ∀ proof ∈ candidate.proofs,
    proof.laneOrdinal < laneCount ∧ proof.engineScore.isFinite = true
  slots : (candidate.proofs.map LexicalV2Proof.slot).Nodup

variable {proof : LexicalV2Proof}

variable {laneCount : ℕ}

lemma validateLexicalV2Proof_ok {seen seen' : List (LexicalV2ProofField × LexicalV2ProofKind × ℕ)}
    :
    validateLexicalV2Proof laneCount seen proof = .ok seen' ↔
      (proof.laneOrdinal < laneCount ∧ proof.engineScore.isFinite = true) ∧ proof.slot ∉ seen ∧
        seen' = proof.slot :: seen := by
  simp only [validateLexicalV2Proof, bind_ok_iff, rejectIf_ok, exists_const, not_or, Nat.not_le,
    Bool.not_eq_false, pure, Except.pure, Except.ok.injEq, and_assoc]
  rw [eq_comm (a := seen')]

lemma validateLexicalV2Candidate_ok {seen seen' : List (QualifiedSourceId × Text × Text)}
    {candidate : LexicalV2Candidate} :
    validateLexicalV2Candidate laneCount seen candidate = .ok seen' ↔
      candidate.Valid laneCount ∧ candidate.identity ∉ seen ∧
        seen' = candidate.identity :: seen := by
  have hproofs : (∃ slots, candidate.proofs.foldlM (validateLexicalV2Proof laneCount) [] =
      .ok slots) ↔ _ :=
    foldlM_fresh_iff (P := fun proof : LexicalV2Proof =>
      proof.laneOrdinal < laneCount ∧ proof.engineScore.isFinite = true)
      (fun _ _ _ => validateLexicalV2Proof_ok) candidate.proofs []
  simp only [validateLexicalV2Candidate, bind_unit_ok_iff, rejectIf_ok, not_or, Nat.not_lt]
  simp only [bind_ok_iff, pure, Except.pure, Except.ok.injEq]
  constructor
  · rintro ⟨hsource, ⟨hchunk, hchunkLen, hpath, hpathLen, hsome, hcount⟩, hfresh, slots, hslots,
      rfl⟩
    obtain ⟨hproof, hnodup, -⟩ := hproofs.mp ⟨slots, hslots⟩
    exact ⟨⟨hsource, ⟨hchunk, hchunkLen⟩, ⟨hpath, hpathLen⟩, ⟨hsome, hcount⟩, hproof, hnodup⟩,
      hfresh, rfl⟩
  · rintro ⟨hvalid, hfresh, rfl⟩
    obtain ⟨slots, hslots⟩ := hproofs.mpr ⟨hvalid.proof, hvalid.slots, by simp⟩
    exact ⟨hvalid.source, ⟨hvalid.chunkId.1, hvalid.chunkId.2, hvalid.path.1, hvalid.path.2,
      hvalid.proofs.1, hvalid.proofs.2⟩, hfresh, slots, hslots, rfl⟩

/-- A candidate whose proofs pass. -/
structure LexicalV2Candidate.Proved (laneCount : ℕ) (candidate : LexicalV2Candidate) : Prop where
  count : candidate.proofs ≠ [] ∧ candidate.proofs.length ≤ maxLexicalV2ProofsPerCandidate
  proof : ∀ proof ∈ candidate.proofs,
    proof.laneOrdinal < laneCount ∧ proof.engineScore.isFinite = true
  slots : (candidate.proofs.map LexicalV2Proof.slot).Nodup

/-- Where the proofs pass, only the identity of a candidate is left to check. -/
theorem validateLexicalV2Candidate_congr {seen : List (QualifiedSourceId × Text × Text)}
    {candidate candidate' : LexicalV2Candidate}
    (hidentity : candidate'.identity = candidate.identity) (h : candidate.Proved laneCount)
    (h' : candidate'.Proved laneCount) :
    validateLexicalV2Candidate laneCount seen candidate =
      validateLexicalV2Candidate laneCount seen candidate' := by
  have hproofs : ∀ {candidate : LexicalV2Candidate}, candidate.Proved laneCount →
      ∃ slots, candidate.proofs.foldlM (validateLexicalV2Proof laneCount) [] = .ok slots := by
    intro candidate h
    exact (foldlM_fresh_iff (P := fun proof : LexicalV2Proof =>
      proof.laneOrdinal < laneCount ∧ proof.engineScore.isFinite = true)
      (fun _ _ _ => validateLexicalV2Proof_ok) candidate.proofs []).mpr ⟨h.proof, h.slots, by simp⟩
  obtain ⟨slots, hslots⟩ := hproofs h
  obtain ⟨slots', hslots'⟩ := hproofs h'
  unfold validateLexicalV2Candidate
  rw [hslots, hslots', hidentity]
  simp only [LexicalV2Candidate.identity, Prod.mk.injEq] at hidentity
  obtain ⟨hsource, hchunk, hpath⟩ := hidentity
  rw [hsource, hchunk, hpath]
  simp only [h.count.1, h'.count.1, not_lt.mpr h.count.2, not_lt.mpr h'.count.2]
  rfl

/-- **What a valid input is.** -/
theorem validateLexicalV2Input_ok {input : LexicalV2RankInput} :
    validateLexicalV2Input input = .ok () ↔
      (input.schemaVersion = lexicalV2RankSchemaVersion ∧ input.profileId = lexicalV2ProfileId) ∧
      (input.laneCount ≠ 0 ∧ input.laneCount ≤ maxLexicalV2Lanes) ∧
      input.candidates.length ≤ maxRerankCandidates ∧
      (∀ candidate ∈ input.candidates, candidate.Valid input.laneCount) ∧
      (input.candidates.map LexicalV2Candidate.identity).Nodup := by
  have hcandidates : (∃ seen, input.candidates.foldlM
      (validateLexicalV2Candidate input.laneCount) [] = .ok seen) ↔
      (∀ candidate ∈ input.candidates, candidate.Valid input.laneCount) ∧
        (input.candidates.map LexicalV2Candidate.identity).Nodup := by
    rw [foldlM_fresh_iff (P := fun candidate => candidate.Valid input.laneCount)
      (fun _ _ _ => validateLexicalV2Candidate_ok)]
    simp
  rw [← hcandidates]
  simp only [validateLexicalV2Input, bind_unit_ok_iff, rejectIf_ok, not_or, not_not, Nat.not_lt,
    ne_eq]
  simp only [bind_ok_iff, pure, Except.pure, and_true]

/-! ## §4 Comparators -/

def lexicalV2EvidencePoints (proof : LexicalV2Proof) (emphasis : Option QueryPublicField) : ℤ :=
  let emphasized : Bool :=
    match emphasis with
    | some .name =>
      proof.field = .filename || proof.field = .title || proof.field = .alias
    | some field => proof.field.publicField = some field
    | none => false
  proof.kind.points + proof.field.points + if emphasized then lexicalV2EmphasisPoints else 0

def compareLexicalV2Proofs (emphasis : Option QueryPublicField) (left right : LexicalV2Proof) :
    Ordering :=
  (compare left.kind.isPartial right.kind.isPartial).then <|
  (compare (lexicalV2EvidencePoints right emphasis)
    (lexicalV2EvidencePoints left emphasis)).then <|
  (compare left.kind right.kind).then <|
  (compare left.field right.field).then <|
  (if left.kind = right.kind ∧ left.field = right.field then
    F32.totalCmp right.engineScore left.engineScore
  else
    .eq).then <|
  (compare left.engineOrdinal right.engineOrdinal).then <|
  compare left.laneOrdinal right.laneOrdinal

def compareLexicalV2Candidates (left right : LexicalV2RankedCandidate) : Ordering :=
  (compare left.selectedProof.kind.isPartial right.selectedProof.kind.isPartial).then <|
  (compare right.evidencePoints left.evidencePoints).then <|
  (compare left.selectedProof.kind right.selectedProof.kind).then <|
  (compare left.selectedProof.field right.selectedProof.field).then <|
  (if left.selectedProof.kind = right.selectedProof.kind ∧
      left.selectedProof.field = right.selectedProof.field then
    F32.totalCmp right.selectedProof.engineScore left.selectedProof.engineScore
  else
    .eq).then <|
  (compare left.selectedProof.engineOrdinal right.selectedProof.engineOrdinal).then <|
  (compare left.candidate.source right.candidate.source).then <|
  (compare left.candidate.chunkId right.candidate.chunkId).then <|
  compare left.candidate.path right.candidate.path

/-- The clause on scores stands behind those on kind and field, which decide its condition. -/
theorem then_score_eq {kind kind' : LexicalV2ProofKind} {field field' : LexicalV2ProofField}
    {score last : Ordering} :
    (compare kind kind').then ((compare field field').then
        ((if kind = kind' ∧ field = field' then score else .eq).then last)) =
      (compare kind kind').then ((compare field field').then (score.then last)) := by
  have hsame : (compare kind kind').then (compare field field') = .eq →
      kind = kind' ∧ field = field' := by
    intro heq
    obtain ⟨hkind, hfield⟩ := Ordering.then_eq_eq.mp heq
    exact ⟨Std.LawfulEqOrd.eq_of_compare hkind, Std.LawfulEqOrd.eq_of_compare hfield⟩
  simpa only [Ordering.then_assoc] using then_ite_eq hsame

lemma compareLexicalV2Proofs_eq (emphasis : Option QueryPublicField) :
    compareLexicalV2Proofs emphasis =
      compareLex (compareOn fun p => p.kind.isPartial) (compareLex
        (fun a b => compareOn (fun p => lexicalV2EvidencePoints p emphasis) b a) (compareLex
        (compareOn LexicalV2Proof.kind) (compareLex (compareOn LexicalV2Proof.field) (compareLex
        (fun a b => compareOn (fun p => totalKey 32 p.engineScore.bits.toNat) b a) (compareLex
        (compareOn LexicalV2Proof.engineOrdinal) (compareOn LexicalV2Proof.laneOrdinal)))))) := by
  funext left right
  simp only [compareLexicalV2Proofs, then_score_eq]
  rfl

lemma compareLexicalV2Candidates_eq :
    compareLexicalV2Candidates =
      compareLex (compareOn fun r => r.selectedProof.kind.isPartial) (compareLex
        (fun a b => compareOn LexicalV2RankedCandidate.evidencePoints b a) (compareLex
        (compareOn fun r => r.selectedProof.kind) (compareLex
        (compareOn fun r => r.selectedProof.field) (compareLex
        (fun a b => compareOn (fun r => totalKey 32 r.selectedProof.engineScore.bits.toNat) b a)
        (compareLex (compareOn fun r => r.selectedProof.engineOrdinal) (compareLex
        (compareOn fun r => r.candidate.source) (compareLex
        (compareOn fun r => r.candidate.chunkId)
        (compareOn fun r => r.candidate.path)))))))) := by
  funext left right
  simp only [compareLexicalV2Candidates, then_score_eq]
  rfl

instance (emphasis : Option QueryPublicField) :
    Std.TransCmp (compareLexicalV2Proofs emphasis) := by
  rw [compareLexicalV2Proofs_eq]
  infer_instance

instance : Std.TransCmp compareLexicalV2Candidates := by
  rw [compareLexicalV2Candidates_eq]
  infer_instance

lemma compareLexicalV2Proofs_inj {emphasis : Option QueryPublicField}
    {left right : LexicalV2Proof} (h : compareLexicalV2Proofs emphasis left right = .eq) :
    left = right := by
  simp only [compareLexicalV2Proofs, then_score_eq, Ordering.then_eq_eq] at h
  obtain ⟨-, -, hkind, hfield, hscore, hordinal, hlane⟩ := h
  have hkind := Std.LawfulEqOrd.eq_of_compare hkind
  have hfield := Std.LawfulEqOrd.eq_of_compare hfield
  have hscore := Std.LawfulEqCmp.eq_of_compare hscore
  have hordinal := Std.LawfulEqOrd.eq_of_compare hordinal
  have hlane := Std.LawfulEqOrd.eq_of_compare hlane
  cases left
  cases right
  simp_all

variable {left ranked' right : LexicalV2RankedCandidate}

lemma compareLexicalV2Candidates_inj (h : compareLexicalV2Candidates left right = .eq) :
    left.candidate.identity = right.candidate.identity := by
  simp only [compareLexicalV2Candidates, then_score_eq, Ordering.then_eq_eq] at h
  obtain ⟨-, -, -, -, -, -, hsource, hchunk, hpath⟩ := h
  have hsource := QualifiedSourceId.eq_of_compare hsource
  have hchunk := Std.LawfulEqOrd.eq_of_compare (α := Text) hchunk
  have hpath := Std.LawfulEqOrd.eq_of_compare (α := Text) hpath
  unfold LexicalV2Candidate.identity
  rw [hsource, hchunk, hpath]

/-! ## §5 The ranking -/

/-- A candidate behind the best of its proofs. -/
def rankLexicalV2Candidate (emphasis : Option QueryPublicField) (candidate : LexicalV2Candidate) :
    Except RankingError LexicalV2RankedCandidate :=
  match sortBy (compareLexicalV2Proofs emphasis) candidate.proofs with
  | [] => .error (invalidInput "lexical-v2 candidate has no proof")
  | proof :: _ => .ok ⟨candidate, proof, lexicalV2EvidencePoints proof emphasis⟩

def rankLexicalV2 (input : LexicalV2RankInput) :
    Except RankingError (List LexicalV2RankedCandidate) := do
  validateLexicalV2Input input
  let ranked ← input.candidates.mapM (rankLexicalV2Candidate input.emphasis)
  return sortBy compareLexicalV2Candidates ranked

/-- A candidate stands behind a proof of its own that no other precedes. -/
structure LexicalV2RankedCandidate.Selected (emphasis : Option QueryPublicField)
    (ranked : LexicalV2RankedCandidate) : Prop where
  mem : ranked.selectedProof ∈ ranked.candidate.proofs
  minimal : ∀ proof ∈ ranked.candidate.proofs,
    (compareLexicalV2Proofs emphasis ranked.selectedProof proof).isLE = true
  points : ranked.evidencePoints = lexicalV2EvidencePoints ranked.selectedProof emphasis

/-- What a ranking shows of a candidate. -/
def LexicalV2RankedCandidate.outcome (ranked : LexicalV2RankedCandidate) :
    (QualifiedSourceId × Text × Text) × LexicalV2Proof :=
  (ranked.candidate.identity, ranked.selectedProof)

/-- What a candidate will show in the ranking. -/
private def outcomeOf (emphasis : Option QueryPublicField) (candidate : LexicalV2Candidate) :
    Option ((QualifiedSourceId × Text × Text) × LexicalV2Proof) :=
  (sortBy (compareLexicalV2Proofs emphasis) candidate.proofs).head?.map (candidate.identity, ·)

section Candidate

variable {emphasis : Option QueryPublicField} {candidate : LexicalV2Candidate}
  {ranked : LexicalV2RankedCandidate}

lemma rankLexicalV2Candidate_ok (h : rankLexicalV2Candidate emphasis candidate = .ok ranked) :
    ranked.candidate = candidate ∧ ranked.Selected emphasis ∧
      outcomeOf emphasis candidate = some ranked.outcome := by
  unfold rankLexicalV2Candidate at h
  split at h
  · cases h
  · rename_i proof rest hsorted
    cases h
    obtain ⟨hmem, hmin⟩ := sortBy_head_isLE hsorted
    exact ⟨rfl, ⟨hmem, hmin, rfl⟩, by simp [outcomeOf, hsorted, LexicalV2RankedCandidate.outcome]⟩

lemma exists_rankLexicalV2Candidate (emphasis : Option QueryPublicField) (h : candidate.proofs ≠ []) :
    ∃ ranked, rankLexicalV2Candidate emphasis candidate = .ok ranked := by
  unfold rankLexicalV2Candidate
  split
  · rename_i hnil
    have hperm := sortBy_perm (compareLexicalV2Proofs emphasis) candidate.proofs
    rw [hnil] at hperm
    exact absurd hperm.symm.eq_nil h
  · exact ⟨_, rfl⟩

/-- A standard proof is never passed over for a partial one. -/
theorem LexicalV2RankedCandidate.Selected.standard (h : ranked.Selected emphasis)
    (hmem : proof ∈ ranked.candidate.proofs) (hstandard : proof.kind.isPartial = false) :
    ranked.selectedProof.kind.isPartial = false := by
  have hle := h.minimal proof hmem
  cases hpart : ranked.selectedProof.kind.isPartial with
  | false => rfl
  | true =>
    have hgt : compareLexicalV2Proofs emphasis ranked.selectedProof proof = .gt := by
      rw [compareLexicalV2Proofs, hpart, hstandard]
      rfl
    rw [hgt] at hle
    cases hle

end Candidate

/-- The same candidates with the same proofs, in another order. -/
def LexicalV2RankInput.Rearranges (input input' : LexicalV2RankInput) : Prop :=
  input' = { input with candidates := input'.candidates } ∧
    ∃ candidates, input.candidates.Perm candidates ∧
      List.Forall₂ (fun candidate candidate' : LexicalV2Candidate =>
        candidate'.identity = candidate.identity ∧ candidate.proofs.Perm candidate'.proofs)
        candidates input'.candidates

section Ranking

variable {input input' : LexicalV2RankInput}

lemma rearranges_outcomes {emphasis : Option QueryPublicField} (h : input.Rearranges input') :
    (input.candidates.filterMap (outcomeOf emphasis)).Perm
      (input'.candidates.filterMap (outcomeOf emphasis)) := by
  obtain ⟨-, candidates, hperm, hsame⟩ := h
  refine (hperm.filterMap _).trans ?_
  have heq : candidates.map (outcomeOf emphasis) = input'.candidates.map (outcomeOf emphasis) := by
    refine forall₂_eq_eq_eq ▸ ?_
    rw [forall₂_map_left_iff, forall₂_map_right_iff]
    refine hsame.imp fun candidate candidate' ⟨hidentity, hproofs⟩ => ?_
    have hsorted : sortBy (compareLexicalV2Proofs emphasis) candidate.proofs =
        sortBy (compareLexicalV2Proofs emphasis) candidate'.proofs :=
      sortBy_eq_of_perm hproofs fun _ _ _ _ heq => compareLexicalV2Proofs_inj heq
    rw [outcomeOf, outcomeOf, hsorted, hidentity]
  have hfilter : ∀ l : List LexicalV2Candidate, l.filterMap (outcomeOf emphasis) =
      (l.map (outcomeOf emphasis)).filterMap id := by
    intro l
    rw [filterMap_map]
    rfl
  rw [hfilter, hfilter, heq]

lemma rearranges_valid (h : input.Rearranges input')
    (hvalid : validateLexicalV2Input input = .ok ()) : validateLexicalV2Input input' = .ok () := by
  obtain ⟨hheader, candidates, hperm, hsame⟩ := h
  obtain ⟨hprofile, hlanes, hcount, hcandidates, hnodup⟩ := validateLexicalV2Input_ok.mp hvalid
  have hidentities : candidates.map LexicalV2Candidate.identity =
      input'.candidates.map LexicalV2Candidate.identity := by
    refine forall₂_eq_eq_eq ▸ ?_
    rw [forall₂_map_left_iff, forall₂_map_right_iff]
    exact hsame.imp fun _ _ ⟨hidentity, _⟩ => hidentity.symm
  have hproofs : ∀ candidate' ∈ input'.candidates, candidate'.Valid input.laneCount := by
    intro candidate' hmem
    obtain ⟨candidate, hcandidate, hidentity, hproofs⟩ :=
      exists_of_mem_forall₂ hsame hmem
    have hcandidate := hcandidates candidate (hperm.mem_iff.mpr hcandidate)
    simp only [LexicalV2Candidate.identity, Prod.mk.injEq] at hidentity
    obtain ⟨hsource, hchunk, hpath⟩ := hidentity
    refine ⟨hsource ▸ hcandidate.source, hchunk ▸ hcandidate.chunkId, hpath ▸ hcandidate.path,
      ⟨fun hnil => hcandidate.proofs.1 ?_, hproofs.length_eq ▸ hcandidate.proofs.2⟩,
      fun proof hproof => hcandidate.proof proof (hproofs.mem_iff.mpr hproof),
      (hproofs.map _).nodup_iff.mp hcandidate.slots⟩
    exact (hnil ▸ hproofs).eq_nil
  rw [hheader]
  refine validateLexicalV2Input_ok.mpr ⟨hprofile, hlanes, ?_, hproofs, ?_⟩
  · rw [← hsame.length_eq, ← hperm.length_eq]
    exact hcount
  · rw [← hidentities]
    exact (hperm.map _).nodup_iff.mp hnodup

/-- Outcomes compare as the candidates that show them. -/
private def compareOutcomes (emphasis : Option QueryPublicField)
    (left right : (QualifiedSourceId × Text × Text) × LexicalV2Proof) : Ordering :=
  let shown (outcome : (QualifiedSourceId × Text × Text) × LexicalV2Proof) :
      LexicalV2RankedCandidate :=
    ⟨⟨outcome.1.1, outcome.1.2.1, outcome.1.2.2, []⟩, outcome.2,
      lexicalV2EvidencePoints outcome.2 emphasis⟩
  compareLexicalV2Candidates (shown left) (shown right)

lemma compareOutcomes_inj {emphasis : Option QueryPublicField}
    {left right : (QualifiedSourceId × Text × Text) × LexicalV2Proof}
    (h : compareOutcomes emphasis left right = .eq) : left.1 = right.1 :=
  compareLexicalV2Candidates_inj h

/-- What a valid input is ranked into, before it is sorted. -/
theorem rankLexicalV2_ok (hvalid : validateLexicalV2Input input = .ok ()) :
    ∃ ranked, rankLexicalV2 input = .ok (sortBy compareLexicalV2Candidates ranked) ∧
      ranked.map LexicalV2RankedCandidate.candidate = input.candidates ∧
      (∀ r ∈ ranked, r.Selected input.emphasis) ∧
      ranked.map LexicalV2RankedCandidate.outcome =
        input.candidates.filterMap (outcomeOf input.emphasis) := by
  have hcandidates := (validateLexicalV2Input_ok.mp hvalid).2.2.2.1
  obtain ⟨ranked, hranked⟩ := exists_mapM_ok fun candidate hmem =>
    exists_rankLexicalV2Candidate input.emphasis (hcandidates candidate hmem).proofs.1
  have hspec := (mapM_ok_iff.mp hranked).imp fun _ _ h => rankLexicalV2Candidate_ok h
  refine ⟨ranked, by rw [rankLexicalV2, hvalid, hranked]; rfl, ?_, ?_, ?_⟩
  · refine (forall₂_eq_eq_eq ▸ ?_ : input.candidates = ranked.map _).symm
    rw [forall₂_map_right_iff]
    exact hspec.imp fun _ _ h => h.1.symm
  · intro r hr
    obtain ⟨candidate, -, h⟩ := exists_of_mem_forall₂ hspec hr
    exact h.2.1
  · clear hranked hcandidates hvalid
    generalize input.candidates = candidates at hspec
    induction hspec with
    | nil => rfl
    | cons h _ ih => rw [map_cons, filterMap_cons_some h.2.2, ih]

/-- **Lexical ranking is a canonical sort**: a valid input is ranked into a permutation of its
candidates, each behind a minimal one of its proofs, those with a standard proof before those
without, and the order of the input does not matter. -/
theorem rankLexicalV2_canonical (hvalid : validateLexicalV2Input input = .ok ()) :
    ∃ ranked, rankLexicalV2 input = .ok ranked ∧
      (ranked.map LexicalV2RankedCandidate.candidate).Perm input.candidates ∧
      (∀ r ∈ ranked, r.Selected input.emphasis ∧
        (r.selectedProof.kind.isPartial = true →
          ∀ proof ∈ r.candidate.proofs, proof.kind.isPartial = true)) ∧
      (ranked.Pairwise fun r r' =>
        r.selectedProof.kind.isPartial = true → r'.selectedProof.kind.isPartial = true) ∧
      ∀ input', input.Rearranges input' → ∃ ranked', rankLexicalV2 input' = .ok ranked' ∧
        ranked'.map LexicalV2RankedCandidate.outcome =
          ranked.map LexicalV2RankedCandidate.outcome := by
  obtain ⟨unsorted, hrank, hcandidates, hselected, houtcomes⟩ := rankLexicalV2_ok hvalid
  refine ⟨_, hrank, ?_, ?_, ?_, ?_⟩
  · rw [← hcandidates]
    exact (sortBy_perm _ unsorted).map _
  · intro r hr
    have hr := hselected r (mem_sortBy.mp hr)
    refine ⟨hr, fun hpart proof hmem => ?_⟩
    by_contra hstandard
    rw [hr.standard hmem (by simpa using hstandard)] at hpart
    cases hpart
  · refine (pairwise_sortBy _ unsorted).imp fun {r r'} hle hpart => ?_
    cases hpart' : r'.selectedProof.kind.isPartial with
    | true => rfl
    | false =>
      have hgt : compareLexicalV2Candidates r r' = .gt := by
        rw [compareLexicalV2Candidates, hpart, hpart']
        rfl
      rw [hgt] at hle
      cases hle
  · intro input' hsame
    have hemphasis : input'.emphasis = input.emphasis := by rw [hsame.1]
    obtain ⟨unsorted', hrank', -, hselected', houtcomes'⟩ := rankLexicalV2_ok (rearranges_valid hsame hvalid)
    rw [hemphasis] at hselected' houtcomes'
    refine ⟨_, hrank', ?_⟩
    have hsorted : ∀ unsorted : List LexicalV2RankedCandidate,
        (∀ r ∈ unsorted, r.Selected input.emphasis) →
        (sortBy compareLexicalV2Candidates unsorted).map LexicalV2RankedCandidate.outcome =
          sortBy (compareOutcomes input.emphasis)
            (unsorted.map LexicalV2RankedCandidate.outcome) := by
      intro unsorted hselected
      refine sortBy_map _ fun a ha b hb => ?_
      simp only [compareOutcomes, compareLexicalV2Candidates, (hselected a ha).points,
        (hselected b hb).points]
      rfl
    rw [hsorted unsorted' hselected', hsorted unsorted hselected, houtcomes', houtcomes]
    have htrans : Std.TransCmp (compareOutcomes input.emphasis) :=
      transCmp_comap compareLexicalV2Candidates _
    refine (sortBy_eq_of_perm (rearranges_outcomes hsame) fun a ha b hb heq => ?_).symm
    rw [← houtcomes] at ha hb
    obtain ⟨r, hr, rfl⟩ := mem_map.mp ha
    obtain ⟨r', hr', rfl⟩ := mem_map.mp hb
    have hidentity := compareOutcomes_inj heq
    have hnodup := (validateLexicalV2Input_ok.mp hvalid).2.2.2.2
    rw [← hcandidates, map_map] at hnodup
    rw [inj_on_of_nodup_map hnodup hr hr' hidentity]

/-! ## §6 More evidence -/

/-- How two selected proofs compare, without the lanes they come from. -/
def compareStrength (emphasis : Option QueryPublicField) (left right : LexicalV2Proof) : Ordering :=
  (compare left.kind.isPartial right.kind.isPartial).then <|
  (compare (lexicalV2EvidencePoints right emphasis)
    (lexicalV2EvidencePoints left emphasis)).then <|
  (compare left.kind right.kind).then <|
  (compare left.field right.field).then <|
  (F32.totalCmp right.engineScore left.engineScore).then <|
  compare left.engineOrdinal right.engineOrdinal

instance (emphasis : Option QueryPublicField) : Std.TransCmp (compareStrength emphasis) := by
  have hlex : compareStrength emphasis =
      compareLex (compareOn fun p => p.kind.isPartial) (compareLex
        (fun a b => compareOn (lexicalV2EvidencePoints · emphasis) b a) (compareLex
        (compareOn LexicalV2Proof.kind) (compareLex (compareOn LexicalV2Proof.field) (compareLex
        (fun a b => compareOn (fun p => totalKey 32 p.engineScore.bits.toNat) b a)
        (compareOn LexicalV2Proof.engineOrdinal))))) := rfl
  rw [hlex]
  infer_instance

/-- How two candidates of equal strength compare. -/
def compareIdentities (left right : LexicalV2Candidate) : Ordering :=
  (compare left.source right.source).then <|
  (compare left.chunkId right.chunkId).then <|
  compare left.path right.path

lemma compareLexicalV2Proofs_strength (emphasis : Option QueryPublicField)
    (left right : LexicalV2Proof) :
    compareLexicalV2Proofs emphasis left right =
      (compareStrength emphasis left right).then (compare left.laneOrdinal right.laneOrdinal) := by
  simp only [compareLexicalV2Proofs, compareStrength, then_score_eq, Ordering.then_assoc]

lemma compareLexicalV2Candidates_strength {emphasis : Option QueryPublicField}
    (hleft : left.Selected emphasis) (hright : right.Selected emphasis) :
    compareLexicalV2Candidates left right =
      (compareStrength emphasis left.selectedProof right.selectedProof).then
        (compareIdentities left.candidate right.candidate) := by
  simp only [compareLexicalV2Candidates, compareStrength, compareIdentities, then_score_eq,
    Ordering.then_assoc, hleft.points, hright.points]

/-- A candidate behind a proof that is no weaker precedes whatever it preceded. -/
theorem compareLexicalV2Candidates_of_stronger {emphasis : Option QueryPublicField}
    {ranked other : LexicalV2RankedCandidate} (hranked : ranked.Selected emphasis)
    (hranked' : ranked'.Selected emphasis) (hother : other.Selected emphasis)
    (hidentity : compareIdentities ranked'.candidate other.candidate =
      compareIdentities ranked.candidate other.candidate)
    (hstronger : (compareStrength emphasis ranked'.selectedProof ranked.selectedProof).isLE = true)
    (hlt : compareLexicalV2Candidates ranked other = .lt) :
    compareLexicalV2Candidates ranked' other = .lt := by
  rw [compareLexicalV2Candidates_strength hranked hother, Ordering.then_eq_lt] at hlt
  rw [compareLexicalV2Candidates_strength hranked' hother, Ordering.then_eq_lt, hidentity]
  rcases hlt with hlt | ⟨heq, hlt⟩
  · exact .inl (Std.TransCmp.lt_of_isLE_of_lt hstronger hlt)
  · have hle := Std.TransCmp.isLE_trans hstronger (Ordering.isLE_of_eq_eq heq)
    rcases Ordering.isLE_iff_eq_lt_or_eq_eq.mp hle with hless | hsame
    · exact .inl hless
    · exact .inr ⟨hsame, hlt⟩

/-- Two candidates behind proofs of the same list show the same proof. -/
theorem LexicalV2RankedCandidate.Selected.unique {emphasis : Option QueryPublicField}
    {ranked : LexicalV2RankedCandidate} (h : ranked.Selected emphasis)
    (h' : ranked'.Selected emphasis) (hsame : ranked.candidate = ranked'.candidate) :
    ranked = ranked' := by
  have hle := h.minimal ranked'.selectedProof (hsame ▸ h'.mem)
  have hge := h'.minimal ranked.selectedProof (hsame ▸ h.mem)
  have hproof := compareLexicalV2Proofs_inj (Std.OrientedCmp.isLE_antisymm hle hge)
  have hpoints := h.points
  rw [hproof, ← h'.points] at hpoints
  cases ranked
  cases ranked'
  simp_all

def LexicalV2Candidate.withProof (candidate : LexicalV2Candidate) (proof : LexicalV2Proof) :
    LexicalV2Candidate :=
  { candidate with proofs := candidate.proofs ++ [proof] }

/-- The proof a candidate shows with one proof more is no weaker. -/
theorem LexicalV2RankedCandidate.Selected.stronger {emphasis : Option QueryPublicField}
    {ranked : LexicalV2RankedCandidate} (h : ranked.Selected emphasis)
    (h' : ranked'.Selected emphasis)
    (hmore : ranked'.candidate = ranked.candidate.withProof proof) :
    (compareStrength emphasis ranked'.selectedProof ranked.selectedProof).isLE = true := by
  have hmem : ranked.selectedProof ∈ ranked'.candidate.proofs := by
    rw [hmore]
    exact mem_append_left _ h.mem
  have hle := h'.minimal _ hmem
  rw [compareLexicalV2Proofs_strength, Ordering.isLE_then_iff_and] at hle
  exact hle.1

/-- **More evidence never hurts**: a candidate that precedes another in the ranking still does so
once it has one proof more, whatever that proof is. -/
theorem rankLexicalV2_withProof {before after : List LexicalV2Candidate} {x : LexicalV2Candidate}
    {proof : LexicalV2Proof} (hx : input.candidates = before ++ x :: after)
    (hvalid : validateLexicalV2Input input = .ok ()) (hvalid' : validateLexicalV2Input
      { input with candidates := before ++ x.withProof proof :: after } = .ok ()) :
    ∃ ranked ranked', rankLexicalV2 input = .ok ranked ∧
      rankLexicalV2 { input with candidates := before ++ x.withProof proof :: after } =
        .ok ranked' ∧
      ∀ y, Precedes (ranked.map LexicalV2RankedCandidate.candidate) x y →
        Precedes (ranked'.map LexicalV2RankedCandidate.candidate) (x.withProof proof) y := by
  obtain ⟨unsorted, hrank, hcandidates, hselected, -⟩ := rankLexicalV2_ok hvalid
  obtain ⟨unsorted', hrank', hcandidates', hselected', -⟩ := rankLexicalV2_ok hvalid'
  refine ⟨_, _, hrank, hrank', fun y hprecedes => ?_⟩
  obtain ⟨pair, hpair, hmap⟩ := sublist_map_iff.mp hprecedes
  obtain ⟨rx, ry, rfl⟩ : ∃ rx ry, pair = [rx, ry] :=
    length_eq_two.mp (by simpa using (congrArg length hmap).symm)
  simp only [map_cons, map_nil, cons.injEq, and_true] at hmap
  obtain ⟨rfl, rfl⟩ := hmap
  have hrx : rx ∈ unsorted := mem_sortBy.mp (hpair.subset mem_cons_self)
  have hry : ry ∈ unsorted :=
    mem_sortBy.mp (hpair.subset (mem_cons_of_mem _ mem_cons_self))
  -- no two candidates share their identity, so the ranking has no ties
  have hnodup : (unsorted.map fun r => r.candidate.identity).Nodup := by
    have hidentities := (validateLexicalV2Input_ok.mp hvalid).2.2.2.2
    rwa [← hcandidates, map_map] at hidentities
  have hne : rx.candidate.identity ≠ ry.candidate.identity := by
    have hsorted := ((sortBy_perm compareLexicalV2Candidates unsorted).map
      fun r => r.candidate.identity).nodup_iff.mpr hnodup
    have hpairs := hsorted.sublist (hpair.map fun r => r.candidate.identity)
    simpa using hpairs
  have hlt : compareLexicalV2Candidates rx ry = .lt := by
    rcases Ordering.isLE_iff_eq_lt_or_eq_eq.mp (isLE_of_precedes hpair) with hlt | heq
    · exact hlt
    · exact absurd (compareLexicalV2Candidates_inj heq) hne
  -- the other candidate is ranked behind the proof it was ranked behind
  have hother : ry ∈ unsorted' := by
    have hmem : ry.candidate ∈ before ++ rx.candidate :: after := by
      rw [← hx, ← hcandidates]
      exact mem_map_of_mem hry
    have hmem' : ry.candidate ∈ unsorted'.map LexicalV2RankedCandidate.candidate := by
      rw [hcandidates']
      rcases mem_append.mp hmem with hbefore | hafter
      · exact mem_append_left _ hbefore
      · rcases mem_cons.mp hafter with heq | hafter
        · exact absurd (congrArg LexicalV2Candidate.identity heq).symm hne
        · exact mem_append_right _ (mem_cons_of_mem _ hafter)
    obtain ⟨ry', hry', hsame⟩ := mem_map.mp hmem'
    rwa [← (hselected' ry' hry').unique (hselected ry hry) hsame]
  obtain ⟨rx', hrx', hmore⟩ : ∃ r ∈ unsorted', r.candidate = rx.candidate.withProof proof := by
    refine mem_map.mp ?_
    rw [hcandidates']
    exact mem_append_right _ mem_cons_self
  have hstronger := (hselected rx hrx).stronger (hselected' rx' hrx') hmore
  have hidentity : compareIdentities rx'.candidate ry.candidate =
      compareIdentities rx.candidate ry.candidate := by
    rw [hmore]
    rfl
  have hlt' := compareLexicalV2Candidates_of_stronger (hselected rx hrx) (hselected' rx' hrx')
    (hselected ry hry) hidentity hstronger hlt
  have hranked := (precedes_of_lt hrx' hother hlt').map LexicalV2RankedCandidate.candidate
  rw [map_cons, hmore] at hranked
  exact hranked

end Ranking

/-! ## §7 Two candidates in either order -/

def rankedSource (key : Char) : QualifiedSourceId := ⟨['d'], [key]⟩

/-- One candidate with a partial proof alone, and one with a standard proof as well. -/
def rankedPair : List LexicalV2Candidate :=
  [⟨rankedSource 'a', ['c'], ['p'], [⟨.title, .partialCoverage, 0, ⟨1065353216⟩, 0⟩]⟩,
    ⟨rankedSource 'b', ['c'], ['p'], [⟨.body, .partialCoverage, 0, ⟨1065353216⟩, 0⟩,
      ⟨.body, .allTerms, 0, ⟨1073741824⟩, 0⟩]⟩]

def rankedInput (candidates : List LexicalV2Candidate) : LexicalV2RankInput :=
  ⟨2, lexicalV2ProfileId, 1, some .title, candidates⟩

/-- The ranking of the two candidates, which does not depend on their order. -/
theorem rankedPair_canonical : ∃ ranked ranked', rankLexicalV2 (rankedInput rankedPair) = .ok ranked ∧
    rankLexicalV2 (rankedInput rankedPair.reverse) = .ok ranked' ∧
    (ranked.map LexicalV2RankedCandidate.candidate).Perm rankedPair ∧
    ranked'.map LexicalV2RankedCandidate.outcome = ranked.map LexicalV2RankedCandidate.outcome := by
  have hvalid : validateLexicalV2Input (rankedInput rankedPair) = .ok () := by rfl
  have hsame : (rankedInput rankedPair).Rearranges (rankedInput rankedPair.reverse) :=
    ⟨rfl, rankedPair.reverse, (reverse_perm _).symm,
      forall₂_same.mpr fun _ _ => ⟨rfl, .refl _⟩⟩
  obtain ⟨ranked, hrank, hperm, -, -, horder⟩ := rankLexicalV2_canonical hvalid
  obtain ⟨ranked', hrank', houtcomes⟩ := horder _ hsame
  exact ⟨ranked, ranked', hrank, hrank', hperm, houtcomes⟩

def rankedExact : LexicalV2Proof := ⟨.filename, .exact, 0, ⟨0⟩, 0⟩

/-- The candidate with the standard proof goes first, and stays there with an exact match too. -/
theorem rankedPair_withProof : ∃ x ∈ rankedPair, ∃ y ∈ rankedPair, ∃ ranked ranked',
    rankLexicalV2 (rankedInput rankedPair) = .ok ranked ∧
    rankLexicalV2 (rankedInput [y, x.withProof rankedExact]) = .ok ranked' ∧
    Precedes (ranked.map LexicalV2RankedCandidate.candidate) x y ∧
    Precedes (ranked'.map LexicalV2RankedCandidate.candidate) (x.withProof rankedExact) y := by
  let y := rankedPair[0]
  let x := rankedPair[1]
  have hfirst : rankLexicalV2 (rankedInput rankedPair) =
      .ok [⟨x, ⟨.body, .allTerms, 0, ⟨1073741824⟩, 0⟩, 45⟩,
        ⟨y, ⟨.title, .partialCoverage, 0, ⟨1065353216⟩, 0⟩, 35⟩] := by rfl
  obtain ⟨ranked, ranked', hrank, hrank', hkeep⟩ :=
    @rankLexicalV2_withProof (rankedInput rankedPair) [y] [] x rankedExact rfl rfl rfl
  obtain rfl : ranked = _ := Except.ok.inj (hrank.symm.trans hfirst)
  have hprecedes := List.Sublist.refl [x, y]
  exact ⟨x, by decide, y, by decide, _, ranked', hrank, hrank', hprecedes, hkeep y hprecedes⟩

end Kwiry
