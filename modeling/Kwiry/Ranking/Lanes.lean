import Kwiry.Query.Expansion
import Kwiry.Ranking.LexicalV2

/-!
# Lanes of a Plan

`lexical_v2_lanes`: a ready plan is searched lane by lane. A stage has one lane for each proof field
its declared fields stand for, and one across fields where several fields together can meet it.
Lanes run from the strongest evidence to the weakest.

The order of the lanes follows the ladder where the order of proofs follows their kinds. The two
agree but for the stage on prefix metadata, which stands before the stage on all terms although
its proofs come after.
-/

namespace Kwiry

open Foundations List

variable {plan : LexicalQueryPlan}

/-! ## §1 Lanes -/

def lexicalV2ProofField : QueryField → Option LexicalV2ProofField
  | .filename | .stem => some .filename
  | .aliases => some .alias
  | .title => some .title
  | .heading => some .heading
  | .tags => some .tag
  | .content | .contentIdentifiers => some .body

def lexicalV2ProofKind (crossField : Bool) : QueryEvidenceStageKind → LexicalV2ProofKind
  | .exactMetadata => .exact
  | .exactPhrase => .phrase
  | .allTerms => if crossField then .crossFieldAllTerms else .allTerms
  | .prefixMetadata | .prefixes => .prefixAssisted
  | .partialCoverage => .partialCoverage

def setDeclaredFields (plan : LexicalQueryPlan) (group : QueryFieldGroup)
    (fields : List QueryField) : LexicalQueryPlan :=
  let groups := plan.fieldGroups
  { plan with
    fieldGroups := match group with
      | .searchableText => { groups with searchableText := fields }
      | .metadata => { groups with metadata := fields }
      | .exact => { groups with exact := fields }
      | .phrase => { groups with phrase := fields }
      | .prefixes => { groups with prefixes := fields }
      | .prefixMetadata => { groups with prefixMetadata := fields } }

structure LexicalV2Lane where
  ordinal : ℕ
  field : LexicalV2ProofField
  kind : LexicalV2ProofKind
  plan : LexicalQueryPlan
  stage : QueryEvidenceStage
  deriving DecidableEq

/-- The proof fields that query fields stand for, in their order. -/
def singleProofFields : List LexicalV2ProofField :=
  [.filename, .title, .alias, .heading, .tag, .body]

/-- Declared fields under the proof fields they stand for. -/
def fieldsByProofField (declared : List QueryField) :
    List (LexicalV2ProofField × List QueryField) :=
  singleProofFields.filterMap fun field =>
    match declared.filter fun candidate => lexicalV2ProofField candidate = some field with
    | [] => none
    | fields => some (field, fields)

section

variable (plan : LexicalQueryPlan) (stage : QueryEvidenceStage)

/-- The plan a lane of one field is compiled from. -/
def lanePlan (fields : List QueryField) : LexicalQueryPlan :=
  let plan := setDeclaredFields plan stage.fieldGroup fields
  let plan := match stage.kind with
    | .prefixMetadata | .prefixes => setDeclaredFields plan .searchableText fields
    | _ => plan
  match stage.kind with
  | .exactMetadata => setDeclaredFields plan .exact fields
  | _ => plan

def fieldLane (entry : LexicalV2ProofField × List QueryField) : LexicalV2Lane :=
  ⟨0, entry.1, lexicalV2ProofKind false stage.kind, lanePlan plan stage entry.2, stage⟩

def crossLane : LexicalV2Lane :=
  ⟨0, .crossField, lexicalV2ProofKind true stage.kind, plan, stage⟩

def stageLanes : List LexicalV2Lane :=
  let byField := fieldsByProofField (declaredFields plan stage.fieldGroup)
  byField.map (fieldLane plan stage) ++
    if 1 < byField.length ∧ (stage.kind = .allTerms ∨ stage.kind = .partialCoverage) then
      [crossLane plan stage]
    else []

end

/-- The evidence points of the proofs of a lane. -/
def LexicalV2Lane.points (emphasis : Option QueryPublicField) (lane : LexicalV2Lane) : ℤ :=
  lexicalV2EvidencePoints ⟨lane.field, lane.kind, 0, ⟨0⟩, 0⟩ emphasis

def compareLanes (emphasis : Option QueryPublicField) (left right : LexicalV2Lane) : Ordering :=
  (compare left.kind.isPartial right.kind.isPartial).then <|
  (compare (right.points emphasis) (left.points emphasis)).then <|
  (compare left.stage.ordinal right.stage.ordinal).then <|
  compare left.field right.field

instance (emphasis : Option QueryPublicField) : Std.TransCmp (compareLanes emphasis) := by
  have hlex : compareLanes emphasis =
      compareLex (compareOn fun lane => lane.kind.isPartial) (compareLex
        (fun a b => compareOn (LexicalV2Lane.points emphasis) b a) (compareLex
        (compareOn fun lane => lane.stage.ordinal) (compareOn LexicalV2Lane.field))) := rfl
  rw [hlex]
  infer_instance

def unorderedLanes (plan : LexicalQueryPlan) : List LexicalV2Lane :=
  plan.evidenceStages.flatMap (stageLanes plan)

def lexicalV2Lanes (plan : LexicalQueryPlan) : Except NativeSearchError (List LexicalV2Lane) := do
  let lanes := sortBy (compareLanes plan.emphasis) (unorderedLanes plan)
  rejectIf (maxLexicalV2Lanes < lanes.length)
    (.query "lexical-v2 lane count exceeds its bound".toList)
  return lanes.mapIdx fun ordinal lane => { lane with ordinal := ordinal % 2 ^ 8 }

/-! ## §2 What lanes there are -/

/-- What a lane has from its stage. -/
structure LexicalV2Lane.Of (plan : LexicalQueryPlan) (lane : LexicalV2Lane) : Prop where
  stage : lane.stage ∈ plan.evidenceStages
  kind : lane.kind = lexicalV2ProofKind (decide (lane.field = .crossField)) lane.stage.kind
  crossField : lane.field = .crossField →
    lane.stage.kind = .allTerms ∨ lane.stage.kind = .partialCoverage

lemma fst_fieldsByProofField_sublist (declared : List QueryField) :
    ((fieldsByProofField declared).map Prod.fst).Sublist singleProofFields := by
  unfold fieldsByProofField
  induction singleProofFields with
  | nil => exact .slnil
  | cons field rest ih =>
    rw [filterMap_cons]
    split
    · exact ih.cons _
    · next entry hentry =>
      have hfst : entry.1 = field := by
        split at hentry <;> cases hentry
        rfl
      rw [map_cons, hfst]
      exact ih.cons_cons _

lemma fst_ne_crossField {declared : List QueryField} {entry}
    (h : entry ∈ fieldsByProofField declared) : entry.1 ≠ .crossField := by
  intro heq
  have hfst := (fst_fieldsByProofField_sublist declared).subset (mem_map_of_mem h)
  rw [heq] at hfst
  exact absurd hfst (by decide)

variable {a b lane : LexicalV2Lane}

lemma mem_stageLanes {stage : QueryEvidenceStage} (h : lane ∈ stageLanes plan stage)
    (hstage : stage ∈ plan.evidenceStages) :
    lane.Of plan ∧ lane.ordinal = 0 ∧ lane.stage = stage := by
  rcases mem_append.mp h with h | h
  · obtain ⟨entry, hentry, rfl⟩ := mem_map.mp h
    have hcross : (fieldLane plan stage entry).field ≠ .crossField := fst_ne_crossField hentry
    refine ⟨⟨hstage, ?_, fun heq => absurd heq hcross⟩, rfl, rfl⟩
    rw [decide_eq_false hcross]
    rfl
  · split at h
    · next hcross =>
      obtain rfl := mem_singleton.mp h
      exact ⟨⟨hstage, rfl, fun _ => hcross.2⟩, rfl, rfl⟩
    · cases h

lemma mem_unorderedLanes (h : lane ∈ unorderedLanes plan) : lane.Of plan ∧ lane.ordinal = 0 := by
  obtain ⟨stage, hstage, hlane⟩ := mem_flatMap.mp h
  obtain ⟨hof, hordinal, -⟩ := mem_stageLanes hlane hstage
  exact ⟨hof, hordinal⟩

/-- Every declared field of a stage has a lane. -/
theorem exists_fieldLane {stage : QueryEvidenceStage} {declared : QueryField}
    {field : LexicalV2ProofField} (hdeclared : declared ∈ declaredFields plan stage.fieldGroup)
    (hfield : lexicalV2ProofField declared = some field) :
    ∃ lane ∈ stageLanes plan stage, lane.field = field ∧
      lane.kind = lexicalV2ProofKind false stage.kind := by
  have hsingle : field ∈ singleProofFields := by
    cases declared <;> cases hfield <;> decide
  have hentry : ∃ fields, (field, fields) ∈
      fieldsByProofField (declaredFields plan stage.fieldGroup) := by
    cases hfields : (declaredFields plan stage.fieldGroup).filter fun candidate =>
        lexicalV2ProofField candidate = some field with
    | nil =>
      have hnone := filter_eq_nil_iff.mp hfields declared hdeclared
      simp [hfield] at hnone
    | cons first rest =>
      refine ⟨first :: rest, mem_filterMap.mpr ⟨field, hsingle, ?_⟩⟩
      simp only [hfields]
  obtain ⟨fields, hentry⟩ := hentry
  exact ⟨fieldLane plan stage (field, fields), mem_append_left _ (mem_map_of_mem hentry), rfl, rfl⟩

lemma length_stageLanes_le (plan : LexicalQueryPlan) (stage : QueryEvidenceStage) :
    (stageLanes plan stage).length ≤ 7 := by
  have hfields := (fst_fieldsByProofField_sublist (declaredFields plan stage.fieldGroup)).length_le
  rw [length_map] at hfields
  simp only [stageLanes, length_append, length_map]
  split
  · exact Nat.add_le_add hfields le_rfl
  · exact hfields.trans (by decide)

lemma unorderedLanes_distinct (h : (plan.evidenceStages.map (·.ordinal)).Nodup) :
    (unorderedLanes plan).Pairwise fun a b =>
      a.stage.ordinal ≠ b.stage.ordinal ∨ a.field ≠ b.field := by
  refine pairwise_flatMap.mpr ⟨fun stage _ => ?_, ?_⟩
  · have hsingle : singleProofFields.Nodup := by decide
    have hfields := hsingle.sublist
      (fst_fieldsByProofField_sublist (declaredFields plan stage.fieldGroup))
    refine pairwise_append.mpr ⟨?_, ?_, ?_⟩
    · refine pairwise_map.mpr ((pairwise_map.mp hfields).imp fun {a b} hne => ?_)
      exact .inr hne
    · split
      · exact pairwise_singleton _ _
      · exact Pairwise.nil
    · intro a ha b hb
      obtain ⟨entry, hentry, rfl⟩ := mem_map.mp ha
      split at hb
      · obtain rfl := mem_singleton.mp hb
        exact .inr (fst_ne_crossField hentry)
      · cases hb
  · rw [nodup_iff_pairwise_ne, pairwise_map] at h
    refine h.imp_of_mem fun {s s'} hs hs' hne a ha b hb => .inl ?_
    rwa [(mem_stageLanes ha hs).2.2, (mem_stageLanes hb hs').2.2]

/-! ## §3 Stronger lanes first -/

/-- Any proof of the one lane is better than any proof of the other. -/
def LexicalV2Lane.Stronger (emphasis : Option QueryPublicField) (left right : LexicalV2Lane) :
    Prop :=
  (compare left.kind.isPartial right.kind.isPartial).then
    ((compare (right.points emphasis) (left.points emphasis)).then
      ((compare left.kind right.kind).then (compare left.field right.field))) = .lt

variable {emphasis : Option QueryPublicField} {lanes : List LexicalV2Lane}

lemma LexicalV2Lane.Stronger.proofs {left right : LexicalV2Lane}
    (h : left.Stronger emphasis right) {p q : LexicalV2Proof}
    (hp : p.field = left.field ∧ p.kind = left.kind)
    (hq : q.field = right.field ∧ q.kind = right.kind) :
    compareLexicalV2Proofs emphasis p q = .lt := by
  have hpoints : ∀ (lane : LexicalV2Lane) (p : LexicalV2Proof),
      p.field = lane.field ∧ p.kind = lane.kind →
      lexicalV2EvidencePoints p emphasis = lane.points emphasis := by
    rintro lane p ⟨hfield, hkind⟩
    simp only [lexicalV2EvidencePoints, LexicalV2Lane.points, hfield, hkind]
  unfold LexicalV2Lane.Stronger at h
  rw [compareLexicalV2Proofs, hpoints left p hp, hpoints right q hq, hp.1, hp.2, hq.1, hq.2]
  simp only [← Ordering.then_assoc] at h ⊢
  rw [h]
  rfl

lemma kind_points_le_points (emphasis : Option QueryPublicField) (lane : LexicalV2Lane) :
    lane.kind.points ≤ lane.points emphasis := by
  have hfield : 0 ≤ lane.field.points := by
    cases lane.field <;> decide
  have hemphasis : lexicalV2EmphasisPoints = 10 := rfl
  unfold LexicalV2Lane.points lexicalV2EvidencePoints
  dsimp only
  split_ifs <;> omega

/-- The stages of a plan, from the strongest kind to the weakest. -/
structure StagesRanked (plan : LexicalQueryPlan) : Prop where
  ordinals : plan.evidenceStages.map (·.ordinal) = range plan.evidenceStages.length
  kinds : (plan.evidenceStages.map (·.kind.rank)).Pairwise (· < ·)

lemma ReadyPlan.stagesRanked (h : ReadyPlan plan) : StagesRanked plan := by
  refine ⟨h.stages.ordinals_eq h.bounds, ?_⟩
  have hkinds := expectedKinds_pairwise plan
  rwa [← h.stages.kinds, map_map] at hkinds

namespace StagesRanked

variable {stage : QueryEvidenceStage}

section

variable (h : StagesRanked plan) (hstage : stage ∈ plan.evidenceStages)

include h hstage

lemma getElem?_ordinal : plan.evidenceStages[stage.ordinal]? = some stage := by
  obtain ⟨i, hi⟩ := mem_iff_getElem?.mp hstage
  have hlt := (List.getElem?_eq_some_iff.mp hi).1
  have hordinal : (plan.evidenceStages.map (·.ordinal))[i]? = some stage.ordinal := by
    rw [List.getElem?_map, hi]
    rfl
  rw [h.ordinals, getElem?_range hlt] at hordinal
  rwa [← Option.some.inj hordinal]

variable {stage' : QueryEvidenceStage}

lemma eq_of_ordinal (hstage' : stage' ∈ plan.evidenceStages)
    (heq : stage.ordinal = stage'.ordinal) : stage = stage' := by
  have hget := h.getElem?_ordinal hstage
  rw [heq, h.getElem?_ordinal hstage'] at hget
  exact (Option.some.inj hget).symm

lemma rank_lt_of_ordinal_lt (hstage' : stage' ∈ plan.evidenceStages)
    (hlt : stage.ordinal < stage'.ordinal) : stage.kind.rank < stage'.kind.rank := by
  obtain ⟨hi, hget⟩ := List.getElem?_eq_some_iff.mp (h.getElem?_ordinal hstage)
  obtain ⟨hj, hget'⟩ := List.getElem?_eq_some_iff.mp (h.getElem?_ordinal hstage')
  have hpair := pairwise_iff_getElem.mp h.kinds stage.ordinal stage'.ordinal
    (by simpa using hi) (by simpa using hj) hlt
  simpa [hget, hget'] using hpair

lemma ordinal_lt_of_rank_lt (hstage' : stage' ∈ plan.evidenceStages)
    (hlt : stage.kind.rank < stage'.kind.rank) : stage.ordinal < stage'.ordinal := by
  rcases Nat.lt_trichotomy stage.ordinal stage'.ordinal with hless | heq | hgreater
  · exact hless
  · rw [h.eq_of_ordinal hstage hstage' heq] at hlt
    exact absurd hlt (lt_irrefl _)
  · exact absurd (h.rank_lt_of_ordinal_lt hstage' hstage hgreater) hlt.not_gt

end

lemma ordinals_nodup (h : StagesRanked plan) : (plan.evidenceStages.map (·.ordinal)).Nodup := by
  rw [h.ordinals]
  exact nodup_range

end StagesRanked

/-- Of two lanes with as many points the one of the stronger stage has the stronger kind, unless
that stage is the one on prefix metadata. -/
theorem kind_lt_of_rank_lt (ha : a.Of plan) (hb : b.Of plan)
    (hrank : a.stage.kind.rank < b.stage.kind.rank) (hmetadata : a.stage.kind ≠ .prefixMetadata)
    (hmetadata' : b.stage.kind ≠ .prefixMetadata) (hpart : a.kind.isPartial = b.kind.isPartial)
    (hpoints : a.points emphasis = b.points emphasis) : compare a.kind b.kind = .lt := by
  -- all terms across fields are worth less than any term extended
  have hcross : ¬ (a.field = .crossField ∧ a.stage.kind = .allTerms ∧ b.stage.kind = .prefixes) := by
    rintro ⟨hfield, hall, hprefixes⟩
    have hbound := kind_points_le_points emphasis b
    rw [hb.kind, hprefixes, ← hpoints] at hbound
    have hfew : a.points emphasis = 25 := by
      unfold LexicalV2Lane.points
      rw [ha.kind, hall, hfield]
      rcases emphasis with _ | field
      · rfl
      · cases field <;> rfl
    rw [hfew] at hbound
    exact absurd (show (45 : ℤ) ≤ 25 from hbound) (by decide)
  rw [ha.kind, hb.kind] at hpart ⊢
  cases hkind : a.stage.kind <;> cases hkind' : b.stage.kind <;>
    simp only [hkind, hkind', ne_eq, not_true_eq_false] at hrank hmetadata hmetadata' hpart hcross ⊢ <;>
    first
    | exact absurd hrank (by decide)
    | rfl
    | (by_cases hfield : a.field = .crossField <;> by_cases hfield' : b.field = .crossField <;>
        simp_all [lexicalV2ProofKind, LexicalV2ProofKind.isPartial] <;> rfl)

/-- Without a stage on prefix metadata the order of the lanes is that of their proofs. -/
theorem stronger_of_compareLanes (h : StagesRanked plan)
    (hmetadata : ∀ stage ∈ plan.evidenceStages, stage.kind ≠ .prefixMetadata) (ha : a.Of plan)
    (hb : b.Of plan) (hle : (compareLanes emphasis a b).isLE = true)
    (hdistinct : a.stage.ordinal ≠ b.stage.ordinal ∨ a.field ≠ b.field) :
    a.Stronger emphasis b := by
  unfold compareLanes at hle
  unfold LexicalV2Lane.Stronger
  cases hpart : compare a.kind.isPartial b.kind.isPartial with
  | lt => rfl
  | gt => simp [hpart] at hle
  | eq =>
    rw [hpart, Ordering.eq_then] at hle
    rw [Ordering.eq_then]
    cases hpoints : compare (b.points emphasis) (a.points emphasis) with
    | lt => rfl
    | gt => simp [hpoints] at hle
    | eq =>
      rw [hpoints, Ordering.eq_then] at hle
      rw [Ordering.eq_then]
      have hpart := Std.LawfulEqOrd.eq_of_compare hpart
      have hpoints := (Std.LawfulEqOrd.eq_of_compare hpoints).symm
      cases hordinal : compare a.stage.ordinal b.stage.ordinal with
      | lt =>
        have hlt := Nat.compare_eq_lt.mp hordinal
        rw [kind_lt_of_rank_lt ha hb (h.rank_lt_of_ordinal_lt ha.stage hb.stage hlt)
          (hmetadata _ ha.stage) (hmetadata _ hb.stage) hpart hpoints]
        rfl
      | gt => simp [hordinal] at hle
      | eq =>
        -- two lanes of one stage; the one across fields is the last
        have heq := Nat.compare_eq_eq.mp hordinal
        have hstage := h.eq_of_ordinal ha.stage hb.stage heq
        have hne := hdistinct.resolve_left (not_not.mpr heq)
        rw [hordinal, Ordering.eq_then] at hle
        have hfield : compare a.field b.field = .lt := by
          rcases Ordering.isLE_iff_eq_lt_or_eq_eq.mp hle with hlt | hsame
          · exact hlt
          · exact absurd (Std.LawfulEqOrd.eq_of_compare hsame) hne
        have hlast : a.field ≠ .crossField := by
          rintro hcross
          rw [hcross] at hfield
          cases hb' : b.field <;> rw [hb'] at hfield <;> cases hfield
        have hkind : (compare a.kind b.kind).isLE = true := by
          rw [ha.kind, hb.kind, decide_eq_false hlast, hstage]
          cases b.stage.kind <;> cases decide (b.field = .crossField) <;> rfl
        rcases Ordering.isLE_iff_eq_lt_or_eq_eq.mp hkind with hlt | hsame
        · rw [hlt]
          rfl
        · rw [hsame]
          exact hfield

lemma lexicalV2Lanes_ok (h : lexicalV2Lanes plan = .ok lanes) :
    lanes.map (fun lane => { lane with ordinal := 0 }) =
        sortBy (compareLanes plan.emphasis) (unorderedLanes plan) ∧
      lanes.map (·.ordinal) = range lanes.length ∧ lanes.length ≤ maxLexicalV2Lanes := by
  simp only [lexicalV2Lanes, bind_unit_ok_iff, rejectIf_ok, not_lt, pure, Except.pure,
    Except.ok.injEq] at h
  obtain ⟨hcount, rfl⟩ := h
  have hlength : (sortBy (compareLanes plan.emphasis) (unorderedLanes plan)).length < 2 ^ 8 :=
    lt_of_le_of_lt hcount (by decide)
  refine ⟨?_, ?_, by simpa using hcount⟩
  · refine ext_getElem (by simp) fun i hi hi' => ?_
    simp only [getElem_map, getElem_mapIdx]
    have hzero : ∀ lane : LexicalV2Lane, lane.ordinal = 0 → { lane with ordinal := 0 } = lane := by
      rintro ⟨⟩ rfl
      rfl
    exact hzero _ (mem_unorderedLanes (mem_sortBy.mp (getElem_mem hi'))).2
  · refine ext_getElem (by simp) fun i hi hi' => ?_
    simp only [getElem_map, getElem_mapIdx, getElem_range]
    rw [length_map, length_mapIdx] at hi
    exact Nat.mod_eq_of_lt (hi.trans hlength)

lemma of_mem_lexicalV2Lanes (h : lexicalV2Lanes plan = .ok lanes) (hlane : lane ∈ lanes) :
    lane.Of plan := by
  have hmem : { lane with ordinal := 0 } ∈ unorderedLanes plan := by
    have hsorted := mem_map_of_mem (f := fun lane => { lane with ordinal := 0 }) hlane
    rw [(lexicalV2Lanes_ok h).1] at hsorted
    exact mem_sortBy.mp hsorted
  obtain ⟨⟨hstage, hkind, hcross⟩, -⟩ := mem_unorderedLanes hmem
  exact ⟨hstage, hkind, hcross⟩

/-- **Stronger lanes run first**, in a plan without a stage on prefix metadata. -/
theorem lanes_pairwise_stronger (h : StagesRanked plan)
    (hmetadata : ∀ stage ∈ plan.evidenceStages, stage.kind ≠ .prefixMetadata)
    (hlanes : lexicalV2Lanes plan = .ok lanes) :
    lanes.Pairwise (LexicalV2Lane.Stronger plan.emphasis) := by
  have hsorted := pairwise_sortBy (compareLanes plan.emphasis) (unorderedLanes plan)
  have hdistinct := (sortBy_perm (compareLanes plan.emphasis) (unorderedLanes plan)).symm.pairwise
    (unorderedLanes_distinct h.ordinals_nodup) fun {a b} hne => hne.imp Ne.symm Ne.symm
  have hpairs := hsorted.and hdistinct
  rw [← (lexicalV2Lanes_ok hlanes).1, pairwise_map] at hpairs
  refine hpairs.imp_of_mem fun {a b} ha hb hab => ?_
  have ha := of_mem_lexicalV2Lanes hlanes ha
  have hb := of_mem_lexicalV2Lanes hlanes hb
  exact stronger_of_compareLanes h hmetadata ha hb hab.1 hab.2

/-! ## §4 Three lanes of a plan -/

lemma compareLanes_of_rank_lt (h : StagesRanked plan) (ha : a.Of plan) (hb : b.Of plan)
    (hpart : a.kind.isPartial = b.kind.isPartial) (hpoints : a.points emphasis = b.points emphasis)
    (hrank : a.stage.kind.rank < b.stage.kind.rank) : compareLanes emphasis a b = .lt := by
  have hordinal := h.ordinal_lt_of_rank_lt ha.stage hb.stage hrank
  simp only [compareLanes, hpart, hpoints, Std.ReflOrd.compare_self, Ordering.eq_then,
    Nat.compare_eq_lt.mpr hordinal]
  rfl

/-- A lane at its place, for a lane of a stage. -/
structure LexicalV2Lane.Placed (lane placed : LexicalV2Lane) : Prop where
  field : placed.field = lane.field
  kind : placed.kind = lane.kind
  stage : placed.stage = lane.stage

/-- **Where three lanes stand.** -/
theorem exists_lanes_split (hlanes : lexicalV2Lanes plan = .ok lanes) {c : LexicalV2Lane}
    (ha : a ∈ unorderedLanes plan) (hb : b ∈ unorderedLanes plan) (hc : c ∈ unorderedLanes plan)
    (hab : compareLanes plan.emphasis a b = .lt) (hbc : compareLanes plan.emphasis b c = .lt) :
    ∃ a' b' c' l₁ l₂ l₃ l₄, a.Placed a' ∧ b.Placed b' ∧ c.Placed c' ∧
      lanes = (l₁ ++ a' :: l₂) ++ b' :: (l₃ ++ c' :: l₄) := by
  obtain ⟨l₁, l₂, l₃, l₄, hsplit⟩ := sortBy_split ha hb hc hab hbc
  rw [← (lexicalV2Lanes_ok hlanes).1, map_eq_append_iff] at hsplit
  obtain ⟨left, right, rfl, hleft, hright⟩ := hsplit
  obtain ⟨m₁, left', rfl, -, hleft⟩ := map_eq_append_iff.mp hleft
  obtain ⟨a', m₂, rfl, ha', -⟩ := map_eq_cons_iff.mp hleft
  obtain ⟨b', right', rfl, hb', hright⟩ := map_eq_cons_iff.mp hright
  obtain ⟨m₃, right'', rfl, -, hright⟩ := map_eq_append_iff.mp hright
  obtain ⟨c', m₄, rfl, hc', -⟩ := map_eq_cons_iff.mp hright
  have hplaced : ∀ {lane placed : LexicalV2Lane}, { placed with ordinal := 0 } = lane →
      lane.Placed placed := by
    rintro lane placed rfl
    exact ⟨rfl, rfl, rfl⟩
  exact ⟨a', b', c', m₁, m₂, m₃, m₄, hplaced ha', hplaced hb', hplaced hc', rfl⟩

lemma exists_lexicalV2Lanes (h : plan.evidenceStages.length ≤ maxEvidenceStages) :
    ∃ lanes, lexicalV2Lanes plan = .ok lanes := by
  have hlength : (unorderedLanes plan).length ≤ maxLexicalV2Lanes := by
    have hsum : (unorderedLanes plan).length ≤ 7 * plan.evidenceStages.length := by
      unfold unorderedLanes
      induction plan.evidenceStages with
      | nil => rfl
      | cons stage rest ih =>
        rw [flatMap_cons, length_append, length_cons]
        have hstage := length_stageLanes_le plan stage
        omega
    exact hsum.trans (Nat.mul_le_mul_left 7 h)
  have hsorted : ¬ maxLexicalV2Lanes <
      (sortBy (compareLanes plan.emphasis) (unorderedLanes plan)).length := by
    rw [(sortBy_perm _ _).length_eq]
    exact not_lt.mpr hlength
  simp only [lexicalV2Lanes]
  rw [(rejectIf_ok (u := ())).mpr hsorted]
  exact ⟨_, rfl⟩

end Kwiry
