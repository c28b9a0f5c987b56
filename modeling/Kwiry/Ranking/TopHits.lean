import Kwiry.Foundations.TopItems
import Kwiry.Ranking.CollectorAgreement

/-!
# Collecting the Best Documents

A lane of the native engine scores the documents of every segment of every partition. A segment
keeps its best documents, a partition merges its segments, and the lane merges its partitions; each
of the three keeps no more than the lane's limit. What is read of a scored document, or why it could
not be read, is given.
-/

namespace Kwiry

open Foundations List

variable {D : Type}

/-! ## §1 Segments -/

/-- A scored document; `document` is what else is stored of it. -/
structure RankedDocument (D : Type) where
  score : F32
  (chunkId path : Text)
  document : D
  deriving DecidableEq

def RankedDocument.key (document : RankedDocument D) : Text × Text :=
  (document.chunkId, document.path)

def compareRankedDocuments (left right : RankedDocument D) : Ordering :=
  (F32.totalCmp right.score left.score).then <|
  (compare left.chunkId right.chunkId).then <|
  compare left.path right.path

def insertBoundedDocument (limit : ℕ) :
    List (RankedDocument D) → RankedDocument D → List (RankedDocument D) :=
  insertBounded compareRankedDocuments limit

structure StableCollectorFruit (D : Type) where
  documents : List (RankedDocument D)
  error : Option Text

/-- A segment takes one scored document; after an error it takes no more. -/
def collectDocument (limit : ℕ) (fruit : StableCollectorFruit D)
    (loaded : Except Text (RankedDocument D)) : StableCollectorFruit D :=
  if fruit.error.isSome ∨ limit = 0 then fruit
  else match loaded with
    | .error error => { fruit with error := some error }
    | .ok document => { fruit with documents := insertBoundedDocument limit fruit.documents document }

def collectSegment (limit : ℕ) (documents : List (Except Text (RankedDocument D))) :
    StableCollectorFruit D :=
  documents.foldl (collectDocument limit) ⟨[], none⟩

/-! ## §2 Partitions -/

def mergeFruits (limit : ℕ) (fruits : List (StableCollectorFruit D)) :
    Except Text (List (RankedDocument D)) :=
  fruits.foldlM
    (fun documents fruit =>
      match fruit.error with
      | some error => .error error
      | none => .ok (fruit.documents.foldl (insertBoundedDocument limit) documents))
    []

/-- A hit with its source and its proofs, whatever characters its keys consist of. -/
structure ScoredHit (D : Type) where
  source : QualifiedSourceId
  hit : RankedDocument D
  proofs : List LexicalV2Proof

def ScoredHit.identity (hit : ScoredHit D) : QualifiedSourceId × Text × Text :=
  (hit.source, hit.hit.chunkId, hit.hit.path)

/-- What is searched of one authorization scope: its segments, each with its scored documents. -/
structure ScoredPartition (D : Type) where
  scope : Text
  segments : List (List (Except Text (RankedDocument D)))

/-- The hits of one partition for one lane. -/
def ScoredPartition.hits (sourceKey : D → Text) (lane : CollectorLane) (limit : ℕ)
    (partition : ScoredPartition D) : Except Text (List (ScoredHit D)) := do
  let documents ← mergeFruits limit (partition.segments.map (collectSegment limit))
  return documents.zipIdx.map fun (ranked, engineOrdinal) =>
    { source := ⟨partition.scope, sourceKey ranked.document⟩
      hit := ranked
      proofs := [⟨lane.field, lane.kind, lane.ordinal, ranked.score, engineOrdinal % 65536⟩] }

/-! ## §3 Lanes -/

/-- `merge_bounded_lexical_v2_hits`, for hits whose keys are any texts. -/
def ScoredHit.mergeBounded (target incoming : List (ScoredHit D)) (limit : ℕ) : List (ScoredHit D) :=
  (retainFirst ScoredHit.identity []
    (sortBy (fun left right => compareRankedDocuments left.hit right.hit)
      (target ++ incoming))).take limit

/-- A hit of the collectors, without what is known of the characters of its keys. -/
def NativeLexicalV2Hit.scored {P : Type} (hit : NativeLexicalV2Hit P) : ScoredHit (Text × P) :=
  ⟨hit.source, ⟨hit.hit.score, hit.hit.chunkId, hit.hit.path, (hit.hit.sourceKey, hit.hit.stored)⟩,
    hit.proofs⟩

lemma retainFirst_map {α β K : Type} [DecidableEq K] {key : α → K} {key' : β → K} (f : α → β)
    (h : ∀ a, key' (f a) = key a) (seen : List K) (items : List α) :
    (retainFirst key seen items).map f = retainFirst key' seen (items.map f) := by
  induction items generalizing seen with
  | nil => rfl
  | cons a rest ih =>
    rw [map_cons, retainFirst, retainFirst, h]
    split
    · exact ih seen
    · rw [map_cons, ih]

/-- Both merges of hits are one. -/
theorem mergeBoundedLexicalV2Hits_scored {P : Type} (target incoming : List (NativeLexicalV2Hit P))
    (limit : ℕ) :
    (mergeBoundedLexicalV2Hits target incoming limit).map NativeLexicalV2Hit.scored =
      ScoredHit.mergeBounded (target.map NativeLexicalV2Hit.scored)
        (incoming.map NativeLexicalV2Hit.scored) limit := by
  have hidentity : ∀ hit : NativeLexicalV2Hit P, hit.scored.identity = hit.identity := fun _ => rfl
  rw [mergeBoundedLexicalV2Hits, ScoredHit.mergeBounded, map_take, ← map_append,
    retainFirst_map NativeLexicalV2Hit.scored hidentity]
  refine congrArg (fun hits => (retainFirst ScoredHit.identity [] hits).take limit) ?_
  exact sortBy_map NativeLexicalV2Hit.scored fun _ _ _ _ => rfl

/-- The hits of one lane over all partitions. -/
def collectLaneHits (sourceKey : D → Text) (lane : CollectorLane) (limit : ℕ)
    (partitions : List (ScoredPartition D)) : Except Text (List (ScoredHit D)) :=
  partitions.foldlM
    (fun laneHits partition => do
      let partitionHits ← partition.hits sourceKey lane limit
      return ScoredHit.mergeBounded laneHits partitionHits limit)
    []

/-! ## §4 What is collected -/

instance : Std.TransCmp (compareRankedDocuments (D := D)) := by
  have hlex : compareRankedDocuments (D := D) =
      compareLex (fun a b => F32.totalCmp b.score a.score)
        (compareLex (compareOn RankedDocument.chunkId) (compareOn RankedDocument.path)) := rfl
  have hup : Std.TransCmp fun a b : RankedDocument D => F32.totalCmp a.score b.score :=
    transCmp_comap F32.totalCmp RankedDocument.score
  have hdown : Std.TransCmp fun a b : RankedDocument D => F32.totalCmp b.score a.score :=
    Std.TransCmp.opposite
  rw [hlex]
  infer_instance

variable {documents seen : List (RankedDocument D)}

lemma tellsApart_of_keys (hdistinct : (documents.map RankedDocument.key).Nodup) :
    TellsApart compareRankedDocuments documents := by
  intro a ha b hb heq
  simp only [compareRankedDocuments, Ordering.then_eq_eq] at heq
  obtain ⟨-, hchunk, hpath⟩ := heq
  have hchunk := Std.LawfulEqOrd.eq_of_compare (α := Text) hchunk
  have hpath := Std.LawfulEqOrd.eq_of_compare (α := Text) hpath
  exact inj_on_of_nodup_map hdistinct ha hb (Prod.ext hchunk hpath)

variable {limit : ℕ}

/-- A segment without unreadable documents keeps its best ones. -/
theorem collectSegment_ok (hdistinct : (documents.map RankedDocument.key).Nodup) :
    collectSegment limit (documents.map .ok) =
      ⟨topBy compareRankedDocuments limit documents, none⟩ := by
  have hstep : ∀ (arrivals kept : List (RankedDocument D)),
      (arrivals.map Except.ok).foldl (collectDocument limit) ⟨kept, none⟩ =
        ⟨arrivals.foldl (insertBoundedDocument limit) kept, none⟩ := by
    intro arrivals
    induction arrivals with
    | nil => exact fun kept => rfl
    | cons document rest ih =>
      intro kept
      have hcollect : collectDocument limit ⟨kept, none⟩ (.ok document) =
          ⟨insertBoundedDocument limit kept document, none⟩ := by
        simp only [collectDocument, Option.isSome_none, Bool.false_eq_true, false_or]
        split
        · next hzero => simp [insertBoundedDocument, insertBounded, hzero]
        · rfl
      rw [map_cons, foldl_cons, hcollect, ih, foldl_cons]
  rw [collectSegment, hstep, insertBoundedDocument,
    foldl_insertBounded_nil (tellsApart_of_keys hdistinct)]

lemma mergeFruits_ok (parts : List (List (RankedDocument D))) :
    mergeFruits limit (parts.map fun documents => ⟨documents, none⟩) =
      .ok (parts.flatten.foldl (insertBoundedDocument limit) []) := by
  have hstep : ∀ kept : List (RankedDocument D),
      (parts.map fun documents => StableCollectorFruit.mk documents none).foldlM
        (fun documents fruit =>
          match fruit.error with
          | some error => Except.error error
          | none => .ok (fruit.documents.foldl (insertBoundedDocument limit) documents)) kept =
        .ok (parts.flatten.foldl (insertBoundedDocument limit) kept) := by
    induction parts with
    | nil => exact fun kept => rfl
    | cons part rest ih =>
      intro kept
      rw [flatten_cons, foldl_append, ← ih]
      rfl
  exact hstep []

variable {segments : List (List (RankedDocument D))}

/-- A partition keeps its best documents, however they are dealt out over its segments. -/
theorem partition_documents (hdistinct : (segments.flatten.map RankedDocument.key).Nodup) :
    mergeFruits limit ((segments.map (map Except.ok)).map (collectSegment limit)) =
      .ok (topBy compareRankedDocuments limit segments.flatten) := by
  have hsegments : (segments.map (map Except.ok)).map (collectSegment limit) =
      (segments.map (topBy compareRankedDocuments limit)).map fun documents => ⟨documents, none⟩ := by
    rw [map_map, map_map]
    refine map_congr_left fun segment hsegment => collectSegment_ok ?_
    exact hdistinct.sublist ((sublist_flatten_of_mem hsegment).map _)
  rw [hsegments, mergeFruits_ok, insertBoundedDocument,
    foldl_insertBounded_parts_nil (tellsApart_of_keys hdistinct)]

/-- A merge of hits with keys of their own keeps the best documents of both sides. -/
theorem ScoredHit.mergeBounded_hits {target incoming : List (ScoredHit D)}
    (hdistinct : ((target ++ incoming).map fun hit => hit.hit.key).Nodup) :
    (ScoredHit.mergeBounded target incoming limit).map ScoredHit.hit =
      topBy compareRankedDocuments limit
        (target.map ScoredHit.hit ++ incoming.map ScoredHit.hit) := by
  have hidentities : ((target ++ incoming).map ScoredHit.identity).Nodup := by
    refine Nodup.of_map Prod.snd ?_
    rw [map_map]
    exact hdistinct
  have hsorted : ((sortBy (fun left right : ScoredHit D =>
      compareRankedDocuments left.hit right.hit) (target ++ incoming)).map
        ScoredHit.identity).Nodup :=
    ((sortBy_perm _ _).map _).nodup_iff.mpr hidentities
  rw [ScoredHit.mergeBounded, retainFirst_eq_self hsorted (by simp), ← map_append]
  exact topBy_map ScoredHit.hit fun _ _ _ _ => rfl

/-- One more partition: what was kept before and what the partition keeps of its own. -/
theorem collectLaneHits_step (sourceKey : D → Text) (lane : CollectorLane) (scope : Text)
    {laneHits : List (ScoredHit D)}
    (hseen : laneHits.map ScoredHit.hit = topBy compareRankedDocuments limit seen)
    (hdistinct : ((seen ++ segments.flatten).map RankedDocument.key).Nodup) :
    ∃ hits, (ScoredPartition.mk scope (segments.map (map Except.ok))).hits sourceKey lane limit
        = .ok hits ∧
      (ScoredHit.mergeBounded laneHits hits limit).map ScoredHit.hit =
        topBy compareRankedDocuments limit (seen ++ segments.flatten) := by
  have hapart := tellsApart_of_keys hdistinct
  have hsegments : (segments.flatten.map RankedDocument.key).Nodup := by
    rw [map_append] at hdistinct
    exact hdistinct.of_append_right
  rw [ScoredPartition.hits, partition_documents hsegments]
  refine ⟨_, rfl, ?_⟩
  generalize hhits : (topBy compareRankedDocuments limit segments.flatten).zipIdx.map
    (fun (ranked, engineOrdinal) => ScoredHit.mk ⟨scope, sourceKey ranked.document⟩ ranked
      [⟨lane.field, lane.kind, lane.ordinal, ranked.score, engineOrdinal % 65536⟩]) = hits
  have hdocuments : hits.map ScoredHit.hit = topBy compareRankedDocuments limit segments.flatten := by
    rw [← hhits, map_map]
    exact zipIdx_map_fst 0 _
  have hkept : ((laneHits ++ hits).map fun hit => hit.hit.key).Nodup := by
    have hmap : (laneHits ++ hits).map (fun hit => hit.hit.key) =
        (topBy compareRankedDocuments limit seen ++
          topBy compareRankedDocuments limit segments.flatten).map RankedDocument.key := by
      rw [← hseen, ← hdocuments, ← map_append, map_map]
      rfl
    rw [hmap]
    exact nodup_map_topBy_append hdistinct
  rw [ScoredHit.mergeBounded_hits hkept, hseen, hdocuments, topBy_append hapart]

/-- The partitions one after the other, from what was kept before. -/
theorem collectLaneHits_run (sourceKey : D → Text) (lane : CollectorLane)
    (partitions : List (Text × List (List (RankedDocument D)))) {laneHits : List (ScoredHit D)}
    (hseen : laneHits.map ScoredHit.hit = topBy compareRankedDocuments limit seen)
    (hdistinct : ((seen ++ (partitions.map fun p => p.2.flatten).flatten).map
      RankedDocument.key).Nodup) :
    ∃ hits, (partitions.map fun p => ScoredPartition.mk p.1 (p.2.map (map Except.ok))).foldlM
        (fun laneHits partition => do
          let partitionHits ← partition.hits sourceKey lane limit
          return ScoredHit.mergeBounded laneHits partitionHits limit) laneHits = .ok hits ∧
      hits.map ScoredHit.hit = topBy compareRankedDocuments limit
        (seen ++ (partitions.map fun p => p.2.flatten).flatten) := by
  induction partitions generalizing laneHits seen with
  | nil => exact ⟨laneHits, rfl, by simpa using hseen⟩
  | cons first rest ih =>
    obtain ⟨scope, segments⟩ := first
    rw [map_cons, flatten_cons, ← append_assoc] at hdistinct
    have hhere : ((seen ++ segments.flatten).map RankedDocument.key).Nodup := by
      rw [map_append] at hdistinct
      exact hdistinct.of_append_left
    obtain ⟨hits, hread, hmerged⟩ :=
      collectLaneHits_step sourceKey lane scope hseen hhere
    obtain ⟨final, hrun, hfinal⟩ := ih hmerged hdistinct
    refine ⟨final, ?_, ?_⟩
    · rw [map_cons, foldlM_cons, hread]
      exact hrun
    · rw [hfinal, map_cons, flatten_cons, append_assoc]

/-- Every key that was not seen before stays, with an item that has it. -/
theorem exists_mem_retainFirst {α K : Type} [DecidableEq K] {key : α → K} {items : List α}
    {seen : List K} {a : α} (ha : a ∈ items) (hfresh : key a ∉ seen) :
    ∃ kept ∈ retainFirst key seen items, key kept = key a := by
  induction items generalizing seen with
  | nil => cases ha
  | cons b rest ih =>
    rw [retainFirst]
    by_cases hkey : key b = key a
    · rw [if_neg (hkey ▸ hfresh)]
      exact ⟨b, mem_cons_self, hkey⟩
    · have hrest : a ∈ rest := by
        rcases mem_cons.mp ha with rfl | hrest
        · exact absurd rfl hkey
        · exact hrest
      split
      · exact ih hrest hfresh
      · have hfresh' : key a ∉ key b :: seen := by
          intro hmem
          rcases mem_cons.mp hmem with heq | hseen
          · exact hkey heq.symm
          · exact hfresh hseen
        obtain ⟨kept, hkept, heq⟩ := ih hrest hfresh'
        exact ⟨kept, mem_cons_of_mem _ hkept, heq⟩

/-- However the documents of a lane are dealt out over partitions and segments, and in whatever
    order they are visited, the lane keeps the best of them; and a hit is dropped as a repetition
    only where another with its identity is kept. -/
theorem bounded_collection_exact (sourceKey : D → Text) (lane : CollectorLane) (limit : ℕ)
    (documents : List (RankedDocument D)) (hdistinct : (documents.map RankedDocument.key).Nodup)
    (partitions : List (Text × List (List (RankedDocument D))))
    (hsplit : (partitions.map fun p => p.2.flatten).flatten.Perm documents) :
    (∃ hits, collectLaneHits sourceKey lane limit
        (partitions.map fun p => ⟨p.1, p.2.map (map .ok)⟩) = .ok hits ∧
      hits.map ScoredHit.hit = (sortBy compareRankedDocuments documents).take limit) ∧
    ∀ (hits : List (ScoredHit D)), ∀ hit ∈ hits, hit ∉ retainFirst ScoredHit.identity [] hits →
      ∃ kept ∈ retainFirst ScoredHit.identity [] hits,
        kept ≠ hit ∧ kept.identity = hit.identity := by
  refine ⟨?_, fun hits hit hmem hdropped => ?_⟩
  · have hkeys : ((partitions.map fun p => p.2.flatten).flatten.map RankedDocument.key).Nodup :=
      (hsplit.map RankedDocument.key).nodup_iff.mpr hdistinct
    have hnone : ([] : List (ScoredHit D)).map ScoredHit.hit =
        topBy compareRankedDocuments limit [] := topBy_nil.symm
    obtain ⟨hits, hrun, hhits⟩ := collectLaneHits_run sourceKey lane partitions hnone hkeys
    refine ⟨hits, hrun, ?_⟩
    rw [hhits, nil_append]
    exact topBy_congr hsplit (tellsApart_of_keys hkeys)
  · obtain ⟨kept, hkept, hidentity⟩ := exists_mem_retainFirst hmem
      (not_mem_nil : ScoredHit.identity hit ∉ [])
    exact ⟨kept, hkept, fun heq => hdropped (heq ▸ hkept), hidentity⟩

/-- A document of the score zero, by its chunk. -/
def tiedDocument (chunk : Char) : RankedDocument Unit := ⟨⟨0⟩, [chunk], ['n'], ()⟩

/-- Of three documents of equal score the two with the least chunk ids are kept, wherever they
    are. -/
theorem bounded_collection_exact_ties :
    ∃ hits, collectLaneHits (fun _ => ['k']) exactLane 2
        [⟨['p'], [[.ok (tiedDocument 'c')], [.ok (tiedDocument 'b')]]⟩,
          ⟨['q'], [[], [.ok (tiedDocument 'a')]]⟩] = .ok hits ∧
      hits.map ScoredHit.hit = [tiedDocument 'a', tiedDocument 'b'] := by
  obtain ⟨hits, hrun, hhits⟩ := (bounded_collection_exact (fun _ => ['k']) exactLane 2
    [tiedDocument 'c', tiedDocument 'b', tiedDocument 'a'] (by decide)
    [(['p'], [[tiedDocument 'c'], [tiedDocument 'b']]), (['q'], [[], [tiedDocument 'a']])]
    (List.Perm.refl _)).1
  exact ⟨hits, hrun, hhits.trans (by decide)⟩

end Kwiry
