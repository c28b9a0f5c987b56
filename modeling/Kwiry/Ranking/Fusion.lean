import Mathlib.Algebra.Order.Field.Basic
import Mathlib.Algebra.Order.Field.Rat
import Mathlib.Tactic.Linarith
import Kwiry.Foundations.Bytes
import Kwiry.Foundations.Sorting
import Kwiry.Foundations.TreeMaps

/-!
# Reciprocal Rank Fusion

`rrf_fuse_traced` of `semantic.rs`: two ranked lists of chunk ids become one. Every id is scored
by the sum of what its ranks contribute, and ids of one score are ordered by id. Scores are
exact here, where the source has 64-bit floats.
-/

namespace Kwiry

open Foundations List

/-- What fusion knows of one chunk. -/
structure RrfTrace where
  chunkId : Text
  (lexicalRank semanticRank : Option ℕ)
  (lexicalContribution semanticContribution fusedScore : ℚ)

namespace RrfTrace

/-- A chunk that no list has named yet. -/
def unranked (chunkId : Text) : RrfTrace := ⟨chunkId, none, none, 0, 0, 0⟩

/-- What a list contributes at a rank counted from zero. -/
def contribution (k : ℚ) (rank : ℕ) : ℚ := 1 / (k + rank + 1)

/-- Ranks a chunk in the lexical list. -/
def rankLexical (k : ℚ) (rank : ℕ) (trace : RrfTrace) : RrfTrace :=
  { trace with
    lexicalRank := some (rank + 1)
    lexicalContribution := contribution k rank
    fusedScore := trace.fusedScore + contribution k rank }

/-- Ranks a chunk in the semantic list. -/
def rankSemantic (k : ℚ) (rank : ℕ) (trace : RrfTrace) : RrfTrace :=
  { trace with
    semanticRank := some (rank + 1)
    semanticContribution := contribution k rank
    fusedScore := trace.fusedScore + contribution k rank }

end RrfTrace

open RrfTrace (unranked contribution rankLexical rankSemantic)

/-- The loop over one list: the traces of its ids are ranked, those of the other ids stay. -/
def rankLoop (rankAt : ℕ → RrfTrace → RrfTrace) (ranked : List (Text × ℕ))
    (traces : Std.ExtTreeMap Text RrfTrace) : Std.ExtTreeMap Text RrfTrace :=
  ranked.foldl
    (fun traces (chunkId, rank) =>
      traces.insert chunkId (rankAt rank (traces.getD chunkId (unranked chunkId))))
    traces

/-- Higher scores first, then the smaller id. -/
def compareFused (left right : RrfTrace) : Ordering :=
  (compare right.fusedScore left.fusedScore).then (compare left.chunkId right.chunkId)

section

variable (lexical semantic : List Text) (k : ℚ)

/-- The traces of all ids, before they are sorted. -/
def rrfTraces : Std.ExtTreeMap Text RrfTrace :=
  rankLoop (rankSemantic k) semantic.zipIdx (rankLoop (rankLexical k) lexical.zipIdx ∅)

/-- Fuses two ranked lists of chunk ids. -/
def rrfFuseTraced : List RrfTrace :=
  sortBy compareFused (rrfTraces lexical semantic k).values

/-- The ids of the fused list, in its order. -/
def fusedIds : List Text :=
  (rrfFuseTraced lexical semantic k).map RrfTrace.chunkId

end

/-! ## §1 One list -/

variable {ids : List Text}

/-- The loop leaves at each listed id its trace ranked there, and all other ids alone. -/
theorem getElem?_rankLoop (rankAt : ℕ → RrfTrace → RrfTrace) (hids : ids.Nodup) (first : ℕ)
    (traces : Std.ExtTreeMap Text RrfTrace) (id : Text) :
    (rankLoop rankAt (ids.zipIdx first) traces)[id]? =
      if id ∈ ids then some (rankAt (first + ids.idxOf id) (traces.getD id (unranked id)))
      else traces[id]? := by
  induction ids generalizing first traces with
  | nil => simp [rankLoop]
  | cons head rest ih =>
    obtain ⟨hhead, hrest⟩ := nodup_cons.mp hids
    have hstep : rankLoop rankAt ((head :: rest).zipIdx first) traces =
        rankLoop rankAt (rest.zipIdx (first + 1))
          (traces.insert head (rankAt first (traces.getD head (unranked head)))) := rfl
    rw [hstep, ih hrest]
    by_cases heq : id = head
    · -- ranked in this round, and not listed again
      subst heq
      simp [hhead]
    · have hne : ¬ head = id := fun h => heq h.symm
      have hindex : first + 1 + rest.idxOf id = first + (head :: rest).idxOf id := by
        rw [idxOf_cons_ne _ hne]
        omega
      simp [heq, hne, hindex, Std.ExtTreeMap.getElem?_insert, Std.ExtTreeMap.getD_insert]

/-- Every trace stands under its own id. -/
def Titled (traces : Std.ExtTreeMap Text RrfTrace) : Prop :=
  ∀ (id : Text) (trace : RrfTrace), traces[id]? = some trace → trace.chunkId = id

lemma titled_empty : Titled ∅ := by
  intro id trace h
  simp at h

/-- A loop that ranks traces without renaming them keeps every trace under its id. -/
theorem Titled.rankLoop (rankAt : ℕ → RrfTrace → RrfTrace)
    (hrank : ∀ rank trace, (rankAt rank trace).chunkId = trace.chunkId) (hids : ids.Nodup)
    {traces : Std.ExtTreeMap Text RrfTrace} (htraces : Titled traces) :
    Titled (Kwiry.rankLoop rankAt ids.zipIdx traces) := by
  intro id trace h
  rw [getElem?_rankLoop rankAt hids] at h
  split at h
  · cases h
    rw [hrank, Std.ExtTreeMap.getD_eq_getD_getElem?]
    cases hfound : traces[id]? with
    | none => rfl
    | some found => exact htraces id found hfound
  · exact htraces id trace h

/-! ## §2 Both lists -/

section

variable {lexical semantic : List Text} {k : ℚ}

lemma titled_rrfTraces (hlexical : lexical.Nodup) (hsemantic : semantic.Nodup) :
    Titled (rrfTraces lexical semantic k) := by
  have hranked : Titled (rankLoop (rankLexical k) lexical.zipIdx ∅) :=
    titled_empty.rankLoop (rankLexical k) (fun _ _ => rfl) hlexical
  exact hranked.rankLoop (rankSemantic k) (fun _ _ => rfl) hsemantic

lemma getElem?_rrfTraces (hlexical : lexical.Nodup) (hsemantic : semantic.Nodup) (id : Text) :
    (rrfTraces lexical semantic k)[id]? =
      let ranked :=
        if id ∈ lexical then some (rankLexical k (lexical.idxOf id) (unranked id)) else none
      if id ∈ semantic then
        some (rankSemantic k (semantic.idxOf id) (ranked.getD (unranked id)))
      else ranked := by
  have hfirst : (rankLoop (rankLexical k) lexical.zipIdx ∅)[id]? =
      if id ∈ lexical then some (rankLexical k (lexical.idxOf id) (unranked id)) else none := by
    have hloop := getElem?_rankLoop (rankLexical k) hlexical 0 ∅ id
    simpa using hloop
  have hsecond := getElem?_rankLoop (rankSemantic k) hsemantic 0
    (rankLoop (rankLexical k) lexical.zipIdx ∅) id
  rw [Std.ExtTreeMap.getD_eq_getD_getElem?, hfirst, Nat.zero_add] at hsecond
  exact hsecond

/-- What one list contributes to an id's score. -/
def scoreIn (k : ℚ) (ids : List Text) (id : Text) : ℚ :=
  if id ∈ ids then contribution k (ids.idxOf id) else 0

lemma isSome_rrfTraces (hlexical : lexical.Nodup) (hsemantic : semantic.Nodup) (id : Text) :
    (rrfTraces lexical semantic k)[id]?.isSome ↔ id ∈ lexical ∨ id ∈ semantic := by
  rw [getElem?_rrfTraces hlexical hsemantic]
  by_cases hl : id ∈ lexical <;> by_cases hs : id ∈ semantic <;> simp [hl, hs]

/-- A score is the sum of what the two lists contribute. -/
theorem fusedScore_rrfTraces (hlexical : lexical.Nodup) (hsemantic : semantic.Nodup) {id : Text}
    {trace : RrfTrace} (h : (rrfTraces lexical semantic k)[id]? = some trace) :
    trace.fusedScore = scoreIn k lexical id + scoreIn k semantic id := by
  rw [getElem?_rrfTraces hlexical hsemantic] at h
  by_cases hl : id ∈ lexical <;> by_cases hs : id ∈ semantic <;> simp [hl, hs] at h <;>
    subst h <;> simp [scoreIn, hl, hs, rankSemantic, rankLexical, unranked]

/-! ## §3 Dominance -/

/-- One id is ranked no worse than another in a list. An id that is not listed has the list's length
for its position, behind every rank. -/
def RankedNoWorse (ids : List Text) (x y : Text) : Prop := ids.idxOf x ≤ ids.idxOf y

/-- One id is ranked better than another in a list. -/
def RankedBetter (ids : List Text) (x y : Text) : Prop := ids.idxOf x < ids.idxOf y

/-- No worse in both lists, and better in one. -/
def Outranks (lexical semantic : List Text) (x y : Text) : Prop :=
  RankedNoWorse lexical x y ∧ RankedNoWorse semantic x y ∧
    (RankedBetter lexical x y ∨ RankedBetter semantic x y)

lemma contribution_pos (hk : -1 < k) (rank : ℕ) : 0 < contribution k rank := by
  have hrank : (0 : ℚ) ≤ rank := Nat.cast_nonneg rank
  exact one_div_pos.mpr (by linarith)

lemma contribution_lt (hk : -1 < k) {rank rank' : ℕ} (h : rank < rank') :
    contribution k rank' < contribution k rank := by
  have hrank : (0 : ℚ) ≤ rank := Nat.cast_nonneg rank
  have hcast : (rank : ℚ) < rank' := Nat.cast_lt.mpr h
  exact one_div_lt_one_div_of_lt (by linarith) (by linarith)

lemma scoreIn_lt (hk : -1 < k) {x y : Text} (h : RankedBetter ids x y) :
    scoreIn k ids y < scoreIn k ids x := by
  have hlisted : x ∈ ids := idxOf_lt_length_iff.mp (lt_of_lt_of_le h idxOf_le_length)
  rw [scoreIn, scoreIn, if_pos hlisted]
  by_cases hy : y ∈ ids
  · rw [if_pos hy]
    exact contribution_lt hk h
  · rw [if_neg hy]
    exact contribution_pos hk _

lemma scoreIn_le (hk : -1 < k) {x y : Text} (h : RankedNoWorse ids x y) :
    scoreIn k ids y ≤ scoreIn k ids x := by
  rcases Nat.lt_or_eq_of_le h with hlt | heq
  · exact (scoreIn_lt hk hlt).le
  · -- one position is one id, or neither is listed
    have hmem : x ∈ ids ↔ y ∈ ids := by
      rw [← idxOf_lt_length_iff, ← idxOf_lt_length_iff, heq]
    simp only [scoreIn, hmem, heq, le_refl]

instance : Std.TransCmp compareFused := by
  have hlex : compareFused = compareLex (fun left right => compareOn RrfTrace.fusedScore right left)
      (compareOn RrfTrace.chunkId) := rfl
  have hdown : Std.TransCmp fun left right => compareOn RrfTrace.fusedScore right left :=
    Std.TransCmp.opposite
  rw [hlex]
  infer_instance

/-- Every id of the two lists comes out exactly once, and an id that outranks another comes out
before it. -/
theorem rrfFuseTraced_complete (hk : -1 < k) (hlexical : lexical.Nodup)
    (hsemantic : semantic.Nodup) :
    (fusedIds lexical semantic k).Nodup ∧
      (∀ id, id ∈ fusedIds lexical semantic k ↔ id ∈ lexical ∨ id ∈ semantic) ∧
      ∀ x ∈ fusedIds lexical semantic k, ∀ y ∈ fusedIds lexical semantic k,
        Outranks lexical semantic x y → Precedes (fusedIds lexical semantic k) x y := by
  have htitled : Titled (rrfTraces lexical semantic k) := titled_rrfTraces hlexical hsemantic
  have hperm : (fusedIds lexical semantic k).Perm (rrfTraces lexical semantic k).keys := by
    rw [← map_values_eq_keys htitled]
    exact (sortBy_perm compareFused _).map RrfTrace.chunkId
  refine ⟨hperm.nodup_iff.mpr Std.ExtTreeMap.nodup_keys, fun id => ?_, ?_⟩
  · rw [hperm.mem_iff, Std.ExtTreeMap.mem_keys, Std.ExtTreeMap.mem_iff_isSome_getElem?,
      isSome_rrfTraces hlexical hsemantic]
  · intro x hx y hy houtranks
    have htrace : ∀ id ∈ fusedIds lexical semantic k,
        ∃ trace ∈ (rrfTraces lexical semantic k).values, trace.chunkId = id ∧
          trace.fusedScore = scoreIn k lexical id + scoreIn k semantic id := by
      intro id hid
      rw [hperm.mem_iff, Std.ExtTreeMap.mem_keys, Std.ExtTreeMap.mem_iff_isSome_getElem?,
        Option.isSome_iff_exists] at hid
      obtain ⟨trace, hget⟩ := hid
      exact ⟨trace, mem_values.mpr ⟨id, hget⟩, htitled id trace hget,
        fusedScore_rrfTraces hlexical hsemantic hget⟩
    obtain ⟨traceX, hmemX, rfl, hscoreX⟩ := htrace x hx
    obtain ⟨traceY, hmemY, rfl, hscoreY⟩ := htrace y hy
    obtain ⟨hlex, hsem, hbetter⟩ := houtranks
    have hscore : traceY.fusedScore < traceX.fusedScore := by
      rw [hscoreX, hscoreY]
      rcases hbetter with hbetter | hbetter
      · exact add_lt_add_of_lt_of_le (scoreIn_lt hk hbetter) (scoreIn_le hk hsem)
      · exact add_lt_add_of_le_of_lt (scoreIn_le hk hlex) (scoreIn_lt hk hbetter)
    have hcompare : compareFused traceX traceY = .lt := by
      rw [compareFused, compare_lt_iff_lt.mpr hscore]
      rfl
    exact (precedes_of_lt hmemX hmemY hcompare).map RrfTrace.chunkId

/-- Two lists that share an id, under the constant the source fuses with. -/
theorem rrfFuseTraced_complete_shared :
    (fusedIds [['a'], ['b']] [['b'], ['c']] 60).Nodup ∧
      (∀ id, id ∈ fusedIds [['a'], ['b']] [['b'], ['c']] 60 ↔
        id ∈ [['a'], ['b']] ∨ id ∈ [['b'], ['c']]) ∧
      ∀ x ∈ fusedIds [['a'], ['b']] [['b'], ['c']] 60,
        ∀ y ∈ fusedIds [['a'], ['b']] [['b'], ['c']] 60,
        Outranks [['a'], ['b']] [['b'], ['c']] x y →
          Precedes (fusedIds [['a'], ['b']] [['b'], ['c']] 60) x y :=
  rrfFuseTraced_complete (by norm_num) (by decide) (by decide)

end

end Kwiry
