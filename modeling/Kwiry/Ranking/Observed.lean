import Kwiry.Ranking.Properties
import Mathlib.Data.List.Dedup

/-!
# Observed Properties

The portable side of property rules: a bag is observed as canonical scalars with their pointers,
in the order of the properties that the profile's rules name, and a rule is matched against the
observations. The depth at which observing gives up lies below everything the visitor builds.
-/

namespace Kwiry

open Foundations List

/-! ## §1 Observing a bag -/

/-- The observed form of a scalar, where it has one. -/
def rankingScalarOf : PropertyValue → Option RankingScalar
  | .null => some .null
  | .bool value => some (.boolean value)
  | .i64 value => some (.i64 (toString value).toList)
  | .u64 value => some (.u64 (toString value).toList)
  | .f64 bits => if isFiniteDouble bits then some (.f64 (hexWord bits)) else none
  | .string value =>
    if utf8Len value ≤ maxRankingValueBytes then
      some (if isIsoCalendarDate value then .date value else .string value)
    else none
  | .sequence _ | .map _ => none

def collectScalar (property pointer : Text) (value : PropertyValue)
    (output : List PropertyScalarObservation) :
    Except RankingError (List PropertyScalarObservation) := do
  rejectIf (maxRankingJsonPointerBytes < utf8Len pointer ∨
      output.length = maxPropertyValuesPerSourceObservation) workLimitError
  return output ++ (rankingScalarOf value).toList.map fun value => ⟨property, pointer, value⟩

mutual

def collectPropertyValues (property pointer : Text) (depth : ℕ) :
    PropertyValue → List PropertyScalarObservation →
      Except RankingError (List PropertyScalarObservation)
  | .sequence values, output =>
    if maxRankingPathDepth < depth then .ok output
    else collectSequence property pointer depth 0 values output
  | .map entries, output =>
    if maxRankingPathDepth < depth then .ok output
    else collectMap property pointer depth entries output
  | scalar, output =>
    if maxRankingPathDepth < depth then .ok output
    else collectScalar property pointer scalar output

def collectSequence (property pointer : Text) (depth index : ℕ) :
    List PropertyValue → List PropertyScalarObservation →
      Except RankingError (List PropertyScalarObservation)
  | [], output => .ok output
  | value :: rest, output => do
    let output ←
      collectPropertyValues property (indexPointer pointer index) (depth + 1) value output
    collectSequence property pointer depth (index + 1) rest output

def collectMap (property pointer : Text) (depth : ℕ) :
    List (Text × PropertyValue) → List PropertyScalarObservation →
      Except RankingError (List PropertyScalarObservation)
  | [], output => .ok output
  | (component, value) :: rest, output => do
    let output ←
      collectPropertyValues property (componentPointer pointer component) (depth + 1) value output
    collectMap property pointer depth rest output

end

/-- The properties that rules name, in order and without repetition. -/
def D5cRelevanceProfile.configured (profile : D5cRelevanceProfile) : List Text :=
  sortBy compare (profile.propertyRules.map PropertyRule.property).dedup

/-- One configured property: what is present and observed so far goes on. -/
def observeProperty (properties : PropertyBag)
    (state : List Text × List PropertyScalarObservation) (property : Text) :
    Except RankingError (List Text × List PropertyScalarObservation) :=
  match properties.get property with
  | none => .ok state
  | some value => do
    let values ← collectPropertyValues property [] 0 value state.2
    return (state.1 ++ [property], values)

def SourceSignalObservation.fromPropertyBag (codec : ProfileCodec) (source : QualifiedSourceId)
    (sourceMtimeEpochSeconds : Option ℕ) (properties : PropertyBag)
    (profile : D5cRelevanceProfile) : Except RankingError SourceSignalObservation := do
  validateProfile codec profile
  let (presentProperties, propertyValues) ←
    profile.configured.foldlM (observeProperty properties) ([], [])
  return {
    source := source
    sourceMtimeEpochSeconds := sourceMtimeEpochSeconds
    matchedPropertyRuleIds := []
    presentProperties := presentProperties
    propertyValues := sortBy (compareLex (compareOn PropertyScalarObservation.property)
      (compareOn PropertyScalarObservation.pointer)) propertyValues }

/-! ## §2 What is observed -/

section

variable (property : Text)

private def collectScalars (scalars : List (Text × PropertyValue))
    (output : List PropertyScalarObservation) :
    Except RankingError (List PropertyScalarObservation) :=
  scalars.foldlM (fun output scalar => collectScalar property scalar.1 scalar.2 output) output

lemma collectScalars_append (scalars scalars' : List (Text × PropertyValue))
    (output : List PropertyScalarObservation) :
    collectScalars property (scalars ++ scalars') output =
      collectScalars property scalars output >>= collectScalars property scalars' :=
  foldlM_append

mutual

/-- A value that nests no deeper than the visitor allows is never cut off. -/
theorem collectPropertyValues_eq {levels depth : ℕ} (pointer : Text) {value : PropertyValue}
    (hvalue : value.WellFormed levels) (hdepth : depth + levels ≤ maxRankingPathDepth)
    (output : List PropertyScalarObservation) :
    collectPropertyValues property pointer depth value output =
      collectScalars property (value.scalars pointer) output := by
  have hcut : ¬ maxRankingPathDepth < depth := by omega
  have hone : ∀ scalar, collectScalars property [(pointer, scalar)] output =
      collectScalar property pointer scalar output := by
    intro scalar
    simp [collectScalars]
  match value with
  | .sequence values =>
    cases hvalue with
    | sequence levels _ hall =>
      rw [collectPropertyValues, if_neg hcut, PropertyValue.scalars,
        collectSequence_eq pointer 0 hall (by omega)]
  | .map entries =>
    cases hvalue with
    | map _ _ _ hlevels hall =>
      rw [collectPropertyValues, if_neg hcut, PropertyValue.scalars,
        collectMap_eq pointer hlevels hall (by omega)]
  | .null | .bool _ | .i64 _ | .u64 _ | .f64 _ | .string _ =>
    simp only [collectPropertyValues, if_neg hcut, PropertyValue.scalars, hone]

lemma collectSequence_eq {levels depth : ℕ} (pointer : Text) (index : ℕ)
    {values : List PropertyValue} (hvalues : ∀ value ∈ values, value.WellFormed levels)
    (hdepth : depth + 1 + levels ≤ maxRankingPathDepth)
    (output : List PropertyScalarObservation) :
    collectSequence property pointer depth index values output =
      collectScalars property (scalarsOfSequence pointer index values) output := by
  match values with
  | [] => rfl
  | value :: rest =>
    obtain ⟨hvalue, hrest⟩ := forall_mem_cons.mp hvalues
    rw [collectSequence, scalarsOfSequence, collectScalars_append,
      collectPropertyValues_eq (indexPointer pointer index) hvalue hdepth]
    exact congrArg _ (funext fun output => collectSequence_eq pointer (index + 1) hrest hdepth output)

lemma collectMap_eq {levels depth : ℕ} (pointer : Text)
    {entries : List (Text × PropertyValue)} (hlevels : entries ≠ [] → 0 < levels)
    (hentries : ∀ entry ∈ entries, entry.2.WellFormed (levels - 1))
    (hdepth : depth + levels ≤ maxRankingPathDepth) (output : List PropertyScalarObservation) :
    collectMap property pointer depth entries output =
      collectScalars property (scalarsOfMap pointer entries) output := by
  match entries with
  | [] => rfl
  | (component, value) :: rest =>
    have hpos : 0 < levels := hlevels (cons_ne_nil _ _)
    obtain ⟨hvalue, hrest⟩ := forall_mem_cons.mp hentries
    rw [collectMap, scalarsOfMap, collectScalars_append,
      collectPropertyValues_eq (componentPointer pointer component) hvalue (by omega)]
    exact congrArg _ (funext fun output =>
      collectMap_eq pointer (fun _ => hpos) hrest hdepth output)

end

/-- What collecting adds, and that it never goes past the limit. -/
theorem collectScalars_ok {scalars : List (Text × PropertyValue)}
    {output final : List PropertyScalarObservation}
    (h : collectScalars property scalars output = .ok final)
    (hlimit : output.length ≤ maxPropertyValuesPerSourceObservation) :
    final.length ≤ maxPropertyValuesPerSourceObservation ∧
      ∀ observation, observation ∈ final ↔ observation ∈ output ∨
        ∃ scalar ∈ scalars, ∃ value, rankingScalarOf scalar.2 = some value ∧
          observation = ⟨property, scalar.1, value⟩ := by
  induction scalars generalizing output with
  | nil =>
    cases h
    exact ⟨hlimit, by simp⟩
  | cons scalar rest ih =>
    obtain ⟨next, hstep, hrest⟩ := foldlM_cons_ok _ h
    simp only [collectScalar, bind_ok_iff, rejectIf_ok, not_or] at hstep
    obtain ⟨_, ⟨-, hroom⟩, hnext⟩ := hstep
    cases hnext
    have hone : ((rankingScalarOf scalar.2).toList.map
        fun value => (⟨property, scalar.1, value⟩ : PropertyScalarObservation)).length ≤ 1 := by
      cases rankingScalarOf scalar.2 <;> simp
    obtain ⟨hlength, hmem⟩ := ih hrest (by rw [length_append]; omega)
    refine ⟨hlength, fun observation => ?_⟩
    rw [hmem, mem_append, or_assoc, exists_mem_cons_iff]
    cases rankingScalarOf scalar.2 with
    | none => simp
    | some value => simp

end

lemma D5cRelevanceProfile.mem_configured {profile : D5cRelevanceProfile} {property : Text} :
    property ∈ profile.configured ↔ ∃ rule ∈ profile.propertyRules, rule.property = property := by
  rw [configured, mem_sortBy, mem_dedup, mem_map]

lemma observeProperties_ok {properties : PropertyBag} (hbag : properties.WellFormed)
    {names : List Text} {state final : List Text × List PropertyScalarObservation}
    (h : names.foldlM (observeProperty properties) state = .ok final)
    (hlimit : state.2.length ≤ maxPropertyValuesPerSourceObservation) :
    final.2.length ≤ maxPropertyValuesPerSourceObservation ∧
      (∀ name, name ∈ final.1 ↔ name ∈ state.1 ∨
        name ∈ names ∧ ∃ value, (name, value) ∈ properties.entries) ∧
      ∀ observation, observation ∈ final.2 ↔ observation ∈ state.2 ∨
        ∃ name ∈ names, ∃ value, (name, value) ∈ properties.entries ∧
          ∃ scalar ∈ value.scalars [], ∃ observed, rankingScalarOf scalar.2 = some observed ∧
            observation = ⟨name, scalar.1, observed⟩ := by
  induction names generalizing state with
  | nil =>
    cases h
    exact ⟨hlimit, by simp, by simp⟩
  | cons name rest ih =>
    obtain ⟨next, hstep, hrest⟩ := foldlM_cons_ok _ h
    rw [observeProperty] at hstep
    cases hget : properties.get name with
    | none =>
      have habsent : ∀ value, (name, value) ∉ properties.entries := by
        intro value hmem
        rw [hbag.get_eq_some_iff.mpr hmem] at hget
        cases hget
      rw [hget] at hstep
      cases hstep
      obtain ⟨hlength, hpresent, hvalues⟩ := ih hrest hlimit
      refine ⟨hlength, fun other => ?_, fun observation => ?_⟩
      · rw [hpresent, mem_cons]
        constructor
        · rintro (hstate | ⟨hmem, hvalue⟩)
          · exact .inl hstate
          · exact .inr ⟨.inr hmem, hvalue⟩
        · rintro (hstate | ⟨rfl | hmem, value, hvalue⟩)
          · exact .inl hstate
          · exact absurd hvalue (habsent value)
          · exact .inr ⟨hmem, value, hvalue⟩
      · rw [hvalues, exists_mem_cons_iff]
        constructor
        · rintro (hstate | hmem)
          · exact .inl hstate
          · exact .inr (.inr hmem)
        · rintro (hstate | ⟨value, hvalue, -⟩ | hmem)
          · exact .inl hstate
          · exact absurd hvalue (habsent value)
          · exact .inr hmem
    | some value =>
      have hentry := hbag.get_eq_some_iff.mp hget
      have honly : ∀ other, (name, other) ∈ properties.entries ↔ other = value := by
        intro other
        rw [← hbag.get_eq_some_iff, hget, Option.some.injEq, eq_comm]
      simp only [hget, bind_ok_iff] at hstep
      obtain ⟨output, hcollect, hnext⟩ := hstep
      cases hnext
      rw [collectPropertyValues_eq name [] (hbag.of_mem hentry) (by decide)] at hcollect
      obtain ⟨hroom, hadded⟩ := collectScalars_ok name hcollect hlimit
      obtain ⟨hlength, hpresent, hvalues⟩ := ih hrest hroom
      refine ⟨hlength, fun other => ?_, fun observation => ?_⟩
      · rw [hpresent, mem_append, mem_singleton, mem_cons, or_assoc]
        refine or_congr_right ?_
        constructor
        · rintro (rfl | ⟨hmem, hvalue⟩)
          · exact ⟨.inl rfl, value, hentry⟩
          · exact ⟨.inr hmem, hvalue⟩
        · rintro ⟨rfl | hmem, hvalue⟩
          · exact .inl rfl
          · exact .inr ⟨hmem, hvalue⟩
      · rw [hvalues, hadded, exists_mem_cons_iff, or_assoc]
        simp only [honly, exists_eq_left]

mutual

lemma wellFormed_of_mem_scalars {levels : ℕ} {path : Text} {value : PropertyValue}
    (hvalue : value.WellFormed levels) {scalar : Text × PropertyValue}
    (h : scalar ∈ value.scalars path) : ∃ left, scalar.2.WellFormed left := by
  match value with
  | .sequence values =>
    cases hvalue with
    | sequence _ _ hall => exact wellFormed_of_mem_scalarsOfSequence hall h
  | .map entries =>
    cases hvalue with
    | map _ _ _ _ hall => exact wellFormed_of_mem_scalarsOfMap hall h
  | .null | .bool _ | .i64 _ | .u64 _ | .f64 _ | .string _ =>
    rw [mem_singleton.mp h]
    exact ⟨levels, hvalue⟩

lemma wellFormed_of_mem_scalarsOfSequence {levels index : ℕ} {path : Text}
    {values : List PropertyValue} (hvalues : ∀ value ∈ values, value.WellFormed levels)
    {scalar : Text × PropertyValue} (h : scalar ∈ scalarsOfSequence path index values) :
    ∃ left, scalar.2.WellFormed left := by
  match values with
  | [] => exact absurd h not_mem_nil
  | value :: rest =>
    obtain ⟨hvalue, hrest⟩ := forall_mem_cons.mp hvalues
    rcases mem_append.mp h with h | h
    · exact wellFormed_of_mem_scalars hvalue h
    · exact wellFormed_of_mem_scalarsOfSequence hrest h

lemma wellFormed_of_mem_scalarsOfMap {levels : ℕ} {path : Text}
    {entries : List (Text × PropertyValue)}
    (hentries : ∀ entry ∈ entries, entry.2.WellFormed levels) {scalar : Text × PropertyValue}
    (h : scalar ∈ scalarsOfMap path entries) : ∃ left, scalar.2.WellFormed left := by
  match entries with
  | [] => exact absurd h not_mem_nil
  | (component, value) :: rest =>
    obtain ⟨hvalue, hrest⟩ := forall_mem_cons.mp hentries
    rcases mem_append.mp h with h | h
    · exact wellFormed_of_mem_scalars hvalue h
    · exact wellFormed_of_mem_scalarsOfMap hrest h

end

/-- What an observation taken from a bag holds. -/
theorem fromPropertyBag_ok {properties : PropertyBag} (hbag : properties.WellFormed) {codec : ProfileCodec}
    {profile : D5cRelevanceProfile} {source : QualifiedSourceId} {mtime : Option ℕ}
    {observation : SourceSignalObservation}
    (h : SourceSignalObservation.fromPropertyBag codec source mtime properties profile =
      .ok observation) :
    validateProfile codec profile = .ok () ∧ observation.matchedPropertyRuleIds = [] ∧
      observation.propertyValues.length ≤ maxPropertyValuesPerSourceObservation ∧
      (∀ name, name ∈ observation.presentProperties ↔
        name ∈ profile.configured ∧ ∃ value, (name, value) ∈ properties.entries) ∧
      ∀ observed, observed ∈ observation.propertyValues ↔
        ∃ name ∈ profile.configured, ∃ value, (name, value) ∈ properties.entries ∧
          ∃ scalar ∈ value.scalars [], ∃ ranking, rankingScalarOf scalar.2 = some ranking ∧
            observed = ⟨name, scalar.1, ranking⟩ := by
  simp only [SourceSignalObservation.fromPropertyBag, bind_unit_ok_iff] at h
  obtain ⟨hvalid, h⟩ := h
  obtain ⟨⟨present, values⟩, hfold, heq⟩ := bind_ok_iff.mp h
  cases heq
  obtain ⟨hcount, hpresent, hvalues⟩ := observeProperties_ok hbag hfold (Nat.zero_le _)
  simp only [not_mem_nil, false_or] at hpresent hvalues
  refine ⟨hvalid, rfl, ?_, hpresent, fun observed => ?_⟩
  · rw [(sortBy_perm _ values).length_eq]
    exact hcount
  · rw [mem_sortBy, hvalues]

/-! ## §3 Matching -/

def observationMatches (rule : PropertyRule) (observation : PropertyScalarObservation) : Bool :=
  observation.property = rule.property &&
    !rule.predicate.pointer.any (· ≠ observation.pointer) &&
    scalarMatches rule.predicate observation.value

/-- Matching stops at the first match and misses none, unless the work runs out. -/
theorem matchObservations_eq_any (rule : PropertyRule) (workUnits : ℕ)
    (observations : List PropertyScalarObservation) :
    (∃ spent, matchObservations rule workUnits observations =
        .ok (observations.any (observationMatches rule), spent)) ∨
      matchObservations rule workUnits observations = .error workLimitError ∧
        maxRankingWorkUnits < workUnits + observations.length := by
  induction observations generalizing workUnits with
  | nil => exact .inl ⟨workUnits, rfl⟩
  | cons observation rest ih =>
    rw [matchObservations, any_cons, length_cons]
    by_cases hproperty : observation.property = rule.property
    · rw [if_neg (not_not.mpr hproperty)]
      by_cases hroom : workUnits + 1 ≤ maxRankingWorkUnits
      · have hcharge : chargeWork workUnits 1 = .ok (workUnits + 1) := if_pos hroom
        rw [hcharge]
        show (∃ spent, ite _ _ (ite _ _ _) = _) ∨ ite _ _ (ite _ _ _) = _ ∧ _
        by_cases hpointer : rule.predicate.pointer.any (· ≠ observation.pointer) = true
        · rw [if_pos hpointer]
          simp only [observationMatches, hpointer, Bool.not_true, Bool.and_false, Bool.false_and,
            Bool.false_or]
          rcases ih (workUnits + 1) with hok | ⟨herror, hlimit⟩
          · exact .inl hok
          · exact .inr ⟨herror, by omega⟩
        · rw [if_neg hpointer]
          by_cases hmatch : scalarMatches rule.predicate observation.value = true
          · rw [if_pos hmatch]
            have hone : observationMatches rule observation = true := by
              rw [observationMatches, hmatch, Bool.eq_false_of_not_eq_true hpointer]
              simp [hproperty]
            rw [hone, Bool.true_or]
            exact .inl ⟨_, rfl⟩
          · rw [if_neg hmatch]
            have hnone : observationMatches rule observation = false := by
              simp [observationMatches, hmatch]
            rw [hnone, Bool.false_or]
            rcases ih (workUnits + 1) with hok | ⟨herror, hlimit⟩
            · exact .inl hok
            · exact .inr ⟨herror, by omega⟩
      · have hcharge : chargeWork workUnits 1 = .error workLimitError := if_neg hroom
        rw [hcharge]
        exact .inr ⟨rfl, by omega⟩
    · rw [if_pos hproperty]
      have hnone : observationMatches rule observation = false := by
        simp [observationMatches, hproperty]
      rw [hnone, Bool.false_or]
      rcases ih workUnits with hok | ⟨herror, hlimit⟩
      · exact .inl hok
      · exact .inr ⟨herror, by omega⟩

end Kwiry
