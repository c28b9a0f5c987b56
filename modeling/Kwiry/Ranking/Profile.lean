import Kwiry.Foundations.Decimal
import Kwiry.Ranking.LexicalV2

/-!
# Relevance Profiles

The rules by which metadata moves a result within its evidence tier, and `validate_profile`.
Serialization is left to the host: a profile is refused when it does not serialize or its
bytes are too many, and predicates are told apart by their text.
-/

namespace Kwiry

open Foundations

/-! ## §1 Rules -/

def relevanceProfileSchemaVersion : ℕ := 1
def lexicalRelevanceProfileId : Text := "lexical-v1".toList
def d5cPreviewProfileId : Text := "d5c-preview-v1".toList
def maxRelevanceProfileBytes : ℕ := 64 * 1024
def maxRankingRuleIdBytes : ℕ := 64
def maxRankingPropertyNameBytes : ℕ := 256
def maxRankingJsonPointerBytes : ℕ := 1024
def maxRankingValueBytes : ℕ := 4096
def maxRankingFolderPrefixBytes : ℕ := 4096
def maxRankingPathDepth : ℕ := 64
def maxPropertyRankingRules : ℕ := 8
def maxFolderRankingRulesPerFamily : ℕ := 16
def maxTotalRankingRules : ℕ := 32
def maxAbsoluteMetadataPoints : ℤ := 32

inductive RecencyClock where
  | sourceMtime

inductive RecencyHorizon where
  | week | month | quarter | year

def RecencyHorizon.seconds : RecencyHorizon → ℕ
  | week => 7 * 24 * 60 * 60
  | month => 30 * 24 * 60 * 60
  | quarter => 90 * 24 * 60 * 60
  | year => 365 * 24 * 60 * 60

inductive RuleStrength where
  | low | standard | high

def RuleStrength.points : RuleStrength → ℤ
  | low => 1
  | standard => 2
  | high => 4

inductive RuleEffect where
  | boost | demote

def RuleEffect.apply (effect : RuleEffect) (points : ℤ) : ℤ :=
  match effect with
  | boost => points
  | demote => -points

structure RecencyRule where
  id : Text
  clock : RecencyClock
  horizon : RecencyHorizon
  strength : RuleStrength

inductive PathDepthPredicate where
  | atMost (segments : ℕ)
  | atLeast (segments : ℕ)

structure PathDepthRule where
  id : Text
  predicate : PathDepthPredicate
  effect : RuleEffect
  strength : RuleStrength

structure FolderRule where
  (id folder : Text)
  strength : RuleStrength

structure HierarchyRules where
  depth : Option PathDepthRule
  (authorityFolders archiveFolders : List FolderRule)

/-- A scalar in its canonical text. -/
inductive RankingScalar where
  | null
  | boolean (value : Bool)
  | i64 (value : Text)
  | u64 (value : Text)
  | f64 (value : Text)
  | string (value : Text)
  | date (value : Text)
  deriving DecidableEq

inductive PropertyPredicate where
  | presence
  | exact (pointer : Option Text) (value : RankingScalar)
  | i64Range (pointer min max : Option Text)
  | u64Range (pointer min max : Option Text)
  | f64Range (pointer min max : Option Text)
  | dateRange (pointer min max : Option Text)
  deriving DecidableEq

def PropertyPredicate.pointer : PropertyPredicate → Option Text
  | presence => none
  | exact pointer _ => pointer
  | i64Range pointer _ _ => pointer
  | u64Range pointer _ _ => pointer
  | f64Range pointer _ _ => pointer
  | dateRange pointer _ _ => pointer

structure PropertyRule where
  (id property : Text)
  predicate : PropertyPredicate
  effect : RuleEffect
  strength : RuleStrength

structure D5cRelevanceProfile where
  schemaVersion : ℕ
  (profileId retrievalProfileId : Text)
  recency : Option RecencyRule
  hierarchy : HierarchyRules
  propertyRules : List PropertyRule

inductive RelevanceProfile where
  | lexicalV1
  | d5cPreviewV1 (profile : D5cRelevanceProfile)

def D5cRelevanceProfile.preview : D5cRelevanceProfile :=
  ⟨relevanceProfileSchemaVersion, d5cPreviewProfileId, lexicalRelevanceProfileId, none,
    ⟨none, [], []⟩, []⟩

/-- How profiles and predicates serialize, where they do. -/
structure ProfileCodec where
  profileBytes : D5cRelevanceProfile → Option ℕ
  predicateText : Text → PropertyPredicate → Option Text

def invalidProfile (message : String) : RankingError :=
  ⟨"invalid_relevance_profile", message⟩

/-! ## §2 Paths, pointers and scalars -/

def pathDepth (path : Text) : ℕ :=
  (path.splitOn '/').length

def isNormalizedRelativePath (path : Text) : Bool :=
  path ≠ [] && path.head? ≠ some '/' && path.getLast? ≠ some '/' && '\\' ∉ path &&
    Char.ofNat 0 ∉ path &&
    (path.splitOn '/').all fun component =>
      component ≠ [] && component ≠ ['.'] && component ≠ ['.', '.']

def pathIsWithinFolder (path folder : Text) : Bool :=
  folder.isPrefixOf path && (path.drop folder.length).head? = some '/'

def folderPrefixesOverlap (left right : Text) : Bool :=
  left = right || pathIsWithinFolder left right || pathIsWithinFolder right left

/-- Every tilde of a pointer is followed by a zero or a one. -/
def pointerEscapesValid : Text → Bool
  | '~' :: c :: rest => (c = '0' || c = '1') && pointerEscapesValid rest
  | ['~'] => false
  | _ :: rest => pointerEscapesValid rest
  | [] => true

def validateJsonPointer (pointer : Text) : Except RankingError Unit := do
  rejectIf (maxRankingJsonPointerBytes < utf8Len pointer ∨
      (pointer ≠ [] ∧ pointer.head? ≠ some '/') ∨ maxRankingPathDepth < pointer.count '/')
    (invalidProfile "property JSON Pointer is invalid")
  rejectIf (pointerEscapesValid pointer = false)
    (invalidProfile "property JSON Pointer escape is invalid")

def parseCanonicalI64 : Text → Option ℤ :=
  canonical (parseSigned (2 ^ 63))

def parseCanonicalU64 : Text → Option ℤ :=
  canonical fun text => (parseUnsigned (2 ^ 64) text).map fun value => (value : ℤ)

def hexValue (c : Char) : ℕ :=
  if c.isDigit then c.toNat - '0'.toNat else c.toNat - 'a'.toNat + 10

/-- The sixteen hexadecimal digits of a finite double, as its place in the numeric order. -/
def parseCanonicalF64 (value : Text) : Option ℤ :=
  if utf8Len value ≠ 16 ∨ value.all (fun c => c.isDigit || ('a' ≤ c && c ≤ 'f')) = false then
    none
  else
    let bits := value.foldl (fun bits c => bits * 16 + hexValue c) 0
    if isFiniteBits 11 52 bits then some (numericKey 64 bits) else none

def isIsoCalendarDate (value : Text) : Bool :=
  match value with
  | [y₀, y₁, y₂, y₃, '-', m₀, m₁, '-', d₀, d₁] =>
    if [y₀, y₁, y₂, y₃, m₀, m₁, d₀, d₁].all Char.isDigit then
      let year := ((hexValue y₀ * 10 + hexValue y₁) * 10 + hexValue y₂) * 10 + hexValue y₃
      let month := hexValue m₀ * 10 + hexValue m₁
      let day := hexValue d₀ * 10 + hexValue d₁
      let leap := year % 4 = 0 ∧ (year % 100 ≠ 0 ∨ year % 400 = 0)
      let days := [31, if leap then 29 else 28, 31, 30, 31, 30, 31, 31, 30, 31, 30, 31]
      1 ≤ month && month ≤ 12 && day ≠ 0 && day ≤ days.getD (month - 1) 0
    else
      false
  | _ => false

def validateScalar (value : RankingScalar) (configured : Bool) : Except RankingError Unit :=
  let valid : Bool :=
    match value with
    | .null | .boolean _ => true
    | .i64 value => (parseCanonicalI64 value).isSome
    | .u64 value => (parseCanonicalU64 value).isSome
    | .f64 value => (parseCanonicalF64 value).isSome
    | .string value => utf8Len value ≤ maxRankingValueBytes && !isIsoCalendarDate value
    | .date value => isIsoCalendarDate value
  rejectIf (valid = false)
    (if configured then invalidProfile "configured property scalar is invalid"
      else invalidInput "observed property scalar is invalid")

/-- Two bounds in the wrong order. -/
def reversed {α : Type} [Ord α] (min max : Option α) : Bool :=
  match min, max with
  | some min, some max => (compare min max).isGT
  | _, _ => false

def validateRange (min max : Option Text) (parse : Text → Option ℤ) :
    Except RankingError Unit := do
  rejectIf (min = none ∧ max = none) (invalidProfile "property range must have a bound")
  rejectIf (min.any (fun value => (parse value).isNone) ∨
      max.any (fun value => (parse value).isNone)) (invalidProfile "numeric range is invalid")
  rejectIf (reversed (min.bind parse) (max.bind parse))
    (invalidProfile "numeric range is reversed")

def validateDateRange (min max : Option Text) : Except RankingError Unit := do
  rejectIf (min = none ∧ max = none) (invalidProfile "property range must have a bound")
  rejectIf (min.any (fun value => !isIsoCalendarDate value) ∨
      max.any (fun value => !isIsoCalendarDate value) ∨ reversed min max)
    (invalidProfile "date range is invalid")

def validatePropertyPredicate (predicate : PropertyPredicate) : Except RankingError Unit := do
  if let some pointer := predicate.pointer then
    validateJsonPointer pointer
  match predicate with
  | .presence => .ok ()
  | .exact _ value => validateScalar value true
  | .i64Range _ min max => validateRange min max parseCanonicalI64
  | .u64Range _ min max => validateRange min max parseCanonicalU64
  | .f64Range _ min max => validateRange min max parseCanonicalF64
  | .dateRange _ min max => validateDateRange min max

/-! ## §3 Validation -/

def validateRuleId (ids : List Text) (id : Text) : Except RankingError (List Text) := do
  rejectIf (id = [] ∨ maxRankingRuleIdBytes < utf8Len id)
    (invalidProfile "ranking rule ID is invalid")
  rejectIf (id ∈ ids) (invalidProfile "ranking rule ID is duplicated")
  return id :: ids

def PathDepthPredicate.segments : PathDepthPredicate → ℕ
  | atMost segments => segments
  | atLeast segments => segments

def validateDepthRule (ids : List Text) (rule : PathDepthRule) :
    Except RankingError (List Text) := do
  let ids ← validateRuleId ids rule.id
  rejectIf (maxRankingPathDepth < rule.predicate.segments)
    (invalidProfile "path-depth rule exceeds its limit")
  return ids

/-- One folder rule: the ids and folders seen so far go on. -/
def validateFolderRule (seen : List Text × List Text) (rule : FolderRule) :
    Except RankingError (List Text × List Text) := do
  let ids ← validateRuleId seen.1 rule.id
  rejectIf (maxRankingFolderPrefixBytes < utf8Len rule.folder ∨
      isNormalizedRelativePath rule.folder = false ∨ maxRankingPathDepth < pathDepth rule.folder)
    (invalidProfile "folder rule prefix is invalid")
  rejectIf (rule.folder ∈ seen.2) (invalidProfile "folder rule prefix is duplicated")
  return (ids, rule.folder :: seen.2)

def validateFolderRules (rules : List FolderRule) (ids : List Text) :
    Except RankingError (List Text) := do
  rejectIf (anyAdjacent (fun left right =>
      ((compare left.folder right.folder).then (compare left.id right.id)).isGE) rules)
    (invalidProfile "folder rules must use canonical prefix and ID order")
  let (ids, _) ← rules.foldlM validateFolderRule (ids, [])
  return ids

/-- One property rule: the ids and predicates seen so far go on. -/
def validatePropertyRule (codec : ProfileCodec) (seen : List Text × List Text)
    (rule : PropertyRule) : Except RankingError (List Text × List Text) := do
  let ids ← validateRuleId seen.1 rule.id
  rejectIf (rule.property = [] ∨ maxRankingPropertyNameBytes < utf8Len rule.property)
    (invalidProfile "property rule name is invalid")
  validatePropertyPredicate rule.predicate
  match codec.predicateText rule.property rule.predicate with
  | none => .error (invalidProfile "property predicate is not canonical")
  | some predicate => do
    rejectIf (predicate ∈ seen.2) (invalidProfile "property predicate is duplicated")
    return (ids, predicate :: seen.2)

def D5cRelevanceProfile.ruleCount (profile : D5cRelevanceProfile) : ℕ :=
  profile.recency.toList.length + profile.hierarchy.depth.toList.length +
    profile.hierarchy.authorityFolders.length + profile.hierarchy.archiveFolders.length +
    profile.propertyRules.length

/-- The most a family of folder rules can contribute: the best of them counts. -/
def folderPoints (rules : List FolderRule) : ℤ :=
  (rules.map fun rule => rule.strength.points).max?.getD 0

/-- The most all rules together can contribute, in either direction. -/
def D5cRelevanceProfile.theoreticalPoints (profile : D5cRelevanceProfile) : ℤ :=
  (profile.recency.elim 0 fun rule => rule.strength.points) +
    (profile.hierarchy.depth.elim 0 fun rule => rule.strength.points) +
    folderPoints profile.hierarchy.authorityFolders +
    folderPoints profile.hierarchy.archiveFolders +
    (profile.propertyRules.map fun rule => rule.strength.points).sum

def validateProfile (codec : ProfileCodec) (profile : D5cRelevanceProfile) :
    Except RankingError Unit := do
  rejectIf (profile.schemaVersion ≠ relevanceProfileSchemaVersion ∨
      profile.profileId ≠ d5cPreviewProfileId ∨
      profile.retrievalProfileId ≠ lexicalRelevanceProfileId)
    (invalidProfile "profile identity or schema is unsupported")
  rejectIf (codec.profileBytes profile = none)
    (invalidProfile "profile cannot be serialized canonically")
  rejectIf ((codec.profileBytes profile).any (maxRelevanceProfileBytes < ·))
    (invalidProfile "profile exceeds its serialized size limit")
  rejectIf (maxPropertyRankingRules < profile.propertyRules.length ∨
      maxFolderRankingRulesPerFamily < profile.hierarchy.authorityFolders.length ∨
      maxFolderRankingRulesPerFamily < profile.hierarchy.archiveFolders.length)
    (invalidProfile "profile exceeds a rule-family limit")
  rejectIf (maxTotalRankingRules < profile.ruleCount)
    (invalidProfile "profile exceeds the total rule limit")
  let ids ← profile.recency.elim (.ok []) fun rule => validateRuleId [] rule.id
  let ids ← profile.hierarchy.depth.elim (.ok ids) (validateDepthRule ids)
  let ids ← validateFolderRules profile.hierarchy.authorityFolders ids
  let ids ← validateFolderRules profile.hierarchy.archiveFolders ids
  rejectIf (profile.hierarchy.authorityFolders.any fun authority =>
      profile.hierarchy.archiveFolders.any fun archive =>
        folderPrefixesOverlap authority.folder archive.folder)
    (invalidProfile "authority and archive folder rules overlap")
  rejectIf (anyAdjacent (fun left right => (compare left.id right.id).isGE) profile.propertyRules)
    (invalidProfile "property rules must use canonical ID order")
  let _ ← profile.propertyRules.foldlM (validatePropertyRule codec) (ids, [])
  rejectIf (maxAbsoluteMetadataPoints < profile.theoreticalPoints)
    (invalidProfile "profile metadata contribution exceeds its absolute cap")

/-- **The rules of a valid profile are worth at most the cap.** -/
theorem validateProfile_points {codec : ProfileCodec} {profile : D5cRelevanceProfile}
    (h : validateProfile codec profile = .ok ()) :
    profile.theoreticalPoints ≤ maxAbsoluteMetadataPoints := by
  -- the cap is the last of thirteen checks
  simp only [validateProfile, bind_ok_iff, rejectIf_ok, not_lt] at h
  obtain ⟨_, -, _, -, _, -, _, -, _, -, _, -, _, -, _, -, _, -, _, -, _, -, _, -, hpoints⟩ := h
  exact hpoints

end Kwiry
