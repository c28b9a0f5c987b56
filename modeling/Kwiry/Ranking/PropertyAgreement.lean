import Kwiry.Ranking.Scalars

/-!
# Agreement of Native and Portable Property Rules

On the bags that frontmatter parses to, and for the rules of a valid profile, the portable match
says what the native query of the rule says of the bag's terms. Both sides see a value as its
list of scalars; keys separate properties and pointers, and one scalar against one rule is
settled elsewhere.
-/

namespace Kwiry

open Foundations

/-! ## §1 Queries over a projection -/

/-- An index one of whose segments holds a document's terms. -/
def NativeSearchContext.Holds (context : NativeSearchContext) (projection : PropertyProjection) :
    Prop :=
  ∃ segment ∈ context.segments, ∀ field, ∀ term ∈ projection field, term ∈ segment field

/-- Some scalar of a property, at a pointer where one is given, satisfies a condition. -/
def Somewhere (properties : PropertyBag) (property : Text) (pointer : Option Text)
    (P : PropertyValue → Prop) : Prop :=
  ∃ value, (property, value) ∈ properties.entries ∧
    ∃ scalar ∈ value.scalars [], (∀ at_ ∈ pointer, at_ = scalar.1) ∧ P scalar.2

/-- The key of a scalar that a rule with such a pointer looks for. -/
def scalarKey (H : IdealHash) (pointer : Option Text) (name path : Text) : Text :=
  match pointer with
  | some _ => propertyPathTerm H name path
  | none => propertyNameTerm H name

section Queries

variable {H : IdealHash} {properties : PropertyBag} {property : Text} {pointer : Option Text}

variable {name path term : Text} {value : PropertyValue}

variable {kind : RangeKind}

lemma mem_scalarTerms_field :
    (kind.field, term) ∈ scalarTerms H name path value ↔
      ∃ text, rangeText value = some (kind, text) ∧ term = keyed (propertyNameTerm H name) text := by
  rw [scalarTerms_eq]
  cases rangeText value with
  | none => cases kind <;> simp [RangeKind.field]
  | some typed =>
    obtain ⟨other, text⟩ := typed
    cases kind <;> cases other <;> simp [RangeKind.field, RangeKind.pathField]

lemma mem_scalarTerms_pathField :
    (kind.pathField, term) ∈ scalarTerms H name path value ↔
      ∃ text, rangeText value = some (kind, text) ∧
        term = keyed (propertyPathTerm H name path) text := by
  rw [scalarTerms_eq]
  cases rangeText value with
  | none => cases kind <;> simp [RangeKind.pathField]
  | some typed =>
    obtain ⟨other, text⟩ := typed
    cases kind <;> cases other <;> simp [RangeKind.field, RangeKind.pathField]

/-- A rule's key is that of a scalar when its property and its pointer are the scalar's. -/
theorem ruleKey_eq_iff (hH : H.Compact) (hproperty : utf8Len property ≤ maxRankingPropertyNameBytes)
    (hpointer : ∀ at_ ∈ pointer, utf8Len at_ ≤ maxRankingJsonPointerBytes)
    (field pathField : PropertyField) (name path : Text) :
    (ruleKey H property pointer field pathField).2 = scalarKey H pointer name path ↔
      property = name ∧ ∀ at_ ∈ pointer, at_ = path := by
  cases pointer with
  | none => simpa [ruleKey, scalarKey] using propertyNameTerm_inj (H := H) hproperty name
  | some at_ =>
    simpa [ruleKey, scalarKey] using propertyPathTerm_inj hH hproperty (hpointer at_ rfl) name path

lemma mem_projectProperties_field (H : IdealHash) (property : Text) (pointer : Option Text) :
    term ∈ projectProperties H properties
        (ruleKey H property pointer kind.field kind.pathField).1 ↔
      ∃ entry ∈ properties.entries, ∃ scalar ∈ entry.2.scalars [], ∃ text,
        rangeText scalar.2 = some (kind, text) ∧
          term = keyed (scalarKey H pointer entry.1 scalar.1) text := by
  have hnames : kind.field ≠ .names ∧ kind.pathField ≠ .names := by
    cases kind <;> exact ⟨by decide, by decide⟩
  rw [mem_projectProperties_iff]
  cases pointer with
  | none => simp [ruleKey, scalarKey, hnames.1, mem_scalarTerms_field]
  | some at_ => simp [ruleKey, scalarKey, hnames.2, mem_scalarTerms_pathField]

lemma colon_notMem_ruleKey (H : IdealHash) (property : Text) (pointer : Option Text)
    (field pathField : PropertyField) :
    ':' ∉ (ruleKey H property pointer field pathField).2 ∧
      isAscii (ruleKey H property pointer field pathField).2 := by
  cases pointer <;>
    exact ⟨colon_notMem_hashComponents _ _ _, isAscii_hashComponents _ _ _⟩

section

variable (hH : H.Compact) (hproperty : utf8Len property ≤ maxRankingPropertyNameBytes)
  (hpointer : ∀ at_ ∈ pointer, utf8Len at_ ≤ maxRankingJsonPointerBytes)

include hH hproperty hpointer

/-- A range query finds the bags with a typed text between its bounds under the rule's key. -/
theorem rangeQuery_matches_iff (kind : RangeKind) {lower upper : Text} (hlower : isAscii lower)
    (hupper : isAscii upper) {context : NativeSearchContext}
    (hholds : context.Holds (projectProperties H properties)) {workUnits spent : ℕ}
    {query : NativeQuery}
    (h : boundedStringRangeQuery context (ruleKey H property pointer kind.field kind.pathField).1
      (keyed (ruleKey H property pointer kind.field kind.pathField).2 lower)
    (keyed (ruleKey H property pointer kind.field kind.pathField).2 upper) workUnits =
      .ok (query, spent)) :
    query.matches (projectProperties H properties) = true ↔
      Somewhere properties property pointer fun scalar => ∃ text,
        rangeText scalar = some (kind, text) ∧ (compare lower text).isLE = true ∧
          (compare text upper).isLE = true := by
  obtain ⟨terms, rfl, hterms⟩ := mem_of_boundedStringRangeQuery h
  obtain ⟨hcolon, hkey⟩ := colon_notMem_ruleKey H property pointer kind.field kind.pathField
  -- the interval against one scalar's term
  have hone : ∀ (name path text : Text) (scalar : PropertyValue),
      rangeText scalar = some (kind, text) →
      (((compare (utf8 (keyed (ruleKey H property pointer kind.field kind.pathField).2 lower))
            (utf8 (keyed (scalarKey H pointer name path) text))).isLE &&
          (compare (utf8 (keyed (scalarKey H pointer name path) text))
            (utf8 (keyed (ruleKey H property pointer kind.field kind.pathField).2 upper))).isLE)
          = true ↔
        (property = name ∧ ∀ at_ ∈ pointer, at_ = path) ∧
          (compare lower text).isLE = true ∧ (compare text upper).isLE = true) := by
    intro name path text scalar htext
    rw [← ruleKey_eq_iff hH hproperty hpointer kind.field kind.pathField name path]
    refine between_keyed_iff hcolon ?_ hkey ?_ hlower hupper (isAscii_of_rangeText htext)
    · cases pointer <;> exact colon_notMem_hashComponents _ _ _
    · cases pointer <;> exact isAscii_hashComponents _ _ _
  rw [NativeQuery.matches, List.any_eq_true]
  simp only [Std.ExtTreeSet.mem_toList, ← Std.ExtTreeSet.mem_iff_contains, hterms]
  constructor
  · rintro ⟨term, hterm, segment, -, hbetween⟩
    obtain ⟨entry, hentry, scalar, hscalar, text, htext, rfl⟩ :=
      (mem_projectProperties_field H property pointer).mp hterm
    obtain ⟨⟨hname, hpath⟩, hlow, hhigh⟩ :=
      (hone _ _ _ _ htext).mp (List.mem_filter.mp hbetween).2
    exact ⟨entry.2, hname ▸ hentry, scalar, hscalar, hpath, text, htext, hlow, hhigh⟩
  · rintro ⟨value, hentry, scalar, hscalar, hpath, text, htext, hlow, hhigh⟩
    have hterm := (mem_projectProperties_field H property pointer).mpr
      ⟨_, hentry, scalar, hscalar, text, htext, rfl⟩
    obtain ⟨segment, hsegment, hall⟩ := hholds
    refine ⟨_, hterm, segment, hsegment, List.mem_filter.mpr ⟨hall _ _ hterm, ?_⟩⟩
    exact (hone _ _ _ _ htext).mpr ⟨⟨rfl, hpath⟩, hlow, hhigh⟩

lemma exactQuery_matches_iff
    (hvalue : (scalarIdentity value).1.length + (scalarIdentity value).2.length ≤ 5000) :
    (NativeQuery.term (ruleKey H property pointer .exact .pathExact).1
        (propertyExactTermForKey H (ruleKey H property pointer .exact .pathExact).2 value)).matches
          (projectProperties H properties) = true ↔
      Somewhere properties property pointer fun scalar =>
        scalarIdentity value = scalarIdentity scalar := by
  have hlength : (utf8 (ruleKey H property pointer .exact .pathExact).2).length ≤ 5000 := by
    cases pointer with
    | none => exact (length_propertyNameTerm_le hH hproperty).trans (by decide)
    | some at_ => exact length_propertyPathTerm_le hH hproperty (hpointer at_ rfl)
  -- the exact terms of a scalar, under the field the rule looks in
  have hmem : ∀ (name path term : Text) (scalar : PropertyValue),
      ((ruleKey H property pointer .exact .pathExact).1, term) ∈ scalarTerms H name path scalar ↔
        term = propertyExactTermForKey H (scalarKey H pointer name path) scalar := by
    intro name path term scalar
    rw [scalarTerms_eq]
    cases rangeText scalar with
    | none => cases pointer <;> simp [ruleKey, scalarKey]
    | some typed =>
      obtain ⟨kind, text⟩ := typed
      cases pointer <;> cases kind <;>
        simp [ruleKey, scalarKey, RangeKind.field, RangeKind.pathField]
  have hnames : (ruleKey H property pointer .exact .pathExact).1 ≠ .names := by
    cases pointer <;> simp [ruleKey]
  rw [NativeQuery.matches, ← Std.ExtTreeSet.mem_iff_contains, mem_projectProperties_iff]
  simp only [Prod.mk.injEq, hnames, false_and, false_or, hmem,
    propertyExactTermForKey_inj hlength hvalue, ruleKey_eq_iff hH hproperty hpointer]
  constructor
  · rintro ⟨entry, hentry, scalar, hscalar, ⟨hname, hpath⟩, hidentity⟩
    exact ⟨entry.2, hname ▸ hentry, scalar, hscalar, hpath, hidentity⟩
  · rintro ⟨found, hentry, scalar, hscalar, hpath, hidentity⟩
    exact ⟨_, hentry, scalar, hscalar, ⟨rfl, hpath⟩, hidentity⟩

end

lemma presenceQuery_matches_iff (H : IdealHash) (properties : PropertyBag)
    (hproperty : utf8Len property ≤ maxRankingPropertyNameBytes) :
    (NativeQuery.term .names (propertyNameTerm H property)).matches
        (projectProperties H properties) = true ↔
      ∃ value, (property, value) ∈ properties.entries := by
  have hscalar : ∀ (name path term : Text) (scalar : PropertyValue),
      (PropertyField.names, term) ∉ scalarTerms H name path scalar := by
    intro name path term scalar
    rw [scalarTerms_eq]
    cases rangeText scalar with
    | none => simp
    | some typed =>
      obtain ⟨kind, text⟩ := typed
      cases kind <;> simp [RangeKind.field, RangeKind.pathField]
  rw [NativeQuery.matches, ← Std.ExtTreeSet.mem_iff_contains, mem_projectProperties_iff]
  simp [hscalar, propertyNameTerm_inj hproperty]

end Queries

/-! ## §2 Agreement -/

lemma validateProfile_propertyRule {codec : ProfileCodec} {profile : D5cRelevanceProfile}
    (h : validateProfile codec profile = .ok ()) {rule : PropertyRule}
    (hrule : rule ∈ profile.propertyRules) :
    utf8Len rule.property ≤ maxRankingPropertyNameBytes ∧
      (∀ at_ ∈ rule.predicate.pointer, utf8Len at_ ≤ maxRankingJsonPointerBytes) ∧
      validatePropertyPredicate rule.predicate = .ok () := by
  simp only [validateProfile, bind_ok_iff] at h
  obtain ⟨_, -, _, -, _, -, _, -, _, -, _, -, _, -, _, -, _, -, _, -, _, -, _, hrules, -⟩ := h
  obtain ⟨before, after, hsplit⟩ := List.append_of_mem hrule
  rw [hsplit] at hrules
  obtain ⟨_, _, -, hstep, -⟩ := foldlM_append_cons_ok _ hrules
  simp only [validatePropertyRule, bind_ok_iff, rejectIf_ok, not_or, not_lt] at hstep
  obtain ⟨_, -, _, ⟨-, hname⟩, _, hpredicate, -⟩ := hstep
  refine ⟨hname, fun at_ hat => ?_, hpredicate⟩
  have hpointer : validateJsonPointer at_ = .ok () := by
    unfold validatePropertyPredicate at hpredicate
    rw [Option.mem_def.mp hat] at hpredicate
    obtain ⟨_, hpointer, -⟩ := bind_ok_iff.mp hpredicate
    exact hpointer
  simp only [validateJsonPointer, bind_ok_iff, rejectIf_ok, not_or, not_lt] at hpointer
  obtain ⟨_, ⟨hlength, -⟩, -⟩ := hpointer
  exact hlength

lemma somewhere_congr {properties : PropertyBag} (hbag : properties.WellFormed) {property : Text}
    {pointer : Option Text} {P Q : PropertyValue → Prop}
    (h : ∀ levels scalar, PropertyValue.WellFormed levels scalar → (P scalar ↔ Q scalar)) :
    Somewhere properties property pointer P ↔ Somewhere properties property pointer Q := by
  refine exists_congr fun value => and_congr_right fun hentry => exists_congr fun scalar =>
    and_congr_right fun hscalar => and_congr_right fun _ => ?_
  obtain ⟨levels, hwell⟩ := wellFormed_of_mem_scalars (hbag.of_mem hentry) hscalar
  exact h levels scalar.2 hwell

/-- What is left of validation once the pointer is checked. -/
theorem ok_of_pointer {pointer : Option Text} {rest : Except RankingError Unit}
    (h : (do
      if let some at_ := pointer then
        validateJsonPointer at_
      rest) = .ok ()) : rest = .ok () := by
  cases pointer with
  | none => exact h
  | some at_ => exact (bind_unit_ok_iff.mp h).2

section Agreement

variable {H : IdealHash} {properties : PropertyBag} {rule : PropertyRule}
  {context : NativeSearchContext} {workUnits spent : ℕ} {query : NativeQuery}

/-- The native query of a valid rule finds the bags with a scalar whose observation it accepts. -/
theorem compiled_matches_iff (hH : H.Compact) (hbag : properties.WellFormed)
    (hproperty : utf8Len rule.property ≤ maxRankingPropertyNameBytes)
    (hpointer : ∀ at_ ∈ rule.predicate.pointer, utf8Len at_ ≤ maxRankingJsonPointerBytes)
    (hpredicate : validatePropertyPredicate rule.predicate = .ok ())
    (hpresence : rule.predicate ≠ .presence)
    (hholds : context.Holds (projectProperties H properties))
    (h : compilePropertyRuleQuery H context rule workUnits = .ok (query, spent)) :
    query.matches (projectProperties H properties) = true ↔
      Somewhere properties rule.property rule.predicate.pointer (Observed rule.predicate) := by
  obtain ⟨id, property, predicate, effect, strength⟩ := rule
  simp only at hproperty hpointer hpredicate hpresence ⊢
  simp only [compilePropertyRuleQuery, bind_ok_iff] at h
  obtain ⟨units, -, h⟩ := h
  simp only [validatePropertyPredicate] at hpredicate
  cases predicate with
  | presence => exact absurd rfl hpresence
  | exact pointer value =>
    have hvalue : validateScalar value true = .ok () := ok_of_pointer hpredicate
    obtain ⟨pv, hpv, h⟩ := bind_ok_iff.mp h
    cases h
    refine (exactQuery_matches_iff hH hproperty hpointer
      (rankingScalarOf_configured hvalue hpv).2.2.2).trans ?_
    exact somewhere_congr hbag fun levels scalar hscalar => (exact_agrees hscalar hvalue hpv).symm
  | i64Range pointer min max =>
    have hrange : validateRange min max parseCanonicalI64 = .ok () := ok_of_pointer hpredicate
    obtain ⟨lo, hlo, h⟩ := bind_ok_iff.mp h
    obtain ⟨hi, hhi, h⟩ := bind_ok_iff.mp h
    refine (rangeQuery_matches_iff hH hproperty hpointer .i64 (isAscii_hexWord _)
      (isAscii_hexWord _) hholds h).trans ?_
    exact somewhere_congr hbag fun levels scalar hscalar =>
      (i64Range_agrees hscalar hrange hlo hhi).symm
  | u64Range pointer min max =>
    have hrange : validateRange min max parseCanonicalU64 = .ok () := ok_of_pointer hpredicate
    obtain ⟨lo, hlo, h⟩ := bind_ok_iff.mp h
    obtain ⟨hi, hhi, h⟩ := bind_ok_iff.mp h
    refine (rangeQuery_matches_iff hH hproperty hpointer .u64 (isAscii_hexWord _)
      (isAscii_hexWord _) hholds h).trans ?_
    exact somewhere_congr hbag fun levels scalar hscalar =>
      (u64Range_agrees hscalar hrange hlo hhi).symm
  | f64Range pointer min max =>
    have hrange : validateRange min max parseCanonicalF64 = .ok () := ok_of_pointer hpredicate
    obtain ⟨lo, hlo, h⟩ := bind_ok_iff.mp h
    obtain ⟨hi, hhi, h⟩ := bind_ok_iff.mp h
    refine (rangeQuery_matches_iff hH hproperty hpointer .f64 (isAscii_hexWord _)
      (isAscii_hexWord _) hholds h).trans ?_
    exact somewhere_congr hbag fun levels scalar hscalar =>
      (f64Range_agrees hscalar hrange hlo hhi).symm
  | dateRange pointer min max =>
    have hrange : validateDateRange min max = .ok () := ok_of_pointer hpredicate
    simp only [validateDateRange, bind_ok_iff, rejectIf_ok, not_or] at hrange
    obtain ⟨_, -, hmin, hmax, -⟩ := hrange
    have hascii : ∀ (bound : Option Text) (default : Text), isAscii default →
        ¬ bound.any (fun value => !isIsoCalendarDate value) = true → isAscii (bound.getD default) := by
      intro bound default hdefault hbound
      cases bound with
      | none => exact hdefault
      | some text => exact isAscii_of_isIsoCalendarDate (by simpa using hbound)
    have hfirst : isAscii "0000-01-01".toList := by unfold isAscii; decide
    have hlast : isAscii "9999-12-31".toList := by unfold isAscii; decide
    refine (rangeQuery_matches_iff hH hproperty hpointer .date
      (hascii min _ hfirst hmin) (hascii max _ hlast hmax) hholds h).trans ?_
    exact somewhere_congr hbag fun levels scalar _ => dateRange_agrees.symm

/-- **Native and portable property rules agree.** -/
theorem propertyRules_agree (hH : H.Compact) (readYaml : Text → Option YamlNode)
    (displayF64 : ℕ → Text) (text : Text)
    (hbag : properties = (parseFrontmatter readYaml displayF64 text).properties)
    {codec : ProfileCodec} {profile : D5cRelevanceProfile} {source : QualifiedSourceId}
    {mtime : Option ℕ} {observation : SourceSignalObservation}
    (hrule : rule ∈ profile.propertyRules)
    (hobservation :
      SourceSignalObservation.fromPropertyBag codec source mtime properties profile = .ok observation)
    (hholds : context.Holds (projectProperties H properties))
    (hquery : compilePropertyRuleQuery H context rule workUnits = .ok (query, spent)) (work : ℕ) :
    (∃ left, propertyRuleMatches rule (some observation) work =
        .ok (query.matches (projectProperties H properties), left)) ∨
      propertyRuleMatches rule (some observation) work = .error workLimitError ∧
        maxRankingWorkUnits < work + 257 := by
  have hwell : properties.WellFormed := hbag ▸ parseFrontmatter_wellFormed readYaml displayF64 text
  obtain ⟨hvalid, hmatched, hcount, hpresent, hvalues⟩ := fromPropertyBag_ok hwell hobservation
  obtain ⟨hproperty, hpointer, hpredicate⟩ := validateProfile_propertyRule hvalid hrule
  have hconfigured : rule.property ∈ profile.configured :=
    D5cRelevanceProfile.mem_configured.mpr ⟨rule, hrule, rfl⟩
  have hpresent_iff : rule.property ∈ observation.presentProperties ↔
      ∃ value, (rule.property, value) ∈ properties.entries := by
    rw [hpresent, and_iff_right hconfigured]
  by_cases hroom : work + 1 ≤ maxRankingWorkUnits
  · have hcharge : chargeWork work 1 = .ok (work + 1) := if_pos hroom
    have hrun : propertyRuleMatches rule (some observation) work =
        if rule.predicate = .presence then
          .ok (decide (rule.property ∈ observation.presentProperties), work + 1)
        else if rule.property ∉ observation.presentProperties then .ok (false, work + 1)
        else matchObservations rule (work + 1) observation.propertyValues := by
      rw [propertyRuleMatches, hcharge]
      simp [hmatched, bind, Except.bind]
    rw [hrun]
    by_cases hpresence : rule.predicate = .presence
    · rw [if_pos hpresence]
      refine Or.inl ⟨work + 1, ?_⟩
      have hcompiled : query = .term .names (propertyNameTerm H rule.property) := by
        simp only [compilePropertyRuleQuery, hpresence, bind_ok_iff] at hquery
        obtain ⟨_, -, hquery⟩ := hquery
        cases hquery
        rfl
      have hiff := presenceQuery_matches_iff H properties hproperty
      rw [← hpresent_iff, ← hcompiled] at hiff
      rw [Bool.eq_iff_iff.mpr (hiff.trans decide_eq_true_iff.symm)]
    · rw [if_neg hpresence]
      have hcompiled := compiled_matches_iff hH hwell hproperty hpointer hpredicate hpresence hholds
        hquery
      by_cases hmem : rule.property ∈ observation.presentProperties
      · rw [if_neg (not_not.mpr hmem)]
        have hany : observation.propertyValues.any (observationMatches rule) =
            query.matches (projectProperties H properties) := by
          rw [Bool.eq_iff_iff, hcompiled, List.any_eq_true]
          simp only [hvalues]
          constructor
          · rintro ⟨_, ⟨name, -, value, hentry, scalar, hscalar, ranking, hranking, rfl⟩, hmatches⟩
            simp only [observationMatches, Bool.and_eq_true, decide_eq_true_eq] at hmatches
            obtain ⟨⟨rfl, hat⟩, haccept⟩ := hmatches
            refine ⟨value, hentry, scalar, hscalar, ?_, ranking, hranking, haccept⟩
            intro at_ hat'
            rw [Option.mem_def.mp hat'] at hat
            simpa using hat
          · rintro ⟨value, hentry, scalar, hscalar, hat, ranking, hranking, haccept⟩
            refine ⟨_, ⟨rule.property, hconfigured, value, hentry, scalar, hscalar, ranking,
              hranking, rfl⟩, ?_⟩
            have hpoints : rule.predicate.pointer.any (· ≠ scalar.1) = false := by
              cases hp : rule.predicate.pointer with
              | none => rfl
              | some at_ => simpa using hat at_ hp
            rw [observationMatches, hpoints, haccept]
            simp
        have hmatch := matchObservations_eq_any rule (work + 1) observation.propertyValues
        rw [hany] at hmatch
        rcases hmatch with hok | ⟨herror, hlimit⟩
        · exact Or.inl hok
        · unfold maxPropertyValuesPerSourceObservation at hcount
          exact Or.inr ⟨herror, by omega⟩
      · rw [if_pos hmem]
        refine Or.inl ⟨work + 1, ?_⟩
        have hnone : query.matches (projectProperties H properties) = false := by
          rw [Bool.eq_false_iff, ne_eq, hcompiled]
          rintro ⟨value, hentry, -⟩
          exact hmem (hpresent_iff.mpr ⟨value, hentry⟩)
        rw [hnone]
  · have hcharge : chargeWork work 1 = .error workLimitError := if_neg hroom
    refine Or.inr ⟨?_, by omega⟩
    rw [propertyRuleMatches, hcharge]
    rfl

end Agreement

/-- A note with one signed property, and a rule about its range. -/
def agedNote : Text := "---\nage: -5\n---\n".toList

def agedYaml : Text → Option YamlNode :=
  fun _ => some (.map [(some "age".toList, .i64 (-5))])

def agedRule : PropertyRule :=
  ⟨"age".toList, "age".toList, .i64Range (some []) (some "-10".toList) none, .boost, .low⟩

def agedProfile : D5cRelevanceProfile :=
  { D5cRelevanceProfile.preview with propertyRules := [agedRule] }

def agedCodec : ProfileCodec := ⟨fun _ => some 0, fun property _ => some property⟩

def agedProperties : PropertyBag := (parseFrontmatter agedYaml (fun _ => []) agedNote).properties

def agedContext : NativeSearchContext :=
  ⟨[fun field => (projectProperties .transparent agedProperties field).toList]⟩

theorem agedRule_agrees :
    ∃ observation query spent,
      SourceSignalObservation.fromPropertyBag agedCodec ⟨[], []⟩ none agedProperties agedProfile =
          .ok observation ∧
        compilePropertyRuleQuery .transparent agedContext agedRule 0 = .ok (query, spent) ∧
        ((∃ left, propertyRuleMatches agedRule (some observation) 0 =
            .ok (query.matches (projectProperties .transparent agedProperties), left)) ∨
          propertyRuleMatches agedRule (some observation) 0 = .error workLimitError ∧
            maxRankingWorkUnits < 0 + 257) := by
  have hobserved : (SourceSignalObservation.fromPropertyBag agedCodec ⟨[], []⟩ none agedProperties
      agedProfile).toOption.isSome = true := by decide +kernel
  have hcompiled : (compilePropertyRuleQuery .transparent agedContext agedRule 0).toOption.isSome =
      true := by decide +kernel
  have hsome : ∀ {ε α : Type} (x : Except ε α), x.toOption.isSome = true → ∃ a, x = .ok a := by
    intro ε α x h
    cases x with
    | error => cases h
    | ok a => exact ⟨a, rfl⟩
  obtain ⟨observation, hobservation⟩ := hsome _ hobserved
  obtain ⟨⟨query, spent⟩, hquery⟩ := hsome _ hcompiled
  refine ⟨observation, query, spent, hobservation, hquery, ?_⟩
  refine propertyRules_agree (fun preimage => ?_) agedYaml (fun _ => []) agedNote rfl
    List.mem_cons_self hobservation ⟨_, List.mem_cons_self, fun field term hterm => ?_⟩ hquery 0
  · exact Nat.add_le_add_left (by decide) _
  · exact Std.ExtTreeSet.mem_toList.mpr hterm

end Kwiry
