import Kwiry.Foundations.Digits
import Kwiry.Frontmatter
import Kwiry.Identity
import Kwiry.Ranking.Rerank

/-!
# Native Property Queries

The index side of property rules: each scalar of a bag is projected to terms under a hashed key,
typed values behind the key as digits that sort like the values, and a rule compiles to one term
or to the terms of an interval of the dictionary.
-/

namespace Kwiry

open Foundations List

/-! ## §1 Terms -/

/-- The fields a document's properties are indexed under. -/
inductive PropertyField where
  | names | paths | exact | pathExact
  | i64Values | u64Values | f64Values | dateValues
  | pathI64Values | pathU64Values | pathF64Values | pathDateValues
  deriving DecidableEq

def hashComponents (H : IdealHash) (label : String) (components : List Bytes) : Text :=
  hexText (H.digest (domain label ++ components.flatMap frame))

def propertyNameTerm (H : IdealHash) (name : Text) : Text :=
  hashComponents H "kwiry-property-name-v1" [utf8 name]

def propertyPathTerm (H : IdealHash) (name path : Text) : Text :=
  hashComponents H "kwiry-property-path-v1" [utf8 (propertyNameTerm H name), utf8 path]

/-- A double that is neither infinite nor a NaN. -/
def isFiniteDouble (bits : ℕ) : Bool :=
  isFiniteBits 11 52 bits

/-- A signed word as the unsigned word with its bits. -/
def wordOfInt (value : ℤ) : ℕ :=
  (value % 2 ^ 64).toNat

/-- The kind and the bytes of a scalar. Containers are flattened before they are asked for. -/
def scalarIdentity : PropertyValue → Bytes × Bytes
  | .null => (utf8 "null".toList, [])
  | .bool value => (utf8 "bool".toList, [if value then 1 else 0])
  | .i64 value => (utf8 "i64".toList, leBytes 8 (wordOfInt value))
  | .u64 value => (utf8 "u64".toList, leBytes 8 value)
  | .f64 bits => (utf8 "real".toList, leBytes 8 bits)
  | .string value =>
    (utf8 (if isIsoCalendarDate value then "date" else "string").toList, utf8 value)
  | .sequence _ | .map _ => ([], [])

def propertyExactTermForKey (H : IdealHash) (key : Text) (value : PropertyValue) : Text :=
  hashComponents H "kwiry-property-exact-v1"
    [utf8 key, (scalarIdentity value).1, (scalarIdentity value).2]

/-- Sixteen lower-case hexadecimal digits. -/
def hexWord (word : ℕ) : Text :=
  (fixedDigits 16 16 word).map hexDigit

/-- A term behind its key. -/
def keyed (key value : Text) : Text :=
  key ++ ':' :: value

-- the sign bit is flipped, so that negative words come first
def propertyI64TermForKey (key : Text) (value : ℤ) : Text :=
  keyed key (hexWord (wordOfInt value ^^^ 2 ^ 63))

def propertyU64TermForKey (key : Text) (value : ℕ) : Text :=
  keyed key (hexWord value)

/-- The bits of a double as a word that sorts like it: negative ones are complemented. -/
def sortableBits (bits : ℕ) : ℕ :=
  if bits < 2 ^ 63 then bits ^^^ 2 ^ 63 else 2 ^ 64 - 1 - bits

def propertyF64TermForKey (key : Text) (bits : ℕ) : Text :=
  keyed key (hexWord (sortableBits bits))

def propertyDateTermForKey (key value : Text) : Text :=
  keyed key value

/-! ## §2 Projection -/

/-- The terms of a document, field by field. -/
def PropertyProjection := PropertyField → Std.ExtTreeSet Text

def PropertyProjection.empty : PropertyProjection :=
  fun _ => ∅

def PropertyProjection.insert (projection : PropertyProjection) (field : PropertyField)
    (term : Text) : PropertyProjection :=
  fun f => if f = field then (projection f).insert term else projection f

/-- The terms a scalar is projected to, under its property's key and under its path's. -/
def scalarTerms (H : IdealHash) (name path : Text) (value : PropertyValue) :
    List (PropertyField × Text) :=
  let property := propertyNameTerm H name
  let pathKey := propertyPathTerm H name path
  [(.paths, pathKey), (.exact, propertyExactTermForKey H property value),
    (.pathExact, propertyExactTermForKey H pathKey value)] ++
  match value with
  | .i64 value =>
    [(.i64Values, propertyI64TermForKey property value),
      (.pathI64Values, propertyI64TermForKey pathKey value)]
  | .u64 value =>
    [(.u64Values, propertyU64TermForKey property value),
      (.pathU64Values, propertyU64TermForKey pathKey value)]
  | .f64 bits =>
    if isFiniteDouble bits then
      [(.f64Values, propertyF64TermForKey property bits),
        (.pathF64Values, propertyF64TermForKey pathKey bits)]
    else []
  | .string value =>
    if isIsoCalendarDate value then
      [(.dateValues, propertyDateTermForKey property value),
        (.pathDateValues, propertyDateTermForKey pathKey value)]
    else []
  | _ => []

def projectPropertyScalar (H : IdealHash) (name path : Text) (value : PropertyValue)
    (projection : PropertyProjection) : PropertyProjection :=
  (scalarTerms H name path value).foldl (fun projection term => projection.insert term.1 term.2)
    projection

/-- `component.replace('~', "~0").replace('/', "~1")` -/
def escapeJsonPointerComponent (component : Text) : Text :=
  (component.flatMap fun c => if c = '~' then ['~', '0'] else [c]).flatMap
    fun c => if c = '/' then ['~', '1'] else [c]

def indexPointer (pointer : Text) (index : ℕ) : Text :=
  pointer ++ '/' :: (toString index).toList

def componentPointer (pointer component : Text) : Text :=
  pointer ++ '/' :: escapeJsonPointerComponent component

mutual

def projectPropertyValue (H : IdealHash) (name path : Text) :
    PropertyValue → PropertyProjection → PropertyProjection
  | .sequence values, projection => projectSequence H name path 0 values projection
  | .map entries, projection => projectMap H name path entries projection
  | scalar, projection => projectPropertyScalar H name path scalar projection

def projectSequence (H : IdealHash) (name path : Text) (index : ℕ) :
    List PropertyValue → PropertyProjection → PropertyProjection
  | [], projection => projection
  | value :: rest, projection =>
    projectSequence H name path (index + 1) rest
      (projectPropertyValue H name (indexPointer path index) value projection)

def projectMap (H : IdealHash) (name path : Text) :
    List (Text × PropertyValue) → PropertyProjection → PropertyProjection
  | [], projection => projection
  | (component, value) :: rest, projection =>
    projectMap H name path rest
      (projectPropertyValue H name (componentPointer path component) value projection)

end

def projectProperties (H : IdealHash) (properties : PropertyBag) : PropertyProjection :=
  properties.entries.foldl
    (fun projection entry =>
      projectPropertyValue H entry.1 [] entry.2
        (projection.insert .names (propertyNameTerm H entry.1)))
    .empty

/-! ## §3 Queries -/

/-- The term dictionaries of an index, one for each segment. -/
structure NativeSearchContext where
  segments : List (PropertyField → List Text)

inductive NativeQuery where
  | term (field : PropertyField) (term : Text)
  | termSet (field : PropertyField) (terms : Std.ExtTreeSet Text)

def NativeQuery.matches (query : NativeQuery) (projection : PropertyProjection) : Bool :=
  match query with
  | .term field value => (projection field).contains value
  | .termSet field values => (projection field).toList.any fun value => values.contains value

def chargeNativeRankingWork (workUnits amount : ℕ) : Except String ℕ :=
  if workUnits + amount ≤ maxRankingWorkUnits then .ok (workUnits + amount)
  else .error "ranking_work_limit_exceeded: native signal hydration exceeded its deterministic limit"

/-- The terms of a dictionary between two bounds, both inclusive, as their bytes compare. -/
def termsBetween (lower upper : Text) (terms : List Text) : List Text :=
  terms.filter fun term =>
    (compare (utf8 lower) (utf8 term)).isLE && (compare (utf8 term) (utf8 upper)).isLE

/-- The terms of all segments in a range are streamed, charged and collected. -/
def boundedStringRangeQuery (context : NativeSearchContext) (field : PropertyField)
    (lower upper : Text) (workUnits : ℕ) : Except String (NativeQuery × ℕ) := do
  let stream := context.segments.flatMap fun segment => termsBetween lower upper (segment field)
  let (terms, workUnits) ← stream.foldlM
    (fun state term => do
      let workUnits ← chargeNativeRankingWork state.2 1
      return (state.1.insert term, workUnits))
    ((∅ : Std.ExtTreeSet Text), workUnits)
  return (.termSet field terms, workUnits)

def parseI64 (value : Text) : Except String ℤ :=
  match parseSigned (2 ^ 63) value with
  | some value => .ok value
  | none => .error "invalid_relevance_profile: malformed i64 ranking value"

def parseU64 (value : Text) : Except String ℕ :=
  match parseUnsigned (2 ^ 64) value with
  | some value => .ok value
  | none => .error "invalid_relevance_profile: malformed u64 ranking value"

/-- `u64::from_str_radix` in base sixteen: either case of digit, an optional plus sign. -/
def parseHexWord (text : Text) : Option ℕ :=
  let digits := match text with
    | '+' :: rest => rest
    | _ => text
  let isHexDigit (c : Char) : Bool := c.isDigit || ('a' ≤ c.toLower && c.toLower ≤ 'f')
  if digits.isEmpty || !digits.all isHexDigit then none
  else
    let value := digitsValue 16 (digits.map fun c => hexValue c.toLower)
    if value < 2 ^ 64 then some value else none

def parseF64Bits (value : Text) : Except String ℕ :=
  match parseHexWord value with
  | none => .error "invalid_relevance_profile: malformed f64 ranking value"
  | some bits =>
    if isFiniteDouble bits then .ok bits
    else .error "invalid_relevance_profile: non-finite f64 ranking value"

def propertyValueFromRankingScalar : RankingScalar → Except String PropertyValue
  | .null => .ok .null
  | .boolean value => .ok (.bool value)
  | .i64 value => (parseI64 value).map .i64
  | .u64 value => (parseU64 value).map .u64
  | .f64 value => (parseF64Bits value).map .f64
  | .string value => .ok (.string value)
  | .date value => .ok (.string value)

/-- A bound of a range, or the end of its type. -/
def boundOr {α : Type} (parse : Text → Except String α) (default : α) :
    Option Text → Except String α
  | none => .ok default
  | some value => parse value

/-- The field and the key a rule looks under: its path's with a pointer, else its property's. -/
def ruleKey (H : IdealHash) (property : Text) (pointer : Option Text)
    (field pathField : PropertyField) : PropertyField × Text :=
  match pointer with
  | some pointer => (pathField, propertyPathTerm H property pointer)
  | none => (field, propertyNameTerm H property)

def maxDoubleBits : ℕ := 0x7fefffffffffffff
def minDoubleBits : ℕ := 0xffefffffffffffff

/-- Either zero, as the one given. -/
def widenZero (zeroBits bits : ℕ) : ℕ :=
  if numericKey 64 bits = 0 then zeroBits else bits

def compilePropertyRuleQuery (H : IdealHash) (context : NativeSearchContext) (rule : PropertyRule)
    (workUnits : ℕ) : Except String (NativeQuery × ℕ) := do
  let workUnits ← chargeNativeRankingWork workUnits 1
  match rule.predicate with
  | .presence => return (.term .names (propertyNameTerm H rule.property), workUnits)
  | .exact pointer value => do
    let value ← propertyValueFromRankingScalar value
    let (field, key) := ruleKey H rule.property pointer .exact .pathExact
    return (.term field (propertyExactTermForKey H key value), workUnits)
  | .i64Range pointer min max => do
    let min ← boundOr parseI64 (-2 ^ 63) min
    let max ← boundOr parseI64 (2 ^ 63 - 1) max
    let (field, key) := ruleKey H rule.property pointer .i64Values .pathI64Values
    boundedStringRangeQuery context field (propertyI64TermForKey key min)
      (propertyI64TermForKey key max) workUnits
  | .u64Range pointer min max => do
    let min ← boundOr parseU64 0 min
    let max ← boundOr parseU64 (2 ^ 64 - 1) max
    let (field, key) := ruleKey H rule.property pointer .u64Values .pathU64Values
    boundedStringRangeQuery context field (propertyU64TermForKey key min)
      (propertyU64TermForKey key max) workUnits
  | .f64Range pointer min max => do
    let min ← boundOr parseF64Bits minDoubleBits min
    let max ← boundOr parseF64Bits maxDoubleBits max
    let (field, key) := ruleKey H rule.property pointer .f64Values .pathF64Values
    -- a zero bound takes both zeros in
    boundedStringRangeQuery context field (propertyF64TermForKey key (widenZero (2 ^ 63) min))
      (propertyF64TermForKey key (widenZero 0 max)) workUnits
  | .dateRange pointer min max =>
    let min := min.getD "0000-01-01".toList
    let max := max.getD "9999-12-31".toList
    let (field, key) := ruleKey H rule.property pointer .dateValues .pathDateValues
    boundedStringRangeQuery context field (propertyDateTermForKey key min)
      (propertyDateTermForKey key max) workUnits

/-! ## §4 What is projected -/

mutual

/-- The scalars of a value with their pointers, in order. -/
def PropertyValue.scalars (path : Text) : PropertyValue → List (Text × PropertyValue)
  | .sequence values => scalarsOfSequence path 0 values
  | .map entries => scalarsOfMap path entries
  | scalar => [(path, scalar)]

def scalarsOfSequence (path : Text) (index : ℕ) :
    List PropertyValue → List (Text × PropertyValue)
  | [] => []
  | value :: rest =>
    value.scalars (indexPointer path index) ++ scalarsOfSequence path (index + 1) rest

def scalarsOfMap (path : Text) : List (Text × PropertyValue) → List (Text × PropertyValue)
  | [] => []
  | (component, value) :: rest =>
    value.scalars (componentPointer path component) ++ scalarsOfMap path rest

end

section Projection

variable (H : IdealHash) (name : Text)

private def projectScalars (scalars : List (Text × PropertyValue))
    (projection : PropertyProjection) : PropertyProjection :=
  scalars.foldl (fun projection scalar => projectPropertyScalar H name scalar.1 scalar.2 projection)
    projection

mutual

lemma projectPropertyValue_eq (path : Text) (value : PropertyValue)
    (projection : PropertyProjection) :
    projectPropertyValue H name path value projection =
      projectScalars H name (value.scalars path) projection := by
  match value with
  | .sequence values =>
    rw [projectPropertyValue, PropertyValue.scalars, projectSequence_eq]
  | .map entries =>
    rw [projectPropertyValue, PropertyValue.scalars, projectMap_eq]
  | .null | .bool _ | .i64 _ | .u64 _ | .f64 _ | .string _ => rfl

lemma projectSequence_eq (path : Text) (index : ℕ) (values : List PropertyValue)
    (projection : PropertyProjection) :
    projectSequence H name path index values projection =
      projectScalars H name (scalarsOfSequence path index values) projection := by
  match values with
  | [] => rfl
  | value :: rest =>
    rw [projectSequence, scalarsOfSequence, projectPropertyValue_eq, projectSequence_eq]
    exact (foldl_append ..).symm

lemma projectMap_eq (path : Text) (entries : List (Text × PropertyValue))
    (projection : PropertyProjection) :
    projectMap H name path entries projection =
      projectScalars H name (scalarsOfMap path entries) projection := by
  match entries with
  | [] => rfl
  | (component, value) :: rest =>
    rw [projectMap, scalarsOfMap, projectPropertyValue_eq, projectMap_eq]
    exact (foldl_append ..).symm

end

end Projection

lemma PropertyProjection.mem_insert (projection : PropertyProjection) (field f : PropertyField)
    (term t : Text) :
    t ∈ projection.insert field term f ↔ t ∈ projection f ∨ (f, t) = (field, term) := by
  rw [PropertyProjection.insert]
  split
  · next hfield =>
    subst hfield
    rw [Std.ExtTreeSet.mem_insert, Std.LawfulEqOrd.compare_eq_iff_eq, or_comm, Prod.mk.injEq,
      and_iff_right rfl, eq_comm]
  · next hfield => simp [hfield]

lemma mem_projectPropertyScalar_iff (H : IdealHash) (name path : Text) (value : PropertyValue)
    (projection : PropertyProjection) (field : PropertyField) (term : Text) :
    term ∈ projectPropertyScalar H name path value projection field ↔
      term ∈ projection field ∨ (field, term) ∈ scalarTerms H name path value := by
  rw [projectPropertyScalar]
  rw [foldl_iff (P := fun projection : PropertyProjection => term ∈ projection field)
    (Q := fun entry => (field, term) = entry)
    (fun projection entry => projection.mem_insert entry.1 field entry.2 term)]
  simp

/-- A term is projected from a name or from one of the scalars below it. -/
theorem mem_projectProperties_iff (H : IdealHash) (properties : PropertyBag)
    (field : PropertyField) (term : Text) :
    term ∈ projectProperties H properties field ↔
      ∃ entry ∈ properties.entries, (field, term) = (.names, propertyNameTerm H entry.1) ∨
        ∃ scalar ∈ entry.2.scalars [], (field, term) ∈ scalarTerms H entry.1 scalar.1 scalar.2 := by
  have hstep : ∀ (projection : PropertyProjection) (entry : Text × PropertyValue),
      term ∈ projectPropertyValue H entry.1 [] entry.2
          (projection.insert .names (propertyNameTerm H entry.1)) field ↔
        term ∈ projection field ∨ ((field, term) = (.names, propertyNameTerm H entry.1) ∨
          ∃ scalar ∈ entry.2.scalars [], (field, term) ∈ scalarTerms H entry.1 scalar.1 scalar.2) := by
    intro projection entry
    rw [projectPropertyValue_eq, projectScalars,
      foldl_iff (P := fun projection : PropertyProjection => term ∈ projection field)
        (fun projection scalar =>
          mem_projectPropertyScalar_iff H entry.1 scalar.1 scalar.2 projection field term),
      PropertyProjection.mem_insert, or_assoc]
  rw [projectProperties, foldl_iff (P := fun projection : PropertyProjection =>
    term ∈ projection field) hstep]
  simp [PropertyProjection.empty]

/-! ## §5 Keys -/

lemma hexDigit_ascii {n : ℕ} (h : n < 16) : (hexDigit n).toNat < 128 ∧ hexDigit n ≠ ':' := by
  have hall : ∀ n < 16, (hexDigit n).toNat < 128 ∧ hexDigit n ≠ ':' := by decide +kernel
  exact hall n h

lemma mem_hexText {digest : Bytes} {c : Char} (h : c ∈ hexText digest) :
    ∃ n < 16, c = hexDigit n := by
  obtain ⟨byte, -, hc⟩ := mem_flatMap.mp h
  have hbyte : byte.toNat < 256 := byte.toNat_lt
  rcases mem_cons.mp hc with rfl | hc
  · exact ⟨_, by omega, rfl⟩
  · exact ⟨_, Nat.mod_lt _ (by decide), mem_singleton.mp hc⟩

lemma isAscii_hashComponents (H : IdealHash) (label : String) (components : List Bytes) :
    isAscii (hashComponents H label components) := by
  intro c hc
  obtain ⟨n, hn, rfl⟩ := mem_hexText hc
  exact (hexDigit_ascii hn).1

lemma colon_notMem_hashComponents (H : IdealHash) (label : String) (components : List Bytes) :
    ':' ∉ hashComponents H label components := by
  intro hc
  obtain ⟨n, hn, heq⟩ := mem_hexText hc
  exact (hexDigit_ascii hn).2 heq.symm

lemma length_utf8_hashComponents_le {H : IdealHash} (hH : H.Compact) (label : String)
    (components : List Bytes) :
    (utf8 (hashComponents H label components)).length ≤
      2 * ((domain label).length + (components.flatMap frame).length + 32) := by
  rw [utf8_of_ascii (isAscii_hashComponents H label components), length_map]
  have hdigest := hH (domain label ++ components.flatMap frame)
  have htext : ∀ digest : Bytes, (hexText digest).length = 2 * digest.length := by
    intro digest
    induction digest with
    | nil => rfl
    | cons byte rest ih =>
      simp only [hexText, flatMap_cons, length_append, length_cons, length_nil] at ih ⊢
      omega
  rw [hashComponents, htext]
  rw [length_append] at hdigest
  omega

lemma hashComponents_inj {H : IdealHash} {label : String} {xs ys : List Bytes}
    (hsize : (xs.flatMap frame).length < 2 ^ 64)
    (h : hashComponents H label xs = hashComponents H label ys) : xs = ys :=
  flatMap_frame_inj hsize (append_cancel_left (H.injective (hexText_injective h)))

@[simp] lemma length_frame (b : Bytes) : (frame b).length = 8 + b.length := by
  simp [frame]

section Keys

variable {H : IdealHash} {name path : Text}

lemma length_propertyNameTerm_le (hH : H.Compact)
    (hname : utf8Len name ≤ maxRankingPropertyNameBytes) :
    (utf8 (propertyNameTerm H name)).length ≤ 1000 := by
  have hlength := length_utf8_hashComponents_le hH "kwiry-property-name-v1" [utf8 name]
  have hdomain : (domain "kwiry-property-name-v1").length = 23 := by decide +kernel
  rw [hdomain] at hlength
  simp only [flatMap_cons, flatMap_nil, append_nil, length_frame] at hlength
  rw [length_utf8 name] at hlength
  unfold maxRankingPropertyNameBytes at hname
  exact hlength.trans (by omega)

lemma length_propertyPathTerm_le (hH : H.Compact)
    (hname : utf8Len name ≤ maxRankingPropertyNameBytes)
    (hpath : utf8Len path ≤ maxRankingJsonPointerBytes) :
    (utf8 (propertyPathTerm H name path)).length ≤ 5000 := by
  have hlength := length_utf8_hashComponents_le hH "kwiry-property-path-v1"
    [utf8 (propertyNameTerm H name), utf8 path]
  have hterm := length_propertyNameTerm_le hH hname
  have hdomain : (domain "kwiry-property-path-v1").length = 23 := by decide +kernel
  rw [hdomain] at hlength
  simp only [flatMap_cons, flatMap_nil, append_nil, length_append, length_frame] at hlength
  rw [length_utf8 path] at hlength
  unfold maxRankingJsonPointerBytes at hpath
  exact hlength.trans (by omega)

lemma propertyNameTerm_inj (hname : utf8Len name ≤ maxRankingPropertyNameBytes) (name' : Text) :
    propertyNameTerm H name = propertyNameTerm H name' ↔ name = name' := by
  refine ⟨fun h => ?_, fun h => by rw [h]⟩
  unfold maxRankingPropertyNameBytes at hname
  have hlist := hashComponents_inj (by
    simp only [flatMap_cons, flatMap_nil, append_nil, length_frame, length_utf8]
    omega) h
  exact utf8_injective (cons.inj hlist).1

lemma propertyPathTerm_inj (hH : H.Compact)
    (hname : utf8Len name ≤ maxRankingPropertyNameBytes)
    (hpath : utf8Len path ≤ maxRankingJsonPointerBytes) (name' path' : Text) :
    propertyPathTerm H name path = propertyPathTerm H name' path' ↔ name = name' ∧ path = path' := by
  refine ⟨fun h => ?_, fun ⟨hn, hp⟩ => by rw [hn, hp]⟩
  have hterm := length_propertyNameTerm_le hH hname
  unfold maxRankingJsonPointerBytes at hpath
  have hlist := hashComponents_inj (by
    simp only [flatMap_cons, flatMap_nil, append_nil, length_append, length_frame]
    rw [length_utf8 path]
    omega) h
  obtain ⟨hfirst, hrest⟩ := cons.inj hlist
  exact ⟨(propertyNameTerm_inj hname name').mp (utf8_injective hfirst),
    utf8_injective (cons.inj hrest).1⟩

lemma propertyExactTermForKey_inj {key key' : Text} {value value' : PropertyValue}
    (hkey : (utf8 key).length ≤ 5000)
    (hvalue : (scalarIdentity value).1.length + (scalarIdentity value).2.length ≤ 5000) :
    propertyExactTermForKey H key value = propertyExactTermForKey H key' value' ↔
      key = key' ∧ scalarIdentity value = scalarIdentity value' := by
  refine ⟨fun h => ?_, fun ⟨hk, hv⟩ => by rw [propertyExactTermForKey, hk, hv]; rfl⟩
  have hlist := hashComponents_inj (by
    simp only [flatMap_cons, flatMap_nil, append_nil, length_append, length_frame]
    omega) h
  obtain ⟨hfirst, hrest⟩ := cons.inj hlist
  obtain ⟨hkind, hrest⟩ := cons.inj hrest
  exact ⟨utf8_injective hfirst, Prod.ext hkind (cons.inj hrest).1⟩

end Keys

/-! ## §6 Intervals -/

/-- Behind keys without a colon, an interval of one key's terms holds no other key's. -/
theorem between_keyed_iff {key key' lower upper value : Text} (hkey : ':' ∉ key)
    (hkey' : ':' ∉ key') (hascii : isAscii key) (hascii' : isAscii key') (hlower : isAscii lower)
    (hupper : isAscii upper) (hvalue : isAscii value) :
    ((compare (utf8 (keyed key lower)) (utf8 (keyed key' value))).isLE &&
        (compare (utf8 (keyed key' value)) (utf8 (keyed key upper))).isLE) = true ↔
      key = key' ∧ (compare lower value).isLE = true ∧ (compare value upper).isLE = true := by
  have hkeyed : ∀ {key value : Text}, isAscii key → isAscii value → isAscii (keyed key value) := by
    intro key value hk hv
    exact isAscii_append.mpr ⟨hk, forall_mem_cons.mpr ⟨by decide, hv⟩⟩
  rw [compare_utf8_of_ascii (hkeyed hascii hlower) (hkeyed hascii' hvalue),
    compare_utf8_of_ascii (hkeyed hascii' hvalue) (hkeyed hascii hupper), Bool.and_eq_true]
  have hassoc : ∀ key value : Text, keyed key value = (key ++ [':']) ++ value := by
    intro key value
    simp [keyed]
  constructor
  · rintro ⟨hlow, hhigh⟩
    -- what lies between shares the key and its colon
    have hpre : key ++ [':'] <+: keyed key' value := by
      rw [hassoc key lower] at hlow
      rw [hassoc key upper] at hhigh
      exact isPrefix_of_between hlow hhigh
    obtain ⟨rest, hrest⟩ := hpre
    have htake : ∀ key rest : Text, ':' ∉ key → (key ++ ':' :: rest).takeWhile (· ≠ ':') = key := by
      intro key rest hnot
      rw [takeWhile_append_of_pos]
      · simp
      · intro c hc
        simpa using fun heq : c = ':' => hnot (heq ▸ hc)
    have heq : key = key' := by
      rw [← htake key rest hkey, ← htake key' value hkey']
      rw [append_assoc] at hrest
      exact congrArg (takeWhile (· ≠ ':')) hrest
    subst heq
    rw [hassoc key lower, hassoc key value, compare_append_left] at hlow
    rw [hassoc key value, hassoc key upper, compare_append_left] at hhigh
    exact ⟨rfl, hlow, hhigh⟩
  · rintro ⟨rfl, hlow, hhigh⟩
    rw [hassoc key lower, hassoc key value, hassoc key upper, compare_append_left,
      compare_append_left]
    exact ⟨hlow, hhigh⟩

lemma compare_hexWord {n m : ℕ} (hn : n < 2 ^ 64) (hm : m < 2 ^ 64) :
    compare (hexWord n) (hexWord m) = compare n m := by
  have hdigits : ∀ i < 16, ∀ j < 16, compare (hexDigit i) (hexDigit j) = compare i j := by
    decide +kernel
  rw [hexWord, hexWord, compare_map fun i hi j hj =>
    hdigits i (fixedDigits_lt (by decide) hi) j (fixedDigits_lt (by decide) hj)]
  exact compare_fixedDigits (by decide) hn hm

lemma isAscii_hexWord (n : ℕ) : isAscii (hexWord n) := by
  intro c hc
  obtain ⟨digit, hdigit, rfl⟩ := mem_map.mp hc
  exact (hexDigit_ascii (fixedDigits_lt (by decide) hdigit)).1

/-- The terms a compiled range collects are those of the segments in the interval. -/
theorem mem_of_boundedStringRangeQuery {context : NativeSearchContext} {field : PropertyField}
    {lower upper : Text} {workUnits spent : ℕ} {query : NativeQuery}
    (h : boundedStringRangeQuery context field lower upper workUnits = .ok (query, spent)) :
    ∃ terms : Std.ExtTreeSet Text, query = .termSet field terms ∧ ∀ term, term ∈ terms ↔
      ∃ segment ∈ context.segments, term ∈ termsBetween lower upper (segment field) := by
  simp only [boundedStringRangeQuery, bind_ok_iff] at h
  obtain ⟨⟨terms, units⟩, hfold, heq⟩ := h
  cases heq
  refine ⟨terms, rfl, fun term => ?_⟩
  have hloop : ∀ (stream : List Text) (state final : Std.ExtTreeSet Text × ℕ),
      stream.foldlM (fun state term => do
        let workUnits ← chargeNativeRankingWork state.2 1
        return (state.1.insert term, workUnits)) state = Except.ok final →
      (term ∈ final.1 ↔ term ∈ state.1 ∨ term ∈ stream) := by
    intro stream
    induction stream with
    | nil =>
      intro state final hfinal
      cases hfinal
      simp
    | cons first rest ih =>
      intro state final hfinal
      obtain ⟨next, hstep, hrest⟩ := foldlM_cons_ok _ hfinal
      obtain ⟨units, -, hnext⟩ := bind_ok_iff.mp hstep
      cases hnext
      rw [ih _ _ hrest, Std.ExtTreeSet.mem_insert, Std.LawfulEqOrd.compare_eq_iff_eq, mem_cons,
        or_comm (a := first = term), or_assoc, eq_comm (a := first)]
  rw [hloop _ _ _ hfold]
  simp

end Kwiry
