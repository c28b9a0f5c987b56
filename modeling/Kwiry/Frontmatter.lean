import Kwiry.Model
import Std.Data.ExtTreeSet

/-!
# Frontmatter

Authored properties: the visitor that builds a property value from a YAML tree, the bag of a
source's properties, and the compact projection and the aliases that are read off it. The YAML
reader is a parameter: what it hands the visitor is a tree.
-/

namespace Kwiry

open Foundations List Option

/-! ## §1 Property values -/

def maxPropertyNestingDepth : ℕ := 64

/-- What the deserializer hands the visitor for a value. A key is `none` where it does not read as a
string, and `other` is a call the visitor does not implement. -/
inductive YamlNode where
  | unit
  | none
  | bool (value : Bool)
  | i64 (value : Int64)
  | u64 (value : UInt64)
  | f64 (bits : UInt64)
  | str (value : Text)
  | seq (nodes : List YamlNode)
  | map (entries : List (Option Text × YamlNode))
  | other

/-- Insertion into a map kept as the list of its entries in key order. -/
def insertEntry (key : Text) (value : PropertyValue) :
    List (Text × PropertyValue) → List (Text × PropertyValue)
  | [] => [(key, value)]
  | (k, v) :: rest =>
    match compare key k with
    | .lt => (key, value) :: (k, v) :: rest
    | .eq => (key, value) :: rest
    | .gt => (k, v) :: insertEntry key value rest

/-- The depth at which children are visited, where there may be any. -/
def childSeed (depth : ℕ) : Option ℕ :=
  if maxPropertyNestingDepth ≤ depth then none else some (depth + 1)

mutual

def visitPropertyValue (depth : ℕ) : YamlNode → Option PropertyValue
  | .unit => some .null
  | .none => some .null
  | .bool value => some (.bool value)
  | .i64 value => some (.i64 value.toInt)
  | .u64 value =>
    some (if value.toNat < 2 ^ 63 then .i64 value.toNat else .u64 value.toNat)
  | .f64 bits => some (.f64 bits.toNat)
  | .str value => some (.string value)
  | .seq nodes => (visitSeq depth nodes).map .sequence
  | .map entries => (visitMap depth [] entries).map .map
  | .other => none

/-- The seed is taken before the end of the sequence is seen. -/
def visitSeq (depth : ℕ) : List YamlNode → Option (List PropertyValue)
  | [] => (childSeed depth).map fun _ => []
  | node :: rest => do
    let value ← visitPropertyValue (← childSeed depth) node
    let values ← visitSeq depth rest
    return value :: values

def visitMap (depth : ℕ) (values : List (Text × PropertyValue)) :
    List (Option Text × YamlNode) → Option (List (Text × PropertyValue))
  | [] => some values
  | (key, node) :: rest => do
    let key ← key
    let value ← visitPropertyValue (← childSeed depth) node
    visitMap depth (insertEntry key value values) rest

end

/-- What the visitor builds with so many levels left: integers of their widths, and maps in strict
key order. -/
inductive PropertyValue.WellFormed : ℕ → PropertyValue → Prop where
  | null (levels : ℕ) : WellFormed levels .null
  | bool (levels : ℕ) (value : Bool) : WellFormed levels (.bool value)
  | i64 (levels : ℕ) (value : ℤ) (hlow : -2 ^ 63 ≤ value) (hhigh : value < 2 ^ 63) :
      WellFormed levels (.i64 value)
  | u64 (levels value : ℕ) (h : value < 2 ^ 64) : WellFormed levels (.u64 value)
  | f64 (levels bits : ℕ) (h : bits < 2 ^ 64) : WellFormed levels (.f64 bits)
  | string (levels : ℕ) (value : Text) : WellFormed levels (.string value)
  | sequence (levels : ℕ) (values : List PropertyValue)
      (h : ∀ value ∈ values, WellFormed levels value) :
      WellFormed (levels + 1) (.sequence values)
  | map (levels : ℕ) (entries : List (Text × PropertyValue))
      (hkeys : entries.Pairwise fun a b => compare a.1 b.1 = .lt)
      (hlevels : entries ≠ [] → 0 < levels)
      (h : ∀ entry ∈ entries, WellFormed (levels - 1) entry.2) :
      WellFormed levels (.map entries)

lemma mem_insertEntry {key : Text} {value : PropertyValue}
    {entries : List (Text × PropertyValue)} {entry : Text × PropertyValue}
    (h : entry ∈ insertEntry key value entries) : entry = (key, value) ∨ entry ∈ entries := by
  induction entries with
  | nil => exact .inl (mem_singleton.mp h)
  | cons head rest ih =>
    obtain ⟨k, v⟩ := head
    rw [insertEntry] at h
    split at h
    · exact mem_cons.mp h
    · rcases mem_cons.mp h with h | h
      · exact .inl h
      · exact .inr (mem_cons_of_mem _ h)
    · rcases mem_cons.mp h with h | h
      · exact .inr (h ▸ mem_cons_self)
      · rcases ih h with h | h
        · exact .inl h
        · exact .inr (mem_cons_of_mem _ h)

lemma pairwise_insertEntry {key : Text} {value : PropertyValue}
    {entries : List (Text × PropertyValue)}
    (h : entries.Pairwise fun a b => compare a.1 b.1 = .lt) :
    (insertEntry key value entries).Pairwise fun a b => compare a.1 b.1 = .lt := by
  induction entries with
  | nil => exact pairwise_singleton _ _
  | cons head rest ih =>
    obtain ⟨k, v⟩ := head
    obtain ⟨hhead, hrest⟩ := pairwise_cons.mp h
    rw [insertEntry]
    split
    · next hlt =>
      refine pairwise_cons.mpr ⟨fun entry hentry => ?_, h⟩
      rcases mem_cons.mp hentry with rfl | hentry
      · exact hlt
      · exact Std.TransCmp.lt_trans hlt (hhead entry hentry)
    · next heq =>
      obtain rfl : key = k := Std.LawfulEqOrd.eq_of_compare heq
      exact pairwise_cons.mpr ⟨hhead, hrest⟩
    · next hgt =>
      refine pairwise_cons.mpr ⟨fun entry hentry => ?_, ih hrest⟩
      rcases mem_insertEntry hentry with rfl | hentry
      · exact Std.OrientedCmp.lt_of_gt hgt
      · exact hhead entry hentry

lemma childSeed_eq_some {depth child : ℕ} (h : childSeed depth = some child) :
    depth < maxPropertyNestingDepth ∧ child = depth + 1 := by
  rw [childSeed] at h
  split at h
  · cases h
  · next hdepth => exact ⟨not_le.mp hdepth, (some.inj h).symm⟩

mutual

/-- What the visitor builds at a depth nests within the levels left. -/
theorem visitPropertyValue_wellFormed {depth : ℕ} {node : YamlNode} {value : PropertyValue}
    (h : visitPropertyValue depth node = some value) :
    value.WellFormed (maxPropertyNestingDepth - depth) := by
  match node with
  | .unit | .none =>
    cases h
    exact .null _
  | .bool _ =>
    cases h
    exact .bool _ _
  | .i64 n =>
    cases h
    exact .i64 _ _ (by simpa using n.le_toInt) (by simpa using n.toInt_lt)
  | .u64 n =>
    have hn : n.toNat < 2 ^ 64 := n.toNat_lt
    rw [visitPropertyValue, some.injEq] at h
    subst h
    split
    · next hsmall => exact .i64 _ _ (by omega) (by omega)
    · exact .u64 _ _ hn
  | .f64 bits =>
    cases h
    exact .f64 _ _ bits.toNat_lt
  | .str _ =>
    cases h
    exact .string _ _
  | .seq nodes =>
    rw [visitPropertyValue, map_eq_some_iff] at h
    obtain ⟨values, hvalues, rfl⟩ := h
    obtain ⟨hdepth, hall⟩ := visitSeq_wellFormed hvalues
    rw [show maxPropertyNestingDepth - depth = maxPropertyNestingDepth - (depth + 1) + 1 by omega]
    exact .sequence _ _ hall
  | .map entries =>
    rw [visitPropertyValue, map_eq_some_iff] at h
    obtain ⟨values, hvalues, rfl⟩ := h
    obtain ⟨hkeys, hlevels, hall⟩ :=
      visitMap_wellFormed hvalues .nil (fun hne => absurd rfl hne) (by simp)
    exact .map _ _ hkeys hlevels hall

lemma visitSeq_wellFormed {depth : ℕ} {nodes : List YamlNode} {values : List PropertyValue}
    (h : visitSeq depth nodes = some values) :
    depth < maxPropertyNestingDepth ∧
      ∀ value ∈ values, value.WellFormed (maxPropertyNestingDepth - (depth + 1)) := by
  match nodes with
  | [] =>
    rw [visitSeq, map_eq_some_iff] at h
    obtain ⟨child, hchild, rfl⟩ := h
    exact ⟨(childSeed_eq_some hchild).1, by simp⟩
  | node :: rest =>
    simp only [visitSeq, bind_eq_bind, bind_eq_some_iff] at h
    obtain ⟨child, hchild, value, hvalue, values, hvalues, heq⟩ := h
    obtain ⟨hdepth, rfl⟩ := childSeed_eq_some hchild
    cases heq
    exact ⟨hdepth, forall_mem_cons.mpr
      ⟨visitPropertyValue_wellFormed hvalue, (visitSeq_wellFormed hvalues).2⟩⟩

lemma visitMap_wellFormed {depth : ℕ} {entries : List (Option Text × YamlNode)}
    {values final : List (Text × PropertyValue)} (h : visitMap depth values entries = some final)
    (hkeys : values.Pairwise fun a b => compare a.1 b.1 = .lt)
    (hlevels : values ≠ [] → 0 < maxPropertyNestingDepth - depth)
    (hall : ∀ entry ∈ values, entry.2.WellFormed (maxPropertyNestingDepth - depth - 1)) :
    (final.Pairwise fun a b => compare a.1 b.1 = .lt) ∧
      (final ≠ [] → 0 < maxPropertyNestingDepth - depth) ∧
      ∀ entry ∈ final, entry.2.WellFormed (maxPropertyNestingDepth - depth - 1) := by
  match entries with
  | [] =>
    cases h
    exact ⟨hkeys, hlevels, hall⟩
  | (key, node) :: rest =>
    simp only [visitMap, bind_eq_bind, bind_eq_some_iff] at h
    obtain ⟨key, rfl, child, hchild, value, hvalue, hrest⟩ := h
    obtain ⟨hdepth, rfl⟩ := childSeed_eq_some hchild
    refine visitMap_wellFormed hrest (pairwise_insertEntry hkeys) (fun _ => by omega) ?_
    intro entry hentry
    rcases mem_insertEntry hentry with rfl | hentry
    · exact visitPropertyValue_wellFormed hvalue
    · exact hall entry hentry

end

/-! ## §2 Bags and what is read off them -/

def PropertyBag.get (bag : PropertyBag) (name : Text) : Option PropertyValue :=
  (bag.entries.find? fun entry => entry.1 = name).map Prod.snd

/-- A bag as the visitor leaves it: the entries of a map at the root. -/
def PropertyBag.WellFormed (bag : PropertyBag) : Prop :=
  (PropertyValue.map bag.entries).WellFormed maxPropertyNestingDepth

lemma PropertyBag.WellFormed.of_mem {bag : PropertyBag} (h : bag.WellFormed) {name : Text}
    {value : PropertyValue} (hmem : (name, value) ∈ bag.entries) :
    value.WellFormed (maxPropertyNestingDepth - 1) := by
  cases h with
  | map _ _ _ _ hall => exact hall _ hmem

lemma PropertyBag.WellFormed.get_eq_some_iff {bag : PropertyBag} (h : bag.WellFormed)
    {name : Text} {value : PropertyValue} :
    bag.get name = some value ↔ (name, value) ∈ bag.entries := by
  cases h with
  | map _ _ hkeys _ _ =>
    rw [PropertyBag.get]
    generalize bag.entries = entries at hkeys
    induction entries with
    | nil => simp
    | cons head rest ih =>
      obtain ⟨k, v⟩ := head
      obtain ⟨hhead, hrest⟩ := pairwise_cons.mp hkeys
      by_cases hk : k = name
      · subst hk
        have hfresh : ∀ w, (k, w) ∉ rest := fun w hw => by
          have hlt := hhead _ hw
          rw [Std.ReflOrd.compare_self] at hlt
          cases hlt
        simp [hfresh, eq_comm]
      · have hne : (name, value) ≠ (k, v) := fun heq => hk (Prod.mk.inj heq).1.symm
        rw [find?_cons_of_neg (by simpa using hk), ih hrest, mem_cons, or_iff_right hne]

/-- The text of a scalar; `displayF64` is how a float prints. -/
def propertyString (displayF64 : ℕ → Text) : PropertyValue → Option Text
  | .bool value => some (toString value).toList
  | .i64 value => some (toString value).toList
  | .u64 value => some (toString value).toList
  | .f64 bits => some (displayF64 bits)
  | .string value => some value
  | .null | .sequence _ | .map _ => none

def propertyStrings (displayF64 : ℕ → Text) : PropertyValue → List Text
  | .sequence values => values.filterMap (propertyString displayF64)
  | value => (propertyString displayF64 value).toList

def Frontmatter.fromProperties (displayF64 : ℕ → Text) (properties : PropertyBag) : Frontmatter :=
  let string (name : String) := (properties.get name.toList).bind (propertyString displayF64)
  { title := string "title"
    description := string "description"
    tags := (properties.get "tags".toList).elim [] (propertyStrings displayF64)
    status := string "status"
    date := string "date" }

def selectAliases (displayF64 : ℕ → Text) (properties : PropertyBag) : List Text :=
  let texts := (properties.get "aliases".toList).elim [] (propertyStrings displayF64)
  ((texts.map trim).filter (· ≠ [])).eraseDups

/-! ## §3 Parsing -/

def maxFrontmatterBytes : ℕ := maxFileBytes

/-- The lines of a text, each with its line feed. -/
def linesInclusive : Text → List Text
  | [] => []
  | c :: rest =>
    if c = '\n' then [c] :: linesInclusive rest
    else
      match linesInclusive rest with
      | [] => [[c]]
      | line :: lines => (c :: line) :: lines

/-- A line without the carriage returns and line feeds at its end. -/
def trimLineEnd (line : Text) : Text :=
  (line.reverse.dropWhile fun c => c = '\r' || c = '\n').reverse

/-- The lines before and after the closing fence. -/
def splitAtFence : List Text → Option (List Text × List Text)
  | [] => none
  | line :: rest =>
    if trimLineEnd line = "---".toList then some ([], rest)
    else (splitAtFence rest).map fun (yaml, body) => (line :: yaml, body)

def splitFrontmatter (source : Text) : Option (Text × Text) :=
  if "---\n".toList.isPrefixOf source || "---\r\n".toList.isPrefixOf source then
    (splitAtFence (linesInclusive ((source.dropWhile (· ≠ '\n')).drop 1))).map
      fun (yaml, body) => (yaml.flatten, body.flatten)
  else none

/-- The YAML reader hands the visitor a tree, where it does not fail itself. -/
def parseYamlValue (readYaml : Text → Option YamlNode) (source : Text) : Option PropertyValue :=
  if maxFrontmatterBytes < utf8Len source then none
  else (readYaml source).bind (visitPropertyValue 0)

structure ParsedFrontmatter where
  properties : PropertyBag
  frontmatter : Frontmatter
  aliases : List Text
  body : Text
  warning : Option String

def parseFrontmatter (readYaml : Text → Option YamlNode) (displayF64 : ℕ → Text)
    (source : Text) : ParsedFrontmatter :=
  match splitFrontmatter source with
  | none => ⟨⟨[]⟩, .default, [], source, none⟩
  | some (yaml, body) =>
    if maxFrontmatterBytes < utf8Len yaml then
      ⟨⟨[]⟩, .default, [], body,
        some s!"frontmatter exceeds {maxFrontmatterBytes} bytes and was ignored"⟩
    else
      match parseYamlValue readYaml yaml with
      | some (.map entries) =>
        ⟨⟨entries⟩, .fromProperties displayF64 ⟨entries⟩, selectAliases displayF64 ⟨entries⟩, body,
          none⟩
      | some _ => ⟨⟨[]⟩, .default, [], body, none⟩
      | none => ⟨⟨[]⟩, .default, [], body, some "invalid YAML frontmatter"⟩

lemma PropertyBag.wellFormed_nil : PropertyBag.WellFormed ⟨[]⟩ :=
  .map _ _ .nil (fun hne => absurd rfl hne) (by simp)

lemma parseFrontmatter_wellFormed (readYaml : Text → Option YamlNode) (displayF64 : ℕ → Text)
    (source : Text) : (parseFrontmatter readYaml displayF64 source).properties.WellFormed := by
  unfold parseFrontmatter
  split
  · exact PropertyBag.wellFormed_nil
  · split
    · exact PropertyBag.wellFormed_nil
    · split
      · next hparse =>
        rw [parseYamlValue] at hparse
        split at hparse
        · cases hparse
        · obtain ⟨node, -, hvisit⟩ := bind_eq_some_iff.mp hparse
          exact visitPropertyValue_wellFormed hvisit
      · exact PropertyBag.wellFormed_nil
      · exact PropertyBag.wellFormed_nil

end Kwiry
