import Kwiry.Cache.Records

/-!
# Derived Records

How the daemon's records are written to JSON and read back: the readers and writers that are
derived from a record's field list. A reader takes an object with every declared field at most
once, in any order and among others, or an array of the fields in order.
-/

namespace Kwiry

open Foundations
open Cache (Json key)

/-- Writing and reading the values of a type. -/
structure Codec (α : Type) where
  write : α → Json
  read : Json → Option α
  read_write : ∀ a, read (write a) = some a

namespace Codec

attribute [simp] read_write

variable {α β : Type}

/-! ## §1 Scalars -/

/-- `String` -/
def text : Codec Text where
  write := .string
  read
    | .string t => some t
    | _ => none
  read_write _ := rfl

/-- The unsigned integers below a bound. -/
def bounded (bound : ℕ) : Codec (Fin bound) where
  write n := .natural n
  read
    | .natural n => if h : n < bound then some ⟨n, h⟩ else none
    | _ => none
  read_write n := dif_pos n.isLt

/-- The variants of an enumeration without data, by name. Naming a variant as the only key of an
object, with nothing under it, is accepted as well. -/
def unitEnum (variants : List α) (name : α → String) (hall : ∀ a, a ∈ variants)
    (hinj : Function.Injective name) : Codec α where
  write a := .string (name a).toList
  read
    | .string t => variants.find? fun a => (name a).toList = t
    | .object [(t, .null)] => variants.find? fun a => (name a).toList = t
    | _ => none
  read_write a := by
    cases hfind : variants.find? fun b => (name b).toList = (name a).toList with
    | none => simpa using List.find?_eq_none.mp hfind a (hall a)
    | some found =>
      have hname : (name found).toList = (name a).toList := by
        simpa using List.find?_some hfind
      rw [hinj (String.toList_inj.mp hname)] at hfind
      exact hfind

/-- `Option`, where nothing is `null`. -/
def readOptional (c : Codec α) : Json → Option (Option α)
  | .null => some none
  | json => (c.read json).map some

lemma readOptional_of_ne (c : Codec α) {json : Json} (h : json ≠ .null) :
    c.readOptional json = (c.read json).map some := by
  cases json <;> first | rfl | exact absurd rfl h

def optional (c : Codec α) (hnull : ∀ a, c.write a ≠ .null) : Codec (Option α) where
  write
    | none => .null
    | some a => c.write a
  read := c.readOptional
  read_write := by
    intro value
    cases value with
    | none => rfl
    | some a => simp [c.readOptional_of_ne (hnull a)]

/-! ## §2 Maps -/

variable (c : Codec α)

def writeMap (entries : Std.ExtTreeMap Text α) : Json :=
  .object (entries.toList.map fun entry => (entry.1, c.write entry.2))

/-- The entries are inserted one after the other; of equal keys the last one stays. -/
def readMap : Json → Option (Std.ExtTreeMap Text α)
  | .object fields => do
    let entries ← fields.mapM fun field => (c.read field.2).map fun a => (field.1, a)
    return .ofList entries
  | _ => none

lemma readMap_writeMap (entries : Std.ExtTreeMap Text α) :
    c.readMap (c.writeMap entries) = some entries := by
  have hread : ∀ list : List (Text × α), (list.map fun entry => (entry.1, c.write entry.2)).mapM
        (fun field => (c.read field.2).map fun a => (field.1, a)) = some list := by
    intro list
    induction list with
    | nil => rfl
    | cons entry rest ih => simp [ih]
  have hof : Std.ExtTreeMap.ofList entries.toList = entries := by
    apply Std.ExtTreeMap.ext_getElem?
    intro k
    cases hget : entries[k]? with
    | some a =>
      exact Std.ExtTreeMap.getElem?_ofList_of_mem Std.ReflCmp.compare_self
        Std.ExtTreeMap.distinct_keys_toList
        (Std.ExtTreeMap.mem_toList_iff_getElem?_eq_some.mpr hget)
    | none =>
      apply Std.ExtTreeMap.getElem?_ofList_of_contains_eq_false
      simp [Std.ExtTreeMap.map_fst_toList_eq_keys, Std.ExtTreeMap.mem_iff_isSome_getElem?, hget]
  simp [readMap, writeMap, hread, hof]

/-- `BTreeMap<String, _>` -/
def map : Codec (Std.ExtTreeMap Text α) where
  write := c.writeMap
  read := c.readMap
  read_write := c.readMap_writeMap

end Codec

/-! ## §3 Fields -/

/-- A declared field. Where the source gives it a default, an array may end before it. -/
structure RecordField where
  name : Text
  defaulted : Bool

/-- The values of the declared fields. -/
def fieldsOf (declared : List RecordField) : Json → Option (List (Text × Json))
  | .object fields =>
    if ∀ field ∈ declared, fields.countP (·.1 = field.name) ≤ 1 then some fields else none
  | .array items =>
    if items.length ≤ declared.length ∧ ∀ field ∈ declared.drop items.length, field.defaulted then
      some ((declared.map RecordField.name).zip items)
    else
      none
  | _ => none

variable {α : Type}

/-- The value of a field that has to be there. -/
def requiredField (c : Codec α) (name : Text) (fields : List (Text × Json)) : Option α :=
  (fields.lookup name).bind c.read

/-- The value of a field that may be missing. -/
def defaultedField (c : Codec α) (default : α) (name : Text) (fields : List (Text × Json)) :
    Option α :=
  match fields.lookup name with
  | some json => c.read json
  | none => some default

section Reading

variable {c : Codec α} {name : Text} {fields : List (Text × Json)} {default : α}

lemma requiredField_eq (a : α) (h : fields.lookup name = some (c.write a)) :
    requiredField c name fields = some a := by
  simp [requiredField, h]

lemma defaultedField_eq (a : α) (h : fields.lookup name = some (c.write a)) :
    defaultedField c default name fields = some a := by
  simp [defaultedField, h]

lemma defaultedField_missing (h : fields.lookup name = none) :
    defaultedField c default name fields = some default := by
  simp [defaultedField, h]

lemma bind_eq_some_of {β : Type} {x : Option α} {f : α → Option β} {a : α} {b : β}
    (hx : x = some a) (hf : f a = some b) : (x >>= f) = some b := by
  rw [hx]
  exact hf

end Reading

/-- An object with some of the given keys, each once, reads as its fields. -/
theorem fieldsOf_object (declared : List RecordField) (keys : List Text)
    {fields : List (Text × Json)} (hsub : (fields.map Prod.fst).isSublist keys = true) (hnodup : keys.Nodup) :
    fieldsOf declared (.object fields) = some fields := by
  rw [fieldsOf, if_pos]
  intro field _
  have hcount := List.nodup_iff_count_le_one.mp
    (hnodup.sublist (List.isSublist_iff_sublist.mp hsub)) field.name
  rw [List.count, List.countP_map] at hcount
  refine le_of_eq_of_le (List.countP_congr fun x _ => ?_) hcount
  simp

end Kwiry
