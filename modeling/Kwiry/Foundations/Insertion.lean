import Mathlib.Data.List.Nodup
import Mathlib.Data.List.TakeWhile

/-!
# Sets and Maps in Insertion Order

Collections that are iterated in the order their keys came in: a set is the list of its items, a
map the list of its entries. Setting a key that is present replaces its value in place; deleting
keeps the order of what is left.
-/

namespace Kwiry.Foundations

open List

variable {α β : Type*}

/-! ## §1 Sets -/

variable {a item set : α}

section Sets

variable [DecidableEq α]

def setAdd (item : α) (items : List α) : List α :=
  if item ∈ items then items else items ++ [item]

def setDelete (item : α) (items : List α) : List α :=
  items.filter (· ≠ item)

variable {items : List α}

@[simp] lemma mem_setAdd : a ∈ setAdd item items ↔ a = item ∨ a ∈ items := by
  unfold setAdd
  split
  · next hmem => exact ⟨.inr, fun h => h.elim (fun heq => heq ▸ hmem) id⟩
  · simp [or_comm]

@[simp] lemma mem_setDelete : a ∈ setDelete item items ↔ a ∈ items ∧ a ≠ item := by
  simp [setDelete]

lemma length_setDelete_le (item : α) (items : List α) :
    (setDelete item items).length ≤ items.length :=
  length_filter_le _ _

lemma length_setDelete_lt (h : item ∈ items) : (setDelete item items).length < items.length :=
  length_filter_lt_length_iff_exists.mpr ⟨item, h, by simp⟩

end Sets

/-! ## §2 Maps -/

def mapKeys (entries : List (α × β)) : List α :=
  entries.map Prod.fst

@[simp] lemma mem_mapKeys {key : α} {entries : List (α × β)} :
    key ∈ mapKeys entries ↔ ∃ value, (key, value) ∈ entries := by
  simp [mapKeys]

lemma value_unique {entries : List (α × β)} (h : (mapKeys entries).Nodup) {key : α} {v w : β}
    (hv : (key, v) ∈ entries) (hw : (key, w) ∈ entries) : v = w := by
  have heq := inj_on_of_nodup_map h hv hw rfl
  exact (Prod.mk.inj heq).2

/-- A value that some entry after a key's own has. -/
def LaterValue (key : α) (value : β) (entries : List (α × β)) : Prop :=
  ∃ before own after other, entries = before ++ (key, own) :: after ∧ (other, value) ∈ after

lemma LaterValue.mem {key : α} {value : β} {entries : List (α × β)}
    (h : LaterValue key value entries) : ∃ other, (other, value) ∈ entries := by
  obtain ⟨before, own, after, other, rfl, hmem⟩ := h
  exact ⟨other, mem_append_right _ (mem_cons_of_mem _ hmem)⟩

section Updates

variable [DecidableEq α]

def mapSet (key : α) (value : β) (entries : List (α × β)) : List (α × β) :=
  if key ∈ mapKeys entries then
    entries.map fun entry => if entry.1 = key then (key, value) else entry
  else entries ++ [(key, value)]

def mapDelete (key : α) (entries : List (α × β)) : List (α × β) :=
  entries.filter (·.1 ≠ key)

/-- The entries that come after a key. -/
def entriesAfter (key : α) (entries : List (α × β)) : List (α × β) :=
  (entries.dropWhile (·.1 ≠ key)).drop 1

variable {entries : List (α × β)} {key : α} {value : β}

@[simp] lemma mem_mapDelete {entry : α × β} :
    entry ∈ mapDelete key entries ↔ entry ∈ entries ∧ entry.1 ≠ key := by
  simp [mapDelete]

lemma mem_mapSet {entry : α × β} :
    entry ∈ mapSet key value entries ↔ entry = (key, value) ∨ entry ∈ entries ∧ entry.1 ≠ key := by
  obtain ⟨k, v⟩ := entry
  unfold mapSet
  split
  · next hmem =>
    obtain ⟨old, hold⟩ := mem_mapKeys.mp hmem
    rw [mem_map]
    constructor
    · rintro ⟨other, hother, heq⟩
      by_cases hkey : other.1 = key
      · rw [if_pos hkey] at heq
        exact .inl heq.symm
      · rw [if_neg hkey] at heq
        exact .inr ⟨heq ▸ hother, heq ▸ hkey⟩
    · rintro (heq | ⟨hentry, hkey⟩)
      · exact ⟨(key, old), hold, by rw [if_pos rfl, heq]⟩
      · exact ⟨(k, v), hentry, if_neg hkey⟩
  · next hmem =>
    rw [mem_append, mem_singleton, or_comm]
    refine or_congr_right ⟨fun hentry => ⟨hentry, ?_⟩, And.left⟩
    rintro rfl
    exact hmem (mem_mapKeys.mpr ⟨v, hentry⟩)

lemma mapKeys_mapSet_of_mem (h : key ∈ mapKeys entries) :
    mapKeys (mapSet key value entries) = mapKeys entries := by
  rw [mapSet, if_pos h, mapKeys, mapKeys, map_map]
  refine map_congr_left fun entry _ => ?_
  by_cases hkey : entry.1 = key <;> simp [hkey]

lemma nodup_keys_mapSet (h : (mapKeys entries).Nodup) :
    (mapKeys (mapSet key value entries)).Nodup := by
  by_cases hmem : key ∈ mapKeys entries
  · rwa [mapKeys_mapSet_of_mem hmem]
  · rw [mapSet, if_neg hmem, mapKeys, map_append]
    refine nodup_append.mpr ⟨h, nodup_singleton key, ?_⟩
    rintro a ha b hb rfl
    obtain rfl : a = key := mem_singleton.mp hb
    exact hmem ha

lemma nodup_keys_mapDelete (h : (mapKeys entries).Nodup) :
    (mapKeys (mapDelete key entries)).Nodup :=
  h.sublist (filter_sublist.map _)

lemma mapDelete_cons {rest : List (α × β)} (h : (mapKeys ((key, value) :: rest)).Nodup) :
    mapDelete key ((key, value) :: rest) = rest := by
  have hfresh : ∀ entry ∈ rest, decide (entry.1 ≠ key) = true := by
    intro entry hentry
    rw [mapKeys, map_cons, nodup_cons] at h
    simpa using fun heq : entry.1 = key => h.1 (mem_map.mpr ⟨entry, hentry, heq⟩)
  rw [mapDelete, filter_cons_of_neg (by simp), filter_eq_self.mpr hfresh]

/-! ## §3 Order of entries -/

lemma LaterValue.mapSet {new : β} (h : LaterValue key value entries)
    (hset : (set, value) ∉ entries) : LaterValue key value (mapSet set new entries) := by
  obtain ⟨before, own, after, other, rfl, hmem⟩ := h
  have hother : other ≠ set := by
    rintro rfl
    exact hset (mem_append_right _ (mem_cons_of_mem _ hmem))
  unfold Foundations.mapSet
  split
  · let replace (entry : α × β) : α × β := if entry.1 = set then (set, new) else entry
    refine ⟨before.map replace, (replace (key, own)).2, after.map replace, other, ?_, ?_⟩
    · rw [map_append, map_cons]
      by_cases hkey : key = set <;> simp [replace, hkey]
    · exact mem_map.mpr ⟨(other, value), hmem, if_neg hother⟩
  · exact ⟨before, own, after ++ [(set, new)], other, by simp, mem_append_left _ hmem⟩

/-- Deleting another key keeps a later value, unless it was that key's. -/
theorem LaterValue.mapDelete {deleted : α} (h : LaterValue key value entries) (hkey : key ≠ deleted)
    (hvalue : (deleted, value) ∉ entries) : LaterValue key value (mapDelete deleted entries) := by
  obtain ⟨before, own, after, other, rfl, hmem⟩ := h
  refine ⟨before.filter (·.1 ≠ deleted), own, after.filter (·.1 ≠ deleted), other, ?_, ?_⟩
  · rw [Foundations.mapDelete, filter_append, filter_cons_of_pos (by simpa using hkey)]
  · refine mem_filter.mpr ⟨hmem, ?_⟩
    have hother : other ≠ deleted := by
      rintro rfl
      exact hvalue (mem_append_right _ (mem_cons_of_mem _ hmem))
    simpa using hother

lemma mem_entriesAfter_of_append {before after : List (α × β)}
    (h : (mapKeys (before ++ (key, value) :: after)).Nodup) :
    entriesAfter key (before ++ (key, value) :: after) = after := by
  have hfresh : ∀ entry ∈ before, decide (entry.1 ≠ key) = true := by
    intro entry hentry
    rw [mapKeys, map_append, nodup_append] at h
    simpa using h.2.2 entry.1 (mem_map_of_mem hentry) key (by simp)
  rw [entriesAfter, dropWhile_append_of_pos hfresh]
  simp

/-- A value set at an entry comes later than the keys before that entry. -/
theorem laterValue_mapSet_of_before {old : β} (hnodup : (mapKeys entries).Nodup)
    (hset : (set, old) ∈ entries) (hkey : key ∈ mapKeys entries) (hne : key ≠ set)
    (hafter : key ∉ mapKeys (entriesAfter set entries)) :
    LaterValue key value (mapSet set value entries) := by
  obtain ⟨before, after, rfl⟩ := append_of_mem hset
  rw [mem_entriesAfter_of_append hnodup] at hafter
  obtain ⟨own, hown⟩ := mem_mapKeys.mp hkey
  have hbefore : (key, own) ∈ before := by
    rcases mem_append.mp hown with h | h
    · exact h
    · rcases mem_cons.mp h with heq | h
      · exact absurd (Prod.mk.inj heq).1 hne
      · exact absurd (mem_mapKeys.mpr ⟨own, h⟩) hafter
  obtain ⟨first, middle, rfl⟩ := append_of_mem hbefore
  let replace (entry : α × β) : α × β := if entry.1 = set then (set, value) else entry
  refine ⟨first.map replace, own, middle.map replace ++ (set, value) :: after.map replace, set,
    ?_, by simp⟩
  rw [Foundations.mapSet, if_pos (mem_mapKeys.mpr ⟨old, hset⟩)]
  simp [replace, hne]

end Updates

end Kwiry.Foundations
