import Kwiry.Foundations.Bytes

/-!
# Heaps of Byte Arrays

Arrays with identity: an array is a reference into a heap, two parties that hold one reference see
the same bytes, and a copy is a new reference. A range of an array is overwritten in place.
-/

namespace Kwiry.Foundations

open List

/-! ## §1 Ranges -/

/-- `data` laid over `target` from `start` on. Meant for a range inside the target. -/
def overwrite (target : Bytes) (start : ℕ) (data : Bytes) : Bytes :=
  target.take start ++ data ++ target.drop (start + data.length)

lemma length_overwrite {target data : Bytes} {start : ℕ}
    (h : start + data.length ≤ target.length) : (overwrite target start data).length = target.length := by
  simp only [overwrite, length_append, length_take, length_drop]
  omega

lemma getElem?_overwrite {target data : Bytes} {start : ℕ}
    (h : start + data.length ≤ target.length) (i : ℕ) :
    (overwrite target start data)[i]? =
      if start ≤ i ∧ i < start + data.length then data[i - start]? else target[i]? := by
  have htake : (target.take start).length = start := by
    rw [length_take]
    omega
  rw [overwrite, append_assoc]
  by_cases hbefore : i < start
  · rw [getElem?_append_left (by omega), getElem?_take_of_lt hbefore, if_neg (by omega)]
  · rw [getElem?_append_right (by omega), htake]
    by_cases hinside : i < start + data.length
    · rw [getElem?_append_left (by omega), if_pos (by omega)]
    · rw [getElem?_append_right (by omega), getElem?_drop, if_neg (by omega)]
      congr 1
      omega

/-! ## §2 Arrays by reference -/

abbrev Heap := List Bytes

namespace Heap

variable (heap : Heap)

def array (ref : ℕ) : Bytes :=
  (heap[ref]?).getD []

/-- A new array, and its reference. -/
def alloc (bytes : Bytes) : Heap × ℕ :=
  (heap ++ [bytes], heap.length)

/-- Bytes stored into an array, in place. -/
def store (ref start : ℕ) (data : Bytes) : Heap :=
  heap.set ref (overwrite (heap.array ref) start data)

variable {heap}

@[simp] lemma length_store (ref start : ℕ) (data : Bytes) :
    (heap.store ref start data).length = heap.length := by
  simp [store]

lemma array_store {ref : ℕ} (hvalid : ref < heap.length) (start : ℕ) (data : Bytes) (other : ℕ) :
    (heap.store ref start data).array other =
      if other = ref then overwrite (heap.array ref) start data else heap.array other := by
  unfold store
  by_cases hother : other = ref
  · simp [array, hother, hvalid]
  · simp [array, hother, getElem?_set_ne (Ne.symm hother)]

lemma array_alloc (bytes : Bytes) (other : ℕ) :
    (heap.alloc bytes).1.array other = if other = heap.length then bytes else heap.array other := by
  unfold alloc
  by_cases hother : other = heap.length
  · simp [array, hother]
  · by_cases hlt : other < heap.length
    · simp [array, hother, getElem?_append_left hlt]
    · have hlong : (heap ++ [bytes]).length ≤ other := by
        rw [length_append, length_singleton]
        omega
      simp [array, hother, getElem?_eq_none hlong, getElem?_eq_none (Nat.le_of_not_lt hlt)]

end Heap

end Kwiry.Foundations
