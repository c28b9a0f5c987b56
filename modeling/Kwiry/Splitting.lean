import Kwiry.Source

/-!
# Splitting by Bytes

`split_oversized` as it runs: offsets in bytes into the source, counts in characters, and slices
that exist on character boundaries only. It agrees with `splitOversized`, and its parts cover the
source with a fixed overlap.
-/

namespace Kwiry

open Foundations List Option

/-! ## §1 Slices -/

/-- `source[byte..]` -/
def sliceFrom : Text → ℕ → Option Text
  | source, 0 => some source
  | [], _ + 1 => none
  | c :: rest, byte + 1 =>
    if c.utf8Size ≤ byte + 1 then sliceFrom rest (byte + 1 - c.utf8Size) else none

/-- `source[..byte]` -/
def sliceTo : Text → ℕ → Option Text
  | _, 0 => some []
  | [], _ + 1 => none
  | c :: rest, byte + 1 =>
    if c.utf8Size ≤ byte + 1 then (sliceTo rest (byte + 1 - c.utf8Size)).map (c :: ·) else none

/-- `source[start..stop]` -/
def slice (source : Text) (start stop : ℕ) : Option Text := do
  sliceFrom (← sliceTo source stop) start

def charIndicesFrom : ℕ → Text → List (ℕ × Char)
  | _, [] => []
  | offset, c :: rest => (offset, c) :: charIndicesFrom (offset + c.utf8Size) rest

/-- The characters of a string behind their byte offsets. -/
def charIndices (source : Text) : List (ℕ × Char) :=
  charIndicesFrom 0 source

/-- The byte offset of a character. -/
def byteAt (source : Text) (i : ℕ) : ℕ :=
  utf8Len (source.take i)

@[simp] lemma byteAt_zero (source : Text) : byteAt source 0 = 0 := rfl

lemma byteAt_cons_succ (c : Char) (rest : Text) (i : ℕ) :
    byteAt (c :: rest) (i + 1) = c.utf8Size + byteAt rest i := by
  simp [byteAt]

lemma sliceFrom_byteAt (source : Text) (i : ℕ) :
    sliceFrom source (byteAt source i) = some (source.drop i) := by
  induction source generalizing i with
  | nil => simp [byteAt, sliceFrom]
  | cons c rest ih =>
    cases i with
    | zero => rfl
    | succ i =>
      have hpos : 0 < c.utf8Size := c.utf8Size_pos
      obtain ⟨byte, hbyte⟩ : ∃ byte, c.utf8Size + byteAt rest i = byte + 1 :=
        ⟨c.utf8Size + byteAt rest i - 1, by omega⟩
      rw [byteAt_cons_succ, hbyte, sliceFrom, if_pos (by omega), ← hbyte, Nat.add_sub_cancel_left,
        ih, drop_succ_cons]

lemma sliceTo_byteAt (source : Text) (i : ℕ) :
    sliceTo source (byteAt source i) = some (source.take i) := by
  induction source generalizing i with
  | nil => simp [byteAt, sliceTo]
  | cons c rest ih =>
    cases i with
    | zero => simp [byteAt, sliceTo]
    | succ i =>
      have hpos : 0 < c.utf8Size := c.utf8Size_pos
      obtain ⟨byte, hbyte⟩ : ∃ byte, c.utf8Size + byteAt rest i = byte + 1 :=
        ⟨c.utf8Size + byteAt rest i - 1, by omega⟩
      rw [byteAt_cons_succ, hbyte, sliceTo, if_pos (by omega), ← hbyte, Nat.add_sub_cancel_left, ih]
      rfl

variable {rest source : Text} {i j k start target : ℕ}

lemma byteAt_take (h : i ≤ j) : byteAt (source.take j) i = byteAt source i := by
  rw [byteAt, byteAt, take_take, Nat.min_eq_left h]

lemma byteAt_add (source : Text) (i k : ℕ) :
    byteAt source (i + k) = byteAt source i + byteAt (source.drop i) k := by
  rw [byteAt, byteAt, byteAt, take_add, utf8Len_append]

lemma slice_byteAt (h : i ≤ j) :
    slice source (byteAt source i) (byteAt source j) = some ((source.take j).drop i) := by
  have hfrom := sliceFrom_byteAt (source.take j) i
  rw [byteAt_take h] at hfrom
  simp [slice, sliceTo_byteAt, hfrom]

lemma getElem?_charIndicesFrom (offset : ℕ) (source : Text) (i : ℕ) :
    (charIndicesFrom offset source)[i]? =
      source[i]?.map fun c => (offset + byteAt source i, c) := by
  induction source generalizing offset i with
  | nil => simp [charIndicesFrom]
  | cons c rest ih =>
    cases i with
    | zero => simp [charIndicesFrom]
    | succ i =>
      rw [charIndicesFrom, getElem?_cons_succ, ih, getElem?_cons_succ, byteAt_cons_succ,
        Nat.add_assoc]

lemma getElem?_charIndices (source : Text) (i : ℕ) :
    (charIndices source)[i]? = source[i]?.map fun c => (byteAt source i, c) := by
  rw [charIndices, getElem?_charIndicesFrom]
  simp

lemma length_charIndices (source : Text) : (charIndices source).length = source.length := by
  have hfrom : ∀ (source : Text) (offset : ℕ),
      (charIndicesFrom offset source).length = source.length := by
    intro source
    induction source with
    | nil => exact fun _ => rfl
    | cons c rest ih => exact fun offset => congrArg (· + 1) (ih _)
  exact hfrom source 0

/-! ## §2 The loop -/

def byteAfterChars (source : Text) (startByte count : ℕ) : Option ℕ := do
  let rest ← sliceFrom source startByte
  some (((charIndices rest)[count]?).elim (utf8Len source) fun entry => startByte + entry.1)

def byteBeforeEndChars (source : Text) (endByte count : ℕ) : Option ℕ := do
  let front ← sliceTo source endByte
  some (((charIndices front).reverse[count - 1]?).elim 0 (·.1))

/-- One round of the scan for a split: the last paragraph break and the last whitespace so far. -/
def noteSplit (source : Text) (startByte : ℕ) (found : Option ℕ × Option ℕ)
    (entry : (ℕ × Char) × ℕ) : Option (Option ℕ × Option ℕ) :=
  if entry.2 < splitFloorChars then some found
  else do
    let byte := startByte + entry.1.1
    let front ← sliceTo source byte
    some (if ['\n', '\n'] <:+ front then some byte else found.1,
      if isWhitespace entry.1.2 then some byte else found.2)

def findSplitByte (source : Text) (startByte targetByte : ℕ) : Option ℕ := do
  let window ← slice source startByte targetByte
  let found ← (charIndices window).zipIdx.foldlM (noteSplit source startByte) (none, none)
  some ((found.1.or found.2).getD targetByte)

/-- The loop of `split_oversized`, for a number of rounds; nothing if a slice is off a boundary or
the rounds do not suffice. -/
def splitLoop (source : Text) (charCount : ℕ) : ℕ → ℕ → ℕ → Option (List Text)
  | 0, _, _ => none
  | rounds + 1, startByte, startChar =>
    if startChar < charCount then do
      let remaining := charCount - startChar
      let targetChars := min remaining maxChunkChars
      let targetByte ← byteAfterChars source startByte targetChars
      let endByte ← (if targetChars = remaining then some targetByte
        else findSplitByte source startByte targetByte : Option ℕ)
      let part ← slice source startByte endByte
      let endChar := startChar + part.length
      if endChar = charCount then some [part]
      else if chunkOverlapChars < part.length then do
        let nextByte ← byteBeforeEndChars source endByte chunkOverlapChars
        return part :: (← splitLoop source charCount rounds nextByte (endChar - chunkOverlapChars))
      else return part :: (← splitLoop source charCount rounds endByte endChar)
    else some []

def splitOversizedBytes (source : Text) : Option (List Text) :=
  if source.length ≤ maxChunkChars then some [source]
  else splitLoop source source.length (source.length + 1) 0 0

/-! ## §3 Offsets of the loop -/

lemma byteAfterChars_byteAt (source : Text) (i count : ℕ) :
    byteAfterChars source (byteAt source i) count = some (byteAt source (i + count)) := by
  simp only [byteAfterChars, sliceFrom_byteAt, bind_eq_bind, bind_some, getElem?_charIndices]
  cases hget : (source.drop i)[count]? with
  | none =>
    have hlength : source.length ≤ i + count := by
      have := getElem?_eq_none_iff.mp hget
      rw [length_drop] at this
      omega
    simp [byteAt, take_of_length_le hlength]
  | some c => simp [byteAt_add]

lemma byteBeforeEndChars_byteAt {count : ℕ} (hpos : 0 < count) (hcount : count ≤ j)
    (hj : j ≤ source.length) :
    byteBeforeEndChars source (byteAt source j) count = some (byteAt source (j - count)) := by
  have hlength : (charIndices (source.take j)).length = j := by
    rw [length_charIndices, length_take, Nat.min_eq_left hj]
  simp only [byteBeforeEndChars, sliceTo_byteAt, bind_eq_bind, bind_some]
  rw [getElem?_reverse (by omega), hlength, getElem?_charIndices,
    show j - 1 - (count - 1) = j - count by omega, getElem?_take_of_lt (by omega)]
  cases hget : source[j - count]? with
  | none =>
    have := getElem?_eq_none_iff.mp hget
    omega
  | some c => simp [byteAt_take (Nat.sub_le j count)]

/-- The last candidate before a position that a condition picks. -/
def lastCandidate (p : ℕ → Bool) (k : ℕ) : Option ℕ :=
  (((range k).filter (splitFloorChars ≤ ·)).filter p).getLast?

lemma lastCandidate_succ (p : ℕ → Bool) (k : ℕ) :
    lastCandidate p (k + 1) =
      if splitFloorChars ≤ k ∧ p k = true then some k else lastCandidate p k := by
  rw [lastCandidate, range_succ, filter_append, filter_append]
  by_cases hfloor : splitFloorChars ≤ k
  · by_cases hp : p k = true
    · simp [hfloor, hp]
    · simp [hfloor, hp, lastCandidate]
  · simp [hfloor, lastCandidate]

lemma paragraph_iff (hk : 2 ≤ k) (hlength : i + k ≤ source.length) :
    ['\n', '\n'] <:+ source.take (i + k) ↔
      ((source.drop i).drop (k - 2)).take 2 = ['\n', '\n'] := by
  have hdrop : (source.take (i + k)).drop (i + k - 2) = ((source.drop i).drop (k - 2)).take 2 := by
    rw [drop_take, drop_drop, show i + (k - 2) = i + k - 2 by omega,
      show i + k - (i + k - 2) = 2 by omega]
  rw [suffix_iff_eq_drop, length_take, Nat.min_eq_left hlength]
  change _ = (source.take (i + k)).drop (i + k - 2) ↔ _
  rw [hdrop]
  exact eq_comm

/-- The scan keeps the last candidates that it has passed. -/
theorem foldlM_noteSplit (htarget : i + target ≤ source.length) (hk : k ≤ target) :
    ((charIndices ((source.drop i).take target)).zipIdx.take k).foldlM
        (noteSplit source (byteAt source i)) (none, none) =
      some ((lastCandidate (fun j => ((source.drop i).drop (j - 2)).take 2 = ['\n', '\n']) k).map
          (fun j => byteAt source (i + j)),
        (lastCandidate (fun j => (source.drop i)[j]?.any isWhitespace) k).map
          fun j => byteAt source (i + j)) := by
  induction k with
  | zero => rfl
  | succ k ih =>
    have hlt : k < (source.drop i).length := by
      rw [length_drop]
      omega
    obtain ⟨c, hc⟩ : ∃ c, (source.drop i)[k]? = some c := ⟨_, getElem?_eq_getElem hlt⟩
    have hentry : (charIndices ((source.drop i).take target)).zipIdx[k]? =
        some ((byteAt (source.drop i) k, c), k) := by
      rw [getElem?_zipIdx, getElem?_charIndices, getElem?_take_of_lt (by omega), hc]
      simp [byteAt_take (show k ≤ target by omega)]
    rw [take_add_one, hentry, foldlM_append, ih (by omega)]
    simp only [toList_some, foldlM_cons, foldlM_nil, bind_eq_bind,
      bind_some, lastCandidate_succ, noteSplit]
    by_cases hfloor : k < splitFloorChars
    · simp [hfloor, Nat.not_le.mpr hfloor]
    · have hle : splitFloorChars ≤ k := Nat.not_lt.mp hfloor
      have htwo : 2 ≤ k := le_trans (by decide) hle
      rw [if_neg hfloor, ← byteAt_add, sliceTo_byteAt]
      simp only [bind_some, paragraph_iff htwo (by omega : i + k ≤ source.length), hle,
        true_and, hc, any_some, decide_eq_true_eq]
      congr 2
      · split <;> rfl
      · split <;> rfl

lemma findSplitByte_byteAt (htarget : i + target ≤ source.length) :
    findSplitByte source (byteAt source i) (byteAt source (i + target)) =
      some (byteAt source (i + findSplit (source.drop i) target)) := by
  have hlength : (charIndices ((source.drop i).take target)).zipIdx.length = target := by
    rw [length_zipIdx, length_charIndices, length_take, length_drop]
    omega
  have hscan := foldlM_noteSplit htarget (le_refl target)
  rw [take_of_length_le (le_of_eq hlength)] at hscan
  rw [findSplitByte, slice_byteAt (Nat.le_add_right i target), drop_take, Nat.add_sub_cancel_left]
  simp only [bind_eq_bind, bind_some, hscan, findSplit, lastCandidate]
  congr 1
  cases (((range target).filter (splitFloorChars ≤ ·)).filter
      fun j => ((source.drop i).drop (j - 2)).take 2 = ['\n', '\n']).getLast? with
  | some j => rfl
  | none =>
    cases (((range target).filter (splitFloorChars ≤ ·)).filter
        fun j => (source.drop i)[j]?.any isWhitespace).getLast? with
    | some j => rfl
    | none => rfl

/-! ## §4 The parts -/

lemma findSplit_le (rest : Text) (target : ℕ) : findSplit rest target ≤ target := by
  have hmem : ∀ {p : ℕ → Bool} {j : ℕ}, lastCandidate p target = some j → j ≤ target := by
    intro p j hj
    have hj := mem_of_mem_getLast? (mem_def.mpr hj)
    exact (mem_range.mp (mem_filter.mp (mem_filter.mp hj).1).1).le
  change ((lastCandidate _ target).or (lastCandidate _ target)).getD target ≤ target
  cases hp : lastCandidate (fun j => (rest.drop (j - 2)).take 2 = ['\n', '\n']) target with
  | some j => exact hmem hp
  | none =>
    cases hw : lastCandidate (fun j => rest[j]?.any isWhitespace) target with
    | some j => exact hmem hw
    | none => exact le_refl target

lemma splitEnd_le_length (rest : Text) : splitEnd rest ≤ rest.length := by
  have htarget := findSplit_le rest (min rest.length maxChunkChars)
  simp only [splitEnd]
  split <;> omega

lemma splitEnd_le_max (rest : Text) : splitEnd rest ≤ maxChunkChars := by
  have htarget := findSplit_le rest (min rest.length maxChunkChars)
  simp only [splitEnd]
  split <;> omega

lemma overlap_lt_splitEnd (h : splitEnd rest ≠ rest.length) :
    chunkOverlapChars < splitEnd rest := by
  have hmin : min rest.length maxChunkChars ≠ rest.length := by
    intro hmin
    exact h (by simp [splitEnd, hmin])
  have htarget : min rest.length maxChunkChars = maxChunkChars := by omega
  have hfloor : splitFloorChars ≤ findSplit rest (min rest.length maxChunkChars) :=
    splitFloorChars_le_findSplit (by rw [htarget]; decide)
  simp only [splitEnd, hmin, if_false]
  exact lt_of_lt_of_le (by decide) hfloor

lemma splitParts_cons (h : rest ≠ []) (hlast : splitEnd rest ≠ rest.length) :
    splitParts rest =
      rest.take (splitEnd rest) :: splitParts (rest.drop (splitEnd rest - chunkOverlapChars)) := by
  conv_lhs => rw [splitParts]
  simp only [h, dite_false, hlast, if_false, overlap_lt_splitEnd hlast, if_true]

lemma splitParts_last (h : rest ≠ []) (hlast : splitEnd rest = rest.length) :
    splitParts rest = [rest] := by
  rw [splitParts]
  simp only [h, dite_false, hlast, if_true, take_length]

/-- Enough rounds, and the loop over bytes returns the parts from where it stands. -/
theorem splitLoop_eq (source : Text) {rounds : ℕ} (hi : i ≤ source.length)
    (hrounds : source.length - i < rounds) :
    splitLoop source source.length rounds (byteAt source i) i = some (splitParts (source.drop i)) := by
  induction rounds generalizing i with
  | zero => omega
  | succ rounds ih =>
    rw [splitLoop]
    split
    next hlt =>
      have hrest : source.drop i ≠ [] := by
        rw [ne_eq, drop_eq_nil_iff]
        omega
      have hlength : (source.drop i).length = source.length - i := length_drop
      have hstop := splitEnd_le_length (source.drop i)
      have hend : (if min (source.length - i) maxChunkChars = source.length - i then
          some (byteAt source (i + min (source.length - i) maxChunkChars))
          else findSplitByte source (byteAt source i)
            (byteAt source (i + min (source.length - i) maxChunkChars))) =
          some (byteAt source (i + splitEnd (source.drop i))) := by
        rw [splitEnd, hlength]
        split
        · rfl
        · exact findSplitByte_byteAt (by omega)
      have hpart : slice source (byteAt source i) (byteAt source (i + splitEnd (source.drop i))) =
          some ((source.drop i).take (splitEnd (source.drop i))) := by
        rw [slice_byteAt (Nat.le_add_right _ _), drop_take, Nat.add_sub_cancel_left]
      have hcount : ((source.drop i).take (splitEnd (source.drop i))).length =
          splitEnd (source.drop i) := by
        rw [length_take, Nat.min_eq_left hstop]
      simp only [bind_eq_bind, byteAfterChars_byteAt, bind_some, hend, hpart, hcount]
      by_cases hlast : splitEnd (source.drop i) = (source.drop i).length
      · rw [if_pos (by omega), splitParts_last hrest hlast, hlast, take_length]
      · have hover := overlap_lt_splitEnd hlast
        have hpos : 0 < chunkOverlapChars := by decide
        rw [if_neg (by omega), if_pos hover, byteBeforeEndChars_byteAt hpos (by omega) (by omega)]
        simp only [bind_some]
        rw [ih (by omega) (by omega), splitParts_cons hrest hlast, drop_drop,
          Nat.add_sub_assoc hover.le]
        rfl
    next hge =>
      have hnil : source.drop i = [] := drop_eq_nil_iff.mpr (by omega)
      rw [hnil, splitParts]
      simp

lemma splitOversizedBytes_eq (source : Text) :
    splitOversizedBytes source = some (splitOversized source) := by
  rw [splitOversizedBytes, splitOversized]
  split
  · rfl
  · have hloop := splitLoop_eq source (Nat.zero_le _) (Nat.lt_succ_self (source.length - 0))
    rwa [byteAt_zero, drop_zero] at hloop

/-! ## §5 Coverage -/

/-- Spans of a text, from a start to its end, each after the first one the overlap before the end of
the one before. -/
structure Cuts (source : Text) (start : ℕ) (spans : List (ℕ × ℕ)) : Prop where
  first : spans.head?.map (·.1) = some start
  last : spans.getLast?.map (·.2) = some source.length
  bounded : ∀ span ∈ spans, span.1 ≤ span.2 ∧ span.2 ≤ source.length ∧
    span.2 - span.1 ≤ maxChunkChars
  chained : spans.IsChain fun before after =>
    after.1 + chunkOverlapChars = before.2 ∧ before.1 < after.1

/-- The parts put together without what they repeat. -/
def rejoin : List Text → Text
  | [] => []
  | part :: rest => part ++ rest.flatMap (·.drop chunkOverlapChars)

lemma Cuts.single (hstart : start ≤ source.length)
    (hmax : source.length - start ≤ maxChunkChars) :
    Cuts source start [(start, source.length)] where
  first := rfl
  last := rfl
  bounded span hspan := by
    rw [mem_singleton.mp hspan]
    exact ⟨hstart, le_refl _, hmax⟩
  chained := .singleton _

lemma Cuts.cons {stop : ℕ} {spans : List (ℕ × ℕ)}
    (h : Cuts source (stop - chunkOverlapChars) spans) (hover : start + chunkOverlapChars < stop)
    (hstop : stop ≤ source.length) (hmax : stop - start ≤ maxChunkChars) :
    Cuts source start ((start, stop) :: spans) := by
  obtain ⟨next, rest, rfl⟩ := exists_cons_of_ne_nil (l := spans) (by
    rintro rfl
    cases h.first)
  have hnext : next.1 = stop - chunkOverlapChars := some.inj h.first
  refine ⟨rfl, ?_, ?_, ?_⟩
  · rw [getLast?_cons_cons]
    exact h.last
  · rintro span (- | ⟨-, hspan⟩)
    · exact ⟨by omega, hstop, hmax⟩
    · exact h.bounded span hspan
  · refine IsChain.cons_cons ⟨?_, ?_⟩ h.chained
    · change next.1 + chunkOverlapChars = stop
      omega
    · change start < next.1
      omega

lemma exists_cuts (source : Text) (hi : i < source.length) :
    ∃ spans, Cuts source i spans ∧
      List.Forall₂ (fun part span =>
        slice source (byteAt source span.1) (byteAt source span.2) = some part)
        (splitParts (source.drop i)) spans ∧
      rejoin (splitParts (source.drop i)) = source.drop i ∧
      (chunkOverlapChars ≤ source.length - i →
        ∀ part ∈ (splitParts (source.drop i)).head?, chunkOverlapChars ≤ part.length) := by
  induction hn : source.length - i using Nat.strong_induction_on generalizing i with
  | _ n ih =>
    subst hn
    have hlength : (source.drop i).length = source.length - i := length_drop
    have hrest : source.drop i ≠ [] := by
      rw [ne_eq, drop_eq_nil_iff]
      omega
    have hstop := splitEnd_le_length (source.drop i)
    have hmax := splitEnd_le_max (source.drop i)
    by_cases hlast : splitEnd (source.drop i) = (source.drop i).length
    · rw [splitParts_last hrest hlast]
      refine ⟨[(i, source.length)], Cuts.single hi.le (by omega), .cons ?_ .nil, ?_, ?_⟩
      · rw [slice_byteAt hi.le, take_length]
      · simp [rejoin]
      · rintro hover part hpart
        obtain rfl : source.drop i = part := some.inj hpart
        omega
    · have hover := overlap_lt_splitEnd hlast
      set stop := splitEnd (source.drop i) with hdef
      obtain ⟨spans, hcuts, hslices, hjoin, hhead⟩ :=
        ih (source.length - (i + stop - chunkOverlapChars)) (by omega)
          (i := i + stop - chunkOverlapChars) (by omega) rfl
      have hparts : splitParts (source.drop i) = (source.drop i).take stop ::
          splitParts (source.drop (i + stop - chunkOverlapChars)) := by
        rw [splitParts_cons hrest hlast, drop_drop, Nat.add_sub_assoc hover.le]
      rw [hparts]
      refine ⟨(i, i + stop) :: spans, hcuts.cons (by omega) (by omega) (by omega),
        .cons ?_ hslices, ?_, ?_⟩
      · rw [slice_byteAt (Nat.le_add_right _ _), drop_take, Nat.add_sub_cancel_left]
      · -- the next part repeats the overlap and goes on behind it
        cases htail : splitParts (source.drop (i + stop - chunkOverlapChars)) with
        | nil =>
          rw [htail] at hslices
          cases hslices
          cases hcuts.first
        | cons part more =>
          rw [htail] at hjoin hhead
          have hlong : chunkOverlapChars ≤ part.length := hhead (by omega) part rfl
          have hbehind : part.drop chunkOverlapChars ++ more.flatMap (·.drop chunkOverlapChars) =
              (source.drop i).drop stop := by
            rw [← drop_append_of_le_length hlong]
            change (rejoin (part :: more)).drop chunkOverlapChars = _
            rw [hjoin, drop_drop, drop_drop,
              show i + stop - chunkOverlapChars + chunkOverlapChars = i + stop by omega]
          rw [rejoin, flatMap_cons, hbehind, take_append_drop]
      · rintro - part hpart
        obtain rfl : (source.drop i).take stop = part := some.inj hpart
        rw [length_take]
        omega

/-- Every text is split, into bounded slices on character boundaries that cover it with the fixed
overlap. -/
theorem splitOversized_covers (source : Text) :
    ∃ parts spans, splitOversizedBytes source = some parts ∧ Cuts source 0 spans ∧
      List.Forall₂ (fun part span =>
        slice source (byteAt source span.1) (byteAt source span.2) = some part) parts spans ∧
      rejoin parts = source := by
  rw [splitOversizedBytes_eq, splitOversized]
  split
  next hsmall =>
    refine ⟨[source], [(0, source.length)], rfl, Cuts.single (Nat.zero_le _) hsmall,
      .cons ?_ .nil, ?_⟩
    · rw [slice_byteAt (Nat.zero_le _), take_length, drop_zero]
    · simp [rejoin]
  next hlarge =>
    obtain ⟨spans, hcuts, hslices, hjoin, -⟩ := exists_cuts source
      (show 0 < source.length from lt_of_le_of_lt (Nat.zero_le _) (Nat.not_le.mp hlarge))
    rw [drop_zero] at hslices hjoin
    exact ⟨_, spans, rfl, hcuts, hslices, hjoin⟩

end Kwiry
