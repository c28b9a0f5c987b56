import Kwiry.Plugin.BlockFile
import Mathlib.Tactic.Common

/-!
# Block Files are Flat Files

The file a block file stands for: one growable byte array. A write lays its bytes over the array,
grown with zeroes as far as needed; a truncation shrinks the array or grows it with zeroes.
The blocks are arrays of the file's own, one for each index, and past the size they hold zeroes. So
each operation moves the flat file as it should, and no array of the callers.
-/

namespace Kwiry.Plugin

open Foundations List

/-! ## §1 Flat files -/

namespace FlatFile

/-- The array, with zeroes up to a length. -/
def grow (flat : Bytes) (length : ℕ) : Bytes :=
  flat ++ zeroes (length - flat.length)

def write (flat source : Bytes) (offset : ℕ) : Bytes :=
  overwrite (grow flat (offset + source.length)) offset source

def truncate (flat : Bytes) (size : ℕ) : Bytes :=
  grow (flat.take size) size

def read (flat : Bytes) (offset length : ℕ) : Bytes :=
  (flat.drop offset).take length

end FlatFile

/-! ## §2 Positions in blocks -/

variable {blockSize destination done index offset source start want : ℕ}

/-- A range inside one block, by the index and the offset of its positions. -/
theorem mem_block_iff {position : ℕ} (hpositive : 0 < blockSize)
    (hwant : want ≤ blockSize - start % blockSize) :
    start ≤ position ∧ position < start + want ↔
      position / blockSize = start / blockSize ∧ start % blockSize ≤ position % blockSize ∧
        position % blockSize < start % blockSize + want := by
  have hstart := Nat.div_add_mod start blockSize
  have hposition := Nat.div_add_mod position blockSize
  have hmod := Nat.mod_lt start hpositive
  constructor
  · intro h
    have hsum : position = blockSize * (start / blockSize) +
        (start % blockSize + (position - start)) := by omega
    have hlt : start % blockSize + (position - start) < blockSize := by omega
    have hdiv : position / blockSize = start / blockSize := by
      rw [hsum, Nat.mul_add_div hpositive, Nat.div_eq_of_lt hlt, Nat.add_zero]
    have hrest : position % blockSize = start % blockSize + (position - start) := by
      rw [hdiv] at hposition
      omega
    exact ⟨hdiv, by omega, by omega⟩
  · intro h
    obtain ⟨hdiv, hle, hlt⟩ := h
    rw [hdiv] at hposition
    omega

lemma lt_iff_div_mod (blockSize : ℕ) {m n : ℕ} :
    m < n ↔ m / blockSize < n / blockSize ∨
      m / blockSize = n / blockSize ∧ m % blockSize < n % blockSize := by
  have hm := Nat.div_add_mod m blockSize
  have hn := Nat.div_add_mod n blockSize
  constructor
  · intro hlt
    rcases Nat.lt_or_eq_of_le (Nat.div_le_div_right hlt.le : m / blockSize ≤ n / blockSize) with hdiv | hdiv
    · exact .inl hdiv
    · rw [hdiv] at hm
      exact .inr ⟨hdiv, by omega⟩
  · intro h
    rcases h with hdiv | ⟨hdiv, hmod⟩
    · exact Nat.lt_of_div_lt_div hdiv
    · rw [hdiv] at hm
      omega

lemma div_mod_add {k : ℕ} (hk : k < blockSize - start % blockSize) :
    (start + k) / blockSize = start / blockSize ∧
      (start + k) % blockSize = start % blockSize + k := by
  have hpositive : 0 < blockSize := by omega
  have hmem := (mem_block_iff hpositive (Nat.le_refl (blockSize - start % blockSize))).mp
    ⟨Nat.le_add_right start k, by omega⟩
  have hstart := Nat.div_add_mod start blockSize
  have hsum := Nat.div_add_mod (start + k) blockSize
  rw [hmem.1] at hsum
  exact ⟨hmem.1, by omega⟩

namespace BlockFile

variable {file : BlockFile} {heap : Heap} {held : List ℕ}

/-! ## §3 Own blocks -/

/-- The blocks are arrays, one for each index, that no caller holds. -/
structure Owns (held : List ℕ) (heap : Heap) (file : BlockFile) : Prop where
  live : ∀ ref ∈ held, ref < heap.length
  valid : ∀ index block : ℕ, file.blocks[index]? = some block →
    block < heap.length ∧ block ∉ held ∧ (heap.array block).length ≤ file.blockSize
  distinct : ∀ index index' block : ℕ, file.blocks[index]? = some block →
    file.blocks[index']? = some block → index = index'

/-- The callers' arrays are what they were. -/
def SameHeld (held : List ℕ) (heap heap' : Heap) : Prop :=
  ∀ ref ∈ held, heap'.array ref = heap.array ref

variable {heap' heap'' : Heap}

lemma SameHeld.trans (h : SameHeld held heap heap') (h' : SameHeld held heap' heap'') :
    SameHeld held heap heap'' :=
  fun ref hmem => (h' ref hmem).trans (h ref hmem)

lemma owns_insert (h : Owns held heap file) (bytes : Bytes) (hlength : bytes.length ≤ file.blockSize)
    (index : ℕ) :
    Owns held (heap.alloc bytes).1 { file with blocks := file.blocks.insert index heap.length } ∧
      SameHeld held heap (heap.alloc bytes).1 := by
  have hlong : (heap.alloc bytes).1.length = heap.length + 1 := by simp [Heap.alloc]
  have hsame : SameHeld held heap (heap.alloc bytes).1 := by
    intro ref hmem
    rw [Heap.array_alloc, if_neg (Nat.ne_of_lt (h.live ref hmem))]
  refine ⟨⟨?_, ?_, ?_⟩, hsame⟩
  · intro ref hmem
    have hlt := h.live ref hmem
    omega
  · intro other block hblock
    rw [Std.ExtTreeMap.getElem?_insert] at hblock
    split at hblock
    · cases hblock
      refine ⟨by omega, fun hmem => Nat.lt_irrefl _ (h.live _ hmem), ?_⟩
      rw [Heap.array_alloc, if_pos rfl]
      exact hlength
    · obtain ⟨hlt, hfree, hle⟩ := h.valid other block hblock
      refine ⟨by omega, hfree, ?_⟩
      rw [Heap.array_alloc, if_neg (Nat.ne_of_lt hlt)]
      exact hle
  · intro first second block hfirst hsecond
    rw [Std.ExtTreeMap.getElem?_insert] at hfirst hsecond
    split at hfirst
    next heq =>
      split at hsecond
      next heq' => exact (compare_eq_iff_eq.mp heq).symm.trans (compare_eq_iff_eq.mp heq')
      next =>
        cases hfirst
        exact absurd (h.valid second _ hsecond).1 (Nat.lt_irrefl _)
    next =>
      split at hsecond
      next =>
        cases hsecond
        exact absurd (h.valid first _ hfirst).1 (Nat.lt_irrefl _)
      next => exact h.distinct first second block hfirst hsecond

lemma byteAt_insert (h : Owns held heap file) (bytes : Bytes) (index position : ℕ) :
    { file with blocks := file.blocks.insert index heap.length }.byteAt (heap.alloc bytes).1 position =
      if position / file.blockSize = index then (bytes[position % file.blockSize]?).getD 0
      else file.byteAt heap position := by
  unfold byteAt
  rw [Std.ExtTreeMap.getElem?_insert]
  by_cases hindex : position / file.blockSize = index
  · rw [if_pos (compare_eq_iff_eq.mpr hindex.symm), if_pos hindex]
    dsimp only
    rw [Heap.array_alloc, if_pos rfl]
  · rw [if_neg (fun heq => hindex (compare_eq_iff_eq.mp heq).symm), if_neg hindex]
    cases hblock : file.blocks[position / file.blockSize]? with
    | none => rfl
    | some block =>
      dsimp only
      rw [Heap.array_alloc, if_neg (Nat.ne_of_lt (h.valid _ _ hblock).1)]

/-- A store into a block, inside its length. -/
theorem owns_store (h : Owns held heap file) {block : ℕ} {data : Bytes}
    (hblock : file.blocks[index]? = some block)
    (hfits : start + data.length ≤ (heap.array block).length) :
    Owns held (heap.store block start data) file ∧
      SameHeld held heap (heap.store block start data) ∧
      ∀ position, file.byteAt (heap.store block start data) position =
        if position / file.blockSize = index ∧ start ≤ position % file.blockSize ∧
            position % file.blockSize < start + data.length then
          (data[position % file.blockSize - start]?).getD 0
        else file.byteAt heap position := by
  obtain ⟨hlt, hfree, hle⟩ := h.valid index block hblock
  refine ⟨⟨?_, ?_, h.distinct⟩, ?_, ?_⟩
  · intro ref hmem
    rw [Heap.length_store]
    exact h.live ref hmem
  · intro other other' hother
    obtain ⟨hlt', hfree', hle'⟩ := h.valid other other' hother
    rw [Heap.length_store, Heap.array_store hlt]
    refine ⟨hlt', hfree', ?_⟩
    split
    · rw [length_overwrite hfits]
      exact hle
    · exact hle'
  · intro ref hmem
    rw [Heap.array_store hlt, if_neg]
    rintro rfl
    exact hfree hmem
  · intro position
    unfold byteAt
    by_cases hindex : position / file.blockSize = index
    · rw [hindex, hblock]
      simp only [true_and]
      rw [Heap.array_store hlt, if_pos rfl, getElem?_overwrite hfits]
      split <;> rfl
    · rw [if_neg (fun hboth => hindex hboth.1)]
      cases hother : file.blocks[position / file.blockSize]? with
      | none => rfl
      | some other =>
        have hne : other ≠ block := by
          rintro rfl
          exact hindex (h.distinct _ _ _ hother hblock)
        dsimp only
        rw [Heap.array_store hlt, if_neg hne]

/-! ## §4 Writing -/

@[simp] lemma getElem?_zeroes (length i : ℕ) : ((zeroes length)[i]?).getD 0 = 0 := by
  rw [zeroes, getElem?_replicate]
  split <;> rfl

@[simp] lemma length_zeroes (length : ℕ) : (zeroes length).length = length :=
  length_replicate

lemma length_subarray (bytes : Bytes) (first last : ℕ) :
    (subarray bytes first last).length = min last bytes.length - first := by
  simp only [subarray, length_take, length_drop]
  omega

lemma getElem?_subarray (bytes : Bytes) {first last i : ℕ} (h : first + i < last) :
    (subarray bytes first last)[i]? = bytes[first + i]? := by
  rw [subarray, getElem?_take_of_lt (by omega), getElem?_drop]

/-- What a step leaves alone: the size, and the callers' arrays. -/
structure Steps (held : List ℕ) (heap heap' : Heap) (file file' : BlockFile) : Prop where
  owns : Owns held heap' file'
  same : SameHeld held heap heap'
  blockSize : file'.blockSize = file.blockSize
  size : file'.size = file.size

/-- A block is made writable without a change of the bytes. -/
theorem ensureWritable_spec (h : Owns held heap file) (index : ℕ) :
    Steps held heap (file.ensureWritable heap index).1 file (file.ensureWritable heap index).2.1 ∧
      (file.ensureWritable heap index).2.1.blocks[index]? =
        some (file.ensureWritable heap index).2.2 ∧
      ((file.ensureWritable heap index).1.array (file.ensureWritable heap index).2.2).length =
        file.blockSize ∧
      ∀ position, (file.ensureWritable heap index).2.1.byteAt (file.ensureWritable heap index).1
        position = file.byteAt heap position := by
  unfold ensureWritable
  split
  next hmissing =>
    obtain ⟨howns, hsame⟩ := owns_insert h (zeroes file.blockSize) (by simp) index
    refine ⟨⟨howns, hsame, rfl, rfl⟩, by simp [Heap.alloc], ?_, fun position => ?_⟩
    · dsimp only
      rw [Heap.array_alloc]
      simp [Heap.alloc]
    · have hbyte := byteAt_insert h (zeroes file.blockSize) index position
      refine hbyte.trans ?_
      split
      next hindex => simp [byteAt, hindex, hmissing]
      next => rfl
  next existing hexisting =>
    split
    next hfull => exact ⟨⟨h, fun _ _ => rfl, rfl, rfl⟩, hexisting, hfull, fun _ => rfl⟩
    next hshort =>
      obtain ⟨hlt, hfree, hle⟩ := h.valid index existing hexisting
      obtain ⟨howns, hsame⟩ := owns_insert h (zeroes file.blockSize) (by simp) index
      have hold : (heap.alloc (zeroes file.blockSize)).1.array existing = heap.array existing := by
        rw [Heap.array_alloc, if_neg (Nat.ne_of_lt hlt)]
      have hnew : (heap.alloc (zeroes file.blockSize)).1.array heap.length =
          zeroes file.blockSize := by
        rw [Heap.array_alloc, if_pos rfl]
      have hcopy : (heap.array existing).take file.blockSize = heap.array existing :=
        take_of_length_le hle
      have hblock : ({ file with blocks := file.blocks.insert index heap.length }).blocks[index]? =
          some heap.length := by simp
      have hfits : 0 + (heap.array existing).length ≤
          ((heap.alloc (zeroes file.blockSize)).1.array heap.length).length := by
        rw [hnew, length_zeroes]
        omega
      obtain ⟨howns', hsame', hbyte⟩ := owns_store howns hblock hfits
      have hback : (heap.alloc (zeroes file.blockSize)).2 = heap.length := rfl
      dsimp only
      rw [hback, hold, hcopy]
      refine ⟨⟨howns', hsame.trans hsame', rfl, rfl⟩, hblock, ?_, fun position => ?_⟩
      · have hvalid : heap.length < (heap.alloc (zeroes file.blockSize)).1.length := by
          simp [Heap.alloc]
        rw [Heap.array_store hvalid, if_pos rfl, length_overwrite hfits, hnew, length_zeroes]
      · rw [hbyte, byteAt_insert h]
        by_cases hindex : position / file.blockSize = index
        · have hold' : file.byteAt heap position =
              ((heap.array existing)[position % file.blockSize]?).getD 0 := by
            simp [byteAt, hindex, hexisting]
          simp only [hindex, true_and, Nat.zero_le, Nat.zero_add, Nat.sub_zero, if_true]
          split
          next => exact hold'.symm
          next hbeyond =>
            rw [hold', getElem?_zeroes, getElem?_eq_none (by omega)]
            rfl
        · rw [if_neg (fun hboth => hindex hboth.1), if_neg hindex]

/-- The loop of a write lays what is left of the source over the bytes. -/
theorem writeLoop_spec (h : Owns held heap file) (offset : ℕ) {length : ℕ} (hsource : source ∈ held)
    (hlength : length = (heap.array source).length) (hdone : done ≤ length) :
    Steps held heap (file.writeLoop heap source length offset done).1 file
        (file.writeLoop heap source length offset done).2.1 ∧
      (file.writeLoop heap source length offset done).2.2 = length ∧
      ∀ position, (file.writeLoop heap source length offset done).2.1.byteAt
          (file.writeLoop heap source length offset done).1 position =
        if offset + done ≤ position ∧ position < offset + length then
          ((heap.array source)[position - offset]?).getD 0
        else file.byteAt heap position := by
  fun_induction writeLoop file heap source length offset done with
  | case1 file heap done hlt absolute index start want writable data ih =>
    obtain ⟨hsteps, hblock, hfull, hbytes⟩ := ensureWritable_spec h index
    have hwant : 0 < want := file.want_pos (offset + done) hlt
    have hsame : writable.1.array source = heap.array source := hsteps.same source hsource
    have hdata : data.length = want := by
      rw [length_subarray, hsame, ← hlength]
      omega
    have hmod : start < file.blockSize := Nat.mod_lt _ file.positive
    have hfits : start + data.length ≤ (writable.1.array writable.2.2).length := by
      rw [hfull, hdata]
      omega
    obtain ⟨howns', hsame', hbyte⟩ := owns_store hsteps.owns hblock hfits
    have hsource' : (writable.1.store writable.2.2 start data).array source = heap.array source :=
      (hsame' source hsource).trans hsame
    obtain ⟨hsteps', hresult, hbytes'⟩ := ih howns' (by rw [hsource']; exact hlength) (by omega)
    refine ⟨⟨hsteps'.owns, (hsteps.same.trans hsame').trans hsteps'.same,
      hsteps'.blockSize.trans hsteps.blockSize, hsteps'.size.trans hsteps.size⟩, hresult,
      fun position => ?_⟩
    have hrange : absolute ≤ position ∧ position < absolute + want ↔ position / file.blockSize = index ∧
        start ≤ position % file.blockSize ∧ position % file.blockSize < start + want :=
      mem_block_iff file.positive (by omega)
    rw [hbytes', hsource', hbyte, hdata, hbytes, hsteps.blockSize, ← if_congr hrange rfl rfl]
    by_cases hinside : absolute ≤ position ∧ position < absolute + want
    · -- a position of this block: what the store laid there
      obtain ⟨hindex, hle, hlt'⟩ := hrange.mp hinside
      have hposition : file.blockSize * index + position % file.blockSize = position := by
        rw [← hindex]
        exact Nat.div_add_mod position file.blockSize
      have habsolute : file.blockSize * index + start = offset + done :=
        Nat.div_add_mod absolute file.blockSize
      have hoffset : done + (position % file.blockSize - start) = position - offset := by omega
      rw [if_neg (by omega), if_pos hinside, if_pos (by omega),
        getElem?_subarray _ (by omega), hsame, hoffset]
    · rw [if_neg hinside]
      by_cases hlater : offset + (done + want) ≤ position ∧ position < offset + length
      · rw [if_pos hlater, if_pos (by omega)]
      · rw [if_neg hlater, if_neg (by omega)]
  | case2 file heap done hdone' =>
    have heq : done = length := by omega
    refine ⟨⟨h, fun _ _ => rfl, rfl, rfl⟩, heq, fun position => ?_⟩
    rw [if_neg (by omega)]

/-! ## §5 Reading -/

/-- Only one array has changed, and that within its length. -/
structure OnlyArray (destination : ℕ) (heap heap' : Heap) : Prop where
  others : ∀ ref, ref ≠ destination → heap'.array ref = heap.array ref
  length : heap'.length = heap.length
  arrayLength : (heap'.array destination).length = (heap.array destination).length

lemma OnlyArray.refl (destination : ℕ) (heap : Heap) : OnlyArray destination heap heap :=
  ⟨fun _ _ => rfl, rfl, rfl⟩

lemma OnlyArray.trans (h : OnlyArray destination heap heap')
    (h' : OnlyArray destination heap' heap'') :
    OnlyArray destination heap heap'' where
  others ref hne := (h'.others ref hne).trans (h.others ref hne)
  length := h'.length.trans h.length
  arrayLength := h'.arrayLength.trans h.arrayLength

lemma onlyArray_store {data : Bytes} (hvalid : destination < heap.length)
    (hfits : start + data.length ≤ (heap.array destination).length) :
    OnlyArray destination heap (heap.store destination start data) where
  others ref hne := by rw [Heap.array_store hvalid, if_neg hne]
  length := Heap.length_store ..
  arrayLength := by rw [Heap.array_store hvalid, if_pos rfl, length_overwrite hfits]

/-- An array that is no block of the file. -/
def Foreign (file : BlockFile) (destination : ℕ) : Prop :=
  ∀ index : ℕ, file.blocks[index]? ≠ some destination

lemma foreign_of_held (h : Owns held heap file) (hheld : destination ∈ held) :
    Foreign file destination :=
  fun index hblock => (h.valid index destination hblock).2.1 hheld

lemma byteAt_onlyArray (hforeign : Foreign file destination)
    (h : OnlyArray destination heap heap') (position : ℕ) :
    file.byteAt heap' position = file.byteAt heap position := by
  unfold byteAt
  cases hblock : file.blocks[position / file.blockSize]? with
  | none => rfl
  | some block =>
    have hne : block ≠ destination := by
      rintro rfl
      exact hforeign _ hblock
    dsimp only
    rw [h.others block hne]

/-- A part of a block is copied, and what the block does not have of the range reads as zero. -/
theorem copyBlock_spec {absolute available : ℕ} (hvalid : destination < heap.length)
    (hfits : done + want ≤ (heap.array destination).length)
    (hwant : want ≤ file.blockSize - absolute % file.blockSize)
    (havailable : available = file.available heap (absolute / file.blockSize)
      (absolute % file.blockSize) want) :
    available ≤ want ∧
      OnlyArray destination heap (file.copyBlock heap destination done (absolute / file.blockSize)
        (absolute % file.blockSize) available) ∧
      (∀ i, ((file.copyBlock heap destination done (absolute / file.blockSize)
          (absolute % file.blockSize) available).array destination)[i]? =
        if done ≤ i ∧ i < done + available then
          some (file.byteAt heap (absolute + (i - done)))
        else (heap.array destination)[i]?) ∧
      ∀ k, available ≤ k → k < want → file.byteAt heap (absolute + k) = 0 := by
  unfold BlockFile.available at havailable
  unfold copyBlock
  cases hblock : file.blocks[absolute / file.blockSize]? with
  | none =>
    have hnone : available = 0 := by
      rw [havailable, hblock]
    subst hnone
    refine ⟨Nat.zero_le _, .refl destination heap, fun i => ?_, fun k _ hk => ?_⟩
    · rw [if_neg (by omega)]
    · have hdiv := (div_mod_add (by omega : k < file.blockSize - absolute % file.blockSize)).1
      simp [byteAt, hdiv, hblock]
  | some block =>
    rw [hblock] at havailable
    dsimp only at havailable ⊢
    have hbyte (k : ℕ) (hk : k < want) : file.byteAt heap (absolute + k) =
        ((heap.array block)[absolute % file.blockSize + k]?).getD 0 := by
      obtain ⟨hdiv, hmod⟩ :=
        div_mod_add (by omega : k < file.blockSize - absolute % file.blockSize)
      simp [byteAt, hdiv, hmod, hblock]
    have hbeyond : ∀ k, available ≤ k → k < want → file.byteAt heap (absolute + k) = 0 := by
      intro k hle hk
      rw [hbyte k hk, getElem?_eq_none (by omega)]
      rfl
    split
    next hsome =>
      have hlength : (subarray (heap.array block) (absolute % file.blockSize)
          (absolute % file.blockSize + available)).length = available := by
        rw [length_subarray]
        omega
      have hfits' : done + (subarray (heap.array block) (absolute % file.blockSize)
          (absolute % file.blockSize + available)).length ≤ (heap.array destination).length := by
        omega
      refine ⟨by omega, onlyArray_store hvalid hfits', fun i => ?_, hbeyond⟩
      rw [Heap.array_store hvalid, if_pos rfl, getElem?_overwrite hfits', hlength]
      split
      next hinside =>
        have hlt : absolute % file.blockSize + (i - done) < (heap.array block).length := by omega
        rw [getElem?_subarray _ (by omega), hbyte _ (by omega), getElem?_eq_getElem hlt]
        rfl
      next => rfl
    next hnone =>
      refine ⟨by omega, .refl destination heap, fun i => ?_, hbeyond⟩
      rw [if_neg (by omega)]

/-- The loop of a read lays the bytes over what is left of the destination. -/
theorem readLoop_spec (offset : ℕ) {limit : ℕ} (hforeign : Foreign file destination)
    (hvalid : destination < heap.length) (hlimit : limit ≤ (heap.array destination).length)
    (hdone : done ≤ limit) :
    OnlyArray destination heap (file.readLoop heap destination offset limit done).1 ∧
      (file.readLoop heap destination offset limit done).2 = limit ∧
      ∀ i, ((file.readLoop heap destination offset limit done).1.array destination)[i]? =
        if done ≤ i ∧ i < limit then some (file.byteAt heap (offset + i))
        else (heap.array destination)[i]? := by
  fun_induction readLoop file heap destination offset limit done with
  | case1 heap done hlt absolute index start want available heap₁ heap₂ ih =>
    have hwantLe : want ≤ file.blockSize - absolute % file.blockSize := Nat.min_le_right ..
    have hwantLimit : want ≤ limit - done := Nat.min_le_left ..
    have habsolute : absolute = offset + done := rfl
    obtain ⟨hle, honly, hcopied, hbeyond⟩ : available ≤ want ∧ OnlyArray destination heap heap₁ ∧
        (∀ i, (heap₁.array destination)[i]? = if done ≤ i ∧ i < done + available then
          some (file.byteAt heap (absolute + (i - done))) else (heap.array destination)[i]?) ∧
        ∀ k, available ≤ k → k < want → file.byteAt heap (absolute + k) = 0 :=
      copyBlock_spec hvalid (by omega) hwantLe rfl
    have hpadded : OnlyArray destination heap₁ heap₂ ∧ ∀ i, (heap₂.array destination)[i]? =
        if done ≤ i ∧ i < done + want then some (file.byteAt heap (offset + i))
        else (heap.array destination)[i]? := by
      have hposition (i : ℕ) (hi : done ≤ i) : absolute + (i - done) = offset + i := by omega
      by_cases hshort : available < want
      · -- the rest of the range is zeroed
        have hfits : done + available + (zeroes (want - available)).length ≤
            (heap₁.array destination).length := by
          rw [length_zeroes, honly.arrayLength]
          omega
        have hvalid₁ : destination < heap₁.length := by rwa [honly.length]
        have hstore : heap₂ = heap₁.store destination (done + available) (zeroes (want - available)) :=
          if_pos hshort
        refine ⟨hstore ▸ onlyArray_store hvalid₁ hfits, fun i => ?_⟩
        rw [hstore, Heap.array_store hvalid₁, if_pos rfl, getElem?_overwrite hfits, length_zeroes,
          hcopied]
        by_cases hrest : done + available ≤ i ∧ i < done + available + (want - available)
        · have hzero := hbeyond (i - done) (by omega) (by omega)
          rw [hposition i (by omega)] at hzero
          rw [if_pos hrest, if_pos (by omega), hzero, zeroes, getElem?_replicate, if_pos (by omega)]
        · rw [if_neg hrest]
          by_cases hcopy : done ≤ i ∧ i < done + available
          · rw [if_pos hcopy, if_pos (by omega), hposition i hcopy.1]
          · rw [if_neg hcopy, if_neg (by omega)]
      · have hkeep : heap₂ = heap₁ := if_neg hshort
        have hall : available = want := by omega
        refine ⟨hkeep ▸ .refl destination heap₁, fun i => ?_⟩
        rw [hkeep, hcopied, hall]
        split
        next hcopy => rw [hposition i hcopy.1]
        next => rfl
    have honly₂ : OnlyArray destination heap heap₂ := honly.trans hpadded.1
    have hwant : 0 < want := file.want_pos (offset + done) hlt
    obtain ⟨honly', hresult, hread⟩ := ih (by rwa [honly₂.length])
      (by rw [honly₂.arrayLength]; omega) (by omega)
    refine ⟨honly₂.trans honly', hresult, fun i => ?_⟩
    rw [hread, hpadded.2, byteAt_onlyArray hforeign honly₂]
    by_cases hlater : done + want ≤ i ∧ i < limit
    · rw [if_pos hlater, if_pos (by omega)]
    · rw [if_neg hlater]
      by_cases hhere : done ≤ i ∧ i < done + want
      · rw [if_pos hhere, if_pos (by omega)]
      · rw [if_neg hhere, if_neg (by omega)]
  | case2 heap done hdone' =>
    refine ⟨.refl destination heap, by omega, fun i => ?_⟩
    rw [if_neg (by omega)]

/-- The loop that copies the file out lays the bytes over an array of zeroes. -/
theorem toBytesLoop_spec {out : ℕ} (hforeign : Foreign file out) (hvalid : out < heap.length)
    (hsize : (heap.array out).length = file.size) (hoffset : offset ≤ file.size)
    (hzero : ∀ i, offset ≤ i → i < file.size → (heap.array out)[i]? = some 0) :
    OnlyArray out heap (file.toBytesLoop heap out offset) ∧
      ∀ i, ((file.toBytesLoop heap out offset).array out)[i]? =
        if offset ≤ i ∧ i < file.size then some (file.byteAt heap i)
        else (heap.array out)[i]? := by
  fun_induction toBytesLoop file heap out offset with
  | case1 heap offset hlt index start want available ih =>
    have hwantLe : want ≤ file.blockSize - offset % file.blockSize := Nat.min_le_right ..
    have hwantSize : want ≤ file.size - offset := Nat.min_le_left ..
    obtain ⟨hle, honly, hcopied, hbeyond⟩ := copyBlock_spec hvalid
      (by rw [hsize]; omega : offset + want ≤ (heap.array out).length) hwantLe
      (rfl : available = _)
    have hwant : 0 < want := file.want_pos offset hlt
    have hstep : ∀ i, i < offset ∨ offset + want ≤ i →
        ((file.copyBlock heap out offset index start available).array out)[i]? =
          (heap.array out)[i]? := by
      intro i hi
      exact (hcopied i).trans (if_neg (by omega))
    obtain ⟨honly', hread⟩ := ih (by rwa [honly.length]) (by rw [honly.arrayLength, hsize])
      (by omega) (fun i hi hlt' => (hstep i (.inr hi)).trans (hzero i (by omega) hlt'))
    refine ⟨honly.trans honly', fun i => ?_⟩
    rw [hread, byteAt_onlyArray hforeign honly]
    by_cases hlater : offset + want ≤ i ∧ i < file.size
    · rw [if_pos hlater, if_pos (by omega)]
    · rw [if_neg hlater]
      by_cases hhere : offset ≤ i ∧ i < offset + want
      · rw [if_pos (by omega)]
        refine (hcopied i).trans ?_
        have hposition : offset + (i - offset) = i := by omega
        split
        next => rw [hposition]
        next hrest =>
          -- what the block does not have was zero in the array already
          rw [hzero i hhere.1 (by omega), ← hposition, hbeyond (i - offset) (by omega) (by omega)]
      · rw [if_neg (by omega), hstep i (by omega)]
  | case2 heap offset hdone =>
    refine ⟨.refl out heap, fun i => ?_⟩
    rw [if_neg (by omega)]

/-! ## §6 Images -/

/-- The loop that takes in an image holds its bytes from the offset on. -/
theorem addBlocks_spec (h : Owns held heap file) (bytes : Bytes)
    (hoffset : offset = file.blockSize * index)
    (hmissing : ∀ later, index ≤ later → file.blocks[later]? = none) :
    Steps held heap (file.addBlocks bytes heap offset index).1 file
        (file.addBlocks bytes heap offset index).2 ∧
      ∀ position, (file.addBlocks bytes heap offset index).2.byteAt
          (file.addBlocks bytes heap offset index).1 position =
        if offset ≤ position ∧ position < bytes.length then (bytes[position]?).getD 0
        else file.byteAt heap position := by
  fun_induction addBlocks file bytes heap offset index with
  | case1 file heap offset index hlt stop heap' block halloc ih =>
    cases halloc
    have hlength : (subarray bytes offset stop).length ≤ file.blockSize := by
      rw [length_subarray]
      omega
    obtain ⟨howns, hsame⟩ := owns_insert h (subarray bytes offset stop) hlength index
    have hmissing' : ∀ later, index + 1 ≤ later →
        (file.blocks.insert index heap.length)[later]? = none := by
      intro later hlater
      rw [Std.ExtTreeMap.getElem?_insert, if_neg (by simp; omega)]
      exact hmissing later (by omega)
    obtain ⟨hsteps, hbytes⟩ := ih howns (by rw [hoffset, Nat.mul_add, Nat.mul_one]) hmissing'
    refine ⟨⟨hsteps.owns, hsame.trans hsteps.same, hsteps.blockSize, hsteps.size⟩,
      fun position => ?_⟩
    have hinsert := byteAt_insert h (subarray bytes offset stop) index position
    refine (hbytes position).trans ((if_congr Iff.rfl rfl hinsert).trans ?_)
    have hposition := Nat.div_add_mod position file.blockSize
    have hmod := Nat.mod_lt position file.positive
    by_cases hindex : position / file.blockSize = index
    · rw [hindex, ← hoffset] at hposition
      have hold : file.byteAt heap position = 0 := by
        simp [byteAt, hindex, hmissing index (Nat.le_refl index)]
      rw [if_neg (by omega), if_pos hindex, hold]
      split
      next hinside => rw [getElem?_subarray _ (by omega), hposition]
      next hbeyond =>
        rw [getElem?_eq_none (by rw [length_subarray]; omega)]
        rfl
    · rw [if_neg hindex]
      have hiff : offset ≤ position ∧ position < bytes.length ↔
          offset + file.blockSize ≤ position ∧ position < bytes.length := by
        have hstart : offset % file.blockSize = 0 := by rw [hoffset, Nat.mul_mod_right]
        have hdiv : offset / file.blockSize = index := by
          rw [hoffset, Nat.mul_div_cancel_left _ file.positive]
        have houtside : ¬ (offset ≤ position ∧ position < offset + file.blockSize) := by
          intro hinside
          apply hindex
          rw [← hdiv]
          exact ((mem_block_iff file.positive (by omega)).mp hinside).1
        constructor
        · intro hinside
          exact ⟨by omega, hinside.2⟩
        · intro hinside
          exact ⟨by omega, hinside.2⟩
      rw [if_congr hiff rfl rfl]
  | case2 file heap offset index hdone =>
    refine ⟨⟨h, fun _ _ => rfl, rfl, rfl⟩, fun position => ?_⟩
    rw [if_neg (by omega)]

/-! ## §7 The operations -/

/-- The blocks hold a flat file, and zeroes past its end. -/
structure Holds (held : List ℕ) (heap : Heap) (file : BlockFile) (flat : Bytes) : Prop where
  owns : Owns held heap file
  size : file.size = flat.length
  bytes : ∀ position, file.byteAt heap position = (flat[position]?).getD 0

lemma getElem?_grow (flat : Bytes) (length i : ℕ) : (FlatFile.grow flat length)[i]? =
    if i < flat.length then flat[i]? else if i < length then some 0 else none := by
  unfold FlatFile.grow
  by_cases hi : i < flat.length
  · rw [if_pos hi, getElem?_append_left hi]
  · rw [if_neg hi, getElem?_append_right (by omega), zeroes, getElem?_replicate]
    by_cases hlt : i < length
    · rw [if_pos hlt, if_pos (by omega)]
    · rw [if_neg hlt, if_neg (by omega)]

lemma length_grow (flat : Bytes) (length : ℕ) :
    (FlatFile.grow flat length).length = max flat.length length := by
  simp only [FlatFile.grow, length_append, length_zeroes]
  omega

lemma getD_grow (flat : Bytes) (length i : ℕ) :
    ((FlatFile.grow flat length)[i]?).getD 0 = (flat[i]?).getD 0 := by
  rw [getElem?_grow]
  split
  next => rfl
  next hi =>
    rw [getElem?_eq_none (by omega)]
    split <;> rfl

variable {flat : Bytes}

/-- A write in range moves the flat file. -/
theorem write_spec (h : Holds held heap file flat) (hsource : source ∈ held)
    (hrange : offset + (heap.array source).length ≤ maxSafeOffset) :
    ∃ heap' file', file.write heap source offset =
        .ok (heap', file', (heap.array source).length) ∧
      Holds held heap' file' (FlatFile.write flat (heap.array source) offset) ∧
      SameHeld held heap heap' := by
  have howns : Owns held heap { file with writes := file.writes + 1 } :=
    ⟨h.owns.live, h.owns.valid, h.owns.distinct⟩
  obtain ⟨hsteps, hdone, hbytes⟩ := writeLoop_spec howns offset hsource rfl (Nat.zero_le _)
  have hgrown : offset + (heap.array source).length ≤
      (FlatFile.grow flat (offset + (heap.array source).length)).length := by
    rw [length_grow]
    omega
  set written := { file with writes := file.writes + 1 }.writeLoop heap source
    (heap.array source).length offset 0
  have hwrite : file.write heap source offset = .ok (written.1,
      { written.2.1 with size := max written.2.1.size (offset + (heap.array source).length) },
      written.2.2) := by
    rw [write, requireRange, if_pos hrange]
    rfl
  rw [hdone] at hwrite
  refine ⟨_, _, hwrite, ⟨⟨hsteps.owns.live, hsteps.owns.valid, hsteps.owns.distinct⟩, ?_, ?_⟩,
    hsteps.same⟩
  · rw [FlatFile.write, length_overwrite hgrown, length_grow, ← h.size]
    have hsize := hsteps.size
    dsimp only at hsize ⊢
    rw [hsize]
  · intro position
    refine (hbytes position).trans ?_
    rw [FlatFile.write, getElem?_overwrite hgrown, Nat.add_zero]
    split
    next => rfl
    next => rw [getD_grow, ← h.bytes]; rfl

lemma getD_truncate (flat : Bytes) (size i : ℕ) :
    ((FlatFile.truncate flat size)[i]?).getD 0 = if i < size then (flat[i]?).getD 0 else 0 := by
  rw [FlatFile.truncate, getD_grow]
  split
  next hi => rw [getElem?_take_of_lt hi]
  next hi =>
    rw [getElem?_eq_none (by rw [length_take]; omega)]
    rfl

lemma length_truncate (flat : Bytes) (size : ℕ) : (FlatFile.truncate flat size).length = size := by
  rw [FlatFile.truncate, length_grow, length_take]
  omega

lemma owns_filter (h : Owns held heap file) (keep : ℕ → Bool) (size : ℕ) :
    Owns held heap { file with size := size, blocks := file.blocks.filter fun index _ => keep index } ∧
      ∀ position, { file with
          size := size
          blocks := file.blocks.filter fun index _ => keep index }.byteAt heap position =
        if keep (position / file.blockSize) then file.byteAt heap position else 0 := by
  have hfilter (index : ℕ) : (file.blocks.filter fun index _ => keep index)[index]? =
      if keep index then file.blocks[index]? else none := by
    rw [Std.ExtTreeMap.getElem?_filter']
    cases file.blocks[index]? with
    | none => simp
    | some block => cases hkeep : keep index <;> simp [Option.filter]
  have hkept : ∀ index block : ℕ,
      (file.blocks.filter fun index _ => keep index)[index]? = some block →
        file.blocks[index]? = some block := by
    intro index block hblock
    rw [hfilter] at hblock
    split at hblock
    · exact hblock
    · cases hblock
  constructor
  · refine ⟨h.live, fun index block hblock => h.valid index block (hkept index block hblock), ?_⟩
    intro index index' block hblock hblock'
    exact h.distinct index index' block (hkept _ _ hblock) (hkept _ _ hblock')
  · intro position
    unfold byteAt
    dsimp only
    rw [hfilter]
    cases hkeep : keep (position / file.blockSize) <;> simp

/-- What is left of a block that is zeroed from an offset on. -/
theorem zeroRest_spec (h : Owns held heap file) (index start : ℕ) :
    Owns held (file.zeroRest heap index start) file ∧
      SameHeld held heap (file.zeroRest heap index start) ∧
      ∀ position, file.byteAt (file.zeroRest heap index start) position =
        if position / file.blockSize = index ∧ start ≤ position % file.blockSize then 0
        else file.byteAt heap position := by
  unfold zeroRest
  split
  next hmissing =>
    refine ⟨h, fun _ _ => rfl, fun position => ?_⟩
    split
    next hrest => simp [byteAt, hrest.1, hmissing]
    next => rfl
  next boundary hboundary =>
    have hbyte (position : ℕ) (hindex : position / file.blockSize = index) :
        file.byteAt heap position = ((heap.array boundary)[position % file.blockSize]?).getD 0 := by
      simp [byteAt, hindex, hboundary]
    split
    next hlong =>
      have hfits : start + (zeroes ((heap.array boundary).length - start)).length ≤
          (heap.array boundary).length := by
        rw [length_zeroes]
        omega
      obtain ⟨howns, hsame, hbytes⟩ := owns_store h hboundary hfits
      refine ⟨howns, hsame, fun position => ?_⟩
      rw [hbytes, length_zeroes, getElem?_zeroes]
      by_cases hrest : position / file.blockSize = index ∧ start ≤ position % file.blockSize
      · rw [if_pos hrest]
        split
        next => rfl
        next hbeyond =>
          rw [hbyte position hrest.1, getElem?_eq_none (by omega)]
          rfl
      · rw [if_neg hrest, if_neg (fun hinside => hrest ⟨hinside.1, hinside.2.1⟩)]
    next hshort =>
      refine ⟨h, fun _ _ => rfl, fun position => ?_⟩
      split
      next hrest =>
        rw [hbyte position hrest.1, getElem?_eq_none (by omega)]
        rfl
      next => rfl

section

variable (h : Holds held heap file flat)

include h

/-- A truncation in range moves the flat file. -/
theorem truncate_spec {size : ℕ} (hrange : size ≤ maxSafeOffset) :
    ∃ heap' file', file.truncate heap size = .ok (heap', file') ∧
      Holds held heap' file' (FlatFile.truncate flat size) ∧ SameHeld held heap heap' := by
  unfold truncate
  rw [if_neg (by omega)]
  split
  next hshrink =>
    set keep : ℕ → Bool := fun index =>
      !(size / file.blockSize < index || (size % file.blockSize = 0 && index = size / file.blockSize))
      with hkeep
    obtain ⟨howns, hbytes⟩ := owns_filter h.owns keep size
    dsimp only
    by_cases hoffset : size % file.blockSize = 0
    · rw [if_pos hoffset]
      refine ⟨heap, _, rfl, ⟨howns, (length_truncate flat size).symm, fun position => ?_⟩, fun _ _ => rfl⟩
      rw [hbytes, getD_truncate, h.bytes]
      have hsame : keep (position / file.blockSize) = true ↔ position < size := by
        rw [lt_iff_div_mod file.blockSize, hoffset]
        simp [hkeep, hoffset]
        omega
      rw [if_congr hsame rfl rfl]
    · obtain ⟨howns', hsame, hrest⟩ := zeroRest_spec howns (size / file.blockSize)
        (size % file.blockSize)
      rw [if_neg hoffset]
      refine ⟨_, _, rfl, ⟨howns', (length_truncate flat size).symm, fun position => ?_⟩, hsame⟩
      have hbefore : position < size ↔ position / file.blockSize < size / file.blockSize ∨
          position / file.blockSize = size / file.blockSize ∧
            position % file.blockSize < size % file.blockSize := lt_iff_div_mod file.blockSize
      have hkept : keep (position / file.blockSize) = true ↔
          position / file.blockSize ≤ size / file.blockSize := by
        simp [hkeep, hoffset]
      rw [hrest, hbytes, getD_truncate, h.bytes]
      show (if position / file.blockSize = size / file.blockSize ∧
          size % file.blockSize ≤ position % file.blockSize then (0 : UInt8)
        else if keep (position / file.blockSize) = true then (flat[position]?).getD 0 else 0) = _
      by_cases hlt : position < size
      · rw [if_neg (by omega), if_pos (hkept.mpr (by omega)), if_pos hlt]
      · rw [if_neg hlt]
        split
        next => rfl
        next houtside => rw [if_neg (fun hkeeps => houtside (by have := hkept.mp hkeeps; omega))]
  next hgrow =>
    refine ⟨heap, _, rfl, ⟨⟨h.owns.live, h.owns.valid, h.owns.distinct⟩,
      (length_truncate flat size).symm, fun position => ?_⟩, fun _ _ => rfl⟩
    rw [getD_truncate]
    refine (h.bytes position).trans ?_
    split
    next => rfl
    next hbeyond =>
      have hsize := h.size
      rw [getElem?_eq_none (by omega)]
      rfl

/-- A change of an array that is no block leaves the file as it is. -/
theorem Holds.onlyArray (hforeign : Foreign file destination)
    (honly : OnlyArray destination heap heap') : Holds held heap' file flat := by
  refine ⟨⟨?_, ?_, h.owns.distinct⟩, h.size, fun position => ?_⟩
  · intro ref hmem
    rw [honly.length]
    exact h.owns.live ref hmem
  · intro index block hblock
    obtain ⟨hlt, hfree, hle⟩ := h.owns.valid index block hblock
    rw [honly.length, honly.others block (fun heq => hforeign index (heq ▸ hblock))]
    exact ⟨hlt, hfree, hle⟩
  · rw [byteAt_onlyArray hforeign honly]
    exact h.bytes position

/-- A read in range leaves the bytes of the flat file in its destination. -/
theorem read_spec (hdestination : destination ∈ held)
    (hrange : offset + (heap.array destination).length ≤ maxSafeOffset) :
    ∃ heap' file', file.read heap destination offset = .ok (heap', file',
        (FlatFile.read flat offset (heap.array destination).length).length) ∧
      Holds held heap' file' flat ∧ OnlyArray destination heap heap' ∧
      heap'.array destination = overwrite (heap.array destination) 0
        (FlatFile.read flat offset (heap.array destination).length) := by
  have hforeign : Foreign file destination := foreign_of_held h.owns hdestination
  set limit := min (heap.array destination).length (file.size - offset) with hlimit
  have hfound : (FlatFile.read flat offset (heap.array destination).length).length = limit := by
    rw [FlatFile.read, length_take, length_drop, hlimit, h.size]
  obtain ⟨honly, hdone, hread⟩ := readLoop_spec offset hforeign
    (h.owns.live destination hdestination) (Nat.min_le_left _ _ : limit ≤ _) (Nat.zero_le _)
  set result := file.readLoop heap destination offset limit 0
  have hok : file.read heap destination offset =
      .ok (result.1, { file with reads := file.reads + 1 }, result.2) := by
    rw [read, requireRange, if_pos hrange]
    rfl
  have hholds : Holds held result.1 file flat := h.onlyArray hforeign honly
  rw [hdone] at hok
  rw [hfound]
  refine ⟨_, _, hok, ⟨⟨hholds.owns.live, hholds.owns.valid, hholds.owns.distinct⟩, hholds.size,
    hholds.bytes⟩, honly, ?_⟩
  · apply ext_getElem?
    intro i
    have hfits : 0 + (FlatFile.read flat offset (heap.array destination).length).length ≤
        (heap.array destination).length := by
      rw [hfound]
      omega
    rw [hread, getElem?_overwrite hfits, hfound, Nat.zero_add, Nat.sub_zero]
    split
    next hinside =>
      have hsize := h.size
      have hlt : offset + i < flat.length := by omega
      rw [h.bytes, FlatFile.read, getElem?_take_of_lt (by omega), getElem?_drop,
        getElem?_eq_getElem hlt]
      rfl
    next => rfl

/-- The bytes that are copied out are the flat file, in a new array. -/
theorem toBytes_spec :
    (file.toBytes heap).1.array (file.toBytes heap).2 = flat ∧ (file.toBytes heap).2 ∉ held ∧
      SameHeld held heap (file.toBytes heap).1 := by
  have hback : (file.toBytes heap).2 = heap.length := rfl
  have hfresh : heap.length ∉ held := fun hmem => Nat.lt_irrefl _ (h.owns.live _ hmem)
  have hforeign : Foreign file heap.length := fun index hblock =>
    Nat.lt_irrefl _ (h.owns.valid index _ hblock).1
  have hnew : (heap.alloc (zeroes file.size)).1.array heap.length = zeroes file.size := by
    rw [Heap.array_alloc, if_pos rfl]
  have hzero : ∀ i, 0 ≤ i → i < file.size →
      ((heap.alloc (zeroes file.size)).1.array heap.length)[i]? = some 0 := by
    intro i _ hi
    rw [hnew, zeroes, getElem?_replicate, if_pos hi]
  obtain ⟨honly, hbytes⟩ := toBytesLoop_spec hforeign (by simp [Heap.alloc])
    (by rw [hnew, length_zeroes]) (Nat.zero_le _) hzero
  have hbyte (position : ℕ) : file.byteAt (heap.alloc (zeroes file.size)).1 position =
      file.byteAt heap position := by
    unfold byteAt
    cases hblock : file.blocks[position / file.blockSize]? with
    | none => rfl
    | some block =>
      dsimp only
      rw [Heap.array_alloc, if_neg (Nat.ne_of_lt (h.owns.valid _ _ hblock).1)]
  rw [hback]
  refine ⟨?_, hfresh, fun ref hmem => ?_⟩
  · apply ext_getElem?
    intro i
    refine (hbytes i).trans ?_
    have hsize := h.size
    split
    next hinside =>
      rw [hbyte, h.bytes, getElem?_eq_getElem (by omega : i < flat.length)]
      rfl
    next houtside =>
      rw [hnew, getElem?_eq_none (by rw [length_zeroes]; omega), getElem?_eq_none (by omega)]
  · have hlt := h.owns.live ref hmem
    refine (honly.others ref (Nat.ne_of_lt hlt)).trans ?_
    rw [Heap.array_alloc, if_neg (Nat.ne_of_lt hlt)]

end

/-- An image is held as it is, in arrays of the file's own. -/
theorem fromBytes_spec (heap : Heap) (source : ℕ) (hpositive : 0 < blockSize)
    (hsafe : blockSize ≤ maxSafeOffset) :
    ∃ heap' file, fromBytes heap source blockSize = .ok (heap', file) ∧
      Holds (range heap.length) heap' file (heap.array source) ∧
      SameHeld (range heap.length) heap heap' := by
  set empty : BlockFile := ⟨blockSize, ∅, (heap.array source).length, 0, 0, hpositive⟩ with hempty
  have howns : Owns (range heap.length) heap empty := by
    refine ⟨fun ref hmem => mem_range.mp hmem, ?_, ?_⟩
    · intro index block hblock
      simp [hempty] at hblock
    · intro index index' block hblock
      simp [hempty] at hblock
  obtain ⟨hsteps, hbytes⟩ := addBlocks_spec howns (heap.array source)
    (Nat.mul_zero _).symm (fun later _ => by simp [hempty])
  have hok : fromBytes heap source blockSize =
      .ok (empty.addBlocks (heap.array source) heap 0 0) := by
    rw [fromBytes, create, dif_pos ⟨hpositive, hsafe⟩]
    rfl
  refine ⟨_, _, hok, ⟨hsteps.owns, hsteps.size, fun position => ?_⟩, hsteps.same⟩
  rw [hbytes]
  split
  next => rfl
  next hbeyond =>
    rw [getElem?_eq_none (by omega)]
    simp [byteAt, hempty]

end BlockFile

end Kwiry.Plugin
