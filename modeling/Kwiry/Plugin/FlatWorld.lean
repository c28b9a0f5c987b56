import Kwiry.Foundations.Traces
import Kwiry.Plugin.FlatFile

/-!
# Worlds of a File

A file and the arrays of its callers. The callers write, truncate and read with their arrays, and
store into them between times. In blocks the file shares a heap with them; flat it does not. Moved by
the same operations the two stay alike, so a caller cannot tell them apart.
-/

namespace Kwiry.Plugin

open Foundations List Option

/-! ## §1 Operations -/

/-- What the callers of a file do. The arrays are theirs. -/
inductive Operation
  | write (source offset : ℕ)
  | truncate (size : ℕ)
  | read (destination offset : ℕ)
  | store (array start : ℕ) (data : Bytes)

/-- The array of a caller that an operation is to change. -/
def Operation.target : Operation → Option ℕ
  | .write .. | .truncate _ => none
  | .read destination _ => some destination
  | .store array .. => some array

/-- A flat file and the arrays of its callers. -/
structure FlatWorld where
  flat : Bytes
  arrays : Heap
deriving DecidableEq

/-- One operation with its arguments in range. -/
def FlatWorld.step (world : FlatWorld) : Operation → Option FlatWorld
  | .write source offset =>
    let bytes := world.arrays.array source
    if source < world.arrays.length ∧ offset + bytes.length ≤ maxSafeOffset then
      some { world with flat := FlatFile.write world.flat bytes offset }
    else none
  | .truncate size =>
    if size ≤ maxSafeOffset then some { world with flat := FlatFile.truncate world.flat size }
    else none
  | .read destination offset =>
    let length := (world.arrays.array destination).length
    if destination < world.arrays.length ∧ offset + length ≤ maxSafeOffset then
      let found := FlatFile.read world.flat offset length
      some { world with arrays := world.arrays.store destination 0 found }
    else none
  | .store array start data =>
    if array < world.arrays.length ∧ start + data.length ≤ (world.arrays.array array).length then
      some { world with arrays := world.arrays.store array start data }
    else none

/-- A block file and the heap it shares with its callers. -/
structure World where
  heap : Heap
  file : BlockFile

def World.step (world : World) : Operation → Option World
  | .write source offset =>
    match world.file.write world.heap source offset with
    | .error _ => none
    | .ok (heap, file, _) => some ⟨heap, file⟩
  | .truncate size =>
    match world.file.truncate world.heap size with
    | .error _ => none
    | .ok (heap, file) => some ⟨heap, file⟩
  | .read destination offset =>
    match world.file.read world.heap destination offset with
    | .error _ => none
    | .ok (heap, file, _) => some ⟨heap, file⟩
  | .store array start data => some ⟨world.heap.store array start data, world.file⟩

/-- The blocks hold the flat file, and the callers' arrays are the same. -/
structure World.Refines (world : World) (flatWorld : FlatWorld) : Prop where
  holds : BlockFile.Holds (range flatWorld.arrays.length) world.heap world.file flatWorld.flat
  arrays : ∀ ref < flatWorld.arrays.length, world.heap.array ref = flatWorld.arrays.array ref

/-- A caller sees the flat file: its size, its bytes in an array of their own, what any read in
range leaves and how much that was, and the callers' arrays. -/
structure World.Shows (world : World) (flatWorld : FlatWorld) : Prop where
  size : world.file.size = flatWorld.flat.length
  toBytes : (world.file.toBytes world.heap).1.array (world.file.toBytes world.heap).2 = flatWorld.flat
  own : flatWorld.arrays.length ≤ (world.file.toBytes world.heap).2
  read : ∀ destination < flatWorld.arrays.length, ∀ offset,
    offset + (flatWorld.arrays.array destination).length ≤ maxSafeOffset →
    ∃ heap' file', world.file.read world.heap destination offset = .ok (heap', file',
        (FlatFile.read flatWorld.flat offset (flatWorld.arrays.array destination).length).length) ∧
      heap'.array destination = overwrite (flatWorld.arrays.array destination) 0
        (FlatFile.read flatWorld.flat offset (flatWorld.arrays.array destination).length)
  arrays : ∀ ref < flatWorld.arrays.length, world.heap.array ref = flatWorld.arrays.array ref

/-! ## §2 One operation -/

variable {world : World} {flatWorld flatWorld' : FlatWorld}

lemma World.Refines.shows (h : world.Refines flatWorld) : world.Shows flatWorld := by
  obtain ⟨hbytes, hfresh, -⟩ := BlockFile.toBytes_spec h.holds
  refine ⟨h.holds.size, hbytes, ?_, ?_, h.arrays⟩
  · exact Nat.le_of_not_lt fun hlt => hfresh (mem_range.mpr hlt)
  · intro destination hdestination offset hrange
    rw [← h.arrays destination hdestination] at hrange ⊢
    obtain ⟨heap', file', hread, -, -, harray⟩ :=
      BlockFile.read_spec h.holds (mem_range.mpr hdestination) hrange
    exact ⟨heap', file', hread, harray⟩

/-- What the callers hold after one array is overwritten on both sides. -/
theorem World.Refines.arrays_store (h : world.Refines flatWorld) {array start : ℕ} {data : Bytes}
    {heap' : Heap} (harray : array < flatWorld.arrays.length)
    (honly : BlockFile.OnlyArray array world.heap heap')
    (hstored : heap'.array array = overwrite (flatWorld.arrays.array array) start data) :
    ∀ ref < (flatWorld.arrays.store array start data).length,
      heap'.array ref = (flatWorld.arrays.store array start data).array ref := by
  intro ref hlt
  rw [Heap.length_store] at hlt
  rw [Heap.array_store harray]
  split
  next heq => rw [heq, hstored]
  next hne => rw [honly.others ref hne, h.arrays ref hlt]

/-- One operation moves both worlds alike. -/
theorem World.Refines.step (h : world.Refines flatWorld) {operation : Operation}
    (hstep : flatWorld.step operation = some flatWorld') :
    ∃ world', world.step operation = some world' ∧ world'.Refines flatWorld' := by
  cases operation with
  | write source offset =>
    simp only [FlatWorld.step, ite_none_right_eq_some, some.injEq] at hstep
    obtain ⟨⟨hsource, hrange⟩, rfl⟩ := hstep
    rw [← h.arrays source hsource] at hrange ⊢
    obtain ⟨heap', file', hwrite, hholds, hsame⟩ :=
      BlockFile.write_spec h.holds (mem_range.mpr hsource) hrange
    refine ⟨⟨heap', file'⟩, by simp [World.step, hwrite], hholds, fun ref hlt => ?_⟩
    rw [hsame ref (mem_range.mpr hlt)]
    exact h.arrays ref hlt
  | truncate size =>
    simp only [FlatWorld.step, ite_none_right_eq_some, some.injEq] at hstep
    obtain ⟨hrange, rfl⟩ := hstep
    obtain ⟨heap', file', htruncate, hholds, hsame⟩ := BlockFile.truncate_spec h.holds hrange
    refine ⟨⟨heap', file'⟩, by simp [World.step, htruncate], hholds, fun ref hlt => ?_⟩
    rw [hsame ref (mem_range.mpr hlt)]
    exact h.arrays ref hlt
  | read destination offset =>
    simp only [FlatWorld.step, ite_none_right_eq_some, some.injEq] at hstep
    obtain ⟨⟨hdestination, hrange⟩, rfl⟩ := hstep
    rw [← h.arrays destination hdestination] at hrange
    obtain ⟨heap', file', hread, hholds, honly, harray⟩ :=
      BlockFile.read_spec h.holds (mem_range.mpr hdestination) hrange
    rw [h.arrays destination hdestination] at harray
    refine ⟨⟨heap', file'⟩, by simp [World.step, hread], ?_, h.arrays_store hdestination honly harray⟩
    rw [Heap.length_store]
    exact hholds
  | store array start data =>
    simp only [FlatWorld.step, ite_none_right_eq_some, some.injEq] at hstep
    obtain ⟨⟨harray, hfits⟩, rfl⟩ := hstep
    rw [← h.arrays array harray] at hfits
    have hheld : array ∈ range flatWorld.arrays.length := mem_range.mpr harray
    have hvalid : array < world.heap.length := h.holds.owns.live array hheld
    have honly : BlockFile.OnlyArray array world.heap (world.heap.store array start data) :=
      BlockFile.onlyArray_store hvalid hfits
    have hforeign : world.file.Foreign array := BlockFile.foreign_of_held h.holds.owns hheld
    have hstored : (world.heap.store array start data).array array =
        overwrite (flatWorld.arrays.array array) start data := by
      rw [Heap.array_store hvalid, if_pos rfl, h.arrays array harray]
    refine ⟨_, rfl, ?_, h.arrays_store harray honly hstored⟩
    rw [Heap.length_store]
    exact h.holds.onlyArray hforeign honly

/-! ## §3 Any operations -/

lemma World.Refines.run (h : world.Refines flatWorld) {operations : List Operation}
    (hrun : runEvents FlatWorld.step flatWorld operations = some flatWorld') :
    ∃ world', runEvents World.step world operations = some world' ∧ world'.Refines flatWorld' := by
  induction operations generalizing world flatWorld with
  | nil =>
    cases hrun
    exact ⟨world, rfl, h⟩
  | cons operation rest ih =>
    rw [runEvents_cons, bind_eq_some_iff] at hrun
    obtain ⟨next, hnext, hrest⟩ := hrun
    obtain ⟨world', hstep, hrefines⟩ := h.step hnext
    obtain ⟨world'', hrun', hrefines'⟩ := ih hrefines hrest
    exact ⟨world'', by rw [runEvents_cons, hstep]; exact hrun', hrefines'⟩

/-- An operation changes no array but its target. -/
theorem FlatWorld.arrays_step {operation : Operation}
    (hstep : flatWorld.step operation = some flatWorld') :
    flatWorld'.arrays.length = flatWorld.arrays.length ∧
      ∀ ref, operation.target ≠ some ref →
        flatWorld'.arrays.array ref = flatWorld.arrays.array ref := by
  cases operation with
  | write source offset | truncate size =>
    simp only [FlatWorld.step, ite_none_right_eq_some, some.injEq] at hstep
    obtain ⟨-, rfl⟩ := hstep
    exact ⟨rfl, fun _ _ => rfl⟩
  | read destination offset =>
    simp only [FlatWorld.step, ite_none_right_eq_some, some.injEq] at hstep
    obtain ⟨⟨hvalid, -⟩, rfl⟩ := hstep
    refine ⟨Heap.length_store .., fun ref htarget => ?_⟩
    have hne : ref ≠ destination := fun heq => htarget (congrArg some heq.symm)
    rw [Heap.array_store hvalid, if_neg hne]
  | store array start data =>
    simp only [FlatWorld.step, ite_none_right_eq_some, some.injEq] at hstep
    obtain ⟨⟨hvalid, -⟩, rfl⟩ := hstep
    refine ⟨Heap.length_store .., fun ref htarget => ?_⟩
    have hne : ref ≠ array := fun heq => htarget (congrArg some heq.symm)
    rw [Heap.array_store hvalid, if_neg hne]

lemma FlatWorld.arrays_run {operations : List Operation}
    (hrun : runEvents FlatWorld.step flatWorld operations = some flatWorld') :
    flatWorld'.arrays.length = flatWorld.arrays.length ∧
      ∀ ref, (∀ operation ∈ operations, operation.target ≠ some ref) →
        flatWorld'.arrays.array ref = flatWorld.arrays.array ref := by
  induction operations generalizing flatWorld with
  | nil =>
    cases hrun
    exact ⟨rfl, fun _ _ => rfl⟩
  | cons operation rest ih =>
    rw [runEvents_cons, bind_eq_some_iff] at hrun
    obtain ⟨next, hnext, hrest⟩ := hrun
    obtain ⟨hlength, harray⟩ := arrays_step hnext
    obtain ⟨hlength', harray'⟩ := ih hrest
    refine ⟨hlength'.trans hlength, fun ref htarget => ?_⟩
    rw [harray' ref fun later hlater => htarget later (mem_cons_of_mem _ hlater)]
    exact harray ref (htarget operation mem_cons_self)

/-- A file made from an image and moved by any operations in range shows the flat file that starts
as the image, and the arrays no operation is to change, the image among them, stay. -/
theorem blockFile_refines (heap : Heap) (source blockSize : ℕ) (operations : List Operation)
    (hpositive : 0 < blockSize) (hsafe : blockSize ≤ maxSafeOffset)
    (hrun : runEvents FlatWorld.step ⟨heap.array source, heap⟩ operations = some flatWorld) :
    ∃ heap' file world, BlockFile.fromBytes heap source blockSize = .ok (heap', file) ∧
      runEvents World.step ⟨heap', file⟩ operations = some world ∧ world.Shows flatWorld ∧
      ∀ ref < heap.length, (∀ operation ∈ operations, operation.target ≠ some ref) →
        world.heap.array ref = heap.array ref := by
  obtain ⟨heap', file, hfile, hholds, hsame⟩ := BlockFile.fromBytes_spec heap source hpositive hsafe
  have hrefines : World.Refines ⟨heap', file⟩ ⟨heap.array source, heap⟩ :=
    ⟨hholds, fun ref hlt => hsame ref (mem_range.mpr hlt)⟩
  obtain ⟨world, hrun', hrefines'⟩ := hrefines.run hrun
  refine ⟨heap', file, world, hfile, hrun', hrefines'.shows, fun ref hlt htarget => ?_⟩
  obtain ⟨hlength, harray⟩ := FlatWorld.arrays_run hrun
  rw [hrefines'.arrays ref (by rwa [hlength])]
  exact harray ref htarget

/-- Two blocks of four bytes: a write across them, a shrink, a growth. -/
theorem blockFile_refines_run :
    ∃ heap' file world, BlockFile.fromBytes [[1, 2, 3, 4, 5], [7, 8, 9]] 0 4 = .ok (heap', file) ∧
      runEvents World.step ⟨heap', file⟩ [.write 1 3, .truncate 5, .truncate 7] = some world ∧
      world.Shows ⟨[1, 2, 3, 7, 8, 0, 0], [[1, 2, 3, 4, 5], [7, 8, 9]]⟩ ∧
      ∀ ref < 2, (∀ operation ∈ [.write 1 3, .truncate 5, .truncate 7],
        Operation.target operation ≠ some ref) →
        world.heap.array ref = Heap.array [[1, 2, 3, 4, 5], [7, 8, 9]] ref :=
  blockFile_refines [[1, 2, 3, 4, 5], [7, 8, 9]] 0 4 [.write 1 3, .truncate 5, .truncate 7]
    (by decide) (by decide) (by decide)

end Kwiry.Plugin
