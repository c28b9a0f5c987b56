import Kwiry.Foundations.Heaps
import Std.Data.ExtTreeMap.Lemmas

/-!
# Block Files

`worker/block-file.ts`: a file held in blocks of one size. Blocks are arrays of their own, kept
under their index. A block that was never written is missing, and the last block of an image is as
short as the image leaves it until it is written. Numbers are safe integers, for which the quotient
of the source's division, rounded down, is the integer quotient.
-/

namespace Kwiry.Plugin

open Foundations

/-- The largest safe integer. -/
def maxSafeOffset : ℕ := 2 ^ 53 - 1

/-- A subarray, from one index up to another. -/
def subarray (bytes : Bytes) (first last : ℕ) : Bytes :=
  (bytes.drop first).take (last - first)

def zeroes (length : ℕ) : Bytes :=
  List.replicate length 0

/-- One file. The blocks are references to arrays. -/
structure BlockFile where
  blockSize : ℕ
  blocks : Std.ExtTreeMap ℕ ℕ
  (size reads writes : ℕ)
  positive : 0 < blockSize

namespace BlockFile

def create (blockSize : ℕ) : Except String BlockFile :=
  if h : 0 < blockSize ∧ blockSize ≤ maxSafeOffset then .ok ⟨blockSize, ∅, 0, 0, 0, h.1⟩
  else .error "block size must be a positive integer"

/-- Copies the bytes of an image into blocks. -/
def addBlocks (file : BlockFile) (bytes : Bytes) (heap : Heap) (offset index : ℕ) :
    Heap × BlockFile :=
  if offset < bytes.length then
    let stop := min (offset + file.blockSize) bytes.length
    let (heap, block) := heap.alloc (subarray bytes offset stop)
    addBlocks { file with blocks := file.blocks.insert index block } bytes heap
      (offset + file.blockSize) (index + 1)
  else (heap, file)
termination_by bytes.length - offset
decreasing_by
  have hpositive := file.positive
  omega

/-- A file of the bytes of an array. -/
def fromBytes (heap : Heap) (source blockSize : ℕ) : Except String (Heap × BlockFile) := do
  let file ← create blockSize
  let bytes := heap.array source
  return { file with size := bytes.length }.addBlocks bytes heap 0 0

variable (file : BlockFile)

def requireRange (offset length : ℕ) : Except String Unit :=
  if offset + length ≤ maxSafeOffset then .ok () else .error "invalid file range"

/-- How much of a range of a block there is. -/
def available (heap : Heap) (index start want : ℕ) : ℕ :=
  match file.blocks[index]? with
  | none => 0
  | some block => min want ((heap.array block).length - start)

/-- Copies what a block has of a range into an array. -/
def copyBlock (heap : Heap) (destination done index start available : ℕ) : Heap :=
  match file.blocks[index]? with
  | none => heap
  | some block =>
    if 0 < available then
      heap.store destination done (subarray (heap.array block) start (start + available))
    else heap

lemma want_pos {limit done : ℕ} (absolute : ℕ) (h : done < limit) :
    0 < min (limit - done) (file.blockSize - absolute % file.blockSize) := by
  have hmod := Nat.mod_lt absolute file.positive
  omega

def readLoop (file : BlockFile) (heap : Heap) (destination offset limit done : ℕ) : Heap × ℕ :=
  if done < limit then
    let absolute := offset + done
    let index := absolute / file.blockSize
    let start := absolute % file.blockSize
    let want := min (limit - done) (file.blockSize - start)
    let available := file.available heap index start want
    let heap := file.copyBlock heap destination done index start available
    let heap :=
      if available < want then heap.store destination (done + available) (zeroes (want - available))
      else heap
    readLoop file heap destination offset limit (done + want)
  else (heap, done)
termination_by limit - done
decreasing_by
  have hwant := file.want_pos (offset + done) ‹_›
  omega

/-- Reads into an array, and says how much. -/
def read (heap : Heap) (destination offset : ℕ) : Except String (Heap × BlockFile × ℕ) := do
  let length := (heap.array destination).length
  requireRange offset length
  let (heap, done) := file.readLoop heap destination offset (min length (file.size - offset)) 0
  return (heap, { file with reads := file.reads + 1 }, done)

/-- A block of full size, which takes the place of a missing or a short one. -/
def ensureWritable (heap : Heap) (index : ℕ) : Heap × BlockFile × ℕ :=
  match file.blocks[index]? with
  | none =>
    let (heap, block) := heap.alloc (zeroes file.blockSize)
    (heap, { file with blocks := file.blocks.insert index block }, block)
  | some existing =>
    if (heap.array existing).length = file.blockSize then (heap, file, existing)
    else
      let (heap, block) := heap.alloc (zeroes file.blockSize)
      let heap := heap.store block 0 ((heap.array existing).take file.blockSize)
      (heap, { file with blocks := file.blocks.insert index block }, block)

def writeLoop (file : BlockFile) (heap : Heap) (source length offset done : ℕ) :
    Heap × BlockFile × ℕ :=
  if done < length then
    let absolute := offset + done
    let index := absolute / file.blockSize
    let start := absolute % file.blockSize
    let want := min (length - done) (file.blockSize - start)
    let writable := file.ensureWritable heap index
    let data := subarray (writable.1.array source) done (done + want)
    writeLoop writable.2.1 (writable.1.store writable.2.2 start data) source length offset
      (done + want)
  else (heap, file, done)
termination_by length - done
decreasing_by
  have hwant := file.want_pos (offset + done) ‹_›
  omega

/-- Writes an array, and says how much. -/
def write (heap : Heap) (source offset : ℕ) : Except String (Heap × BlockFile × ℕ) := do
  let length := (heap.array source).length
  requireRange offset length
  let (heap, file, done) := { file with writes := file.writes + 1 }.writeLoop heap source length offset 0
  return (heap, { file with size := max file.size (offset + length) }, done)

/-- Zeroes a block from an offset on. -/
def zeroRest (heap : Heap) (index start : ℕ) : Heap :=
  match file.blocks[index]? with
  | none => heap
  | some boundary =>
    if start < (heap.array boundary).length then
      heap.store boundary start (zeroes ((heap.array boundary).length - start))
    else heap

/-- Shrinks or grows the file. Blocks past a smaller size go, and the rest of the block it falls
into is zeroed. -/
def truncate (heap : Heap) (size : ℕ) : Except String (Heap × BlockFile) :=
  if maxSafeOffset < size then .error "invalid file size"
  else if size < file.size then
    let boundaryIndex := size / file.blockSize
    let boundaryOffset := size % file.blockSize
    let shrunk := { file with
      size := size
      blocks := file.blocks.filter fun index _ =>
        !(boundaryIndex < index || (boundaryOffset = 0 && index = boundaryIndex)) }
    let heap :=
      if boundaryOffset = 0 then heap else shrunk.zeroRest heap boundaryIndex boundaryOffset
    .ok (heap, shrunk)
  else .ok (heap, { file with size := size })

def toBytesLoop (file : BlockFile) (heap : Heap) (out offset : ℕ) : Heap :=
  if offset < file.size then
    let index := offset / file.blockSize
    let start := offset % file.blockSize
    let want := min (file.size - offset) (file.blockSize - start)
    let available := file.available heap index start want
    toBytesLoop file (file.copyBlock heap out offset index start available) out (offset + want)
  else heap
termination_by file.size - offset
decreasing_by
  have hwant := file.want_pos offset ‹_›
  omega

/-- The bytes of the file, in an array of their own. -/
def toBytes (heap : Heap) : Heap × ℕ :=
  let (heap, out) := heap.alloc (zeroes file.size)
  (file.toBytesLoop heap out 0, out)

/-- The byte the blocks hold at a position, zero where they hold none. -/
def byteAt (heap : Heap) (position : ℕ) : UInt8 :=
  match file.blocks[position / file.blockSize]? with
  | none => 0
  | some block => ((heap.array block)[position % file.blockSize]?).getD 0

end BlockFile

end Kwiry.Plugin
