import Mathlib.Data.List.AList
import Mathlib.Data.List.Infix
import Kwiry.Foundations.Programs
import Kwiry.Cache.Records

/-!
# The Local Cache Store

`LocalCacheStore` over the directory of one vault: `load` and `put` of complete generations and of
initial-build checkpoints, as programs of file-system calls. Whoever writes holds the writer lock;
a load reads without it and takes it to clear away what it found damaged.

A file's bytes are durable once the file is synced, a directory's entries once the directory is.
-/

namespace Kwiry.Cache

open Foundations Foundations.Program

/-! ## §1 Disks -/

inductive Directory where
  | vault
  | generations
  | quarantine
  | initialBuild
  | images
  | initialBuildQuarantine
  deriving DecidableEq

/-- The directories on the way to one, below the cache root. -/
def Directory.chain : Directory → List Directory
  | .vault => [.vault]
  | .generations => [.vault, .generations]
  | .quarantine => [.vault, .quarantine]
  | .initialBuild => [.vault, .initialBuild]
  | .images => [.vault, .initialBuild, .images]
  | .initialBuildQuarantine => [.vault, .initialBuild, .initialBuildQuarantine]

structure CachePath where
  directory : Directory
  entry : Text
  deriving DecidableEq

/-- What stands at a path. The bytes of a file that is not synced do not survive a crash. -/
inductive Node where
  | file (bytes : Bytes) (synced : Bool)
  | link
  | folder
  deriving DecidableEq

structure CacheFileStats where
  (isFile isSymbolicLink : Bool)
  size : ℕ

def Node.stats : Node → CacheFileStats
  | .file bytes _ => ⟨true, false, bytes.length⟩
  | .link => ⟨false, true, 0⟩
  | .folder => ⟨false, false, 0⟩

/-- The directory of a vault. A directory that is absent holds nothing; one that is foreign is not a
real directory of the store. The lock file stands apart, under the window it is of. -/
structure Disk where
  entries : AList fun _ : CachePath => Node
  durable : CachePath → Option Node
  foreign : Directory → Bool
  lockedBy : Option ℕ

namespace Disk

variable {other path : CachePath}

section

variable (s : Disk)

def get (path : CachePath) : Option Node :=
  s.entries.lookup path

def set (path : CachePath) (node : Node) : Disk :=
  { s with entries := s.entries.insert path node }

def remove (path : CachePath) : Disk :=
  { s with entries := s.entries.erase path }

def names (directory : Directory) : List Text :=
  (s.entries.keys.filter (·.directory = directory)).map (·.entry)

def removeAll (directory : Directory) : Disk :=
  (s.entries.keys.filter (·.directory = directory)).foldl remove s

def flush (directory : Directory) : Disk :=
  { s with durable := fun path => if path.directory = directory then s.get path else s.durable path }

@[simp] lemma get_set_self (path : CachePath) (node : Node) :
    (s.set path node).get path = some node :=
  AList.lookup_insert _

lemma get_set_ne (node : Node) (h : other ≠ path) : (s.set path node).get other = s.get other :=
  AList.lookup_insert_ne h

lemma get_remove_ne (h : other ≠ path) : (s.remove path).get other = s.get other :=
  AList.lookup_erase_ne h

end

/-- Removing paths one after the other leaves the others alone. -/
theorem foldl_remove (paths : List CachePath) (s : Disk) :
    (paths.foldl remove s).durable = s.durable ∧ (paths.foldl remove s).foreign = s.foreign ∧
      (paths.foldl remove s).lockedBy = s.lockedBy ∧
      ∀ other, other ∉ paths → (paths.foldl remove s).get other = s.get other := by
  induction paths generalizing s with
  | nil => exact ⟨rfl, rfl, rfl, fun _ _ => rfl⟩
  | cons path rest ih =>
    obtain ⟨hdurable, hforeign, hlocked, hget⟩ := ih (s.remove path)
    refine ⟨hdurable, hforeign, hlocked, fun other hother => ?_⟩
    rw [List.mem_cons, not_or] at hother
    exact (hget other hother.2).trans (s.get_remove_ne hother.1)

lemma get_removeAll_ne (s : Disk) {directory : Directory} (h : path.directory ≠ directory) :
    (s.removeAll directory).get path = s.get path := by
  apply (foldl_remove _ s).2.2.2
  intro hmem
  exact h (by simpa using (List.mem_filter.mp hmem).2)

end Disk

/-! ## §2 Calls -/

inductive IoError where
  | notFound
  | other
  deriving DecidableEq

/-- The calls of the store. `owned` stands for the walk that refuses a directory which is not a real
one, `write` for the writes to an open file and its `chmod`. -/
inductive FsCall where
  | owned (directory : Directory)
  | chmod (directory : Directory)
  | lstat (path : CachePath)
  | read (path : CachePath) (limit : ℕ)
  | openNew (path : CachePath)
  | write (path : CachePath) (bytes : Bytes)
  | syncFile (path : CachePath)
  | syncDirectory (directory : Directory)
  | rename (source target : CachePath)
  | unlink (path : CachePath)
  | removeTree (directory : Directory)
  | readdir (directory : Directory)
  | acquireLock
  | releaseLock

abbrev FsReply : FsCall → Type
  | .owned _ | .acquireLock => Bool
  | .lstat _ => Except IoError CacheFileStats
  | .read _ _ => Except IoError Bytes
  | .readdir _ => Except IoError (List Text)
  | .chmod _ | .openNew _ | .write _ _ | .syncFile _ | .syncDirectory _ | .rename _ _ | .unlink _
  | .removeTree _ | .releaseLock => Except IoError Unit

def Directory.isReal (s : Disk) (directory : Directory) : Bool :=
  directory.chain.all fun d => !s.foreign d

/-- One call of a window. A call with a fault fails and changes nothing, but a directory that is
synced is durable. -/
def Disk.exec (window : ℕ) (fault : Bool) (s : Disk) : (c : FsCall) → FsReply c × Disk
  | .owned directory => (!fault && directory.isReal s, s)
  | .chmod _ => (if fault then .error .other else .ok (), s)
  | .lstat path =>
    if fault then (.error .other, s)
    else match s.get path with
      | none => (.error .notFound, s)
      | some node => (.ok node.stats, s)
  | .read path limit =>
    match s.get path with
    | some (.file bytes _) => if fault then (.error .other, s) else (.ok (bytes.take limit), s)
    | some _ => (.error .other, s)
    | none => (.error .notFound, s)
  | .openNew path =>
    if fault ∨ (s.get path).isSome then (.error .other, s)
    else (.ok (), s.set path (.file [] false))
  | .write path bytes =>
    if fault then (.error .other, s) else (.ok (), s.set path (.file bytes false))
  | .syncFile path =>
    match s.get path with
    | some (.file bytes _) =>
      if fault then (.error .other, s) else (.ok (), s.set path (.file bytes true))
    | _ => (.error .other, s)
  | .syncDirectory directory => (.ok (), s.flush directory)
  | .rename source target =>
    match s.get source with
    | none => (.error .notFound, s)
    | some node =>
      -- a folder is not replaced
      if fault ∨ s.get target = some .folder then (.error .other, s)
      else (.ok (), (s.remove source).set target node)
  | .unlink path =>
    match s.get path with
    | none => (.error .notFound, s)
    | some node =>
      if fault ∨ node = .folder then (.error .other, s) else (.ok (), s.remove path)
  | .removeTree directory => if fault then (.error .other, s) else (.ok (), s.removeAll directory)
  | .readdir directory => (if fault then .error .other else .ok (s.names directory), s)
  | .acquireLock =>
    if fault ∨ s.lockedBy.isSome then (false, s) else (true, { s with lockedBy := some window })
  | .releaseLock => if fault then (.error .other, s) else (.ok (), { s with lockedBy := none })

/-- Calls that may fail at any time. -/
def Faulty (window : ℕ) : System FsCall FsReply Disk := fun c s reply s' =>
  ∃ fault, s.exec window fault c = (reply, s')

/-- What a crash leaves of a node. -/
def Node.Survives (node : Option Node) : Option Node → Prop
  | some (.file bytes _) => ∃ old synced, node = some (.file old synced) ∧ (synced → bytes = old)
  | rest => node = rest

/-- A disk that a crash may leave: at each path what stands there or what is durable. -/
structure Disk.Survives (s s' : Disk) : Prop where
  get : ∀ path, Node.Survives (s.get path) (s'.get path) ∨
    Node.Survives (s.durable path) (s'.get path)
  foreign : s'.foreign = s.foreign

/-! ## §3 Helpers of the store -/

/-- What a store's promise is rejected with. -/
inductive StoreFailure where
  | store (error : CacheStoreError)
  | io (error : IoError)
  | plain (message : Text)
  deriving DecidableEq

abbrev StoreProgram (A : Type) := Program FsCall FsReply StoreFailure A

def maxPointerBytes : ℕ := 8 * 1024
def maxRetainedGenerations : ℕ := 2
def tempMarker : Text := ".tmp-".toList

def unsafeCachePathError : StoreFailure :=
  .store (storeError .unsafePath "Cache path contains a symlink, junction, or non-directory component.")

def lstat (path : CachePath) : StoreProgram (Except IoError CacheFileStats) := ask (FsCall.lstat path)

def readUpTo (path : CachePath) (limit : ℕ) : StoreProgram (Except IoError Bytes) :=
  ask (FsCall.read path limit)

def readdir (directory : Directory) : StoreProgram (Except IoError (List Text)) :=
  ask (FsCall.readdir directory)

def syncEntries (directory : Directory) : StoreProgram (Except IoError Unit) :=
  ask (FsCall.syncDirectory directory)

/-- `assertOwnedDirectoryChain`, and `assertOwnedParent` of the paths in a directory. -/
def assertOwned (directory : Directory) : StoreProgram Unit := do
  if ← ask (.owned directory) then pure () else throw unsafeCachePathError

/-- The directories that are missing are made. -/
def ensureOwnedDirectory (directory : Directory) : StoreProgram Unit :=
  assertOwned directory

/-- An error of a call is thrown on. -/
def require {A : Type} : Except IoError A → StoreProgram A
  | .ok a => pure a
  | .error e => throw (.io e)

def applyDirectoryMode (deps : CacheDeps) (directory : Directory) : StoreProgram Unit :=
  orElse (do
    assertOwned directory
    require (← ask (.chmod directory)))
  fun _ =>
    if deps.windows then pure ()
    else throw (.store (storeError .writeFailed
      "Cache directory permissions could not be applied."))

def removeQuietly (path : CachePath) : StoreProgram Unit := do
  assertOwned path.directory
  let _ ← ask (.unlink path)

def removeTreeQuietly (directory : Directory) : StoreProgram Unit := do
  assertOwned directory
  let _ ← ask (.removeTree directory)

def writeFileDurably (path : CachePath) (bytes : Bytes) : StoreProgram Unit := do
  assertOwned path.directory
  require (← ask (.openNew path))
  require (← ask (.write path bytes))
  require (← ask (.syncFile path))

def syncDirectory (deps : CacheDeps) (directory : Directory) (optional : Bool) :
    StoreProgram Unit := do
  assertOwned directory
  match ← syncEntries directory with
  | .ok () => pure ()
  | .error e => if optional ∨ deps.windows then pure () else throw (.io e)

def readBoundedFile (deps : CacheDeps) (path : CachePath) (maximum : ℕ) : StoreProgram Text := do
  let bytes ← require (← readUpTo path (maximum + 1))
  if maximum < bytes.length then throw (.plain "bounded file exceeded its limit".toList)
  else
    match deps.json.decode bytes with
    | some raw => pure raw
    | none => throw (.plain "The encoded data was not valid.".toList)

/-! ## §4 The writer lock -/

def acquireLock : StoreProgram Unit := do
  if ← ask .acquireLock then pure ()
  else throw (.store (storeError .locked "Another writer holds the cache store."))

def releaseLock : StoreProgram Unit := do
  assertOwned .vault
  let _ ← ask .releaseLock

def withWriterLock {A : Type} (deps : CacheDeps) (operation : StoreProgram A) :
    StoreProgram A := do
  ensureOwnedDirectory .vault
  applyDirectoryMode deps .vault
  acquireLock
  operation.finish releaseLock

/-- Whether the operation ran: a lock held elsewhere is a normal outcome. -/
def tryWithWriterLock (operation : StoreProgram Unit) : StoreProgram Bool :=
  (do
    ensureOwnedDirectory .vault
    acquireLock : StoreProgram Unit).andThen fun
  | .error _ => pure false
  | .ok () => (do
      operation
      pure true : StoreProgram Bool).finish releaseLock

/-! ## §5 Paths and pointers -/

/-- The clock and the random suffix of one operation; the suffix is two numbers to base 36. -/
structure Operation where
  now : ℕ
  suffix : Text
  now_le : now ≤ maxSafeInteger
  suffix_plain : '.' ∉ suffix

def pointerPath : CachePath := ⟨.vault, "current.json".toList⟩

def initialBuildPointerPath : CachePath := ⟨.initialBuild, "checkpoint.json".toList⟩

def imagePathOf (generationId : Text) : CachePath := ⟨.generations, imageFileName generationId⟩

def checkpointImagePathOf (generationId sha256 : Text) : CachePath :=
  ⟨.images, initialBuildCheckpointImageFileName generationId sha256⟩

def tempOf (path : CachePath) (suffix : Text) : CachePath :=
  ⟨path.directory, path.entry ++ tempMarker ++ suffix⟩

def quarantinedPath (directory : Directory) (generationId : Text) (now : ℕ) (extension : Text) :
    CachePath :=
  ⟨directory, generationId ++ ['-'] ++ (toString now).toList ++ extension⟩

/-- A pointer file is a regular one of a bounded size. -/
def pointerFileRefused (stats : CacheFileStats) : Bool :=
  stats.isSymbolicLink || !stats.isFile || maxPointerBytes < stats.size

/-- A pointer that cannot be read is none. -/
def readQuietly {Pointer : Type} (deps : CacheDeps) (path : CachePath)
    (parse : Text → Option Pointer) : StoreProgram (Option Pointer) :=
  orElse (do
    let stats ← require (← lstat path)
    if pointerFileRefused stats then pure none
    else do
      let raw ← readBoundedFile deps path maxPointerBytes
      pure (parse raw))
  fun _ => pure none

def readPointerQuietly (deps : CacheDeps) : StoreProgram (Option CachePointer) :=
  readQuietly deps pointerPath (parsePointer deps)

def CheckpointPointerParse.pointer? : CheckpointPointerParse → Option CheckpointPointer
  | .valid pointer => some pointer
  | _ => none

def readInitialBuildCheckpointPointerQuietly (deps : CacheDeps) :
    StoreProgram (Option CheckpointPointer) :=
  readQuietly deps initialBuildPointerPath fun raw =>
    (parseInitialBuildCheckpointPointer deps raw).pointer?

/-! ## §6 Cleaning up -/

/-- Moves an image out of the way, or removes it. -/
def setAside (imagePath quarantined : CachePath) : StoreProgram Unit :=
  orElse (do
    removeTreeQuietly quarantined.directory
    ensureOwnedDirectory quarantined.directory
    assertOwned imagePath.directory
    assertOwned quarantined.directory
    require (← ask (.rename imagePath quarantined)))
  fun _ => removeQuietly imagePath

def quarantine (deps : CacheDeps) (now : ℕ) (imagePath : CachePath) (generationId : Text) :
    StoreProgram Unit := do
  let _ ← tryWithWriterLock do
    match ← readPointerQuietly deps with
    | some pointer =>
      if pointer.record.generationId ≠ generationId then pure () else clear
    | none => clear
where
  clear : StoreProgram Unit := do
    removeQuietly pointerPath
    setAside imagePath (quarantinedPath .quarantine generationId now cacheImageExtension)

/-- The pointer that a delayed cleanup saw. -/
def sameInitialBuildCheckpoint (pointer : CheckpointPointer) (generationId sha256 : Text) : Bool :=
  pointer.record.generationId = generationId ∧ pointer.record.sha256 = sha256

def quarantineInitialBuildCheckpoint (deps : CacheDeps) (now : ℕ) (imagePath : CachePath)
    (generationId sha256 : Text) : StoreProgram Unit := do
  let _ ← tryWithWriterLock do
    match ← readInitialBuildCheckpointPointerQuietly deps with
    | some pointer =>
      if sameInitialBuildCheckpoint pointer generationId sha256 then clear else pure ()
    | none => clear
where
  clear : StoreProgram Unit := do
    removeQuietly initialBuildPointerPath
    setAside imagePath (quarantinedPath .initialBuildQuarantine generationId now
      initialBuildCheckpointImageExtension)

/-- The pointer first, then the checkpoint's own directories. -/
def clearInitialBuild : StoreProgram Unit := do
  removeQuietly initialBuildPointerPath
  removeTreeQuietly .images
  removeTreeQuietly .initialBuildQuarantine

def discardInitialBuildCheckpointIfCurrentQuietly (deps : CacheDeps) (generationId sha256 : Text) :
    StoreProgram Unit := do
  let _ ← tryWithWriterLock do
    match ← readInitialBuildCheckpointPointerQuietly deps with
    | some pointer =>
      if sameInitialBuildCheckpoint pointer generationId sha256 then clearInitialBuild else pure ()
    | none => pure ()

/-- Whether the pointer is still the invalid one that was seen. -/
def stillInvalid (deps : CacheDeps) (observedRaw : Option Text) : StoreProgram Bool :=
  (do
    let stats ← require (← lstat initialBuildPointerPath)
    if pointerFileRefused stats then pure true
    else do
      let currentRaw ← readBoundedFile deps initialBuildPointerPath maxPointerBytes
      if observedRaw.isSome ∧ observedRaw ≠ some currentRaw then pure false
      else match parseInitialBuildCheckpointPointer deps currentRaw with
        | .valid _ => pure false
        | _ => pure true : StoreProgram Bool).orElse fun error =>
  if error = .io .notFound then pure false else pure true

def discardInvalidInitialBuildCheckpointQuietly (deps : CacheDeps) (observedRaw : Option Text) :
    StoreProgram Unit := do
  let _ ← tryWithWriterLock do
    if ← stillInvalid deps observedRaw then clearInitialBuild else pure ()

/-! ## §7 Loading -/

inductive CacheMissReason where
  | absent
  | pointerUnreadable
  | pointerCorrupt
  | pointerIncompatible
  | identityMismatch
  | imageAbsent
  | imageUnreadable
  | imageLengthMismatch

/-- A hit carries the record and the bytes; their digest is not verified. -/
inductive Load (Record : Type) where
  | hit (record : Record) (bytes : Bytes)
  | miss (reason : CacheMissReason)

/-- What a load makes of an image: its bytes, or a cleanup and a miss. -/
def readImage {Record : Type} (imagePath : CachePath) (byteLength : ℕ) (record : Record)
    (absent damaged : StoreProgram Unit) : StoreProgram (Load Record) := do
  assertOwned imagePath.directory
  match ← lstat imagePath with
  | .error .notFound => do
    absent
    pure (.miss .imageAbsent)
  | .error e => throw (.io e)
  | .ok stats =>
    if stats.isSymbolicLink ∨ !stats.isFile then do
      damaged
      pure (.miss .imageUnreadable)
    else if stats.size ≠ byteLength then do
      damaged
      pure (.miss .imageLengthMismatch)
    else
      match ← readUpTo imagePath byteLength with
      | .error _ => do
        damaged
        pure (.miss .imageUnreadable)
      | .ok bytes =>
        if bytes.length ≠ byteLength then do
          damaged
          pure (.miss .imageUnreadable)
        else pure (.hit record bytes)

/-- The record of another vault is left alone. -/
def PointerBody.isForeign (body : PointerBody) (deps : CacheDeps) : Bool :=
  body.vaultIdentity ≠ deps.vaultCacheIdentity ∨
    cacheIdentityOf body.record.identity ≠ some deps.vaultCacheIdentity

def attemptRead (deps : CacheDeps) (path : CachePath) : StoreProgram (Option Text) :=
  (readBoundedFile deps path maxPointerBytes).andThen fun
    | .ok raw => pure (some raw)
    | .error _ => pure none

def loadPointed (deps : CacheDeps) (now : ℕ) (raw : Text) : StoreProgram (Load CacheRecord) :=
  match parsePointer deps raw with
  | none => do
    removeQuietly pointerPath
    pure (.miss .pointerCorrupt)
  | some pointer =>
    if pointer.isForeign deps then pure (.miss .identityMismatch)
    else
      let imagePath := imagePathOf pointer.record.generationId
      readImage imagePath pointer.record.byteLength pointer.record (pure ())
        (quarantine deps now imagePath pointer.record.generationId)

def loadLocked (deps : CacheDeps) (now : ℕ) : StoreProgram (Load CacheRecord) := do
  assertOwned pointerPath.directory
  match ← lstat pointerPath with
  | .error .notFound => pure (.miss .absent)
  | .error e => throw (.io e)
  | .ok stats =>
    if pointerFileRefused stats then do
      removeQuietly pointerPath
      pure (.miss .pointerCorrupt)
    else
      match ← attemptRead deps pointerPath with
      | none => pure (.miss .pointerUnreadable)
      | some raw => loadPointed deps now raw

def loadCheckpointPointed (deps : CacheDeps) (now : ℕ) (raw : Text) :
    StoreProgram (Load CheckpointRecord) :=
  match parseInitialBuildCheckpointPointer deps raw with
  | .incompatible => do
    discardInvalidInitialBuildCheckpointQuietly deps (some raw)
    pure (.miss .pointerIncompatible)
  | .corrupt => do
    discardInvalidInitialBuildCheckpointQuietly deps (some raw)
    pure (.miss .pointerCorrupt)
  | .valid pointer =>
    if pointer.isForeign deps then pure (.miss .identityMismatch)
    else
      let generationId := pointer.record.generationId
      let sha256 := pointer.record.sha256
      let imagePath := checkpointImagePathOf generationId sha256
      readImage imagePath pointer.record.byteLength pointer.checkpoint
        (discardInitialBuildCheckpointIfCurrentQuietly deps generationId sha256)
        (quarantineInitialBuildCheckpoint deps now imagePath generationId sha256)

def loadInitialBuildCheckpointLocked (deps : CacheDeps) (now : ℕ) :
    StoreProgram (Load CheckpointRecord) := do
  assertOwned initialBuildPointerPath.directory
  match ← lstat initialBuildPointerPath with
  | .error .notFound => pure (.miss .absent)
  | .error e => throw (.io e)
  | .ok stats =>
    if pointerFileRefused stats then do
      discardInvalidInitialBuildCheckpointQuietly deps none
      pure (.miss .pointerCorrupt)
    else
      match ← attemptRead deps initialBuildPointerPath with
      | none => pure (.miss .pointerUnreadable)
      | some raw =>
        if initialBuildCheckpointPointerNamesForeignVault deps raw then
          pure (.miss .identityMismatch)
        else loadCheckpointPointed deps now raw

/-! ## §8 Storing -/

/-- Removes the paths one after the other. -/
def removeEach : List CachePath → StoreProgram Unit
  | [] => pure ()
  | path :: rest => do
    removeQuietly path
    removeEach rest

/-- What is stored in one step: an image, and the pointer that names it. -/
structure Commit where
  (imagePath pointerPath : CachePath)
  (bytes encoded : Bytes)
  (oversized failed : CacheStoreError)

/-- The image is durable under its name before the pointer is written. -/
def writeCommit (deps : CacheDeps) (suffix : Text) (commit : Commit) : StoreProgram Unit := do
  writeFileDurably (tempOf commit.imagePath suffix) commit.bytes
  assertOwned commit.imagePath.directory
  assertOwned commit.imagePath.directory
  require (← ask (.rename (tempOf commit.imagePath suffix) commit.imagePath))
  syncDirectory deps commit.imagePath.directory false
  if maxPointerBytes < commit.encoded.length then throw (.store commit.oversized)
  else do
    writeFileDurably (tempOf commit.pointerPath suffix) commit.encoded
    assertOwned commit.pointerPath.directory
    assertOwned commit.pointerPath.directory
    require (← ask (.rename (tempOf commit.pointerPath suffix) commit.pointerPath))
    syncDirectory deps commit.pointerPath.directory true

/-- A commit that fails leaves no file under a temporary name. -/
def commitImage (deps : CacheDeps) (suffix : Text) (commit : Commit) : StoreProgram Unit :=
  (writeCommit deps suffix commit).orElse fun error => do
    removeQuietly (tempOf commit.imagePath suffix)
    removeQuietly (tempOf commit.pointerPath suffix)
    match error with
    | .store _ => throw error
    | _ => throw (.store commit.failed)

/-- The names that retention keeps: the new image and, at most, the one before it. -/
def retainedImages (generationId : Text) (pointer : Option CachePointer) : List Text :=
  let lineage := imageFileName generationId ::
    (match pointer.bind (·.previousGenerationId) with
      | some previous => [imageFileName previous]
      | none => [])
  lineage.take maxRetainedGenerations

section

variable (deps : CacheDeps)

def pruneQuietly (currentGenerationId : Text) : StoreProgram Unit :=
  orElse (do
    let pointer ← readPointerQuietly deps
    let retained := retainedImages currentGenerationId pointer
    let images ← require (← readdir .generations)
    removeEach ((images.filter (· ∉ retained)).map (⟨.generations, ·⟩))
    let rest ← require (← readdir .vault)
    removeEach ((rest.filter (tempMarker <:+: ·)).map (⟨.vault, ·⟩)))
  fun _ => pure ()

def cachePointer (now : ℕ) (write : CacheWrite) (previous : Option CachePointer) :
    CachePointer where
  vaultIdentity := deps.vaultCacheIdentity
  record := write.toCacheRecord
  writtenAtMs := now
  previousGenerationId := (previous.map (·.record.generationId)).filter (· ≠ write.generationId)

def cacheCommit (now : ℕ) (write : CacheWrite) (previous : Option CachePointer) : Commit where
  imagePath := imagePathOf write.generationId
  pointerPath
  bytes := write.bytes
  encoded := deps.json.stringify (cachePointer deps now write previous).toJson
  oversized := storeError .invalidIdentity "Cache pointer exceeded its bound."
  failed := storeError .writeFailed "Cache image could not be written."

def putLocked (op : Operation) (write : CacheWrite) : StoreProgram CacheRecord :=
  withWriterLock deps do
    let previous ← readPointerQuietly deps
    ensureOwnedDirectory .generations
    applyDirectoryMode deps .generations
    removeTreeQuietly .quarantine
    commitImage deps op.suffix (cacheCommit deps op.now write previous)
    pruneQuietly deps write.generationId
    pure write.toCacheRecord

def pruneInitialBuildCheckpointsQuietly (currentGenerationId : Text) : StoreProgram Unit :=
  orElse (do
    match ← readInitialBuildCheckpointPointerQuietly deps with
    | none => pure ()
    | some pointer =>
      if pointer.record.generationId ≠ currentGenerationId then pure ()
      else do
        let retained := initialBuildCheckpointImageFileName pointer.record.generationId
          pointer.record.sha256
        let images ← require (← readdir .images)
        removeEach ((images.filter (· ≠ retained)).map (⟨.images, ·⟩))
        let rest ← require (← readdir .initialBuild)
        removeEach ((rest.filter (tempMarker <:+: ·)).map (⟨.initialBuild, ·⟩)))
  fun _ => pure ()

def checkpointPointer (now : ℕ) (write : CheckpointWrite) : CheckpointPointer where
  vaultIdentity := deps.vaultCacheIdentity
  record := write.toCacheRecord
  writtenAtMs := now
  cursor := write.cursor

def checkpointCommit (now : ℕ) (write : CheckpointWrite) : Commit where
  imagePath := checkpointImagePathOf write.generationId write.sha256
  pointerPath := initialBuildPointerPath
  bytes := write.bytes
  encoded := deps.json.stringify (checkpointPointer deps now write).toJson
  oversized := storeError .invalidBlob "Checkpoint pointer exceeded its bound."
  failed := storeError .writeFailed "Checkpoint image could not be written."

def putInitialBuildCheckpointLocked (op : Operation) (write : CheckpointWrite) :
    StoreProgram CheckpointRecord :=
  withWriterLock deps do
    ensureOwnedDirectory .images
    applyDirectoryMode deps .initialBuild
    applyDirectoryMode deps .images
    removeTreeQuietly .initialBuildQuarantine
    commitImage deps op.suffix (checkpointCommit deps op.now write)
    pruneInitialBuildCheckpointsQuietly deps write.generationId
    pure write.toCheckpointRecord

end

end Kwiry.Cache
