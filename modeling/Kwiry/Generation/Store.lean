import Kwiry.Foundations.Decimal
import Kwiry.Foundations.Interrupt
import Kwiry.Runtime.OpenClast
import Mathlib.Data.Char
import Mathlib.Data.List.Lex
import Mathlib.Data.Prod.Lex

/-!
# The Generation Store

`generation.rs`: generations are directories under one root, and the file `current.json` names
the active one. A publication moves a staged directory into place, replaces the pointer and
prunes; preparing a root removes what a crash left behind and settles the pointer.

Each operation is the list of its file-system steps. Renames and pointer replacements are
atomic; the removal of a directory can be torn, and then anything may be left in it. The
order in which a directory is listed is the host's, so it is a parameter.
-/

namespace Kwiry

open Foundations

/-! ## §1 Generation names -/

def generationPrefix : Text := ['g', '-']

def isGenerationId (id : Text) : Bool :=
  generationPrefix.isPrefixOf id && !id.any (fun c => c = '/' || c = '\\') &&
    id ≠ generationPrefix && utf8Len id ≤ 128

/-- Nanoseconds, sequence number and the name itself. A name without numbers counts as zero. -/
def generationOrder (id : Text) : ℕ ×ₗ ℕ ×ₗ Text :=
  let components :=
    (if generationPrefix.isPrefixOf id then id.drop generationPrefix.length else []).splitOn '-'
  let nanos := (components[0]?.bind (parseUnsigned (2 ^ 128))).getD 0
  let sequence := (components[2]?.bind (parseUnsigned (2 ^ 64))).getD 0
  toLex (nanos, toLex (sequence, id))

lemma generationOrder_inj {a b : Text} (h : generationOrder a = generationOrder b) : a = b := by
  have h := toLex.injective h
  exact (Prod.mk.inj (toLex.injective (Prod.mk.inj h).2)).2

/-! ## §2 Directories -/

/-- An index directory: whether it has a `meta.json`, and what the index library reports on opening
it. -/
structure IndexDir where
  hasMeta : Bool
  openError : Option String

/-- What a generation directory holds. A JSON file is what reading it yields. -/
structure GenerationDir where
  manifestJson : Except Error Manifest
  index : IndexDir
  layoutJson : Option (Except Error GenerationLayout)
  partitions : Digest → IndexDir

inductive Entry where
  | file
  | emptyDir
  | dir (contents : GenerationDir)

structure CurrentGeneration where
  (layoutVersion indexFormatVersion : ℕ)
  generation : Text

structure DataRoot where
  path : Text
  /-- `current.json`, if there is one, as reading it yields. -/
  current : Option (Except Error CurrentGeneration)
  generations : Std.ExtTreeMap Text Entry

/-- A generation id and the directory it is looked for in. -/
structure GenerationPaths where
  (id root : Text)
  deriving DecidableEq

def layoutVersion : ℕ := 2

variable (B : Build)

def Manifest.load (json : Except Error Manifest) : Except Error Manifest := do
  let manifest ← json.mapError fun error =>
    match error with
    | .state message => .state (message ++ rebuildRemedy)
    | other => other
  manifest.validateReadable
  return manifest

def GenerationLayout.load (json : Except Error GenerationLayout) :
    Except Error GenerationLayout := do
  let layout ← json
  layout.validate B
  return layout

def DataRoot.display (data : DataRoot) (name : Text) : String :=
  String.ofList (data.path ++ "/generations/".toList ++ name)

/-- Opens an index directory to see whether it can be opened. -/
def validateIndexDir (path : String) (index : IndexDir) : Except Error Unit :=
  match index.openError with
  | some error => .error (.state ("generation index is invalid at " ++ path ++ ": " ++ error))
  | none => .ok ()

/-- A row of a partitioned generation names its resource. -/
def validatePartitionedRow (file : ManifestFile) : Except Error Unit :=
  match file.resource with
  | none => .error (.state ("OpenClast manifest entry is missing its resource: " ++
      file.path.toString))
  | some resource =>
    if resource.vaultId ≠ file.vaultId then
      .error (.state ("OpenClast manifest entry does not match its vault: " ++
        file.path.toString))
    else
      .ok ()

/-- A partition of a generation is there and opens. -/
def validateGenerationPartition (root : String) (contents : GenerationDir)
    (partition : PartitionLayout) : Except Error Unit :=
  let index := contents.partitions partition.partitionId
  let path := root ++ "/partitions/" ++ hexDigest partition.partitionId ++ "/index"
  if !index.hasMeta then
    .error (.state ("generation partition is incomplete: " ++ path ++ "/meta.json"))
  else
    validateIndexDir path index

/-- The contents of a generation directory: one profile, whole. -/
def GenerationDir.validate (root : String) (contents : GenerationDir) : Except Error Unit := do
  let manifest ← Manifest.load contents.manifestJson
  match contents.index.hasMeta, contents.layoutJson with
  | true, none =>
    validateIndexDir (root ++ "/index") contents.index
    if manifest.rows.any fun file => file.resource.isSome then
      throw (.state ("desktop generation contains resource-scoped manifest entries: " ++ root))
  | false, some json =>
    let layout ← GenerationLayout.load B json
    layout.partitions.forM (validateGenerationPartition root contents)
    manifest.rows.forM validatePartitionedRow
  | _, _ =>
    throw (.state ("generation is incomplete or has ambiguous profile state: " ++ root))

def missingFile (root : String) : Error := .io (root ++ "/manifest.json")

/-- `GenerationPaths::validate`. -/
def GenerationPaths.validate (data : DataRoot) (paths : GenerationPaths) : Except Error Unit :=
  let root := data.display paths.root
  let missing : Error := .state ("generation is missing or invalid: " ++ root)
  if !isGenerationId paths.id then
    .error missing
  else
    match data.generations[paths.root]? with
    | none | some .file => .error missing
    | some .emptyDir => .error (missingFile root)
    | some (.dir contents) => contents.validate B root

/-! ## §3 Reading the store -/

def CurrentGeneration.hasSupportedVersions (current : CurrentGeneration) : Bool :=
  current.layoutVersion = Kwiry.layoutVersion &&
    current.indexFormatVersion = Kwiry.indexFormatVersion

def CurrentGeneration.validate (current : CurrentGeneration) : Except Error Unit :=
  if !current.hasSupportedVersions then
    .error (.state ("unsupported data layout: found layout=" ++ toString current.layoutVersion ++
      ", index=" ++ toString current.indexFormatVersion ++ "; expected layout=" ++
      toString Kwiry.layoutVersion ++ ", index=" ++ toString Kwiry.indexFormatVersion ++
      rebuildRemedy))
  else if !isGenerationId current.generation then
    .error (.state "invalid generation ID in current pointer")
  else
    .ok ()

/-- `CurrentState`. -/
inductive CurrentState where
  | valid (active : Text)
  | incompatible
  | missingOrInvalid
  deriving DecidableEq

namespace DataRoot

def readCurrent (data : DataRoot) : CurrentState :=
  match data.current with
  | none | some (.error _) => .missingOrInvalid
  | some (.ok current) =>
    if !current.hasSupportedVersions then .incompatible
    else if !current.validate.isOk then .missingOrInvalid
    else if !(GenerationPaths.validate B data ⟨current.generation, current.generation⟩).isOk then
      .missingOrInvalid
    else .valid current.generation

/-- Whether a name is that of a generation that validates. -/
def holdsValid (data : DataRoot) (id : Text) : Bool :=
  isGenerationId id && (GenerationPaths.validate B data ⟨id, id⟩).isOk

/-- The valid generations, newest first. -/
def validGenerations (data : DataRoot) : List Text :=
  (data.generations.keys.filter (data.holdsValid B)).mergeSort fun left right =>
    generationOrder right ≤ generationOrder left

end DataRoot

/-! ## §4 The operations as steps -/

inductive StoreStep where
  | rename (candidate : GenerationPaths)
  | writeCurrent (id : Text)
  | removeCurrent
  | removeEntry (name : Text)
  deriving DecidableEq

def StoreStep.apply : StoreStep → DataRoot → DataRoot
  | .rename candidate, data =>
    match data.generations[candidate.root]? with
    | none => data
    | some entry =>
      { data with
        generations := (data.generations.erase candidate.root).insert candidate.id entry }
  | .writeCurrent id, data =>
    { data with current := some (.ok ⟨layoutVersion, indexFormatVersion, id⟩) }
  | .removeCurrent, data => { data with current := none }
  | .removeEntry name, data => { data with generations := data.generations.erase name }

/-- A torn removal leaves a directory with anything in it. -/
def StoreStep.Torn : StoreStep → DataRoot → DataRoot → Prop
  | .removeEntry name, data, data' => ∃ leftover, leftover ≠ Entry.file ∧
      data' = { data with generations := data.generations.insert name leftover }
  | _, _, _ => False

def retainedGenerations : ℕ := 3

/-- The active generation and the newest valid ones before it. -/
def retained (data : DataRoot) (active : Text) : List Text :=
  active :: ((data.validGenerations B).filter fun id =>
    id ≠ active && generationOrder id < generationOrder active).take (retainedGenerations - 1)

/-- `prune_generations`, over a listing of the directory. -/
def pruneSteps (data : DataRoot) (active : Text) (listing : List Text) : List StoreStep :=
  (listing.filter fun name => isGenerationId name && name ∉ retained B data active).map .removeEntry

def stagingPrefix : Text := ".staging-".toList

/-- `remove_abandoned_staging`. -/
def stagingSteps (listing : List Text) : List StoreStep :=
  (listing.filter stagingPrefix.isPrefixOf).map .removeEntry

/-- A candidate: its id and the directory it is staged in. -/
def stagedCandidate (id : Text) : GenerationPaths := ⟨id, stagingPrefix ++ id⟩

/-- Whether a directory can be renamed to a name: it is free, or an empty directory. -/
def DataRoot.renameTarget (data : DataRoot) (name : Text) : Bool :=
  match data.generations[name]? with
  | none | some .emptyDir => true
  | _ => false

/-- The root a publication prunes. -/
def publishedRoot (data : DataRoot) (id : Text) : DataRoot :=
  runSteps StoreStep.apply [.rename (stagedCandidate id), .writeCurrent id] data

/-- `publish_inner`. -/
def publishSteps (data : DataRoot) (id : Text) (listing : List Text) :
    Except Error (List StoreStep) := do
  (stagedCandidate id).validate B data
  if !data.renameTarget id then
    throw (.io (data.display id))
  return [.rename (stagedCandidate id), .writeCurrent id] ++
    pruneSteps B (publishedRoot data id) id listing

/-- The last part of `prepare_locked`: settle the pointer and prune. -/
def settleSteps (data : DataRoot) (listing : List Text) : List StoreStep :=
  match data.readCurrent B with
  | .valid active => pruneSteps B data active listing
  -- a pointer of another format is left for its own remedy
  | .incompatible => []
  | .missingOrInvalid =>
    match (data.validGenerations B).head? with
    | some active =>
      .writeCurrent active ::
        pruneSteps B ((StoreStep.writeCurrent active).apply data) active listing
    | none => if data.current.isSome then [.removeCurrent] else []

/-- The root once abandoned staging directories are gone. -/
def cleanedRoot (data : DataRoot) (staging : List Text) : DataRoot :=
  runSteps StoreStep.apply (stagingSteps staging) data

/-- `prepare_locked`, over the listings of its two reads of the directory. -/
def prepareSteps (data : DataRoot) (staging listing : List Text) : List StoreStep :=
  stagingSteps staging ++ settleSteps B (cleanedRoot data staging) listing

/-! ## §5 Runs -/

/-- A data root with what a reader of its history knows: the pointer it started with, the generation
that was active when the last operation completed, and the generations whose publication was
interrupted since. -/
structure StoreState where
  root : DataRoot
  initial : Option (Except Error CurrentGeneration)
  active : Option Text
  pending : List Text

def StoreState.candidates (s : StoreState) : List Text := s.active.toList ++ s.pending

/-- The generation the pointer names, if it validates. -/
def DataRoot.activeId (data : DataRoot) : Option Text :=
  match data.readCurrent B with
  | .valid id => some id
  | _ => none

/-- A prepared root, over the listings the host gave. -/
structure Prepares (data : DataRoot) (steps : List StoreStep) where
  (staging listing : List Text)
  staging_perm : staging.Perm data.generations.keys
  listing_perm : listing.Perm (cleanedRoot data staging).generations.keys
  steps_eq : steps = prepareSteps B data staging listing

structure Publishes (data : DataRoot) (id : Text) (steps : List StoreStep) where
  listing : List Text
  listing_perm : listing.Perm (publishedRoot data id).generations.keys
  steps_eq : publishSteps B data id listing = .ok steps

/-- Everything that can happen to a prepared root. -/
inductive StoreRun : StoreState → Prop where
  | start {data root : DataRoot} {steps : List StoreStep} (hprepare : Prepares B data steps)
      (hroot : root = runSteps StoreStep.apply steps data) :
      StoreRun ⟨root, root.current, root.activeId B, []⟩
  /-- Candidates are staged, filled and dropped. -/
  | staged {s : StoreState} {generations : Std.ExtTreeMap Text Entry} (hrun : StoreRun s)
      (hsame : ∀ name, stagingPrefix.isPrefixOf name = false →
        generations[name]? = s.root.generations[name]?) :
      StoreRun { s with root := { s.root with generations := generations } }
  | published {s : StoreState} {id : Text} {steps : List StoreStep} (hrun : StoreRun s)
      (hpublish : Publishes B s.root id steps) :
      StoreRun { s with
        root := runSteps StoreStep.apply steps s.root, active := some id, pending := [] }
  | publishCut {s : StoreState} {id : Text} {steps : List StoreStep} {root : DataRoot}
      (hrun : StoreRun s) (hpublish : Publishes B s.root id steps)
      (hcut : Cut StoreStep.apply StoreStep.Torn steps s.root root) :
      StoreRun { s with root := root, pending := id :: s.pending }
  | prepared {s : StoreState} {steps : List StoreStep} {root : DataRoot} (hrun : StoreRun s)
      (hprepare : Prepares B s.root steps) (hroot : root = runSteps StoreStep.apply steps s.root) :
      StoreRun { s with root := root, active := root.activeId B, pending := [] }
  | prepareCut {s : StoreState} {steps : List StoreStep} {root : DataRoot} (hrun : StoreRun s)
      (hprepare : Prepares B s.root steps)
      (hcut : Cut StoreStep.apply StoreStep.Torn steps s.root root) :
      StoreRun { s with root := root }

end Kwiry
