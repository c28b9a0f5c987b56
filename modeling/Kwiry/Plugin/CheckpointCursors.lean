import Kwiry.Foundations.Traces
import Kwiry.Plugin.ReconciliationPlan
import Kwiry.Plugin.VaultSources

/-!
# Checkpoint Cursors of an Initial Build

An initial build sends the files of a snapshot in batches. What the Worker has acknowledged is kept
by the place of the file in the snapshot, and a cursor says how long the acknowledged beginning is.
A later build resumes from the last path of a cursor, in a snapshot of its own.
-/

namespace Kwiry.Plugin.Checkpoints

open Foundations
open Cache (Json cursorKeys hasKeys safeIntegerOf stringOf key)

/-! ## §1 Cursors -/

structure InitialBuildCheckpointCursor where
  (snapshotSourceCount acknowledgedAddBatches acknowledgedPrefixSources : ℕ)
  lastAcknowledgedPath : Option Text

/-- The record that is stored and sent. -/
def InitialBuildCheckpointCursor.toJson (cursor : InitialBuildCheckpointCursor) : Json :=
  .object [(key "snapshot_source_count", .natural cursor.snapshotSourceCount),
    (key "acknowledged_add_batches", .natural cursor.acknowledgedAddBatches),
    (key "acknowledged_prefix_sources", .natural cursor.acknowledgedPrefixSources),
    (key "last_acknowledged_path", (cursor.lastAcknowledgedPath.map Json.string).getD .null)]

/-- The last path as the protocol has it. -/
def isLastPath (batches sources : ℕ) (path : Option Json) : Bool :=
  if sources = 0 then
    match path with
    | some .null => true
    | _ => false
  else 0 < batches ∧ ((stringOf path).map Vault.isNormalizedVaultRelativePath).getD false

/-- The validator of the protocol, beside the one of the store. -/
def isInitialBuildCheckpointCursor : Json → Bool
  | .object fields =>
    hasKeys cursorKeys fields &&
      match safeIntegerOf (fields.lookup (key "snapshot_source_count")),
        safeIntegerOf (fields.lookup (key "acknowledged_add_batches")),
        safeIntegerOf (fields.lookup (key "acknowledged_prefix_sources")) with
      | some count, some batches, some sources =>
        count ≤ Cache.maxReconciliationSources ∧ batches ≤ count ∧ sources ≤ count ∧
          isLastPath batches sources (fields.lookup (key "last_acknowledged_path"))
      | _, _, _ => false
  | _ => false

/-! ## §2 Progress -/

/-- The paths of a snapshot: normalized, strictly increasing, and not too many. -/
structure ValidSnapshot (entries : List Text) : Prop where
  length : entries.length ≤ Cache.maxReconciliationSources
  normalized : ∀ path ∈ entries, Cache.isNormalizedVaultFilePath path = true
  increasing : entries.Pairwise (comparePaths · · = .lt)

structure InitialBuildProgress where
  entries : List Text
  represented : List Bool
  (acknowledgedAddBatches acknowledgedPrefixSources : ℕ)
  lastAcknowledgedPath : Option Text

/-- The last path of a beginning of a snapshot. -/
def lastPath (entries : List Text) (covered : ℕ) : Option Text :=
  if 0 < covered then entries[covered - 1]? else none

namespace InitialBuildProgress

def fresh (entries : List Text) : InitialBuildProgress :=
  ⟨entries, entries.map fun _ => false, 0, 0, none⟩

/-- The beginning grows over the places that are represented. -/
def advanceAcknowledgedPrefix (progress : InitialBuildProgress) : InitialBuildProgress :=
  let from_ := progress.acknowledgedPrefixSources
  let covered := from_ + ((progress.represented.drop from_).takeWhile id).length
  { progress with
    acknowledgedPrefixSources := covered
    lastAcknowledgedPath := lastPath progress.entries covered }

/-- A batch is acknowledged, given by the places of its files. -/
def acknowledge (ordinals : List ℕ) (progress : InitialBuildProgress) : InitialBuildProgress :=
  { progress with
    represented := ordinals.foldl (fun represented ordinal => represented.set ordinal true)
      progress.represented
    acknowledgedAddBatches := progress.acknowledgedAddBatches + 1 }.advanceAcknowledgedPrefix

end InitialBuildProgress

namespace InitialBuildCheckpointCursor

variable (cursor : InitialBuildCheckpointCursor)

/-- How many files of another snapshot are not after the last path. -/
def representedPrefix (entries : List Text) : ℕ :=
  (entries.findIdx? fun path =>
    cursor.lastAcknowledgedPath.any fun last => comparePaths path last = .gt).getD entries.length

/-- The files that are reconciled when a build resumes. -/
def covers (entries : List Text) : List Text :=
  match cursor.lastAcknowledgedPath with
  | none => []
  | some last => entries.filter fun path => comparePaths path last ≠ .gt

/-- A saved count of batches is of the old snapshot; it is bounded by the new beginning. -/
def rebase (entries : List Text) : InitialBuildProgress where
  entries := entries
  represented := (List.range entries.length).map (· < cursor.representedPrefix entries)
  acknowledgedAddBatches := min cursor.acknowledgedAddBatches (cursor.representedPrefix entries)
  acknowledgedPrefixSources := cursor.representedPrefix entries
  lastAcknowledgedPath := lastPath entries (cursor.representedPrefix entries)

end InitialBuildCheckpointCursor

/-! ## §3 Sending a snapshot -/

structure Limits where
  (maxBatchSources maxBatchBytes : ℕ)

/-- A file with its place in the snapshot. -/
abbrev Indexed := Text × ℕ

/-- What reading a file comes to: `touched` when an event has overtaken it. -/
inductive Outcome where
  | unreadable | touched | stale | missing
  | upsert (bytes : ℕ)

/-- `addSnapshotSources`: the files still to be read, the batch, and the batch that awaits the
Worker, with what joins the next one afterwards. -/
structure Adding where
  (remaining batch : List Indexed)
  batchBytes : ℕ
  flushing : Option (Option (Indexed × ℕ))

namespace Adding

variable (limits : Limits)

def start (entries : List Indexed) : Adding := ⟨entries, [], 0, none⟩

/-- `flush` up to its await; an empty batch is not sent. -/
def flush (next : Option (Indexed × ℕ)) (adding : Adding) : Adding :=
  { adding with flushing := some next }

/-- A batch that is full is sent at once. -/
def flushFull (adding : Adding) : Adding :=
  if limits.maxBatchSources ≤ adding.batch.length ∧ adding.batch ≠ [] then adding.flush none
  else adding

def push (entry : Indexed) (bytes : ℕ) (adding : Adding) : Adding :=
  { adding with
    batch := adding.batch ++ [entry]
    batchBytes := adding.batchBytes + bytes }.flushFull limits

/-- The next file has been read; none where the build throws. -/
def read (outcome : Outcome) (adding : Adding) : Option Adding :=
  match adding.remaining with
  | [] => none
  | entry :: rest =>
    let read := { adding with remaining := rest }
    match outcome with
    | .unreadable => some read
    | .touched | .stale | .missing => some (read.flushFull limits)
    | .upsert bytes =>
      if limits.maxBatchBytes < bytes then none
      else if (limits.maxBatchSources ≤ adding.batch.length ∨
          limits.maxBatchBytes < adding.batchBytes + bytes) ∧ adding.batch ≠ [] then
        some (read.flush (some (entry, bytes)))
      else some (read.push limits entry bytes)

/-- The Worker has acknowledged the batch. -/
def flushed (next : Option (Indexed × ℕ)) (adding : Adding) : Adding :=
  let emptied := { adding with batch := [], batchBytes := 0, flushing := none }
  match next with
  | none => emptied
  | some (entry, bytes) => emptied.push limits entry bytes

end Adding

/-! ## §4 Bringing a resumed build up to date -/

/-- What verifying a path comes to: a read has the hash of its bytes where it is of a source, and
may be sent or not. -/
inductive Probe where
  | unreadable | missing
  | read (hash : Option Text) (sendable : Bool)

/-- `assertCompleteReconciliationPlan`; the counts are of the rows that were planned. -/
def assertCompleteReconciliationPlan (plan : ReconciliationPlan) (current : List Text) : Bool :=
  let audit := plan.audit.map Prod.fst
  current.Nodup ∧ (plan.unchanged ++ audit ++ plan.refresh ++ plan.remove).Nodup ∧
    (∀ path ∈ plan.remove, path ∉ current) ∧
    (∀ path ∈ plan.unchanged ++ audit ++ plan.refresh, path ∈ current) ∧
    (∀ path ∈ current, path ∈ plan.unchanged ∨ path ∈ audit ∨ path ∈ plan.refresh) ∧
    plan.unchanged.length + plan.audit.length ≤ plan.matchedSourceCount ∧
    plan.matchedSourceCount ≤ current.length ∧
    plan.matchedSourceCount + plan.remove.length = plan.storedSourceCount

/-- A file of the beginning: it is sent again unless its row is known to be right. -/
def verifyEntry (plan : ReconciliationPlan) (probe : Text → Probe) (path : Text) :
    Option (List Text) :=
  if path ∉ plan.refresh ∧ path ∉ plan.audit.map Prod.fst then some []
  else match probe path with
    | .unreadable | .missing => none
    | .read hash sendable =>
      if (plan.audit.lookup path).isSome ∧ plan.audit.lookup path = hash then some []
      else if sendable then some [path]
      else none

/-- A path to be removed: it is sent again if it turns out to be there. -/
def verifyRemoval (probe : Text → Probe) (path : Text) : Option (List Text × List Text) :=
  match probe path with
  | .unreadable => none
  | .missing => some ([], [path])
  | .read _ sendable => if sendable then some ([path], []) else none

/-- What is sent again and what is removed; none where the resumption is given up. -/
def verify (plan : ReconciliationPlan) (probe : Text → Probe) (beginning : List Text) :
    Option (List Text × List Text) := do
  let upserts ← beginning.mapM (verifyEntry plan probe)
  let removals ← (sortBy comparePaths plan.remove).mapM (verifyRemoval probe)
  some (upserts.flatten ++ (removals.map Prod.fst).flatten, (removals.map Prod.snd).flatten)

/-- `reconcileCheckpointPrefix`: a snapshot, its plan, and the paths still to be sent or removed. -/
inductive Resuming where
  | capturing
  | planning (entries : List Text)
  | verifying (entries : List Text) (plan : ReconciliationPlan)
  | applying (entries upserts removals work : List Text)

/-! ## §5 Builds and their checkpoints -/

inductive Phase where
  | idle
  | resuming (cursor : InitialBuildCheckpointCursor) (stage : Resuming)
  | adding (adding : Adding)
  | replaying
  | stopped

/-- A checkpoint has the image of the staging, so its rows. -/
structure Checkpoint where
  cursor : InitialBuildCheckpointCursor
  (staged acknowledged : List Text)

structure InitialBuild where
  progress : Option InitialBuildProgress
  phase : Phase
  /-- the paths of the rows in the staging of the Worker -/
  staged : List Text
  /-- every path the Worker has acknowledged, in this build or in the one it resumes -/
  acknowledged : List Text
  checkpoints : List Checkpoint

namespace InitialBuild

def initial : InitialBuild := ⟨none, .idle, [], [], []⟩

def persistInitialBuildCheckpoint (build : InitialBuild) : Option InitialBuildCheckpointCursor :=
  match build.progress with
  | none => none
  | some progress =>
    if progress.acknowledgedPrefixSources = 0 then none
    else some
      { snapshotSourceCount := progress.entries.length
        acknowledgedAddBatches := progress.acknowledgedAddBatches
        acknowledgedPrefixSources := progress.acknowledgedPrefixSources
        lastAcknowledgedPath := progress.lastAcknowledgedPath }

/-- A request that changes rows has been acknowledged. -/
def apply (upserts removals : List Text) (build : InitialBuild) : InitialBuild :=
  { build with
    staged := upserts ++ build.staged.filter (· ∉ removals)
    acknowledged := upserts ++ build.acknowledged }

/-- A build that begins or resumes. -/
def enter (progress : Option InitialBuildProgress) (phase : Phase) (build : InitialBuild) :
    InitialBuild :=
  { build with progress := progress, phase := phase }

/-- The end of a build, however it ends: the staging is gone. -/
def ended (build : InitialBuild) : InitialBuild :=
  { build with progress := none, phase := .idle, staged := [], acknowledged := [] }

end InitialBuild

/-- The Worker plans by its rows: what it leaves unchanged or to be audited has one. -/
def PlansFrom (staged : List Text) (plan : ReconciliationPlan) : Prop :=
  ∀ path ∈ plan.unchanged ++ plan.audit.map Prod.fst, path ∈ staged

instance (staged : List Text) (plan : ReconciliationPlan) : Decidable (PlansFrom staged plan) := by
  unfold PlansFrom
  infer_instance

instance (entries : List Text) : Decidable (ValidSnapshot entries) :=
  decidable_of_iff (entries.length ≤ Cache.maxReconciliationSources ∧
      (∀ path ∈ entries, Cache.isNormalizedVaultFilePath path = true) ∧
      entries.Pairwise (comparePaths · · = .lt))
    ⟨fun h => ⟨h.1, h.2.1, h.2.2⟩, fun h => ⟨h.length, h.normalized, h.increasing⟩⟩

/-- What happens next. A checkpoint is resumed without the rows the Worker evicts. -/
inductive Event where
  | begin (entries : List Text)
  | resume (checkpoint : ℕ) (evicted : Text → Bool)
  | capture (entries : List Text)
  | planned (plan : ReconciliationPlan)
  | verified (probe : Text → Probe)
  | applied
  | rebased
  | read (outcome : Outcome)
  | flush
  | flushed
  | added
  | replayed (upserts removals : List Text)
  | failed
  | persisted
  | ended

namespace InitialBuild

variable (limits : Limits)

/-- No request is under way that the Worker could carry out before it exports. -/
def Quiet (build : InitialBuild) : Prop :=
  match build.phase with
  | .adding adding => adding.flushing = none
  | _ => True

instance (build : InitialBuild) : Decidable build.Quiet := by
  unfold Quiet
  split <;> infer_instance

/-- The steps of a resumption. -/
def resumeStep (cursor : InitialBuildCheckpointCursor) (stage : Resuming) (build : InitialBuild) :
    Event → Option InitialBuild
  | .capture entries =>
    -- also when an event has overtaken the snapshot
    if ValidSnapshot entries then
      some (build.enter none (.resuming cursor (.planning entries)))
    else none
  | .planned plan =>
    match stage with
    | .planning entries =>
      if PlansFrom build.staged plan then
        if assertCompleteReconciliationPlan plan entries then
          some (build.enter none (.resuming cursor (.verifying entries plan)))
        else some (build.enter none .stopped)
      else none
    | _ => none
  | .verified probe =>
    match stage with
    | .verifying entries plan =>
      match verify plan probe (cursor.covers entries) with
      | none => some (build.enter none .stopped)
      | some (upserts, removals) =>
        let work := sortBy comparePaths (upserts ++ removals).dedup
        some (build.enter none (.resuming cursor (.applying entries upserts removals work)))
    | _ => none
  | .applied =>
    match stage with
    | .applying entries upserts removals (path :: work) =>
      let applied := build.apply ([path].filter (· ∈ upserts)) ([path].filter (· ∈ removals))
      some (applied.enter none (.resuming cursor (.applying entries upserts removals work)))
    | _ => none
  | .rebased =>
    match stage with
    | .applying entries _ _ [] =>
      let suffix := entries.zipIdx.filter fun entry => cursor.representedPrefix entries ≤ entry.2
      some (build.enter (some (cursor.rebase entries)) (.adding (.start suffix)))
    | _ => none
  | _ => none

/-- The steps of sending a snapshot. A batch is also sent when the next file has no room in it, and
at the end. -/
def addStep (progress : InitialBuildProgress) (adding : Adding) (build : InitialBuild) :
    Event → Option InitialBuild
  | .read outcome =>
    if adding.flushing = none ∧ adding.remaining ≠ [] then
      match adding.read limits outcome with
      | none => some (build.enter (some progress) .stopped)
      | some read => some (build.enter (some progress) (.adding read))
    else none
  | .flush =>
    if adding.flushing = none ∧ adding.batch ≠ [] then
      some (build.enter (some progress) (.adding (adding.flush none)))
    else none
  | .flushed =>
    match adding.flushing with
    | none => none
    | some next =>
      let applied := build.apply (adding.batch.map Prod.fst) []
      some (applied.enter (some (progress.acknowledge (adding.batch.map Prod.snd)))
        (.adding (adding.flushed limits next)))
  | .added =>
    if adding.flushing = none ∧ adding.batch = [] ∧ adding.remaining = [] then
      some (build.enter (some progress) .replaying)
    else none
  | _ => none

def step (build : InitialBuild) : Event → Option InitialBuild
  | .ended => some build.ended
  | .failed =>
    match build.phase with
    | .idle => none
    | _ => some (build.enter build.progress .stopped)
  | .persisted =>
    if build.Quiet then
      build.persistInitialBuildCheckpoint.map fun cursor =>
        { build with
          checkpoints := build.checkpoints ++ [⟨cursor, build.staged, build.acknowledged⟩] }
    else none
  | event =>
    match build.phase with
    | .idle =>
      match event with
      | .begin entries =>
        if ValidSnapshot entries then
          some (build.ended.enter (some (.fresh entries)) (.adding (.start entries.zipIdx)))
        else none
      | .resume checkpoint evicted =>
        build.checkpoints[checkpoint]?.map fun saved =>
          { build with
            progress := none
            phase := .resuming saved.cursor .capturing
            staged := saved.staged.filter fun path => !evicted path
            acknowledged := saved.acknowledged }
      | _ => none
    | .resuming cursor stage => build.resumeStep cursor stage event
    | .adding adding =>
      build.progress.bind fun progress => build.addStep limits progress adding event
    | .replaying =>
      match event with
      | .replayed upserts removals => some (build.apply upserts removals)
      | _ => none
    | .stopped => none

end InitialBuild

/-! ## §6 What is asked -/

/-- Both validators accept the cursor, every file before its place has been acknowledged, and its
path is of the last of them. -/
structure CursorSound (build : InitialBuild) (cursor : InitialBuildCheckpointCursor) : Prop where
  store : Cache.isInitialBuildCheckpointCursor cursor.toJson = true
  protocol : isInitialBuildCheckpointCursor cursor.toJson = true
  acknowledged : ∃ progress, build.progress = some progress ∧
    cursor.acknowledgedPrefixSources ≤ progress.entries.length ∧
    (∀ path ∈ progress.entries.take cursor.acknowledgedPrefixSources,
      path ∈ build.acknowledged) ∧
    cursor.lastAcknowledgedPath =
      (progress.entries.take cursor.acknowledgedPrefixSources).getLast?

end Kwiry.Plugin.Checkpoints
