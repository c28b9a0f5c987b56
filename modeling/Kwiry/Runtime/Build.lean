import Kwiry.Runtime.Index

/-!
# Building an Index from Nothing

`build_index`: every vault is ingested whole, into one index on the desktop and into one
partition per resource elsewhere. The loop over a vault is the same for both and is
`buildVault`; what it leaves at one key is `builtSource`.
-/

namespace Kwiry

open Foundations List

/-! ## §1 Statistics -/

abbrev FormatCounts := List ((SourceFormat × ExtractionCoverage) × ℕ)

/-- Zero everywhere, in registry order. -/
def FormatCounts.zero : FormatCounts :=
  SourceFormat.all.flatMap fun format =>
    [ExtractionCoverage.indexedComplete, .indexedPartial, .skippedNoExtractableText, .unreadable,
      .quarantined].map fun coverage => ((format, coverage), 0)

def FormatCounts.record (counts : FormatCounts) (format : SourceFormat)
    (coverage : ExtractionCoverage) : FormatCounts :=
  counts.map fun entry =>
    if entry.1 = (format, coverage) then (entry.1, entry.2 + 1) else entry

structure IndexStats where
  (documents chunks : ℕ)
  sourceFormatCounts : FormatCounts
  warnings : List IngestWarning

def IndexStats.default : IndexStats := ⟨0, 0, FormatCounts.zero, []⟩

/-- An outcome without a hash is not counted. -/
def IndexStats.recordOutcome (stats : IndexStats) (outcome : FileIngestOutcome) : IndexStats :=
  if outcome.contentHash.isNone then
    stats
  else
    { stats with
      sourceFormatCounts := stats.sourceFormatCounts.record outcome.format outcome.coverage
      documents := if outcome.kind = .indexed then stats.documents + 1 else stats.documents }

/-! ## §2 The loop over a vault -/

structure BuildState where
  documents : List Document
  manifest : Manifest
  stats : IndexStats

def BuildState.initial : BuildState := ⟨[], Manifest.default, IndexStats.default⟩

variable (B : Build)

/-- One outcome: its documents are written and its row recorded. With a resource, a chunk classified
elsewhere is refused. -/
def buildOutcome (fingerprint : Digest) (resource : Option ResourceKey) (state : BuildState)
    (outcome : FileIngestOutcome) : Except Error BuildState := do
  let documents ← outcome.plannedChunks.foldlM (addChunk B resource) state.documents
  let stats := state.stats.recordOutcome outcome
  return {
    documents := documents
    manifest := state.manifest.insertOutcome B outcome fingerprint resource
    stats :=
      { stats with
        chunks := stats.chunks + outcome.chunks.length
        warnings := stats.warnings ++ outcome.warning.toList } }

def buildVault (resource : Option ResourceKey) (vault : VaultRegistration) (world : VaultWorld)
    (state : BuildState) : Except Error BuildState :=
  if !world.isDir then
    .error (.invalidVaultPath vault.path)
  else
    (ingestVaultFiles B vault world).foldlM
      (buildOutcome B (registrationFingerprint B.hash vault) resource)
      { state with
        stats := { state.stats with warnings := state.stats.warnings ++ world.warnings } }

/-- The counts a finished candidate has to agree on. The label names what was counted. -/
def verifyCandidate (label : String) (state : BuildState) (indexedChunks : ℕ) : Except Error Unit :=
  let stats := state.stats
  let manifest := state.manifest
  if indexedChunks ≠ stats.chunks ∨ manifest.chunkCount ≠ stats.chunks then
    .error (.state ("candidate count mismatch: stats=" ++ toString stats.chunks ++
      ", manifest=" ++ toString manifest.chunkCount ++ ", " ++ label ++ "=" ++
      toString indexedChunks))
  else if manifest.documentCount ≠ stats.documents then
    .error (.state ("candidate document mismatch: stats=" ++ toString stats.documents ++
      ", manifest=" ++ toString manifest.documentCount))
  else if manifest.sourceFormatCounts ≠ stats.sourceFormatCounts ∨
      Manifest.indexedDocuments stats.sourceFormatCounts ≠ stats.documents then
    .error (.state
      "candidate per-format coverage counts do not match indexed documents or manifest")
  else
    .ok ()

/-! ## §3 A build at one key -/

/-- The documents and the row a state holds at a key. -/
def BuildState.view (state : BuildState) (key : SourceKey) : List Document × Option ManifestFile :=
  (documentsAt state.documents key, state.manifest.files[key]?)

/-- What a build leaves for the source at a path of a vault. -/
def builtSource (resource : Option ResourceKey) (vault : VaultRegistration) (world : VaultWorld)
    (path : Str) : List Document × Option ManifestFile :=
  match world.files.find? fun file => file.relativePath = path with
  | none => ([], none)
  | some file =>
    let outcome := ingestFile B vault file (world.read path)
    (outcome.documents B,
      (ManifestFile.fromOutcome B outcome (registrationFingerprint B.hash vault) resource).map
        Prod.snd)

section OneKey

variable {B} {resource : Option ResourceKey} {vault : VaultRegistration} {world : VaultWorld}

variable {state state' : BuildState}

/-- A successful loop over chunks appends their documents. -/
theorem buildOutcome_documents {fingerprint : Digest} {outcome : FileIngestOutcome}
    (h : buildOutcome B fingerprint resource state outcome = .ok state') :
    state'.documents = state.documents ++ outcome.documents B ∧
      state'.manifest = state.manifest.insertOutcome B outcome fingerprint resource := by
  unfold buildOutcome at h
  cases hadd : outcome.plannedChunks.foldlM (addChunk B resource) state.documents with
  | error e =>
    rw [hadd] at h
    cases h
  | ok documents =>
    rw [hadd] at h
    cases h
    refine ⟨?_, rfl⟩
    rw [foldlM_addChunk _ hadd]
    simp [FileIngestOutcome.documents, FileIngestOutcome.plannedChunks, Function.comp_def]

lemma documentsAt_outcome (file : DiscoveredFile) (read : SnapshotRead) (k : SourceKey) :
    documentsAt ((ingestFile B vault file read).documents B) k =
      if sourceKey B.hash vault.id file.relativePath = k then
        (ingestFile B vault file read).documents B
      else [] := by
  split
  · rename_i hkey
    refine filter_eq_self.mpr fun document hmem => ?_
    simp [ingestFile_documents_key B hmem, hkey]
  · rename_i hkey
    refine filter_eq_nil_iff.mpr fun document hmem => ?_
    simpa [ingestFile_documents_key B hmem] using hkey

lemma files_insertOutcome (manifest : Manifest) (file : DiscoveredFile)
    (read : SnapshotRead) (k : SourceKey) :
    (manifest.insertOutcome B (ingestFile B vault file read)
        (registrationFingerprint B.hash vault) resource).files[k]? =
      if sourceKey B.hash vault.id file.relativePath = k then
        ((ManifestFile.fromOutcome B (ingestFile B vault file read)
          (registrationFingerprint B.hash vault) resource).map Prod.snd).or manifest.files[k]?
      else manifest.files[k]? := by
  unfold Manifest.insertOutcome
  cases hrow : ManifestFile.fromOutcome B (ingestFile B vault file read)
      (registrationFingerprint B.hash vault) resource with
  | none => simp
  | some entry =>
    obtain ⟨key, row⟩ := entry
    obtain ⟨hkey, -⟩ := fromOutcome_ingestFile hrow
    subst hkey
    by_cases hk : sourceKey B.hash vault.id file.relativePath = k
    · simp [hk]
    · simp [Std.ExtTreeMap.getElem?_insert, hk]

/-- One file of the loop. -/
private def buildFile (resource : Option ResourceKey) (vault : VaultRegistration)
    (world : VaultWorld) (state : BuildState) (file : DiscoveredFile) :
    Except Error BuildState :=
  buildOutcome B (registrationFingerprint B.hash vault) resource state
    (ingestFile B vault file (world.read file.relativePath))

lemma view_buildFile {file : DiscoveredFile}
    (h : buildFile (B := B) resource vault world state file = .ok state') (k : SourceKey) :
    state'.view k =
      if sourceKey B.hash vault.id file.relativePath = k then
        let outcome := ingestFile B vault file (world.read file.relativePath)
        ((state.view k).1 ++ outcome.documents B,
          ((ManifestFile.fromOutcome B outcome (registrationFingerprint B.hash vault)
            resource).map Prod.snd).or (state.view k).2)
      else state.view k := by
  obtain ⟨hdocuments, hmanifest⟩ := buildOutcome_documents h
  simp only [BuildState.view, hdocuments, hmanifest, documentsAt_append, documentsAt_outcome,
    files_insertOutcome]
  split <;> simp

lemma view_buildFile_ne (state state' : BuildState) (file : DiscoveredFile)
    (k : SourceKey) (h : buildFile (B := B) resource vault world state file = .ok state')
    (hne : ¬ sourceKey B.hash vault.id file.relativePath = k) : state'.view k = state.view k := by
  rw [view_buildFile h, if_neg hne]

lemma buildVault_eq (h : buildVault B resource vault world state = .ok state') :
    world.isDir = true ∧ ∃ start : BuildState, (∀ k, start.view k = state.view k) ∧
      world.files.foldlM (buildFile (B := B) resource vault world) start = .ok state' := by
  unfold buildVault at h
  split at h
  · cases h
  · rename_i hdir
    rw [ingestVaultFiles, foldlM_map] at h
    refine ⟨by simpa using hdir, { state with stats := { state.stats with
      warnings := state.stats.warnings ++ world.warnings } }, fun _ => rfl, h⟩

lemma builtFiles_disjoint :
    world.files.Pairwise fun a b => ∀ k, ¬ (sourceKey B.hash vault.id a.relativePath = k ∧
      sourceKey B.hash vault.id b.relativePath = k) := by
  have hnodup := pairwise_map.mp world.files_nodup
  refine hnodup.imp fun {a b} hne k hboth => hne ?_
  exact (sourceKey_inj B.hash (hboth.1.trans hboth.2.symm)).2

/-- A vault leaves keys alone that are not derived from its id. -/
theorem view_buildVault_of_ne (h : buildVault B resource vault world state = .ok state')
    (k : SourceKey) (hne : ∀ path, sourceKey B.hash vault.id path ≠ k) :
    state'.view k = state.view k := by
  obtain ⟨-, start, hstart, hloop⟩ := buildVault_eq h
  rw [← hstart k]
  exact foldlM_eq_of_no_footprint (buildFile resource vault world) BuildState.view
    (fun file k => sourceKey B.hash vault.id file.relativePath = k) view_buildFile_ne hloop k
    (fun file _ => hne file.relativePath)

/-- What a vault leaves at a key of its own that was empty. -/
theorem view_buildVault (h : buildVault B resource vault world state = .ok state') (path : Str)
    (hempty : state.view (sourceKey B.hash vault.id path) = ([], none)) :
    state'.view (sourceKey B.hash vault.id path) = builtSource B resource vault world path := by
  obtain ⟨-, start, hstart, hloop⟩ := buildVault_eq h
  unfold builtSource
  cases hfind : world.files.find? fun file => file.relativePath = path with
  | none =>
    -- no enumerated file owns the key
    rw [foldlM_eq_of_no_footprint (buildFile resource vault world) BuildState.view
      (fun file k => sourceKey B.hash vault.id file.relativePath = k) view_buildFile_ne hloop,
      hstart, hempty]
    intro file hmem hkey
    have hno := find?_eq_none.mp hfind file hmem
    exact hno (by simpa using (sourceKey_inj B.hash hkey).2)
  | some file =>
    have hpath : file.relativePath = path := by simpa using find?_some hfind
    obtain ⟨s, t, hs, hstep, hview⟩ := foldlM_eq_of_footprint
      (buildFile resource vault world) BuildState.view
      (fun file k => sourceKey B.hash vault.id file.relativePath = k) view_buildFile_ne
      builtFiles_disjoint hloop (sourceKey B.hash vault.id path)
      (mem_of_find?_eq_some hfind) (by rw [hpath])
    rw [hview, view_buildFile hstep, if_pos (by rw [hpath]), hs, hstart, hempty, hpath]
    simp

lemma buildVault_ok_of_isDir (hdir : world.isDir = true) (state : BuildState) :
    ∃ state', buildVault B none vault world state = .ok state' := by
  unfold buildVault
  rw [if_neg (by simp [hdir])]
  refine foldlM_ok_of_forall _ (fun s outcome _ => ?_) _
  obtain ⟨documents, hdocuments⟩ : ∃ documents,
      outcome.plannedChunks.foldlM (addChunk B none) s.documents = .ok documents :=
    foldlM_ok_of_forall (addChunk B none)
      (fun documents planned _ => ⟨documents ++ [chunkDocument B planned.1 planned.2], rfl⟩)
      s.documents
  unfold buildOutcome
  rw [hdocuments]
  exact ⟨_, rfl⟩

end OneKey

end Kwiry
