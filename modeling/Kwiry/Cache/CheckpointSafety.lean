import Kwiry.Cache.CrashSafety

/-!
# Crash Safety of the Initial-Build Checkpoint

The image of a checkpoint carries its digest in its name, so a put replaces the served image before
the pointer only where identifier and digest are both those that are served.
-/

namespace Kwiry.Cache

open Foundations Foundations.Program

/-- A checkpoint at rest: the pointer and its image are durable. -/
structure Disk.RestsCheckpoint (s : Disk) (deps : CacheDeps) (pointer : CheckpointPointer)
    (old : Resting) : Prop where
  imagePath : old.imagePath = checkpointImagePathOf pointer.record.generationId pointer.record.sha256
  file : ∀ node, s.Shows initialBuildPointerPath node → node = some (.file old.encoded true)
  image : ∀ node, s.Shows old.imagePath node → node = some (.file old.bytes true)
  small : old.encoded.length ≤ maxPointerBytes
  reads : ∃ raw, deps.json.decode old.encoded = some raw ∧
    parseInitialBuildCheckpointPointer deps raw = .valid pointer ∧
    initialBuildCheckpointPointerNamesForeignVault deps raw = false
  own : pointer.isForeign deps = false
  length : old.bytes.length = pointer.record.byteLength
  real : Directory.images.isReal s = true

section Checkpoints

variable {deps : CacheDeps} {op : Operation} {write : CheckpointWrite}
  {pointer : CheckpointPointer} {old : Resting} {window : ℕ} {s : Disk}

lemma Disk.RestsCheckpoint.pending (h : s.RestsCheckpoint deps pointer old) (now : ℕ)
    (write : CheckpointWrite) : Pending old (checkpointCommit deps now write) s where
  pointer := h.file
  image v hv := .inl (h.image v hv)

lemma checkpointFileName_eq (generationId sha256 : Text) :
    initialBuildCheckpointImageFileName generationId sha256 =
      (generationId ++ ['-'] ++ sha256) ++ '.' :: ['k', 'w', 'p'] := rfl

lemma apart_checkpointCommit (himage : old.imagePath =
      checkpointImagePathOf pointer.record.generationId pointer.record.sha256) :
    Apart old (checkpointCommit deps op.now write) op.suffix :=
  apart_of_names himage (checkpointFileName_eq _ _) op.suffix_plain (by decide) rfl rfl
    nofun

/-- The pointer of an accepted write. -/
theorem checkpointPointer_stores
    (hvalid : validateInitialBuildCheckpointWrite deps write = .ok ()) (op : Operation) :
    (checkpointPointer deps op.now write).Stores deps write.bytes ∧
      isInitialBuildCheckpointCursor write.cursor = true := by
  simp only [validateInitialBuildCheckpointWrite, validateRecord, bind_unit_ok_iff,
    rejectIf_ok] at hvalid
  obtain ⟨⟨hgeneration, himage, hidentity⟩, hcursor⟩ := hvalid
  have hid : isGenerationId write.generationId = true := by simpa using hgeneration
  exact ⟨⟨rfl, hid, himage, hidentity, op.now_le⟩, by simpa using hcursor⟩

/-! ## §1 Retention -/

/-- The paths that a settled checkpoint stands at. -/
def Standing (write : CheckpointWrite) (path : CachePath) : Prop :=
  path = initialBuildPointerPath ∨ path = checkpointImagePathOf write.generationId write.sha256

lemma uses_pruneImages {allowed : FsCall → Prop} [Harmless allowed]
    (h : ∀ path, ¬ Standing write path → allowed (.unlink path)) :
    (do
      let images ← require (← readdir .images)
      removeEach ((images.filter
        (· ≠ initialBuildCheckpointImageFileName write.generationId write.sha256)).map
          (⟨.images, ·⟩))
      let rest ← require (← readdir .initialBuild)
      removeEach ((rest.filter (tempMarker <:+: ·)).map (⟨.initialBuild, ·⟩)) :
        StoreProgram Unit).Uses allowed := by
  refine Uses.bind ⟨Harmless.readdir _, fun _ => trivial⟩ fun images => ?_
  refine (uses_require images).bind fun images => Uses.bind (uses_removeEach ?_) fun _ => ?_
  · intro path hpath
    obtain ⟨name, hname, rfl⟩ := List.mem_map.mp hpath
    have hdropped : name ≠ initialBuildCheckpointImageFileName write.generationId write.sha256 := by
      simpa using (List.mem_filter.mp hname).2
    apply h
    rintro (heq | heq)
    · cases congrArg CachePath.directory heq
    · exact hdropped (congrArg CachePath.entry heq)
  · refine Uses.bind ⟨Harmless.readdir _, fun _ => trivial⟩ fun rest => ?_
    refine (uses_require rest).bind fun rest => uses_removeEach fun path hpath => ?_
    obtain ⟨name, hname, rfl⟩ := List.mem_map.mp hpath
    have htemp : tempMarker <:+: name := by simpa using (List.mem_filter.mp hname).2
    apply h
    rintro (heq | heq)
    · obtain rfl : name = "checkpoint.json".toList := congrArg CachePath.entry heq
      exact not_temp_checkpointPointer htemp
    · cases congrArg CachePath.directory heq

/-- Retention reads the pointer that was just stored, or none. -/
theorem throughout_pruneCheckpoints {raw : Text}
    (h : Settled (checkpointCommit deps op.now write) s)
    (hdecode : deps.json.decode (checkpointCommit deps op.now write).encoded = some raw)
    (hparse : parseInitialBuildCheckpointPointer deps raw =
      .valid (checkpointPointer deps op.now write)) :
    Throughout (Faulty window) (Settled (checkpointCommit deps op.now write)) (fun _ _ => True)
      (pruneInitialBuildCheckpointsQuietly deps write.generationId) s := by
  have hkept : ∀ {t u}, Settled (checkpointCommit deps op.now write) t →
      Calm (Standing write) t u → Settled (checkpointCommit deps op.now write) u :=
    fun ht hcalm => ht.calm hcalm
  have hget : s.get initialBuildPointerPath =
      some (.file (checkpointCommit deps op.now write).encoded true) :=
    h.pointer _ (.inl rfl)
  rw [pruneInitialBuildCheckpointsQuietly]
  suffices hbody : Throughout (Faulty window) (Settled (checkpointCommit deps op.now write))
      (OnResult (fun _ _ => True) fun _ _ => True) _ s from
    throughout_orElse hbody (fun _ _ _ _ => trivial) fun _ t ht _ => ⟨ht, trivial⟩
  refine throughout_bind (R := fun pointer t => t = s ∧
    (pointer = none ∨ pointer = some (checkpointPointer deps op.now write))) ?_ ?_
  · refine (readQuietly_spec hget h.small hdecode fun raw =>
      (parseInitialBuildCheckpointPointer deps raw).pointer?).mono ?_ ?_
    · rintro t rfl
      exact h
    · intro result t ht hresult
      cases result with
      | ok pointer =>
        rw [hparse] at hresult
        exact ⟨ht, hresult⟩
      | error e => trivial
  rintro pointer t ht ⟨rfl, rfl | rfl⟩
  · exact ⟨h, trivial⟩
  · change Throughout _ _ _ (if write.generationId ≠ write.generationId then pure () else _ :
      StoreProgram Unit) t
    rw [if_neg fun hne => hne rfl]
    refine (throughout_calm (uses_pruneImages fun _ h => h) t).mono (fun u hu => hkept h hu) ?_
    intro result u _ _
    cases result with
    | ok a => trivial
    | error e => trivial

/-! ## §2 A put -/

lemma putCheckpoint_sound (h : s.RestsCheckpoint deps pointer old)
    (hvalid : validateInitialBuildCheckpointWrite deps write = .ok ())
    (hreads : deps.json.Reads (checkpointPointer deps op.now write).toJson) :
    Throughout (Faulty window) (Sound old (checkpointCommit deps op.now write)) (fun _ _ => True)
      (putInitialBuildCheckpointLocked deps op write) s := by
  have hpending := h.pending op.now write
  refine throughout_withWriterLock (fun t u ht hcalm => ht.calm (hcalm.mono fun _ _ => trivial))
    hpending.sound fun s₁ hs₁ => ?_
  have hready : Pending old (checkpointCommit deps op.now write) s₁ :=
    hpending.calm (hs₁.mono fun _ _ => trivial)
  have hquarantine : ∀ path, path = initialBuildPointerPath ∨ path = old.imagePath →
      path.directory ≠ .initialBuildQuarantine := by
    rintro path (rfl | rfl)
    · decide
    · rw [h.imagePath]
      exact nofun
  -- the directories are made ready
  refine hready.bind (uses_assertOwned _) (fun _ ht => ht) fun _ t hready => ?_
  refine hready.bind (uses_applyDirectoryMode deps _) (fun _ ht => ht) fun _ u hready => ?_
  refine hready.bind (uses_applyDirectoryMode deps _) (fun _ ht => ht) fun _ v hready => ?_
  refine hready.bind (uses_removeTreeQuietly hquarantine) (fun _ ht => ht) fun _ w hready => ?_
  -- the commit, and retention after it
  refine throughout_bind (R := fun _ x => Settled (checkpointCommit deps op.now write) x) ?_ ?_
  · refine (commitImage_spec (apart_checkpointCommit h.imagePath) hready).mono
      (fun x hx => hx) fun result x _ hresult => ?_
    cases result with
    | ok a => exact hresult
    | error e => trivial
  rintro - x - hsettled
  obtain ⟨raw, hdecode, hraw⟩ := hreads
  obtain ⟨hstores, hcursor⟩ := checkpointPointer_stores hvalid op
  have hparse := parseCheckpoint_toJson hstores hcursor hraw
  refine throughout_andThen ((throughout_pruneCheckpoints hsettled hdecode hparse).mono
    (fun y hy => hy.sound) fun result y hy _ => ?_)
  cases result with
  | ok a | error e => exact ⟨hy.sound, trivial⟩

/-- The bytes that a put replaces under the served name are those that it writes, or it stores the
record that is served. -/
def KeepsCheckpoint (pointer : CheckpointPointer) (old : Resting) (write : CheckpointWrite) :
    Prop :=
  ¬ (write.generationId = pointer.record.generationId ∧ write.sha256 = pointer.record.sha256) ∨
    write.bytes = old.bytes ∨ write.toCheckpointRecord = pointer.checkpoint

/-- At every crash point of a put, a later load finds the old record or the new one. -/
def CrashSafePutCheckpoint (deps : CacheDeps) (op : Operation) (write : CheckpointWrite)
    (pointer : CheckpointPointer) (old : Resting) (window : ℕ) (s : Disk) : Prop :=
  ∀ t, Passes (Faulty window) (putInitialBuildCheckpointLocked deps op write) s t →
    ∀ t', t.Survives t' → ∀ now,
      Loads (loadInitialBuildCheckpointLocked deps now) t' pointer.checkpoint old.bytes ∨
        Loads (loadInitialBuildCheckpointLocked deps now) t' write.toCheckpointRecord write.bytes

lemma sha256_of_stores {body : PointerBody} {bytes : Bytes} (h : body.Stores deps bytes) :
    isSha256Hex body.record.sha256 = true := by
  have himage := h.image
  simp only [imageInvalid, not_or, Bool.not_eq_false] at himage
  exact himage.2.2.2

lemma putCheckpoint_crash_safe (h : s.RestsCheckpoint deps pointer old)
    (hvalid : validateInitialBuildCheckpointWrite deps write = .ok ())
    (hreads : deps.json.Reads (checkpointPointer deps op.now write).toJson)
    (hkeeps : KeepsCheckpoint pointer old write) :
    CrashSafePutCheckpoint deps op write pointer old window s := by
  intro t hpass t' hcrash now
  have hsound := (putCheckpoint_sound h hvalid hreads).passes hpass
  obtain ⟨oldRaw, holdDecode, holdParse, holdVault⟩ := h.reads
  obtain ⟨hstores, hcursor⟩ := checkpointPointer_stores hvalid op
  have hreal : Directory.isReal t' .images = true := by
    have hforeign : t'.foreign = s.foreign := hcrash.foreign.trans (passes_foreign hpass)
    rw [Directory.isReal, hforeign]
    exact h.real
  refine hsound.loads hcrash (fun synced hpointer => ?_) (fun synced hpointer hsmall => ?_) ?_
  · -- the old pointer stands
    have hnames : t'.NamesCheckpoint deps pointer :=
      ⟨⟨_, _, _, hpointer, h.small, holdDecode, holdParse, holdVault⟩, h.own, hreal⟩
    rw [h.imagePath, h.length]
    exact hnames.serves now
  · -- the new one does
    obtain ⟨raw, hdecode, hraw⟩ := hreads
    have hnames : t'.NamesCheckpoint deps (checkpointPointer deps op.now write) :=
      ⟨⟨_, _, _, hpointer, hsmall, hdecode, parseCheckpoint_toJson hstores hcursor hraw,
        namesForeignVault_toJson hstores hraw⟩, hstores.own, hreal⟩
    have hserves := hnames.serves now
    rw [← hstores.length] at hserves
    exact hserves
  · intro hpath
    rw [h.imagePath] at hpath
    rcases hkeeps with hne | heq | hrecord
    · exact absurd (checkpointFileName_inj (sha256_of_stores hstores)
        (sha256_of_parseCheckpoint holdParse) (congrArg CachePath.entry hpath)) hne
    · exact .inl heq
    · have hbody : write.toCacheRecord = pointer.record :=
        congrArg CheckpointRecord.toCacheRecord hrecord
      refine .inr ⟨hrecord, ?_⟩
      rw [h.length, ← hbody]
      exact hstores.length

/-! ## §3 The put that is not crash safe -/

section

variable (h : s.RestsCheckpoint deps pointer old)
  (hready : s.Ready (tempOf (checkpointImagePathOf write.generationId write.sha256) op.suffix))

include h hready

/-- A put under the served name comes to a point where the old pointer names the new image. -/
theorem putCheckpoint_reaches (hsame : write.generationId = pointer.record.generationId)
    (hsha : write.sha256 = pointer.record.sha256) :
    ∃ t, Passes (Faulty window) (putInitialBuildCheckpointLocked deps op write) s t ∧
      t.NamesCheckpoint deps pointer ∧
      t.get (checkpointImagePathOf pointer.record.generationId pointer.record.sha256) =
        some (.file write.bytes true) := by
  obtain ⟨raw, hdecode, hparse, hvaultNamed⟩ := h.reads
  have hget : s.get initialBuildPointerPath = some (.file old.encoded true) :=
    h.file _ (.inl rfl)
  have himage : s.get (checkpointImagePathOf pointer.record.generationId pointer.record.sha256) =
      some (.file old.bytes true) := by
    rw [← h.imagePath]
    exact h.image _ (.inl rfl)
  have hreal := isReal_of_ready hready
  rw [← hsame, ← hsha] at himage ⊢
  obtain ⟨t, hpass, htarget, hpointer, hforeign⟩ := commitImage_reaches_cleared
    (checkpointCommit deps op.now write) .initialBuildQuarantine hready himage
    nofun nofun nofun
  refine ⟨t, ?_, ⟨⟨old.encoded, true, raw, hpointer.trans hget, h.small, hdecode, hparse,
    hvaultNamed⟩, h.own, ?_⟩, htarget⟩
  · refine passes_withWriterLock hready.free (hreal _) ?_
    refine passes_after (run_assertOwned (hreal _)) ?_
    refine passes_after (run_applyDirectoryMode deps (hreal _)) ?_
    refine passes_after (run_applyDirectoryMode deps (hreal _)) ?_
    exact passes_after (run_removeTreeQuietly (hreal _)) (hpass.andThen_left _)
  · rw [Directory.isReal, hforeign]
    exact hreal _

lemma keepsCheckpoint_of_crash_safe
    (hsafe : CrashSafePutCheckpoint deps op write pointer old window s) :
    KeepsCheckpoint pointer old write := by
  by_contra hkeeps
  simp only [KeepsCheckpoint, not_or, not_not] at hkeeps
  obtain ⟨⟨hsame, hsha⟩, hbytes, hrecord⟩ := hkeeps
  obtain ⟨t, hpass, hnames, himage⟩ := putCheckpoint_reaches h hready hsame hsha
  rcases hsafe t hpass t t.survives_refl 0 with hold | hnew
  · exact hbytes ((hnames.serves 0).eq_of_loads himage hold).2.symm
  · exact hrecord ((hnames.serves 0).eq_of_loads himage hnew).1

end

/-- The checkpoint alone in its directory. -/
theorem restsCheckpoint_pair (h : s.RestsCheckpoint deps pointer old) :
    (restingDisk (pairFiles initialBuildPointerPath old.imagePath old.encoded
      old.bytes)).RestsCheckpoint deps pointer old where
  imagePath := h.imagePath
  file _ hnode := (shows_restingDisk hnode).symm.trans lookup_pairFiles_pointer
  image _ hnode := by
    refine (shows_restingDisk hnode).symm.trans (lookup_pairFiles_image fun heq => ?_)
    rw [h.imagePath] at heq
    cases congrArg CachePath.directory heq
  small := h.small
  reads := h.reads
  own := h.own
  length := h.length
  real := rfl

lemma crashSafePutCheckpoint_iff (h : s.RestsCheckpoint deps pointer old)
    (hvalid : validateInitialBuildCheckpointWrite deps write = .ok ())
    (hreads : deps.json.Reads (checkpointPointer deps op.now write).toJson) :
    (∀ t : Disk, t.RestsCheckpoint deps pointer old →
      CrashSafePutCheckpoint deps op write pointer old window t) ↔
        KeepsCheckpoint pointer old write := by
  refine ⟨fun hsafe => ?_, fun hkeeps t ht => putCheckpoint_crash_safe ht hvalid hreads hkeeps⟩
  have hpair := restsCheckpoint_pair h
  have hapart : Apart old (checkpointCommit deps op.now write) op.suffix :=
    apart_checkpointCommit h.imagePath
  exact keepsCheckpoint_of_crash_safe hpair (ready_restingDisk (lookup_pairFiles_other
    (fun heq => hapart.imageTemp (.inl heq))
    fun heq => hapart.imageTemp (.inr (.inl heq)))) (hsafe _ hpair)

/-- The image that the pointer of the checkpoint names is in place. -/
def Disk.HoldsCheckpointImage (s : Disk) (deps : CacheDeps) : Prop :=
  ∀ pointer, s.NamesCheckpoint deps pointer → ∃ bytes synced,
    s.get (checkpointImagePathOf pointer.record.generationId pointer.record.sha256) =
      some (.file bytes synced)

lemma Disk.NamesCheckpoint.eq (h : s.NamesCheckpoint deps pointer) {encoded : Bytes}
    {synced : Bool} {raw : Text}
    (hget : s.get initialBuildPointerPath = some (.file encoded synced))
    (hdecode : deps.json.decode encoded = some raw) {pointer' : CheckpointPointer}
    (hparse : parseInitialBuildCheckpointPointer deps raw = .valid pointer') :
    pointer = pointer' := by
  obtain ⟨encoded', _, raw', hget', -, hdecode', hparse', -⟩ := h.named
  cases hget.symm.trans hget'
  cases hdecode.symm.trans hdecode'
  cases hparse'.symm.trans hparse
  rfl

/-- No step of a put, and no crash in it, takes the image from under the pointer. -/
theorem putCheckpoint_holdsImage (h : s.RestsCheckpoint deps pointer old)
    (hvalid : validateInitialBuildCheckpointWrite deps write = .ok ())
    (hreads : deps.json.Reads (checkpointPointer deps op.now write).toJson) {t t' : Disk}
    (hpass : Passes (Faulty window) (putInitialBuildCheckpointLocked deps op write) s t)
    (hcrash : t.Survives t') : t'.HoldsCheckpointImage deps := by
  intro standing hstanding
  have hsound := (putCheckpoint_sound h hvalid hreads).passes hpass
  obtain ⟨oldRaw, holdDecode, holdParse, -⟩ := h.reads
  rcases hsound.survives hcrash with ⟨synced, hpointer, bytes, flag, himage, -⟩ |
    ⟨synced, hpointer, -, flag, himage⟩
  · obtain rfl := hstanding.eq hpointer holdDecode holdParse
    rw [← h.imagePath]
    exact ⟨bytes, flag, himage⟩
  · obtain ⟨raw, hdecode, hraw⟩ := hreads
    obtain ⟨hstores, hcursor⟩ := checkpointPointer_stores hvalid op
    obtain rfl := hstanding.eq hpointer hdecode (parseCheckpoint_toJson hstores hcursor hraw)
    exact ⟨_, flag, himage⟩

end Checkpoints

/-! ## §4 Main result -/

/-- A put leaves the old record or the new one at every crash point, from every disk at rest, just
when it does not replace the bytes of the served image under the name that they are served by. The
image that the pointer names stays in place in any case. -/
theorem cache_put_crash_safe_iff (deps : CacheDeps) (op : Operation) (window : ℕ) :
    (∀ (write : CacheWrite) (pointer : CachePointer) (old : Resting) (s : Disk),
      s.RestsGeneration deps pointer old → validateWrite deps write = .ok () →
      (∀ previous, ReadsPrevious pointer previous →
        deps.json.Reads (cachePointer deps op.now write previous).toJson) →
      ((∀ t : Disk, t.RestsGeneration deps pointer old →
          CrashSafePut deps op write pointer old window t) ↔ KeepsServed pointer old write) ∧
        ∀ t t', Passes (Faulty window) (putLocked deps op write) s t → t.Survives t' →
          t'.HoldsImage deps) ∧
    (∀ (write : CheckpointWrite) (pointer : CheckpointPointer) (old : Resting) (s : Disk),
      s.RestsCheckpoint deps pointer old →
      validateInitialBuildCheckpointWrite deps write = .ok () →
      deps.json.Reads (checkpointPointer deps op.now write).toJson →
      ((∀ t : Disk, t.RestsCheckpoint deps pointer old →
          CrashSafePutCheckpoint deps op write pointer old window t) ↔
            KeepsCheckpoint pointer old write) ∧
        ∀ t t', Passes (Faulty window) (putInitialBuildCheckpointLocked deps op write) s t →
          t.Survives t' → t'.HoldsCheckpointImage deps) :=
  ⟨fun _ _ _ _ h hvalid hreads => ⟨crashSafePut_iff h hvalid hreads,
      fun _ _ hpass hcrash => putLocked_holdsImage h hvalid hreads hpass hcrash⟩,
    fun _ _ _ _ h hvalid hreads => ⟨crashSafePutCheckpoint_iff h hvalid hreads,
      fun _ _ hpass hcrash => putCheckpoint_holdsImage h hvalid hreads hpass hcrash⟩⟩

/-! ## §5 A served generation that is replaced -/

def quoted (t : Text) : Text :=
  Char.ofNat 0x22 :: t ++ [Char.ofNat 0x22]

mutual

/-- `JSON.stringify`, of strings that need no escapes. -/
def Json.print : Json → Text
  | .null => "null".toList
  | .bool value => (toString value).toList
  | .natural value => (toString value).toList
  | .number literal => literal
  | .string value => quoted value
  | .array items => '[' :: Json.printItems items ++ [']']
  | .object fields => Char.ofNat 0x7b :: Json.printFields fields ++ [Char.ofNat 0x7d]

def Json.printItems : List Json → Text
  | [] => []
  | [item] => item.print
  | item :: rest => item.print ++ ',' :: Json.printItems rest

def Json.printFields : List (Text × Json) → Text
  | [] => []
  | [(name, value)] => quoted name ++ ':' :: value.print
  | (name, value) :: rest => quoted name ++ ':' :: value.print ++ ',' :: Json.printFields rest

end

def asciiBytes (t : Text) : Bytes :=
  t.map fun c => UInt8.ofNat c.toNat

def asciiText (bytes : Bytes) : Option Text :=
  if bytes.all (· < 128) then some (bytes.map fun byte => Char.ofNat byte.toNat) else none

lemma asciiText_asciiBytes {t : Text} (h : t.all (fun c => c.toNat < 128) = true) :
    asciiText (asciiBytes t) = some t := by
  have hchar : ∀ c ∈ t, c.toNat < 128 := by simpa using h
  have hall : (asciiBytes t).all (· < 128) = true := by
    rw [asciiBytes, List.all_map, List.all_eq_true]
    intro c hc
    have hc := hchar c hc
    simp only [Function.comp_apply, decide_eq_true_eq, UInt8.lt_iff_toNat_lt, UInt8.toNat_ofNat']
    simpa [Nat.mod_eq_of_lt (Nat.lt_trans hc (by decide : 128 < 256))] using hc
  have hback : (asciiBytes t).map (fun byte => Char.ofNat byte.toNat) = t := by
    rw [asciiBytes, List.map_map, ← List.map_id t, List.map_map]
    refine List.map_congr_left fun c hc => ?_
    have hlt : c.toNat < 256 := Nat.lt_trans (hchar c hc) (by decide)
    simp [Nat.mod_eq_of_lt hlt]
  rw [asciiText, if_pos hall, hback]

/-- A runtime that reads the texts of two values. -/
def twoValues (a b : Json) : JsonText where
  decode := asciiText
  parse raw := if raw = a.print then some a else if raw = b.print then some b else none
  stringify value := asciiBytes value.print

lemma reads_first {a b : Json} (h : a.print.all (fun c => c.toNat < 128) = true) :
    (twoValues a b).Reads a :=
  ⟨a.print, asciiText_asciiBytes h, if_pos rfl⟩

lemma reads_second {a b : Json} (h : b.print.all (fun c => c.toNat < 128) = true)
    (hne : b.print ≠ a.print) : (twoValues a b).Reads b :=
  ⟨b.print, asciiText_asciiBytes h, (if_neg hne).trans (if_pos rfl)⟩

namespace Sample

def digest (c : Char) : Text := List.replicate 64 c

def identity : Json := .object
  [ (key "protocol_version", .natural 1),
    (key "cache_schema_version", .natural 1),
    (key "chunking_version", .natural 1),
    (key "sqlite_version", .string "3.51.0".toList),
    (key "sqlite_wasm_sha256", .string (digest '1')),
    (key "rust_wasm_sha256", .string (digest '2')),
    (key "plugin_id", .string "kwiry".toList),
    (key "plugin_version", .string "1.0.0".toList),
    (key "cache_identity", .string (digest '0')),
    (key "source_policy_hash", .string (digest '3'))]

def cursor : Json := .object
  [ (key "snapshot_source_count", .natural 2),
    (key "acknowledged_add_batches", .natural 1),
    (key "acknowledged_prefix_sources", .natural 1),
    (key "last_acknowledged_path", .string "a.md".toList)]

def record : CacheRecord := ⟨"g1".toList, 1, digest 'a', identity⟩

def pointer : CachePointer := ⟨⟨digest '0', record, 0⟩, none⟩

def checkpointPointer : CheckpointPointer := ⟨⟨digest '0', record, 0⟩, cursor⟩

def deps : CacheDeps where
  vaultCacheIdentity := digest '0'
  maxBlobBytes := 1024
  json := twoValues pointer.toJson checkpointPointer.toJson
  windows := false
  vaultCacheIdentity_ok := by decide +kernel
  maxBlobBytes_le := by decide

def op : Operation := ⟨0, "x".toList, by decide, by decide⟩

/-- The image that is served, and another one for the same identifier. -/
def write : CacheWrite := ⟨record, [1]⟩

def rewrite : CacheWrite := ⟨{ record with sha256 := digest 'b' }, [2]⟩

def checkpointWrite : CheckpointWrite := ⟨⟨record, cursor⟩, [1]⟩

def resting : Resting where
  imagePath := imagePathOf record.generationId
  bytes := [1]
  encoded := deps.json.stringify pointer.toJson

def restingCheckpoint : Resting where
  imagePath := checkpointImagePathOf record.generationId record.sha256
  bytes := [1]
  encoded := deps.json.stringify Sample.checkpointPointer.toJson

/-- The writes pass validation, and the pointers are short texts of their own. -/
theorem computed :
    (validateWrite deps write = .ok () ∧ validateWrite deps rewrite = .ok () ∧
      validateInitialBuildCheckpointWrite deps checkpointWrite = .ok ()) ∧
    (pointer.toJson.print.all (fun c => c.toNat < 128) = true ∧
      Sample.checkpointPointer.toJson.print.all (fun c => c.toNat < 128) = true ∧
      Sample.checkpointPointer.toJson.print ≠ pointer.toJson.print) ∧
    resting.encoded.length ≤ maxPointerBytes ∧
      restingCheckpoint.encoded.length ≤ maxPointerBytes := by
  decide +kernel

lemma reads_pointer : deps.json.Reads pointer.toJson :=
  reads_first computed.2.1.1

lemma reads_checkpoint : deps.json.Reads Sample.checkpointPointer.toJson :=
  reads_second computed.2.1.2.1 computed.2.1.2.2

lemma valid_write : validateWrite deps write = .ok () := computed.1.1

lemma valid_rewrite : validateWrite deps rewrite = .ok () := computed.1.2.1

lemma valid_checkpointWrite :
    validateInitialBuildCheckpointWrite deps checkpointWrite = .ok () := computed.1.2.2

lemma cachePointer_eq {previous : Option CachePointer}
    (h : ReadsPrevious pointer previous) : cachePointer deps op.now write previous = pointer := by
  rcases h with rfl | rfl
  · rfl
  · rfl

lemma pointer_stores : pointer.Stores deps write.bytes :=
  cachePointer_stores valid_write op none

lemma checkpointPointer_stores' : Sample.checkpointPointer.Stores deps checkpointWrite.bytes :=
  (checkpointPointer_stores valid_checkpointWrite op).1

lemma rests : (restingDisk (pairFiles pointerPath resting.imagePath resting.encoded
    resting.bytes)).RestsGeneration deps pointer resting where
  imagePath := rfl
  file _ hnode := (shows_restingDisk hnode).symm.trans lookup_pairFiles_pointer
  image _ hnode := (shows_restingDisk hnode).symm.trans
    (lookup_pairFiles_image fun heq => nomatch congrArg CachePath.directory heq)
  small := computed.2.2.1
  reads := by
    obtain ⟨raw, hdecode, hraw⟩ := reads_pointer
    exact ⟨raw, hdecode, parsePointer_toJson pointer_stores nofun hraw⟩
  own := pointer_stores.own
  length := rfl
  real := rfl

lemma restsCheckpoint : (restingDisk (pairFiles initialBuildPointerPath
    restingCheckpoint.imagePath restingCheckpoint.encoded restingCheckpoint.bytes)).RestsCheckpoint
      deps Sample.checkpointPointer restingCheckpoint where
  imagePath := rfl
  file _ hnode := (shows_restingDisk hnode).symm.trans lookup_pairFiles_pointer
  image _ hnode := (shows_restingDisk hnode).symm.trans
    (lookup_pairFiles_image fun heq => nomatch congrArg CachePath.directory heq)
  small := computed.2.2.2
  reads := by
    obtain ⟨raw, hdecode, hraw⟩ := reads_checkpoint
    exact ⟨raw, hdecode, parseCheckpoint_toJson checkpointPointer_stores'
      (checkpointPointer_stores valid_checkpointWrite op).2 hraw,
      namesForeignVault_toJson checkpointPointer_stores' hraw⟩
  own := checkpointPointer_stores'.own
  length := rfl
  real := rfl

end Sample

/-- Storing the served generation and the served checkpoint again is crash safe. -/
theorem cache_put_crash_safe_again :
    (∀ t : Disk, t.RestsGeneration Sample.deps Sample.pointer Sample.resting →
      CrashSafePut Sample.deps Sample.op Sample.write Sample.pointer Sample.resting 1 t) ∧
    (∀ t : Disk, t.RestsCheckpoint Sample.deps Sample.checkpointPointer Sample.restingCheckpoint →
      CrashSafePutCheckpoint Sample.deps Sample.op Sample.checkpointWrite Sample.checkpointPointer
        Sample.restingCheckpoint 1 t) := by
  obtain ⟨hgeneration, hcheckpoint⟩ := cache_put_crash_safe_iff Sample.deps Sample.op 1
  have hreads : ∀ previous, ReadsPrevious Sample.pointer previous →
      Sample.deps.json.Reads
        (cachePointer Sample.deps Sample.op.now Sample.write previous).toJson := by
    intro previous hprevious
    rw [Sample.cachePointer_eq hprevious]
    exact Sample.reads_pointer
  exact ⟨(hgeneration _ _ _ _ Sample.rests Sample.valid_write hreads).1.mpr (Or.inr (Or.inl rfl)),
    (hcheckpoint _ _ _ _ Sample.restsCheckpoint Sample.valid_checkpointWrite
      Sample.reads_checkpoint).1.mpr (Or.inr (Or.inl rfl))⟩

/-- Another image under the served identifier: a crash before the pointer is renamed leaves the old
record over the new bytes. -/
theorem cache_put_not_crash_safe :
    ∃ s : Disk, s.RestsGeneration Sample.deps Sample.pointer Sample.resting ∧
      validateWrite Sample.deps Sample.rewrite = .ok () ∧
      ¬ CrashSafePut Sample.deps Sample.op Sample.rewrite Sample.pointer Sample.resting 1 s := by
  refine ⟨_, Sample.rests, Sample.valid_rewrite, fun hsafe => ?_⟩
  have hready : (restingDisk (pairFiles pointerPath Sample.resting.imagePath Sample.resting.encoded
      Sample.resting.bytes)).Ready (tempOf (imagePathOf Sample.rewrite.generationId)
        Sample.op.suffix) :=
    ready_restingDisk (lookup_pairFiles_other (fun heq => nomatch congrArg CachePath.directory heq)
      (tempOf_ne_self _ _))
  rcases keepsServed_of_crash_safe Sample.rests hready hsafe with h | h | h
  · exact h rfl
  · exact absurd h (by decide)
  · exact absurd (congrArg CacheRecord.sha256 h) (by decide +kernel)

end Kwiry.Cache
