import Kwiry.Foundations.Doubles
import Kwiry.Cache.Records
import Kwiry.Model

/-!
# Sources of the Active Vault

What the plugin reads from a vault, and what the Worker accepts of it. A file's time goes over
twice: clamped, as a string of nanoseconds, and unclamped, as a number of seconds.
-/

namespace Kwiry.Plugin.Vault

open Foundations List
open Cache (utf16Len splitPath)

/-! ## §1 Numbers of the protocol -/

def activeVaultId : Text := "active-vault".toList

def maxIndexableSourceBytes : ℕ := 10 * 1024 * 1024

def maxSourceBytes : ℕ := 10 * 1024 * 1024 + 1

def maxBatchSources : ℕ := 16

def maxBatchBytes : ℕ := 16 * 1024 * 1024

def maxCanonicalMtimeNanos : ℕ := 10 ^ 39 - 1

/-- A time in milliseconds as digits of nanoseconds, clamped at both ends. -/
def canonicalMtimeNanos : Double → Text
  | .nan | .infinite _ => "0".toList
  | .finite negative magnitude =>
    if negative = true ∨ ⌊magnitude⌋₊ = 0 then "0".toList
    else if maxCanonicalMtimeNanos < ⌊magnitude⌋₊ * 1000000 then
      Nat.toDigits 10 maxCanonicalMtimeNanos
    else Nat.toDigits 10 (⌊magnitude⌋₊ * 1000000)

/-- `/^[0-9]{1,39}$/` -/
def isNanosText (t : Text) : Bool :=
  1 ≤ t.length ∧ t.length ≤ 39 ∧ t.all Char.isDigit

/-! ## §2 Reading a vault -/

/-- A file as the host reports it. -/
structure VaultFile where
  path : Text
  size : ℕ
  mtime : Double

/-- What an inspection says of a file that is there. -/
structure Inspection where
  path : Text
  format : SourceFormat
  size : ℕ
  mtime : Double

structure SourceDescriptor where
  vaultId : Text
  room : Option Text
  path : Text
  format : SourceFormat
  byteLength : ℕ
  mtime : Double
  mtimeNanos : Text

/-- What the Worker is sent of a source: its bytes, or that it is oversized. -/
inductive SourceUpsert where
  | source (descriptor : SourceDescriptor) (bytes : Bytes)
  | oversized (descriptor : SourceDescriptor)

inductive SourceReadOutcome where
  | source (descriptor : SourceDescriptor) (bytes : Bytes)
  | missing (path : Text)
  | oversized (inspection : Inspection)
  | stale (path : Text)
  | timeout

/-- Numbers are equal by `===`: the zeros are, and what is not a number is not equal to itself. -/
def strictEq : Double → Double → Bool
  | .finite a p, .finite b q => p = q ∧ (a = b ∨ p = 0)
  | .infinite a, .infinite b => a = b
  | _, _ => false

def isSafePathName (component : Text) : Bool :=
  component ≠ [] ∧ component ≠ ['.'] ∧ component ≠ ['.', '.']

/-- `isNormalizedVaultPath` of the source formats. -/
def isNormalizedVaultPath (path : Text) : Bool :=
  path ≠ [] ∧ utf16Len path ≤ 4096 ∧ path.head? ≠ some '/' ∧ '\\' ∉ path ∧
    Char.ofNat 0 ∉ path ∧ (splitPath path).all isSafePathName

def formatByExtension : List (Text × SourceFormat) :=
  [("md".toList, .markdown), ("markdown".toList, .markdown), ("mdx".toList, .markdown),
    ("txt".toList, .text), ("base".toList, .base), ("canvas".toList, .canvas),
    ("excalidraw".toList, .excalidraw), ("docx".toList, .docx), ("pdf".toList, .pdf),
    ("xlsx".toList, .excel), ("xlsm".toList, .excel), ("html".toList, .html),
    ("htm".toList, .html)]

/-- The part of a name after its last dot; none where that is the first character or the last. -/
def extensionOf (name : Text) : Option Text :=
  let tail := (name.reverse.takeWhile (· ≠ '.')).reverse
  if tail = [] ∨ name.length ≤ tail.length + 1 then none else some tail

variable (lower : Text → Text) (enabled : SourceFormat → Bool)

/-- The format of a path; `lower` is `toLowerCase`. -/
def classifySourcePath (path : Text) : Option SourceFormat :=
  if isNormalizedVaultPath path then
    (extensionOf ((path.reverse.takeWhile (· ≠ '/')).reverse)).bind fun ext =>
      formatByExtension.lookup (lower ext)
  else none

def isSourceFile (file : VaultFile) (format : SourceFormat) : Bool :=
  classifySourcePath lower file.path = some format

def matchesInspection (file : VaultFile) (inspection : Inspection) : Bool :=
  file.path = inspection.path ∧ file.size = inspection.size ∧
    strictEq file.mtime inspection.mtime = true

/-- What the Worker is told of a file of some length. -/
def descriptorOf (inspection : Inspection) (byteLength : ℕ) : SourceDescriptor where
  vaultId := activeVaultId
  room := none
  path := inspection.path
  format := inspection.format
  byteLength := byteLength
  mtime := (inspection.mtime.div 1000).floor
  mtimeNanos := canonicalMtimeNanos inspection.mtime

/-- A source is read when the file is as it was inspected before and after its bytes, which the
deadline may leave out. -/
def readSource (inspection : Inspection) (before : Option VaultFile) (read : Option Bytes)
    (after : Option VaultFile) : SourceReadOutcome :=
  if !enabled inspection.format then .missing inspection.path
  else match before with
    | none => .missing inspection.path
    | some before =>
      if !isSourceFile lower before inspection.format then .missing inspection.path
      else if !matchesInspection before inspection then .stale inspection.path
      else match read with
        | none => .timeout
        | some bytes =>
          match after with
          | none => .missing inspection.path
          | some after =>
            if !isSourceFile lower after inspection.format then .missing inspection.path
            else if !matchesInspection after inspection then .stale inspection.path
            else if maxIndexableSourceBytes < bytes.length then
              .oversized { inspection with size := bytes.length }
            else if bytes.length ≠ inspection.size then .stale inspection.path
            else .source (descriptorOf inspection bytes.length) bytes

def oversizedInput (inspection : Inspection) : SourceUpsert :=
  .oversized (descriptorOf inspection inspection.size)

structure ReconciliationSourceMetadata where
  path : Text
  byteLength : ℕ
  mtimeNanos : Text
  indexable : Bool

/-- The metadata of a file that is a candidate, or oversized. -/
def inspectionMetadata (inspection : Inspection) (candidate : Bool) :
    ReconciliationSourceMetadata where
  path := inspection.path
  byteLength := inspection.size
  mtimeNanos := canonicalMtimeNanos inspection.mtime
  indexable := candidate

/-! ## §3 What the Worker accepts -/

def isBoundedText (t : Text) (maximum : ℕ) : Bool :=
  0 < utf16Len t ∧ utf16Len t ≤ maximum

def isNormalizedVaultRelativePath (path : Text) : Bool :=
  isBoundedText path 4096 = true ∧ path.head? ≠ some '/' ∧ path.getLast? ≠ some '/' ∧
    '\\' ∉ path ∧ Char.ofNat 0 ∉ path ∧ (splitPath path).all isSafePathName

def isSourceDescriptor (d : SourceDescriptor) (allowOversized : Bool) : Bool :=
  isBoundedText d.vaultId 1024 && (d.room.all fun room => isBoundedText room 1024) &&
    isBoundedText d.path 4096 && d.byteLength ≤ Double.maxSafe &&
    (allowOversized || d.byteLength ≤ maxSourceBytes) && d.mtime.isNonNegativeSafeInteger &&
    isNanosText d.mtimeNanos

/-- An entry of a batch by itself. -/
def isSourceEntry : SourceUpsert → Bool
  | .source d bytes =>
    isSourceDescriptor d false && bytes.length ≤ maxSourceBytes && d.byteLength = bytes.length
  | .oversized d => isSourceDescriptor d true && maxSourceBytes ≤ d.byteLength

/-- The loop of `isSourceBatch`, with the bytes so far. -/
def isSourceBatchFrom : ℕ → List SourceUpsert → Bool
  | _, [] => true
  | total, .source d bytes :: rest =>
    isSourceEntry (.source d bytes) && total + bytes.length ≤ maxBatchBytes &&
      isSourceBatchFrom (total + bytes.length) rest
  | total, .oversized d :: rest => isSourceEntry (.oversized d) && isSourceBatchFrom total rest

def isSourceBatch (batch : List SourceUpsert) (allowEmpty : Bool) : Bool :=
  (allowEmpty || batch ≠ []) && batch.length ≤ maxBatchSources && isSourceBatchFrom 0 batch

def isReconciliationSource (m : ReconciliationSourceMetadata) : Bool :=
  isNormalizedVaultRelativePath m.path && m.byteLength ≤ Double.maxSafe && isNanosText m.mtimeNanos

/-- The loop of `isReconciliationSources`, with the paths so far. -/
def isReconciliationFrom : List Text → List ReconciliationSourceMetadata → Bool
  | _, [] => true
  | paths, m :: rest =>
    isReconciliationSource m && m.path ∉ paths && isReconciliationFrom (m.path :: paths) rest

def isReconciliationSources (sources : List ReconciliationSourceMetadata) : Bool :=
  sources.length ≤ Cache.maxReconciliationSources && isReconciliationFrom [] sources

/-! ## §4 Times that do not block -/

/-- The bytes of a batch. -/
def batchBytes (batch : List SourceUpsert) : ℕ :=
  (batch.map fun entry => match entry with
    | .source _ bytes => bytes.length
    | .oversized _ => 0).sum

/-- Put anywhere into a batch that is accepted, within the bounds of batches, an entry is accepted
with it. -/
def Joins (entry : SourceUpsert) : Prop :=
  ∀ front back, isSourceBatch (front ++ back) true = true →
    front.length + back.length < maxBatchSources →
      batchBytes (front ++ entry :: back) ≤ maxBatchBytes →
        isSourceBatch (front ++ entry :: back) false = true

/-- And so is the metadata of a file with those of others. -/
def JoinsReconciliation (m : ReconciliationSourceMetadata) : Prop :=
  ∀ front back, isReconciliationSources (front ++ back) = true →
    front.length + back.length < Cache.maxReconciliationSources →
      (∀ other ∈ front ++ back, other.path ≠ m.path) →
        isReconciliationSources (front ++ m :: back) = true

/-- Whatever is sent of a file with some time is accepted, by itself and with others. -/
structure NeverBlocks (path : Text) (format : SourceFormat) (mtime : Double) : Prop where
  source : ∀ size before read after d bytes,
    readSource lower enabled ⟨path, format, size, mtime⟩ before read after = .source d bytes →
      Joins (.source d bytes)
  oversized : ∀ size, maxIndexableSourceBytes < size → size ≤ Double.maxSafe →
    Joins (oversizedInput ⟨path, format, size, mtime⟩)
  metadata : ∀ size candidate, size ≤ Double.maxSafe →
    JoinsReconciliation (inspectionMetadata ⟨path, format, size, mtime⟩ candidate)

/-- A time whose thousandth part rounds to nothing below zero, and to less than 2⁵³. -/
def InRange (mtime : Double) : Prop :=
  ∃ negative magnitude, mtime = .finite negative magnitude ∧
    if negative then (magnitude : ℚ) ≤ (1000 : ℕ) * 2 ^ (-1075 : ℤ)
    else (magnitude : ℚ) < (1000 : ℕ) * (2 ^ 53 - 1 / 2)

lemma canonicalMtimeNanos_digits (mtime : Double) :
    isNanosText (canonicalMtimeNanos mtime) = true := by
  have htext : ∀ n ≤ maxCanonicalMtimeNanos, isNanosText (Nat.toDigits 10 n) = true := by
    intro n hn
    have hlength : (Nat.toDigits 10 n).length ≤ 39 :=
      (Nat.length_toDigits_le_iff (by norm_num) (by norm_num)).mpr
        (lt_of_le_of_lt hn (by norm_num [maxCanonicalMtimeNanos]))
    have hpos : 1 ≤ (Nat.toDigits 10 n).length := Nat.length_toDigits_pos
    have hdigits : ∀ c ∈ Nat.toDigits 10 n, c.isDigit = true := fun c hc =>
      Nat.isDigit_of_mem_toDigits (by norm_num) (by norm_num) hc
    simp only [isNanosText, hpos, hlength, true_and, decide_eq_true_eq]
    exact all_eq_true.mpr hdigits
  cases mtime with
  | nan => rfl
  | infinite negative => rfl
  | finite negative magnitude =>
    rw [canonicalMtimeNanos]
    split
    · rfl
    · split
      · exact htext _ (Nat.le_refl _)
      · next hle => exact htext _ (Nat.le_of_not_lt hle)

lemma isSourceBatchFrom_iff (total : ℕ) (batch : List SourceUpsert)
    (htotal : total ≤ maxBatchBytes) :
    isSourceBatchFrom total batch = true ↔
      (∀ entry ∈ batch, isSourceEntry entry = true) ∧ total + batchBytes batch ≤ maxBatchBytes := by
  induction batch generalizing total with
  | nil => simp [isSourceBatchFrom, batchBytes, htotal]
  | cons entry rest ih =>
    cases entry with
    | source d bytes =>
      have hsum : batchBytes (.source d bytes :: rest) = bytes.length + batchBytes rest := rfl
      rw [isSourceBatchFrom, hsum, forall_mem_cons]
      simp only [Bool.and_eq_true, decide_eq_true_eq]
      constructor
      · rintro ⟨⟨hentry, hle⟩, hrest⟩
        obtain ⟨hall, hbytes⟩ := (ih _ hle).mp hrest
        exact ⟨⟨hentry, hall⟩, by omega⟩
      · rintro ⟨⟨hentry, hall⟩, hbytes⟩
        have hle : total + bytes.length ≤ maxBatchBytes := by omega
        exact ⟨⟨hentry, hle⟩, (ih _ hle).mpr ⟨hall, by omega⟩⟩
    | oversized d =>
      have hsum : batchBytes (.oversized d :: rest) = batchBytes rest := Nat.zero_add _
      rw [isSourceBatchFrom, hsum, forall_mem_cons, Bool.and_eq_true, ih total htotal, and_assoc]

lemma joins_iff {entry : SourceUpsert} (hbytes : batchBytes [entry] ≤ maxBatchBytes) :
    Joins entry ↔ isSourceEntry entry = true := by
  have hbatch : ∀ batch allowEmpty, isSourceBatch batch allowEmpty = true ↔
      (allowEmpty = true ∨ batch ≠ []) ∧ batch.length ≤ maxBatchSources ∧
        (∀ entry ∈ batch, isSourceEntry entry = true) ∧ batchBytes batch ≤ maxBatchBytes := by
    intro batch allowEmpty
    rw [isSourceBatch, Bool.and_eq_true, Bool.and_eq_true,
      isSourceBatchFrom_iff 0 batch (Nat.zero_le _), Nat.zero_add]
    simp [and_assoc]
  constructor
  · intro h
    have hsingle := h [] [] (by decide) (by decide) hbytes
    exact ((hbatch _ _).mp hsingle).2.2.1 entry (by simp)
  · intro hentry front back haccepted hlength hsum
    obtain ⟨-, -, hall, -⟩ := (hbatch _ _).mp haccepted
    refine (hbatch _ _).mpr ⟨.inr (by simp), ?_, ?_, hsum⟩
    · simp only [length_append, length_cons]
      omega
    · intro other hother
      rcases mem_append.mp hother with hfront | hback
      · exact hall other (mem_append_left _ hfront)
      · rcases mem_cons.mp hback with rfl | hback
        · exact hentry
        · exact hall other (mem_append_right _ hback)

lemma isReconciliationFrom_iff (paths : List Text) (sources : List ReconciliationSourceMetadata) :
    isReconciliationFrom paths sources = true ↔
      (∀ m ∈ sources, isReconciliationSource m = true ∧ m.path ∉ paths) ∧
        (sources.map (·.path)).Nodup := by
  induction sources generalizing paths with
  | nil => simp [isReconciliationFrom]
  | cons m rest ih =>
    rw [isReconciliationFrom, Bool.and_eq_true, Bool.and_eq_true, ih, decide_eq_true_eq,
      forall_mem_cons, map_cons, nodup_cons]
    constructor
    · rintro ⟨⟨hm, hnew⟩, hrest, hnodup⟩
      refine ⟨⟨⟨hm, hnew⟩, fun other hother => ?_⟩, ?_, hnodup⟩
      · obtain ⟨haccepted, hpath⟩ := hrest other hother
        exact ⟨haccepted, fun h => hpath (mem_cons_of_mem _ h)⟩
      · intro hmem
        obtain ⟨other, hother, heq⟩ := mem_map.mp hmem
        exact (hrest other hother).2 (heq ▸ mem_cons_self)
    · rintro ⟨⟨⟨hm, hnew⟩, hrest⟩, hfresh, hnodup⟩
      refine ⟨⟨hm, hnew⟩, fun other hother => ?_, hnodup⟩
      obtain ⟨haccepted, hpath⟩ := hrest other hother
      refine ⟨haccepted, fun h => ?_⟩
      rcases mem_cons.mp h with heq | h
      · exact hfresh (mem_map.mpr ⟨other, hother, heq⟩)
      · exact hpath h

lemma joinsReconciliation_of {m : ReconciliationSourceMetadata}
    (hm : isReconciliationSource m = true) : JoinsReconciliation m := by
  intro front back haccepted hlength hpaths
  rw [isReconciliationSources, Bool.and_eq_true, isReconciliationFrom_iff] at haccepted ⊢
  obtain ⟨-, hall, hnodup⟩ := haccepted
  refine ⟨by simp only [length_append, length_cons, decide_eq_true_eq]; omega, ?_, ?_⟩
  · intro other hother
    refine ⟨?_, by simp⟩
    rcases mem_append.mp hother with hfront | hback
    · exact (hall other (mem_append_left _ hfront)).1
    · rcases mem_cons.mp hback with rfl | hback
      · exact hm
      · exact (hall other (mem_append_right _ hback)).1
  · have hperm : ((front ++ m :: back).map (·.path)).Perm
        (m.path :: (front ++ back).map (·.path)) := perm_middle.map _
    refine hperm.nodup_iff.mpr (nodup_cons.mpr ⟨?_, hnodup⟩)
    intro hmem
    obtain ⟨other, hother, heq⟩ := mem_map.mp hmem
    exact hpaths other hother heq

/-- What `readSource` builds is of the bytes read, and of an indexable length. -/
theorem readSource_source {lower : Text → Text} {enabled : SourceFormat → Bool}
    {inspection : Inspection} {before : Option VaultFile} {read : Option Bytes}
    {after : Option VaultFile} {d : SourceDescriptor} {bytes : Bytes}
    (h : readSource lower enabled inspection before read after = .source d bytes) :
    d = descriptorOf inspection bytes.length ∧ bytes.length ≤ maxIndexableSourceBytes := by
  unfold readSource at h
  split at h
  · cases h
  cases before with
  | none => cases h
  | some before =>
    simp only at h
    split at h
    · cases h
    split at h
    · cases h
    cases read with
    | none => cases h
    | some content =>
      cases after with
      | none => cases h
      | some after =>
        simp only at h
        split at h
        · cases h
        split at h
        · cases h
        split at h
        · cases h
        next hsize =>
          split at h
          · cases h
          · cases h
            exact ⟨rfl, Nat.le_of_not_lt hsize⟩

/-- A descriptor of a file is accepted where its length is, and the seconds of its time are. -/
theorem isSourceDescriptor_descriptorOf {path : Text} {format : SourceFormat} {mtime : Double}
    {size byteLength : ℕ} {allowOversized : Bool}
    (hpath : isNormalizedVaultRelativePath path = true) (hsafe : byteLength ≤ Double.maxSafe)
    (hlimit : allowOversized = true ∨ byteLength ≤ maxSourceBytes) :
    isSourceDescriptor (descriptorOf ⟨path, format, size, mtime⟩ byteLength) allowOversized = true ↔
      InRange mtime := by
  have hvault : isBoundedText activeVaultId 1024 = true := by decide
  have hbounded : isBoundedText path 4096 = true := by
    rw [isNormalizedVaultRelativePath] at hpath
    exact (of_decide_eq_true hpath).1
  have hnanos := canonicalMtimeNanos_digits mtime
  rw [InRange, ← Double.floor_div_safe_iff mtime (by norm_num : 0 < 1000)]
  simp only [isSourceDescriptor, Bool.and_eq_true, Bool.or_eq_true, decide_eq_true_eq]
  constructor
  · exact fun h => h.1.2
  · exact fun h => ⟨⟨⟨⟨⟨⟨hvault, rfl⟩, hbounded⟩, hsafe⟩, hlimit⟩, h⟩, hnanos⟩

/-- A time never blocks exactly when its seconds are accepted: the digits of its nanoseconds always
are. -/
theorem neverBlocks_iff (lower : Text → Text) (enabled : SourceFormat → Bool) {path : Text}
    (format : SourceFormat) (mtime : Double) (hpath : isNormalizedVaultRelativePath path = true) :
    NeverBlocks lower enabled path format mtime ↔ InRange mtime := by
  constructor
  · intro h
    -- one byte too many is a length every such file can have
    have hjoins := h.oversized maxSourceBytes (by decide) (by decide)
    rw [oversizedInput, joins_iff (Nat.zero_le _), isSourceEntry, Bool.and_eq_true] at hjoins
    have hsafe : maxSourceBytes ≤ Double.maxSafe := by decide
    exact (isSourceDescriptor_descriptorOf hpath hsafe (.inl rfl)).mp hjoins.1
  · intro hrange
    constructor
    · intro size before read after d bytes hread
      obtain ⟨rfl, hlength⟩ := readSource_source hread
      have hbatch : bytes.length ≤ maxBatchBytes := hlength.trans (by decide)
      have hsource : bytes.length ≤ maxSourceBytes := hlength.trans (by decide)
      rw [joins_iff (by simpa [batchBytes] using hbatch), isSourceEntry,
        (isSourceDescriptor_descriptorOf hpath (hlength.trans (by decide)) (.inr hsource)).mpr
          hrange]
      simp [descriptorOf, hsource]
    · intro size hsize hsafe
      rw [oversizedInput, joins_iff (Nat.zero_le _), isSourceEntry,
        (isSourceDescriptor_descriptorOf hpath hsafe (.inl rfl)).mpr hrange, Bool.true_and]
      exact decide_eq_true hsize
    · intro size candidate hsafe
      apply joinsReconciliation_of
      rw [isReconciliationSource, inspectionMetadata, hpath, canonicalMtimeNanos_digits]
      simp [hsafe]

/-- A time of a second and a half and half a millisecond. -/
theorem neverBlocks_fraction :
    NeverBlocks id (fun _ => true) "a.md".toList .markdown (.finite false (3001 / 2)) :=
  (neverBlocks_iff id (fun _ => true) .markdown _ (by decide)).mpr
    ⟨false, 3001 / 2, rfl, by norm_num⟩

/-- One millisecond before the epoch is minus one second, which is not accepted. -/
theorem beforeEpoch_blocks :
    ¬ ∀ (lower : Text → Text) (enabled : SourceFormat → Bool) (path : Text) (format : SourceFormat)
      (mtime : Double), isNormalizedVaultRelativePath path = true →
        NeverBlocks lower enabled path format mtime := by
  intro h
  have hnever := h id (fun _ => true) "a.md".toList .markdown (.finite true 1) (by decide)
  have hjoins := hnever.oversized maxSourceBytes (by decide) (by decide)
  rw [oversizedInput, joins_iff (Nat.zero_le _), isSourceEntry, Bool.and_eq_true] at hjoins
  obtain ⟨negative, magnitude, heq, hle⟩ :=
    (isSourceDescriptor_descriptorOf (by decide) (by decide) (.inl rfl)).mp hjoins.1
  cases heq
  have hone : (1 : ℚ) ≤ 1000 * 2 ^ (-1075 : ℤ) := by simpa using hle
  have hsmall : (2 : ℚ) ^ (-1075 : ℤ) ≤ 2 ^ (-10 : ℤ) :=
    zpow_le_zpow_right₀ (by norm_num) (by norm_num)
  have hten : (2 : ℚ) ^ (-10 : ℤ) = 1 / 1024 := by norm_num
  rw [hten] at hsmall
  linarith

end Kwiry.Plugin.Vault
