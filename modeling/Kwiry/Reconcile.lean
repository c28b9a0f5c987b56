import Std.Data.ExtTreeSet.Lemmas
import Kwiry.Manifest

/-!
# Reconciliation Plans

`reconcile.rs`: which sources a pass reads, what it does with each, and the plan the
decisions accumulate in.

A plan is read one key at a time: `ReconcilePlan.view` is what it holds about a key, every
plan operation changes the view of its own key only, and the operations' effects on the
view are the lemmas the managers' loops are analysed with.
-/

namespace Kwiry

open Foundations List

/-! ## §1 Scopes and decisions -/

inductive PartitionScope where
  | whole
  | resource (key : ResourceKey)
  deriving DecidableEq

def PartitionScope.components : PartitionScope → List Text
  | whole => []
  | resource key => key.components

lemma PartitionScope.components_injective : Function.Injective PartitionScope.components := by
  intro a b h
  cases a with
  | whole =>
    cases b with
    | whole => rfl
    | resource key => cases h
  | resource key =>
    cases b with
    | whole => cases h
    | resource other => rw [ResourceKey.components_injective h]

instance : Ord PartitionScope := ⟨compareOn PartitionScope.components⟩

instance : Std.TransOrd PartitionScope :=
  inferInstanceAs (Std.TransCmp (compareOn PartitionScope.components))

instance : Std.LawfulEqOrd PartitionScope :=
  lawfulEqCmp_compareOn PartitionScope.components PartitionScope.components_injective

inductive ChangeReason where
  | new | contentHashChanged | registrationFingerprintChanged | resourceChanged
  | outcomeChanged | formatIdentityChanged

inductive RetentionReason where
  | vaultUnavailable | transientReadError | incompleteEnumeration

inductive SourceDecision where
  | unchanged
  | reingest (reason : ChangeReason)

/-- What a pass may look at; paths can only force reads. -/
inductive ReconcileScope where
  | full
  | paths (evidence : List (Str × Str))
  deriving DecidableEq

inductive ReadReason where
  | strictHash | newSource | registrationChanged | extractionProfileChanged | resourceChanged
  | sizeChanged | mtimeChanged | racyTimestamp | audit | semanticBackfill | watchEvent
  deriving DecidableEq

inductive ObservationDecision where
  | readHash (reason : ReadReason)
  | reuseMetadata
  deriving DecidableEq

structure ObservationPolicy where
  basis : IndexFreshnessBasis
  (nowNanos racyWindowNanos : ℕ)

structure SourceSignals where
  (forcedRead semanticBackfill : Bool)

variable (B : Build)

/-- Whether a source's metadata stands in for its bytes, or why not. -/
def planObservation (previous : Option ManifestFile) (file : DiscoveredFile)
    (fingerprint : Digest) (scope : PartitionScope) (previousScope : Option PartitionScope)
    (policy : ObservationPolicy) (signals : SourceSignals) : ObservationDecision :=
  if policy.basis = .strictHash then .readHash .strictHash
  else
    match previous with
    | none => .readHash .newSource
    | some previous =>
      if previousScope.any (· ≠ scope) then .readHash .resourceChanged
      else if previous.registrationFingerprint ≠ fingerprint then .readHash .registrationChanged
      else if !previous.identityMatches B then .readHash .extractionProfileChanged
      else if previous.byteLength ≠ file.byteLength then .readHash .sizeChanged
      else if previous.mtimeNanos ≠ file.mtimeNanos then .readHash .mtimeChanged
      else if signals.forcedRead then .readHash .watchEvent
      else if signals.semanticBackfill then .readHash .semanticBackfill
      else if policy.nowNanos - file.mtimeNanos ≤ policy.racyWindowNanos then
        .readHash .racyTimestamp
      else .reuseMetadata

/-- Whether a source that was read has to be ingested again, and why. -/
def planSource (previous : Option ManifestFile) (next : ManifestFile) (scope : PartitionScope)
    (previousScope : Option PartitionScope) : SourceDecision :=
  match previous with
  | none => .reingest .new
  | some previous =>
    if previousScope.any (· ≠ scope) then .reingest .resourceChanged
    else if previous.registrationFingerprint ≠ next.registrationFingerprint then
      .reingest .registrationFingerprintChanged
    else if !previous.identityMatches B then .reingest .formatIdentityChanged
    else if previous.outcome ≠ next.outcome then .reingest .outcomeChanged
    else if previous.contentHash ≠ next.contentHash then .reingest .contentHashChanged
    else .unchanged

variable {previousScope : Option PartitionScope} {previous : Option ManifestFile}
  {scope : PartitionScope} {next : ManifestFile}

variable {B} in
/-- An unchanged source has a row that agrees on scope, registration, identity, outcome and content;
nothing else is compared. -/
theorem planSource_unchanged_iff :
    planSource B previous next scope previousScope = .unchanged ↔
      ∃ row, previous = some row ∧ previousScope.any (· ≠ scope) = false ∧
        row.registrationFingerprint = next.registrationFingerprint ∧
        row.identityMatches B = true ∧ row.outcome = next.outcome ∧
        row.contentHash = next.contentHash := by
  cases previous with
  | none => simp [planSource]
  | some row =>
    simp only [planSource, Option.some.injEq]
    constructor
    · intro h
      refine ⟨row, rfl, ?_⟩
      split at h
      · cases h
      split at h
      · cases h
      split at h
      · cases h
      split at h
      · cases h
      split at h
      · cases h
      simp_all
    · rintro ⟨row', rfl, hscope, hfp, hid, hout, hhash⟩
      simp only [hscope, hfp, hid, hout, hhash, ne_eq, not_true_eq_false, Bool.not_true,
        Bool.false_eq_true, if_false]

/-! ## §2 The rolling audit -/

structure AuditBudget where
  (cursor remainingSources remainingBytes : ℕ)

/-- The state of one selection: the budget, how many candidates were examined, and the keys
    taken. -/
structure AuditSelection where
  budget : AuditBudget
  examined : ℕ
  selected : Std.ExtTreeSet SourceKey

namespace AuditBudget

/-- At most `left` more candidates are examined, while sources remain. -/
def selectLoop (candidates : List (SourceKey × ℕ)) (start : ℕ) :
    ℕ → AuditSelection → AuditSelection
  | 0, selection => selection
  | left + 1, selection =>
    if selection.budget.remainingSources = 0 then
      selection
    else
      match candidates[(start + selection.examined) % candidates.length]? with
      | none => selection
      | some (key, byteLength) =>
        let selection := { selection with examined := selection.examined + 1 }
        if selection.budget.remainingBytes < byteLength then
          selectLoop candidates start left selection
        else
          selectLoop candidates start left
            { selection with
              budget :=
                { selection.budget with
                  remainingSources := selection.budget.remainingSources - 1
                  remainingBytes := selection.budget.remainingBytes - byteLength }
              selected := selection.selected.insert key }

def select (budget : AuditBudget) (candidates : List (SourceKey × ℕ)) :
    AuditBudget × Std.ExtTreeSet SourceKey :=
  if candidates.isEmpty || budget.remainingSources = 0 then
    (budget, ∅)
  else
    let start := budget.cursor % candidates.length
    let selection := selectLoop candidates start candidates.length ⟨budget, 0, ∅⟩
    ({ selection.budget with
        cursor := (start + selection.examined) % candidates.length },
      selection.selected)

end AuditBudget

/-! ## §3 Plans -/

abbrev PlannedChunk := PreparedChunk × RetrievalMetadata

def PlannedChunk.sourceKey (planned : PlannedChunk) : SourceKey :=
  planned.1.sourceKey B

structure ReconcilePlan where
  nextManifest : Manifest
  retained : Std.ExtTreeMap SourceKey RetentionReason
  deletes : Std.ExtTreeMap PartitionScope (Std.ExtTreeSet SourceKey)
  additions : Std.ExtTreeMap PartitionScope (List PlannedChunk)
  changedSources : Std.ExtTreeSet SourceKey

namespace ReconcilePlan

def new (previous : Manifest) : ReconcilePlan where
  nextManifest := previous
  retained := ∅
  deletes := ∅
  additions := ∅
  changedSources := ∅

section

variable (plan : ReconcilePlan)

/-- The keys deleted in a scope. -/
def deletesAt (scope : PartitionScope) : Std.ExtTreeSet SourceKey :=
  plan.deletes.getD scope ∅

/-- The chunks added in a scope. -/
def additionsAt (scope : PartitionScope) : List PlannedChunk :=
  plan.additions.getD scope []

def insertRow (key : SourceKey) (row : ManifestFile) : ReconcilePlan :=
  { plan with
    nextManifest :=
      { plan.nextManifest with files := plan.nextManifest.files.insert key row } }

def insertDelete (scope : PartitionScope) (key : SourceKey) : ReconcilePlan :=
  { plan with deletes := plan.deletes.insert scope ((plan.deletesAt scope).insert key) }

def retainSource (key : SourceKey) (previous : ManifestFile) (reason : RetentionReason) :
    ReconcilePlan :=
  { plan.insertRow key previous.retained with
    retained := plan.retained.insert key reason }

def reconcileSource (key : SourceKey) (previous : Option ManifestFile) (next : ManifestFile)
    (scope : PartitionScope) (previousScope : Option PartitionScope) (chunks : List PlannedChunk) :
    ReconcilePlan :=
  match planSource B previous next scope previousScope with
  | .unchanged => plan.insertRow key next
  | .reingest _ =>
    let changed := { plan with changedSources := plan.changedSources.insert key }
    let deleteScope := previousScope.getD scope
    let deleted := changed.insertDelete deleteScope key
    let deleted := if deleteScope ≠ scope then deleted.insertDelete scope key else deleted
    let added :=
      { deleted with
        additions := deleted.additions.insert scope (deleted.additionsAt scope ++ chunks) }
    added.insertRow key next

def removeManifestSource (key : SourceKey) : ReconcilePlan :=
  { plan with
    nextManifest :=
      { plan.nextManifest with files := plan.nextManifest.files.erase key }
    changedSources := plan.changedSources.insert key }

def removeIndexSource (key : SourceKey) (scope : PartitionScope) : ReconcilePlan :=
  { plan.insertDelete scope key with
    changedSources := plan.changedSources.insert key }

def removeSource (key : SourceKey) (scope : PartitionScope) : ReconcilePlan :=
  (plan.removeManifestSource key).removeIndexSource key scope

def updateScopes : List PartitionScope :=
  plan.deletes.keys ++ plan.additions.keys

def changedSourceCount : ℕ :=
  plan.changedSources.size

def addedChunkCount : ℕ :=
  (plan.additions.values.map length).sum

/-- A retained source missing from the candidate manifest is refused. -/
def validateRetention : Except Error Unit :=
  match plan.retained.keys.find? fun key => key ∉ plan.nextManifest.files with
  | some key =>
    .error (.state ("retained source " ++ hexDigest key ++
      " is missing from the candidate manifest"))
  | none => .ok ()

end

end ReconcilePlan

/-! ## §4 A plan at one key -/

/-- What a plan holds about one source key. -/
@[ext] structure KeyView where
  row : Option ManifestFile
  deleted : PartitionScope → Bool
  added : PartitionScope → List PlannedChunk

namespace KeyView

/-- Nothing planned yet for a key with the given row. -/
def initial (row : Option ManifestFile) : KeyView :=
  ⟨row, fun _ => false, fun _ => []⟩

def setRow (view : KeyView) (row : Option ManifestFile) : KeyView :=
  { view with row := row }

def delete (view : KeyView) (scope : PartitionScope) : KeyView :=
  { view with deleted := fun s => view.deleted s || s = scope }

def add (view : KeyView) (scope : PartitionScope) (chunks : List PlannedChunk) : KeyView :=
  { view with added := fun s => if s = scope then view.added s ++ chunks else view.added s }

lemma setRow_eq_self {view : KeyView} {row : Option ManifestFile} (h : view.row = row) :
    view.setRow row = view := by
  subst h
  rfl

lemma foldl_delete (scopes : List PartitionScope) (view : KeyView) :
    scopes.foldl delete view =
      { view with deleted := fun s => view.deleted s || s ∈ scopes } := by
  induction scopes generalizing view with
  | nil => simp
  | cons scope rest ih =>
    rw [foldl_cons, ih]
    ext s <;> simp [delete, Bool.or_assoc]

/-- The effect of `reconcileSource` on its own key. -/
def reconcile (view : KeyView) (previous : Option ManifestFile) (next : ManifestFile)
    (scope : PartitionScope) (previousScope : Option PartitionScope)
    (chunks : List PlannedChunk) : KeyView :=
  match planSource B previous next scope previousScope with
  | .unchanged => view.setRow (some next)
  | .reingest _ =>
    (((view.delete (previousScope.getD scope)).delete scope).add scope chunks).setRow (some next)

end KeyView

variable {chunks : List PlannedChunk}

namespace ReconcilePlan

/-- The plan at a key. -/
def view (plan : ReconcilePlan) (key : SourceKey) : KeyView where
  row := plan.nextManifest.files[key]?
  deleted scope := (plan.deletesAt scope).contains key
  added scope := (plan.additionsAt scope).filter fun planned => planned.sourceKey B = key

variable {B} {plan : ReconcilePlan} {key k : SourceKey}

lemma view_new (previous : Manifest) (k : SourceKey) :
    (new previous).view B k = KeyView.initial previous.files[k]? := by
  ext scope <;> simp [view, new, KeyView.initial, deletesAt, additionsAt]

lemma view_insertRow (row : ManifestFile) :
    (plan.insertRow key row).view B k =
      if key = k then (plan.view B k).setRow (some row) else plan.view B k := by
  split
  · subst k
    simp [view, insertRow, KeyView.setRow, deletesAt, additionsAt]
  · rename_i hne
    simp [view, insertRow, deletesAt, additionsAt, Std.ExtTreeMap.getElem?_insert, hne]

lemma view_eraseRow :
    (plan.removeManifestSource key).view B k =
      if key = k then (plan.view B k).setRow none else plan.view B k := by
  split
  · subst k
    simp [view, removeManifestSource, KeyView.setRow, deletesAt, additionsAt]
  · rename_i hne
    simp [view, removeManifestSource, deletesAt, additionsAt, Std.ExtTreeMap.getElem?_erase, hne]

lemma deletesAt_insertDelete (scope s : PartitionScope) :
    (plan.insertDelete scope key).deletesAt s =
      if scope = s then (plan.deletesAt s).insert key else plan.deletesAt s := by
  simp only [deletesAt, insertDelete, Std.ExtTreeMap.getD_insert, Std.LawfulEqCmp.compare_eq_iff_eq]
  split
  · subst s
    rfl
  · rfl

lemma view_insertDelete (scope : PartitionScope) :
    (plan.insertDelete scope key).view B k =
      if key = k then (plan.view B k).delete scope else plan.view B k := by
  have hadd : ∀ s, (plan.insertDelete scope key).additionsAt s = plan.additionsAt s :=
    fun _ => rfl
  split
  · subst k
    ext s
    · rfl
    · simp only [view, KeyView.delete, deletesAt_insertDelete]
      by_cases hs : scope = s
      · simp [hs]
      · simp [hs, Ne.symm hs]
    · simp [view, KeyView.delete, hadd]
  · rename_i hne
    ext s
    · rfl
    · simp only [view, deletesAt_insertDelete]
      by_cases hs : scope = s
      · simp [hs, hne]
      · simp [hs]
    · simp [view, hadd]

lemma view_retainSource (previous : ManifestFile) (reason : RetentionReason) :
    (plan.retainSource key previous reason).view B k =
      if key = k then (plan.view B k).setRow (some previous) else plan.view B k := by
  have hview : (plan.retainSource key previous reason).view B k =
      (plan.insertRow key previous).view B k := rfl
  rw [hview, view_insertRow]

lemma view_removeIndexSource (scope : PartitionScope) :
    (plan.removeIndexSource key scope).view B k =
      if key = k then (plan.view B k).delete scope else plan.view B k := by
  have hview : (plan.removeIndexSource key scope).view B k =
      (plan.insertDelete scope key).view B k := rfl
  rw [hview, view_insertDelete]

/-- Deleting in several scopes. -/
theorem view_removeIndexSource_foldl (scopes : List PartitionScope) (plan : ReconcilePlan)
    (key k : SourceKey) :
    (scopes.foldl (fun plan scope => plan.removeIndexSource key scope) plan).view B k =
      if key = k then scopes.foldl KeyView.delete (plan.view B k) else plan.view B k := by
  induction scopes generalizing plan with
  | nil => simp
  | cons scope rest ih =>
    rw [foldl_cons, ih, view_removeIndexSource, foldl_cons]
    split <;> rfl

lemma view_removeSource (scope : PartitionScope) :
    (plan.removeSource key scope).view B k =
      if key = k then ((plan.view B k).setRow none).delete scope else plan.view B k := by
  rw [removeSource, view_removeIndexSource, view_eraseRow]
  split <;> rfl

lemma view_add (scope : PartitionScope)
    (hchunks : ∀ planned ∈ chunks, planned.sourceKey B = key) :
    ({ plan with
        additions := plan.additions.insert scope (plan.additionsAt scope ++ chunks) } :
      ReconcilePlan).view B k =
      if key = k then (plan.view B k).add scope chunks else plan.view B k := by
  have hadd : ∀ s, ({ plan with
        additions := plan.additions.insert scope (plan.additionsAt scope ++ chunks) } :
      ReconcilePlan).additionsAt s =
      if scope = s then plan.additionsAt s ++ chunks else plan.additionsAt s := by
    intro s
    simp only [additionsAt, Std.ExtTreeMap.getD_insert, Std.LawfulEqCmp.compare_eq_iff_eq]
    split
    · subst s
      rfl
    · rfl
  split
  · subst k
    have hkeep : (chunks.filter fun planned => planned.sourceKey B = key) = chunks := by
      rw [filter_eq_self]
      intro planned hmem
      simpa using hchunks planned hmem
    ext s
    · rfl
    · rfl
    · simp only [view, hadd, KeyView.add]
      by_cases hs : scope = s
      · simp [hs, hkeep]
      · simp [hs, Ne.symm hs]
  · rename_i hne
    have hdrop : (chunks.filter fun planned => planned.sourceKey B = k) = [] := by
      rw [filter_eq_nil_iff]
      intro planned hmem
      simp [hchunks planned hmem, hne]
    ext s
    · rfl
    · rfl
    · simp only [view, hadd]
      by_cases hs : scope = s
      · simp [hs, hdrop]
      · simp [hs]

lemma view_reconcileSource (hchunks : ∀ planned ∈ chunks, planned.sourceKey B = key) :
    (plan.reconcileSource B key previous next scope previousScope chunks).view B k =
      if key = k then (plan.view B k).reconcile B previous next scope previousScope chunks
      else plan.view B k := by
  unfold reconcileSource KeyView.reconcile
  cases planSource B previous next scope previousScope with
  | unchanged => exact view_insertRow next
  | reingest reason =>
    simp only
    rw [view_insertRow, view_add scope hchunks]
    have hdelete : ∀ p : ReconcilePlan, (p.insertDelete (previousScope.getD scope) key).view B k =
        (if key = k then (p.view B k).delete (previousScope.getD scope) else p.view B k) :=
      fun p => view_insertDelete _
    -- deleting twice in one scope is deleting once, so the second deletion is unconditional
    have htwice : ((if previousScope.getD scope ≠ scope then
          ({ plan with changedSources := plan.changedSources.insert key }.insertDelete
            (previousScope.getD scope) key).insertDelete scope key
        else { plan with changedSources := plan.changedSources.insert key }.insertDelete
            (previousScope.getD scope) key).view B k) =
        if key = k then ((plan.view B k).delete (previousScope.getD scope)).delete scope
        else plan.view B k := by
      have hchanged : ({ plan with changedSources := plan.changedSources.insert key } :
        ReconcilePlan).view B k = plan.view B k := rfl
      by_cases hscope : previousScope.getD scope = scope
      · simp only [hscope, ne_eq, not_true_eq_false, if_false, view_insertDelete, hchanged]
        split
        · ext s <;> simp [KeyView.delete]
        · rfl
      · simp only [ne_eq, hscope, not_false_eq_true, if_true, view_insertDelete, hchanged]
        split <;> rfl
    rw [htwice]
    split <;> rfl

end ReconcilePlan

/-! ## §5 Every update is counted

A pass publishes when its counts say that something changed, so an update that is not
counted would be lost. -/

namespace ReconcilePlan

/-- Every deletion and every addition is of a source counted as changed. -/
structure Counted (plan : ReconcilePlan) : Prop where
  deletes : ∀ scope key, (plan.deletesAt scope).contains key = true →
    plan.changedSources.contains key = true
  additions : ∀ scope, ∀ planned ∈ plan.additionsAt scope,
    plan.changedSources.contains (planned.sourceKey B) = true

variable {B} {plan : ReconcilePlan} {key : SourceKey}

lemma counted_new (previous : Manifest) : (new previous).Counted B where
  deletes scope key h := by simp [new, deletesAt] at h
  additions scope planned h := by simp [new, additionsAt] at h

lemma Counted.insertRow (h : plan.Counted B) (row : ManifestFile) :
    (plan.insertRow key row).Counted B :=
  ⟨h.deletes, h.additions⟩

lemma Counted.retainSource (h : plan.Counted B) (row : ManifestFile)
    (reason : RetentionReason) : (plan.retainSource key row reason).Counted B :=
  ⟨h.deletes, h.additions⟩

lemma Counted.count (h : plan.Counted B) (key : SourceKey) :
    ({ plan with changedSources := plan.changedSources.insert key } : ReconcilePlan).Counted B where
  deletes scope k hk := by
    simp only [Std.ExtTreeSet.contains_insert, Bool.or_eq_true]
    exact .inr (h.deletes scope k hk)
  additions scope planned hmem := by
    simp only [Std.ExtTreeSet.contains_insert, Bool.or_eq_true]
    exact .inr (h.additions scope planned hmem)

lemma Counted.insertDelete (h : plan.Counted B)
    (hkey : plan.changedSources.contains key = true) (scope : PartitionScope) :
    (plan.insertDelete scope key).Counted B where
  deletes s k hk := by
    rw [deletesAt_insertDelete] at hk
    split at hk
    · rw [Std.ExtTreeSet.contains_insert, Bool.or_eq_true, beq_iff_eq,
        Std.LawfulEqCmp.compare_eq_iff_eq] at hk
      rcases hk with rfl | hk
      · exact hkey
      · exact h.deletes s k hk
    · exact h.deletes s k hk
  additions := h.additions

lemma Counted.addChunks (h : plan.Counted B) (scope : PartitionScope)
    (hchunks : ∀ planned ∈ chunks, planned.sourceKey B = key)
    (hkey : plan.changedSources.contains key = true) :
    ({ plan with
      additions := plan.additions.insert scope (plan.additionsAt scope ++ chunks) } :
        ReconcilePlan).Counted B where
  deletes := h.deletes
  additions s planned hmem := by
    simp only [additionsAt, Std.ExtTreeMap.getD_insert, Std.LawfulEqCmp.compare_eq_iff_eq] at hmem
    split at hmem
    · rcases mem_append.mp hmem with hmem | hmem
      · exact h.additions scope planned hmem
      · rw [hchunks planned hmem]
        exact hkey
    · exact h.additions s planned hmem

lemma contains_count : (plan.changedSources.insert key).contains key = true := by
  simp

lemma Counted.reconcileSource (h : plan.Counted B)
    (hchunks : ∀ planned ∈ chunks, planned.sourceKey B = key) :
    (plan.reconcileSource B key previous next scope previousScope chunks).Counted B := by
  unfold ReconcilePlan.reconcileSource
  cases planSource B previous next scope previousScope with
  | unchanged => exact h.insertRow next
  | reingest reason =>
    have hcount := h.count key
    have hdeleted := hcount.insertDelete contains_count (previousScope.getD scope)
    refine Counted.insertRow (Counted.addChunks ?_ scope hchunks ?_) next
    · split
      · exact hdeleted.insertDelete contains_count scope
      · exact hdeleted
    · split <;> exact contains_count

lemma Counted.removeManifestSource (h : plan.Counted B) :
    (plan.removeManifestSource key).Counted B :=
  ⟨(h.count key).deletes, (h.count key).additions⟩

lemma Counted.removeIndexSource (h : plan.Counted B) (scope : PartitionScope) :
    (plan.removeIndexSource key scope).Counted B := by
  have hdeleted := (h.count key).insertDelete contains_count scope
  exact ⟨hdeleted.deletes, hdeleted.additions⟩

lemma Counted.view_of_unchanged (h : plan.Counted B) (hzero : plan.changedSourceCount = 0)
    (k : SourceKey) : plan.view B k = KeyView.initial plan.nextManifest.files[k]? := by
  have hempty : ∀ key, plan.changedSources.contains key = false := by
    intro key
    have hnil : plan.changedSources = ∅ := Std.ExtTreeSet.eq_empty_iff_size_eq_zero.mpr hzero
    simp [hnil]
  ext scope
  · rfl
  · simp only [view, KeyView.initial]
    rw [← Bool.not_eq_true]
    intro hdeleted
    exact absurd (h.deletes scope k hdeleted) (by simp [hempty])
  · simp only [view, KeyView.initial]
    have hnil : plan.additionsAt scope = [] := by
      rw [eq_nil_iff_forall_not_mem]
      intro planned hmem
      exact absurd (h.additions scope planned hmem) (by simp [hempty])
    simp [hnil]

end ReconcilePlan

end Kwiry
