import Kwiry.Plugin.ReconciliationPlan
import Kwiry.Plugin.SourceRows

/-!
# Plans Converge

A plan is followed by batches that prepare what it wants refreshed, from the files as the plan saw
them, and remove what it wants removed. Every file then has a row that settles it, unless its
preparation was put in quarantine, and no row is left without a file. So the next plan over the same
files refreshes quarantined sources alone and removes nothing.
-/

namespace Kwiry.Plugin

open Foundations List

variable {R C : Type} {A : RustAdapter R C}

/-! ## §1 What a preparation keeps -/

variable {preparation : SourcePreparation}

/-- Bytes within the limit are always hashed. -/
theorem contentHash_prepareSourceBuffer {B : Build} {descriptor : SourceDescriptor} {bytes : Bytes}
    (hfits : bytes.length ≤ maxFileBytes)
    (h : prepareSourceBuffer B descriptor bytes = .ok preparation) :
    preparation.contentHash = some (B.hash.digest bytes) := by
  unfold prepareSourceBuffer at h
  obtain ⟨-, -, h⟩ := bind_ok_iff.mp h
  dsimp only at h
  split at h
  · cases h
  · rw [if_neg (by omega)] at h
    split at h
    · cases h
      rfl
    · split at h
      · cases h
        rfl
      · split at h <;> cases h <;> rfl

namespace RustAdapter

/-- A source whose preparation the validator rejects. -/
def Quarantines (A : RustAdapter R C) (upsert : SourceUpsert) : Prop :=
  ∃ field, A.prepareSourceUpsert upsert = .error (.defect field)

/-- A preparation of a source: as the runtime made it, or in quarantine. -/
inductive Prepares (A : RustAdapter R C) (upsert : SourceUpsert) :
    PreparedSource (SourceMetadata R) C → Prop where
  | received (preparation : SourcePreparation)
      (h : A.prepareSourceUpsert upsert = .ok preparation) :
      Prepares A upsert (A.received upsert preparation)
  | quarantined (h : A.Quarantines upsert) : Prepares A upsert (A.quarantinedPreparation upsert)

lemma prepareOne_ok {batch batch' : PreparedSourceBatch R C} {upsert : SourceUpsert}
    (h : A.prepareOne batch upsert = .ok batch') :
    ∃ prepared, A.Prepares upsert prepared ∧
      batch'.preparations = batch.preparations ++ [prepared] := by
  unfold prepareOne at h
  split at h
  next preparation hprepare =>
    obtain ⟨-, hresult⟩ := bind_unit_ok_iff.mp h
    cases hresult
    exact ⟨_, .received preparation hprepare, rfl⟩
  next field hdefect =>
    cases h
    exact ⟨_, .quarantined ⟨field, hdefect⟩, rfl⟩
  next => cases h

/-- A batch has a preparation for each of its sources, in their order. -/
theorem prepareSourceBatch_ok {sources : List SourceUpsert} {batch : PreparedSourceBatch R C}
    (h : A.prepareSourceBatch sources = .ok batch) :
    List.Forall₂ A.Prepares sources batch.preparations := by
  suffices hgeneral : ∀ (start : PreparedSourceBatch R C),
      sources.foldlM A.prepareOne start = .ok batch → ∃ added, Forall₂ A.Prepares sources added ∧
          batch.preparations = start.preparations ++ added by
    obtain ⟨added, hadded, heq⟩ := hgeneral _ h
    rw [heq]
    exact hadded
  clear h
  induction sources with
  | nil =>
    intro start h
    cases h
    exact ⟨[], .nil, by simp⟩
  | cons upsert rest ih =>
    intro start h
    obtain ⟨next, hone, hrest⟩ := foldlM_cons_ok _ h
    obtain ⟨prepared, hprepares, hnext⟩ := prepareOne_ok hone
    obtain ⟨added, hadded, heq⟩ := ih next hrest
    exact ⟨prepared :: added, .cons hprepares hadded, by simp [heq, hnext]⟩

end RustAdapter

/-- The most a file may have to be read and indexed. -/
def maxIndexableSourceBytes : ℕ := 10 * 1024 * 1024

/-- An indexable file comes with its bytes, read up to the limit, any other as too large. -/
def SourceUpsert.ReadAs (indexable : Bool) : SourceUpsert → Prop
  | .bytes _ content => indexable = true ∧ content.length ≤ maxIndexableSourceBytes
  | .oversized _ => indexable = false

/-- A source of a batch made from a file as a plan saw it. -/
structure SourceUpsert.Carries (upsert : SourceUpsert) (source : ReconciliationSourceMetadata) :
    Prop where
  path : upsert.descriptor.path.chars = source.path
  byteLength : upsert.descriptor.byteLength = source.byteLength
  mtimeNanos : decimal upsert.descriptor.mtimeNanos = source.mtimeNanos
  content : upsert.ReadAs source.indexable

lemma requireSourcePreparation_ok {preparation' : SourcePreparation}
    (h : A.requireSourcePreparation preparation = .ok preparation') :
    preparation' = preparation := by
  unfold RustAdapter.requireSourcePreparation at h
  split at h
  · cases h
  · cases h
    rfl

lemma mapError_ok_iff {E E' T : Type} {f : E → E'} {x : Except E T} {t : T} :
    x.mapError f = .ok t ↔ x = .ok t := by
  cases x with
  | error e | ok value => simp [Except.mapError]

/-- Where a preparation comes from: bytes are prepared, what is too large is skipped unread. -/
def Content (A : RustAdapter R C) (preparation : SourcePreparation) : SourceUpsert → Prop
  | .bytes descriptor bytes => prepareSourceBuffer A.build descriptor bytes = .ok preparation
  | .oversized _ => preparation.kind = .skipped ∧ preparation.contentHash = none

/-- What the runtime says of a source, when the adapter takes it. -/
theorem prepareSourceUpsert_ok {upsert : SourceUpsert}
    (h : A.prepareSourceUpsert upsert = .ok preparation) :
    preparation.Describes A.build upsert.descriptor ∧ Content A preparation upsert := by
  cases upsert with
  | bytes descriptor bytes =>
    obtain ⟨prepared, hprepared, hrequire⟩ := bind_ok_iff.mp h
    rw [mapError_ok_iff] at hprepared
    rw [requireSourcePreparation_ok hrequire]
    exact ⟨prepareSourceBuffer_describes A.build hprepared, hprepared⟩
  | oversized descriptor =>
    obtain ⟨prepared, hprepared, h⟩ := bind_ok_iff.mp h
    obtain ⟨required, hrequire, h⟩ := bind_ok_iff.mp h
    obtain ⟨haccept, hresult⟩ := bind_unit_ok_iff.mp h
    cases hresult
    rw [mapError_ok_iff] at hprepared
    rw [requireSourcePreparation_ok hrequire] at haccept ⊢
    simp only [rejectIf_ok, not_or, not_not] at haccept
    exact ⟨prepareOversizedSource_describes A.build hprepared, haccept.1, haccept.2.1⟩

section

variable {upsert : SourceUpsert} {prepared : PreparedSource (SourceMetadata R) C}
  (h : A.Prepares upsert prepared)

include h

/-- The row of a prepared file settles it, unless the preparation is in quarantine. -/
theorem RustAdapter.Prepares.settles {source : ReconciliationSourceMetadata}
    (hcarries : upsert.Carries source) {row : StoredSource (SourceMetadata R)}
    (hrow : RowOf prepared row) : A.Quarantines upsert ∨ standing source (some row) ≠ .refresh := by
  cases h with
  | quarantined h => exact .inl h
  | received preparation h =>
    right
    obtain ⟨hdescribes, hcontent⟩ := prepareSourceUpsert_ok h
    have hsame : SameMetadata source row := by
      rw [SameMetadata, hrow.metadata, ← hcarries.byteLength, ← hcarries.mtimeNanos,
        ← hdescribes.byteLength, ← hdescribes.mtimeNanos]
      exact ⟨rfl, rfl⟩
    have hcase := hcarries.content
    refine standing_ne_refresh.mpr ⟨hsame, ?_⟩
    cases upsert with
    | bytes descriptor bytes =>
      have hhash := contentHash_prepareSourceBuffer hcase.2 hcontent
      refine .inr ⟨hcase.1, ?_⟩
      rw [hrow.contentHash]
      simp [RustAdapter.received, hhash]
    | oversized descriptor =>
      refine .inl ⟨hcase, wasOversized_iff.mpr ⟨?_, ?_⟩⟩
      · rw [hrow.outcome]
        simp [RustAdapter.received, hcontent.1]
      · rw [hrow.contentHash]
        simp [RustAdapter.received, hcontent.2]

lemma RustAdapter.Prepares.identity :
    prepared.vaultId = upsert.descriptor.vaultId.chars ∧
      prepared.path = upsert.descriptor.path.chars := by
  cases h with
  | quarantined h => exact ⟨rfl, rfl⟩
  | received preparation h =>
    obtain ⟨hdescribes, -⟩ := prepareSourceUpsert_ok h
    exact ⟨congrArg Str.chars hdescribes.vaultId, congrArg Str.chars hdescribes.path⟩

end

/-! ## §2 Batches that carry out a plan -/

/-- Batches of files as the plan saw them that refresh and remove all it asks for. They may refresh
other files too. -/
structure Follows (plan : ReconciliationPlan) (current : List ReconciliationSourceMetadata)
    (batches : List SourceBatch) : Prop where
  carries : ∀ batch ∈ batches, ∀ upsert ∈ batch.upserts, ∃ source ∈ current, upsert.Carries source
  removes : ∀ batch ∈ batches, ∀ removal ∈ batch.removals, removal.path ∈ plan.remove
  refreshed : ∀ path ∈ plan.refresh, ∃ batch ∈ batches, ∃ upsert ∈ batch.upserts,
    upsert.descriptor.path.chars = path
  removed : ∀ path ∈ plan.remove, ∃ batch ∈ batches, ∃ removal ∈ batch.removals,
    removal.path = path

variable {sqlite : Sqlite (SourceMetadata R) C} {build : IndexBuild (SourceMetadata R) C}
  {current : List ReconciliationSourceMetadata} {plan : ReconciliationPlan} {vaultId : Text}

/-- A file has a row that settles it. -/
def Settles (tables : Tables (SourceMetadata R) C) (vaultId : Text)
    (source : ReconciliationSourceMetadata) : Prop :=
  ∃ row ∈ vaultRows tables vaultId, row.path = source.path ∧ standing source (some row) ≠ .refresh

/-- A path that some source of some batches has. -/
def Upserted (batches : List SourceBatch) (path : Text) : Prop :=
  ∃ batch ∈ batches, ∃ upsert ∈ batch.upserts, upsert.descriptor.path.chars = path

/-- A path whose source some batches put in quarantine. -/
def QuarantinedIn (A : RustAdapter R C) (batches : List SourceBatch) (path : Text) : Prop :=
  ∃ batch ∈ batches, ∃ upsert ∈ batch.upserts,
    upsert.descriptor.path.chars = path ∧ A.Quarantines upsert

def Removed (batches : List SourceBatch) (path : Text) : Prop :=
  ∃ batch ∈ batches, ∃ removal ∈ batch.removals, removal.path = path

/-- An index on the way from a plan to its end, after some batches. -/
structure Progress (A : RustAdapter R C) (plan : ReconciliationPlan)
    (current : List ReconciliationSourceMetadata) (vaultId : Text) (batches : List SourceBatch)
    (index : GenerationIndex (SourceMetadata R) C) : Prop where
  keyed : KeyedSources index.tables.sources
  opened : index.closed = false
  vault : index.vaultId = vaultId
  settled : ∀ source ∈ current, source.path ∉ plan.refresh ∨ Upserted batches source.path →
    Settles index.tables vaultId source ∨ QuarantinedIn A batches source.path
  left : ∀ row ∈ vaultRows index.tables vaultId,
    row.path ∈ current.map ReconciliationSourceMetadata.path ∨
      row.path ∈ plan.remove ∧ ¬ Removed batches row.path

/-- **One batch on the way.** -/
theorem Progress.step {batches : List SourceBatch} {index index' : GenerationIndex (SourceMetadata R) C}
    {batch : SourceBatch} (hprogress : Progress A plan current vaultId batches index)
    (hdistinct : (current.map ReconciliationSourceMetadata.path).Nodup)
    (hremove : ∀ path ∈ plan.remove, path ∉ current.map ReconciliationSourceMetadata.path)
    (hcarries : ∀ upsert ∈ batch.upserts, ∃ source ∈ current, upsert.Carries source)
    (hremoves : ∀ removal ∈ batch.removals, removal.path ∈ plan.remove)
    (h : applyBatch A sqlite build index batch = .ok index') :
    Progress A plan current vaultId (batches ++ [batch]) index' := by
  obtain ⟨prepared, hprepared, happly⟩ := bind_ok_iff.mp h
  have hprepares := RustAdapter.prepareSourceBatch_ok hprepared
  have hafter : SourcesAfter index index'
      ⟨prepared.preparations, batch.removals, batch.verifyIntegrity⟩ := by
    split at happly
    · cases happly
    next changed hchanges =>
      cases happly
      exact applySourceChanges_sources hprogress.keyed hchanges
  have hlast : batch ∈ batches ++ [batch] := by simp
  refine ⟨hafter.keyed, hafter.closed.trans hprogress.opened, hafter.vault.trans hprogress.vault,
    ?_, ?_⟩
  · intro source hsource hpremise
    by_cases hupserted : ∃ upsert ∈ batch.upserts, upsert.descriptor.path.chars = source.path
    · -- the batch makes a row for this file
      obtain ⟨upsert, hupsert, hpath⟩ := hupserted
      obtain ⟨preparation, hmem, hprepare⟩ := exists_of_mem_forall₂ hprepares.flip hupsert
      obtain ⟨row, hrow, hrowOf⟩ := hafter.made preparation hmem
      obtain ⟨other, hother, hcarry⟩ := hcarries upsert hupsert
      obtain rfl : other = source :=
        inj_on_of_nodup_map hdistinct hother hsource (hcarry.path.symm.trans hpath)
      have hidentity := hrowOf.identity
      rw [hafter.preparations preparation hmem, hprepare.identity.2, hpath, hprogress.vault]
        at hidentity
      rcases hprepare.settles hcarry hrowOf with hquarantined | hstanding
      · exact .inr ⟨batch, hlast, upsert, hupsert, hpath, hquarantined⟩
      · exact .inl ⟨row, mem_vaultRows.mpr ⟨hrow, (Prod.mk.inj hidentity).1⟩,
          (Prod.mk.inj hidentity).2, hstanding⟩
    · have hbefore : source.path ∉ plan.refresh ∨ Upserted batches source.path := by
        refine hpremise.imp_right fun hsome => ?_
        obtain ⟨other, hother, upsert, hupsert, hpath⟩ := hsome
        rcases mem_append.mp hother with hearlier | hnow
        · exact ⟨other, hearlier, upsert, hupsert, hpath⟩
        · rw [mem_singleton.mp hnow] at hupsert
          exact absurd ⟨upsert, hupsert, hpath⟩ hupserted
      rcases hprogress.settled source hsource hbefore with hsettles | hquarantined
      · -- a row that the batch does not name stays
        obtain ⟨row, hrow, hpath, hstanding⟩ := hsettles
        obtain ⟨hmem, hvault⟩ := mem_vaultRows.mp hrow
        refine .inl ⟨row, mem_vaultRows.mpr ⟨hafter.kept row hmem ?_ ?_, hvault⟩, hpath, hstanding⟩
        · intro hremoved
          obtain ⟨removal, hremoval, heq⟩ := mem_map.mp hremoved
          have hpath' : removal.path = source.path := (Prod.mk.inj heq).2.trans hpath
          apply hremove removal.path (hremoves removal hremoval)
          rw [hpath']
          exact mem_map_of_mem hsource
        · intro preparation hpreparation heq
          obtain ⟨upsert, hupsert, hprepare⟩ := exists_of_mem_forall₂ hprepares hpreparation
          refine hupserted ⟨upsert, hupsert, ?_⟩
          rw [← hprepare.identity.2, ← hpath]
          exact (Prod.mk.inj heq).2.symm
      · obtain ⟨earlier, hearlier, hrest⟩ := hquarantined
        exact .inr ⟨earlier, mem_append_left _ hearlier, hrest⟩
  · intro row hrow
    obtain ⟨hmem, hvault⟩ := mem_vaultRows.mp hrow
    rcases hafter.rows row hmem with ⟨hold, hunnamed, -⟩ | ⟨preparation, hpreparation, hrowOf⟩
    · refine (hprogress.left row (mem_vaultRows.mpr ⟨hold, hvault⟩)).imp_right fun hleft => ?_
      refine ⟨hleft.1, fun hremoved => ?_⟩
      obtain ⟨other, hother, removal, hremoval, hpath⟩ := hremoved
      rcases mem_append.mp hother with hearlier | hnow
      · exact hleft.2 ⟨other, hearlier, removal, hremoval, hpath⟩
      · rw [mem_singleton.mp hnow] at hremoval
        refine hunnamed (mem_map.mpr ⟨removal, hremoval, ?_⟩)
        rw [SourceRemoval.identity, hafter.removals removal hremoval, hpath, hprogress.vault,
          ← hvault]
        rfl
    · left
      obtain ⟨upsert, hupsert, hprepare⟩ := exists_of_mem_forall₂ hprepares hpreparation
      obtain ⟨source, hsource, hcarry⟩ := hcarries upsert hupsert
      refine mem_map.mpr ⟨source, hsource, ?_⟩
      rw [← hcarry.path, ← hprepare.identity.2]
      exact (Prod.mk.inj hrowOf.identity).2.symm

lemma Progress.run {batches later : List SourceBatch}
    {index index' : GenerationIndex (SourceMetadata R) C}
    (hprogress : Progress A plan current vaultId batches index)
    (hdistinct : (current.map ReconciliationSourceMetadata.path).Nodup)
    (hremove : ∀ path ∈ plan.remove, path ∉ current.map ReconciliationSourceMetadata.path)
    (hcarries : ∀ batch ∈ later, ∀ upsert ∈ batch.upserts, ∃ source ∈ current, upsert.Carries source)
    (hremoves : ∀ batch ∈ later, ∀ removal ∈ batch.removals, removal.path ∈ plan.remove)
    (h : later.foldlM (applyBatch A sqlite build) index = .ok index') :
    Progress A plan current vaultId (batches ++ later) index' := by
  induction later generalizing batches index with
  | nil =>
    cases h
    rwa [append_nil]
  | cons batch rest ih =>
    obtain ⟨next, hbatch, hrest⟩ := foldlM_cons_ok _ h
    have hnext := hprogress.step hdistinct hremove (hcarries batch mem_cons_self)
      (hremoves batch mem_cons_self) hbatch
    have hfinal := ih hnext (fun b hb => hcarries b (mem_cons_of_mem _ hb))
      (fun b hb => hremoves b (mem_cons_of_mem _ hb)) hrest
    rwa [append_assoc, singleton_append] at hfinal

/-! ## §3 The plan after the plan -/

variable {index : GenerationIndex (SourceMetadata R) C}

lemma keyedSources_of_constraintsHold {M : Type} {tables : Tables M C}
    (h : tables.constraintsHold = true) : KeyedSources tables.sources := by
  simp only [Tables.constraintsHold, Bool.decide_and, Bool.and_eq_true, decide_eq_true_eq] at h
  exact ⟨h.1, h.2.1⟩

/-- A plan that is made is a start. -/
theorem Progress.start (A : RustAdapter R C) (hkeyed : KeyedSources index.tables.sources)
    (hdistinct : (current.map ReconciliationSourceMetadata.path).Nodup)
    (hplan : planReconciliation build index vaultId current = .ok plan) :
    Progress A plan current vaultId [] index := by
  have hpartitions := planReconciliation_partitions hdistinct hplan
  obtain ⟨⟨hopen, hvault, -, hinventoried⟩, -⟩ := planReconciliation_ok.mp hplan
  refine ⟨hkeyed, hopen, hvault.symm, ?_, ?_⟩
  · intro source hsource hpremise
    have hunrefreshed : source.path ∉ plan.refresh := by
      rcases hpremise with hnot | hsome
      · exact hnot
      · obtain ⟨batch, hbatch, -⟩ := hsome
        cases hbatch
    have hlisted : source.path ∈ plan.unchanged ++ plan.audit.map Prod.fst := by
      have hmem := hpartitions.once.mem_iff.mpr (mem_map_of_mem hsource)
      exact (mem_append.mp hmem).resolve_right hunrefreshed
    obtain ⟨row, hrow, hpath, hsame, hover⟩ := hpartitions.settled source hsource hlisted
    refine .inl ⟨row, hrow, hpath, standing_ne_refresh.mpr ⟨hsame, ?_⟩⟩
    cases hindexable : source.indexable with
    | false => exact .inl ⟨rfl, hover.mpr hindexable⟩
    | true =>
      refine .inr ⟨rfl, fun hhash => hunrefreshed ?_⟩
      have hvalid := hinventoried.valid row hrow
      have hskipped : row.outcome = .skipped := by
        obtain ⟨haccept, -⟩ := bind_unit_ok_iff.mp hvalid
        simp only [rejectIf_ok, not_or] at haccept
        cases houtcome : row.outcome with
        | indexed => exact absurd ⟨houtcome, hhash⟩ haccept.2.2.2.2.2.1
        | skipped => rfl
      exact hpartitions.retried source hsource hindexable row hrow hpath hskipped hhash
  · intro row hrow
    by_cases hcurrent : row.path ∈ current.map ReconciliationSourceMetadata.path
    · exact .inl hcurrent
    · refine .inr ⟨hpartitions.remove.mem_iff.mpr (mem_filter.mpr
        ⟨mem_map_of_mem hrow, by simpa using hcurrent⟩), fun hremoved => ?_⟩
      obtain ⟨batch, hbatch, -⟩ := hremoved
      cases hbatch

section

variable {batches : List SourceBatch} (hprogress : Progress A plan current vaultId batches index)
  (hfollows : Follows plan current batches)

include hprogress hfollows

/-- At the end of the way only quarantined sources are refreshed again, and nothing is removed. -/
theorem Progress.finish {again : ReconciliationPlan}
    (hdistinct : (current.map ReconciliationSourceMetadata.path).Nodup)
    (hagain : planReconciliation build index vaultId current = .ok again) :
    again.remove = [] ∧ ∀ path ∈ again.refresh, QuarantinedIn A batches path := by
  have hpartitions := planReconciliation_partitions hdistinct hagain
  constructor
  · apply eq_nil_iff_forall_not_mem.mpr
    intro path hpath
    obtain ⟨hstored, hmissing⟩ := mem_filter.mp (hpartitions.remove.mem_iff.mp hpath)
    obtain ⟨row, hrow, rfl⟩ := mem_map.mp hstored
    rcases hprogress.left row hrow with hcurrent | ⟨hremove, hnot⟩
    · simp [hcurrent] at hmissing
    · exact hnot (hfollows.removed row.path hremove)
  · intro path hpath
    obtain ⟨⟨-, -, -, hinventoried⟩, rfl⟩ := planReconciliation_ok.mp hagain
    obtain ⟨-, -, hrefresh, -⟩ :=
      planSources_spec current ⟨vaultInventory index.tables vaultId, 0, [], [], []⟩ hdistinct
    simp only [planSources, hrefresh, nil_append] at hpath
    obtain ⟨source, hsource, rfl, hstanding⟩ := mem_refreshPaths.mp hpath
    have hpremise : source.path ∉ plan.refresh ∨ Upserted batches source.path := by
      by_cases hmem : source.path ∈ plan.refresh
      · exact .inr (hfollows.refreshed source.path hmem)
      · exact .inl hmem
    refine (hprogress.settled source hsource hpremise).resolve_left fun hsettles => ?_
    obtain ⟨row, hrow, hrowPath, hne⟩ := hsettles
    rw [(lookup_vaultInventory hinventoried).mpr ⟨hrow, hrowPath⟩] at hstanding
    exact hne hstanding

/-- At the end of the way there is a plan, if every row is valid. -/
theorem Progress.exists_plan (hfits : current.length ≤ maxReconciliationSources)
    (hvalid : ∀ row ∈ index.tables.sources, ∃ found, parseStoredSource build [row] = .ok found) :
    ∃ again, planReconciliation build index vaultId current = .ok again := by
  have hpaths : ((vaultRows index.tables vaultId).map StoredSource.path).Nodup := by
    have hidentities : ((vaultRows index.tables vaultId).map StoredSource.identity).Nodup :=
      hprogress.keyed.identities.sublist (filter_sublist.map _)
    refine Nodup.of_map (fun path => (vaultId, path)) ?_
    rw [map_map]
    have hsame : (vaultRows index.tables vaultId).map
          ((fun path => (vaultId, path)) ∘ StoredSource.path) =
        (vaultRows index.tables vaultId).map StoredSource.identity := by
      refine map_congr_left fun row hrow => ?_
      rw [StoredSource.identity, (mem_vaultRows.mp hrow).2]
      rfl
    rwa [hsame]
  have hcurrent : (vaultRows index.tables vaultId).map StoredSource.path ⊆
      current.map ReconciliationSourceMetadata.path := by
    intro path hpath
    obtain ⟨row, hrow, rfl⟩ := mem_map.mp hpath
    refine (hprogress.left row hrow).resolve_right fun hleft => ?_
    exact hleft.2 (hfollows.removed row.path hleft.1)
  have hlength : (vaultRows index.tables vaultId).length ≤ maxReconciliationSources := by
    have hle := (subperm_of_subset hpaths hcurrent).length_le
    rw [length_map, length_map] at hle
    exact hle.trans hfits
  refine ⟨_, planReconciliation_ok.mpr ⟨⟨hprogress.opened, hprogress.vault.symm, hlength,
    ⟨fun row hrow => ?_, hpaths⟩⟩, rfl⟩⟩
  obtain ⟨found, hfound⟩ := hvalid row (mem_vaultRows.mp hrow).1
  have hlist := parseStoredSource_toList hfound
  cases found with
  | none => cases hlist
  | some stored =>
    cases hlist
    exact hfound

end

/-- **Reconciliation converges**: a plan is a partition of the files and the rows, and when batches
have carried it out the next plan refreshes only what they put in quarantine and removes nothing. -/
theorem planReconciliation_converges (hschema : index.tables.constraintsHold = true)
    (hdistinct : (current.map ReconciliationSourceMetadata.path).Nodup)
    (hplan : planReconciliation build index vaultId current = .ok plan) :
    Partitions (vaultRows index.tables vaultId) current plan ∧
      ∀ (A : RustAdapter R C) (sqlite : Sqlite (SourceMetadata R) C) (batches : List SourceBatch)
        (index' : GenerationIndex (SourceMetadata R) C), Follows plan current batches →
        batches.foldlM (applyBatch A sqlite build) index = .ok index' →
        (∀ again, planReconciliation build index' vaultId current = .ok again →
          again.remove = [] ∧ ∀ path ∈ again.refresh, QuarantinedIn A batches path) ∧
        (current.length ≤ maxReconciliationSources →
          (∀ row ∈ index'.tables.sources, ∃ found, parseStoredSource build [row] = .ok found) →
          ∃ again, planReconciliation build index' vaultId current = .ok again) := by
  have hpartitions := planReconciliation_partitions hdistinct hplan
  refine ⟨hpartitions, fun A sqlite batches index' hfollows hrun => ?_⟩
  have hremove : ∀ path ∈ plan.remove,
      path ∉ current.map ReconciliationSourceMetadata.path := by
    intro path hpath
    simpa using (mem_filter.mp (hpartitions.remove.mem_iff.mp hpath)).2
  have hend : Progress A plan current vaultId batches index' :=
    (Progress.start A (keyedSources_of_constraintsHold hschema) hdistinct hplan).run hdistinct
      hremove hfollows.carries hfollows.removes hrun
  exact ⟨fun again hagain => hend.finish hfollows hdistinct hagain,
    fun hfits hvalid => hend.exists_plan hfollows hfits hvalid⟩

/-! ## §4 A note that the extractor refuses -/

/-- A runtime whose extractor refuses every source. -/
def refusingRuntime : Build where
  tables := CharTables.latin
  hash := .transparent
  extractSource _ _ := .error "refused"
  nativePdfExtractor := false
  skipped_notice := by
    intro format bytes extracted h hskipped
    cases h

def refusingAdapter : RustAdapter Unit Unit where
  build := refusingRuntime
  sourcePreparationDefect _ := none
  frontmatter _ _ := some ⟨[]⟩
  chunk _ := ⟨[], [], [], none, 0, none, 0, none, ()⟩
  exactAliases _ _ := []
  rest _ _ := ()
  quarantinedRest _ := ()

def reconcilingBuild : IndexBuild (SourceMetadata Unit) Unit :=
  ⟨fun _ => replicate 64 '0', fun _ => true, fun _ => none⟩

def reconcilingSqlite : Sqlite (SourceMetadata Unit) Unit :=
  ⟨fun _ _ => none, fun _ => none, fun _ => none, fun _ => .ok 0⟩

lemma refusedVault_fits : utf8Len ['v'] < 2 ^ 63 := Nat.le_of_ble_eq_true rfl

lemma refusedPath_fits : utf8Len ['a', '.', 'm', 'd'] < 2 ^ 63 := Nat.le_of_ble_eq_true rfl

def refusedNote : SourceUpsert :=
  .bytes ⟨⟨['v'], refusedVault_fits⟩, none, ⟨['a', '.', 'm', 'd'], refusedPath_fits⟩, .markdown, 1, 0,
    7⟩ [120]

def refusedFile : ReconciliationSourceMetadata :=
  ⟨['a', '.', 'm', 'd'], 1, ['7'], true⟩

def emptyIndex : GenerationIndex (SourceMetadata Unit) Unit :=
  openFresh ⟨10, 10, 1000⟩ ['v'] ['s']

/-- The row of the note: skipped and in quarantine, with the hash of its content. -/
def refusedRow : StoredSource (SourceMetadata Unit) where
  sourceKey := hexText (sourceKey IdealHash.transparent ⟨['v'], refusedVault_fits⟩
    ⟨['a', '.', 'm', 'd'], refusedPath_fits⟩)
  vaultId := ['v']
  path := ['a', '.', 'm', 'd']
  sourceFormat := .markdown
  formatIdentity := replicate 64 '0'
  extractionCoverage := .quarantined
  outcome := .skipped
  contentHash := some ['0', '0', '7', '8']
  exactAliases := []
  metadata := ⟨1, ['7'], ()⟩
  chunkCount := 0
  propertyCount := 0
  propertyScalarCount := 0

def refusedIndex : GenerationIndex (SourceMetadata Unit) Unit :=
  (applySourceChanges reconcilingSqlite reconcilingBuild
    ⟨[refusingAdapter.received refusedNote (skippedPreparation refusingRuntime
      refusedNote.descriptor (some [0, 120]) .quarantined "refused")], [], false⟩ emptyIndex).2

/-- The batch that stores the note in quarantine, and a plan that wants it hashed, not refreshed. -/
theorem refusedNote_not_refreshed :
    applyBatch refusingAdapter reconcilingSqlite reconcilingBuild emptyIndex
      ⟨[refusedNote], [], false⟩ = .ok refusedIndex ∧
    ∃ plan, planReconciliation reconcilingBuild refusedIndex ['v'] [refusedFile] = .ok plan ∧
      (∃ row ∈ refusedIndex.tables.sources, row.path = refusedFile.path ∧
        row.extractionCoverage = .quarantined) ∧
      refusedFile.indexable = true ∧ refusedFile.path ∉ plan.refresh := by
  have hsources : refusedIndex.tables.sources = [refusedRow] := rfl
  have hplan : planReconciliation reconcilingBuild refusedIndex ['v'] [refusedFile] =
      .ok ⟨[], [(['a', '.', 'm', 'd'], ['0', '0', '7', '8'])], [], [], 1, 1⟩ := rfl
  refine ⟨rfl, _, hplan, ⟨refusedRow, ?_, rfl, rfl⟩, rfl, not_mem_nil⟩
  rw [hsources]
  exact mem_singleton_self refusedRow

theorem planReconciliation_converges_refused :
    Partitions (vaultRows emptyIndex.tables ['v']) [refusedFile]
        ⟨[], [], [['a', '.', 'm', 'd']], [], 0, 0⟩ ∧
      (∀ again, planReconciliation reconcilingBuild refusedIndex ['v'] [refusedFile] = .ok again →
        again.remove = [] ∧ ∀ path ∈ again.refresh,
          QuarantinedIn refusingAdapter [⟨[refusedNote], [], false⟩] path) ∧
      ∃ again, planReconciliation reconcilingBuild refusedIndex ['v'] [refusedFile] = .ok again := by
  have hplan : planReconciliation reconcilingBuild emptyIndex ['v'] [refusedFile] =
      .ok ⟨[], [], [['a', '.', 'm', 'd']], [], 0, 0⟩ := rfl
  have hfollows : Follows ⟨[], [], [['a', '.', 'm', 'd']], [], 0, 0⟩ [refusedFile]
      [⟨[refusedNote], [], false⟩] := by
    refine ⟨?_, by simp, ?_, by simp⟩
    · intro batch hbatch upsert hupsert
      rw [mem_singleton.mp hbatch] at hupsert
      rw [mem_singleton.mp hupsert]
      exact ⟨refusedFile, mem_singleton_self _, rfl, rfl, rfl, rfl, by decide⟩
    · intro path hpath
      rw [mem_singleton.mp hpath]
      exact ⟨_, mem_singleton_self _, refusedNote, mem_singleton_self _, rfl⟩
  have hrun : [(⟨[refusedNote], [], false⟩ : SourceBatch)].foldlM
      (applyBatch refusingAdapter reconcilingSqlite reconcilingBuild) emptyIndex =
        .ok refusedIndex := rfl
  have hsources : refusedIndex.tables.sources = [refusedRow] := rfl
  obtain ⟨hpartitions, hconverges⟩ := planReconciliation_converges (by decide) (by decide) hplan
  obtain ⟨hagain, hexists⟩ := hconverges refusingAdapter reconcilingSqlite _ refusedIndex hfollows hrun
  refine ⟨hpartitions, hagain, hexists (by decide) fun row hrow => ?_⟩
  rw [hsources, mem_singleton] at hrow
  rw [hrow]
  exact ⟨some refusedRow, rfl⟩

end Kwiry.Plugin
