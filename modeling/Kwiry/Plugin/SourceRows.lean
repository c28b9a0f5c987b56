import Kwiry.Plugin.Accounting

/-!
# Source Rows of a Batch

What a batch makes of the source rows, whatever else the tables hold: the rows it names by their
vault and path go, and each preparation leaves one row. Keys and identities stay unique.
-/

namespace Kwiry.Plugin

open Foundations List

variable {M C : Type} {sqlite : Sqlite M C} {build : IndexBuild M C}

/-! ## §1 Statements -/

/-- Only two statements are about source rows. -/
theorem sources_exec {tables tables' : Tables M C} {statement : Statement M C}
    (hinsert : ∀ row, statement ≠ .insertSource row) (hdelete : ∀ key, statement ≠ .deleteSource key)
    (h : tables.exec sqlite statement = .ok tables') : tables'.sources = tables.sources := by
  have hperform := exec_ok h
  cases statement with
  | insertSource row => exact absurd rfl (hinsert row)
  | deleteSource key => exact absurd rfl (hdelete key)
  | insertProperty | insertPropertyScalar | insertChunk | insertExactAlias =>
    obtain ⟨-, hresult⟩ := bind_unit_ok_iff.mp hperform
    cases hresult
    rfl
  | _ =>
    cases hperform
    rfl

/-! ## §2 Insertion -/

/-- One row for each key, and one for each vault and path. -/
structure KeyedSources (sources : List (StoredSource M)) : Prop where
  keys : (sources.map StoredSource.sourceKey).Nodup
  identities : (sources.map StoredSource.identity).Nodup

/-- A row that a preparation leaves, with tallies of its own. -/
def SourceRow (build : IndexBuild M C) (change : ProjectedPreparation M C) (row : StoredSource M) :
    Prop :=
  ∃ properties scalars, row = storedSource build change properties scalars

variable {change : ProjectedPreparation M C} {projected : List (ProjectedPreparation M C)}
  {row : StoredSource M} {touched : Touched M}

lemma sources_insertPropertyRow {tally tally' : PropertyTally M C}
    {property : Text × PropertyValue}
    (h : insertPropertyRow sqlite change tally property = .ok tally') :
    tally'.tables.sources = tally.tables.sources := by
  simp only [insertPropertyRow, bind_ok_iff] at h
  obtain ⟨-, -, inserted, hproperty, projected, hscalars, posted, hfts, hresult⟩ := h
  cases hresult
  have hprojected : projected.sources = inserted.sources := by
    refine foldlM_induction _ (fun t : Tables M C => t.sources = inserted.sources)
      (fun t t' scalar _ ht hstep => ?_) rfl hscalars
    rw [← ht]
    exact sources_exec (by simp) (by simp) hstep
  calc posted.sources = projected.sources := sources_exec (by simp) (by simp) hfts
    _ = inserted.sources := hprojected
    _ = tally.tables.sources := sources_exec (by simp) (by simp) hproperty

variable {mutation mutation' : Mutation M C}

lemma sources_insertChunkRow {row : ProjectedChunk C}
    (h : insertChunkRow sqlite change mutation row = .ok mutation') :
    mutation'.tables.sources = mutation.tables.sources := by
  simp only [insertChunkRow, bind_ok_iff] at h
  obtain ⟨-, -, inserted, hchunk, posted, hfts, identified, hexact, hresult⟩ := h
  cases hresult
  calc identified.sources = posted.sources := sources_exec (by simp) (by simp) hexact
    _ = inserted.sources := sources_exec (by simp) (by simp) hfts
    _ = mutation.tables.sources := sources_exec (by simp) (by simp) hchunk

/-- A change adds its own row. -/
theorem sources_insertChange (hkeyed : KeyedSources mutation.tables.sources)
    (h : insertChange sqlite build mutation change = .ok mutation') :
    ∃ row, SourceRow build change row ∧ row.checks = true ∧
      mutation'.tables.sources = mutation.tables.sources ++ [row] ∧
      KeyedSources mutation'.tables.sources := by
  simp only [insertChange, bind_ok_iff] at h
  obtain ⟨tally, hproperties, chunked, hchunks, aliased, haliases, finished, hsource, hresult⟩ := h
  cases hresult
  have htally : tally.tables.sources = mutation.tables.sources :=
    foldlM_induction _ (fun t : PropertyTally M C => t.tables.sources = mutation.tables.sources)
      (fun _ _ _ _ ht hstep => (sources_insertPropertyRow hstep).trans ht) rfl hproperties
  have hchunked : chunked.tables.sources = mutation.tables.sources :=
    foldlM_induction _ (fun t : Mutation M C => t.tables.sources = mutation.tables.sources)
      (fun _ _ _ _ ht hstep => (sources_insertChunkRow hstep).trans ht) htally hchunks
  have haliased : aliased.sources = mutation.tables.sources :=
    foldlM_induction _ (fun t : Tables M C => t.sources = mutation.tables.sources)
      (fun _ _ _ _ ht hstep => (sources_exec (by simp) (by simp) hstep).trans ht) hchunked haliases
  obtain ⟨haccept, hinserted⟩ := bind_unit_ok_iff.mp (exec_ok hsource)
  cases hinserted
  simp only [rejectIf_ok, not_or, Bool.not_eq_false] at haccept
  obtain ⟨hkey, hidentity, hchecks⟩ := haccept
  rw [haliased] at hkey hidentity
  refine ⟨_, ⟨_, _, rfl⟩, hchecks, by rw [haliased], ?_, ?_⟩
  · rw [haliased, map_append]
    exact nodup_append_fresh hkeyed.keys hkey
  · rw [haliased, map_append]
    exact nodup_append_fresh hkeyed.identities hidentity

lemma sources_insertChanges (hkeyed : KeyedSources mutation.tables.sources)
    (h : projected.foldlM (insertChange sqlite build) mutation = .ok mutation') :
    ∃ rows, List.Forall₂ (SourceRow build) projected rows ∧ (∀ row ∈ rows, row.checks = true) ∧
      mutation'.tables.sources = mutation.tables.sources ++ rows ∧
      KeyedSources mutation'.tables.sources := by
  induction projected generalizing mutation with
  | nil =>
    cases h
    exact ⟨[], .nil, by simp, by simp, hkeyed⟩
  | cons change rest ih =>
    obtain ⟨next, hchange, hrest⟩ := foldlM_cons_ok _ h
    obtain ⟨row, hrow, hchecks, hsources, hnext⟩ := sources_insertChange hkeyed hchange
    obtain ⟨rows, hrows, hall, hsources', hkeyed'⟩ := ih hnext hrest
    refine ⟨row :: rows, .cons hrow hrows, ?_, ?_, hkeyed'⟩
    · intro other hother
      rcases mem_cons.mp hother with rfl | hmem
      · exact hchecks
      · exact hall other hmem
    · rw [hsources', hsources, append_assoc, singleton_append]

/-! ## §3 What a batch names -/

lemma parseStoredSource_toList {rows : List (StoredSource M)} {found : Option (StoredSource M)}
    (h : parseStoredSource build rows = .ok found) : rows = found.toList := by
  match rows, h with
  | [], h =>
    cases h
    rfl
  | [row], h =>
    obtain ⟨-, hresult⟩ := bind_unit_ok_iff.mp h
    cases hresult
    rfl
  | _ :: _ :: _, h => cases h

variable {tables : Tables M C}

/-- What is found is put among what is touched, by its key. -/
theorem key_mem_touch (hkeyed : KeyedSources tables.sources) {p : StoredSource M → Bool}
    {found : Option (StoredSource M)}
    (hfound : parseStoredSource build (tables.sources.filter p) = .ok found)
    (hrow : row ∈ tables.sources) :
    row.sourceKey ∈ mapKeys (touch touched found) ↔ row.sourceKey ∈ mapKeys touched ∨ p row := by
  have hlist := parseStoredSource_toList hfound
  have hiff : p row = true ↔ row ∈ found.toList := by
    rw [← hlist, mem_filter]
    exact ⟨fun hp => ⟨hrow, hp⟩, And.right⟩
  rw [hiff]
  cases found with
  | none => simp [touch]
  | some stored =>
    have hmem : stored ∈ tables.sources.filter p := by
      rw [hlist]
      exact mem_singleton_self stored
    have hstored : stored ∈ tables.sources := (mem_filter.mp hmem).1
    have hsame : row.sourceKey = stored.sourceKey ↔ row = stored :=
      ⟨inj_on_of_nodup_map hkeyed.keys hrow hstored, fun heq => by rw [heq]⟩
    simp only [Option.toList_some, mem_singleton, ← hsame, mem_mapKeys, touch, mem_mapSet,
      Prod.mk.injEq]
    constructor
    · intro h
      obtain ⟨value, ⟨hkey, -⟩ | ⟨hmem, -⟩⟩ := h
      · exact .inr hkey
      · exact .inl ⟨value, hmem⟩
    · intro h
      by_cases hkey : row.sourceKey = stored.sourceKey
      · exact ⟨stored, .inl ⟨hkey, rfl⟩⟩
      · obtain ⟨value, hmem⟩ := h.resolve_right hkey
        exact ⟨value, .inr ⟨hmem, hkey⟩⟩

def ProjectedPreparation.identity (change : ProjectedPreparation M C) : Text × Text :=
  (change.preparation.vaultId, change.preparation.path)

def SourceRemoval.identity (removal : SourceRemoval) : Text × Text :=
  (removal.vaultId, removal.path)

lemma key_mem_touchRemovals (hkeyed : KeyedSources tables.sources) {removals : List SourceRemoval}
    {touched' : Touched M} (h : removals.foldlM (touchRemoval build tables) touched = .ok touched')
    (hrow : row ∈ tables.sources) :
    row.sourceKey ∈ mapKeys touched' ↔ row.sourceKey ∈ mapKeys touched ∨
      row.identity ∈ removals.map SourceRemoval.identity := by
  induction removals generalizing touched with
  | nil =>
    cases h
    simp
  | cons removal rest ih =>
    obtain ⟨next, hremoval, hrest⟩ := foldlM_cons_ok _ h
    obtain ⟨stored, hselect, hresult⟩ := bind_ok_iff.mp hremoval
    cases hresult
    rw [ih hrest, key_mem_touch hkeyed hselect hrow, map_cons, mem_cons, or_assoc,
      decide_eq_true_eq]
    rfl

lemma key_mem_touchPreparations (hkeyed : KeyedSources tables.sources) {touched' : Touched M}
    (h : projected.foldlM (touchPreparation build tables) touched = .ok touched')
    (hrow : row ∈ tables.sources) :
    row.sourceKey ∈ mapKeys touched' ↔ row.sourceKey ∈ mapKeys touched ∨
      row.identity ∈ projected.map ProjectedPreparation.identity := by
  induction projected generalizing touched with
  | nil =>
    cases h
    simp
  | cons change rest ih =>
    obtain ⟨next, hchange, hrest⟩ := foldlM_cons_ok _ h
    simp only [touchPreparation, bind_ok_iff] at hchange
    obtain ⟨byIdentity, hidentity, byKey, hkey, _, -, _, hsame, hresult⟩ := hchange
    cases hresult
    -- a row under the key of a preparation is the row of its path
    have himplied : row.sourceKey = change.preparation.sourceKey → row.identity = change.identity := by
      intro heq
      have hmem : row ∈ tables.sources.filter (·.sourceKey = change.preparation.sourceKey) :=
        mem_filter.mpr ⟨hrow, by simpa using heq⟩
      rw [parseStoredSource_toList hkey] at hmem
      cases byKey with
      | none => cases hmem
      | some stored =>
        obtain rfl : row = stored := mem_singleton.mp hmem
        simpa [ProjectedPreparation.identity] using hsame
    have hfound : row.identity = (change.preparation.vaultId, change.preparation.path) ↔
        row.identity = change.identity := Iff.rfl
    rw [ih hrest, key_mem_touch hkeyed hkey hrow, key_mem_touch hkeyed hidentity hrow,
      map_cons, mem_cons, decide_eq_true_eq, decide_eq_true_eq, hfound]
    tauto

/-- What a batch touches are the rows it names. -/
theorem key_mem_touched (hkeyed : KeyedSources tables.sources) {removals : List SourceRemoval}
    (h : touchedSources build tables projected removals = .ok touched) (hrow : row ∈ tables.sources) :
    row.sourceKey ∈ mapKeys touched ↔ row.identity ∈ removals.map SourceRemoval.identity ∨
      row.identity ∈ projected.map ProjectedPreparation.identity := by
  obtain ⟨removed, hremovals, hprojected⟩ := bind_ok_iff.mp h
  rw [key_mem_touchPreparations hkeyed hprojected hrow, key_mem_touchRemovals hkeyed hremovals hrow]
  simp [mapKeys]

/-! ## §4 A batch -/

lemma preparation_of_project {preparation : PreparedSource M C}
    (h : projectPreparation preparation = .ok change) : change.preparation = preparation := by
  unfold projectPreparation at h
  split at h
  · cases h
  · split at h
    · obtain ⟨rows, -, hresult⟩ := bind_ok_iff.mp h
      cases hresult
      rfl
    · cases h
      rfl

lemma identities_of_project {preparations : List (PreparedSource M C)} (h : List.Forall₂
      (fun preparation change => projectPreparation preparation =
      .ok change) preparations projected) :
    projected.map ProjectedPreparation.identity =
      preparations.map fun preparation => (preparation.vaultId, preparation.path) := by
  induction h with
  | nil => rfl
  | cons hone _ ih =>
    rw [map_cons, map_cons, ih, ProjectedPreparation.identity, preparation_of_project hone]

/-- The columns of a row that come from its preparation alone. -/
structure RowOf (preparation : PreparedSource M C) (row : StoredSource M) : Prop where
  identity : row.identity = (preparation.vaultId, preparation.path)
  outcome : row.outcome = preparation.kind
  contentHash : row.contentHash = preparation.contentHash
  coverage : row.extractionCoverage = preparation.coverage
  metadata : row.metadata = preparation.metadata

lemma rowOf_of_sourceRow (h : SourceRow build change row) : RowOf change.preparation row := by
  obtain ⟨properties, scalars, rfl⟩ := h
  exact ⟨rfl, rfl, rfl, rfl, rfl⟩

/-- The source rows after a batch that succeeds: those it does not name, and one for each
preparation. -/
structure SourcesAfter (index index' : GenerationIndex M C) (call : SourceChangeCall M C) :
    Prop where
  keyed : KeyedSources index'.tables.sources
  closed : index'.closed = index.closed
  vault : index'.vaultId = index.vaultId
  preparations : ∀ preparation ∈ call.preparations, preparation.vaultId = index.vaultId
  removals : ∀ removal ∈ call.removals, removal.vaultId = index.vaultId
  rows : ∀ row ∈ index'.tables.sources,
    (row ∈ index.tables.sources ∧ row.identity ∉ call.removals.map SourceRemoval.identity ∧
      ∀ preparation ∈ call.preparations, row.identity ≠ (preparation.vaultId, preparation.path)) ∨
    ∃ preparation ∈ call.preparations, RowOf preparation row
  kept : ∀ row ∈ index.tables.sources, row.identity ∉ call.removals.map SourceRemoval.identity →
    (∀ preparation ∈ call.preparations, row.identity ≠ (preparation.vaultId, preparation.path)) →
    row ∈ index'.tables.sources
  made : ∀ preparation ∈ call.preparations, ∃ row ∈ index'.tables.sources, RowOf preparation row

variable {index index' : GenerationIndex M C} {call : SourceChangeCall M C}

lemma applySourceChanges_cases
    (h : applySourceChanges sqlite build call index = (.ok (), index')) :
    ∃ plan tables', planChange build index call.preparations call.removals = .ok plan ∧
      carryOut sqlite build index plan call.verifyIntegrity index.tables = .ok tables' ∧
      index'.tables = tables' ∧ index'.closed = index.closed ∧ index'.vaultId = index.vaultId := by
  unfold applySourceChanges at h
  split at h
  · cases h
  next plan hplan =>
    unfold transaction at h
    split at h
    next fault tables hfault =>
      split at hfault <;> cases hfault
      cases h
    next tables hok =>
      split at hok
      next changed hchange =>
        cases hok
        obtain ⟨tables', hcarry, hrest⟩ := bind_ok_iff.mp hchange
        obtain ⟨-, hresult⟩ := bind_unit_ok_iff.mp hrest
        cases hresult
        cases h
        exact ⟨plan, tables, hplan, hcarry, rfl, rfl, rfl⟩
      next => cases hok

lemma applySourceChanges_sources (hkeyed : KeyedSources index.tables.sources)
    (h : applySourceChanges sqlite build call index = (.ok (), index')) :
    SourcesAfter index index' call := by
  obtain ⟨plan, tables', hplan, hcarry, htables, hclosed, hvault⟩ := applySourceChanges_cases h
  have htouched := (planChange_projects hplan).touched
  simp only [planChange, bind_ok_iff] at hplan
  obtain ⟨-, -, -, -, authored, -, -, -, projected, hprojected, -, -, _, hvaults, touched, htouch,
    hcounts⟩ := hplan
  simp only [projectCounts, bind_ok_iff] at hcounts
  obtain ⟨_, -, _, -, _, -, _, -, -, -, -, -, hresult⟩ := hcounts
  cases hresult
  simp only [carryOut, bind_ok_iff] at hcarry
  obtain ⟨_, -, _, -, deleted, hdelete, mutation, hinsert, -, -, -, -, hfinished⟩ := hcarry
  cases hfinished
  dsimp only at htouched hdelete hinsert
  have hkeys : touched.map (fun entry => entry.2.sourceKey) = mapKeys touched :=
    map_congr_left fun entry hentry => (htouched.stored entry hentry).2
  have hdeleted : deleted.sources =
      index.tables.sources.filter (·.sourceKey ∉ mapKeys touched) := by
    rw [← foldlM_map, hkeys] at hdelete
    rw [deleteSources_ok hdelete]
    exact (withoutAll_sources index.tables _).1
  have hkeyed' : KeyedSources deleted.sources := by
    rw [hdeleted]
    exact ⟨hkeyed.keys.sublist (filter_sublist.map _),
      hkeyed.identities.sublist (filter_sublist.map _)⟩
  obtain ⟨rows, hrows, -, hsources, hfinal⟩ := sources_insertChanges hkeyed' hinsert
  rw [← htables] at hsources hfinal
  have hidentities := identities_of_project (mapM_ok_iff.mp hprojected)
  have hstays : ∀ row ∈ index.tables.sources, row ∈ deleted.sources ↔
      row.identity ∉ call.removals.map SourceRemoval.identity ∧ ∀ preparation ∈ call.preparations,
          row.identity ≠ (preparation.vaultId, preparation.path) := by
    intro row hrow
    rw [hdeleted, mem_filter, decide_eq_true_eq, key_mem_touched hkeyed htouch hrow,
      hidentities, not_or]
    simp [hrow, eq_comm]
  have hpartner : ∀ preparation ∈ call.preparations, ∃ change ∈ projected,
      change.preparation = preparation := by
    intro preparation hmem
    obtain ⟨change, hchange, hone⟩ := exists_of_mem_forall₂ (mapM_ok_iff.mp hprojected).flip hmem
    exact ⟨change, hchange, preparation_of_project hone⟩
  simp only [rejectIf_ok, not_or, not_exists, not_and, not_not] at hvaults
  refine ⟨hfinal, hclosed, hvault, ?_, hvaults.2, ?_, ?_, ?_⟩
  · intro preparation hmem
    obtain ⟨change, hchange, rfl⟩ := hpartner preparation hmem
    exact hvaults.1 change hchange
  · intro row hrow
    rw [hsources] at hrow
    rcases mem_append.mp hrow with hold | hnew
    · left
      have hmem : row ∈ index.tables.sources := by
        rw [hdeleted] at hold
        exact (mem_filter.mp hold).1
      exact ⟨hmem, (hstays row hmem).mp hold⟩
    · right
      obtain ⟨change, hchange, hrow⟩ := exists_of_mem_forall₂ hrows hnew
      obtain ⟨preparation, hmem, hone⟩ := (mem_of_mapM_ok hprojected change).mp hchange
      exact ⟨preparation, hmem, preparation_of_project hone ▸ rowOf_of_sourceRow hrow⟩
  · intro row hrow hremovals hpreparations
    rw [hsources]
    exact mem_append_left _ ((hstays row hrow).mpr ⟨hremovals, hpreparations⟩)
  · intro preparation hmem
    obtain ⟨change, hchange, rfl⟩ := hpartner preparation hmem
    obtain ⟨row, hnew, hrow⟩ := exists_of_mem_forall₂ hrows.flip hchange
    refine ⟨row, ?_, rowOf_of_sourceRow hrow⟩
    rw [hsources]
    exact mem_append_right _ hnew

end Kwiry.Plugin
