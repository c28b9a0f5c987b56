import Kwiry.Plugin.Accounting
import Kwiry.Plugin.Reconciliation

/-!
# A Plan is a Partition

A plan is made of the rows of a vault, one for each path. Every file of the vault stands in one of
the three lists of files, by its own row alone, and every row without a file is to be removed.
-/

namespace Kwiry.Plugin

open Foundations List

variable {R C : Type}

/-! ## §1 The inventory -/

section

variable {build : IndexBuild (SourceMetadata R) C}

def inventory (rows : List (StoredSource (SourceMetadata R))) : Inventory R :=
  rows.map fun row => (row.path, row)

lemma mapKeys_inventory (rows : List (StoredSource (SourceMetadata R))) :
    mapKeys (inventory rows) = rows.map StoredSource.path := by
  rw [inventory, mapKeys, map_map]
  rfl

/-- A row is accepted when it is valid, of the vault, and the first of its path. -/
theorem storeRow_ok {vaultId : Text} {stored stored' : Inventory R}
    {row : StoredSource (SourceMetadata R)} :
    storeRow build vaultId stored row = .ok stored' ↔
      parseStoredSource build [row] = .ok (some row) ∧ row.vaultId = vaultId ∧
        row.path ∉ mapKeys stored ∧ stored' = stored ++ [(row.path, row)] := by
  have hparse : ∀ {found}, parseStoredSource build [row] = .ok found → found = some row := by
    intro found h
    obtain ⟨-, hresult⟩ := bind_unit_ok_iff.mp h
    cases hresult
    rfl
  unfold storeRow
  constructor
  · intro h
    obtain ⟨found, hfound, h⟩ := bind_ok_iff.mp h
    cases hparse hfound
    obtain ⟨haccept, hresult⟩ := bind_unit_ok_iff.mp h
    simp only [rejectIf_ok, not_or, not_not] at haccept
    obtain ⟨hvault, hfresh⟩ := haccept
    cases hresult
    refine ⟨hfound, hvault, hfresh, ?_⟩
    rw [mapSet, if_neg hfresh]
  · intro h
    obtain ⟨hfound, hvault, hfresh, rfl⟩ := h
    refine bind_ok_iff.mpr ⟨some row, hfound, bind_unit_ok_iff.mpr ⟨?_, ?_⟩⟩
    · simp [hvault, hfresh]
    · rw [mapSet, if_neg hfresh]
      rfl

lemma storeRows_ok {vaultId : Text} {rows : List (StoredSource (SourceMetadata R))}
    {stored stored' : Inventory R} (hstored : (mapKeys stored).Nodup) :
    rows.foldlM (storeRow build vaultId) stored = .ok stored' ↔
      (∀ row ∈ rows, parseStoredSource build [row] = .ok (some row) ∧ row.vaultId = vaultId) ∧
        (mapKeys stored ++ rows.map StoredSource.path).Nodup ∧
        stored' = stored ++ inventory rows := by
  induction rows generalizing stored with
  | nil => simp [inventory, hstored, pure, Except.pure, eq_comm]
  | cons row rest ih =>
    have hkeys : mapKeys (stored ++ [(row.path, row)]) = mapKeys stored ++ [row.path] := by
      simp [mapKeys]
    have hsplit : mapKeys stored ++ (row :: rest).map StoredSource.path =
        mapKeys (stored ++ [(row.path, row)]) ++ rest.map StoredSource.path := by
      simp [hkeys]
    have hlist : stored ++ inventory (row :: rest) =
        stored ++ [(row.path, row)] ++ inventory rest := by
      simp [inventory]
    rw [hsplit, hlist]
    constructor
    · intro h
      obtain ⟨next, hrow, hrest⟩ := foldlM_cons_ok _ h
      obtain ⟨hparse, hvault, hfresh, rfl⟩ := storeRow_ok.mp hrow
      have hnodup : (mapKeys (stored ++ [(row.path, row)])).Nodup := by
        rw [hkeys]
        exact nodup_append_fresh hstored hfresh
      obtain ⟨hrows, hpaths, hresult⟩ := (ih hnodup).mp hrest
      refine ⟨?_, hpaths, hresult⟩
      intro other hother
      rcases mem_cons.mp hother with rfl | hmem
      · exact ⟨hparse, hvault⟩
      · exact hrows other hmem
    · intro h
      obtain ⟨hrows, hpaths, hresult⟩ := h
      obtain ⟨hparse, hvault⟩ := hrows row mem_cons_self
      have hnodup : (mapKeys (stored ++ [(row.path, row)])).Nodup :=
        (nodup_append.mp hpaths).1
      have hfresh : row.path ∉ mapKeys stored := by
        rw [hkeys] at hnodup
        intro hmem
        exact (nodup_append.mp hnodup).2.2 _ hmem _ (mem_singleton_self _) rfl
      rw [foldlM_cons, storeRow_ok.mpr ⟨hparse, hvault, hfresh, rfl⟩]
      exact (ih hnodup).mpr ⟨fun other hmem => hrows other (mem_cons_of_mem _ hmem), hpaths,
        hresult⟩

end

/-! ## §2 The lists -/

lemma lookup_eq_some_iff {α β : Type*} [BEq α] [LawfulBEq α]
    {entries : List (α × β)} (hnodup : (mapKeys entries).Nodup) {key : α} {value : β} :
    entries.lookup key = some value ↔ (key, value) ∈ entries := by
  rw [List.lookup_eq_some_iff]
  constructor
  · intro h
    obtain ⟨before, after, rfl, -⟩ := h
    simp
  · intro h
    obtain ⟨before, after, rfl⟩ := append_of_mem h
    refine ⟨before, after, rfl, fun entry hentry => ?_⟩
    simp only [mapKeys, map_append, map_cons] at hnodup
    have hne := (nodup_append.mp hnodup).2.2 entry.1 (mem_map_of_mem hentry) key mem_cons_self
    simpa using hne.symm

lemma lookup_mapDelete_ne {α β : Type*} [DecidableEq α] [BEq α] [LawfulBEq α]
    {entries : List (α × β)} {key other : α} (hne : other ≠ key) :
    (mapDelete key entries).lookup other = entries.lookup other := by
  induction entries with
  | nil => rfl
  | cons entry rest ih =>
    obtain ⟨k, v⟩ := entry
    rw [mapDelete] at ih ⊢
    by_cases hkey : k = key
    · rw [filter_cons_of_neg (by simpa using hkey), ih, lookup_cons,
        beq_eq_false_iff_ne.mpr (hkey ▸ hne)]
    · rw [filter_cons_of_pos (by simpa using hkey), lookup_cons, lookup_cons, ih]

section

variable (stored : Inventory R) (current : List ReconciliationSourceMetadata)

/-- The paths that stay, by the rows their sources find. -/
def unchangedPaths : List Text :=
  current.filterMap fun source =>
    if standing source (stored.lookup source.path) = .unchanged then some source.path else none

def auditPaths : List (Text × Text) :=
  current.filterMap fun source =>
    match standing source (stored.lookup source.path) with
    | .audit contentHash => some (source.path, contentHash)
    | _ => none

def refreshPaths : List Text :=
  current.filterMap fun source =>
    if standing source (stored.lookup source.path) = .refresh then some source.path else none

end

variable {path : Text}

lemma mem_refreshPaths {stored : Inventory R} {current : List ReconciliationSourceMetadata} :
    path ∈ refreshPaths stored current ↔
      ∃ source ∈ current, source.path = path ∧
        standing source (stored.lookup source.path) = .refresh := by
  simp only [refreshPaths, mem_filterMap, Option.ite_none_right_eq_some, Option.some.injEq]
  constructor
  · intro h
    obtain ⟨source, hsource, hstanding, hpath⟩ := h
    exact ⟨source, hsource, hpath, hstanding⟩
  · intro h
    obtain ⟨source, hsource, hpath, hstanding⟩ := h
    exact ⟨source, hsource, hstanding, hpath⟩

lemma mem_settledPaths {stored : Inventory R} {current : List ReconciliationSourceMetadata} :
    path ∈ unchangedPaths stored current ++ (auditPaths stored current).map Prod.fst ↔
      ∃ source ∈ current, source.path = path ∧
        standing source (stored.lookup source.path) ≠ .refresh := by
  rw [mem_append, unchangedPaths, auditPaths, map_filterMap, mem_filterMap,
    mem_filterMap, ← exists_or]
  refine exists_congr fun source => ?_
  cases standing source (stored.lookup source.path) <;> simp

/-- A source finds the same row whether or not those of other paths are taken out. -/
theorem filterMap_mapDelete {α : Type*} {stored : Inventory R}
    {current : List ReconciliationSourceMetadata}
    (hfresh : path ∉ current.map ReconciliationSourceMetadata.path)
    (f : ReconciliationSourceMetadata → Option (StoredSource (SourceMetadata R)) → Option α) :
    current.filterMap (fun source => f source ((mapDelete path stored).lookup source.path)) =
      current.filterMap fun source => f source (stored.lookup source.path) := by
  refine filterMap_congr fun source hsource => ?_
  have hne : source.path ≠ path := by
    intro heq
    exact hfresh (mem_map.mpr ⟨source, hsource, heq⟩)
  rw [lookup_mapDelete_ne hne]

/-- The loop of a plan adds each source to the list of its standing, and takes out its row. -/
theorem planSources_spec (current : List ReconciliationSourceMetadata) (planning : Planning R)
    (hnodup : (current.map ReconciliationSourceMetadata.path).Nodup) :
    (current.foldl planSource planning).unchanged =
        planning.unchanged ++ unchangedPaths planning.stored current ∧
      (current.foldl planSource planning).audit =
        planning.audit ++ auditPaths planning.stored current ∧
      (current.foldl planSource planning).refresh =
        planning.refresh ++ refreshPaths planning.stored current ∧
      (current.foldl planSource planning).stored =
        planning.stored.filter (·.1 ∉ current.map ReconciliationSourceMetadata.path) := by
  induction current generalizing planning with
  | nil => simp [unchangedPaths, auditPaths, refreshPaths]
  | cons source rest ih =>
    rw [map_cons, nodup_cons] at hnodup
    obtain ⟨hfresh, hrest⟩ := hnodup
    obtain ⟨hunchanged, haudit, hrefresh, hstored⟩ := ih (planSource planning source) hrest
    have hafter : (planSource planning source).stored = mapDelete source.path planning.stored := by
      unfold planSource
      dsimp only
      split <;> rfl
    have hleft : (mapDelete source.path planning.stored).filter
          (·.1 ∉ rest.map ReconciliationSourceMetadata.path) =
        planning.stored.filter (·.1 ∉ (source :: rest).map ReconciliationSourceMetadata.path) := by
      rw [mapDelete, filter_filter]
      refine filter_congr fun entry _ => ?_
      by_cases hkey : entry.1 = source.path <;> simp [hkey]
    rw [foldl_cons, hunchanged, haudit, hrefresh, hstored, hafter, hleft]
    simp only [unchangedPaths, auditPaths, refreshPaths]
    rw [filterMap_mapDelete hfresh fun source found =>
        if standing source found = .unchanged then some source.path else none,
      filterMap_mapDelete hfresh fun source found =>
        match standing source found with
        | .audit contentHash => some (source.path, contentHash)
        | _ => none,
      filterMap_mapDelete hfresh fun source found =>
        if standing source found = .refresh then some source.path else none]
    simp only [planSource]
    cases hstanding : standing source (planning.stored.lookup source.path) <;>
      simp [hstanding]

/-- Each source is in one list. -/
theorem perm_lists (stored : Inventory R) (current : List ReconciliationSourceMetadata) :
    (unchangedPaths stored current ++ (auditPaths stored current).map Prod.fst ++
      refreshPaths stored current).Perm (current.map ReconciliationSourceMetadata.path) := by
  induction current with
  | nil => exact .refl []
  | cons source rest ih =>
    simp only [unchangedPaths, auditPaths, refreshPaths] at ih ⊢
    cases hstanding : standing source (stored.lookup source.path) with
    | unchanged => simpa [hstanding] using ih
    | audit contentHash =>
      simp only [filterMap_cons, hstanding, map_cons, reduceCtorEq, if_false]
      refine Perm.trans ?_ (ih.cons source.path)
      rw [append_assoc, append_assoc]
      exact perm_middle
    | refresh =>
      simp only [filterMap_cons, hstanding, map_cons, reduceCtorEq, if_false, if_true]
      exact perm_middle.trans (ih.cons source.path)

/-! ## §3 The plan -/

section

variable {build : IndexBuild (SourceMetadata R) C} {index : GenerationIndex (SourceMetadata R) C}
  {vaultId : Text} {current : List ReconciliationSourceMetadata}

/-- The rows of a vault. -/
def vaultRows (tables : Tables (SourceMetadata R) C) (vaultId : Text) :
    List (StoredSource (SourceMetadata R)) :=
  tables.sources.filter fun source => source.vaultId = vaultId

def vaultInventory (tables : Tables (SourceMetadata R) C) (vaultId : Text) : Inventory R :=
  inventory (sortBy (compareOn StoredSource.path) (vaultRows tables vaultId))

/-- The rows of a vault are all valid, and one for each path. -/
structure Inventoried (build : IndexBuild (SourceMetadata R) C)
    (tables : Tables (SourceMetadata R) C) (vaultId : Text) : Prop where
  valid : ∀ row ∈ vaultRows tables vaultId, parseStoredSource build [row] = .ok (some row)
  distinct : ((vaultRows tables vaultId).map StoredSource.path).Nodup

/-- A plan is made of the rows of an open index, as far as they fit. -/
theorem planReconciliation_ok {plan : ReconciliationPlan} :
    planReconciliation build index vaultId current = .ok plan ↔
      (index.closed = false ∧ vaultId = index.vaultId ∧
        (vaultRows index.tables vaultId).length ≤ maxReconciliationSources ∧
        Inventoried build index.tables vaultId) ∧
        plan = planSources (vaultInventory index.tables vaultId) current := by
  have hperm : (sortBy (compareOn StoredSource.path) (vaultRows index.tables vaultId)).Perm
      (vaultRows index.tables vaultId) := sortBy_perm _ _
  have hselect : selectSourcesByVault index.tables vaultId (maxReconciliationSources + 1) =
      (sortBy (compareOn StoredSource.path) (vaultRows index.tables vaultId)).take
        (maxReconciliationSources + 1) := rfl
  have hfits : (selectSourcesByVault index.tables vaultId (maxReconciliationSources + 1)).length ≤
      maxReconciliationSources ↔
        (vaultRows index.tables vaultId).length ≤ maxReconciliationSources := by
    rw [hselect, length_take, hperm.length_eq]
    omega
  have hrows (hlength : (vaultRows index.tables vaultId).length ≤ maxReconciliationSources) :
      selectSourcesByVault index.tables vaultId (maxReconciliationSources + 1) =
        sortBy (compareOn StoredSource.path) (vaultRows index.tables vaultId) := by
    rw [hselect, take_of_length_le]
    rw [hperm.length_eq]
    omega
  have hall : ∀ row ∈ vaultRows index.tables vaultId, row.vaultId = vaultId := by
    intro row hrow
    simpa using (mem_filter.mp hrow).2
  unfold planReconciliation
  constructor
  · intro h
    obtain ⟨hopen, h⟩ := bind_unit_ok_iff.mp h
    obtain ⟨hvault, h⟩ := bind_unit_ok_iff.mp h
    obtain ⟨hlength, h⟩ := bind_unit_ok_iff.mp h
    obtain ⟨stored, hstored, hplan⟩ := bind_ok_iff.mp h
    simp only [rejectIf_ok, not_not, not_lt, Bool.not_eq_true] at hopen hvault hlength
    rw [hfits] at hlength
    rw [hrows hlength, storeRows_ok (by simp [mapKeys])] at hstored
    obtain ⟨hvalid, hdistinct, rfl⟩ := hstored
    cases hplan
    refine ⟨⟨hopen, hvault, hlength, ?_, ?_⟩, rfl⟩
    · intro row hrow
      exact (hvalid row (hperm.mem_iff.mpr hrow)).1
    · exact ((hperm.map StoredSource.path).nodup_iff).mp hdistinct
  · intro h
    obtain ⟨⟨hopen, hvault, hlength, hinventoried⟩, rfl⟩ := h
    refine bind_unit_ok_iff.mpr ⟨by simp [hopen], bind_unit_ok_iff.mpr ⟨by simp [hvault],
      bind_unit_ok_iff.mpr ⟨?_, bind_ok_iff.mpr ⟨vaultInventory index.tables vaultId, ?_, rfl⟩⟩⟩⟩
    · rw [rejectIf_ok, not_lt]
      exact hfits.mpr hlength
    · rw [hrows hlength, storeRows_ok (by simp [mapKeys])]
      refine ⟨fun row hrow => ?_, ?_, rfl⟩
      · have hmem := hperm.mem_iff.mp hrow
        exact ⟨hinventoried.valid row hmem, hall row hmem⟩
      · exact ((hperm.map StoredSource.path).nodup_iff).mpr hinventoried.distinct

variable {tables : Tables (SourceMetadata R) C}

lemma mem_vaultRows {row : StoredSource (SourceMetadata R)} :
    row ∈ vaultRows tables vaultId ↔ row ∈ tables.sources ∧ row.vaultId = vaultId := by
  simp [vaultRows]

lemma mapKeys_vaultInventory :
    (mapKeys (vaultInventory tables vaultId)).Perm
      ((vaultRows tables vaultId).map StoredSource.path) := by
  rw [vaultInventory, mapKeys_inventory]
  exact (sortBy_perm _ _).map _

/-- A source finds the row of its path. -/
theorem lookup_vaultInventory (h : Inventoried build tables vaultId)
    {row : StoredSource (SourceMetadata R)} :
    (vaultInventory tables vaultId).lookup path = some row ↔
      row ∈ vaultRows tables vaultId ∧ row.path = path := by
  have hnodup : (mapKeys (vaultInventory tables vaultId)).Nodup :=
    mapKeys_vaultInventory.nodup_iff.mpr h.distinct
  rw [lookup_eq_some_iff hnodup, vaultInventory, inventory, mem_map]
  constructor
  · intro hmem
    obtain ⟨other, hother, heq⟩ := hmem
    cases heq
    exact ⟨mem_sortBy.mp hother, rfl⟩
  · intro hmem
    obtain ⟨hrow, rfl⟩ := hmem
    exact ⟨row, mem_sortBy.mpr hrow, rfl⟩

/-! ## §4 Standings -/

/-- The metadata of a row is that of a file. -/
def SameMetadata (source : ReconciliationSourceMetadata) (row : StoredSource (SourceMetadata R)) :
    Prop :=
  row.metadata.byteLength = source.byteLength ∧ row.metadata.mtimeNanos = source.mtimeNanos

variable {source : ReconciliationSourceMetadata} {row : StoredSource (SourceMetadata R)}

lemma wasOversized_iff :
    wasOversized row = true ↔ row.outcome = .skipped ∧ row.contentHash = none := by
  simp [wasOversized]

lemma standing_unchanged : standing source (some row) = .unchanged ↔
    SameMetadata source row ∧ wasOversized row = true ∧ source.indexable = false := by
  unfold standing SameMetadata
  by_cases hsame : row.metadata.byteLength = source.byteLength ∧
      row.metadata.mtimeNanos = source.mtimeNanos
  · cases hover : wasOversized row <;> cases hindexable : source.indexable <;>
      cases hhash : row.contentHash <;> simp [hover, hhash, hsame]
  · simp [← and_assoc, hsame]

lemma standing_audit {contentHash : Text} : standing source (some row) = .audit contentHash ↔
    SameMetadata source row ∧ source.indexable = true ∧ row.contentHash = some contentHash := by
  unfold standing SameMetadata
  have hover : wasOversized row = true → row.contentHash = none := fun h => (wasOversized_iff.mp h).2
  by_cases hsame : row.metadata.byteLength = source.byteLength ∧
      row.metadata.mtimeNanos = source.mtimeNanos
  · cases hover' : wasOversized row <;> cases hindexable : source.indexable <;>
      cases hhash : row.contentHash <;> simp_all
  · simp [← and_assoc, hsame]

/-- A file settles when its row is of the same file and tells whether it could be indexed. -/
theorem standing_ne_refresh : standing source (some row) ≠ .refresh ↔
    SameMetadata source row ∧ (source.indexable = false ∧ wasOversized row = true ∨
      source.indexable = true ∧ row.contentHash ≠ none) := by
  cases hstanding : standing source (some row) with
  | unchanged =>
    obtain ⟨hsame, hover, hindexable⟩ := standing_unchanged.mp hstanding
    simp [hsame, hover, hindexable]
  | audit contentHash =>
    obtain ⟨hsame, hindexable, hhash⟩ := standing_audit.mp hstanding
    simp [hsame, hindexable, hhash]
  | refresh =>
    simp only [ne_eq, not_true_eq_false, false_iff]
    intro h
    obtain ⟨hsame, ⟨hindexable, hover⟩ | ⟨hindexable, hhash⟩⟩ := h
    · rw [standing_unchanged.mpr ⟨hsame, hover, hindexable⟩] at hstanding
      cases hstanding
    · obtain ⟨contentHash, hsome⟩ := Option.ne_none_iff_exists'.mp hhash
      rw [standing_audit.mpr ⟨hsame, hindexable, hsome⟩] at hstanding
      cases hstanding

/-- What a plan says of the rows of a vault and its files. -/
structure Partitions (rows : List (StoredSource (SourceMetadata R)))
    (current : List ReconciliationSourceMetadata) (plan : ReconciliationPlan) : Prop where
  once : (plan.unchanged ++ plan.audit.map Prod.fst ++ plan.refresh).Perm
    (current.map ReconciliationSourceMetadata.path)
  remove : plan.remove.Perm ((rows.map StoredSource.path).filter
    (· ∉ current.map ReconciliationSourceMetadata.path))
  settled : ∀ source ∈ current, source.path ∈ plan.unchanged ++ plan.audit.map Prod.fst →
    ∃ row ∈ rows, row.path = source.path ∧ SameMetadata source row ∧
      (wasOversized row = true ↔ source.indexable = false)
  retried : ∀ source ∈ current, source.indexable = true → ∀ row ∈ rows, row.path = source.path →
    row.outcome = .skipped → row.contentHash = none → source.path ∈ plan.refresh

lemma planReconciliation_partitions {plan : ReconciliationPlan}
    (hdistinct : (current.map ReconciliationSourceMetadata.path).Nodup)
    (h : planReconciliation build index vaultId current = .ok plan) :
    Partitions (vaultRows index.tables vaultId) current plan := by
  obtain ⟨⟨-, -, -, hinventoried⟩, rfl⟩ := planReconciliation_ok.mp h
  set stored := vaultInventory index.tables vaultId with hstored
  obtain ⟨hunchanged, haudit, hrefresh, hleft⟩ :=
    planSources_spec current ⟨stored, 0, [], [], []⟩ hdistinct
  simp only [nil_append] at hunchanged haudit hrefresh
  refine ⟨?_, ?_, ?_, ?_⟩
  · simp only [planSources, hunchanged, haudit, hrefresh]
    exact perm_lists stored current
  · simp only [planSources, hleft]
    have hfilter : mapKeys (stored.filter (·.1 ∉ current.map ReconciliationSourceMetadata.path)) =
        (mapKeys stored).filter (· ∉ current.map ReconciliationSourceMetadata.path) := by
      rw [mapKeys, mapKeys, filter_map]
      rfl
    rw [hfilter]
    exact (sortBy_perm _ _).trans (mapKeys_vaultInventory.filter _)
  · intro source hsource hlisted
    simp only [planSources, hunchanged, haudit] at hlisted
    obtain ⟨other, hother, hpath, hstanding⟩ := mem_settledPaths.mp hlisted
    obtain rfl : other = source := inj_on_of_nodup_map hdistinct hother hsource hpath
    cases hlookup : stored.lookup other.path with
    | none =>
      rw [hlookup] at hstanding
      exact absurd rfl hstanding
    | some row =>
      rw [hlookup] at hstanding
      obtain ⟨hrow, hpath'⟩ := (lookup_vaultInventory hinventoried).mp hlookup
      obtain ⟨hsame, hcase⟩ := standing_ne_refresh.mp hstanding
      refine ⟨row, hrow, hpath', hsame, ?_⟩
      rcases hcase with ⟨hindexable, hover⟩ | ⟨hindexable, hhash⟩
      · simp [hindexable, hover]
      · simp [hindexable, wasOversized, hhash]
  · intro source hsource hindexable row hrow hpath hskipped hhash
    have hlookup := (lookup_vaultInventory hinventoried).mpr ⟨hrow, hpath⟩
    simp only [planSources, hrefresh]
    refine mem_refreshPaths.mpr ⟨source, hsource, rfl, ?_⟩
    rw [← hstored] at hlookup
    rw [hlookup]
    by_contra hne
    obtain ⟨-, ⟨hnot, -⟩ | ⟨-, hsome⟩⟩ := standing_ne_refresh.mp hne
    · rw [hindexable] at hnot
      cases hnot
    · exact hsome hhash

end

end Kwiry.Plugin
