import Mathlib.Data.List.Perm.Basic
import Kwiry.Plugin.Fts5Index

/-!
# Accounting of an Index

Postings stay in step with the rows that own them, each source's tallies with its rows, and the
counters with the tables. Deleting a source deletes all it owns; what is inserted for a source is
invisible to the tallies of the others, and its own row lands when its tallies are known. The
counters change by what a batch touches, and the rows it touches are those it deletes.
-/

namespace Kwiry.Plugin

open Foundations List

variable {M C : Type}

/-! ## §1 The invariant -/

structure Tables.Consistent (tables : Tables M C) : Prop where
  keys : tables.sourceKeys.Nodup
  chunkRowids : (tables.chunks.map ChunkRow.rowid).Nodup
  propertyRowids : (tables.properties.map PropertyRow.rowid).Nodup
  chunksFts : tables.chunksFts.docsize.Perm (tables.chunks.map ChunkRow.rowid)
  exactIdentifierFts : tables.exactIdentifierFts.docsize.Perm (tables.chunks.map ChunkRow.rowid)
  propertyTextFts : tables.propertyTextFts.docsize.Perm (tables.properties.map PropertyRow.rowid)
  tallies : ∀ source ∈ tables.sources, TalliesMatch tables source
  chunkOwners : ∀ chunk ∈ tables.chunks, chunk.sourceKey ∈ tables.indexedKeys
  propertyOwners : ∀ property ∈ tables.properties, property.sourceKey ∈ tables.indexedKeys
  scalarOwners : ∀ scalar ∈ tables.scalars,
    (scalar.sourceKey, scalar.propertyName) ∈ tables.properties.map PropertyRow.identity

/-- The counters are a recount of the tables. -/
structure GenerationIndex.Accounted (index : GenerationIndex M C) : Prop where
  consistent : index.tables.Consistent
  documents : index.documentCount = index.tables.indexedKeys.length
  chunks : index.chunkCount = index.tables.chunks.length
  zeroChunkSources : index.zeroChunkSourceCount =
    (index.tables.sources.filter fun source => source.outcome = .indexed ∧
      source.sourceKey ∉ index.tables.chunks.map ChunkRow.sourceKey).length
  sources : index.sourceCount = index.tables.sources.length
  formats : ∀ format coverage, index.formatCounts format coverage =
    (index.tables.sources.filter fun source =>
      source.sourceFormat = format ∧ source.extractionCoverage = coverage).length

def Tables.shadowed (tables : Tables M C) : List ℕ × List ℕ × List ℕ :=
  (tables.chunksFts.shadowed, tables.exactIdentifierFts.shadowed, tables.propertyTextFts.shadowed)

variable {key other vaultId : Text}

lemma mem_indexedKeys {tables : Tables M C} :
    key ∈ tables.indexedKeys ↔
      ∃ source ∈ tables.sources, source.outcome = .indexed ∧ source.sourceKey = key := by
  simp [Tables.indexedKeys, and_assoc]

lemma mem_sourceKeys_of_indexed {tables : Tables M C} (h : key ∈ tables.indexedKeys) :
    key ∈ tables.sourceKeys := by
  obtain ⟨source, hmem, -, rfl⟩ := mem_indexedKeys.mp h
  exact mem_map_of_mem hmem

/-! ## §2 Full-text tables -/

variable {R : Type}

namespace FtsTable

variable {table : FtsTable}

lemma insert_fresh {rowid : ℕ} (h : rowid ∉ table.docsize) :
    table.insert rowid = { table with docsize := table.docsize ++ [rowid] } :=
  if_neg h

lemma nodup_insert (h : table.docsize.Nodup) (rowid : ℕ) :
    (table.insert rowid).docsize.Nodup := by
  unfold insert
  split
  · exact h
  · next hfresh =>
    refine nodup_append.mpr ⟨h, nodup_singleton _, ?_⟩
    rintro a ha b hb rfl
    exact hfresh (mem_singleton.mp hb ▸ ha)

/-- Postings that match rows still do when the rows of one source are deleted from both. -/
theorem perm_deleteRows {rows : List R} {rowid : R → ℕ} {owner : R → Text}
    (hnodup : (rows.map rowid).Nodup) (hperm : table.docsize.Perm (rows.map rowid)) :
    (table.deleteRows ((rows.filter (owner · = key)).map rowid)).docsize.Perm
      ((rows.filter (owner · ≠ key)).map rowid) := by
  have hfilter : (rows.map rowid).filter (· ∉ (rows.filter (owner · = key)).map rowid) =
      (rows.filter (owner · ≠ key)).map rowid := by
    rw [filter_map]
    refine congrArg (map rowid) (filter_congr fun row hrow => decide_eq_decide.mpr ?_)
    refine not_congr ⟨fun h => ?_, fun h => ?_⟩
    · obtain ⟨other, hother, heq⟩ := mem_map.mp h
      obtain ⟨hmem, howner⟩ := mem_filter.mp hother
      rw [← inj_on_of_nodup_map hnodup hmem hrow heq]
      exact of_decide_eq_true howner
    · exact mem_map_of_mem (mem_filter.mpr ⟨hrow, decide_eq_true h⟩)
  rw [deleteRows, ← hfilter]
  exact hperm.filter _

/-- A posting for a row that was not there before. -/
theorem perm_insert {rows : List R} {rowid : R → ℕ} (row : R)
    (hperm : table.docsize.Perm (rows.map rowid)) (hfresh : rowid row ∉ rows.map rowid) :
    (table.insert (rowid row)).docsize.Perm ((rows ++ [row]).map rowid) ∧
      (table.insert (rowid row)).shadowed = table.shadowed := by
  rw [insert_fresh (mt hperm.mem_iff.mp hfresh), map_append]
  exact ⟨hperm.append_right _, rfl⟩

lemma perm_of_match {rowids : List ℕ} (h : PostingsMatch table rowids)
    (hdocsize : table.docsize.Nodup) (hrowids : rowids.Nodup) : table.docsize.Perm rowids :=
  (perm_ext_iff_of_nodup hdocsize hrowids).mpr fun rowid =>
    ⟨h.noOrphan rowid, h.noneMissing rowid⟩

end FtsTable

/-! ## §3 Deleting a source -/

/-- The tables without a source and what it owns. -/
def Tables.without (tables : Tables M C) (key : Text) : Tables M C :=
  { tables with
    sources := tables.sources.filter (·.sourceKey ≠ key)
    chunks := tables.chunks.filter (·.sourceKey ≠ key)
    chunksFts := tables.chunksFts.deleteRows (tables.chunkRowids key)
    exactIdentifierFts := tables.exactIdentifierFts.deleteRows (tables.chunkRowids key)
    exactAliases := tables.exactAliases.filter (·.2 ≠ key)
    properties := tables.properties.filter (·.sourceKey ≠ key)
    scalars := tables.scalars.filter (·.sourceKey ≠ key)
    propertyTextFts := tables.propertyTextFts.deleteRows (tables.propertyRowids key) }

variable {mutation mutation' : Mutation M C}

section Changing

variable {sqlite : Sqlite M C} {build : IndexBuild M C}

variable {tables' : Tables M C}

lemma exec_ok {tables : Tables M C} {statement : Statement M C}
    (h : tables.exec sqlite statement = .ok tables') : tables.perform statement = .ok tables' :=
  (bind_unit_ok_iff.mp h).2

lemma foldlM_exec_cons {tables : Tables M C} {statement : Statement M C}
    {rest : List (Statement M C)}
    (h : (statement :: rest).foldlM (fun tables s => tables.exec sqlite s) tables = .ok tables') :
    ∃ next, tables.perform statement = .ok next ∧
      rest.foldlM (fun tables s => tables.exec sqlite s) next = .ok tables' := by
  obtain ⟨next, hexec, hrest⟩ := foldlM_cons_ok _ h
  exact ⟨next, exec_ok hexec, hrest⟩

lemma deleteSourceRows_ok {tables : Tables M C}
    (h : deleteSourceRows sqlite tables key = .ok tables') : tables' = tables.without key := by
  obtain ⟨_, h₁, h⟩ := foldlM_exec_cons h
  obtain ⟨_, h₂, h⟩ := foldlM_exec_cons h
  obtain ⟨_, h₃, h⟩ := foldlM_exec_cons h
  obtain ⟨_, h₄, h⟩ := foldlM_exec_cons h
  obtain ⟨_, h₅, h⟩ := foldlM_exec_cons h
  obtain ⟨_, h₆, h⟩ := foldlM_exec_cons h
  obtain ⟨_, h₇, h⟩ := foldlM_exec_cons h
  obtain ⟨_, h₈, h⟩ := foldlM_exec_cons h
  cases h₁
  cases h₂
  cases h₃
  cases h₄
  cases h₅
  cases h₆
  cases h₇
  cases h₈
  cases h
  rfl

lemma mem_indexedKeys_without {tables : Tables M C} (h : other ∈ tables.indexedKeys)
    (hne : other ≠ key) : other ∈ (tables.without key).indexedKeys := by
  obtain ⟨source, hmem, hindexed, rfl⟩ := mem_indexedKeys.mp h
  exact mem_indexedKeys.mpr ⟨source, mem_filter.mpr ⟨hmem, by simpa using hne⟩, hindexed, rfl⟩

/-- The rows of a source that stays are not touched by the deletion of another. -/
theorem filter_key_without {rows : List R} (owner : R → Text) (hne : other ≠ key) :
    (rows.filter (owner · ≠ key)).filter (owner · = other) = rows.filter (owner · = other) := by
  rw [filter_filter]
  refine filter_congr fun row _ => ?_
  by_cases h : owner row = other <;> simp [h, hne]

lemma Tables.Consistent.without {tables : Tables M C} (h : tables.Consistent) (key : Text) :
    (tables.without key).Consistent where
  keys := h.keys.sublist (filter_sublist.map _)
  chunkRowids := h.chunkRowids.sublist (filter_sublist.map _)
  propertyRowids := h.propertyRowids.sublist (filter_sublist.map _)
  chunksFts := FtsTable.perm_deleteRows h.chunkRowids h.chunksFts
  exactIdentifierFts := FtsTable.perm_deleteRows h.chunkRowids h.exactIdentifierFts
  propertyTextFts := FtsTable.perm_deleteRows h.propertyRowids h.propertyTextFts
  tallies := by
    intro source hsource
    obtain ⟨hmem, hne⟩ := mem_filter.mp hsource
    have hne : source.sourceKey ≠ key := by simpa using hne
    obtain ⟨hchunks, hproperties, hscalars⟩ := h.tallies source hmem
    refine ⟨?_, ?_, ?_⟩
    · rw [hchunks]
      exact congrArg length (filter_key_without ChunkRow.sourceKey hne).symm
    · rw [hproperties]
      exact congrArg length (filter_key_without PropertyRow.sourceKey hne).symm
    · rw [hscalars]
      exact congrArg length (filter_key_without ScalarRow.sourceKey hne).symm
  chunkOwners := by
    intro chunk hchunk
    obtain ⟨hmem, hne⟩ := mem_filter.mp hchunk
    exact mem_indexedKeys_without (h.chunkOwners chunk hmem) (by simpa using hne)
  propertyOwners := by
    intro property hproperty
    obtain ⟨hmem, hne⟩ := mem_filter.mp hproperty
    exact mem_indexedKeys_without (h.propertyOwners property hmem) (by simpa using hne)
  scalarOwners := by
    intro scalar hscalar
    obtain ⟨hmem, hne⟩ := mem_filter.mp hscalar
    obtain ⟨property, hproperty, heq⟩ := mem_map.mp (h.scalarOwners scalar hmem)
    have hkey : property.sourceKey = scalar.sourceKey := (Prod.mk.inj heq).1
    exact mem_map.mpr ⟨property, mem_filter.mpr ⟨hproperty, by rwa [hkey]⟩, heq⟩

/-- The tables without some sources. -/
def Tables.withoutAll (tables : Tables M C) (keys : List Text) : Tables M C :=
  keys.foldl Tables.without tables

lemma deleteSources_ok {tables : Tables M C} {keys : List Text}
    (h : keys.foldlM (fun tables key => deleteSourceRows sqlite tables key) tables = .ok tables') :
    tables' = tables.withoutAll keys := by
  induction keys generalizing tables with
  | nil =>
    cases h
    rfl
  | cons key rest ih =>
    obtain ⟨next, hdelete, hrest⟩ := foldlM_cons_ok _ h
    rw [ih hrest, deleteSourceRows_ok hdelete]
    rfl

lemma Tables.Consistent.withoutAll {tables : Tables M C} (h : tables.Consistent)
    (keys : List Text) : (tables.withoutAll keys).Consistent :=
  foldl_induction (P := Tables.Consistent) (fun _ key h => h.without key) keys h

lemma withoutAll_sources (tables : Tables M C) (keys : List Text) :
    (tables.withoutAll keys).sources = tables.sources.filter (·.sourceKey ∉ keys) ∧
      (tables.withoutAll keys).chunks = tables.chunks.filter (·.sourceKey ∉ keys) ∧
      (tables.withoutAll keys).shadowed = tables.shadowed := by
  induction keys generalizing tables with
  | nil => exact ⟨by simp [Tables.withoutAll], by simp [Tables.withoutAll], rfl⟩
  | cons key rest ih =>
    obtain ⟨hsources, hchunks, hshadowed⟩ := ih (tables.without key)
    have hsplit : ∀ k : Text, (decide (k ∉ rest) && decide (k ≠ key)) = decide (k ∉ key :: rest) := by
      intro k
      simp [Bool.and_comm]
    change ((tables.without key).withoutAll rest).sources = _ ∧
      ((tables.without key).withoutAll rest).chunks = _ ∧
      ((tables.without key).withoutAll rest).shadowed = _
    rw [hsources, hchunks, hshadowed]
    refine ⟨?_, ?_, rfl⟩
    · simp only [Tables.without, filter_filter, hsplit]
    · simp only [Tables.without, filter_filter, hsplit]

/-! ## §4 Inserting a source -/

/-- Tables that have grown by rows of one source, whose own row is still to come. -/
structure Inserting (tables grown : Tables M C) (key : Text) (chunks properties scalars : ℕ) :
    Prop where
  sources : grown.sources = tables.sources
  chunks : ∃ rows, grown.chunks = tables.chunks ++ rows ∧ rows.length = chunks ∧
    ∀ row ∈ rows, row.sourceKey = key
  properties : ∃ rows, grown.properties = tables.properties ++ rows ∧ rows.length = properties ∧
    ∀ row ∈ rows, row.sourceKey = key
  scalars : ∃ rows, grown.scalars = tables.scalars ++ rows ∧ rows.length = scalars ∧
    ∀ row ∈ rows, row.sourceKey = key ∧
      (row.sourceKey, row.propertyName) ∈ grown.properties.map PropertyRow.identity
  chunkRowids : (grown.chunks.map ChunkRow.rowid).Nodup
  propertyRowids : (grown.properties.map PropertyRow.rowid).Nodup
  chunksFts : grown.chunksFts.docsize.Perm (grown.chunks.map ChunkRow.rowid)
  exactIdentifierFts : grown.exactIdentifierFts.docsize.Perm (grown.chunks.map ChunkRow.rowid)
  propertyTextFts : grown.propertyTextFts.docsize.Perm (grown.properties.map PropertyRow.rowid)
  shadowed : grown.shadowed = tables.shadowed

lemma Inserting.start {tables : Tables M C} (h : tables.Consistent) (key : Text) :
    Inserting tables tables key 0 0 0 where
  sources := rfl
  chunks := ⟨[], by simp, rfl, by simp⟩
  properties := ⟨[], by simp, rfl, by simp⟩
  scalars := ⟨[], by simp, rfl, by simp⟩
  chunkRowids := h.chunkRowids
  propertyRowids := h.propertyRowids
  chunksFts := h.chunksFts
  exactIdentifierFts := h.exactIdentifierFts
  propertyTextFts := h.propertyTextFts
  shadowed := rfl

lemma nodup_append_fresh {α : Type} {items : List α} {a : α} (h : items.Nodup) (ha : a ∉ items) :
    (items ++ [a]).Nodup :=
  nodup_append.mpr ⟨h, nodup_singleton _, by
    rintro b hb c hc rfl
    exact ha (mem_singleton.mp hc ▸ hb)⟩

/-- A row that gets appended to rows of one source. -/
theorem grow {rows old : List R} {n : ℕ} {P : R → Prop} {row : R} (hrow : P row)
    (h : ∃ new, rows = old ++ new ∧ new.length = n ∧ ∀ r ∈ new, P r) :
    ∃ new, rows ++ [row] = old ++ new ∧ new.length = n + 1 ∧ ∀ r ∈ new, P r := by
  obtain ⟨new, rfl, hlength, hnew⟩ := h
  refine ⟨new ++ [row], append_assoc _ _ _, by simp [hlength], fun r hr => ?_⟩
  rcases mem_append.mp hr with hr | hr
  · exact hnew r hr
  · exact mem_singleton.mp hr ▸ hrow

section Rows

variable {tables : Tables M C} {change : ProjectedPreparation M C} {chunks properties scalars : ℕ}

/-- One chunk with its two postings. -/
theorem Inserting.chunk {row : ProjectedChunk C}
    (h : Inserting tables mutation.tables change.preparation.sourceKey chunks properties scalars)
    (hinsert : insertChunkRow sqlite change mutation row = .ok mutation') :
    Inserting tables mutation'.tables change.preparation.sourceKey (chunks + 1) properties
      scalars := by
  simp only [insertChunkRow, bind_ok_iff] at hinsert
  obtain ⟨-, -, inserted, hchunk, posted, hpost, identified, hidentify, hresult⟩ := hinsert
  cases hresult
  obtain ⟨hfresh, hinserted⟩ := bind_unit_ok_iff.mp (exec_ok hchunk)
  cases hinserted
  cases exec_ok hpost
  cases exec_ok hidentify
  simp only [rejectIf_ok, not_or] at hfresh
  obtain ⟨-, hrowid, -⟩ := hfresh
  let added : ChunkRow C := ⟨mutation.nextChunkRowid + 1, change.preparation.sourceKey, row.chunkId,
    row.vaultId, row.path, row.stored⟩
  obtain ⟨hchunksFts, hchunksShadowed⟩ := FtsTable.perm_insert added h.chunksFts hrowid
  obtain ⟨hexactFts, hexactShadowed⟩ := FtsTable.perm_insert added h.exactIdentifierFts hrowid
  refine ⟨h.sources, grow rfl h.chunks, h.properties, h.scalars, ?_, h.propertyRowids, hchunksFts,
    hexactFts, h.propertyTextFts, ?_⟩
  · rw [map_append]
    exact nodup_append_fresh h.chunkRowids hrowid
  · rw [← h.shadowed]
    simp only [Tables.shadowed]
    rw [hchunksShadowed, hexactShadowed]

variable {grown : Tables M C}

/-- Scalars of properties that are there. -/
theorem Inserting.scalarRows {grown' : Tables M C} {name : Text}
    {values : List (Text × PropertyValue)}
    (hname : (key, name) ∈ grown.properties.map PropertyRow.identity)
    (hinsert : values.foldlM (fun tables scalar => tables.exec sqlite
      (.insertPropertyScalar ⟨key, name, scalar.1, scalar.2⟩)) grown = .ok grown') :
    ∃ rows, grown' = { grown with scalars := grown.scalars ++ rows } ∧
      rows.length = values.length ∧ ∀ row ∈ rows, row.sourceKey = key ∧
        (row.sourceKey, row.propertyName) ∈ grown.properties.map PropertyRow.identity := by
  induction values generalizing grown with
  | nil =>
    cases hinsert
    exact ⟨[], by simp, rfl, by simp⟩
  | cons value rest ih =>
    obtain ⟨next, hexec, hrest⟩ := foldlM_cons_ok _ hinsert
    obtain ⟨-, hnext⟩ := bind_unit_ok_iff.mp (exec_ok hexec)
    cases hnext
    obtain ⟨rows, hrows, hlength, hall⟩ := ih (by exact hname) hrest
    refine ⟨⟨key, name, value.1, value.2⟩ :: rows, by simpa using hrows, by simp [hlength], ?_⟩
    intro row hrow
    rcases mem_cons.mp hrow with rfl | hrow
    · exact ⟨rfl, hname⟩
    · exact hall row hrow

/-- One property with its scalars and its posting. -/
theorem Inserting.property {tally tally' : PropertyTally M C} {property : Text × PropertyValue}
    (h : Inserting tables tally.tables change.preparation.sourceKey chunks tally.propertyCount
      tally.propertyScalarCount)
    (hinsert : insertPropertyRow sqlite change tally property = .ok tally') :
    Inserting tables tally'.tables change.preparation.sourceKey chunks tally'.propertyCount
      tally'.propertyScalarCount := by
  simp only [insertPropertyRow, bind_ok_iff] at hinsert
  obtain ⟨-, -, inserted, hproperty, scaled, hscalars, posted, hpost, hresult⟩ := hinsert
  cases hresult
  obtain ⟨hfresh, hinserted⟩ := bind_unit_ok_iff.mp (exec_ok hproperty)
  cases hinserted
  simp only [rejectIf_ok, not_or] at hfresh
  obtain ⟨-, hrowid, -⟩ := hfresh
  let added : PropertyRow :=
    ⟨tally.nextPropertyRowid + 1, change.preparation.sourceKey, property.1, property.2⟩
  have hname : (change.preparation.sourceKey, property.1) ∈
      (tally.tables.properties ++ [added]).map PropertyRow.identity := by
    simp [PropertyRow.identity, added]
  obtain ⟨rows, rfl, hlength, hrows⟩ := Inserting.scalarRows hname hscalars
  cases exec_ok hpost
  obtain ⟨hfts, hftsShadowed⟩ := FtsTable.perm_insert added h.propertyTextFts hrowid
  refine ⟨h.sources, h.chunks, grow rfl h.properties, ?_, h.chunkRowids, ?_, h.chunksFts,
    h.exactIdentifierFts, hfts, ?_⟩
  · obtain ⟨new, hnew, hnewLength, hall⟩ := h.scalars
    refine ⟨new ++ rows, ?_, by rw [length_append, hnewLength, hlength], fun row hrow => ?_⟩
    · simp only [hnew, append_assoc]
    · rcases mem_append.mp hrow with hrow | hrow
      · obtain ⟨hkey, hmem⟩ := hall row hrow
        refine ⟨hkey, ?_⟩
        rw [map_append]
        exact mem_append_left _ hmem
      · exact hrows row hrow
  · rw [map_append]
    exact nodup_append_fresh h.propertyRowids hrowid
  · rw [← h.shadowed]
    simp only [Tables.shadowed]
    rw [hftsShadowed]

lemma Inserting.chunkRows {rows : List (ProjectedChunk C)}
    (h : Inserting tables mutation.tables change.preparation.sourceKey chunks properties scalars)
    (hinsert : rows.foldlM (insertChunkRow sqlite change) mutation = .ok mutation') :
    Inserting tables mutation'.tables change.preparation.sourceKey (chunks + rows.length) properties
      scalars := by
  induction rows generalizing mutation chunks with
  | nil =>
    cases hinsert
    exact h
  | cons row rest ih =>
    obtain ⟨next, hrow, hrest⟩ := foldlM_cons_ok _ hinsert
    rw [length_cons, Nat.add_comm rest.length 1, ← Nat.add_assoc]
    exact ih (h.chunk hrow) hrest

lemma Inserting.aliases {grown' : Tables M C} {values : List Text}
    (h : Inserting tables grown key chunks properties scalars)
    (hinsert : values.foldlM (fun tables value => tables.exec sqlite
      (.insertExactAlias value key)) grown = .ok grown') :
    Inserting tables grown' key chunks properties scalars := by
  refine foldlM_induction _ (fun t => Inserting tables t key chunks properties scalars)
    (fun t t' value _ ht hexec => ?_) h hinsert
  obtain ⟨-, hinserted⟩ := bind_unit_ok_iff.mp (exec_ok hexec)
  cases hinserted
  exact ⟨ht.sources, ht.chunks, ht.properties, ht.scalars, ht.chunkRowids, ht.propertyRowids,
    ht.chunksFts, ht.exactIdentifierFts, ht.propertyTextFts, ht.shadowed⟩

/-- The rows of other sources, when one source has grown. -/
theorem filter_append_other {old new : List R} {owner : R → Text}
    (hnew : ∀ row ∈ new, owner row = key) (hne : other ≠ key) :
    (old ++ new).filter (owner · = other) = old.filter (owner · = other) := by
  have hnone : new.filter (owner · = other) = [] := by
    refine filter_eq_nil_iff.mpr fun row hrow => ?_
    simpa [hnew row hrow] using hne.symm
  rw [filter_append, hnone, append_nil]

/-- The rows of a source that is new. -/
theorem filter_append_own {old new : List R} {owner : R → Text}
    (hold : ∀ row ∈ old, owner row ≠ key) (hnew : ∀ row ∈ new, owner row = key) :
    (old ++ new).filter (owner · = key) = new := by
  have hnone : old.filter (owner · = key) = [] :=
    filter_eq_nil_iff.mpr fun row hrow => by simpa using hold row hrow
  have hall : new.filter (owner · = key) = new :=
    filter_eq_self.mpr fun row hrow => by simpa using hnew row hrow
  rw [filter_append, hnone, hall, nil_append]

/-- The source's own row closes the insertion. -/
theorem Inserting.source {row : StoredSource M} (hconsistent : tables.Consistent)
    (h : Inserting tables grown row.sourceKey row.chunkCount row.propertyCount
      row.propertyScalarCount) (hinsert : grown.perform (.insertSource row) = .ok tables') :
    tables'.Consistent ∧ tables'.sources = tables.sources ++ [row] ∧
      tables'.chunks.length = tables.chunks.length + row.chunkCount ∧
      tables'.shadowed = tables.shadowed := by
  obtain ⟨haccept, hresult⟩ := bind_unit_ok_iff.mp hinsert
  cases hresult
  simp only [rejectIf_ok, not_or, Bool.not_eq_false] at haccept
  obtain ⟨hfresh, -, hchecks⟩ := haccept
  rw [h.sources] at hfresh
  obtain ⟨chunkRows, hchunks, hchunkCount, hchunkKeys⟩ := h.chunks
  obtain ⟨propertyRows, hproperties, hpropertyCount, hpropertyKeys⟩ := h.properties
  obtain ⟨scalarRows, hscalars, hscalarCount, hscalarKeys⟩ := h.scalars
  have hne : ∀ {key}, key ∈ tables.sourceKeys → key ≠ row.sourceKey := by
    rintro key hkey rfl
    exact hfresh hkey
  have hindexed : row.chunkCount ≠ 0 ∨ row.propertyCount ≠ 0 → row.outcome = .indexed := by
    intro hsome
    simp only [StoredSource.checks, Bool.decide_and, Bool.and_eq_true, decide_eq_true_eq] at hchecks
    rcases hchecks.2.2.2 with houtcome | ⟨hzero, hzero', -⟩
    · exact houtcome
    · exact absurd hsome (by simp [hzero, hzero'])
  have hold : ∀ {key}, key ∈ tables.indexedKeys →
      key ∈ ({ grown with sources := grown.sources ++ [row] } : Tables M C).indexedKeys := by
    intro key hkey
    obtain ⟨source, hmem, houtcome, rfl⟩ := mem_indexedKeys.mp hkey
    refine mem_indexedKeys.mpr ⟨source, mem_append_left _ ?_, houtcome, rfl⟩
    rwa [h.sources]
  have hnew : row.outcome = .indexed → row.sourceKey ∈
      ({ grown with sources := grown.sources ++ [row] } : Tables M C).indexedKeys := fun houtcome =>
    mem_indexedKeys.mpr ⟨row, by simp, houtcome, rfl⟩
  have hscalarOwner : ∀ scalar ∈ tables.scalars, scalar.sourceKey ∈ tables.sourceKeys := by
    intro scalar hscalar
    obtain ⟨property, hproperty, heq⟩ := mem_map.mp (hconsistent.scalarOwners scalar hscalar)
    rw [← (Prod.mk.inj heq).1]
    exact mem_sourceKeys_of_indexed (hconsistent.propertyOwners property hproperty)
  refine ⟨⟨?_, h.chunkRowids, h.propertyRowids, h.chunksFts, h.exactIdentifierFts,
    h.propertyTextFts, ?_, ?_, ?_, ?_⟩, by rw [h.sources], ?_, h.shadowed⟩
  · rw [Tables.sourceKeys, map_append, h.sources]
    exact nodup_append_fresh hconsistent.keys hfresh
  · intro source hsource
    simp only [TalliesMatch, hchunks, hproperties, hscalars]
    rw [h.sources] at hsource
    rcases mem_append.mp hsource with hmem | hmem
    · have hother := hne (mem_map_of_mem hmem)
      obtain ⟨htally, htally', htally''⟩ := hconsistent.tallies source hmem
      rw [filter_append_other hchunkKeys hother, filter_append_other hpropertyKeys hother,
        filter_append_other (fun r hr => (hscalarKeys r hr).1) hother]
      exact ⟨htally, htally', htally''⟩
    · obtain rfl : source = row := mem_singleton.mp hmem
      rw [filter_append_own (fun r hr => hne (mem_sourceKeys_of_indexed
          (hconsistent.chunkOwners r hr))) hchunkKeys,
        filter_append_own (fun r hr => hne (mem_sourceKeys_of_indexed
          (hconsistent.propertyOwners r hr))) hpropertyKeys,
        filter_append_own (fun r hr => hne (hscalarOwner r hr)) fun r hr => (hscalarKeys r hr).1]
      exact ⟨hchunkCount.symm, hpropertyCount.symm, hscalarCount.symm⟩
  · intro chunk hchunk
    rw [hchunks] at hchunk
    rcases mem_append.mp hchunk with hmem | hmem
    · exact hold (hconsistent.chunkOwners chunk hmem)
    · rw [hchunkKeys chunk hmem]
      exact hnew (hindexed (.inl (hchunkCount ▸ (length_pos_of_mem hmem).ne')))
  · intro property hproperty
    rw [hproperties] at hproperty
    rcases mem_append.mp hproperty with hmem | hmem
    · exact hold (hconsistent.propertyOwners property hmem)
    · rw [hpropertyKeys property hmem]
      exact hnew (hindexed (.inr (hpropertyCount ▸ (length_pos_of_mem hmem).ne')))
  · intro scalar hscalar
    rw [hscalars] at hscalar
    rcases mem_append.mp hscalar with hmem | hmem
    · rw [hproperties, map_append]
      exact mem_append_left _ (hconsistent.scalarOwners scalar hmem)
    · exact (hscalarKeys scalar hmem).2
  · rw [hchunks, length_append, hchunkCount]

/-- **Inserting a source keeps the tables consistent**, and shadows no posting. -/
theorem insertChange_consistent (h : mutation.tables.Consistent)
    (hinsert : insertChange sqlite build mutation change = .ok mutation') :
    mutation'.tables.Consistent ∧
      (∃ properties scalars, mutation'.tables.sources =
        mutation.tables.sources ++ [storedSource build change properties scalars]) ∧
      mutation'.tables.chunks.length = mutation.tables.chunks.length + change.rows.length ∧
      mutation'.tables.shadowed = mutation.tables.shadowed := by
  simp only [insertChange, bind_ok_iff] at hinsert
  obtain ⟨tally, hproperties, chunked, hchunks, aliased, haliases, finished, hsource, hresult⟩ :=
    hinsert
  cases hresult
  have hstart := Inserting.start h change.preparation.sourceKey
  have hinserted : Inserting mutation.tables tally.tables change.preparation.sourceKey 0
      tally.propertyCount tally.propertyScalarCount :=
    foldlM_induction _ (fun t : PropertyTally M C => Inserting mutation.tables t.tables
      change.preparation.sourceKey 0 t.propertyCount t.propertyScalarCount)
      (fun _ _ _ _ ht hstep => ht.property hstep) hstart hproperties
  have hrows := (hinserted.chunkRows hchunks).aliases haliases
  rw [Nat.zero_add] at hrows
  let row := storedSource build change tally.propertyCount tally.propertyScalarCount
  have hrow : Inserting mutation.tables aliased row.sourceKey row.chunkCount row.propertyCount
    row.propertyScalarCount := hrows
  obtain ⟨hconsistent, hsources, hlength, hshadowed⟩ := hrow.source h (exec_ok hsource)
  exact ⟨hconsistent, ⟨_, _, hsources⟩, hlength, hshadowed⟩

end Rows

end Changing

/-! ## §5 Counting sources -/

/-- What the counters ask of a source. -/
abbrev Criterion := SourceOutcome → ℕ → SourceFormat → ExtractionCoverage → Bool

def StoredSource.meets (q : Criterion) (source : StoredSource M) : Bool :=
  q source.outcome source.chunkCount source.sourceFormat source.extractionCoverage

def ProjectedPreparation.meets (q : Criterion) (change : ProjectedPreparation M C) : Bool :=
  q change.preparation.kind change.rows.length change.preparation.format
    change.preparation.coverage

variable {projected : List (ProjectedPreparation M C)}

section Counting

variable {sqlite : Sqlite M C} {build : IndexBuild M C} {tables : Tables M C}

/-- Inserting sources adds to each count those that meet it. -/
theorem insertChanges_consistent (h : mutation.tables.Consistent)
    (hinsert : projected.foldlM (insertChange sqlite build) mutation = .ok mutation') :
    mutation'.tables.Consistent ∧
      (∀ q, mutation'.tables.sources.countP (·.meets q) =
        mutation.tables.sources.countP (·.meets q) + projected.countP (·.meets q)) ∧
      mutation'.tables.chunks.length =
        mutation.tables.chunks.length + (projected.map (·.rows.length)).sum ∧
      mutation'.tables.shadowed = mutation.tables.shadowed := by
  induction projected generalizing mutation with
  | nil =>
    cases hinsert
    exact ⟨h, fun _ => rfl, rfl, rfl⟩
  | cons change rest ih =>
    obtain ⟨next, hchange, hrest⟩ := foldlM_cons_ok _ hinsert
    obtain ⟨hconsistent, ⟨properties, scalars, hsources⟩, hchunks, hshadowed⟩ :=
      insertChange_consistent h hchange
    obtain ⟨hconsistent', hcounts, hchunks', hshadowed'⟩ := ih hconsistent hrest
    refine ⟨hconsistent', fun q => ?_, ?_, hshadowed'.trans hshadowed⟩
    · have hone : [storedSource build change properties scalars].countP (·.meets q) =
          [change].countP (·.meets q) := rfl
      rw [hcounts, hsources, countP_append, hone, Nat.add_assoc, ← countP_append, singleton_append]
    · rw [hchunks', hchunks, map_cons, sum_cons, Nat.add_assoc]

/-- The rows of some sources, counted source by source. -/
theorem sum_filter_key (rows : List R) (owner : R → Text) {keys : List Text} (hnodup : keys.Nodup) :
    (keys.map fun key => (rows.filter (owner · = key)).length).sum =
      (rows.filter (owner · ∈ keys)).length := by
  induction keys with
  | nil => simp
  | cons key rest ih =>
    rw [nodup_cons] at hnodup
    rw [map_cons, sum_cons, ih hnodup.2, ← countP_eq_length_filter,
      ← countP_eq_length_filter, ← countP_eq_length_filter,
      countP_eq_countP_filter_add rows (fun row => decide (owner row ∈ key :: rest))
        fun row => decide (owner row = key)]
    congr 1
    · rw [countP_filter]
      refine countP_congr fun row _ => ?_
      by_cases hkey : owner row = key <;> simp [hkey]
    · rw [countP_filter]
      refine countP_congr fun row _ => ?_
      by_cases hkey : owner row = key
      · simp [hkey, hnodup.1]
      · simp [hkey]

/-- What a batch touches: stored sources, under their keys. -/
structure TouchesStored (tables : Tables M C) (touched : Touched M) : Prop where
  nodup : (mapKeys touched).Nodup
  stored : ∀ entry ∈ touched, entry.2 ∈ tables.sources ∧ entry.2.sourceKey = entry.1

lemma parseStoredSource_mem {rows : List (StoredSource M)} {stored : StoredSource M}
    (h : parseStoredSource build rows = .ok (some stored)) : stored ∈ rows := by
  match rows, h with
  | [], h => cases h
  | [row], h =>
    obtain ⟨-, hresult⟩ := bind_unit_ok_iff.mp h
    cases hresult
    exact mem_singleton_self _
  | _ :: _ :: _, h => cases h

variable {touched : Touched M}

lemma TouchesStored.touch (h : TouchesStored tables touched) {p : StoredSource M → Bool}
    {found : Option (StoredSource M)}
    (hfound : parseStoredSource build (tables.sources.filter p) = .ok found) :
    TouchesStored tables (touch touched found) := by
  cases found with
  | none => exact h
  | some stored =>
    refine ⟨nodup_keys_mapSet h.nodup, fun entry hentry => ?_⟩
    rcases mem_mapSet.mp hentry with rfl | ⟨hentry, -⟩
    · exact ⟨(mem_filter.mp (parseStoredSource_mem hfound)).1, rfl⟩
    · exact h.stored entry hentry

lemma touchedSources_ok {removals : List SourceRemoval}
    (h : touchedSources build tables projected removals = .ok touched) :
    TouchesStored tables touched := by
  obtain ⟨removed, hremovals, hprojected⟩ := bind_ok_iff.mp h
  have hremoved : TouchesStored tables removed := by
    refine foldlM_induction _ (TouchesStored tables) (fun t t' removal _ ht hstep => ?_)
      ⟨by simp [mapKeys], by simp⟩ hremovals
    obtain ⟨stored, hselect, hresult⟩ := bind_ok_iff.mp hstep
    cases hresult
    exact ht.touch hselect
  refine foldlM_induction _ (TouchesStored tables) (fun t t' change _ ht hstep => ?_) hremoved
    hprojected
  simp only [touchPreparation, bind_ok_iff] at hstep
  obtain ⟨byIdentity, hidentity, byKey, hkey, -, -, -, -, hresult⟩ := hstep
  cases hresult
  exact (ht.touch hidentity).touch hkey

lemma TouchesStored.perm (h : TouchesStored tables touched) (hkeys : tables.sourceKeys.Nodup) :
    (tables.sources.filter (·.sourceKey ∈ mapKeys touched)).Perm (touched.map Prod.snd) := by
  have hsecond : (touched.map Prod.snd).map StoredSource.sourceKey = mapKeys touched := by
    rw [map_map]
    exact map_congr_left fun entry hentry => (h.stored entry hentry).2
  refine (perm_ext_iff_of_nodup (Nodup.filter _ (Nodup.of_map _ hkeys))
    (Nodup.of_map _ (hsecond ▸ h.nodup))).mpr fun source => ?_
  constructor
  · intro hsource
    obtain ⟨hmem, hkey⟩ := mem_filter.mp hsource
    obtain ⟨stored, hstored⟩ := mem_mapKeys.mp (of_decide_eq_true hkey)
    obtain ⟨hmem', hkey'⟩ := h.stored _ hstored
    rw [inj_on_of_nodup_map hkeys hmem hmem' hkey'.symm]
    exact mem_map_of_mem hstored
  · intro hsource
    obtain ⟨entry, hentry, rfl⟩ := mem_map.mp hsource
    obtain ⟨hmem, hkey⟩ := h.stored entry hentry
    refine mem_filter.mpr ⟨hmem, decide_eq_true ?_⟩
    rw [hkey]
    exact mem_map_of_mem hentry

/-- Deleting what is touched takes from each count those that meet it. -/
theorem TouchesStored.countP (h : TouchesStored tables touched) (hkeys : tables.sourceKeys.Nodup)
    (q : Criterion) :
    tables.sources.countP (·.meets q) =
      (touched.map Prod.snd).countP (·.meets q) +
        (tables.withoutAll (mapKeys touched)).sources.countP (·.meets q) := by
  rw [countP_eq_countP_filter_add tables.sources (·.meets q)
      fun source => decide (source.sourceKey ∈ mapKeys touched),
    (h.perm hkeys).countP_eq, (withoutAll_sources tables _).1]
  congr 3
  funext source
  simp

lemma TouchesStored.chunks (h : TouchesStored tables touched) (hconsistent : tables.Consistent) :
    tables.chunks.length = ((touched.map Prod.snd).map (·.chunkCount)).sum +
      (tables.withoutAll (mapKeys touched)).chunks.length := by
  have hsum : (touched.map Prod.snd).map (·.chunkCount) =
      (mapKeys touched).map fun key => (tables.chunks.filter (·.sourceKey = key)).length := by
    rw [mapKeys, map_map, map_map]
    refine map_congr_left fun entry hentry => ?_
    obtain ⟨hmem, hkey⟩ := h.stored entry hentry
    simp only [Function.comp]
    rw [(hconsistent.tallies entry.2 hmem).1, hkey]
  rw [hsum, sum_filter_key tables.chunks ChunkRow.sourceKey h.nodup,
    (withoutAll_sources tables _).2.1, ← countP_eq_length_filter,
    ← countP_eq_length_filter,
    length_eq_countP_add_countP fun chunk => decide (chunk.sourceKey ∈ mapKeys touched)]
  congr 2
  funext chunk
  simp

end Counting

/-! ## §6 One batch -/

section

variable {sqlite : Sqlite M C} {build : IndexBuild M C} {index : GenerationIndex M C}

lemma sumSafe_ok {values : List ℕ} {total : ℕ} (h : sumSafe values = .ok total) :
    total = values.sum := by
  have hfold : ∀ {values : List ℕ} {start : ℕ}, values.foldlM (fun total value => do
      rejectIf (maxSafeInteger < value) (.error "source accounting is invalid")
      rejectIf (maxSafeInteger < total + value) (.error "source accounting exceeded its limit")
      return total + value) start = (.ok total : Except IndexFault ℕ) →
      total = start + values.sum := by
    intro values
    induction values with
    | nil =>
      intro start h
      cases h
      simp
    | cons value rest ih =>
      intro start h
      obtain ⟨next, hstep, hrest⟩ := foldlM_cons_ok _ h
      simp only [bind_ok_iff] at hstep
      obtain ⟨-, -, -, -, hnext⟩ := hstep
      cases hnext
      rw [ih hrest, sum_cons, Nat.add_assoc]
  rw [hfold h, Nat.zero_add]

lemma removeFormatCounts_ok {removed : List (StoredSource M)} {counts next : FormatCounts}
    (h : removed.foldlM removeFormatCount counts = .ok next) (format : SourceFormat)
    (coverage : ExtractionCoverage) :
    next format coverage + removed.countP (fun source =>
      source.sourceFormat = format ∧ source.extractionCoverage = coverage) =
        counts format coverage := by
  induction removed generalizing counts with
  | nil =>
    cases h
    rfl
  | cons source rest ih =>
    obtain ⟨middle, hstep, hrest⟩ := foldlM_cons_ok _ h
    obtain ⟨haccept, hmiddle⟩ := bind_unit_ok_iff.mp hstep
    cases hmiddle
    have hpositive : 0 < counts source.sourceFormat source.extractionCoverage := by
      simpa [Nat.pos_iff_ne_zero] using haccept
    rw [countP_cons, ← Nat.add_assoc, ih hrest]
    unfold FormatCounts.set
    by_cases hsame : source.sourceFormat = format ∧ source.extractionCoverage = coverage
    · obtain ⟨rfl, rfl⟩ := hsame
      simp
      omega
    · rw [if_neg (by tauto), if_neg (by simpa using hsame)]
      rfl

lemma addFormatCounts_ok {added : List (ProjectedPreparation M C)} {counts next : FormatCounts}
    (h : added.foldlM addFormatCount counts = .ok next) (format : SourceFormat)
    (coverage : ExtractionCoverage) :
    next format coverage = counts format coverage + added.countP (fun change =>
      change.preparation.format = format ∧ change.preparation.coverage = coverage) := by
  induction added generalizing counts with
  | nil =>
    cases h
    rfl
  | cons change rest ih =>
    obtain ⟨middle, hstep, hrest⟩ := foldlM_cons_ok _ h
    obtain ⟨-, hmiddle⟩ := bind_unit_ok_iff.mp hstep
    cases hmiddle
    rw [ih hrest, countP_cons]
    unfold FormatCounts.set
    by_cases hsame : change.preparation.format = format ∧ change.preparation.coverage = coverage
    · obtain ⟨rfl, rfl⟩ := hsame
      simp
      omega
    · rw [if_neg (by tauto), if_neg (by simpa using hsame)]
      rfl

def isIndexed : Criterion := fun outcome _ _ _ => outcome = .indexed

def isZeroChunk : Criterion := fun outcome chunks _ _ => outcome = .indexed ∧ chunks = 0

def hasFormat (format : SourceFormat) (coverage : ExtractionCoverage) : Criterion :=
  fun _ _ f c => f = format ∧ c = coverage

/-- The counters a plan projects: what was counted, less what is touched, plus what is added. -/
structure Projects (index : GenerationIndex M C) (plan : ChangePlan M C) : Prop where
  documents : plan.nextDocuments = (index.documentCount : ℤ) -
    ((plan.touched.map Prod.snd).countP (·.meets isIndexed) : ℕ) +
      (plan.projected.countP (·.meets isIndexed) : ℕ)
  chunks : plan.nextChunks = (index.chunkCount : ℤ) -
    (((plan.touched.map Prod.snd).map (·.chunkCount)).sum : ℕ) +
      ((plan.projected.map (·.rows.length)).sum : ℕ)
  zeroChunkSources : plan.nextZeroChunkSources = (index.zeroChunkSourceCount : ℤ) -
    ((plan.touched.map Prod.snd).countP (·.meets isZeroChunk) : ℕ) +
      (plan.projected.countP (·.meets isZeroChunk) : ℕ)
  sources : plan.nextSources =
    (index.sourceCount : ℤ) - (plan.touched.length : ℕ) + (plan.projected.length : ℕ)
  formats : ∀ format coverage, plan.nextFormatCounts format coverage +
    (plan.touched.map Prod.snd).countP (·.meets (hasFormat format coverage)) =
      index.formatCounts format coverage +
        plan.projected.countP (·.meets (hasFormat format coverage))
  touched : TouchesStored index.tables plan.touched

/-- A skipped source has no rows. -/
theorem projectPreparation_rows {preparation : PreparedSource M C}
    {change : ProjectedPreparation M C} (h : projectPreparation preparation = .ok change) :
    change.preparation.kind = .indexed ∨ change.rows = [] := by
  unfold projectPreparation at h
  cases hfrontmatter : preparation.frontmatter with
  | none =>
    rw [hfrontmatter] at h
    cases h
  | some frontmatter =>
    simp only [hfrontmatter] at h
    by_cases hkind : preparation.kind = .indexed
    · rw [if_pos hkind] at h
      obtain ⟨rows, -, hresult⟩ := bind_ok_iff.mp h
      cases hresult
      exact .inl hkind
    · rw [if_neg hkind] at h
      cases h
      exact .inr rfl

lemma sum_rows_indexed
    (h : ∀ change ∈ projected, change.preparation.kind = .indexed ∨ change.rows = []) :
    ((projected.filter (·.preparation.kind = .indexed)).map (·.rows.length)).sum =
      (projected.map (·.rows.length)).sum := by
  induction projected with
  | nil => rfl
  | cons change rest ih =>
    have hrest := ih fun c hc => h c (mem_cons_of_mem _ hc)
    rw [map_cons, sum_cons]
    by_cases hkind : change.preparation.kind = .indexed
    · rw [filter_cons_of_pos (by simpa using hkind), map_cons, sum_cons, hrest]
    · rw [filter_cons_of_neg (by simpa using hkind), hrest,
        (h change mem_cons_self).resolve_left hkind]
      simp

lemma planChange_projects {preparations : List (PreparedSource M C)}
    {removals : List SourceRemoval} {plan : ChangePlan M C}
    (h : planChange build index preparations removals = .ok plan) : Projects index plan := by
  simp only [planChange, bind_ok_iff] at h
  obtain ⟨-, -, -, -, authored, -, -, -, projected, hprojected, -, -, -, -, touched, htouched,
    hcounts⟩ := h
  simp only [projectCounts, bind_ok_iff] at hcounts
  obtain ⟨removedChunks, hremoved, addedChunks, hadded, nextFormatCounts, hformats,
    nextChunkingVersion, -, -, -, -, -, hresult⟩ := hcounts
  cases hresult
  obtain ⟨middle, hremovedFormats, haddedFormats⟩ := bind_ok_iff.mp hformats
  have hrows : ∀ change ∈ projected, change.preparation.kind = .indexed ∨ change.rows = [] := by
    intro change hchange
    obtain ⟨preparation, -, hproject⟩ := (mem_of_mapM_ok hprojected change).mp hchange
    exact projectPreparation_rows hproject
  have hzero : ((projected.filter (·.preparation.kind = .indexed)).filter
      (·.rows.length = 0)).length = projected.countP (·.meets isZeroChunk) := by
    rw [filter_filter, ← countP_eq_length_filter]
    refine countP_congr fun change _ => ?_
    simp [ProjectedPreparation.meets, isZeroChunk, and_comm]
  refine ⟨?_, ?_, ?_, rfl, fun format coverage => ?_, touchedSources_ok htouched⟩
  · simp only [← countP_eq_length_filter]
    rfl
  · rw [sumSafe_ok hremoved, sumSafe_ok hadded, sum_rows_indexed hrows]
  · simp only [hzero, ← countP_eq_length_filter]
    rfl
  · have hremovedCount := removeFormatCounts_ok hremovedFormats format coverage
    have haddedCount := addFormatCounts_ok haddedFormats format coverage
    change nextFormatCounts format coverage + (touched.map Prod.snd).countP (fun source =>
      decide (source.sourceFormat = format ∧ source.extractionCoverage = coverage)) =
        index.formatCounts format coverage + projected.countP fun change =>
          decide (change.preparation.format = format ∧ change.preparation.coverage = coverage)
    omega

/-- What a change leaves in the tables, by what it touched and inserted. -/
structure CarriedOut (tables tables' : Tables M C) (plan : ChangePlan M C) : Prop where
  consistent : tables'.Consistent
  sources : ∀ q, tables'.sources.countP (·.meets q) +
    (plan.touched.map Prod.snd).countP (·.meets q) =
      tables.sources.countP (·.meets q) + plan.projected.countP (·.meets q)
  chunks : tables'.chunks.length + ((plan.touched.map Prod.snd).map (·.chunkCount)).sum =
    tables.chunks.length + (plan.projected.map (·.rows.length)).sum
  shadowed : tables'.shadowed = tables.shadowed

lemma carryOut_ok {plan : ChangePlan M C} {verifyIntegrity : Bool} {tables tables' : Tables M C}
    (hconsistent : tables.Consistent) (htouched : TouchesStored tables plan.touched)
    (h : carryOut sqlite build index plan verifyIntegrity tables = .ok tables') :
    CarriedOut tables tables' plan := by
  simp only [carryOut, bind_ok_iff] at h
  obtain ⟨chunkSeed, -, propertySeed, -, deleted, hdelete, mutation, hinsert, -, -, -, -, hresult⟩ := h
  cases hresult
  have hkeys : plan.touched.map (fun entry => entry.2.sourceKey) = mapKeys plan.touched :=
    map_congr_left fun entry hentry => (htouched.stored entry hentry).2
  have hdeleted : deleted = tables.withoutAll (mapKeys plan.touched) := by
    rw [← hkeys]
    rw [← foldlM_map] at hdelete
    exact deleteSources_ok hdelete
  subst hdeleted
  obtain ⟨hconsistent', hsources, hchunks, hshadowed⟩ :=
    insertChanges_consistent (hconsistent.withoutAll _) hinsert
  refine ⟨hconsistent', fun q => ?_, ?_, ?_⟩
  · rw [hsources, htouched.countP hconsistent.keys q]
    dsimp only
    omega
  · rw [hchunks, htouched.chunks hconsistent]
    dsimp only
    omega
  · rw [hshadowed]
    exact (withoutAll_sources tables _).2.2

lemma length_indexedKeys (tables : Tables M C) :
    tables.indexedKeys.length = tables.sources.countP (·.meets isIndexed) := by
  rw [Tables.indexedKeys, length_map, ← countP_eq_length_filter]
  rfl

/-- A source has no chunk row when its tally says so. -/
theorem Tables.Consistent.zeroChunkSources {tables : Tables M C} (h : tables.Consistent) :
    (tables.sources.filter fun source => source.outcome = .indexed ∧
      source.sourceKey ∉ tables.chunks.map ChunkRow.sourceKey).length =
        tables.sources.countP (·.meets isZeroChunk) := by
  rw [← countP_eq_length_filter]
  refine countP_congr fun source hsource => ?_
  have htally : source.chunkCount = 0 ↔
      source.sourceKey ∉ tables.chunks.map ChunkRow.sourceKey := by
    rw [(h.tallies source hsource).1, length_eq_zero_iff, filter_eq_nil_iff, mem_map]
    simp
  simp only [StoredSource.meets, isZeroChunk, htally]

/-- **One batch keeps the accounting**: a batch that succeeds leaves counters that are a recount of
the tables, and one that throws leaves the index as it was. -/
theorem applySourceChanges_accounted (h : index.Accounted) (call : SourceChangeCall M C) :
    (applySourceChanges sqlite build call index).2.Accounted ∧
      (applySourceChanges sqlite build call index).2.tables.shadowed = index.tables.shadowed ∧
      ∀ fault, (applySourceChanges sqlite build call index).1 = .error fault →
        (applySourceChanges sqlite build call index).2 = index := by
  unfold applySourceChanges
  cases hplan : planChange build index call.preparations call.removals with
  | error fault => exact ⟨h, rfl, fun _ _ => rfl⟩
  | ok plan =>
    have hprojects := planChange_projects hplan
    dsimp only
    cases hchange : (do
        let changed ← carryOut sqlite build index plan call.verifyIntegrity index.tables
        raise (sqlite.commitFault changed)
        return changed : Except IndexFault (Tables M C)) with
    | error fault =>
      have htransaction : transaction sqlite (carryOut sqlite build index plan call.verifyIntegrity)
          index.tables = (.error (translateSqliteCapacityError fault), index.tables) := by
        rw [transaction, hchange]
      rw [htransaction]
      exact ⟨h, rfl, fun _ _ => rfl⟩
    | ok changed =>
      have htransaction : transaction sqlite (carryOut sqlite build index plan call.verifyIntegrity)
          index.tables = (.ok (), changed) := by
        rw [transaction, hchange]
      simp only [bind_ok_iff] at hchange
      obtain ⟨tables', hcarry, -, -, hresult⟩ := hchange
      cases hresult
      obtain ⟨hconsistent, hsources, hchunks, hshadowed⟩ :=
        carryOut_ok h.consistent hprojects.touched hcarry
      rw [htransaction]
      refine ⟨⟨hconsistent, ?_, ?_, ?_, ?_, fun format coverage => ?_⟩, hshadowed,
        fun fault hfault => by cases hfault⟩
      · have hcount := hsources isIndexed
        have hdocuments := hprojects.documents
        rw [h.documents, length_indexedKeys] at hdocuments
        dsimp only
        rw [length_indexedKeys]
        omega
      · have hprojected := hprojects.chunks
        rw [h.chunks] at hprojected
        dsimp only
        omega
      · have hcount := hsources isZeroChunk
        have hprojected := hprojects.zeroChunkSources
        rw [h.zeroChunkSources, h.consistent.zeroChunkSources] at hprojected
        dsimp only
        rw [hconsistent.zeroChunkSources]
        omega
      · have hcount := hsources fun _ _ _ _ => true
        have hprojected := hprojects.sources
        rw [h.sources] at hprojected
        simp only [StoredSource.meets, ProjectedPreparation.meets, countP_true,
          length_map] at hcount
        dsimp only
        omega
      · have hcount := hsources (hasFormat format coverage)
        have hprojected := hprojects.formats format coverage
        have hformats := h.formats format coverage
        simp only [← countP_eq_length_filter] at hformats ⊢
        change index.formatCounts format coverage =
          index.tables.sources.countP (·.meets (hasFormat format coverage)) at hformats
        change plan.nextFormatCounts format coverage =
          changed.sources.countP (·.meets (hasFormat format coverage))
        omega

end

/-! ## §7 Opening -/

section

variable {sqlite : Sqlite M C} {build : IndexBuild M C}

lemma openFresh_accounted (limits : IndexLimits) (vaultId sourcePolicyHash : Text) :
    (openFresh limits vaultId sourcePolicyHash : GenerationIndex M C).Accounted :=
  ⟨⟨nodup_nil, nodup_nil, nodup_nil, .nil, .nil, .nil, by simp [openFresh, Tables.created],
    by simp [openFresh, Tables.created], by simp [openFresh, Tables.created],
    by simp [openFresh, Tables.created]⟩, rfl, rfl, rfl, rfl, fun _ _ => rfl⟩

/-- What the schema promises of tables: keys and rowids without repetition. -/
structure Keyed (tables : Tables M C) : Prop where
  keys : tables.sourceKeys.Nodup
  chunkRowids : (tables.chunks.map ChunkRow.rowid).Nodup
  propertyRowids : (tables.properties.map PropertyRow.rowid).Nodup
  chunksFts : tables.chunksFts.docsize.Nodup
  exactIdentifierFts : tables.exactIdentifierFts.docsize.Nodup
  propertyTextFts : tables.propertyTextFts.docsize.Nodup

lemma keyed_of_constraintsHold {tables : Tables M C} (h : tables.constraintsHold = true) :
    Keyed tables := by
  simp only [Tables.constraintsHold, Bool.decide_and, Bool.and_eq_true, decide_eq_true_eq] at h
  obtain ⟨hkeys, -, -, hchunks, -, hproperties, -, -, -, hchunksFts, hexact, hpropertyFts⟩ := h
  exact ⟨hkeys, hchunks, hproperties, hchunksFts, hexact, hpropertyFts⟩

lemma Keyed.without {tables : Tables M C} (h : Keyed tables) (key : Text) :
    Keyed (tables.without key) where
  keys := h.keys.sublist (filter_sublist.map _)
  chunkRowids := h.chunkRowids.sublist (filter_sublist.map _)
  propertyRowids := h.propertyRowids.sublist (filter_sublist.map _)
  chunksFts := h.chunksFts.filter _
  exactIdentifierFts := h.exactIdentifierFts.filter _
  propertyTextFts := h.propertyTextFts.filter _

lemma Keyed.evict {tables tables' : Tables M C} {evicted : StoredSource M → Bool}
    (h : Keyed tables) (hevict : evictProjectedSources sqlite evicted tables = .ok tables') :
    Keyed tables' := by
  refine foldlM_induction _ Keyed (fun t t' source _ ht hstep => ?_) h hevict
  rw [deleteSourceRows_ok hstep]
  exact ht.without _

lemma rebuildCanonicalPropertyFts_ok {tables tables' : Tables M C}
    (h : rebuildCanonicalPropertyFts sqlite tables = .ok tables') :
    ∃ postings : FtsTable, tables' = { tables with propertyTextFts := postings } ∧
      postings.docsize.Nodup := by
  refine foldlM_induction _ (fun t => ∃ postings : FtsTable,
    t = { tables with propertyTextFts := postings } ∧ postings.docsize.Nodup)
    (fun t t' row _ ht hstep => ?_) ⟨_, rfl, nodup_nil⟩ h
  obtain ⟨postings, rfl, hnodup⟩ := ht
  cases exec_ok hstep
  exact ⟨_, rfl, FtsTable.nodup_insert hnodup row.rowid⟩

/-- What has been counted after some source rows. -/
structure Counts (rows : List (StoredSource M)) (inventory : RestoredInventory) : Prop where
  documents : inventory.documents = rows.countP (·.meets isIndexed)
  zeroChunkSources : inventory.zeroChunkSources = rows.countP (·.meets isZeroChunk)
  formats : ∀ format coverage, inventory.sourceFormatCounts format coverage =
    rows.countP (·.meets (hasFormat format coverage))

lemma countRestoredSources_ok {rows : List (StoredSource M)}
    {state : RestoredInventory × List Text}
    (h : rows.foldlM (countRestoredSource build vaultId) (⟨0, 0, 0, 0, fun _ _ => 0⟩, []) =
      .ok state) : Counts rows state.1 := by
  have hfold : ∀ {rows counted : List (StoredSource M)} {start : RestoredInventory × List Text},
      Counts counted start.1 → rows.foldlM (countRestoredSource build vaultId) start = .ok state →
      Counts (counted ++ rows) state.1 := by
    intro rows
    induction rows with
    | nil =>
      intro counted start hstart h
      cases h
      rwa [append_nil]
    | cons row rest ih =>
      intro counted start hstart h
      obtain ⟨next, hstep, hrest⟩ := foldlM_cons_ok _ h
      simp only [countRestoredSource, bind_ok_iff] at hstep
      obtain ⟨source, -, -, -, hnext⟩ := hstep
      cases hnext
      have hone : ∀ q : Criterion, (counted ++ [row]).countP (·.meets q) =
          counted.countP (·.meets q) + if row.meets q = true then 1 else 0 := fun q => by
        rw [countP_append, countP_singleton]
      rw [← singleton_append, ← append_assoc]
      refine ih ⟨?_, ?_, fun format coverage => ?_⟩ hrest
      · rw [hone, ← hstart.documents]
        simp [StoredSource.meets, isIndexed]
      · rw [hone, ← hstart.zeroChunkSources]
        simp [StoredSource.meets, isZeroChunk]
      · rw [hone, ← hstart.formats]
        dsimp only
        by_cases hsame : row.sourceFormat = format ∧ row.extractionCoverage = coverage
        · obtain ⟨rfl, rfl⟩ := hsame
          simp [FormatCounts.set, StoredSource.meets, hasFormat]
        · have hmeets : row.meets (hasFormat format coverage) = false := by
            simpa [StoredSource.meets, hasFormat] using hsame
          have hother : ¬ (format = row.sourceFormat ∧ coverage = row.extractionCoverage) := by
            tauto
          rw [FormatCounts.set, if_neg hother, hmeets]
          rfl
  exact hfold (⟨rfl, rfl, fun _ _ => rfl⟩ : Counts [] _) h

lemma openRestored_accounted {image : Tables M C} {chunkingVersion : ℕ} {limits : IndexLimits}
    {sourcePolicyHash : Text} {enabledFormats : List SourceFormat} {index : GenerationIndex M C}
    (h : openRestored sqlite build image chunkingVersion limits vaultId sourcePolicyHash
      enabledFormats = .ok index) : index.Accounted := by
  simp only [openRestored, bind_ok_iff] at h
  obtain ⟨_, -, _, -, _, hconstraints, projected, hproject, _, -, _, -, inventory, hinventory, _, -,
    _, -, _, -, rebuilt, hrebuild, _, -, _, -, _, -, _, hreconcile, hresult⟩ := h
  cases hresult
  have himage : Keyed image := keyed_of_constraintsHold (by simpa using hconstraints)
  obtain ⟨current, hstale, hdisabled⟩ := bind_ok_iff.mp hproject
  have hkeyed : Keyed projected := (himage.evict hstale).evict hdisabled
  obtain ⟨postings, rfl, hpostings⟩ := rebuildCanonicalPropertyFts_ok hrebuild
  obtain ⟨-, hreconcile⟩ := bind_unit_ok_iff.mp hreconcile
  have hreconciles := not_not.mp (rejectIf_ok.mp hreconcile)
  simp only [readRestoredInventory, bind_ok_iff] at hinventory
  obtain ⟨_, -, _, -, ⟨counted, seen⟩, hcount, _, -, _, -, _, hchunks, hresult⟩ := hinventory
  cases hresult
  have hcounts := countRestoredSources_ok hcount
  have howners : ∀ chunk ∈ projected.chunks, chunk.sourceKey ∈ projected.indexedKeys := by
    intro chunk hchunk
    obtain ⟨source, hmem, hkey, houtcome, -⟩ :=
      not_not.mp (rejectIf_ok.mp (forM_ok_iff.mp hchunks chunk hchunk))
    exact mem_indexedKeys.mpr ⟨source, hmem, houtcome, hkey⟩
  have hconsistent : ({ projected with propertyTextFts := postings } : Tables M C).Consistent := {
    keys := hkeyed.keys
    chunkRowids := hkeyed.chunkRowids
    propertyRowids := hkeyed.propertyRowids
    chunksFts := FtsTable.perm_of_match hreconciles.chunkFts hkeyed.chunksFts hkeyed.chunkRowids
    exactIdentifierFts := FtsTable.perm_of_match hreconciles.exactIdentifierFts
      hkeyed.exactIdentifierFts hkeyed.chunkRowids
    propertyTextFts := FtsTable.perm_of_match hreconciles.propertyFts hpostings
      hkeyed.propertyRowids
    tallies := hreconciles.tallies
    chunkOwners := howners
    propertyOwners := hreconciles.owners.properties
    scalarOwners := hreconciles.owners.scalars }
  refine ⟨hconsistent, ?_, rfl, ?_, rfl, fun format coverage => ?_⟩
  · rw [length_indexedKeys]
    exact hcounts.documents
  · rw [hconsistent.zeroChunkSources]
    exact hcounts.zeroChunkSources
  · rw [← countP_eq_length_filter]
    exact hcounts.formats format coverage

end

/-! ## §8 Every reachable index -/

/-- A fresh or a restored index after any batches, with SQLite failing at any statement of them. -/
inductive Reachable (build : IndexBuild M C) : GenerationIndex M C → Prop where
  | fresh (limits : IndexLimits) (vaultId sourcePolicyHash : Text) :
      Reachable build (openFresh limits vaultId sourcePolicyHash)
  | restored {sqlite : Sqlite M C} {image : Tables M C} {chunkingVersion : ℕ} {limits : IndexLimits}
      {vaultId sourcePolicyHash : Text} {enabledFormats : List SourceFormat}
      {index : GenerationIndex M C}
      (h : openRestored sqlite build image chunkingVersion limits vaultId sourcePolicyHash
        enabledFormats = .ok index) : Reachable build index
  | batch {index : GenerationIndex M C} (h : Reachable build index) (sqlite : Sqlite M C)
      (call : SourceChangeCall M C) :
      Reachable build (applySourceChanges sqlite build call index).2

lemma Reachable.accounted {build : IndexBuild M C} {index : GenerationIndex M C}
    (h : Reachable build index) : index.Accounted := by
  induction h with
  | fresh limits vaultId sourcePolicyHash => exact openFresh_accounted limits vaultId sourcePolicyHash
  | restored h => exact openRestored_accounted h
  | batch _ sqlite call ih => exact (applySourceChanges_accounted ih call).1

/-- **Index accounting**: in every reachable index the counters are a recount of the tables,
postings and tallies match the rows, and the next batch shadows no posting and, if it throws,
changes nothing. -/
theorem index_accounting {build : IndexBuild M C} {index : GenerationIndex M C}
    (h : Reachable build index) :
    index.Accounted ∧ ∀ (sqlite : Sqlite M C) (call : SourceChangeCall M C),
      (applySourceChanges sqlite build call index).2.tables.shadowed = index.tables.shadowed ∧
        ∀ fault, (applySourceChanges sqlite build call index).1 = .error fault →
          (applySourceChanges sqlite build call index).2 = index :=
  ⟨h.accounted, fun _ call => (applySourceChanges_accounted h.accounted call).2⟩

/-! ## §9 A note that is replaced, and a batch that fails -/

def plainBuild : IndexBuild Unit Unit :=
  ⟨fun _ => replicate 64 '0', fun _ => true, fun _ => none⟩

def plainSqlite : Sqlite Unit Unit :=
  ⟨fun _ _ => none, fun _ => none, fun _ => none, fun _ => .ok 0⟩

/-- Full as soon as a source row is written. -/
def fullSqlite : Sqlite Unit Unit :=
  { plainSqlite with statementFault := fun statement _ =>
      match statement with
      | .insertSource _ => some (.sqlite sqliteFull)
      | _ => none }

def preparedChunk (id : Char) : ChunkPreparation Unit :=
  ⟨[id], ['v'], ['p'], none, 0, some ['h'], 2, none, ()⟩

/-- A note with a sequence for its tags. -/
def preparedNote (chunks : List (ChunkPreparation Unit)) : PreparedSource Unit Unit :=
  ⟨['k'], ['v'], ['p'], none, 0, .markdown, .indexedComplete, .indexed, some ['h'],
    some ⟨[("tags".toList, .sequence [.string ['a'], .string ['b']])]⟩, chunks, [], ()⟩

def noteIndex : GenerationIndex Unit Unit :=
  (applySourceChanges plainSqlite plainBuild
    ⟨[preparedNote [preparedChunk 'a', preparedChunk 'b']], [], false⟩
    (openFresh ⟨10, 10, 1000⟩ ['v'] ['s'])).2

theorem index_accounting_replaced :
    (noteIndex.documentCount, noteIndex.chunkCount,
      noteIndex.tables.sources.map (·.propertyScalarCount)) = (1, 2, [2]) ∧
    (applySourceChanges fullSqlite plainBuild ⟨[preparedNote []], [], true⟩ noteIndex).1 =
      .error .capacity ∧
    (applySourceChanges fullSqlite plainBuild ⟨[preparedNote []], [], true⟩ noteIndex).2 =
      noteIndex ∧
    (applySourceChanges plainSqlite plainBuild ⟨[preparedNote []], [], true⟩
      noteIndex).2.zeroChunkSourceCount = 1 := by
  have hnote : Reachable plainBuild noteIndex :=
    .batch (.fresh ⟨10, 10, 1000⟩ ['v'] ['s']) plainSqlite _
  have hfails : (applySourceChanges fullSqlite plainBuild ⟨[preparedNote []], [], true⟩
      noteIndex).1 = .error .capacity := by rfl
  exact ⟨by decide +kernel, hfails, ((index_accounting hnote).2 fullSqlite _).2 _ hfails,
    by decide +kernel⟩

end Kwiry.Plugin
