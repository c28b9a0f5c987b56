import Mathlib.Data.List.Perm.Subperm
import Std.Data.ExtTreeSet.Lemmas
import Kwiry.Document

/-!
# Property Owners

Source-level property signals belong to one chunk of a source. Preparation derives a
chunk's identity in one place and the index recomputes it in another to find the owner;
formats with role-tagged identities overwrite two bits in between.
-/

namespace Kwiry

open Foundations List Option

variable (B : Build)

/-! ## §1 Role tags -/

/-- The two leading bits of a digest. -/
def leadingBits : Digest → UInt8
  | [] => 0
  | first :: _ => first &&& 0xc0

lemma tagDigest_eq_self_iff {role : ContentRole} {d : Digest} (hd : d ≠ []) :
    tagDigest role d = d ↔ leadingBits d = roleTag role := by
  cases d with
  | nil => exact absurd rfl hd
  | cons first rest =>
    simp only [tagDigest, leadingBits, cons.injEq, and_true]
    exact (tag_byte first role).1

/-! ## §2 The lead section -/

/-- Whether a section yields a chunk. -/
def ExtractedSection.hasText (section_ : ExtractedSection) : Bool :=
  (splitOversized section_.content).any fun part => !isBlank part

/-- The headings and role of the first chunk: those of the first section with text, or of the empty
carrier. -/
def ExtractedSource.lead (extracted : ExtractedSource) : List Text × ContentRole :=
  ((extracted.sections.find? ExtractedSection.hasText).map
    fun section_ => (section_.headingPath, section_.role)).getD ([], .primary)

/-- The headings and role of a chunk. -/
def PreparedChunk.heading (prepared : PreparedChunk) : List Text × ContentRole :=
  (prepared.chunk.headingPath, prepared.contentRole)

variable {contentHash : Digest} {descriptor : SourceDescriptor} {extracted : ExtractedSource}

variable {loop loop' : ChunkLoop}

lemma preparePart_lead {section_ : ExtractedSection} {part : Text}
    (h : preparePart B descriptor extracted contentHash section_ loop part = .ok loop') :
    loop'.chunks.head?.map PreparedChunk.heading =
      (loop.chunks.head?.map PreparedChunk.heading).or
        (if isBlank part then none else some (section_.headingPath, section_.role)) := by
  rcases preparePart_cases B h with ⟨hblank, rfl⟩ | ⟨hblank, -, -, hchunks⟩
  · simp [hblank]
  · rw [hchunks, hblank]
    cases loop.chunks with
    | nil => rfl
    | cons first rest => rfl

lemma parts_lead {section_ : ExtractedSection} (parts : List Text)
    (h : parts.foldlM (preparePart B descriptor extracted contentHash section_) loop = .ok loop') :
    loop'.chunks.head?.map PreparedChunk.heading =
      (loop.chunks.head?.map PreparedChunk.heading).or
        (if parts.any (fun part => !isBlank part) then
          some (section_.headingPath, section_.role) else none) := by
  induction parts generalizing loop with
  | nil =>
    cases h
    simp
  | cons part rest ih =>
    obtain ⟨next, hpart, hrest⟩ := foldlM_cons_ok _ h
    rw [ih hrest, preparePart_lead B hpart, Option.or_assoc, any_cons]
    congr 1
    cases isBlank part <;> simp

lemma sections_lead (sections : List ExtractedSection) (h : sections.foldlM
      (fun loop section_ => (splitOversized section_.content).foldlM
      (preparePart B descriptor extracted contentHash section_) loop) loop = .ok loop') :
    loop'.chunks.head?.map PreparedChunk.heading =
      (loop.chunks.head?.map PreparedChunk.heading).or
        ((sections.find? ExtractedSection.hasText).map
          fun section_ => (section_.headingPath, section_.role)) := by
  induction sections generalizing loop with
  | nil =>
    cases h
    simp
  | cons section_ rest ih =>
    obtain ⟨next, hsection, hrest⟩ := foldlM_cons_ok _ h
    rw [ih hrest, parts_lead B _ hsection, Option.or_assoc, find?_cons]
    have htext : ((splitOversized section_.content).any fun part => !isBlank part) =
        section_.hasText := rfl
    rw [htext]
    cases section_.hasText <;> simp

/-- The first prepared chunk is the lead section's. -/
theorem prepareChunks_lead {chunks : List PreparedChunk} {first : PreparedChunk}
    (h : prepareChunks B descriptor extracted contentHash = .ok chunks)
    (hfirst : chunks.head? = some first) : first.heading = extracted.lead := by
  unfold prepareChunks at h
  cases hloop : chunkLoop B descriptor extracted contentHash with
  | error e =>
    rw [hloop] at h
    cases h
  | ok loop =>
    have hlead := sections_lead B extracted.sections hloop
    simp only [head?_nil, map_none, none_or] at hlead
    rw [hloop] at h
    simp only [bind, Except.bind] at h
    rw [ExtractedSource.lead, ← hlead]
    split at h
    · -- the carrier: no section had text, and the default lead is the carrier's
      rename_i hempty
      have hnil : loop.chunks = [] := by
        simp only [Bool.and_eq_true, List.isEmpty_iff] at hempty
        exact hempty.1
      cases h
      simp only [head?_cons, some.injEq] at hfirst
      rw [← hfirst, hnil]
      rfl
    · cases h
      rw [hfirst]
      rfl

/-! ## §3 The owner of an indexed source -/

/-- A source that preparation indexed with at least one chunk. -/
structure IndexedSource where
  descriptor : SourceDescriptor
  bytes : Bytes
  extracted : ExtractedSource
  preparation : SourcePreparation
  extracted_eq : B.extractSource descriptor.format bytes = .ok extracted
  prepared_eq : prepareSourceBuffer B descriptor bytes = .ok preparation
  indexed : preparation.kind = .indexed
  nonempty : preparation.chunks ≠ []

namespace IndexedSource

variable {B} (source : IndexedSource B)

/-- The key of the source. -/
def key : SourceKey :=
  sourceKey B.hash source.descriptor.vaultId source.descriptor.path

/-- The documents the source writes. -/
def documents : List Document :=
  source.preparation.chunks.map fun chunk =>
    chunkDocument B chunk source.preparation.retrieval

/-- The untagged digest of the lead chunk. -/
def leadDigest : Digest :=
  chunkDigest B.hash source.descriptor.vaultId source.descriptor.path source.extracted.lead.1 0

/-- The format does not tag identities, or the lead chunk's digest already begins with the tag of
its role. -/
def OwnerTagAgrees : Prop :=
  source.descriptor.format.policy.roleTaggedChunkIds = false ∨
    leadingBits source.leadDigest = roleTag source.extracted.lead.2

instance : Decidable source.OwnerTagAgrees :=
  inferInstanceAs (Decidable (_ ∨ _))

lemma chunks_eq : prepareChunks B source.descriptor source.extracted
    (B.hash.digest source.bytes) = .ok source.preparation.chunks := by
  obtain ⟨-, -, ⟨_, _, _, -, -, hskip⟩ | ⟨extracted, chunks, hextract, -, hchunks, hprep⟩⟩ :=
    prepareSourceBuffer_cases B source.prepared_eq
  · have hkind := source.indexed
    rw [hskip] at hkind
    cases hkind
  · rw [source.extracted_eq] at hextract
    cases hextract
    rw [hprep]
    exact hchunks

lemma not_owns_of_pos {i : ℕ} {chunk : PreparedChunk}
    (hchunk : source.preparation.chunks[i]? = some chunk) (hi : i ≠ 0) :
    ownsSourceProperties B chunk = false := by
  obtain ⟨hbound, hsound⟩ := prepareChunks_sound B source.chunks_eq
  have hchunkSound := hsound i chunk hchunk
  have hlt : i < 2 ^ 64 := by
    have := (List.getElem?_eq_some_iff.mp hchunk).1
    simp only [maxPreparedChunksPerSource] at hbound
    omega
  rw [ownsSourceProperties, decide_eq_false_iff_not, hchunkSound.vaultId, hchunkSound.path,
    hchunkSound.chunkId]
  intro hid
  exact hi (chunkId_inj B.hash hlt (by decide)
    (show _ = chunkId B.hash _ _ chunk.chunk.headingPath 0 none from hid)).2.2

lemma owns_first_iff {chunk : PreparedChunk}
    (hchunk : source.preparation.chunks[0]? = some chunk) :
    ownsSourceProperties B chunk = true ↔ source.OwnerTagAgrees := by
  obtain ⟨-, hsound⟩ := prepareChunks_sound B source.chunks_eq
  have hchunkSound := hsound 0 chunk hchunk
  have hheading : chunk.heading = source.extracted.lead :=
    prepareChunks_lead B source.chunks_eq (by rw [head?_eq_getElem?, hchunk])
  have hpath : chunk.chunk.headingPath = source.extracted.lead.1 := congrArg Prod.fst hheading
  have hrole : chunk.contentRole = source.extracted.lead.2 := congrArg Prod.snd hheading
  rw [ownsSourceProperties, decide_eq_true_iff, hchunkSound.vaultId, hchunkSound.path,
    hchunkSound.chunkId, hpath, hrole]
  cases htag : source.descriptor.format.policy.roleTaggedChunkIds with
  | false => simp [OwnerTagAgrees, htag, chunkId]
  | true =>
    simp only [OwnerTagAgrees, htag, chunkId, if_true, Bool.true_eq_false, false_or]
    exact tagDigest_eq_self_iff (B.hash.digest_ne_nil _)

lemma filter_owner_documents : source.documents.filter Document.sourcePropertyOwner =
    if source.OwnerTagAgrees then source.documents.take 1 else [] := by
  obtain ⟨first, rest, hchunks⟩ := exists_cons_of_ne_nil source.nonempty
  have hfirst : ownsSourceProperties B first = true ↔ source.OwnerTagAgrees :=
    source.owns_first_iff (by rw [hchunks]; rfl)
  have hrest : ∀ chunk ∈ rest, ownsSourceProperties B chunk = false := by
    intro chunk hmem
    obtain ⟨i, hi, hget⟩ := mem_iff_getElem.mp hmem
    refine source.not_owns_of_pos (i := i + 1) ?_ (by omega)
    rw [hchunks, getElem?_cons_succ, getElem?_eq_getElem hi, hget]
  have hnone : (rest.map fun chunk => chunkDocument B chunk source.preparation.retrieval).filter
      Document.sourcePropertyOwner = [] := by
    rw [filter_eq_nil_iff]
    intro document hmem
    obtain ⟨chunk, hchunk, rfl⟩ := mem_map.mp hmem
    simp [hrest chunk hchunk]
  rw [documents, hchunks, map_cons, filter_cons, hnone, chunkDocument_owner]
  by_cases hagree : source.OwnerTagAgrees
  · simp [hfirst.mpr hagree, hagree]
  · simp [hagree, mt hfirst.mp hagree]

lemma sourceKey_of_mem {document : Document} (h : document ∈ source.documents) :
    document.sourceKey = source.key := by
  obtain ⟨chunk, hchunk, rfl⟩ := mem_map.mp h
  obtain ⟨i, hi, hget⟩ := mem_iff_getElem.mp hchunk
  obtain ⟨-, hsound⟩ := prepareChunks_sound B source.chunks_eq
  exact (hsound i chunk (by rw [getElem?_eq_getElem hi, hget])).sourceKey_eq B

end IndexedSource

/-! ## §4 Owner hydration -/

/-- Why owner hydration fails. -/
inductive HydrationError where
  | unexpectedDuplicate | escapedCandidateSet | pathDisagrees | incomplete
  deriving DecidableEq

/-- One owner document taken in. -/
def hydrateOwner (candidatePaths : Std.ExtTreeMap SourceKey Str)
    (seen : Std.ExtTreeSet SourceKey) (document : Document) :
    Except HydrationError (Std.ExtTreeSet SourceKey) :=
  if document.sourceKey ∈ seen then
    .error .unexpectedDuplicate
  else
    match candidatePaths[document.sourceKey]? with
    | none => .error .escapedCandidateSet
    | some path =>
      if document.path ≠ path then .error .pathDisagrees
      else .ok (seen.insert document.sourceKey)

/-- The owner pass over one search context: every owner document of a candidate source is met once,
and every candidate source has one. -/
def hydrateOwners (documents : List Document) (candidatePaths : Std.ExtTreeMap SourceKey Str) :
    Except HydrationError Unit := do
  let owners := documents.filter fun document =>
    document.sourceKey ∈ candidatePaths && document.sourcePropertyOwner
  let seen ← owners.foldlM (hydrateOwner candidatePaths) ∅
  if seen.size ≠ candidatePaths.size then throw .incomplete

/-- The candidate sources, with their paths. -/
def candidatePaths (candidates : List Document) : Std.ExtTreeMap SourceKey Str :=
  candidates.foldl (fun paths document => paths.insert document.sourceKey document.path) ∅

/-- Owners with distinct keys and agreeing paths are all taken in. -/
theorem hydrateOwner_foldlM {paths : Std.ExtTreeMap SourceKey Str} (owners : List Document)
    (seen : Std.ExtTreeSet SourceKey) (hpaths : ∀ d ∈ owners, paths[d.sourceKey]? = some d.path)
    (hkeys : (owners.map Document.sourceKey).Nodup) (hseen : ∀ d ∈ owners, d.sourceKey ∉ seen) :
    ∃ seen', owners.foldlM (hydrateOwner paths) seen = .ok seen' ∧
      seen'.size = seen.size + owners.length := by
  induction owners generalizing seen with
  | nil => exact ⟨seen, rfl, rfl⟩
  | cons document rest ih =>
    obtain ⟨hhead, htail⟩ := nodup_cons.mp hkeys
    have hnew : document.sourceKey ∉ seen := hseen document mem_cons_self
    have hstep : hydrateOwner paths seen document = .ok (seen.insert document.sourceKey) := by
      simp [hydrateOwner, hnew, hpaths document mem_cons_self]
    obtain ⟨seen', hfold, hsize⟩ := ih (seen.insert document.sourceKey)
      (fun d hd => hpaths d (mem_cons_of_mem _ hd)) htail (by
        intro d hd hmem
        rcases Std.ExtTreeSet.mem_insert.mp hmem with heq | hold
        · rw [Std.LawfulEqCmp.compare_eq_iff_eq] at heq
          exact hhead (heq ▸ mem_map_of_mem hd)
        · exact hseen d (mem_cons_of_mem _ hd) hold)
    refine ⟨seen', ?_, ?_⟩
    · rw [foldlM_cons, hstep]
      exact hfold
    · rw [hsize, Std.ExtTreeSet.size_insert]
      simp [hnew]
      omega

/-- A candidate's key maps to a candidate's path. -/
theorem candidatePaths_getElem? (candidates : List Document) (key : SourceKey) :
    (candidatePaths candidates)[key]? =
      ((candidates.filter fun d => d.sourceKey = key).getLast?).map Document.path := by
  have hgen : ∀ (paths : Std.ExtTreeMap SourceKey Str),
      (candidates.foldl (fun paths d => paths.insert d.sourceKey d.path) paths)[key]? =
        (((candidates.filter fun d => d.sourceKey = key).getLast?).map Document.path).or
          paths[key]? := by
    induction candidates with
    | nil => simp
    | cons document rest ih =>
      intro paths
      rw [foldl_cons, ih, Std.ExtTreeMap.getElem?_insert, filter_cons]
      simp only [Std.LawfulEqCmp.compare_eq_iff_eq]
      by_cases hkey : document.sourceKey = key
      · simp only [hkey, decide_true, if_true, getLast?_cons]
        cases (rest.filter fun d => d.sourceKey = key).getLast? <;> simp
      · simp [hkey]
  rw [candidatePaths, hgen]
  simp

/-- The documents of an index built from the given sources. -/
def indexDocuments {B : Build} (sources : List (IndexedSource B)) : List Document :=
  sources.flatMap IndexedSource.documents

/-- The owner documents among a source's, restricted to candidate keys. -/
theorem filter_candidate_owner {B : Build} (source : IndexedSource B)
    (paths : Std.ExtTreeMap SourceKey Str) :
    ((source.documents.filter fun d => d.sourceKey ∈ paths && d.sourcePropertyOwner).map
      Document.sourceKey) =
      if source.key ∈ paths ∧ source.OwnerTagAgrees then [source.key] else [] := by
  obtain ⟨first, rest, hchunks⟩ := exists_cons_of_ne_nil source.nonempty
  have hdocuments : source.documents = chunkDocument B first source.preparation.retrieval ::
        rest.map fun chunk => chunkDocument B chunk source.preparation.retrieval := by
    rw [IndexedSource.documents, hchunks, map_cons]
  have hkey := source.sourceKey_of_mem (by rw [hdocuments]; exact mem_cons_self)
  have hsame : (source.documents.filter fun d =>
      d.sourceKey ∈ paths && d.sourcePropertyOwner) =
      if source.key ∈ paths then source.documents.filter Document.sourcePropertyOwner
      else [] := by
    split
    · rename_i hmem
      refine filter_congr fun d hd => ?_
      simp [source.sourceKey_of_mem hd, hmem]
    · rename_i hmem
      rw [filter_eq_nil_iff]
      intro d hd
      simp [source.sourceKey_of_mem hd, hmem]
  rw [hsame, source.filter_owner_documents]
  by_cases hmem : source.key ∈ paths <;> by_cases hagree : source.OwnerTagAgrees
  · simpa [hmem, hagree, hdocuments] using hkey
  · simp [hagree]
  · simp [hmem]
  · simp [hmem]

lemma owner_keys {B : Build} (sources : List (IndexedSource B))
    (paths : Std.ExtTreeMap SourceKey Str) :
    ((indexDocuments sources).filter fun d =>
      d.sourceKey ∈ paths && d.sourcePropertyOwner).map Document.sourceKey =
      (sources.filter fun s => s.key ∈ paths ∧ s.OwnerTagAgrees).map IndexedSource.key := by
  induction sources with
  | nil => rfl
  | cons source rest ih =>
    simp only [indexDocuments, flatMap_cons, filter_append, map_append,
      filter_candidate_owner, filter_cons] at ih ⊢
    rw [ih]
    by_cases h : source.key ∈ paths ∧ source.OwnerTagAgrees <;> simp [h]

/-- A document of an index belongs to one of its sources. -/
theorem mem_indexDocuments {B : Build} {sources : List (IndexedSource B)}
    {document : Document} (h : document ∈ indexDocuments sources) :
    ∃ source ∈ sources, document ∈ source.documents ∧ document.sourceKey = source.key := by
  obtain ⟨source, hsource, hmem⟩ := mem_flatMap.mp h
  exact ⟨source, hsource, hmem, source.sourceKey_of_mem hmem⟩

/-- Documents of one key in an index have one path. -/
theorem path_eq_of_sourceKey_eq {B : Build} {sources : List (IndexedSource B)}
    {d e : Document} (hd : d ∈ indexDocuments sources) (he : e ∈ indexDocuments sources)
    (hkey : d.sourceKey = e.sourceKey) : d.path = e.path := by
  have hpath : ∀ {x : Document}, x ∈ indexDocuments sources →
      x.sourceKey = sourceKey B.hash x.vaultId x.path := by
    intro x hx
    obtain ⟨source, -, hmem, -⟩ := mem_indexDocuments hx
    obtain ⟨chunk, -, rfl⟩ := mem_map.mp hmem
    rfl
  rw [hpath hd, hpath he] at hkey
  exact (sourceKey_inj B.hash hkey).2

/-- Hydration over candidates of an index succeeds exactly when the two derivations agree on every
candidate source. -/
theorem hydrateOwners_ok_iff {B : Build} {sources : List (IndexedSource B)}
    (hsources : (sources.map IndexedSource.key).Nodup) {candidates : List Document}
    (hcandidates : candidates ⊆ indexDocuments sources) :
    hydrateOwners (indexDocuments sources) (candidatePaths candidates) = .ok () ↔
      ∀ s ∈ sources, s.key ∈ candidates.map Document.sourceKey → s.OwnerTagAgrees := by
  set paths := candidatePaths candidates with hpathsDef
  set owners := (indexDocuments sources).filter fun d =>
    d.sourceKey ∈ paths && d.sourcePropertyOwner with howners
  have hmem : ∀ key, key ∈ paths ↔ key ∈ candidates.map Document.sourceKey := by
    intro key
    rw [Std.ExtTreeMap.mem_iff_isSome_getElem?, hpathsDef, candidatePaths_getElem?,
      isSome_map, getLast?_isSome, Ne, filter_eq_nil_iff]
    simp
  have hkeys := owner_keys sources paths
  rw [← howners] at hkeys
  -- distinct source keys keep the owners' keys distinct
  have hnodup : (owners.map Document.sourceKey).Nodup := by
    rw [hkeys]
    exact (filter_sublist.map _).nodup hsources
  have hagree : ∀ d ∈ owners, paths[d.sourceKey]? = some d.path := by
    intro d hd
    obtain ⟨hdoc, hcond⟩ := mem_filter.mp hd
    have hin : d.sourceKey ∈ paths := by simpa using (Bool.and_eq_true_iff.mp hcond).1
    obtain ⟨path, hpath⟩ := isSome_iff_exists.mp (Std.ExtTreeMap.mem_iff_isSome_getElem?.mp hin)
    rw [hpath, some.injEq]
    rw [hpathsDef, candidatePaths_getElem?, map_eq_some_iff] at hpath
    obtain ⟨e, he, rfl⟩ := hpath
    obtain ⟨hecand, hekey⟩ := mem_filter.mp (mem_of_mem_getLast? he)
    exact path_eq_of_sourceKey_eq (hcandidates hecand) hdoc (by simpa using hekey)
  obtain ⟨seen, hfold, hsize⟩ := hydrateOwner_foldlM owners ∅ hagree hnodup
    (fun d _ => Std.ExtTreeSet.not_mem_empty)
  -- every candidate key is a source key, so the candidates number the candidate sources
  have hcount : paths.size = (sources.filter fun s => s.key ∈ paths).length := by
    rw [← Std.ExtTreeMap.length_keys, ← length_map (f := IndexedSource.key)]
    refine Perm.length_eq ((perm_ext_iff_of_nodup Std.ExtTreeMap.nodup_keys
      ((filter_sublist.map _).nodup hsources)).mpr fun key => ?_)
    rw [Std.ExtTreeMap.mem_keys, List.mem_map]
    constructor
    · intro hkey
      obtain ⟨d, hd, rfl⟩ := mem_map.mp ((hmem key).mp hkey)
      obtain ⟨source, hsource, -, heq⟩ := mem_indexDocuments (hcandidates hd)
      exact ⟨source, by simp [hsource, ← heq, hkey], heq.symm⟩
    · rintro ⟨source, hsource, rfl⟩
      simpa using (mem_filter.mp hsource).2
  have hownerCount : owners.length =
      ((sources.filter fun s => s.key ∈ paths).filter fun s => s.OwnerTagAgrees).length := by
    rw [← length_map (f := Document.sourceKey), hkeys, length_map, List.filter_filter]
    congr 1
    refine filter_congr fun s _ => ?_
    simp [and_comm]
  have hresult : hydrateOwners (indexDocuments sources) paths =
      if seen.size ≠ paths.size then .error .incomplete else .ok () := by
    simp only [hydrateOwners, ← howners, hfold, bind, Except.bind]
    rfl
  have hcases : (hydrateOwners (indexDocuments sources) paths = .ok ()) ↔
      seen.size = paths.size := by
    rw [hresult]
    by_cases h : seen.size = paths.size <;> simp [h]
  rw [hcases, hsize, hcount, hownerCount, Std.ExtTreeSet.size_empty, Nat.zero_add,
    length_filter_eq_length_iff]
  simp only [mem_filter, decide_eq_true_eq, and_imp, hmem]

/-! ## §5 Main result -/

/-- **One owner per source, exactly when the tag changes nothing.**

    For every indexed source, its first chunk is the one owner, and one of its documents is
    marked as owner, exactly when its format does not tag identities or the lead chunk's
    digest already begins with its role's tag. Over an index of distinct sources, owner
    hydration of any candidate set succeeds exactly when this holds of every candidate. -/
theorem sourcePropertyOwner_iff_ownerTagAgrees (sources : List (IndexedSource B))
    (hsources : (sources.map IndexedSource.key).Nodup) :
    (∀ s ∈ sources,
      ((∀ i chunk, s.preparation.chunks[i]? = some chunk →
          (ownsSourceProperties B chunk = true ↔ i = 0)) ↔ s.OwnerTagAgrees) ∧
      ((s.documents.filter Document.sourcePropertyOwner).length = 1 ↔ s.OwnerTagAgrees)) ∧
    ∀ candidates ⊆ indexDocuments sources,
      (hydrateOwners (indexDocuments sources) (candidatePaths candidates) = .ok () ↔
        ∀ s ∈ sources, s.key ∈ candidates.map Document.sourceKey → s.OwnerTagAgrees) := by
  refine ⟨fun s _ => ⟨⟨fun hall => ?_, fun hagree i chunk hchunk => ?_⟩, ?_⟩,
    fun candidates hcandidates => hydrateOwners_ok_iff hsources hcandidates⟩
  · obtain ⟨first, rest, hchunks⟩ := exists_cons_of_ne_nil s.nonempty
    have hfirst : s.preparation.chunks[0]? = some first := by rw [hchunks]; rfl
    exact (s.owns_first_iff hfirst).mp ((hall 0 first hfirst).mpr rfl)
  · constructor
    · intro howns
      by_contra hi
      rw [s.not_owns_of_pos hchunk hi] at howns
      cases howns
    · rintro rfl
      exact (s.owns_first_iff hchunk).mpr hagree
  · rw [s.filter_owner_documents]
    have hlen : 0 < s.documents.length := by
      rw [IndexedSource.documents, length_map]
      exact length_pos_iff.mpr s.nonempty
    by_cases hagree : s.OwnerTagAgrees
    · simp only [hagree, if_true, length_take, iff_true]
      omega
    · simp [hagree]

/-! ## §6 A page without an owner -/

/-- The SHA-256 digest of the lead chunk of `page.html` in the vault `v`. -/
def pageDigest : Digest :=
  [146, 132, 73, 166, 140, 192, 246, 136, 210, 89, 86, 140, 236, 43, 237, 179,
    166, 155, 118, 93, 95, 207, 251, 84, 35, 120, 199, 233, 45, 78, 44, 60]

/-- A page with one paragraph, as the HTML extractor reports it. -/
def pageExtracted : ExtractedSource where
  properties := ⟨[]⟩
  frontmatter := Frontmatter.default
  aliases := []
  linksOut := []
  sections := [⟨[], ['x'], .primary, none⟩]
  coverage := .indexedComplete
  notices := []

/-- The name `v`. -/
def vaultV : Str := ⟨['v'], by decide⟩

/-- The name `page.html`. -/
def pagePath : Str := ⟨['p', 'a', 'g', 'e', '.', 'h', 't', 'm', 'l'], by decide⟩

/-- A build that hashes the lead chunk of the page as SHA-256 does. -/
def pageBuild : Build where
  tables := CharTables.latin
  hash := IdealHash.recording (chunkPreimage vaultV pagePath [] 0) pageDigest (by decide)
  extractSource _ _ := .ok pageExtracted
  nativePdfExtractor := false
  skipped_notice := by
    intro format bytes extracted h hskipped
    cases h
    cases hskipped

/-- The page as a descriptor. -/
def pageDescriptor : SourceDescriptor :=
  ⟨vaultV, none, pagePath, .html, 8, 0, 0⟩

/-- The bytes `<p>x</p>`. -/
def pageBytes : Bytes := [60, 112, 62, 120, 60, 47, 112, 62]

/-- The page, indexed with its one chunk. -/
def taggedPage : IndexedSource pageBuild where
  descriptor := pageDescriptor
  bytes := pageBytes
  extracted := pageExtracted
  preparation := indexedPreparation pageBuild pageDescriptor pageBytes pageExtracted
    [sectionChunk pageBuild pageDescriptor pageExtracted (pageBuild.hash.digest pageBytes)
      ⟨[], ['x'], .primary, none⟩ 0 ['x']]
  extracted_eq := rfl
  prepared_eq := rfl
  indexed := rfl
  nonempty := cons_ne_nil _ _

/-- The page's only chunk fails the owner test, no document is marked, and hydration of the page
reports the owner as missing. -/
theorem taggedPage_no_owner :
    (¬ ∀ i chunk, taggedPage.preparation.chunks[i]? = some chunk →
      (ownsSourceProperties pageBuild chunk = true ↔ i = 0)) ∧
    taggedPage.documents.all (fun d => !d.sourcePropertyOwner) = true ∧
    hydrateOwners taggedPage.documents (candidatePaths taggedPage.documents) =
      .error .incomplete := by
  refine ⟨?_, by decide, by decide⟩
  intro h
  exact absurd ((h 0 _ rfl).mpr rfl) (by decide)

/-- The page is an index of one source, where the general result applies. -/
theorem taggedPage_owner_iff :
    ([taggedPage].map IndexedSource.key).Nodup ∧
    ((taggedPage.documents.filter Document.sourcePropertyOwner).length = 1 ↔
      taggedPage.OwnerTagAgrees) :=
  ⟨nodup_singleton _,
    ((sourcePropertyOwner_iff_ownerTagAgrees pageBuild [taggedPage]
      (nodup_singleton _)).1 taggedPage mem_cons_self).2⟩

end Kwiry
