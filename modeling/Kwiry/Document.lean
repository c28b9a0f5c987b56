import Kwiry.Source

/-!
# Index Documents

`chunk_document` of `index.rs`: the fields one chunk writes to the index. Fields the source
stores as JSON are kept as the value that is serialized. The property projection is a
function of the property bag alone, so a document records the bag it projects.
-/

namespace Kwiry

open Foundations

variable (B : Build)

/-- Whether a chunk owns its source's property signals. -/
def ownsSourceProperties (prepared : PreparedChunk) : Bool :=
  prepared.chunk.chunkId =
    chunkDigest B.hash prepared.chunk.vaultId prepared.chunk.path prepared.chunk.headingPath 0

/-- The fields of an indexed document. -/
structure Document where
  sourceKey : SourceKey
  sourcePropertyOwner : Bool
  chunkId : Digest
  vaultId : Str
  room : Text
  path : Str
  sourceFormat : SourceFormat
  sourceLocator : Option SourceLocator
  extractionCoverage : ExtractionCoverage
  (filename stem : Text)
  aliases : List Text
  (filenameRaw stemRaw : Option Text)
  (aliasesRaw headingPath : List Text)
  headingText : Text
  headingRaw : Option Text
  title : Text
  titleRaw : Option Text
  (description status date content : Text)
  contentIdentifiers : List Text
  frontmatter : Frontmatter
  /-- The bag whose projection is indexed, if the document carries one. -/
  propertyProjection : Option PropertyBag
  (tags linksOut : List Text)
  mtime : ℕ
  contentHash : Digest
  chunkingVersion : ℕ

/-- The document of a chunk. -/
def chunkDocument (prepared : PreparedChunk) (retrieval : RetrievalMetadata) : Document :=
  let chunk := prepared.chunk
  let frontmatter := prepared.sourceFrontmatter
  let title := frontmatter.title.getD []
  { sourceKey := sourceKey B.hash chunk.vaultId chunk.path
    sourcePropertyOwner := ownsSourceProperties B prepared
    chunkId := chunk.chunkId
    vaultId := chunk.vaultId
    room := (chunk.room.map Str.chars).getD []
    path := chunk.path
    sourceFormat := prepared.sourceFormat
    sourceLocator := prepared.sourceLocator
    extractionCoverage := prepared.extractionCoverage
    filename := retrieval.filename
    stem := retrieval.stem
    aliases := retrieval.aliases
    filenameRaw := normalizeRaw B.tables retrieval.filename
    stemRaw := normalizeRaw B.tables retrieval.stem
    aliasesRaw := retrieval.aliases.filterMap (normalizeRaw B.tables)
    headingPath := chunk.headingPath
    headingText := prepared.headingText
    headingRaw := normalizeRaw B.tables prepared.headingText
    title := title
    titleRaw := normalizeRaw B.tables title
    description := frontmatter.description.getD []
    status := frontmatter.status.getD []
    date := frontmatter.date.getD []
    content := chunk.content
    contentIdentifiers := prepared.technicalIdentifiers
    frontmatter := frontmatter
    propertyProjection :=
      if ownsSourceProperties B prepared && prepared.sourceFormat ≠ .canvas then
        some prepared.sourceProperties
      else
        none
    tags := frontmatter.tags
    linksOut := chunk.linksOut
    mtime := chunk.mtime
    contentHash := chunk.contentHash
    chunkingVersion := chunk.chunkingVersion }

/-- The key a chunk's document is filed under. -/
def PreparedChunk.sourceKey (prepared : PreparedChunk) : SourceKey :=
  Kwiry.sourceKey B.hash prepared.chunk.vaultId prepared.chunk.path

@[simp] lemma chunkDocument_owner (prepared : PreparedChunk) (retrieval : RetrievalMetadata) :
    (chunkDocument B prepared retrieval).sourcePropertyOwner =
      ownsSourceProperties B prepared := rfl

/-- A sound chunk is filed under its source's key. -/
theorem ChunkSound.sourceKey_eq {descriptor : SourceDescriptor} {i : ℕ}
    {prepared : PreparedChunk} (h : ChunkSound B descriptor i prepared) :
    prepared.sourceKey B = sourceKey B.hash descriptor.vaultId descriptor.path := by
  rw [PreparedChunk.sourceKey, h.vaultId, h.path]

end Kwiry
