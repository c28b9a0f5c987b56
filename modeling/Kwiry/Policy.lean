import Kwiry.Identity

/-!
# Builds and Extraction Policy

A build compiles one extractor set and one set of per-format identities. What a build
fixes is gathered in `Build`; the rest of the development is about an arbitrary one.

The extractors themselves are one function of the format and the bytes: preparation relies
on nothing else about them than that a declined source says why.
-/

namespace Kwiry

open Foundations

/-- Which extractor set is compiled for a format. -/
inductive ExtractionProfile where
  | none | portable | enhanced
  deriving DecidableEq

/-- The profile's registered name. -/
def ExtractionProfile.asStr : ExtractionProfile → String
  | none => "none"
  | portable => "portable"
  | enhanced => "enhanced"

/-- Shape of the per-format identity. -/
def formatIdentitySchemaVersion : ℕ := 1

/-- The extractor version stated for a format. -/
def extractorVersionFor : SourceFormat → ℕ
  | .html => 3
  | _ => 1

/-- What one build of the program fixes. -/
structure Build where
  /-- The Unicode tables linked in. -/
  tables : CharTables
  /-- SHA-256, taken as injective. -/
  hash : IdealHash
  /-- `extract_source`; an error carries its message. -/
  extractSource : SourceFormat → Bytes → Except String ExtractedSource
  /-- Whether the enhanced PDF extractor is compiled in. -/
  nativePdfExtractor : Bool
  /-- A source that is not indexed carries a notice. -/
  skipped_notice : ∀ format bytes extracted, extractSource format bytes = .ok extracted →
    extracted.coverage.isIndexed = false → extracted.notices ≠ []

namespace Build

variable (B : Build)

/-- The profile this build compiled for a format. -/
def extractionProfileFor : SourceFormat → ExtractionProfile
  | .pdf => if B.nativePdfExtractor then .enhanced else .portable
  | _ => .portable

/-- The identity digest of stated material. -/
def identityForMaterial (format : SourceFormat) (profile : ExtractionProfile)
    (extractorVersion : ℕ) : Digest :=
  let component (text : String) : Bytes := frame (utf8 text.toList)
  B.hash.digest (domain "kwiry-format-identity-v1" ++
    component (toString formatIdentitySchemaVersion) ++
    component ("format=" ++ format.asStr) ++
    component ("profile=" ++ profile.asStr) ++
    component ("extractor=" ++ toString extractorVersion))

/-- The identity this build stamps on a format's rows. -/
def formatIdentityFingerprint (format : SourceFormat) : Digest :=
  B.identityForMaterial format (B.extractionProfileFor format) (extractorVersionFor format)

/-- `kwiry-embedding-source-identity-v1`; both components are texts, the fingerprint in
    hexadecimal. -/
def embeddingPreimage (contentHash : Text) (format : SourceFormat) : Bytes :=
  domain "kwiry-embedding-source-identity-v1" ++
    (frame (utf8 contentHash) ++ frame (utf8 (hexText (B.formatIdentityFingerprint format))))

/-- The identity of the text a source's vectors were computed from. -/
def embeddingSourceIdentity (contentHash : Digest) (format : SourceFormat) : Digest :=
  B.hash.digest (B.embeddingPreimage (hexText contentHash) format)

variable {B} in
lemma embeddingSourceIdentity_inj {a b : Digest} {format : SourceFormat}
    (h : B.embeddingSourceIdentity a format = B.embeddingSourceIdentity b format) : a = b := by
  -- the second component is shared, so the first frame is what is left
  have hframe : frame (utf8 (hexText a)) = frame (utf8 (hexText b)) :=
    List.append_cancel_right (List.append_cancel_left (B.hash.injective h))
  have hlength : (utf8 (hexText a)).length = (utf8 (hexText b)).length := by
    simpa [frame] using congrArg List.length hframe
  rw [frame, frame, hlength, List.append_cancel_left_eq] at hframe
  exact hexText_injective (utf8_injective hframe)

end Build

/-- The smallest build: ASCII tables, a transparent hash, and every source one section of
    its bytes. -/
def Build.plain : Build where
  tables := CharTables.latin
  hash := IdealHash.transparent
  extractSource _ bytes := .ok
    { properties := ⟨[]⟩
      frontmatter := Frontmatter.default
      aliases := []
      linksOut := []
      sections := [⟨[], bytes.map fun byte => Char.ofNat byte.toNat, .primary, none⟩]
      coverage := .indexedComplete
      notices := [] }
  nativePdfExtractor := false
  skipped_notice := by
    intro format bytes extracted h hskipped
    cases h
    cases hskipped

end Kwiry
