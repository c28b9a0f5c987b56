import Kwiry.Model

/-!
# Derived Identities

The hashed identities: a source by vault and path, a chunk by source, headings and
ordinal, a registration by its three fields, a partition by its resource. Each preimage is
a domain string followed by length-prefixed components, so that it determines them.
-/

namespace Kwiry

open Foundations List

/-! ## §1 Preimages -/

/-- An ASCII domain string with its terminating NUL. -/
def domain (label : String) : Bytes :=
  utf8 label.toList ++ [0]

/-- `kwiry-source-v1` -/
def sourcePreimage (vaultId path : Str) : Bytes :=
  domain "kwiry-source-v1" ++ (frame vaultId.bytes ++ frame path.bytes)

/-- `kwiry-registration-v1`; an absent room is written as an empty one. -/
def registrationPreimage (vault : VaultRegistration) : Bytes :=
  domain "kwiry-registration-v1" ++
    (frame vault.id.bytes ++ (frame vault.path.bytes ++ frame (vault.room.getD Str.empty).bytes))

/-- `kwiry-resource-v1` -/
def partitionPreimage (resource : ResourceKey) : Bytes :=
  domain "kwiry-resource-v1" ++
    (frame resource.tenantId.bytes ++
      (frame resource.vaultId.bytes ++ frame resource.roomId.bytes))

/-- A hexadecimal digit. -/
def hexDigit (n : ℕ) : Char :=
  if n < 10 then Char.ofNat (48 + n) else Char.ofNat (87 + n)

/-- The lower-case hexadecimal text a digest is passed on as. -/
def hexText (digest : Digest) : Text :=
  digest.flatMap fun byte => [hexDigit (byte.toNat / 16), hexDigit (byte.toNat % 16)]

/-- A character inside a JSON string. -/
def jsonChar (c : Char) : Text :=
  if c = '"' then ['\\', '"']
  else if c = '\\' then ['\\', '\\']
  else if c.toNat = 8 then ['\\', 'b']
  else if c.toNat = 9 then ['\\', 't']
  else if c.toNat = 10 then ['\\', 'n']
  else if c.toNat = 12 then ['\\', 'f']
  else if c.toNat = 13 then ['\\', 'r']
  else if c.toNat < 32 then
    ['\\', 'u', '0', '0', hexDigit (c.toNat / 16), hexDigit (c.toNat % 16)]
  else [c]

/-- A JSON string. -/
def jsonString (t : Text) : Text :=
  '"' :: (t.flatMap jsonChar ++ ['"'])

/-- A JSON array of strings. -/
def jsonStrings (ts : List Text) : Text :=
  '[' :: (joinWith [','] (ts.map jsonString) ++ [']'])

/-- `kwiry-chunk-v1` -/
def chunkPreimage (vaultId path : Str) (headingPath : List Text) (chunkIx : ℕ) : Bytes :=
  domain "kwiry-chunk-v1" ++
    (frame vaultId.bytes ++ (frame path.bytes ++
      (frame (utf8 (jsonStrings headingPath)) ++ leBytes 8 chunkIx)))

/-! ## §2 Identities -/

variable (H : IdealHash)

/-- The key of a source. -/
def sourceKey (vaultId path : Str) : SourceKey :=
  H.digest (sourcePreimage vaultId path)

/-- The fingerprint of a registration. -/
def registrationFingerprint (vault : VaultRegistration) : Digest :=
  H.digest (registrationPreimage vault)

/-- The id of a resource's partition. -/
def partitionId (resource : ResourceKey) : Digest :=
  H.digest (partitionPreimage resource)

/-- The byte a role tag puts in the two leading bits. -/
def roleTag : ContentRole → UInt8
  | .primary => 0x00
  | .supporting => 0x40
  | .latent => 0x80

/-- A digest with its two leading bits replaced by a role tag. -/
def tagDigest (role : ContentRole) : Digest → Digest
  | [] => []
  | first :: rest => ((first &&& 0x3f) ||| roleTag role) :: rest

/-- The untagged digest of a chunk. -/
def chunkDigest (vaultId path : Str) (headingPath : List Text) (chunkIx : ℕ) : Digest :=
  H.digest (chunkPreimage vaultId path headingPath chunkIx)

/-- The id of a chunk, role-tagged where its format asks for it. -/
def chunkId (vaultId path : Str) (headingPath : List Text) (chunkIx : ℕ)
    (contentRoleTag : Option ContentRole) : Digest :=
  match contentRoleTag with
  | none => chunkDigest H vaultId path headingPath chunkIx
  | some role => tagDigest role (chunkDigest H vaultId path headingPath chunkIx)

/-! ## §3 Injectivity -/

lemma frame_str_append_inj {s t : Str} {x y : Bytes}
    (h : frame s.bytes ++ x = frame t.bytes ++ y) : s = t ∧ x = y := by
  obtain ⟨hbytes, hrest⟩ := frame_append_inj s.bytes_length_lt t.bytes_length_lt h
  exact ⟨Str.bytes_inj.mp hbytes, hrest⟩

lemma frame_str_inj {s t : Str} (h : frame s.bytes = frame t.bytes) : s = t :=
  (frame_str_append_inj (congrArg (· ++ []) h)).1

variable {v w p q : Str}

lemma sourcePreimage_inj (h : sourcePreimage v p = sourcePreimage w q) : v = w ∧ p = q := by
  obtain ⟨hv, hrest⟩ := frame_str_append_inj (append_cancel_left h)
  exact ⟨hv, frame_str_inj hrest⟩

lemma sourceKey_inj (h : sourceKey H v p = sourceKey H w q) : v = w ∧ p = q :=
  sourcePreimage_inj (H.injective h)

lemma registrationPreimage_inj {v w : VaultRegistration}
    (h : registrationPreimage v = registrationPreimage w) :
    v.id = w.id ∧ v.path = w.path ∧ v.room.getD Str.empty = w.room.getD Str.empty := by
  obtain ⟨hid, hrest⟩ := frame_str_append_inj (append_cancel_left h)
  obtain ⟨hpath, hrest⟩ := frame_str_append_inj hrest
  exact ⟨hid, hpath, frame_str_inj hrest⟩

/-- A registration fingerprint determines the registration, up to an empty room. -/
theorem registrationFingerprint_inj {v w : VaultRegistration}
    (h : registrationFingerprint H v = registrationFingerprint H w) :
    v.id = w.id ∧ v.path = w.path ∧ v.room.getD Str.empty = w.room.getD Str.empty :=
  registrationPreimage_inj (H.injective h)

lemma hexDigit_inj {n m : ℕ} (hn : n < 16) (hm : m < 16) (h : hexDigit n = hexDigit m) :
    n = m := by
  have hall : ∀ n < 16, ∀ m < 16, hexDigit n = hexDigit m → n = m := by decide +kernel
  exact hall n hn m hm h

lemma hexText_injective : Function.Injective hexText := by
  intro s t h
  induction s generalizing t with
  | nil =>
    cases t with
    | nil => rfl
    | cons b t => simp [hexText] at h
  | cons a s ih =>
    cases t with
    | nil => simp [hexText] at h
    | cons b t =>
      simp only [hexText, flatMap_cons, cons_append, nil_append, cons.injEq] at h
      obtain ⟨hhigh, hlow, hrest⟩ := h
      have ha : a.toNat < 256 := a.toNat_lt
      have hb : b.toNat < 256 := b.toNat_lt
      have hdiv := hexDigit_inj (by omega) (by omega) hhigh
      have hmod := hexDigit_inj (by omega) (by omega) hlow
      have hbyte : a = b := UInt8.toNat_inj.mp (by omega)
      rw [hbyte, ih hrest]

/-- A chunk's preimage determines its source and its ordinal. -/
theorem chunkPreimage_inj_index {headings headings' : List Text} {i j : ℕ} (hi : i < 2 ^ 64)
    (hj : j < 2 ^ 64) (h : chunkPreimage v p headings i = chunkPreimage w q headings' j) :
    v = w ∧ p = q ∧ i = j := by
  obtain ⟨hv, hrest⟩ := frame_str_append_inj (append_cancel_left h)
  obtain ⟨hp, hrest⟩ := frame_str_append_inj hrest
  have hindex := (append_inj' hrest (by simp)).2
  exact ⟨hv, hp, leBytes_inj (w := 8) (by simpa using hi) (by simpa using hj) hindex⟩

lemma tag_bits : ∀ x < 256, ∀ t ∈ [0, 0x40, 0x80],
    (x &&& 0x3f ||| t = x ↔ x &&& 0xc0 = t) ∧ (x &&& 0x3f ||| t) &&& 0x3f = x &&& 0x3f := by
  decide +kernel

lemma tag_byte (x : UInt8) (role : ContentRole) :
    (x &&& 0x3f ||| roleTag role = x ↔ x &&& 0xc0 = roleTag role) ∧
    (x &&& 0x3f ||| roleTag role) &&& 0x3f = x &&& 0x3f := by
  have hmem : (roleTag role).toNat ∈ [0, 0x40, 0x80] := by
    cases role <;> decide
  simp only [← UInt8.toNat_inj, UInt8.toNat_or, UInt8.toNat_and]
  exact tag_bits x.toNat x.toNat_lt (roleTag role).toNat hmem

lemma clearLeadingBits_tagDigest (role : ContentRole) (d : Digest) :
    clearLeadingBits (tagDigest role d) = clearLeadingBits d := by
  cases d with
  | nil => rfl
  | cons first rest =>
    simp only [tagDigest, clearLeadingBits, cons.injEq, and_true]
    exact (tag_byte first role).2

lemma clearLeadingBits_chunkId (v p : Str) (headings : List Text) (i : ℕ)
    (tag : Option ContentRole) :
    clearLeadingBits (chunkId H v p headings i tag) =
      clearLeadingBits (chunkDigest H v p headings i) := by
  cases tag with
  | none => rfl
  | some role => exact clearLeadingBits_tagDigest role _

/-- A chunk's id determines its source and its ordinal, whether ids are tagged or not. -/
theorem chunkId_inj {headings headings' : List Text} {i j : ℕ} {tag tag' : Option ContentRole}
    (hi : i < 2 ^ 64) (hj : j < 2 ^ 64)
    (h : chunkId H v p headings i tag = chunkId H w q headings' j tag') :
    v = w ∧ p = q ∧ i = j := by
  have hclear := congrArg clearLeadingBits h
  rw [clearLeadingBits_chunkId, clearLeadingBits_chunkId] at hclear
  exact chunkPreimage_inj_index hi hj (H.clear_injective hclear)

end Kwiry
