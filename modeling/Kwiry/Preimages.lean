import Kwiry.Policy

/-!
# Injectivity of the Identity Preimages

Every derived identity hashes a domain string and its components. The components are framed
by their length, or stand last, or have a fixed width, so that the preimage gives each of
them back; the heading path goes through JSON, whose strings close themselves. The domain
strings differ within their first nine bytes, so that derivations never meet.

One component is not given back: a registration writes an absent room as an empty one.
-/

namespace Kwiry

open Foundations List

/-! ## §1 JSON strings -/

/-- How many characters the first escape of a JSON string takes. -/
private def jsonWidth : Text → ℕ
  | '\\' :: 'u' :: _ => 6
  | '\\' :: _ => 2
  | _ => 1

/-- The character an escape stands for, after its backslash. -/
private def jsonUnescape : Text → Char
  | ['b'] => Char.ofNat 8
  | ['t'] => Char.ofNat 9
  | ['n'] => Char.ofNat 10
  | ['f'] => Char.ofNat 12
  | ['r'] => Char.ofNat 13
  | ['u', '0', '0', high, low] =>
    -- the control characters that have no short escape
    ((range 32).map Char.ofNat).find? (fun c =>
      hexDigit (c.toNat / 16) == high && hexDigit (c.toNat % 16) == low) |>.getD high
  | c :: _ => c
  | [] => 'a'

/-- The character a piece of a JSON string stands for. -/
private def jsonRead (text : Text) : Char :=
  match text with
  | [] => 'a'
  | c :: rest => if c = '\\' then jsonUnescape rest else c

lemma jsonChar_beyond {c : Char} (hc : ¬ c.toNat < 128) : jsonChar c = [c] := by
  have hne : ∀ d : Char, d.toNat < 128 → c ≠ d := by
    rintro d hd rfl
    exact hc hd
  unfold jsonChar
  rw [if_neg (hne _ (by decide)), if_neg (hne _ (by decide)), if_neg (by omega),
    if_neg (by omega), if_neg (by omega), if_neg (by omega), if_neg (by omega),
    if_neg (by omega)]

lemma jsonRead_jsonChar (c : Char) : jsonRead (jsonChar c) = c := by
  by_cases hc : c.toNat < 128
  · have hascii : ∀ n < 128, jsonRead (jsonChar (Char.ofNat n)) = Char.ofNat n := by
      decide +kernel
    exact CharTables.of_ascii (P := fun c => jsonRead (jsonChar c) = c) hascii c hc
  · -- a character beyond ASCII is written as it is, and no escape is one character long
    have hslash : c ≠ '\\' := by
      rintro rfl
      exact hc (by decide)
    rw [jsonChar_beyond hc, jsonRead, if_neg hslash]

lemma jsonWidth_append (c : Char) (rest : Text) :
    jsonWidth (jsonChar c ++ rest) = (jsonChar c).length := by
  unfold jsonChar
  split_ifs with hquote hslash
  all_goals try rfl
  unfold jsonWidth
  split <;> simp_all

lemma jsonChar_append_inj {c d : Char} {x y : Text}
    (h : jsonChar c ++ x = jsonChar d ++ y) : c = d ∧ x = y := by
  have hlength : (jsonChar c).length = (jsonChar d).length := by
    rw [← jsonWidth_append c x, h, jsonWidth_append]
  obtain ⟨hchar, hrest⟩ := append_inj h hlength
  refine ⟨?_, hrest⟩
  rw [← jsonRead_jsonChar c, hchar, jsonRead_jsonChar]

lemma jsonChar_head (c : Char) (rest : Text) :
    ∃ d tail, jsonChar c ++ rest = d :: tail ∧ d ≠ '"' := by
  unfold jsonChar
  split_ifs with hquote
  all_goals first
    | exact ⟨_, _, rfl, by decide⟩
    | exact ⟨c, rest, rfl, hquote⟩

lemma jsonBody_append_inj {s t x y : Text}
    (h : s.flatMap jsonChar ++ '"' :: x = t.flatMap jsonChar ++ '"' :: y) : s = t ∧ x = y := by
  induction s generalizing t with
  | nil =>
    cases t with
    | nil => simpa using h
    | cons d t =>
      rw [flatMap_cons, append_assoc] at h
      obtain ⟨e, tail, heq, hne⟩ := jsonChar_head d (t.flatMap jsonChar ++ '"' :: y)
      rw [heq, flatMap_nil, nil_append, cons.injEq] at h
      exact absurd h.1.symm hne
  | cons c s ih =>
    cases t with
    | nil =>
      rw [flatMap_cons, append_assoc] at h
      obtain ⟨e, tail, heq, hne⟩ := jsonChar_head c (s.flatMap jsonChar ++ '"' :: x)
      rw [heq, flatMap_nil, nil_append, cons.injEq] at h
      exact absurd h.1 hne
    | cons d t =>
      rw [flatMap_cons, flatMap_cons, append_assoc, append_assoc] at h
      obtain ⟨rfl, hrest⟩ := jsonChar_append_inj h
      obtain ⟨rfl, hxy⟩ := ih hrest
      exact ⟨rfl, hxy⟩

lemma jsonString_append_inj {s t x y : Text}
    (h : jsonString s ++ x = jsonString t ++ y) : s = t ∧ x = y := by
  simp only [jsonString, cons_append, append_assoc, cons.injEq, true_and, nil_append] at h
  exact jsonBody_append_inj h

/-- The strings of an array after the first, each behind its comma. -/
private def jsonTail (ts : List Text) : Text :=
  ts.flatMap fun t => ',' :: jsonString t

lemma joinWith_jsonString (t : Text) (ts : List Text) :
    joinWith [','] ((t :: ts).map jsonString) = jsonString t ++ jsonTail ts := by
  induction ts generalizing t with
  | nil => simp [joinWith, jsonTail]
  | cons u ts ih =>
    have hstep : joinWith [','] ((t :: u :: ts).map jsonString) =
        jsonString t ++ ',' :: joinWith [','] ((u :: ts).map jsonString) := by
      simp [joinWith]
    rw [hstep, ih]
    simp [jsonTail]

lemma jsonTail_append_inj {ss ts : List Text}
    (h : jsonTail ss ++ [']'] = jsonTail ts ++ [']']) : ss = ts := by
  induction ss generalizing ts with
  | nil =>
    cases ts with
    | nil => rfl
    | cons t ts => simp [jsonTail] at h
  | cons s ss ih =>
    cases ts with
    | nil => simp [jsonTail] at h
    | cons t ts =>
      have hstep : jsonString s ++ (jsonTail ss ++ [']']) =
          jsonString t ++ (jsonTail ts ++ [']']) := by
        simpa [jsonTail] using h
      obtain ⟨rfl, hrest⟩ := jsonString_append_inj hstep
      rw [ih hrest]

lemma jsonStrings_injective : Function.Injective jsonStrings := by
  intro ss ts h
  simp only [jsonStrings, cons.injEq, true_and] at h
  cases ss with
  | nil =>
    cases ts with
    | nil => rfl
    | cons t ts =>
      rw [joinWith_jsonString] at h
      simp [joinWith, jsonString] at h
  | cons s ss =>
    cases ts with
    | nil =>
      rw [joinWith_jsonString] at h
      simp [joinWith, jsonString] at h
    | cons t ts =>
      rw [joinWith_jsonString, joinWith_jsonString, append_assoc, append_assoc] at h
      obtain ⟨rfl, hrest⟩ := jsonString_append_inj h
      rw [jsonTail_append_inj hrest]

/-! ## §2 Components -/

lemma frame_append_inj_of_length {a b x y : Bytes} (hlength : x.length = y.length)
    (h : frame a ++ x = frame b ++ y) : a = b ∧ x = y := by
  obtain ⟨hframe, hrest⟩ := append_inj' h hlength
  exact ⟨(append_inj hframe (by simp)).2, hrest⟩

lemma frame_injective : Function.Injective frame := by
  intro a b h
  exact (frame_append_inj_of_length (x := []) (y := []) rfl (by simpa using h)).1

lemma asStr_injective {f g : SourceFormat}
    (h : utf8 ("format=" ++ f.asStr).toList = utf8 ("format=" ++ g.asStr).toList) : f = g := by
  revert h
  cases f <;> cases g <;> decide +kernel

lemma formatIdentityFingerprint_injective (B : Build) :
    Function.Injective B.formatIdentityFingerprint := by
  intro f g h
  have hpre := B.hash.injective h
  simp only [append_assoc, append_cancel_left_eq] at hpre
  have hbound : ∀ f : SourceFormat, (utf8 ("format=" ++ f.asStr).toList).length < 2 ^ 64 := by
    intro f
    cases f <;> decide +kernel
  exact asStr_injective (frame_append_inj (hbound f) (hbound g) hpre).1

/-! ## §3 Derivations -/

/-- A derivation of an identity, with its arguments. -/
inductive Derivation where
  | sourceKey (vaultId path : Str)
  | chunkId (vaultId path : Str) (headingPath : List Text) (chunkIx : UInt64)
  | partitionId (resource : ResourceKey)
  | registrationFingerprint (vault : VaultRegistration)
  | embeddingSourceIdentity (contentHash : Str) (format : SourceFormat)

namespace Derivation

/-- The bytes a derivation feeds to the hash. -/
def preimage (B : Build) : Derivation → Bytes
  | sourceKey vaultId path => sourcePreimage vaultId path
  | chunkId vaultId path headingPath chunkIx =>
    chunkPreimage vaultId path headingPath chunkIx.toNat
  | partitionId resource => partitionPreimage resource
  | registrationFingerprint vault => registrationPreimage vault
  | embeddingSourceIdentity contentHash format => B.embeddingPreimage contentHash.chars format

/-- The arguments as far as they are hashed: an empty room is an absent one. -/
def hashed : Derivation → Derivation
  | registrationFingerprint vault =>
    registrationFingerprint { vault with room := some (vault.room.getD Str.empty) }
  | derivation => derivation

/-- The domain string of a derivation. -/
private def label : Derivation → String
  | sourceKey _ _ => "kwiry-source-v1"
  | chunkId _ _ _ _ => "kwiry-chunk-v1"
  | partitionId _ => "kwiry-resource-v1"
  | registrationFingerprint _ => "kwiry-registration-v1"
  | embeddingSourceIdentity _ _ => "kwiry-embedding-source-identity-v1"

lemma take_preimage (B : Build) (a : Derivation) :
    (a.preimage B).take 9 = (domain a.label).take 9 := by
  cases a <;> exact take_append_of_le_length (by decide +kernel)

lemma label_inj_of_take : ∀ s ∈ ["kwiry-source-v1", "kwiry-chunk-v1",
    "kwiry-resource-v1", "kwiry-registration-v1", "kwiry-embedding-source-identity-v1"],
    ∀ t ∈ ["kwiry-source-v1", "kwiry-chunk-v1", "kwiry-resource-v1", "kwiry-registration-v1",
      "kwiry-embedding-source-identity-v1"],
    (domain s).take 9 = (domain t).take 9 → s = t := by
  decide +kernel

lemma label_eq_of_preimage_eq {B : Build} {a b : Derivation}
    (h : a.preimage B = b.preimage B) : a.label = b.label := by
  have htake : (domain a.label).take 9 = (domain b.label).take 9 := by
    rw [← take_preimage B a, h, take_preimage]
  refine label_inj_of_take _ ?_ _ ?_ htake
  · cases a <;> simp [label]
  · cases b <;> simp [label]

lemma chunkPreimage_inj {v w p q : Str} {headings headings' : List Text} {i j : UInt64}
    (h : chunkPreimage v p headings i.toNat = chunkPreimage w q headings' j.toNat) :
    v = w ∧ p = q ∧ headings = headings' ∧ i = j := by
  obtain ⟨hv, hrest⟩ := frame_str_append_inj (append_cancel_left h)
  obtain ⟨hp, hrest⟩ := frame_str_append_inj hrest
  -- the ordinal has a fixed width, which fixes the length of the heading JSON
  obtain ⟨hjson, hix⟩ := frame_append_inj_of_length (by simp) hrest
  refine ⟨hv, hp, jsonStrings_injective (utf8_injective hjson), UInt64.toNat_inj.mp ?_⟩
  exact leBytes_inj i.toNat_lt j.toNat_lt hix

lemma partitionPreimage_inj {r s : ResourceKey}
    (h : partitionPreimage r = partitionPreimage s) : r = s := by
  obtain ⟨ht, hrest⟩ := frame_str_append_inj (append_cancel_left h)
  obtain ⟨hv, hrest⟩ := frame_str_append_inj hrest
  have hr := Str.bytes_inj.mp (frame_injective hrest)
  cases r
  cases s
  simp_all

lemma embeddingPreimage_inj {B : Build} {c d : Str} {f g : SourceFormat}
    (h : B.embeddingPreimage c.chars f = B.embeddingPreimage d.chars g) : c = d ∧ f = g := by
  obtain ⟨hc, hrest⟩ := frame_str_append_inj (append_cancel_left h)
  have hhex := utf8_injective (frame_injective hrest)
  exact ⟨hc, formatIdentityFingerprint_injective B (hexText_injective hhex)⟩

/-- The preimages of two derivations agree exactly when their arguments do, a registration without a
room counting as one with an empty room. -/
theorem preimage_eq_iff (B : Build) (a b : Derivation) :
    a.preimage B = b.preimage B ↔ a.hashed = b.hashed := by
  constructor
  · intro h
    have hlabel := label_eq_of_preimage_eq h
    cases a with
    | sourceKey v p =>
      cases b with
      | sourceKey w q =>
        obtain ⟨rfl, rfl⟩ := sourcePreimage_inj h
        rfl
      | _ => exact absurd hlabel (by simp [label])
    | chunkId v p headings i =>
      cases b with
      | chunkId w q headings' j =>
        obtain ⟨rfl, rfl, rfl, rfl⟩ := chunkPreimage_inj h
        rfl
      | _ => exact absurd hlabel (by simp [label])
    | partitionId r =>
      cases b with
      | partitionId s =>
        obtain rfl := partitionPreimage_inj h
        rfl
      | _ => exact absurd hlabel (by simp [label])
    | registrationFingerprint v =>
      cases b with
      | registrationFingerprint w =>
        obtain ⟨hid, hpath, hroom⟩ := registrationPreimage_inj h
        cases v
        cases w
        simp_all [hashed]
      | _ => exact absurd hlabel (by simp [label])
    | embeddingSourceIdentity c f =>
      cases b with
      | embeddingSourceIdentity d g =>
        obtain ⟨rfl, rfl⟩ := embeddingPreimage_inj h
        rfl
      | _ => exact absurd hlabel (by simp [label])
  · intro h
    -- only what is hashed enters the preimage
    have hpre : ∀ c : Derivation, c.hashed.preimage B = c.preimage B := by
      intro c
      cases c <;> rfl
    rw [← hpre a, h, hpre b]

/-- A registration without a room and one with an empty room are hashed alike. -/
theorem emptyRoom_preimage_collides :
    let absent : VaultRegistration := ⟨⟨['v'], by decide⟩, ⟨['p'], by decide⟩, none⟩
    let empty : VaultRegistration := { absent with room := some Str.empty }
    absent ≠ empty ∧
      (registrationFingerprint absent).preimage Build.plain =
        (registrationFingerprint empty).preimage Build.plain := by
  decide +kernel

end Derivation

end Kwiry
