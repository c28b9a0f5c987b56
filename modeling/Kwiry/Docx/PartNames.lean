import Kwiry.Docx.Selection
import Kwiry.Foundations.Words

/-!
# Canonical Part Names

The names of parts in `docx/opc.rs`. A segment is made canonical by decoding the escapes that a name
does not need and by writing the others in capitals, and doing so again changes nothing. A target is
resolved segment by segment, so what it resolves to is canonical and within the package. An entry of
the archive and a URI that spells it with other escapes go by one name.
-/

namespace Kwiry.Docx

open Foundations List

/-! ## §1 Escapes -/

/-- The characters that a canonical name spells without an escape. -/
def isUnreserved (c : Char) : Bool :=
  c.isAlphanum || decide (c ∈ ['-', '.', '_', '~'])

/-- A digit of an escape, in capitals. -/
def upperDigit (value : ℕ) : Char :=
  Char.ofNat (if value < 10 then 48 + value else 55 + value)

variable {c high low : Char}

lemma hexValue_toUpper {value : ℕ} (h : hexValue c = some value) :
    hexValue c.toUpper = some value ∧ c.toUpper = upperDigit value ∧
      c.toUpper.toUpper = c.toUpper ∧ c ∉ ['%', '/', '\\', '\x00', '?', '#'] ∧
      c.toUpper ∉ ['%', '/', '\\', '\x00', '?', '#'] := by
  have hascii : c.toNat < 128 := by
    have hle : ∀ d : Char, d.toNat < 128 → c ≤ d → c.toNat < 128 := fun d hd hcd =>
      Nat.lt_of_le_of_lt (UInt32.le_iff_toNat_le.mp hcd) hd
    unfold hexValue at h
    split_ifs at h with hdigit hlower hupper
    · exact hle '9' (by decide) hdigit.2
    · exact hle 'f' (by decide) hlower.2
    · exact hle 'F' (by decide) hupper.2
  have hall : ∀ n < 128, ∀ value ∈ hexValue (Char.ofNat n),
      hexValue (Char.ofNat n).toUpper = some value ∧ (Char.ofNat n).toUpper = upperDigit value ∧
        (Char.ofNat n).toUpper.toUpper = (Char.ofNat n).toUpper ∧
        Char.ofNat n ∉ ['%', '/', '\\', '\x00', '?', '#'] ∧
        (Char.ofNat n).toUpper ∉ ['%', '/', '\\', '\x00', '?', '#'] := by decide
  have hc := hall c.toNat hascii value
  rw [Char.ofNat_toNat] at hc
  exact hc h

/-- An escape stands for a character that needs none, or is kept in capitals. -/
theorem canonicalizeEscape_spec {piece : Text} (h : canonicalizeEscape high low = .ok piece) :
    (∃ c, isUnreserved c = true ∧ piece = [c]) ∨
      (piece = ['%', high.toUpper, low.toUpper] ∧
        canonicalizeEscape high.toUpper low.toUpper = .ok piece ∧
        high.toUpper ∉ ['%', '/', '\\', '\x00', '?', '#'] ∧
        low.toUpper ∉ ['%', '/', '\\', '\x00', '?', '#']) := by
  cases hhigh : hexValue high with
  | none =>
    simp only [canonicalizeEscape, hhigh] at h
    cases h
  | some hi =>
    cases hlow : hexValue low with
    | none =>
      simp only [canonicalizeEscape, hhigh, hlow] at h
      cases h
    | some lo =>
      obtain ⟨hhigh', -, hhighUpper, -, hhighPlain⟩ := hexValue_toUpper hhigh
      obtain ⟨hlow', -, hlowUpper, -, hlowPlain⟩ := hexValue_toUpper hlow
      simp only [canonicalizeEscape, hhigh, hlow] at h
      split at h
      · cases h
      next hslash =>
      split at h
      next hunreserved =>
        cases h
        exact .inl ⟨_, by simpa [isUnreserved] using hunreserved, rfl⟩
      next hreserved =>
        cases h
        refine .inr ⟨rfl, ?_, hhighPlain, hlowPlain⟩
        simp only [canonicalizeEscape, hhigh', hlow', if_neg hslash, if_neg hreserved, hhighUpper,
          hlowUpper]

lemma canonicalizeChars_cons (hc : c ≠ '%') (rest : Text) :
    canonicalizeChars (c :: rest) = (do
      let output ← canonicalizeChars rest
      return c :: output) := by
  rw [canonicalizeChars]
  · rw [if_neg hc]
  · rintro high low rest' heq -
    exact hc heq

lemma not_mem_of_isUnreserved (h : isUnreserved c = true) :
    c ∉ ['%', '/', '\\', '\x00', '?', '#'] := by
  intro hmem
  have hall : ∀ d ∈ ['%', '/', '\\', '\x00', '?', '#'], isUnreserved d = false := by decide
  exact absurd h (by simp [hall c hmem])

lemma canonicalizeChars_idem {t u : Text} (h : canonicalizeChars t = .ok u) :
    canonicalizeChars u = .ok u := by
  induction t using canonicalizeChars.induct generalizing u with
  | case1 =>
    cases h
    rfl
  | case2 high low rest ih =>
    rw [canonicalizeChars] at h
    simp only [bind_ok_iff, pure, Except.pure, Except.ok.injEq] at h
    obtain ⟨piece, hpiece, output, houtput, rfl⟩ := h
    rcases canonicalizeEscape_spec hpiece with ⟨c, hc, rfl⟩ | ⟨hpiece', hagain, -⟩
    · have hpercent : c ≠ '%' := fun heq => not_mem_of_isUnreserved hc (by simp [heq])
      rw [singleton_append, canonicalizeChars_cons hpercent, ih houtput]
      rfl
    · subst hpiece'
      show canonicalizeChars ('%' :: high.toUpper :: low.toUpper :: output) = _
      rw [canonicalizeChars, hagain, ih houtput]
      rfl
  | case3 rest hrest =>
    rw [canonicalizeChars, if_pos rfl] at h
    · cases h
    · exact hrest
  | case4 c rest hrest hc ih =>
    rw [canonicalizeChars_cons hc] at h
    simp only [bind_ok_iff, pure, Except.pure, Except.ok.injEq] at h
    obtain ⟨output, houtput, rfl⟩ := h
    rw [canonicalizeChars_cons hc, ih houtput]
    rfl

lemma canonicalizeChars_plain (hc : c ∈ ['/', '\\', '\x00', '?', '#']) {t u : Text} (ht : c ∉ t)
    (h : canonicalizeChars t = .ok u) : c ∉ u := by
  have hplain : c ∈ ['%', '/', '\\', '\x00', '?', '#'] := mem_cons_of_mem _ hc
  induction t using canonicalizeChars.induct generalizing u with
  | case1 =>
    cases h
    exact not_mem_nil
  | case2 high low rest ih =>
    rw [canonicalizeChars] at h
    simp only [bind_ok_iff, pure, Except.pure, Except.ok.injEq] at h
    obtain ⟨piece, hpiece, output, houtput, rfl⟩ := h
    simp only [mem_cons, not_or] at ht
    rw [mem_append, not_or]
    refine ⟨?_, ih ht.2.2.2 houtput⟩
    rcases canonicalizeEscape_spec hpiece with ⟨d, hd, rfl⟩ | ⟨rfl, -, hhigh, hlow⟩
    · intro hmem
      rw [mem_singleton.mp hmem] at hplain
      exact not_mem_of_isUnreserved hd hplain
    · intro hmem
      simp only [mem_cons, not_mem_nil, or_false] at hmem
      rcases hmem with rfl | rfl | rfl
      · exact ht.1 rfl
      · exact hhigh hplain
      · exact hlow hplain
  | case3 rest hrest =>
    rw [canonicalizeChars, if_pos rfl] at h
    · cases h
    · exact hrest
  | case4 d rest hrest hd ih =>
    rw [canonicalizeChars_cons hd] at h
    simp only [bind_ok_iff, pure, Except.pure, Except.ok.injEq] at h
    obtain ⟨output, houtput, rfl⟩ := h
    simp only [mem_cons, not_or] at ht ⊢
    exact ⟨ht.1, ih ht.2 houtput⟩

/-! ## §2 Segments -/

lemma canonicalizeSegment_spec {s t : Text} : canonicalizeSegment s = .ok t ↔
    s ≠ [] ∧ canonicalizeChars s = .ok t ∧ t ≠ ['.'] ∧ t ≠ ['.', '.'] := by
  unfold canonicalizeSegment
  split
  next hempty => simp [hempty]
  next hempty =>
    simp only [bind_ok_iff, rejectIf_ok, pure, Except.pure, Except.ok.injEq, not_or]
    constructor
    · rintro ⟨output, houtput, -, hdots, rfl⟩
      exact ⟨hempty, houtput, hdots⟩
    · rintro ⟨-, houtput, hdots⟩
      exact ⟨t, houtput, (), hdots, rfl⟩

lemma canonicalizeSegment_idem {s t : Text} (h : canonicalizeSegment s = .ok t) :
    canonicalizeSegment t = .ok t := by
  have hne := canonicalizeSegment_ne_nil h
  obtain ⟨-, hchars, hdots⟩ := canonicalizeSegment_spec.mp h
  exact canonicalizeSegment_spec.mpr ⟨hne, canonicalizeChars_idem hchars, hdots⟩

/-- A segment of a canonical name. -/
structure IsCanonical (s : Text) : Prop where
  fixed : canonicalizeSegment s = .ok s
  noSlash : '/' ∉ s
  notReserved : s.any isReserved = false

lemma any_isReserved {t : Text} :
    t.any isReserved = false ↔ ∀ c ∈ ['\\', '\x00', '?', '#'], c ∉ t := by
  simp only [any_eq_false, isReserved, decide_eq_true_eq, mem_cons, not_mem_nil, or_false]
  exact ⟨fun h c hc hmem => h c hmem hc, fun h c hmem hc => h c hc hmem⟩

lemma isCanonical_of_segment {s t : Text} (hslash : '/' ∉ s)
    (hreserved : s.any isReserved = false) (h : canonicalizeSegment s = .ok t) : IsCanonical t := by
  obtain ⟨-, hchars, -⟩ := canonicalizeSegment_spec.mp h
  refine ⟨canonicalizeSegment_idem h, canonicalizeChars_plain (by simp) hslash hchars,
    any_isReserved.mpr fun c hc => ?_⟩
  have hs : c ∉ s := any_isReserved.mp hreserved c hc
  exact canonicalizeChars_plain (mem_cons_of_mem _ hc) hs hchars

lemma mem_splitOn {sep : Char} {t s : Text} (hs : s ∈ t.splitOn sep) : sep ∉ s ∧ s ⊆ t := by
  induction t generalizing s with
  | nil =>
    obtain rfl := mem_singleton.mp hs
    exact ⟨not_mem_nil, fun _ h => h⟩
  | cons c t ih =>
    rw [splitOn_cons_eq_if_modifyHead] at hs
    split at hs
    · rcases mem_cons.mp hs with rfl | hs
      · exact ⟨not_mem_nil, nofun⟩
      · exact ⟨(ih hs).1, fun d hd => mem_cons_of_mem c ((ih hs).2 hd)⟩
    next hc =>
      obtain ⟨first, rest, hsplit⟩ := exists_cons_of_ne_nil (splitOn_ne_nil sep t)
      rw [hsplit] at ih hs
      rcases mem_cons.mp hs with rfl | hs
      · have hfirst := ih mem_cons_self
        refine ⟨fun hmem => ?_, cons_subset_cons c hfirst.2⟩
        rcases mem_cons.mp hmem with heq | hmem
        · exact hc (by simp [heq])
        · exact hfirst.1 hmem
      · have hrest := ih (mem_cons_of_mem first hs)
        exact ⟨hrest.1, fun d hd => mem_cons_of_mem c (hrest.2 hd)⟩

lemma notReserved_of_subset {s t : Text} (hst : s ⊆ t) (ht : t.any isReserved = false) :
    s.any isReserved = false :=
  any_eq_false.mpr fun c hc => any_eq_false.mp ht c (hst hc)

/-- A text whose segments are all made canonical neither begins nor ends with a slash. -/
theorem segments_ok {t : Text} {segments : List Text}
    (h : (t.splitOn '/').mapM canonicalizeSegment = .ok segments) :
    t ≠ [] ∧ t.head? ≠ some '/' ∧ t.getLast? ≠ some '/' ∧ segments ≠ [] := by
  have hsome : ∀ s ∈ t.splitOn '/', s ≠ [] := by
    intro s hs
    obtain ⟨_, -, hsegment⟩ := exists_of_mem_forall₂ (mapM_ok_iff.mp h).flip hs
    exact (canonicalizeSegment_spec.mp hsegment).1
  refine ⟨?_, ?_, ?_, ?_⟩
  · rintro rfl
    exact hsome [] mem_cons_self rfl
  · intro hhead
    obtain ⟨rest, rfl⟩ := head?_eq_some_iff.mp hhead
    refine hsome [] ?_ rfl
    rw [splitOn_cons_eq_if_modifyHead, if_pos (beq_self_eq_true '/')]
    exact mem_cons_self
  · intro hlast
    obtain ⟨front, rfl⟩ := getLast?_eq_some_iff.mp hlast
    refine hsome [] ?_ rfl
    rw [splitOn_append_cons_self]
    exact mem_append_right _ mem_cons_self
  · rintro rfl
    exact splitOn_ne_nil '/' t (forall₂_nil_right_iff.mp (mapM_ok_iff.mp h))

/-! ## §3 Names -/

lemma canonicalizePartUri_iff {t canonical : Text} :
    canonicalizePartUri ('/' :: t) = .ok canonical ↔ t.any isReserved = false ∧
      ∃ segments, (t.splitOn '/').mapM canonicalizeSegment = .ok segments ∧
        canonical = '/' :: joinWith ['/'] segments ∧
        utf8Len canonical ≤ maxCanonicalPartUriBytes := by
  have hslash : isReserved '/' = false := by decide
  simp only [canonicalizePartUri, bind_ok_iff, rejectIf_ok, pure, Except.pure, Except.ok.injEq,
    head?_cons, ne_eq, not_true_eq_false, false_or, not_or, any_cons, hslash,
    Bool.false_or, Bool.not_eq_true, drop_one, tail_cons, not_lt]
  constructor
  · rintro ⟨-, ⟨-, hreserved⟩, segments, hsegments, -, hlength, rfl⟩
    exact ⟨hreserved, segments, hsegments, rfl, hlength⟩
  · rintro ⟨hreserved, segments, hsegments, rfl, hlength⟩
    obtain ⟨hne, -, hlast, -⟩ := segments_ok hsegments
    refine ⟨(), ⟨?_, hreserved⟩, segments, hsegments, (), hlength, rfl⟩
    rw [getLast?_cons_of_ne_nil hne]
    exact hlast

lemma canonicalizeZipName_iff_segments {t canonical : Text} :
    canonicalizeZipName t false = .ok canonical ↔ t.any isReserved = false ∧
      ∃ segments, (t.splitOn '/').mapM canonicalizeSegment = .ok segments ∧
        canonical = '/' :: joinWith ['/'] segments ∧
        utf8Len canonical ≤ maxCanonicalPartUriBytes := by
  simp only [canonicalizeZipName, bind_ok_iff, rejectIf_ok, pure, Except.pure, Except.ok.injEq,
    not_or, Bool.not_eq_true, Bool.false_eq_true, false_and, not_false_eq_true, true_and,
    if_false, append_nil, not_lt]
  constructor
  · rintro ⟨-, ⟨-, -, hreserved, -⟩, -, segments, hsegments, -, hlength, rfl⟩
    exact ⟨hreserved, segments, hsegments, rfl, hlength⟩
  · rintro ⟨hreserved, segments, hsegments, rfl, hlength⟩
    obtain ⟨hne, hhead, hlast, -⟩ := segments_ok hsegments
    exact ⟨(), ⟨hne, hhead, hreserved, hlast⟩, (), segments, hsegments, (), hlength, rfl⟩

lemma isCanonical_of_fixed {t : Text} (h : canonicalizePartUri ('/' :: t) = .ok ('/' :: t)) :
    ∀ s ∈ t.splitOn '/', IsCanonical s := by
  obtain ⟨hreserved, segments, hsegments, hjoin, -⟩ := canonicalizePartUri_iff.mp h
  have hcanonical : ∀ s ∈ segments, IsCanonical s := by
    intro s hs
    obtain ⟨raw, hraw, hsegment⟩ := exists_of_mem_forall₂ (mapM_ok_iff.mp hsegments) hs
    obtain ⟨hslash, hsubset⟩ := mem_splitOn hraw
    exact isCanonical_of_segment hslash (notReserved_of_subset hsubset hreserved) hsegment
  rw [(cons.inj hjoin).2]
  have hsplit : (joinWith ['/'] segments).splitOn '/' = segments :=
    splitOn_intercalate '/' (fun s hs => (hcanonical s hs).noSlash) (segments_ok hsegments).2.2.2
  rwa [hsplit]

/-- Canonical segments make a canonical name. -/
theorem canonicalizePartUri_join {segments : List Text} (hne : segments ≠ [])
    (hall : ∀ s ∈ segments, IsCanonical s)
    (hlength : utf8Len ('/' :: joinWith ['/'] segments) ≤ maxCanonicalPartUriBytes) :
    canonicalizePartUri ('/' :: joinWith ['/'] segments) = .ok ('/' :: joinWith ['/'] segments) ∧
      (joinWith ['/'] segments).splitOn '/' = segments := by
  have hsplit : (joinWith ['/'] segments).splitOn '/' = segments :=
    splitOn_intercalate '/' (fun s hs => (hall s hs).noSlash) hne
  refine ⟨canonicalizePartUri_iff.mpr ⟨?_, segments, ?_, rfl, hlength⟩, hsplit⟩
  · refine any_isReserved.mpr fun c hc => ?_
    refine not_mem_joinWith ?_ fun s hs => any_isReserved.mp (hall s hs).notReserved c hc
    intro hmem
    rw [mem_singleton.mp hmem] at hc
    exact absurd hc (by decide)
  · rw [hsplit, mapM_ok_iff, forall₂_same]
    exact fun s hs => (hall s hs).fixed

/-- What a target is relative to. -/
theorem isCanonical_base {base : Text} (h : canonicalizePartUri base = .ok base) :
    ∀ s ∈ ((rsplitOnce '/' (base.drop 1)).map fun split => split.1.splitOn '/').getD [],
      IsCanonical s := by
  intro s hs
  cases hsplit : rsplitOnce '/' (base.drop 1) with
  | none =>
    rw [hsplit] at hs
    cases hs
  | some parts =>
    obtain ⟨parent, name⟩ := parts
    rw [hsplit] at hs
    obtain ⟨hbase, -⟩ := rsplitOnce_spec hsplit
    cases base with
    | nil => cases h
    | cons c t =>
      have hslash : c = '/' := by
        obtain ⟨_, hreject, -⟩ := bind_ok_iff.mp h
        exact Option.some.inj (not_not.mp (not_or.mp (rejectIf_ok.mp hreject)).1)
      subst hslash
      refine isCanonical_of_fixed h s ?_
      rw [show t = parent ++ '/' :: name from hbase, splitOn_append_cons_self]
      exact mem_append_left _ hs

/-- A step over a segment keeps to canonical segments. -/
theorem resolveSegment_canonical {segments segments' : List Text} {raw : Text}
    (hall : ∀ s ∈ segments, IsCanonical s) (hslash : '/' ∉ raw)
    (hreserved : raw.any isReserved = false) (h : resolveSegment segments raw = .ok segments') :
    ∀ s ∈ segments', IsCanonical s := by
  unfold resolveSegment at h
  split at h
  · cases h
  split at h
  · split at h
    · cases h
    · cases h
      exact fun s hs => hall s (dropLast_subset _ hs)
  split at h
  next segment hsegment =>
    cases h
    intro s hs
    rcases mem_append.mp hs with hs | hs
    · exact hall s hs
    · rw [mem_singleton.mp hs]
      exact isCanonical_of_segment hslash hreserved hsegment
  next => cases h
  next => cases h

/-- A target that is resolved from a part of the package leads to a part of the package, or to its
root. -/
theorem resolveRelationshipTarget_canonical {base target resolved : Text}
    (hbase : base = ['/'] ∨ canonicalizePartUri base = .ok base)
    (h : resolveRelationshipTarget base target = .ok resolved) :
    resolved = ['/'] ∨ canonicalizePartUri resolved = .ok resolved ∧
      ∀ s ∈ (resolved.drop 1).splitOn '/', s ≠ [] ∧ s ≠ ['.'] ∧ s ≠ ['.', '.'] := by
  simp only [resolveRelationshipTarget, bind_ok_iff, rejectIf_ok, pure, Except.pure,
    Except.ok.injEq] at h
  obtain ⟨-, htarget, segments, hsegments, -, hlength, rfl⟩ := h
  have hreserved : target.any isReserved = false := by
    simpa using (not_or.mp (not_or.mp htarget).2).2
  have hcanonical : ∀ s ∈ segments, IsCanonical s := by
    refine foldlM_induction resolveSegment (fun segments => ∀ s ∈ segments, IsCanonical s)
      (fun segments segments' raw hraw hall hstep => ?_) ?_ hsegments
    · obtain ⟨hslash, hsubset⟩ := mem_splitOn hraw
      exact resolveSegment_canonical hall hslash (notReserved_of_subset
        (Subset.trans hsubset (dropWhile_sublist _).subset) hreserved) hstep
    · split
      · exact nofun
      next hrelative =>
        rcases hbase with rfl | hbase
        · exact absurd (.inr rfl) hrelative
        · exact isCanonical_base hbase
  cases segments with
  | nil => exact .inl rfl
  | cons first rest =>
    obtain ⟨hfixed, hsplit⟩ := canonicalizePartUri_join (cons_ne_nil first rest) hcanonical
      (not_lt.mp hlength)
    refine .inr ⟨hfixed, fun s hs => ?_⟩
    rw [drop_one, tail_cons, hsplit] at hs
    obtain ⟨hne, -, hdot, hdots⟩ := canonicalizeSegment_spec.mp (hcanonical s hs).fixed
    exact ⟨hne, hdot, hdots⟩

/-! ## §4 Spellings -/

/-- The same name, with characters that need no escape spelled by one in either name or in none, and
digits of escapes in either case. -/
inductive Respelled : Text → Text → Prop
  | nil : Respelled [] []
  | char {c : Char} {t u : Text} (hc : c ≠ '%') (h : Respelled t u) : Respelled (c :: t) (c :: u)
  | escape {high low high' low' : Char} {hi lo : ℕ} {t u : Text} (hhigh : hexValue high = some hi)
      (hhigh' : hexValue high' = some hi) (hlow : hexValue low = some lo)
      (hlow' : hexValue low' = some lo) (h : Respelled t u) :
      Respelled ('%' :: high :: low :: t) ('%' :: high' :: low' :: u)
  | encode {high low : Char} {hi lo : ℕ} {t u : Text} (hhigh : hexValue high = some hi)
      (hlow : hexValue low = some lo) (hc : isUnreserved (Char.ofNat (16 * hi + lo)) = true)
      (h : Respelled t u) : Respelled (Char.ofNat (16 * hi + lo) :: t) ('%' :: high :: low :: u)
  | decode {high low : Char} {hi lo : ℕ} {t u : Text} (hhigh : hexValue high = some hi)
      (hlow : hexValue low = some lo) (hc : isUnreserved (Char.ofNat (16 * hi + lo)) = true)
      (h : Respelled t u) : Respelled ('%' :: high :: low :: t) (Char.ofNat (16 * hi + lo) :: u)

lemma canonicalizeEscape_unreserved {hi lo : ℕ} (hhigh : hexValue high = some hi)
    (hlow : hexValue low = some lo) (hc : isUnreserved (Char.ofNat (16 * hi + lo)) = true) :
    canonicalizeEscape high low = .ok [Char.ofNat (16 * hi + lo)] := by
  have hplain := not_mem_of_isUnreserved hc
  simp only [mem_cons, not_or] at hplain
  simp only [canonicalizeEscape, hhigh, hlow]
  rw [if_neg (not_or.mpr ⟨hplain.2.1, not_or.mpr ⟨hplain.2.2.1, hplain.2.2.2.1⟩⟩),
    if_pos (by simpa [isUnreserved] using hc)]

lemma canonicalizeEscape_congr {high' low' : Char} {hi lo : ℕ} (hhigh : hexValue high = some hi)
    (hhigh' : hexValue high' = some hi) (hlow : hexValue low = some lo)
    (hlow' : hexValue low' = some lo) :
    canonicalizeEscape high low = canonicalizeEscape high' low' := by
  simp only [canonicalizeEscape, hhigh, hhigh', hlow, hlow', (hexValue_toUpper hhigh).2.1,
    (hexValue_toUpper hhigh').2.1, (hexValue_toUpper hlow).2.1, (hexValue_toUpper hlow').2.1]

namespace Respelled

variable {t u : Text}

lemma canonicalizeChars_eq (h : Respelled t u) : canonicalizeChars t = canonicalizeChars u := by
  -- an escape of such a character reads as the character
  have hescape : ∀ {high low hi lo} (t : Text), hexValue high = some hi → hexValue low = some lo →
      isUnreserved (Char.ofNat (16 * hi + lo)) = true →
      canonicalizeChars ('%' :: high :: low :: t) =
        canonicalizeChars (Char.ofNat (16 * hi + lo) :: t) := by
    intro high low hi lo t hhigh hlow hc
    have hne : Char.ofNat (16 * hi + lo) ≠ '%' := fun hpercent =>
      not_mem_of_isUnreserved hc (by simp [hpercent])
    rw [canonicalizeChars_cons hne, canonicalizeChars, canonicalizeEscape_unreserved hhigh hlow hc]
    rfl
  have hcons : ∀ {c} {t u : Text}, isUnreserved c = true →
      canonicalizeChars t = canonicalizeChars u →
      canonicalizeChars (c :: t) = canonicalizeChars (c :: u) := by
    intro c t u hc heq
    have hne : c ≠ '%' := fun hpercent => not_mem_of_isUnreserved hc (by simp [hpercent])
    rw [canonicalizeChars_cons hne, canonicalizeChars_cons hne, heq]
  induction h with
  | nil => rfl
  | char hc _ ih => rw [canonicalizeChars_cons hc, canonicalizeChars_cons hc, ih]
  | escape hhigh hhigh' hlow hlow' _ ih =>
    rw [canonicalizeChars, canonicalizeChars, canonicalizeEscape_congr hhigh hhigh' hlow hlow', ih]
  | encode hhigh hlow hc _ ih => rw [hescape _ hhigh hlow hc, hcons hc ih]
  | decode hhigh hlow hc _ ih => rw [hescape _ hhigh hlow hc, hcons hc ih]

lemma canonicalizeSegment_eq (h : Respelled t u) :
    canonicalizeSegment t = canonicalizeSegment u := by
  have hempty : t = [] ↔ u = [] := by cases h <;> simp
  unfold canonicalizeSegment
  rw [h.canonicalizeChars_eq]
  simp only [hempty]

/-- What has no slash stays before the first segment. -/
theorem forall₂_splitOn_append {front front' : Text} (hfront : '/' ∉ front) (hfront' : '/' ∉ front')
    (hstep : ∀ {t u}, Respelled t u → Respelled (front ++ t) (front' ++ u))
    (h : List.Forall₂ Respelled (t.splitOn '/') (u.splitOn '/')) :
    List.Forall₂ Respelled ((front ++ t).splitOn '/') ((front' ++ u).splitOn '/') := by
  have hsplit : ∀ {front : Text}, '/' ∉ front → ∀ t : Text,
      (front ++ t).splitOn '/' = (t.splitOn '/').modifyHead (front ++ ·) := by
    intro front hfront t
    induction front with
    | nil =>
      obtain ⟨first, rest, hrest⟩ := exists_cons_of_ne_nil (splitOn_ne_nil '/' t)
      rw [nil_append, hrest]
      rfl
    | cons c front ih =>
      rw [mem_cons, not_or] at hfront
      rw [cons_append, splitOn_cons_eq_if_modifyHead, ih hfront.2,
        if_neg (by simpa using Ne.symm hfront.1), modifyHead_modifyHead]
      rfl
  rw [hsplit hfront, hsplit hfront']
  generalize t.splitOn '/' = segments at h ⊢
  generalize u.splitOn '/' = segments' at h ⊢
  cases h with
  | nil => exact .nil
  | cons hhead hrest => exact .cons (hstep hhead) hrest

lemma splitOn (h : Respelled t u) : List.Forall₂ Respelled (t.splitOn '/') (u.splitOn '/') := by
  have hdigit : ∀ {c value}, hexValue c = some value → '/' ≠ c := fun hc heq =>
    (hexValue_toUpper hc).2.2.2.1 (by simp [← heq])
  induction h with
  | nil => exact .cons .nil .nil
  | @char c t u hc _ ih =>
    by_cases hslash : c = '/'
    · subst hslash
      exact .cons .nil ih
    · have hfront : '/' ∉ [c] := by simpa using Ne.symm hslash
      exact forall₂_splitOn_append hfront hfront (fun h => .char hc h) ih
  | @escape high low high' low' hi lo t u hhigh hhigh' hlow hlow' _ ih =>
    have hfront : '/' ∉ ['%', high, low] := by simp [hdigit hhigh, hdigit hlow]
    have hfront' : '/' ∉ ['%', high', low'] := by simp [hdigit hhigh', hdigit hlow']
    exact forall₂_splitOn_append hfront hfront' (fun h => .escape hhigh hhigh' hlow hlow' h) ih
  | @encode high low hi lo t u hhigh hlow hc _ ih =>
    have hfront : '/' ∉ [Char.ofNat (16 * hi + lo)] := fun hmem =>
      not_mem_of_isUnreserved hc (by simp [← mem_singleton.mp hmem])
    have hfront' : '/' ∉ ['%', high, low] := by simp [hdigit hhigh, hdigit hlow]
    exact forall₂_splitOn_append hfront hfront' (fun h => .encode hhigh hlow hc h) ih
  | @decode high low hi lo t u hhigh hlow hc _ ih =>
    have hfront : '/' ∉ ['%', high, low] := by simp [hdigit hhigh, hdigit hlow]
    have hfront' : '/' ∉ [Char.ofNat (16 * hi + lo)] := fun hmem =>
      not_mem_of_isUnreserved hc (by simp [← mem_singleton.mp hmem])
    exact forall₂_splitOn_append hfront hfront' (fun h => .decode hhigh hlow hc h) ih

lemma any_isReserved_eq (h : Respelled t u) : t.any isReserved = u.any isReserved := by
  have hreserved : ∀ {c}, c ∉ ['%', '/', '\\', '\x00', '?', '#'] → isReserved c = false := by
    intro c hc
    simp only [mem_cons, not_or] at hc
    simp [isReserved, hc]
  have hdigit : ∀ {c value}, hexValue c = some value → isReserved c = false := fun hc =>
    hreserved (hexValue_toUpper hc).2.2.2.1
  induction h with
  | nil => rfl
  | char _ _ ih => rw [any_cons, any_cons, ih]
  | escape hhigh hhigh' hlow hlow' _ ih =>
    simp only [any_cons, hdigit hhigh, hdigit hhigh', hdigit hlow, hdigit hlow', ih]
  | encode hhigh hlow hc _ ih | decode hhigh hlow hc _ ih =>
    have hpercent : isReserved '%' = false := by decide
    simp only [any_cons, hdigit hhigh, hdigit hlow, hpercent, Bool.false_or, ih,
      hreserved (not_mem_of_isUnreserved hc)]

end Respelled

/-- An entry of the archive and a URI that spells its name go by one name. -/
theorem canonicalizeZipName_iff {name uri : Text} (h : uri = name ∨ Respelled name uri)
    (canonical : Text) :
    canonicalizeZipName name false = .ok canonical ↔
      canonicalizePartUri ('/' :: uri) = .ok canonical := by
  rw [canonicalizeZipName_iff_segments, canonicalizePartUri_iff]
  rcases h with rfl | h
  · exact Iff.rfl
  have hsegments : (name.splitOn '/').mapM canonicalizeSegment =
      (uri.splitOn '/').mapM canonicalizeSegment := by
    have hsplit := h.splitOn
    generalize name.splitOn '/' = names at hsplit ⊢
    generalize uri.splitOn '/' = uris at hsplit ⊢
    induction hsplit with
    | nil => rfl
    | cons hhead _ ih => rw [mapM_cons, mapM_cons, hhead.canonicalizeSegment_eq, ih]
  rw [hsegments, h.any_isReserved_eq]

/-- Segments are made canonical once and for all, targets lead to canonical names within the
package, and entries and the URIs that spell them agree. -/
theorem partNames_canonical :
    (∀ s t, canonicalizeSegment s = .ok t → canonicalizeSegment t = .ok t) ∧
    (∀ base target resolved, base = ['/'] ∨ canonicalizePartUri base = .ok base →
      resolveRelationshipTarget base target = .ok resolved →
      resolved = ['/'] ∨ canonicalizePartUri resolved = .ok resolved ∧
        ∀ s ∈ (resolved.drop 1).splitOn '/', s ≠ [] ∧ s ≠ ['.'] ∧ s ≠ ['.', '.']) ∧
    ∀ name uri canonical, uri = name ∨ Respelled name uri →
      (canonicalizeZipName name false = .ok canonical ↔
        canonicalizePartUri ('/' :: uri) = .ok canonical) :=
  ⟨fun _ _ => canonicalizeSegment_idem, fun _ _ _ => resolveRelationshipTarget_canonical,
    fun _ _ canonical h => canonicalizeZipName_iff h canonical⟩

/-- A space is kept as it is, and so is the escape that stands for one. -/
theorem zipName_ne_partUri : canonicalizeZipName "a b".toList false = .ok "/a b".toList ∧
    canonicalizePartUri "/a%20b".toList = .ok "/a%20b".toList := by
  decide

theorem partNames_canonical_letters :
    canonicalizeSegment "A".toList = .ok "A".toList ∧
      canonicalizePartUri "/w/a.xml".toList = .ok "/w/a.xml".toList ∧
      (canonicalizeZipName "A".toList false = .ok "/A".toList ↔
        canonicalizePartUri "/%41".toList = .ok "/A".toList) := by
  refine ⟨partNames_canonical.1 "%41".toList "A".toList (by decide), ?_,
    partNames_canonical.2.2 "A".toList "%41".toList "/A".toList
      (.inr (@Respelled.encode '4' '1' 4 1 [] [] (by decide) (by decide) (by decide) .nil))⟩
  have hresolved := partNames_canonical.2.1 "/w/b.xml".toList "../w/a%2Exml".toList
    "/w/a.xml".toList (.inr (by decide)) (by decide)
  exact (hresolved.resolve_left (by decide)).1

end Kwiry.Docx
