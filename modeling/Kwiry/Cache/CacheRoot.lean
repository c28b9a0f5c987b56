import Mathlib.Tactic.IntervalCases
import Kwiry.Cache.Records
import Kwiry.Foundations.Paths

/-!
# Screening the Cache Root

A cache root is refused inside the vault and on a network mount. Containment is read off the text
of a relative path, and the mount in effect off the lines of the mount table.
-/

namespace Kwiry.Cache

open Foundations List

/-! ## §1 The screening -/

def isPathWithin (container candidate : Text) : Bool :=
  let relative := relativePath container candidate
  if relative = [] then true
  else !(['.', '.'].isPrefixOf relative) && relative.head? ≠ some '/'

def networkFilesystemTypes : List Text :=
  ["9p", "afs", "cifs", "drvfs", "fuse.sshfs", "nfs", "nfs4", "smb2", "smb3", "smbfs"].map
    String.toList

/-- The mount point and the file-system type that a line is read for. -/
def readMountLine (line : Text) : Option (Text × Text) :=
  match splitFirst [' ', '-', ' '] line with
  | none => none
  | some (before, after) =>
    match (before.splitOn ' ')[4]?, (after.splitOn ' ')[0]? with
    | some mountPoint, some fstype => some (mountPoint, fstype)
    | _, _ => none

/-- The length and the type of the best mount so far, after one more line. -/
def betterMount (rootPath : Text) (best : Option (ℕ × Text)) (line : Text) : Option (ℕ × Text) :=
  match readMountLine line with
  | none => best
  | some (mountPoint, fstype) =>
    if !isPathWithin mountPoint rootPath ∧ mountPoint ≠ rootPath then best
    else
      match best with
      | none => some (utf16Len mountPoint, fstype)
      | some (length, _) =>
        if length < utf16Len mountPoint then some (utf16Len mountPoint, fstype) else best

def isNetworkMountedPath (rootPath mountInfo : Text) : Bool :=
  match (mountInfo.splitOn '\n').foldl (betterMount rootPath) none with
  | none => false
  | some (_, fstype) => fstype ∈ networkFilesystemTypes

/-! ## §2 Mount tables -/

/-- The octal digit of a number below eight. -/
def octalDigit (n : ℕ) : Char := Char.ofNat (48 + n % 8)

/-- Whitespace and backslashes are written as three octal digits. -/
def escapeMountChar (c : Char) : Text :=
  if c = ' ' ∨ c = '\t' ∨ c = '\n' ∨ c = '\\' then
    ['\\', octalDigit (c.toNat / 64), octalDigit (c.toNat / 8), octalDigit c.toNat]
  else [c]

def escapeMount (t : Text) : Text := t.flatMap escapeMountChar

/-- A field of a mount table. -/
def IsMountField (field : Text) : Prop := ' ' ∉ field ∧ '\n' ∉ field ∧ field ≠ ['-']

instance (field : Text) : Decidable (IsMountField field) := inferInstanceAs (Decidable (_ ∧ _))

/-- One line of a mount table: the fields up to the root of the mount, the mount point, its options
and optional fields, and after the separator the type and what follows it. -/
structure MountEntry where
  (mountId parentId device root : Text)
  mountPoint : AbsolutePath
  options : Text
  optional : List Text
  (fstype source superOptions : Text)
  fields : ∀ field ∈ [mountId, parentId, device, root, options] ++ optional ++
    [fstype, source, superOptions], IsMountField field

/-- The mount point as the table has it. -/
def MountEntry.written (e : MountEntry) : Text := escapeMount e.mountPoint.text

def MountEntry.line (e : MountEntry) : Text :=
  joinWith [' '] (([e.mountId, e.parentId, e.device, e.root, e.written, e.options] ++ e.optional) ++
    ['-'] :: [e.fstype, e.source, e.superOptions])

/-- The text of a mount table, a line for each entry. -/
def mountInfo (entries : List MountEntry) : Text :=
  entries.flatMap fun e => e.line ++ ['\n']

def MountEntry.depth (e : MountEntry) : ℕ := e.mountPoint.segments.length

def isNetworkMount (e : MountEntry) : Bool := e.fstype ∈ networkFilesystemTypes

/-- The first of the deepest entries that count. -/
def FirstDeepest (counts : MountEntry → Prop) (entries : List MountEntry) (e : MountEntry) :
    Prop :=
  ∃ before after, entries = before ++ e :: after ∧ counts e ∧
    (∀ f ∈ before, counts f → f.depth < e.depth) ∧ ∀ f ∈ after, counts f → f.depth ≤ e.depth

/-- The mount point contains the path. -/
def Over (root : AbsolutePath) (e : MountEntry) : Prop :=
  e.mountPoint.segments <+: root.segments

instance (root : AbsolutePath) : DecidablePred (Over root) := fun _ =>
  inferInstanceAs (Decidable (_ <+: _))

/-- The mount in effect at a path: the last entry of those with the deepest mount point that
contains the path. Later entries cover earlier ones on the same point. -/
def InEffect (root : AbsolutePath) (entries : List MountEntry) (e : MountEntry) : Prop :=
  FirstDeepest (Over root) entries.reverse e

/-! ## §3 Containment -/

/-- One path contains another, and the first name in between does not begin with two dots. -/
def Contains (container candidate : AbsolutePath) : Prop :=
  container.segments <+: candidate.segments ∧
    ∀ name rest, candidate.segments = container.segments ++ name :: rest → ¬ ['.', '.'] <+: name

lemma isPathWithin_iff (container candidate : AbsolutePath) :
    isPathWithin container.text candidate.text = true ↔ Contains container candidate := by
  unfold isPathWithin
  simp only
  by_cases hprefix : container.segments <+: candidate.segments
  · obtain ⟨rest, hrest⟩ := hprefix
    rw [relativePath_descendant hrest.symm]
    cases rest with
    | nil =>
      refine iff_of_true (by rw [if_pos]; rfl) ⟨⟨[], hrest⟩, fun name rest hname => ?_⟩
      rw [← hrest, append_nil] at hname
      exact absurd (congrArg length hname) (by simp)
    | cons name rest =>
      have hsegment : IsSegment name := candidate.normal name (by rw [← hrest]; simp)
      obtain ⟨c, tail, hname⟩ := exists_cons_of_ne_nil hsegment.1
      have hhead : (joinWith ['/'] (name :: rest)).head? = some c := by
        cases rest with
        | nil => simp [joinWith, hname]
        | cons next rest => rw [joinWith_cons_cons, hname]; rfl
      have hslash : c ≠ '/' := by
        rintro rfl
        exact hsegment.2.2.2 (by rw [hname]; simp)
      have hne : joinWith ['/'] (name :: rest) ≠ [] := by
        intro hnil
        rw [hnil] at hhead
        cases hhead
      have hdots : ['.', '.'].isPrefixOf (joinWith ['/'] (name :: rest)) = true ↔
          ['.', '.'] <+: name :=
        isPrefixOf_iff_prefix.trans (dots_prefix_joinWith hsegment rest)
      rw [if_neg hne, Bool.and_eq_true, hhead, Bool.not_eq_true', ← Bool.not_eq_true, hdots]
      constructor
      · intro h
        refine ⟨⟨_, hrest⟩, fun name' rest' hname' => ?_⟩
        rw [← hrest] at hname'
        cases append_cancel_left hname'
        exact h.1
      · intro h
        exact ⟨h.2 name rest hrest.symm, by simpa using hslash⟩
  · have hup := relativePath_elsewhere hprefix
    have hne : relativePath container.text candidate.text ≠ [] := by
      intro hnil
      rw [hnil] at hup
      exact absurd (prefix_nil.mp hup) (by simp)
    rw [if_neg hne, isPrefixOf_iff_prefix.mpr hup]
    exact iff_of_false (by simp) fun h => hprefix h.1

/-! ## §4 Written mount points -/

lemma octalDigit_spec (n : ℕ) : 48 ≤ (octalDigit n).toNat := by
  have hlt : n % 8 < 8 := Nat.mod_lt n (by decide)
  unfold octalDigit
  generalize n % 8 = d at hlt
  interval_cases d <;> decide

lemma mem_escapeMountChar {c d : Char} (h : d ∈ escapeMountChar c) :
    d = '\\' ∨ 48 ≤ d.toNat ∨ d = c ∧ c ≠ ' ' ∧ c ≠ '\t' ∧ c ≠ '\n' := by
  unfold escapeMountChar at h
  split at h
  · simp only [mem_cons, not_mem_nil, or_false] at h
    rcases h with rfl | rfl | rfl | rfl
    · exact .inl rfl
    all_goals exact .inr (.inl (octalDigit_spec _))
  · next hplain =>
    rw [not_or, not_or, not_or] at hplain
    exact .inr (.inr ⟨mem_singleton.mp h, hplain.1, hplain.2.1, hplain.2.2.1⟩)

variable {t : Text}

lemma not_mem_escapeMount {c : Char} (hc : c ≠ '\\') (hlow : c.toNat < 48)
    (ht : c ∉ t ∨ c = ' ' ∨ c = '\n') : c ∉ escapeMount t := by
  intro hmem
  obtain ⟨d, hd, hcd⟩ := mem_flatMap.mp hmem
  rcases mem_escapeMountChar hcd with hback | hdigit | ⟨rfl, hspace, -, hfeed⟩
  · exact hc hback
  · omega
  · rcases ht with hnot | hspace' | hfeed'
    · exact hnot hd
    · exact hspace hspace'
    · exact hfeed hfeed'

lemma escapeMountChar_cons (c : Char) :
    ∃ first rest, escapeMountChar c = first :: rest ∧ (first = c ∧ rest = [] ∨ first = '\\') := by
  unfold escapeMountChar
  split
  · exact ⟨_, _, rfl, .inr rfl⟩
  · exact ⟨_, _, rfl, .inl ⟨rfl, rfl⟩⟩

lemma escapeMount_eq_nil (h : escapeMount t = []) : t = [] := by
  cases t with
  | nil => rfl
  | cons c t =>
    obtain ⟨first, rest, hc, -⟩ := escapeMountChar_cons c
    rw [escapeMount, flatMap_cons, hc] at h
    cases h

lemma escapeMount_eq_dots {n : ℕ} (h : escapeMount t = replicate n '.') :
    t = replicate n '.' := by
  induction n generalizing t with
  | zero => exact escapeMount_eq_nil h
  | succ n ih =>
    cases t with
    | nil => cases h
    | cons c t =>
      obtain ⟨first, rest, hc, hfirst⟩ := escapeMountChar_cons c
      rw [escapeMount, flatMap_cons, hc, replicate_succ, cons_append] at h
      injection h with hdot htail
      rcases hfirst with ⟨rfl, rfl⟩ | hback
      · rw [hdot, replicate_succ, ih htail]
      · rw [hdot] at hback
        cases hback

lemma isSegment_escapeMount {s : Text} (hs : IsSegment s) : IsSegment (escapeMount s) := by
  obtain ⟨hempty, hdot, hup, hslash⟩ := hs
  refine ⟨fun h => hempty (escapeMount_eq_nil h), fun h => hdot ?_, fun h => hup ?_,
    not_mem_escapeMount (by decide) (by decide) (.inl hslash)⟩
  · exact escapeMount_eq_dots (n := 1) h
  · exact escapeMount_eq_dots (n := 2) h

/-- The path that a written mount point is read as, with its escapes. -/
def MountEntry.writtenPath (e : MountEntry) : AbsolutePath where
  segments := e.mountPoint.segments.map escapeMount
  normal s hs := by
    obtain ⟨t, ht, rfl⟩ := mem_map.mp hs
    exact isSegment_escapeMount (e.mountPoint.normal t ht)

lemma escapeMount_joinWith (parts : List Text) :
    escapeMount (joinWith ['/'] parts) = joinWith ['/'] (parts.map escapeMount) := by
  induction parts with
  | nil => rfl
  | cons first parts ih =>
    cases parts with
    | nil => simp [joinWith]
    | cons second parts =>
      rw [joinWith_cons_cons, map_cons, map_cons, joinWith_cons_cons, escapeMount,
        flatMap_append, flatMap_append]
      rw [escapeMount, map_cons] at ih
      rw [ih]
      rfl

lemma MountEntry.writtenPath_text (e : MountEntry) : e.writtenPath.text = e.written := by
  rw [MountEntry.written, AbsolutePath.text, AbsolutePath.text, escapeMount, flatMap_cons]
  exact congrArg ('/' :: ·) (escapeMount_joinWith _).symm

lemma MountEntry.depth_writtenPath (e : MountEntry) : e.writtenPath.segments.length = e.depth :=
  length_map _

/-! ## §5 Reading a table -/

lemma MountEntry.isMountField_written (e : MountEntry) : IsMountField e.written := by
  refine ⟨not_mem_escapeMount (by decide) (by decide) (.inr (.inl rfl)),
    not_mem_escapeMount (by decide) (by decide) (.inr (.inr rfl)), ?_⟩
  rw [← e.writtenPath_text, AbsolutePath.text]
  intro h
  injection h with hslash
  cases hslash

lemma splitOn_fields {fields : List Text} (hne : fields ≠ [])
    (hfields : ∀ field ∈ fields, IsMountField field) :
    (joinWith [' '] fields).splitOn ' ' = fields :=
  splitOn_intercalate ' ' (fun field hfield => (hfields field hfield).1) hne

lemma MountEntry.frontFields (e : MountEntry) :
    ∀ field ∈ [e.mountId, e.parentId, e.device, e.root, e.written, e.options] ++ e.optional,
      IsMountField field := by
  intro field hfield
  have hfields := e.fields field
  have hwritten := e.isMountField_written
  simp only [mem_append, mem_cons, not_mem_nil, or_false] at hfield hfields
  rcases hfield with (h | h | h | h | rfl | h) | h
  · exact hfields (by simp [h])
  · exact hfields (by simp [h])
  · exact hfields (by simp [h])
  · exact hfields (by simp [h])
  · exact hwritten
  · exact hfields (by simp [h])
  · exact hfields (by simp [h])

lemma readMountLine_line (e : MountEntry) :
    readMountLine e.line = some (e.written, e.fstype) := by
  have hfront := e.frontFields
  have hback : ∀ field ∈ [e.fstype, e.source, e.superOptions], IsMountField field :=
    fun field hfield => e.fields field (mem_append_right _ hfield)
  have hcut : splitFirst [' ', '-', ' '] e.line =
      some (joinWith [' '] ([e.mountId, e.parentId, e.device, e.root, e.written, e.options] ++
        e.optional), joinWith [' '] [e.fstype, e.source, e.superOptions]) :=
    splitFirst_fields (by simp) (fun field hfield => ⟨(hfront field hfield).1,
      (hfront field hfield).2.2⟩) (by simp)
  rw [readMountLine, hcut]
  simp only
  rw [splitOn_fields (by simp) hfront, splitOn_fields (by simp) hback]
  rfl

lemma MountEntry.not_mem_line (e : MountEntry) : '\n' ∉ e.line := by
  refine not_mem_joinWith (by decide) fun part hpart => ?_
  rcases mem_append.mp hpart with hfront | hback
  · exact (e.frontFields part hfront).2.1
  · rcases mem_cons.mp hback with rfl | hback
    · decide
    · exact (e.fields part (mem_append_right _ hback)).2.1

lemma splitOn_mountInfo (entries : List MountEntry) :
    (mountInfo entries).splitOn '\n' = entries.map MountEntry.line ++ [[]] := by
  induction entries with
  | nil => rfl
  | cons e entries ih =>
    rw [mountInfo, flatMap_cons, append_assoc, singleton_append,
      splitOn_append_cons_self_of_not_mem e.not_mem_line]
    exact congrArg (e.line :: ·) ih

/-- The entry that the screening takes for the mount in effect: the first of the deepest that
contain the root as they are written. -/
def TakenFor (root : AbsolutePath) (entries : List MountEntry) (e : MountEntry) : Prop :=
  FirstDeepest (fun e => Contains e.writtenPath root) entries e

lemma isWritten_within (e : MountEntry) (root : AbsolutePath) :
    (!isPathWithin e.written root.text ∧ e.written ≠ root.text) ↔
      ¬ Contains e.writtenPath root := by
  rw [← e.writtenPath_text, Bool.not_eq_true', ← Bool.not_eq_true, isPathWithin_iff]
  refine ⟨fun h => h.1, fun h => ⟨h, fun htext => h ?_⟩⟩
  have hsegments := congrArg resolveSegments htext
  rw [resolveSegments_text, resolveSegments_text] at hsegments
  rw [Contains, hsegments]
  refine ⟨prefix_rfl, fun name rest hname => ?_⟩
  exact absurd (congrArg length hname) (by simp)

lemma utf16Len_append (s t : Text) : utf16Len (s ++ t) = utf16Len s + utf16Len t := by
  simp [utf16Len]

lemma utf16Len_pos (ht : t ≠ []) : 0 < utf16Len t := by
  obtain ⟨c, rest, rfl⟩ := exists_cons_of_ne_nil ht
  rw [utf16Len, map_cons, sum_cons]
  split <;> omega

lemma utf16Len_joinWith_lt (front : List Text) {back : List Text} (hback : back ≠ [])
    (hsegments : ∀ s ∈ back, s ≠ []) :
    utf16Len (joinWith ['/'] front) < utf16Len (joinWith ['/'] (front ++ back)) := by
  have hpos : 0 < utf16Len (joinWith ['/'] back) := by
    obtain ⟨s, rest, rfl⟩ := exists_cons_of_ne_nil hback
    have hs := utf16Len_pos (hsegments s mem_cons_self)
    cases rest with
    | nil => simpa [joinWith] using hs
    | cons next rest =>
      rw [joinWith_cons_cons, utf16Len_append, utf16Len_append]
      omega
  induction front with
  | nil => exact hpos
  | cons first front ih =>
    cases front with
    | nil =>
      obtain ⟨s, rest, rfl⟩ := exists_cons_of_ne_nil hback
      rw [cons_append, nil_append, joinWith_cons_cons, utf16Len_append, utf16Len_append]
      have hone : utf16Len (joinWith ['/'] [first]) = utf16Len first := by simp [joinWith]
      omega
    | cons second front =>
      rw [cons_append, cons_append, joinWith_cons_cons, joinWith_cons_cons,
        utf16Len_append, utf16Len_append _ (joinWith _ (second :: (front ++ back)))]
      exact Nat.add_lt_add_left ih _

variable {root : AbsolutePath} {entries : List MountEntry}

lemma utf16Len_lt_iff {e f : MountEntry} (he : Contains e.writtenPath root)
    (hf : Contains f.writtenPath root) :
    utf16Len e.written < utf16Len f.written ↔ e.depth < f.depth := by
  have hstep : ∀ {a b : MountEntry}, Contains a.writtenPath root → Contains b.writtenPath root →
      a.depth < b.depth → utf16Len a.written < utf16Len b.written := by
    intro a b ha hb hlt
    rw [← a.depth_writtenPath, ← b.depth_writtenPath] at hlt
    obtain ⟨more, hmore⟩ := prefix_of_prefix_length_le ha.1 hb.1 hlt.le
    have hne : more ≠ [] := by
      rintro rfl
      rw [← hmore, append_nil] at hlt
      exact lt_irrefl _ hlt
    rw [← a.writtenPath_text, ← b.writtenPath_text, AbsolutePath.text, AbsolutePath.text, ← hmore]
    have hsegments : ∀ s ∈ more, s ≠ [] := fun s hs =>
      (b.writtenPath.normal s (hmore ▸ mem_append_right _ hs)).1
    have hcons : ∀ t : Text, utf16Len ('/' :: t) = 1 + utf16Len t := fun t => by simp [utf16Len]
    rw [hcons, hcons]
    exact Nat.add_lt_add_left (utf16Len_joinWith_lt _ hne hsegments) 1
  refine ⟨fun hlt => ?_, hstep he hf⟩
  by_contra hle
  rcases Nat.lt_or_ge f.depth e.depth with hdeeper | hge
  · exact absurd (hstep hf he hdeeper) (by omega)
  · -- equally deep mount points of one path are the same
    have hsame : e.writtenPath.segments = f.writtenPath.segments := by
      have hlen : e.writtenPath.segments.length = f.writtenPath.segments.length := by
        rw [e.depth_writtenPath, f.depth_writtenPath]
        omega
      exact (prefix_of_prefix_length_le he.1 hf.1 hlen.le).eq_of_length hlen
    rw [← e.writtenPath_text, ← f.writtenPath_text, AbsolutePath.text, AbsolutePath.text,
      hsame] at hlt
    exact lt_irrefl _ hlt

/-! ## §6 The mount that is taken -/

/-- What the best mount says of the entries that have been read. -/
def BestOf (root : AbsolutePath) (entries : List MountEntry) : Option (ℕ × Text) → Prop
  | none => ∀ e ∈ entries, ¬ Contains e.writtenPath root
  | some best => ∃ e, TakenFor root entries e ∧ best = (utf16Len e.written, e.fstype)

section

variable {counts : MountEntry → Prop} {e b : MountEntry}

lemma FirstDeepest.mem (h : FirstDeepest counts entries e) : e ∈ entries ∧ counts e := by
  obtain ⟨before, after, rfl, he, -⟩ := h
  exact ⟨mem_append_right _ mem_cons_self, he⟩

lemma FirstDeepest.concat (h : FirstDeepest counts entries b)
    (he : counts e → e.depth ≤ b.depth) : FirstDeepest counts (entries ++ [e]) b := by
  obtain ⟨before, after, rfl, hb, hbefore, hafter⟩ := h
  refine ⟨before, after ++ [e], by simp, hb, hbefore, fun f hf hcounts => ?_⟩
  rcases mem_append.mp hf with hold | hnew
  · exact hafter f hold hcounts
  · obtain rfl := mem_singleton.mp hnew
    exact he hcounts

/-- A new entry is the first of the deepest when all that count before it are less deep. -/
theorem firstDeepest_last (he : counts e) (hall : ∀ f ∈ entries, counts f → f.depth < e.depth) :
    FirstDeepest counts (entries ++ [e]) e :=
  ⟨entries, [], rfl, he, hall, nofun⟩

lemma FirstDeepest.depth_le (h : FirstDeepest counts entries b) {f : MountEntry}
    (hf : f ∈ entries) (hcounts : counts f) : f.depth ≤ b.depth := by
  obtain ⟨before, after, rfl, -, hbefore, hafter⟩ := h
  rcases mem_append.mp hf with hold | hf
  · exact (hbefore f hold hcounts).le
  · rcases mem_cons.mp hf with rfl | hold
    · exact le_rfl
    · exact hafter f hold hcounts

lemma FirstDeepest.unique {e' : MountEntry} (h : FirstDeepest counts entries e)
    (h' : FirstDeepest counts entries e') : e = e' := by
  have hle := h.depth_le h'.mem.1 h'.mem.2
  have hle' := h'.depth_le h.mem.1 h.mem.2
  obtain ⟨before, after, rfl, he, hbefore, -⟩ := h
  obtain ⟨before', after', hsplit, he', hbefore', -⟩ := h'
  rcases append_eq_append_iff.mp hsplit with ⟨more, hmore, hrest⟩ | ⟨more, hmore, hrest⟩
  · cases more with
    | nil => exact (cons.inj hrest).1
    | cons first more =>
      cases hrest
      exact absurd (hbefore' e (by simp [hmore]) he) (by omega)
  · cases more with
    | nil => exact (cons.inj hrest).1.symm
    | cons first more =>
      cases hrest
      exact absurd (hbefore e' (by simp [hmore]) he') (by omega)

lemma exists_firstDeepest (h : ∃ e ∈ entries, counts e) : ∃ e, FirstDeepest counts entries e := by
  induction entries using reverseRecOn with
  | nil =>
    obtain ⟨e, he, -⟩ := h
    cases he
  | append_singleton rest e ih =>
    by_cases hrest : ∃ f ∈ rest, counts f
    · obtain ⟨b, hb⟩ := ih hrest
      by_cases hdeeper : counts e ∧ b.depth < e.depth
      · refine ⟨e, firstDeepest_last hdeeper.1 fun f hf hcounts => ?_⟩
        exact (hb.depth_le hf hcounts).trans_lt hdeeper.2
      · exact ⟨b, hb.concat fun he => Nat.not_lt.mp fun hlt => hdeeper ⟨he, hlt⟩⟩
    · obtain ⟨f, hf, hcounts⟩ := h
      rcases mem_append.mp hf with hold | hnew
      · exact absurd ⟨f, hold, hcounts⟩ hrest
      · obtain rfl := mem_singleton.mp hnew
        exact ⟨f, firstDeepest_last hcounts fun g hg hg' => absurd ⟨g, hg, hg'⟩ hrest⟩

lemma FirstDeepest.congr {counts' : MountEntry → Prop} (h : ∀ e ∈ entries, counts e ↔ counts' e) :
    FirstDeepest counts entries e ↔ FirstDeepest counts' entries e := by
  have hkept : ∀ {p q : MountEntry → Prop}, (∀ e ∈ entries, p e ↔ q e) →
      FirstDeepest p entries e → FirstDeepest q entries e := by
    rintro p q hpq ⟨before, after, rfl, hcounts, hbefore, hafter⟩
    exact ⟨before, after, rfl, (hpq e (by simp)).mp hcounts,
      fun f hf hq => hbefore f hf ((hpq f (by simp [hf])).mpr hq),
      fun f hf hq => hafter f hf ((hpq f (by simp [hf])).mpr hq)⟩
  exact ⟨hkept h, hkept fun e he => (h e he).symm⟩

end

lemma BestOf.step {best : Option (ℕ × Text)} (h : BestOf root entries best) (e : MountEntry) :
    BestOf root (entries ++ [e]) (betterMount root.text best e.line) := by
  rw [betterMount, readMountLine_line]
  simp only
  split
  · next hskip =>
    have hout := (isWritten_within e root).mp hskip
    cases best with
    | none =>
      intro f hf
      rcases mem_append.mp hf with hold | hnew
      · exact h f hold
      · exact mem_singleton.mp hnew ▸ hout
    | some best =>
      obtain ⟨b, hb, rfl⟩ := h
      exact ⟨b, FirstDeepest.concat hb fun he => absurd he hout, rfl⟩
  · next hcount =>
    have hin := not_not.mp (mt (isWritten_within e root).mpr hcount)
    cases best with
    | none => exact ⟨e, firstDeepest_last hin fun f hf hwithin => absurd hwithin (h f hf), rfl⟩
    | some best =>
      obtain ⟨b, hb, rfl⟩ := h
      have hbroot : Contains b.writtenPath root := (FirstDeepest.mem hb).2
      simp only [utf16Len_lt_iff hbroot hin]
      split
      · next hdeeper =>
        refine ⟨e, firstDeepest_last hin fun f hf hwithin => ?_, rfl⟩
        exact Nat.lt_of_le_of_lt (FirstDeepest.depth_le hb hf hwithin) hdeeper
      · next hle => exact ⟨b, FirstDeepest.concat hb fun _ => Nat.not_lt.mp hle, rfl⟩

lemma bestOf_foldl (root : AbsolutePath) (entries : List MountEntry) :
    BestOf root entries ((entries.map MountEntry.line).foldl (betterMount root.text) none) := by
  -- from the entries that have been read to the whole table
  have hrun : ∀ (rest before : List MountEntry) (best : Option (ℕ × Text)),
      BestOf root before best →
      BestOf root (before ++ rest)
        ((rest.map MountEntry.line).foldl (betterMount root.text) best) := by
    intro rest
    induction rest with
    | nil =>
      intro before best hbest
      rwa [append_nil]
    | cons e rest ih =>
      intro before best hbest
      have hnext := ih (before ++ [e]) _ (hbest.step e)
      rwa [append_assoc, singleton_append] at hnext
  exact hrun entries [] none fun e he => by cases he

/-- The type that decides is that of the mount that is taken. -/
theorem isNetworkMountedPath_iff (root : AbsolutePath) (entries : List MountEntry) :
    isNetworkMountedPath root.text (mountInfo entries) = true ↔
      ∃ e, TakenFor root entries e ∧ isNetworkMount e = true := by
  have hbest := bestOf_foldl root entries
  have hempty : betterMount root.text ((entries.map MountEntry.line).foldl (betterMount root.text)
      none) [] = (entries.map MountEntry.line).foldl (betterMount root.text) none := rfl
  rw [isNetworkMountedPath, splitOn_mountInfo, foldl_append, foldl_cons, foldl_nil, hempty]
  cases hfold : (entries.map MountEntry.line).foldl (betterMount root.text) none with
  | none =>
    rw [hfold] at hbest
    refine iff_of_false (by simp) fun htaken => ?_
    obtain ⟨e, he, -⟩ := htaken
    exact hbest e (FirstDeepest.mem he).1 (FirstDeepest.mem he).2
  | some best =>
    rw [hfold] at hbest
    obtain ⟨b, hb, rfl⟩ := hbest
    refine ⟨fun hnetwork => ⟨b, hb, hnetwork⟩, fun htaken => ?_⟩
    obtain ⟨e, he, hnetwork⟩ := htaken
    exact FirstDeepest.unique hb he ▸ hnetwork

/-! ## §7 Where the screening is exact -/

/-- The characters that a mount table escapes. -/
def escapedChars : Text := [' ', '\t', '\n', '\\']

/-- A mount point that contains the root, as it is or as it is written, has no character that is
escaped, and the name after it in the root does not begin with two dots. -/
def PlainMounts (root : AbsolutePath) (entries : List MountEntry) : Prop :=
  ∀ e ∈ entries, Over root e ∨ e.writtenPath.segments <+: root.segments →
    (∀ s ∈ e.mountPoint.segments, ∀ c ∈ s, c ∉ escapedChars) ∧
    ∀ name rest, root.segments = e.mountPoint.segments ++ name :: rest → ¬ ['.', '.'] <+: name

lemma escapeMount_plain (h : ∀ c ∈ t, c ∉ escapedChars) : escapeMount t = t := by
  induction t with
  | nil => rfl
  | cons c t ih =>
    have hc : escapeMountChar c = [c] := if_neg (by simpa [escapedChars] using h c mem_cons_self)
    rw [escapeMount, flatMap_cons, hc, singleton_append]
    exact congrArg (c :: ·) (ih fun d hd => h d (mem_cons_of_mem _ hd))

lemma writtenPath_plain {e : MountEntry}
    (h : ∀ s ∈ e.mountPoint.segments, ∀ c ∈ s, c ∉ escapedChars) :
    e.writtenPath.segments = e.mountPoint.segments := by
  refine (map_congr_left fun s hs => ?_).trans (map_id _)
  exact escapeMount_plain (h s hs)

lemma contains_iff_over (h : PlainMounts root entries) {e : MountEntry} (he : e ∈ entries) :
    Contains e.writtenPath root ↔ Over root e := by
  constructor
  · intro hcontains
    have hplain := (h e he (.inr hcontains.1)).1
    have hprefix := hcontains.1
    rwa [writtenPath_plain hplain] at hprefix
  · intro hover
    obtain ⟨hplain, hdots⟩ := h e he (.inl hover)
    rw [Contains, writtenPath_plain hplain]
    exact ⟨hover, hdots⟩

/-- Containment is exact but for a descendant whose first name below begins with two dots. A table
of plain mount points is read exactly where the first and the last of the deepest entries over the
root are both of a network type, or neither is. -/
theorem screening_exact_iff (container candidate root : AbsolutePath) (entries : List MountEntry) :
    ((isPathWithin container.text candidate.text = true ↔
        container.segments <+: candidate.segments) ↔
      ¬ ∃ name rest, candidate.segments = container.segments ++ name :: rest ∧
        ['.', '.'] <+: name) ∧
    (PlainMounts root entries →
      ((isNetworkMountedPath root.text (mountInfo entries) = true ↔
          ∃ e, InEffect root entries e ∧ isNetworkMount e = true) ↔
        ∀ first last, FirstDeepest (Over root) entries first → InEffect root entries last →
          isNetworkMount first = isNetworkMount last)) := by
  refine ⟨?_, fun hplain => ?_⟩
  · rw [isPathWithin_iff]
    constructor
    · intro hexact hdots
      obtain ⟨name, rest, hname, hprefix⟩ := hdots
      exact (hexact.mpr ⟨name :: rest, hname.symm⟩).2 name rest hname hprefix
    · intro hdots
      refine ⟨fun h => h.1, fun h => ⟨h, fun name rest hname hprefix => ?_⟩⟩
      exact hdots ⟨name, rest, hname, hprefix⟩
  · have htaken : ∀ e, TakenFor root entries e ↔ FirstDeepest (Over root) entries e := fun e =>
      FirstDeepest.congr fun f hf => contains_iff_over hplain hf
    simp only [isNetworkMountedPath_iff, htaken]
    constructor
    · intro hexact first last hfirst hlast
      rw [Bool.eq_iff_iff]
      constructor
      · intro hnetwork
        obtain ⟨e, he, hnetwork'⟩ := hexact.mp ⟨first, hfirst, hnetwork⟩
        exact FirstDeepest.unique hlast he ▸ hnetwork'
      · intro hnetwork
        obtain ⟨e, he, hnetwork'⟩ := hexact.mpr ⟨last, hlast, hnetwork⟩
        exact hfirst.unique he ▸ hnetwork'
    · intro halike
      -- an entry over the root has a first and a last among the deepest
      have hboth : ∀ {e}, e ∈ entries → Over root e →
          (∃ first, FirstDeepest (Over root) entries first) ∧ ∃ last, InEffect root entries last :=
        fun he hover => ⟨exists_firstDeepest ⟨_, he, hover⟩,
          exists_firstDeepest ⟨_, mem_reverse.mpr he, hover⟩⟩
      constructor
      · rintro ⟨first, hfirst, hnetwork⟩
        obtain ⟨last, hlast⟩ := (hboth hfirst.mem.1 hfirst.mem.2).2
        exact ⟨last, hlast, halike first last hfirst hlast ▸ hnetwork⟩
      · rintro ⟨last, hlast, hnetwork⟩
        have hmem := FirstDeepest.mem hlast
        obtain ⟨first, hfirst⟩ := (hboth (mem_reverse.mp hmem.1) hmem.2).1
        exact ⟨first, hfirst, halike first last hfirst hlast ▸ hnetwork⟩

/-- The path with the given segments. -/
def pathOf (segments : List String) (h : ∀ s ∈ segments.map String.toList, IsSegment s) :
    AbsolutePath := ⟨segments.map String.toList, h⟩

/-- A mount of some type on a point. -/
def mounted (fstype : String) (h : IsMountField fstype.toList) (point : AbsolutePath) :
    MountEntry where
  mountId := "44".toList
  parentId := "23".toList
  device := "0:41".toList
  root := "/".toList
  mountPoint := point
  options := "rw,relatime".toList
  optional := ["shared:1".toList]
  fstype := fstype.toList
  source := "//server/share".toList
  superOptions := "rw".toList
  fields := by
    intro field hfield
    simp only [mem_append, mem_cons, not_mem_nil, or_false] at hfield
    rcases hfield with ((rfl | rfl | rfl | rfl | rfl) | rfl) | rfl | rfl | rfl
    all_goals first | exact h | decide

/-- A share is found below its mount point. -/
theorem screening_exact_share :
    let root := pathOf ["home", "kwiry"] (by decide)
    let share := mounted "nfs" (by decide) (pathOf ["home"] (by decide))
    isNetworkMountedPath root.text (mountInfo [share]) = true ↔
      ∃ e, InEffect root [share] e ∧ isNetworkMount e = true := by
  intro root share
  refine ((screening_exact_iff root root root [share]).2 fun e he _ => ?_).mpr
    fun first last hfirst hlast => ?_
  · obtain rfl := mem_singleton.mp he
    refine ⟨by decide, fun name rest hname => ?_⟩
    cases hname
    decide
  · rw [mem_singleton.mp hfirst.mem.1, mem_singleton.mp (FirstDeepest.mem hlast).1]

/-- A share over a local directory, and a share on a name with a space. -/
def stackedMounts : List MountEntry :=
  [mounted "ext4" (by decide) (pathOf [] (by decide)),
    mounted "ext4" (by decide) (pathOf ["home"] (by decide)),
    mounted "nfs" (by decide) (pathOf ["home"] (by decide)),
    mounted "cifs" (by decide) (pathOf ["my share"] (by decide))]

/-- A directory of the vault is not found inside it, and neither a share that covers an earlier
mount nor a share with a space in its name is seen. -/
theorem screening_not_exact :
    (isPathWithin "/vault".toList "/vault/..cache".toList = false ∧
      (pathOf ["vault"] (by decide)).segments <+:
        (pathOf ["vault", "..cache"] (by decide)).segments) ∧
    (isNetworkMountedPath "/home/kwiry".toList (mountInfo stackedMounts) = false ∧
      ∃ e, InEffect (pathOf ["home", "kwiry"] (by decide)) stackedMounts e ∧
        isNetworkMount e = true) ∧
    isNetworkMountedPath "/my share/kwiry".toList (mountInfo stackedMounts) = false ∧
      ∃ e, InEffect (pathOf ["my share", "kwiry"] (by decide)) stackedMounts e ∧
        isNetworkMount e = true := by
  refine ⟨⟨by decide, by decide⟩, ⟨by decide +kernel, ?_⟩, by decide +kernel, ?_⟩
  -- the table from its end: the share with a space, the share over the directory, the directory
  · exact ⟨_, ⟨[_], _, rfl, by decide⟩, by decide⟩
  · exact ⟨_, ⟨[], _, rfl, by decide⟩, by decide⟩

end Kwiry.Cache
