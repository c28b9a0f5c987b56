import Mathlib.Data.List.Infix
import Kwiry.Foundations.Words

/-!
# Absolute Paths by Their Segments

A normalized absolute path is the list of its segments. The relative path from one to another steps
up from the first to where they part, and down to the second.
-/

namespace Kwiry.Foundations

open List

/-! ## §1 Fields -/

/-- A text before and after the first place of a separator. -/
def splitFirst (sep : Text) : Text → Option (Text × Text)
  | [] => if sep = [] then some ([], []) else none
  | c :: rest =>
    if sep.isPrefixOf (c :: rest) then some ([], (c :: rest).drop sep.length)
    else (splitFirst sep rest).map fun parts => (c :: parts.1, parts.2)

variable {after before rest sep : Text}

lemma splitFirst_found (hsep : sep ≠ []) (after : Text) :
    splitFirst sep (sep ++ after) = some ([], after) := by
  cases sep with
  | nil => exact absurd rfl hsep
  | cons c sep =>
    rw [cons_append, splitFirst, if_pos, length_cons, drop_succ_cons, drop_left]
    exact isPrefixOf_iff_prefix.mpr ⟨after, rfl⟩

lemma splitFirst_cons {c : Char} (hnot : ¬ sep <+: c :: rest)
    (hrest : splitFirst sep rest = some (before, after)) :
    splitFirst sep (c :: rest) = some (c :: before, after) := by
  rw [splitFirst, if_neg fun h => hnot (List.isPrefixOf_iff_prefix.mp h), hrest]
  rfl

/-- What does not have the separator's first character is passed over. -/
theorem splitFirst_append {first : Char} {front : Text} (hfront : first ∉ front)
    (hrest : splitFirst (first :: sep) rest = some (before, after)) :
    splitFirst (first :: sep) (front ++ rest) = some (front ++ before, after) := by
  induction front with
  | nil => exact hrest
  | cons c front ih =>
    obtain ⟨hc, hmem⟩ := not_or.mp (mt mem_cons.mpr hfront)
    refine splitFirst_cons ?_ (ih hmem)
    rintro ⟨tail, htail⟩
    injection htail with hhead
    exact hc hhead

/-- The first field that is a dash alone parts the fields before it from those after it. -/
theorem splitFirst_fields {front : List Text} (hne : front ≠ [])
    (hfront : ∀ field ∈ front, ' ' ∉ field ∧ field ≠ ['-']) {back : List Text} (hback : back ≠ []) :
    splitFirst [' ', '-', ' '] (joinWith [' '] (front ++ ['-'] :: back)) =
      some (joinWith [' '] front, joinWith [' '] back) := by
  induction front with
  | nil => exact absurd rfl hne
  | cons first front ih =>
    obtain ⟨hspace, -⟩ := hfront first mem_cons_self
    cases front with
    | nil =>
      obtain ⟨next, back, rfl⟩ := exists_cons_of_ne_nil hback
      have hjoin : joinWith [' '] ([first] ++ ['-'] :: next :: back) =
          first ++ ([' ', '-', ' '] ++ joinWith [' '] (next :: back)) := by
        rw [cons_append, nil_append, joinWith_cons_cons, joinWith_cons_cons]
        simp
      have hsingle : joinWith [' '] [first] = first ++ [] := by simp [joinWith]
      rw [hjoin, hsingle]
      exact splitFirst_append hspace (splitFirst_found (by simp) _)
    | cons second front =>
      have hrest := ih (by simp) fun field hfield => hfront field (mem_cons_of_mem _ hfield)
      have hjoin : joinWith [' '] (first :: second :: front ++ ['-'] :: back) =
          first ++ ' ' :: joinWith [' '] (second :: front ++ ['-'] :: back) := by
        rw [cons_append, cons_append, joinWith_cons_cons]
        simp
      have hfields : joinWith [' '] (first :: second :: front) =
          first ++ ' ' :: joinWith [' '] (second :: front) := by
        rw [joinWith_cons_cons]
        simp
      rw [hjoin, hfields]
      refine splitFirst_append hspace (splitFirst_cons ?_ hrest)
      -- the field after this space is not the dash
      obtain ⟨hsecond, hdash⟩ := hfront second (by simp)
      rintro ⟨tail, htail⟩
      have hnext : ∃ more, joinWith [' '] (second :: front ++ ['-'] :: back) =
          second ++ ' ' :: more := by
        cases front with
        | nil => exact ⟨joinWith [' '] (['-'] :: back), by
            rw [cons_append, nil_append, joinWith_cons_cons]; simp⟩
        | cons third front => exact ⟨joinWith [' '] (third :: front ++ ['-'] :: back), by
            rw [cons_append, cons_append, joinWith_cons_cons]; simp⟩
      obtain ⟨more, hmore⟩ := hnext
      rw [hmore] at htail
      simp only [cons_append, nil_append, cons.injEq, true_and] at htail
      cases second with
      | nil => cases htail
      | cons c second =>
        rw [cons_append] at htail
        injection htail with hc htail
        cases second with
        | nil => exact hdash (by rw [← hc])
        | cons d second =>
          injection htail with hd
          exact hsecond (by rw [← hd]; simp)

/-! ## §2 Paths -/

/-- A segment of a normalized path. -/
def IsSegment (s : Text) : Prop := s ≠ [] ∧ s ≠ ['.'] ∧ s ≠ ['.', '.'] ∧ '/' ∉ s

instance (s : Text) : Decidable (IsSegment s) := inferInstanceAs (Decidable (_ ∧ _))

/-- A normalized absolute path. -/
structure AbsolutePath where
  segments : List Text
  normal : ∀ s ∈ segments, IsSegment s

def AbsolutePath.text (p : AbsolutePath) : Text := '/' :: joinWith ['/'] p.segments

/-- The segments that a path resolves to. -/
def resolveSegments (t : Text) : List Text :=
  (t.splitOn '/').foldl (fun stack s =>
    if s = [] ∨ s = ['.'] then stack
    else if s = ['.', '.'] then stack.dropLast
    else stack ++ [s]) []

/-- How many segments two paths have in common. -/
def commonLength : List Text → List Text → ℕ
  | s :: source, t :: target => if s = t then commonLength source target + 1 else 0
  | _, _ => 0

/-- The relative path from one absolute path to another: nothing between paths that resolve to the
same. -/
def relativePath (source target : Text) : Text :=
  let common := commonLength (resolveSegments source) (resolveSegments target)
  joinWith ['/'] (replicate ((resolveSegments source).length - common) ['.', '.'] ++
    (resolveSegments target).drop common)

lemma resolveSegments_text (p : AbsolutePath) : resolveSegments p.text = p.segments := by
  have hfold : ∀ (segments stack : List Text), (∀ s ∈ segments, IsSegment s) →
      segments.foldl (fun stack s =>
        if s = [] ∨ s = ['.'] then stack
        else if s = ['.', '.'] then stack.dropLast
        else stack ++ [s]) stack = stack ++ segments := by
    intro segments
    induction segments with
    | nil => simp
    | cons s segments ih =>
      intro stack hsegments
      obtain ⟨⟨hempty, hdot, hup, -⟩, hrest⟩ := forall_mem_cons.mp hsegments
      rw [foldl_cons, if_neg (by simp [hempty, hdot]), if_neg hup, ih _ hrest,
        append_assoc, singleton_append]
  have hsplit : p.text.splitOn '/' = [] :: (joinWith ['/'] p.segments).splitOn '/' :=
    splitOn_append_cons_self_of_not_mem (show '/' ∉ ([] : Text) by simp) _
  rw [resolveSegments, hsplit, foldl_cons, if_pos (.inl rfl)]
  by_cases hsegments : p.segments = []
  · rw [hsegments]
    rfl
  · have hjoin : (joinWith ['/'] p.segments).splitOn '/' = p.segments :=
      splitOn_intercalate '/' (fun s hs => (p.normal s hs).2.2.2) hsegments
    rw [hjoin, hfold _ _ p.normal, nil_append]

lemma commonLength_prefix (source rest : List Text) :
    commonLength source (source ++ rest) = source.length := by
  induction source with
  | nil => cases rest <;> rfl
  | cons s source ih => rw [cons_append, commonLength, if_pos rfl, ih, length_cons]

lemma commonLength_lt {source target : List Text} (h : ¬ source <+: target) :
    commonLength source target < source.length := by
  induction source generalizing target with
  | nil => exact absurd nil_prefix h
  | cons s source ih =>
    cases target with
    | nil => exact Nat.succ_pos _
    | cons t target =>
      rw [commonLength]
      split
      · next hst =>
        rw [hst, prefix_cons_inj] at h
        exact Nat.succ_lt_succ (ih h)
      · exact Nat.succ_pos _

/-- Down to a descendant, the relative path has the names in between. -/
theorem relativePath_descendant {source target : AbsolutePath} {rest : List Text}
    (h : target.segments = source.segments ++ rest) :
    relativePath source.text target.text = joinWith ['/'] rest := by
  rw [relativePath, resolveSegments_text, resolveSegments_text, h, commonLength_prefix]
  simp

lemma relativePath_elsewhere {source target : AbsolutePath}
    (h : ¬ source.segments <+: target.segments) :
    ['.', '.'] <+: relativePath source.text target.text := by
  have hlt := commonLength_lt h
  obtain ⟨steps, hsteps⟩ := Nat.exists_eq_add_of_lt hlt
  rw [relativePath, resolveSegments_text, resolveSegments_text]
  have hup : source.segments.length - commonLength source.segments target.segments =
      steps + 1 := by omega
  rw [hup, replicate_succ, cons_append]
  generalize replicate steps ['.', '.'] ++ _ = more
  cases more with
  | nil => exact ⟨[], by simp [joinWith]⟩
  | cons next more => rw [joinWith_cons_cons, append_assoc]; exact prefix_append _ _

lemma dots_prefix_joinWith {s : Text} (hs : IsSegment s) (rest : List Text) :
    ['.', '.'] <+: joinWith ['/'] (s :: rest) ↔ ['.', '.'] <+: s := by
  have hjoin : ∃ more, joinWith ['/'] (s :: rest) = s ++ more ∧
      (more = [] ∨ more.head? = some '/') := by
    cases rest with
    | nil => exact ⟨[], by simp [joinWith], .inl rfl⟩
    | cons next rest => exact ⟨'/' :: joinWith ['/'] (next :: rest), by
        rw [joinWith_cons_cons]; simp, .inr rfl⟩
  obtain ⟨more, hmore, hhead⟩ := hjoin
  rw [hmore]
  refine ⟨?_, fun h => h.trans (prefix_append _ _)⟩
  rintro ⟨tail, htail⟩
  cases s with
  | nil => exact absurd rfl hs.1
  | cons c s =>
    injection htail with hc htail
    cases s with
    | nil =>
      -- a name of one character cannot be a dot
      exact absurd (by rw [← hc]) hs.2.1
    | cons d s =>
      injection htail with hd
      exact ⟨s, by rw [← hc, ← hd]; rfl⟩

end Kwiry.Foundations
