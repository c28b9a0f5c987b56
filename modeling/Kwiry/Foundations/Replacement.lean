import Kwiry.Foundations.Paths

/-!
# Replacing Every Occurrence

A replacement goes over a text from the left and puts one text for every occurrence of some others.
An escaped text is one in which certain characters stand as entities; replacing one entity restores
its character, and leaves the others as they are.
-/

namespace Kwiry.Foundations

open List

/-! ## §1 Separators -/

variable {front rest t : Text}

lemma splitFirst_eq_some {sep before after : Text} (h : splitFirst sep t = some (before, after)) :
    t = before ++ (sep ++ after) := by
  induction t generalizing before after with
  | nil =>
    rw [splitFirst] at h
    split at h
    · next hsep =>
      cases h
      rw [hsep]
      rfl
    · cases h
  | cons c rest ih =>
    rw [splitFirst] at h
    split at h
    · next hprefix =>
      cases h
      obtain ⟨tail, htail⟩ := isPrefixOf_iff_prefix.mp hprefix
      rw [← htail, drop_left]
      rfl
    · obtain ⟨parts, hparts, heq⟩ := Option.map_eq_some_iff.mp h
      cases heq
      rw [ih hparts]
      rfl

lemma splitFirst_isSome_of_append (sep before after : Text) :
    ∃ first rest, splitFirst sep (before ++ (sep ++ after)) = some (first, rest) ∧
      after <:+ rest := by
  induction before with
  | nil =>
    cases sep with
    | nil =>
      cases after with
      | nil => exact ⟨[], [], rfl, suffix_refl _⟩
      | cons c after => exact ⟨[], c :: after, rfl, suffix_refl _⟩
    | cons c sep => exact ⟨[], after, splitFirst_found (by simp) after, suffix_refl _⟩
  | cons c before ih =>
    by_cases hprefix : sep <+: c :: (before ++ (sep ++ after))
    · have hfound : splitFirst sep (c :: (before ++ (sep ++ after))) =
          some ([], (c :: (before ++ (sep ++ after))).drop sep.length) := by
        rw [splitFirst, if_pos (List.isPrefixOf_iff_prefix.mpr hprefix)]
      refine ⟨[], _, hfound, ?_⟩
      -- what is dropped is no longer than what stands before the given place
      have hsuffix : after <:+ c :: (before ++ (sep ++ after)) :=
        ⟨c :: before ++ sep, by simp⟩
      refine suffix_of_suffix_length_le hsuffix (drop_suffix _ _) ?_
      simp
      omega
    · obtain ⟨first, rest, hrest, hsuffix⟩ := ih
      exact ⟨c :: first, rest, splitFirst_cons hprefix hrest, hsuffix⟩

/-! ## §2 Replacement -/

/-- The replacement of every occurrence of some texts by one, after a number of characters that
belong to an occurrence already replaced. -/
def replaceFrom (patterns : List Text) (value : Text) : ℕ → Text → Text
  | _, [] => []
  | skip + 1, _ :: rest => replaceFrom patterns value skip rest
  | 0, c :: rest =>
    match patterns.find? (·.isPrefixOf (c :: rest)) with
    | some pattern => value ++ replaceFrom patterns value (pattern.length - 1) rest
    | none => c :: replaceFrom patterns value 0 rest

/-- The leftmost occurrences of some texts, one after the other, replaced by one text. -/
def replaceAll (patterns : List Text) (value t : Text) : Text := replaceFrom patterns value 0 t

section Replacing

variable {patterns : List Text} {value : Text}

lemma replaceFrom_drop (skip : ℕ) (t : Text) :
    replaceFrom patterns value skip t = replaceAll patterns value (t.drop skip) := by
  induction skip generalizing t with
  | zero => rfl
  | succ skip ih =>
    cases t with
    | nil => rfl
    | cons c rest => exact ih rest

@[simp] lemma replaceAll_nil : replaceAll patterns value [] = [] := rfl

/-- Where one of the texts occurs, it is replaced. -/
theorem replaceAll_found {pattern : Text} (hne : pattern ≠ [])
    (hfind : patterns.find? (·.isPrefixOf (pattern ++ rest)) = some pattern) :
    replaceAll patterns value (pattern ++ rest) = value ++ replaceAll patterns value rest := by
  obtain ⟨c, tail, rfl⟩ := exists_cons_of_ne_nil hne
  rw [cons_append] at hfind ⊢
  rw [replaceAll, replaceFrom]
  simp only [hfind]
  rw [replaceFrom_drop, length_cons, Nat.add_sub_cancel, drop_left]

/-- Where none occurs, a character is copied. -/
theorem replaceAll_cons {c : Char} (hnone : ∀ pattern ∈ patterns, ¬ pattern <+: c :: rest) :
    replaceAll patterns value (c :: rest) = c :: replaceAll patterns value rest := by
  have hfind : patterns.find? (·.isPrefixOf (c :: rest)) = none := by
    apply find?_eq_none.mpr
    intro pattern hpattern
    exact mt isPrefixOf_iff_prefix.mp (hnone pattern hpattern)
  rw [replaceAll, replaceFrom]
  simp only [hfind]
  rfl

/-- Characters that begin none of the texts are copied. -/
theorem replaceAll_append
    (hfront : ∀ c ∈ front, ∀ pattern ∈ patterns, ∃ tail d, pattern = d :: tail ∧ d ≠ c) :
    replaceAll patterns value (front ++ rest) = front ++ replaceAll patterns value rest := by
  induction front with
  | nil => rfl
  | cons c front ih =>
    obtain ⟨hc, hfront⟩ := forall_mem_cons.mp hfront
    rw [cons_append, replaceAll_cons, ih hfront, cons_append]
    rintro pattern hpattern ⟨more, hmore⟩
    obtain ⟨tail, d, rfl, hd⟩ := hc pattern hpattern
    injection hmore with hhead
    exact hd hhead

/-- A replacement by something shorter makes a text no longer, and shorter where it takes place. -/
theorem replaceAll_length_le (hshort : ∀ pattern ∈ patterns, value.length < pattern.length)
    (t : Text) : (replaceAll patterns value t).length ≤ t.length ∧
      ((∃ pattern ∈ patterns, pattern <:+: t) →
        (replaceAll patterns value t).length < t.length) := by
  induction hlength : t.length using Nat.strong_induction_on generalizing t with
  | _ n ih =>
    cases t with
    | nil =>
      refine ⟨by simp, ?_⟩
      rintro ⟨pattern, hpattern, hinfix⟩
      have hpos := hshort pattern hpattern
      rw [infix_nil.mp hinfix] at hpos
      cases hpos
    | cons c rest =>
      rw [length_cons] at hlength
      by_cases hoccurs : ∃ pattern ∈ patterns, pattern <+: c :: rest
      · -- the first of the texts that occur here is replaced
        have hfind : ∃ pattern, patterns.find? (·.isPrefixOf (c :: rest)) = some pattern := by
          obtain ⟨pattern, hpattern, hprefix⟩ := hoccurs
          apply Option.isSome_iff_exists.mp
          rw [find?_isSome]
          exact ⟨pattern, hpattern, isPrefixOf_iff_prefix.mpr hprefix⟩
        obtain ⟨pattern, hfind⟩ := hfind
        have hpattern := mem_of_find?_eq_some hfind
        have hlt := hshort pattern hpattern
        have hprefix : pattern <+: c :: rest := by simpa using find?_some hfind
        obtain ⟨after, hafter⟩ := hprefix
        have hne : pattern ≠ [] := by
          rintro rfl
          cases hlt
        rw [← hafter] at hfind ⊢
        rw [replaceAll_found hne hfind, length_append]
        have hsum : pattern.length + after.length = n := by
          rw [← length_append, hafter, length_cons, hlength]
        have hrest := (ih after.length (by omega) after rfl).1
        exact ⟨by omega, fun _ => by omega⟩
      · rw [not_exists] at hoccurs
        have hnone : ∀ pattern ∈ patterns, ¬ pattern <+: c :: rest :=
          fun pattern hpattern hprefix => hoccurs pattern ⟨hpattern, hprefix⟩
        obtain ⟨hle, hlt⟩ := ih rest.length (by omega) rest rfl
        rw [replaceAll_cons hnone, length_cons]
        refine ⟨by omega, ?_⟩
        rintro ⟨pattern, hpattern, hinfix⟩
        rcases infix_cons_iff.mp hinfix with hprefix | hinfix
        · exact absurd hprefix (hnone pattern hpattern)
        · have := hlt ⟨pattern, hpattern, hinfix⟩
          omega

lemma replaceAll_eq_self (t : Text) (hnone : ∀ pattern ∈ patterns, ¬ pattern <:+: t) :
    replaceAll patterns value t = t := by
  induction t with
  | nil => rfl
  | cons c rest ih =>
    rw [replaceAll_cons fun pattern hpattern hprefix =>
      hnone pattern hpattern hprefix.isInfix, ih]
    intro pattern hpattern hinfix
    exact hnone pattern hpattern (infix_cons_iff.mpr (.inr hinfix))

end Replacing

/-! ## §3 Passes -/

/-- Replacements one after the other. -/
def replacePasses (passes : List (List Text × Text)) (t : Text) : Text :=
  passes.foldl (fun t pass => replaceAll pass.1 pass.2 t) t

section Passes

variable {passes : List (List Text × Text)}

lemma replacePasses_length_le
    (hshort : ∀ pass ∈ passes, ∀ pattern ∈ pass.1, pass.2.length < pattern.length) (t : Text) :
    (replacePasses passes t).length ≤ t.length := by
  induction passes generalizing t with
  | nil => exact Nat.le_refl _
  | cons pass passes ih =>
    obtain ⟨hpass, hpasses⟩ := forall_mem_cons.mp hshort
    exact (ih hpasses _).trans (replaceAll_length_le hpass t).1

/-- Replacements by shorter texts leave exactly those texts as they are that have no occurrence. -/
theorem replacePasses_eq_self_iff
    (hshort : ∀ pass ∈ passes, ∀ pattern ∈ pass.1, pass.2.length < pattern.length) (t : Text) :
    replacePasses passes t = t ↔ ∀ pass ∈ passes, ∀ pattern ∈ pass.1, ¬ pattern <:+: t := by
  induction passes with
  | nil => exact ⟨fun _ _ h => absurd h (by simp), fun _ => rfl⟩
  | cons pass passes ih =>
    obtain ⟨hpass, hpasses⟩ := forall_mem_cons.mp hshort
    by_cases hoccurs : ∃ pattern ∈ pass.1, pattern <:+: t
    · -- then the text gets shorter, and no later pass makes up for it
      have hlt := (replaceAll_length_le hpass t).2 hoccurs
      have hle := replacePasses_length_le hpasses (replaceAll pass.1 pass.2 t)
      constructor
      · intro h
        have hlength : (replacePasses (pass :: passes) t).length < t.length := hle.trans_lt hlt
        rw [h] at hlength
        exact absurd hlength (Nat.lt_irrefl _)
      · intro h
        obtain ⟨pattern, hpattern, hinfix⟩ := hoccurs
        exact absurd hinfix (h pass mem_cons_self pattern hpattern)
    · have hnone : ∀ pattern ∈ pass.1, ¬ pattern <:+: t := fun pattern hpattern hinfix =>
        hoccurs ⟨pattern, hpattern, hinfix⟩
      have hstep : replacePasses (pass :: passes) t = replacePasses passes t := by
        show replacePasses passes (replaceAll pass.1 pass.2 t) = _
        rw [replaceAll_eq_self t hnone]
      rw [hstep, ih hpasses, forall_mem_cons]
      exact ⟨fun h => ⟨hnone, h⟩, fun h => h.2⟩

end Passes

/-! ## §4 Entities -/

lemma prefix_comparable {s : Text} (h : s <+: t ++ rest) : s <+: t ∨ t <+: s :=
  prefix_or_prefix_of_prefix h (prefix_append t rest)

section Entities

variable {marker : Char} {patterns : List Text} {value : Text} {spell spell' : Char → Text}

/-- An entity is a marker and characters that are not one. -/
def IsEntity (marker : Char) (t : Text) : Prop := ∃ tail, t = marker :: tail ∧ marker ∉ tail

/-- A spelling of characters before a replacement and after it: a character stands for itself, or
its entity is replaced, or its entity is none of those that are. -/
inductive Respelled (marker : Char) (patterns : List Text) (value : Text) (c : Char) :
    Text → Text → Prop
  | plain (hc : c ≠ marker) : Respelled marker patterns value c [c] [c]
  | replaced (entity : Text) (hentity : entity ∈ patterns) :
      Respelled marker patterns value c entity value
  | kept (entity : Text) (hentity : IsEntity marker entity)
      (hfree : ∀ pattern ∈ patterns, ¬ pattern <+: entity ∧ ¬ entity <+: pattern) :
      Respelled marker patterns value c entity entity

variable (hpatterns : ∀ pattern ∈ patterns, pattern.head? = some marker)
  (hfree : ∀ pattern ∈ patterns, ∀ other ∈ patterns, pattern <+: other → pattern = other)

include hpatterns in
lemma replaceAll_append_of_not_mem (hfront : marker ∉ front) :
    replaceAll patterns value (front ++ rest) = front ++ replaceAll patterns value rest := by
  apply replaceAll_append
  intro c hc pattern hpattern
  cases pattern with
  | nil => exact absurd (hpatterns [] hpattern) (by simp)
  | cons d tail =>
    have hd : d = marker := by simpa using hpatterns _ hpattern
    refine ⟨tail, d, rfl, ?_⟩
    rintro rfl
    exact hfront (hd ▸ hc)

include hpatterns hfree in
lemma replaceAll_respelled {c : Char} {written read : Text}
    (h : Respelled marker patterns value c written read) (rest : Text) :
    replaceAll patterns value (written ++ rest) = read ++ replaceAll patterns value rest := by
  cases h with
  | plain hc => exact replaceAll_append_of_not_mem hpatterns (by simpa using Ne.symm hc)
  | replaced _ hentity =>
    have hfind : patterns.find? (·.isPrefixOf (written ++ rest)) = some written := by
      have hsome : (patterns.find? (·.isPrefixOf (written ++ rest))).isSome := by
        rw [find?_isSome]
        exact ⟨written, hentity, isPrefixOf_iff_prefix.mpr (prefix_append _ _)⟩
      obtain ⟨found, hfound⟩ := Option.isSome_iff_exists.mp hsome
      have hmem := mem_of_find?_eq_some hfound
      have hprefix : found <+: written ++ rest := by simpa using find?_some hfound
      rw [hfound]
      -- of the texts replaced, only the entity itself can stand here
      rcases prefix_comparable hprefix with h | h
      · rw [hfree found hmem written hentity h]
      · rw [hfree written hentity found hmem h]
    refine replaceAll_found ?_ hfind
    rintro rfl
    exact absurd (hpatterns [] hentity) (by simp)
  | kept _ hentity hnone =>
    obtain ⟨tail, rfl, htail⟩ := hentity
    rw [cons_append, replaceAll_cons, replaceAll_append_of_not_mem hpatterns htail]
    · rfl
    · intro pattern hpattern hprefix
      obtain ⟨hleft, hright⟩ := hnone pattern hpattern
      rcases prefix_comparable (t := marker :: tail) hprefix with h | h
      · exact hleft h
      · exact hright h

include hpatterns hfree in
lemma replaceAll_flatMap (h : ∀ c, Respelled marker patterns value c (spell c) (spell' c))
    (t : Text) : replaceAll patterns value (t.flatMap spell) = t.flatMap spell' := by
  induction t with
  | nil => rfl
  | cons c rest ih =>
    rw [flatMap_cons, flatMap_cons, replaceAll_respelled hpatterns hfree (h c), ih]

end Entities

end Kwiry.Foundations
