import Kwiry.Foundations.Words
import Kwiry.Pdf.Layout

/-!
# What Normalization Does to Lines

Normalization goes over a text line by line. What can be told of a text line by line, and of a line
without its end, can be told of the normalized text.
-/

namespace Kwiry.Pdf.Layout

open Foundations List

/-! ## §1 The lines of a text -/

lemma linesInclusive_ends {t line : Text} {rest : List Text}
    (h : linesInclusive t = line :: rest) (hne : rest ≠ []) : line.getLast? = some '\n' := by
  induction t generalizing line rest with
  | nil => cases h
  | cons c t ih =>
    rw [linesInclusive] at h
    split at h
    · next hc =>
      cases h
      rw [hc]
      rfl
    · cases hrest : linesInclusive t with
      | nil =>
        rw [hrest] at h
        cases h
        exact absurd rfl hne
      | cons next others =>
        rw [hrest] at h
        cases h
        have hlast := ih hrest hne
        cases next with
        | nil => cases hlast
        | cons d next => rw [getLast?_cons_cons, hlast]

lemma flatten_linesInclusive (t : Text) : (linesInclusive t).flatten = t := by
  induction t with
  | nil => rfl
  | cons c t ih =>
    rw [linesInclusive]
    split
    · rw [flatten_cons, ih]
      rfl
    · cases hrest : linesInclusive t with
      | nil | cons line rest =>
        rw [hrest] at ih
        rw [← ih]
        rfl

lemma not_mem_dropLast_linesInclusive {t line : Text} (h : line ∈ linesInclusive t) :
    '\n' ∉ line.dropLast := by
  induction t generalizing line with
  | nil => cases h
  | cons c t ih =>
    rw [linesInclusive] at h
    split at h
    · rcases mem_cons.mp h with rfl | hrest
      · simp
      · exact ih hrest
    · next hc =>
      cases hlines : linesInclusive t with
      | nil =>
        rw [hlines, mem_singleton] at h
        simp [h]
      | cons next others =>
        rw [hlines] at h ih
        rcases mem_cons.mp h with rfl | hrest
        · cases next with
          | nil => simp
          | cons d next =>
            rw [dropLast_cons_cons]
            exact not_mem_cons_of_ne_of_not_mem (Ne.symm hc) (ih mem_cons_self)
        · exact ih (mem_cons_of_mem _ hrest)

lemma not_mem_lines {t line : Text} (h : line ∈ lines t) : '\n' ∉ line := by
  obtain ⟨full, hfull, rfl⟩ := mem_map.mp h
  have hlast := not_mem_dropLast_linesInclusive hfull
  unfold withoutLineEnd
  split
  · split
    · exact fun hmem => hlast (dropLast_subset _ hmem)
    · exact hlast
  · next hfeed =>
    intro hmem
    cases hend : full.getLast? with
    | none =>
      rw [getLast?_eq_none_iff.mp hend] at hmem
      cases hmem
    | some c =>
      rw [← dropLast_append_getLast? c hend] at hmem
      rcases mem_append.mp hmem with hfront | hc
      · exact hlast hfront
      · exact hfeed (by rw [hend, mem_singleton.mp hc])

/-! ## §2 Telling a text line by line -/

/-- The lines of a text are told one after the other, and a carriage return at the end of a text
does not matter. -/
structure Linewise {α : Type*} (tell : Text → List α) : Prop where
  nil : tell [] = []
  feed : ∀ s t, tell (s ++ '\n' :: t) = tell s ++ tell t
  carriage : ∀ s, tell (s ++ ['\r']) = tell s

section Telling

variable {α : Type*} {tell told : Text → List α}

namespace Linewise

section

variable (h : Linewise tell)

include h

lemma snoc_feed (s : Text) : tell (s ++ ['\n']) = tell s := by
  rw [h.feed, h.nil, append_nil]

lemma append_of_getLast {s : Text} (hs : s.getLast? = some '\n') (t : Text) :
    tell (s ++ t) = tell s ++ tell t := by
  have hfront := dropLast_append_getLast? '\n' hs
  rw [← hfront, h.snoc_feed, append_assoc, singleton_append, h.feed]

lemma flatMap_linesInclusive (t : Text) : (linesInclusive t).flatMap tell = tell t := by
  induction t with
  | nil => exact h.nil.symm
  | cons c t ih =>
    rw [linesInclusive]
    split
    · next hc =>
      have hone := h.snoc_feed []
      have hall := h.feed [] t
      rw [nil_append, h.nil] at hone hall
      rw [hc, flatMap_cons, ih, hone, hall]
    · have hflatten := flatten_linesInclusive t
      cases hlines : linesInclusive t with
      | nil =>
        rw [hlines] at hflatten
        rw [← hflatten]
        simp
      | cons line rest =>
        rw [hlines] at hflatten ih
        rw [← hflatten, flatten_cons] at ih ⊢
        by_cases hrest : rest = []
        · simp [hrest]
        · have hlast := linesInclusive_ends hlines hrest
          have hcons : (c :: line).getLast? = some '\n' := by
            cases line with
            | nil => cases hlast
            | cons d line => rw [getLast?_cons_cons, hlast]
          rw [flatMap_cons, h.append_of_getLast hlast] at ih
          rw [flatMap_cons, append_cancel_left ih, ← cons_append, h.append_of_getLast hcons]

lemma withoutLineEnd (line : Text) : tell (Layout.withoutLineEnd line) = tell line := by
  unfold Layout.withoutLineEnd
  split
  · next hfeed =>
    have hline : tell line.dropLast = tell line := by
      conv_rhs => rw [← dropLast_append_getLast? _ hfeed]
      exact (h.snoc_feed _).symm
    split
    · next hreturn =>
      rw [← hline]
      conv_rhs => rw [← dropLast_append_getLast? _ hreturn]
      exact (h.carriage _).symm
    · exact hline
  · rfl

lemma flatMap_lines (t : Text) : (lines t).flatMap tell = tell t := by
  rw [lines, flatMap_map, ← h.flatMap_linesInclusive t]
  exact flatMap_congr fun line _ => h.withoutLineEnd line

lemma joinWith (parts : List Text) : tell (joinWith ['\n'] parts) = parts.flatMap tell := by
  induction parts with
  | nil => exact h.nil
  | cons first rest ih =>
    cases rest with
    | nil => simp [Foundations.joinWith]
    | cons second rest =>
      rw [joinWith_cons_cons, List.append_assoc, singleton_append, h.feed, ih]
      rfl

end

end Linewise

/-! ## §3 Normalization -/

lemma flatMap_capBlanks (hnil : tell [] = []) (out rest : List Text) :
    (capBlanks out rest).flatMap tell = (out ++ rest).flatMap tell := by
  induction rest generalizing out with
  | nil => rw [capBlanks, append_nil]
  | cons line rest ih =>
    rw [capBlanks]
    split
    · next hblank =>
      rw [ih, hblank.1]
      simp [hnil]
    · rw [ih, append_assoc, singleton_append]

lemma flatMap_dropWhile_empty (hnil : tell [] = []) (parts : List Text) :
    (parts.dropWhile (· = [])).flatMap tell = parts.flatMap tell := by
  induction parts with
  | nil => rfl
  | cons part rest ih =>
    by_cases hpart : part = []
    · simp [hpart, hnil, ih]
    · simp [hpart]

lemma flatMap_dropLast_empty (hnil : tell [] = []) (parts : List Text) :
    (parts.reverse.dropWhile (· = [])).reverse.flatMap tell = parts.flatMap tell := by
  have hsplit : parts = (parts.reverse.dropWhile (· = [])).reverse ++
      (parts.reverse.takeWhile (· = [])).reverse := by
    rw [← reverse_append, takeWhile_append_dropWhile, reverse_reverse]
  have hempty : (parts.reverse.takeWhile (· = [])).reverse.flatMap tell = [] := by
    rw [flatMap_eq_nil_iff]
    intro part hpart
    have hpartnil := mem_takeWhile_imp (mem_reverse.mp hpart)
    rw [of_decide_eq_true hpartnil]
    exact hnil
  conv_rhs => rw [hsplit, flatMap_append, hempty, append_nil]

/-- A normalized text is told as the text is, when its lines are. -/
theorem Linewise.normalize (h : Linewise tell) (htold : Linewise told)
    (hline : ∀ line, '\n' ∉ line → tell (normalizeLine line) = told line) (t : Text) :
    tell (normalize t) = told t := by
  rw [Layout.normalize, h.joinWith, normalizedLines, flatMap_dropLast_empty h.nil,
    flatMap_dropWhile_empty h.nil, flatMap_capBlanks h.nil, nil_append, flatMap_map,
    ← htold.flatMap_lines t]
  exact flatMap_congr fun line hmem => hline line (not_mem_lines hmem)

end Telling

/-! ## §4 Words -/

lemma splitWhitespace_linewise : Linewise splitWhitespace where
  nil := rfl
  feed _ _ := splitWhitespace_append rfl
  carriage s := splitWhitespace_append_blank s (by decide)

lemma isWhitespace_space {c : Char} (h : c = ' ' ∨ c = '\u00a0') :
    Foundations.isWhitespace c = true := by
  rcases h with rfl | rfl <;> rfl

/-- Collapsing spaces keeps the words, also of what stands before: after a space nothing that is
left out could have separated words. -/
theorem splitWhitespace_append_collapse (spacing : Bool) (front t : Text)
    (hfront : spacing = true → ∃ c, front.getLast? = some c ∧ Foundations.isWhitespace c = true) :
    splitWhitespace (front ++ collapse spacing t) = splitWhitespace (front ++ t) := by
  induction t generalizing spacing front with
  | nil => rw [collapse]
  | cons c rest ih =>
    rw [collapse]
    split
    · next hc =>
      have hspace := isWhitespace_space hc
      have hrest : splitWhitespace ([' '] ++ collapse true rest) =
          splitWhitespace ([' '] ++ rest) :=
        ih true [' '] fun _ => ⟨' ', rfl, rfl⟩
      rw [singleton_append, singleton_append, splitWhitespace_cons rfl,
        splitWhitespace_cons rfl] at hrest
      rw [splitWhitespace_append hspace]
      cases spacing with
      | true =>
        -- the space before this one is still there
        obtain ⟨d, hlast, hd⟩ := hfront rfl
        rw [if_pos rfl, splitWhitespace_append_of_getLast hlast hd, hrest]
      | false => rw [if_neg (by simp), splitWhitespace_append rfl, hrest]
    · have hnext := ih false (front ++ [c]) (by simp)
      rwa [append_assoc, append_assoc, singleton_append, singleton_append] at hnext

lemma splitWhitespace_normalizeLine (line : Text) :
    splitWhitespace (normalizeLine line) = splitWhitespace line := by
  rw [normalizeLine, splitWhitespace_trim]
  exact splitWhitespace_append_collapse false [] line (by simp)

lemma splitWhitespace_normalize (t : Text) : splitWhitespace (normalize t) = splitWhitespace t :=
  splitWhitespace_linewise.normalize splitWhitespace_linewise
    (fun line _ => splitWhitespace_normalizeLine line) t

end Kwiry.Pdf.Layout
