import Mathlib.Data.List.TakeWhile
import Kwiry.Foundations.Bytes

/-!
# Leftmost-First Patterns

Patterns with ordered choice and greedy class repetition, read as a backtracking matcher
reads them: at a position, a pattern yields the lengths at which it can stop, in order of
preference, and the preferred stop is the match. Scanning takes the leftmost position with
a match and goes on behind it.
-/

namespace Kwiry.Foundations

open List

/-- A pattern. -/
inductive Pattern where
  /-- One character of a class. -/
  | cls (p : Char → Bool)
  /-- A change of word class between the neighbouring characters. -/
  | boundary (isWord : Char → Bool)
  /-- Greedy repetition of a class, at least `min` times and at most `max` if given. -/
  | rep (p : Char → Bool) (min : ℕ) (max : Option ℕ)
  /-- One pattern after another. -/
  | seq (a b : Pattern)
  /-- The first pattern, else the second. -/
  | alt (a b : Pattern)

namespace Pattern

/-- The last character before the position `n` characters into `t`. -/
def charBefore (prev : Option Char) (t : Text) (n : ℕ) : Option Char :=
  match n with
  | 0 => prev
  | n + 1 => t[n]?

/-- The number of characters a greedy repetition takes first. -/
def greedyCount (p : Char → Bool) (max : Option ℕ) (t : Text) : ℕ :=
  let most := (t.takeWhile p).length
  match max with
  | none => most
  | some bound => min most bound

/-- Whether a character stands there and is of the class. -/
def holdsAt (p : Char → Bool) (c : Option Char) : Bool :=
  c.any p

/-- The lengths at which a pattern can stop on `t`, preferred first; `prev` is the character before
`t`. -/
def ends : Pattern → Option Char → Text → List ℕ
  | cls p, _, t => if holdsAt p t.head? then [1] else []
  | boundary isWord, prev, t => if holdsAt isWord prev != holdsAt isWord t.head? then [0] else []
  | rep p low max, _, t =>
    let most := greedyCount p max t
    (range (most + 1 - low)).map (most - ·)
  | seq a b, prev, t =>
    (ends a prev t).flatMap fun n => (ends b (charBefore prev t n) (t.drop n)).map (n + ·)
  | alt a b, prev, t => ends a prev t ++ ends b prev t

/-- The successive matches of a pattern that never matches the empty text, as offset and length.
`skip` characters still belong to the previous match. -/
def spansAux (r : Pattern) : ℕ → ℕ → Option Char → Text → List (ℕ × ℕ)
  | _, _, _, [] => []
  | offset, skip + 1, _, c :: t => spansAux r (offset + 1) skip (some c) t
  | offset, 0, prev, c :: t =>
    match (r.ends prev (c :: t)).head? with
    | some (n + 1) => (offset, n + 1) :: spansAux r (offset + 1) n (some c) t
    | _ => spansAux r (offset + 1) 0 (some c) t

/-- The successive non-overlapping matches in a text. -/
def spans (r : Pattern) (t : Text) : List (ℕ × ℕ) :=
  spansAux r 0 0 none t

/-! ## Patterns without boundaries -/

/-- No boundary stands in the pattern. -/
def Plain : Pattern → Prop
  | cls _ | rep _ _ _ => True
  | boundary _ => False
  | seq a b | alt a b => a.Plain ∧ b.Plain

/-- The texts of a plain pattern. -/
def Lang : Pattern → Text → Prop
  | cls p, s => ∃ c, s = [c] ∧ p c = true
  | boundary _, s => s = []
  | rep p low max, s => low ≤ s.length ∧ (∀ bound ∈ max, s.length ≤ bound) ∧ ∀ c ∈ s, p c = true
  | seq a b, s => ∃ x y, s = x ++ y ∧ a.Lang x ∧ b.Lang y
  | alt a b, s => a.Lang s ∨ b.Lang s

/-- The classes of a pattern. -/
def classes : Pattern → List (Char → Bool)
  | cls p | rep p _ _ | boundary p => [p]
  | seq a b | alt a b => a.classes ++ b.classes

variable {prev prev' : Option Char} {t : Text} {n : ℕ}

lemma mem_repStops {most low : ℕ} :
    n ∈ (range (most + 1 - low)).map (most - ·) ↔ low ≤ n ∧ n ≤ most := by
  simp only [mem_map, mem_range]
  constructor
  · rintro ⟨k, hk, rfl⟩
    omega
  · rintro ⟨hlow, hmost⟩
    exact ⟨most - n, by omega, by omega⟩

lemma greedyCount_le (p : Char → Bool) (max : Option ℕ) (t : Text) :
    greedyCount p max t ≤ (t.takeWhile p).length := by
  unfold greedyCount
  split
  · exact le_refl _
  · exact min_le_left _ _

variable {r : Pattern}

lemma ends_lang (h : n ∈ r.ends prev t) : n ≤ t.length ∧ r.Lang (t.take n) := by
  induction r generalizing prev t n with
  | cls p =>
    cases t with
    | nil => simp [ends, holdsAt] at h
    | cons c t =>
      cases hc : p c with
      | false => simp [ends, holdsAt, hc] at h
      | true =>
        have hn : n = 1 := by simpa [ends, holdsAt, hc] using h
        subst hn
        exact ⟨by simp, c, by simp, hc⟩
  | boundary isWord =>
    simp only [ends] at h
    split at h
    · rw [mem_singleton.mp h]
      exact ⟨Nat.zero_le _, by simp [Lang]⟩
    · cases h
  | rep p low max =>
    obtain ⟨hlow, hmost⟩ := mem_repStops.mp h
    have htake := hmost.trans (greedyCount_le p max t)
    have hlen : n ≤ t.length := htake.trans (List.takeWhile_prefix p).length_le
    have hmax : ∀ bound ∈ max, n ≤ bound := by
      rintro bound hbound
      rw [Option.mem_def.mp hbound] at hmost
      exact hmost.trans (min_le_right _ _)
    refine ⟨hlen, by simpa [hlen] using hlow, by simpa [hlen] using hmax, fun c hc => ?_⟩
    have htaken : t.take n <+: t.takeWhile p := by
      rw [prefix_iff_eq_take, length_take, Nat.min_eq_left hlen]
      conv_lhs => rw [← takeWhile_append_dropWhile (p := p) (l := t)]
      rw [take_append_of_le_length htake]
    exact mem_takeWhile_imp (htaken.subset hc)
  | seq a b iha ihb =>
    simp only [ends, mem_flatMap, mem_map] at h
    obtain ⟨m, hm, k, hk, rfl⟩ := h
    obtain ⟨hmle, hma⟩ := iha hm
    obtain ⟨hkle, hkb⟩ := ihb hk
    rw [length_drop] at hkle
    refine ⟨by omega, t.take m, (t.drop m).take k, ?_, hma, hkb⟩
    rw [take_add]
  | alt a b iha ihb =>
    rcases mem_append.mp h with h | h
    · obtain ⟨hle, hlang⟩ := iha h
      exact ⟨hle, .inl hlang⟩
    · obtain ⟨hle, hlang⟩ := ihb h
      exact ⟨hle, .inr hlang⟩

lemma Lang.mem_class {s : Text} (h : r.Lang s) {c : Char} (hc : c ∈ s) :
    ∃ p ∈ r.classes, p c = true := by
  induction r generalizing s with
  | cls p =>
    obtain ⟨d, rfl, hd⟩ := h
    rw [mem_singleton.mp hc]
    exact ⟨p, mem_cons_self, hd⟩
  | boundary isWord =>
    rw [show s = [] from h] at hc
    cases hc
  | rep p low max => exact ⟨p, mem_cons_self, h.2.2 c hc⟩
  | seq a b iha ihb =>
    obtain ⟨x, y, rfl, hx, hy⟩ := h
    rcases mem_append.mp hc with hc | hc
    · obtain ⟨p, hp, hpc⟩ := iha hx hc
      exact ⟨p, mem_append_left _ hp, hpc⟩
    · obtain ⟨p, hp, hpc⟩ := ihb hy hc
      exact ⟨p, mem_append_right _ hp, hpc⟩
  | alt a b iha ihb =>
    rcases h with h | h
    · obtain ⟨p, hp, hpc⟩ := iha h hc
      exact ⟨p, mem_append_left _ hp, hpc⟩
    · obtain ⟨p, hp, hpc⟩ := ihb h hc
      exact ⟨p, mem_append_right _ hp, hpc⟩

lemma ends_prev (hr : r.Plain) (prev prev' : Option Char) (t : Text) :
    r.ends prev t = r.ends prev' t := by
  induction r generalizing prev prev' t with
  | cls p => rfl
  | boundary isWord => exact hr.elim
  | rep p low max => rfl
  | seq a b iha ihb =>
    simp only [ends]
    rw [iha hr.1 prev prev' t]
    refine flatMap_congr fun m _ => ?_
    rw [ihb hr.2 (charBefore prev t m) (charBefore prev' t m)]
  | alt a b iha ihb =>
    simp only [ends]
    rw [iha hr.1 prev prev' t, ihb hr.2 prev prev' t]

lemma repStops_succ (low most : ℕ) :
    (range (most + 1 + 1 - low)).map (most + 1 - ·) =
      if low ≤ most + 1 then (most + 1) :: (range (most + 1 - low)).map (most - ·) else [] := by
  split
  · rename_i hlow
    rw [show most + 1 + 1 - low = (most + 1 - low) + 1 by omega, range_succ_eq_map,
      map_cons, map_map]
    congr 1
    refine map_congr_left fun k _ => ?_
    simp only [Function.comp_apply]
    omega
  · rename_i hlow
    rw [show most + 1 + 1 - low = 0 by omega]
    rfl

lemma repStops_min (low most : ℕ) :
    (range (min most n + 1 - low)).map (min most n - ·) =
      ((range (most + 1 - low)).map (most - ·)).filter (· ≤ n) := by
  by_cases hn : most ≤ n
  · rw [Nat.min_eq_left hn, filter_eq_self.mpr]
    intro k hk
    simpa using (mem_repStops.mp hk).2.trans hn
  · -- drop the stops beyond the cut, one by one
    induction most with
    | zero => omega
    | succ most ih =>
      have hmin : min (most + 1) n = min most n := by omega
      rw [hmin, repStops_succ]
      split
      · rw [filter_cons_of_neg (by simpa using hn)]
        by_cases hmost : most ≤ n
        · rw [Nat.min_eq_left hmost, filter_eq_self.mpr]
          intro k hk
          simpa using (mem_repStops.mp hk).2.trans hmost
        · exact ih hmost
      · rename_i hlow
        rw [show min most n + 1 - low = 0 by omega]
        rfl

lemma greedyCount_take (p : Char → Bool) (max : Option ℕ) (t : Text) (n : ℕ) :
    greedyCount p max (t.take n) = min (greedyCount p max t) n := by
  have htake : ((t.take n).takeWhile p).length = min (t.takeWhile p).length n := by
    induction t generalizing n with
    | nil => simp
    | cons c t ih =>
      cases n with
      | zero => simp
      | succ n =>
        cases hc : p c with
        | false => simp [hc]
        | true => simp [hc, ih]
  unfold greedyCount
  cases max with
  | none => exact htake
  | some bound =>
    simp only [htake]
    omega

lemma flatMap_filter_eq {α β : Type} (l : List α) (q : α → Bool) (g : α → List β) :
    (l.filter q).flatMap g = l.flatMap fun a => if q a then g a else [] := by
  induction l with
  | nil => rfl
  | cons a l ih => cases hq : q a <;> simp [hq, ih]

lemma ends_take (hr : r.Plain) (prev : Option Char) (t : Text) (n : ℕ) :
    r.ends prev (t.take n) = (r.ends prev t).filter (· ≤ n) := by
  induction r generalizing prev t n with
  | cls p =>
    cases t with
    | nil => simp [ends, holdsAt]
    | cons c t =>
      cases n with
      | zero | succ n => cases hc : p c <;> simp [ends, holdsAt, hc]
  | boundary isWord => exact hr.elim
  | rep p low max =>
    simp only [ends, greedyCount_take]
    exact repStops_min low _
  | seq a b iha ihb =>
    simp only [ends, filter_flatMap]
    rw [iha hr.1, flatMap_filter_eq]
    refine flatMap_congr fun m _ => ?_
    by_cases hm : m ≤ n
    · rw [if_pos (by simpa using hm), drop_take, ihb hr.2,
        ends_prev hr.2 (charBefore prev (t.take n) m) (charBefore prev t m), filter_map]
      congr 1
      refine filter_congr fun k _ => ?_
      simp only [Function.comp_apply, decide_eq_decide]
      omega
    · rw [if_neg (by simpa using hm)]
      symm
      rw [filter_eq_nil_iff]
      intro k hk
      obtain ⟨j, -, rfl⟩ := mem_map.mp hk
      simp only [decide_eq_true_eq]
      omega
  | alt a b iha ihb =>
    simp only [ends, filter_append]
    rw [iha hr.1, ihb hr.2]

lemma takeWhile_map_length {p : Char → Bool} {f : Char → Char}
    (h : ∀ c ∈ t, p (f c) = p c) : ((t.map f).takeWhile p).length = (t.takeWhile p).length := by
  induction t with
  | nil => rfl
  | cons c t ih =>
    have hrest := ih fun d hd => h d (mem_cons_of_mem _ hd)
    have hc := h c mem_cons_self
    cases hp : p c with
    | false => simp [hc, hp]
    | true => simp [hc, hp, hrest]

/-- A map that respects the classes of a plain pattern respects its stops. -/
theorem ends_map (hr : r.Plain) (prev : Option Char) (f : Char → Char) (t : Text)
    (h : ∀ p ∈ r.classes, ∀ c ∈ t, p (f c) = p c) : r.ends prev (t.map f) = r.ends prev t := by
  induction r generalizing prev t with
  | cls p =>
    cases t with
    | nil => rfl
    | cons c t =>
      have hc : holdsAt p ((c :: t).map f).head? = holdsAt p (c :: t).head? :=
        h p mem_cons_self c mem_cons_self
      simp only [ends, hc]
  | boundary isWord => exact hr.elim
  | rep p low max =>
    have hgreedy : greedyCount p max (t.map f) = greedyCount p max t := by
      unfold greedyCount
      rw [takeWhile_map_length fun c hc => h p mem_cons_self c hc]
    simp only [ends, hgreedy]
  | seq a b iha ihb =>
    simp only [ends]
    rw [iha hr.1 prev t fun p hp => h p (mem_append_left _ hp)]
    refine flatMap_congr fun m _ => ?_
    rw [← map_drop, ihb hr.2 _ _ fun p hp c hc =>
      h p (mem_append_right _ hp) c (mem_of_mem_drop hc),
      ends_prev hr.2 (charBefore prev (t.map f) m) (charBefore prev t m)]
  | alt a b iha ihb =>
    simp only [ends]
    rw [iha hr.1 prev t fun p hp => h p (mem_append_left _ hp),
      ihb hr.2 prev t fun p hp => h p (mem_append_right _ hp)]

/-! ## Boundaries around a pattern -/

/-- Whether a boundary stands `n` characters into a text. -/
def boundaryAt (isWord : Char → Bool) (prev : Option Char) (t : Text) (n : ℕ) : Bool :=
  holdsAt isWord (charBefore prev t n) != holdsAt isWord (t.drop n).head?

lemma ends_boundary_seq (isWord : Char → Bool) (r : Pattern) (prev : Option Char) (t : Text) :
    (seq (boundary isWord) r).ends prev t =
      if boundaryAt isWord prev t 0 then r.ends prev t else [] := by
  have hstart : (holdsAt isWord prev != holdsAt isWord t.head?) = boundaryAt isWord prev t 0 := rfl
  simp only [ends, hstart]
  cases boundaryAt isWord prev t 0 <;> simp [charBefore]

lemma ends_seq_boundary (r : Pattern) (isWord : Char → Bool) (prev : Option Char) (t : Text) :
    (seq r (boundary isWord)).ends prev t =
      (r.ends prev t).filter (boundaryAt isWord prev t) := by
  simp only [ends]
  induction r.ends prev t with
  | nil => rfl
  | cons n rest ih =>
    have hstop : (holdsAt isWord (charBefore prev t n) != holdsAt isWord (t.drop n).head?) =
        boundaryAt isWord prev t n := rfl
    rw [flatMap_cons, ih, filter_cons, hstop]
    cases boundaryAt isWord prev t n <;> simp

/-! ## Spans -/

/-- A span of the scan stands behind what is still to be skipped, and its length is the preferred
stop there. -/
theorem spansAux_spec {span : ℕ × ℕ} {offset skip : ℕ} {before : Text}
    (h : span ∈ r.spansAux offset skip before.getLast? t) :
    ∃ k, span.1 = offset + k ∧ skip ≤ k ∧ 0 < span.2 ∧
      (r.ends (before ++ t.take k).getLast? (t.drop k)).head? = some span.2 := by
  induction t generalizing offset skip before with
  | nil => cases skip <;> cases h
  | cons c t ih =>
    have hlast : some c = (before ++ [c]).getLast? := by simp
    -- a span of the rest, one character further
    have hrest : ∀ {skip' : ℕ}, span ∈ r.spansAux (offset + 1) skip' (some c) t → skip ≤ skip' + 1 →
        ∃ k, span.1 = offset + k ∧ skip ≤ k ∧ 0 < span.2 ∧
          (r.ends (before ++ (c :: t).take k).getLast? ((c :: t).drop k)).head? = some span.2 := by
      intro skip' hmem hskip
      rw [hlast] at hmem
      obtain ⟨k, hk, hle, hpos, hends⟩ := ih hmem
      refine ⟨k + 1, by omega, by omega, hpos, ?_⟩
      simpa using hends
    cases skip with
    | succ skip => exact hrest h (Nat.le_refl _)
    | zero =>
      rw [spansAux] at h
      split at h
      · rename_i n hstop
        rcases mem_cons.mp h with rfl | hmem
        · exact ⟨0, rfl, Nat.le_refl _, Nat.succ_pos n, by simpa using hstop⟩
        · exact hrest hmem (Nat.zero_le _)
      · exact hrest h (Nat.zero_le _)

/-- A span stands where the pattern matches, and its length is the preferred stop. -/
theorem spans_spec {span : ℕ × ℕ} (h : span ∈ r.spans t) :
    0 < span.2 ∧ span.1 + span.2 ≤ t.length ∧
      (r.ends (t.take span.1).getLast? (t.drop span.1)).head? = some span.2 := by
  have hscan : span ∈ r.spansAux 0 0 ([] : Text).getLast? t := h
  obtain ⟨k, hk, -, hpos, hends⟩ := spansAux_spec hscan
  rw [Nat.zero_add] at hk
  subst hk
  rw [nil_append] at hends
  have hle := (ends_lang (mem_of_mem_head? hends)).1
  rw [length_drop] at hle
  exact ⟨hpos, by omega, hends⟩

lemma spans_whole (ht : t ≠ []) (h : (r.ends none t).head? = some t.length) :
    (0, t.length) ∈ r.spans t := by
  obtain ⟨c, rest, rfl⟩ := exists_cons_of_ne_nil ht
  rw [spans, spansAux, h]
  exact mem_cons_self

end Pattern

end Kwiry.Foundations
