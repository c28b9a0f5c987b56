import Mathlib.Data.List.TakeWhile
import Kwiry.Foundations.Unicode

/-!
# Maximal Runs and Trimming

The maximal runs of a class in a text, by where they stand: a run is a part of the text whose
characters are in the class and whose neighbours are not. Tokenizers that cut a text in
different places are compared through this description.
-/

namespace Kwiry.Foundations

open List

variable {p q : Char → Bool} {t r : Text}

/-! ## §1 The recursion of `runs` -/

lemma runsAux_of_ne_nil {run : Text} (hrun : run ≠ []) :
    runsAux p run t = (run ++ t.takeWhile p) :: runs p (t.dropWhile p) := by
  induction t generalizing run with
  | nil =>
    obtain ⟨c, rest, rfl⟩ := exists_cons_of_ne_nil hrun
    simp [runsAux, runs]
  | cons c t ih =>
    obtain ⟨d, rest, rfl⟩ := exists_cons_of_ne_nil hrun
    cases hc : p c with
    | false => simp [runsAux, runs, hc]
    | true => simp [runsAux, hc, ih]

@[simp] lemma runs_nil : runs p [] = [] := rfl

variable {c : Char}

lemma runs_cons_of_neg (hc : p c = false) : runs p (c :: t) = runs p t := by
  simp [runs, runsAux, hc]

lemma runs_cons_of_pos (hc : p c = true) :
    runs p (c :: t) = (c :: t.takeWhile p) :: runs p (t.dropWhile p) := by
  rw [runs, runsAux, if_pos hc, runsAux_of_ne_nil (by simp)]
  rfl

variable {s w x y : Text}

lemma runs_append_of_all (hr : ∀ c ∈ r, p c = true) (hs : ∀ c ∈ s.head?, p c = false) :
    runs p (r ++ s) = if r = [] then runs p s else r :: runs p s := by
  cases r with
  | nil => rfl
  | cons c rest =>
    have hrest : ∀ d ∈ rest, p d = true := fun d hd => hr d (mem_cons_of_mem _ hd)
    have htake : (rest ++ s).takeWhile p = rest := by
      rw [takeWhile_append_of_pos hrest]
      cases s with
      | nil => simp
      | cons d s => simp [hs d rfl]
    have hdrop : (rest ++ s).dropWhile p = s := by
      rw [dropWhile_append_of_pos hrest]
      cases s with
      | nil => simp
      | cons d s => simp [hs d rfl]
    rw [cons_append, runs_cons_of_pos (hr c mem_cons_self), htake, hdrop]
    rfl

lemma runs_append_of_none (hr : ∀ c ∈ r, p c = false) : runs p (r ++ s) = runs p s := by
  induction r with
  | nil => rfl
  | cons c rest ih =>
    rw [cons_append, runs_cons_of_neg (hr c mem_cons_self)]
    exact ih fun d hd => hr d (mem_cons_of_mem _ hd)

/-! ## §2 Runs by where they stand -/

/-- A maximal run: a nonempty part inside the class whose neighbours are outside. -/
def IsRun (p : Char → Bool) (t r : Text) : Prop :=
  ∃ before after, t = before ++ r ++ after ∧ r ≠ [] ∧ (∀ c ∈ r, p c = true) ∧
    (∀ c ∈ before.getLast?, p c = false) ∧ ∀ c ∈ after.head?, p c = false

lemma head?_dropWhile_neg (p : Char → Bool) (t : Text) :
    ∀ c ∈ (t.dropWhile p).head?, p c = false := by
  intro c hc
  have hnot := head?_dropWhile_not p t
  rw [Option.mem_def.mp hc] at hnot
  simpa using hnot

lemma isRun_of_mem_runs (h : r ∈ runs p t) : IsRun p t r := by
  induction hn : t.length using Nat.strong_induction_on generalizing t with
  | _ n ih =>
    cases t with
    | nil => cases h
    | cons c t =>
      cases hc : p c with
      | false =>
        rw [runs_cons_of_neg hc] at h
        obtain ⟨before, after, rfl, hne, hall, hbefore, hafter⟩ :=
          ih t.length (by rw [← hn]; exact Nat.lt_succ_self _) h rfl
        refine ⟨c :: before, after, by simp, hne, hall, ?_, hafter⟩
        cases before with
        | nil => simpa using hc
        | cons d before => simpa using hbefore
      | true =>
        rw [runs_cons_of_pos hc] at h
        rcases mem_cons.mp h with rfl | hrest
        · refine ⟨[], t.dropWhile p, by simp, by simp, ?_, by simp, head?_dropWhile_neg p t⟩
          intro d hd
          rcases mem_cons.mp hd with rfl | hd
          · exact hc
          · exact mem_takeWhile_imp hd
        · have hlen : (t.dropWhile p).length < n := by
            rw [← hn]
            exact Nat.lt_succ_of_le (length_dropWhile_le p t)
          obtain ⟨before, after, hsplit, hne, hall, hbefore, hafter⟩ := ih _ hlen hrest rfl
          refine ⟨c :: t.takeWhile p ++ before, after, ?_, hne, hall, ?_, hafter⟩
          · conv_lhs => rw [← takeWhile_append_dropWhile (p := p) (l := t), hsplit]
            simp
          · -- what follows the taken part starts outside the class
            cases before with
            | nil =>
              obtain ⟨d, rest, rfl⟩ := exists_cons_of_ne_nil hne
              have hout := head?_dropWhile_neg p t
              rw [hsplit] at hout
              have hin := hall d mem_cons_self
              rw [hout d rfl] at hin
              cases hin
            | cons d before =>
              rw [getLast?_append_of_ne_nil _ (by simp)]
              exact hbefore

lemma mem_runs_of_isRun (h : IsRun p t r) : r ∈ runs p t := by
  obtain ⟨before, after, rfl, hne, hall, hbefore, hafter⟩ := h
  have hlast : r ∈ runs p (r ++ after) := by
    rw [runs_append_of_all hall hafter, if_neg hne]
    exact mem_cons_self
  -- peel the text before the run, run by run
  induction hn : before.length using Nat.strong_induction_on generalizing before with
  | _ n ih =>
    cases before with
    | nil => exact hlast
    | cons c before =>
      cases hc : p c with
      | false =>
        rw [append_assoc, cons_append, runs_cons_of_neg hc, ← append_assoc]
        refine ih before.length (by rw [← hn]; exact Nat.lt_succ_self _) before ?_ rfl
        intro d hd
        refine hbefore d ?_
        cases before with
        | nil => cases hd
        | cons e before => simpa using hd
      | true =>
        have hsplit : c :: before = c :: before.takeWhile p ++ before.dropWhile p := by simp
        have hdrop : before.dropWhile p ≠ [] := by
          intro hnil
          have hmem := getLast?_eq_some_getLast (l := c :: before) (by simp)
          have hout := hbefore _ hmem
          have hin : ∀ d ∈ c :: before, p d = true := by
            intro d hd
            rcases mem_cons.mp hd with rfl | hd
            · exact hc
            · exact dropWhile_eq_nil_iff.mp hnil d hd
          rw [hin _ (getLast_mem _)] at hout
          cases hout
        rw [hsplit, append_assoc, append_assoc,
          runs_append_of_all (r := c :: before.takeWhile p), if_neg (by simp)]
        · refine mem_cons_of_mem _ ?_
          rw [← append_assoc]
          refine ih _ ?_ _ ?_ rfl
          · rw [← hn]
            exact Nat.lt_succ_of_le (length_dropWhile_le p before)
          · intro d hd
            refine hbefore d ?_
            rw [hsplit, getLast?_append_of_ne_nil _ hdrop]
            exact hd
        · intro d hd
          rcases mem_cons.mp hd with rfl | hd
          · exact hc
          · exact mem_takeWhile_imp hd
        · intro d hd
          refine head?_dropWhile_neg p before d ?_
          rw [head?_append_of_ne_nil _ hdrop] at hd
          exact hd

lemma mem_runs_iff : r ∈ runs p t ↔ IsRun p t r :=
  ⟨isRun_of_mem_runs, mem_runs_of_isRun⟩

lemma runs_append_cons (hc : p c = false) : runs p (x ++ c :: y) = runs p x ++ runs p y := by
  induction hn : x.length using Nat.strong_induction_on generalizing x with
  | _ n ih =>
    cases x with
    | nil => simp [runs_cons_of_neg hc]
    | cons d x =>
      cases hd : p d with
      | false =>
        rw [cons_append, runs_cons_of_neg hd, runs_cons_of_neg hd]
        exact ih x.length (by rw [← hn]; exact Nat.lt_succ_self _) rfl
      | true =>
        rw [cons_append, runs_cons_of_pos hd, runs_cons_of_pos hd, takeWhile_append,
          dropWhile_append]
        cases hdrop : x.dropWhile p with
        | nil =>
          have hall : x.takeWhile p = x :=
            takeWhile_eq_self_iff.mpr (dropWhile_eq_nil_iff.mp hdrop)
          simp [hall, hc, runs_cons_of_neg hc]
        | cons e rest =>
          have hlen : (x.dropWhile p).length < n := by
            rw [← hn]
            exact Nat.lt_succ_of_le (length_dropWhile_le p x)
          have hshort : (x.takeWhile p).length ≠ x.length := by
            intro heq
            have hsum := congrArg length (takeWhile_append_dropWhile (p := p) (l := x))
            rw [length_append, hdrop, heq, length_cons] at hsum
            omega
          rw [if_neg hshort]
          simp only [isEmpty_cons, Bool.false_eq_true, if_false, cons_append]
          rw [← cons_append, ← hdrop, ih _ hlen rfl]

lemma runs_of_all (hne : t ≠ []) (hall : ∀ c ∈ t, p c = true) : runs p t = [t] := by
  have hruns := runs_append_of_all (s := []) hall (by simp)
  rwa [append_nil, if_neg hne, runs_nil] at hruns

lemma filter_splitOnP (p : Char → Bool) (t : Text) :
    (t.splitOnP fun c => !p c).filter (· ≠ []) = runs p t := by
  induction hn : t.length using Nat.strong_induction_on generalizing t with
  | _ n ih =>
    have hall : ∀ c ∈ t.takeWhile p, p c = true := fun c hc => mem_takeWhile_imp hc
    have hout := head?_dropWhile_neg p t
    have hsplit := takeWhile_append_dropWhile (p := p) (l := t)
    cases hdrop : t.dropWhile p with
    | nil =>
      have htake : t.takeWhile p = t := by rwa [hdrop, append_nil] at hsplit
      rw [htake] at hall
      rw [splitOnP_eq_singleton fun c hc => by simp [hall c hc]]
      rcases eq_or_ne t [] with rfl | hne
      · rfl
      · rw [runs_of_all hne hall]
        simp [hne]
    | cons c rest =>
      have hc : p c = false := hout c (by rw [hdrop]; rfl)
      have hlen : rest.length < n := by
        have hle := length_dropWhile_le p t
        rw [hdrop, length_cons, hn] at hle
        exact hle
      conv_lhs => rw [← hsplit, hdrop]
      conv_rhs => rw [← hsplit, hdrop]
      rw [splitOnP_append_cons_of_forall_mem (fun d hd => by simp [hall d hd]) c (by simp [hc]),
        runs_append_of_all hall (by simpa using hc), runs_cons_of_neg hc, filter_cons,
        ih _ hlen rest rfl]
      split <;> simp_all

/-! ## §3 Trimming -/

/-- A text without the characters of a class at its ends. -/
def trimMatches (p : Char → Bool) (t : Text) : Text :=
  ((t.dropWhile p).reverse.dropWhile p).reverse

/-- What is trimmed is in the class, and what is left does not start or end in it. -/
theorem trimMatches_spec (p : Char → Bool) (t : Text) :
    ∃ before after, t = before ++ trimMatches p t ++ after ∧ (∀ c ∈ before, p c = true) ∧
      (∀ c ∈ after, p c = true) ∧ (∀ c ∈ (trimMatches p t).head?, p c = false) ∧
      ∀ c ∈ (trimMatches p t).getLast?, p c = false := by
  set u := t.dropWhile p with hu
  have htrim : trimMatches p t = (u.reverse.dropWhile p).reverse := rfl
  have hsplit : u = trimMatches p t ++ (u.reverse.takeWhile p).reverse := by
    rw [htrim, ← reverse_append, takeWhile_append_dropWhile, reverse_reverse]
  refine ⟨t.takeWhile p, (u.reverse.takeWhile p).reverse, ?_, fun c hc => mem_takeWhile_imp hc,
    fun c hc => mem_takeWhile_imp (mem_reverse.mp hc), ?_, ?_⟩
  · rw [append_assoc, ← hsplit, hu, takeWhile_append_dropWhile]
  · intro c hc
    refine head?_dropWhile_neg p t c ?_
    rw [← hu, hsplit, head?_append, Option.mem_def.mp hc]
    rfl
  · intro c hc
    rw [htrim, getLast?_reverse] at hc
    exact head?_dropWhile_neg p u.reverse c hc

lemma trimMatches_eq_self (hhead : ∀ c ∈ t.head?, p c = false)
    (hlast : ∀ c ∈ t.getLast?, p c = false) : trimMatches p t = t := by
  have hdrop : ∀ u : Text, (∀ c ∈ u.head?, p c = false) → u.dropWhile p = u := by
    intro u hu
    cases u with
    | nil => rfl
    | cons c u => exact dropWhile_cons_of_neg (by simp [hu c rfl])
  rw [trimMatches, hdrop t hhead, hdrop t.reverse, reverse_reverse]
  rw [head?_reverse]
  exact hlast

/-! ## §4 Words -/

lemma mem_splitWhitespace (h : w ∈ splitWhitespace t) :
    w ≠ [] ∧ ∀ c ∈ w, isWhitespace c = false := by
  obtain ⟨-, -, -, hne, hall, -⟩ := mem_runs_iff.mp h
  exact ⟨hne, fun c hc => by simpa using hall c hc⟩

lemma splitWhitespace_word (hne : w ≠ []) (hall : ∀ c ∈ w, isWhitespace c = false) :
    splitWhitespace w = [w] :=
  runs_of_all hne fun c hc => by simp [hall c hc]

lemma splitWhitespace_dropWhile (t : Text) :
    splitWhitespace (t.dropWhile isWhitespace) = splitWhitespace t := by
  conv_rhs => rw [← takeWhile_append_dropWhile (p := isWhitespace) (l := t)]
  refine (runs_append_of_none fun c hc => ?_).symm
  simp [mem_takeWhile_imp hc]

/-- The word in front of a text and the words behind it. -/
theorem splitWhitespace_head (h : t.takeWhile (!isWhitespace ·) ≠ []) :
    splitWhitespace t = t.takeWhile (!isWhitespace ·) ::
      splitWhitespace (t.drop (t.takeWhile (!isWhitespace ·)).length) := by
  set word := t.takeWhile (!isWhitespace ·) with hword
  have hdrop : t.drop word.length = t.dropWhile (!isWhitespace ·) := by
    conv_lhs => rw [← takeWhile_append_dropWhile (p := (!isWhitespace ·)) (l := t), ← hword]
    exact drop_left
  conv_lhs => rw [← takeWhile_append_dropWhile (p := (!isWhitespace ·)) (l := t), ← hword]
  rw [hdrop, splitWhitespace, runs_append_of_all (fun c hc => mem_takeWhile_imp hc)
    (head?_dropWhile_neg _ t), if_neg h]
  rfl

lemma splitWhitespace_append (hc : isWhitespace c = true) :
    splitWhitespace (x ++ c :: y) = splitWhitespace x ++ splitWhitespace y :=
  runs_append_cons (by simp [hc])

end Kwiry.Foundations
