import Mathlib.Data.List.Basic

/-!
# Traces of a Step Function

A system that takes events one after the other, when the event is possible in its state. What is
asked of a run is asked of every state it passes and of every event it takes.
-/

namespace Kwiry.Foundations

variable {S E : Type*} (step : S → E → Option S)

def runEvents (s : S) (events : List E) : Option S :=
  events.foldlM step s

/-- Every state of a run, the first and the last included. -/
def Always (P : S → Prop) (s : S) : List E → Prop
  | [] => P s
  | e :: rest => P s ∧ ∀ s' ∈ step s e, Always P s' rest

/-- Every event of a run, in the state that takes it. -/
def Each (Q : S → E → Prop) (s : S) : List E → Prop
  | [] => True
  | e :: rest => Q s e ∧ ∀ s' ∈ step s e, Each Q s' rest

@[simp] lemma runEvents_nil (s : S) : runEvents step s [] = some s := rfl

@[simp] lemma runEvents_cons (s : S) (e : E) (rest : List E) :
    runEvents step s (e :: rest) = (step s e).bind fun s' => runEvents step s' rest := rfl

instance decidableAlways (P : S → Prop) [DecidablePred P] (s : S) :
    (events : List E) → Decidable (Always step P s events)
  | [] => inferInstanceAs (Decidable (P s))
  | e :: rest =>
    have : DecidablePred fun s' => Always step P s' rest := fun s' => decidableAlways P s' rest
    inferInstanceAs (Decidable (P s ∧ ∀ s' ∈ step s e, Always step P s' rest))

instance decidableEach (Q : S → E → Prop) [∀ s e, Decidable (Q s e)] (s : S) :
    (events : List E) → Decidable (Each step Q s events)
  | [] => inferInstanceAs (Decidable True)
  | e :: rest =>
    have : DecidablePred fun s' => Each step Q s' rest := fun s' => decidableEach Q s' rest
    inferInstanceAs (Decidable (Q s e ∧ ∀ s' ∈ step s e, Each step Q s' rest))

variable {step}

/-- What holds at first and is kept by the steps that meet a condition holds at the end. -/
theorem runEvents_invariant {I P : S → Prop} {Q : S → E → Prop}
    (hstep : ∀ s e s', I s → P s → Q s e → step s e = some s' → I s')
    {s s' : S} {events : List E} (hs : I s) (hrun : runEvents step s events = some s')
    (hP : Always step P s events) (hQ : Each step Q s events) : I s' := by
  induction events generalizing s with
  | nil =>
    cases hrun
    exact hs
  | cons e rest ih =>
    rw [runEvents_cons, Option.bind_eq_some_iff] at hrun
    obtain ⟨next, hnext, hrun⟩ := hrun
    have hkept : I next := hstep s e next hs hP.1 hQ.1 hnext
    exact ih hkept hrun (hP.2 next hnext) (hQ.2 next hnext)

lemma always_of_forall {P : S → Prop} (h : ∀ s, P s) (s : S) (events : List E) :
    Always step P s events := by
  induction events generalizing s with
  | nil => exact h s
  | cons e rest ih => exact ⟨h s, fun s' _ => ih s'⟩

lemma each_of_forall {Q : S → E → Prop} (h : ∀ s e, Q s e) (s : S) (events : List E) :
    Each step Q s events := by
  induction events generalizing s with
  | nil => exact trivial
  | cons e rest ih => exact ⟨h s e, fun s' _ => ih s'⟩

/-- What holds at first and is kept by every step holds at the end. -/
theorem runEvents_kept {I : S → Prop} (hstep : ∀ s e s', I s → step s e = some s' → I s')
    {s s' : S} {events : List E} (hs : I s) (hrun : runEvents step s events = some s') : I s' := by
  refine runEvents_invariant (P := fun _ => True) (Q := fun _ _ => True) ?_ hs hrun
    (always_of_forall (fun _ => trivial) s events) (each_of_forall (fun _ _ => trivial) s events)
  intro s e s' hs _ _ hnext
  exact hstep s e s' hs hnext

/-! ## Since -/

section

/-- Before the step `n` there was a mark, and no reset came after it. -/
def Since (mark reset : ℕ → Prop) (n : ℕ) : Prop :=
  ∃ m < n, mark m ∧ ∀ k, m < k → k < n → ¬ reset k

variable {mark mark' reset : ℕ → Prop} {n : ℕ}

lemma not_since_zero : ¬ Since mark reset 0 := by
  intro h
  obtain ⟨m, hm, -⟩ := h
  exact Nat.not_lt_zero m hm

lemma since_succ : Since mark reset (n + 1) ↔ mark n ∨ Since mark reset n ∧ ¬ reset n := by
  constructor
  · intro h
    obtain ⟨m, hm, hmark, hkept⟩ := h
    rcases Nat.lt_succ_iff_lt_or_eq.mp hm with hlt | rfl
    · right
      exact ⟨⟨m, hlt, hmark, fun k hmk hkn => hkept k hmk (by omega)⟩, hkept n hlt (by omega)⟩
    · exact .inl hmark
  · intro h
    rcases h with hmark | ⟨⟨m, hm, hmark, hkept⟩, hreset⟩
    · exact ⟨n, by omega, hmark, fun k hmk hkn => by omega⟩
    · refine ⟨m, by omega, hmark, fun k hmk hkn => ?_⟩
      rcases Nat.lt_succ_iff_lt_or_eq.mp hkn with hlt | rfl
      · exact hkept k hmk hlt
      · exact hreset

lemma Since.mono (hmark : ∀ m < n, mark m → mark' m) (h : Since mark reset n) :
    Since mark' reset n := by
  obtain ⟨m, hm, h, hkept⟩ := h
  exact ⟨m, hm, hmark m hm h, hkept⟩

/-- A mark that a reset came before. -/
theorem Since.after {b : ℕ} (h : Since mark reset n) (hb : b < n) (hreset : reset b)
    (hunmarked : ¬ mark b) : ∃ m, b < m ∧ m < n ∧ mark m ∧ ∀ k, m < k → k < n → ¬ reset k := by
  obtain ⟨m, hm, hmark, hkept⟩ := h
  rcases Nat.lt_trichotomy b m with hlt | rfl | hlt
  · exact ⟨m, hlt, hm, hmark, hkept⟩
  · exact absurd hmark hunmarked
  · exact absurd hreset (hkept b hlt hb)

/-- Where every mark is itself a reset, the mark that is in force is one. -/
theorem Since.and (hreset : ∀ m, mark m → reset m) (hreset' : ∀ m, mark' m → reset m)
    (h : Since mark reset n) (h' : Since mark' reset n) :
    Since (fun m => mark m ∧ mark' m) reset n := by
  obtain ⟨m, hm, hmark, hkept⟩ := h
  obtain ⟨m', hm', hmark', hkept'⟩ := h'
  have heq : m = m' := by
    by_contra hne
    rcases Nat.lt_or_gt_of_ne hne with hlt | hlt
    · exact hkept m' hlt hm' (hreset' m' hmark')
    · exact hkept' m hlt hm (hreset m hmark)
  subst heq
  exact ⟨m, hm, ⟨hmark, hmark'⟩, hkept⟩

end

end Kwiry.Foundations
