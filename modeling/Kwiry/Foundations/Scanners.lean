import Mathlib.Data.List.Infix
import Mathlib.Logic.Relation

/-!
# Rounds and Scanners

A loop as rounds of its body. Each round either goes on with another state or ends the loop, and a
measure that every round lowers makes the loop end. A scanner takes the list that is left and
returns what is left after what it reads. A counting scanner carries a number along, which it keeps
when it fails.
-/

namespace Kwiry.Foundations

variable {α β σ τ ρ : Type*}

/-! ## §1 Rounds -/

/-- How one round of a loop ends. -/
inductive Round (σ β : Type*) where
  | again (s : σ)
  | done (b : β)

def rounds [Inhabited β] (body : σ → Round σ β) : ℕ → σ → β
  | 0, _ => default
  | fuel + 1, s =>
    match body s with
    | .again t => rounds body fuel t
    | .done b => b

/-- The rounds of a loop from a state on, of which there are at most as many as the measure
    allows. -/
def run [Inhabited β] (m : σ → ℕ) (body : σ → Round σ β) (s : σ) : β :=
  rounds body (m s + 1) s

/-- Every round that goes on lowers the measure. -/
def Lowers (m : σ → ℕ) (body : σ → Round σ β) : Prop :=
  ∀ s t, body s = .again t → m t < m s

section Rounds

variable [Inhabited β] {m : σ → ℕ} {body : σ → Round σ β}

lemma rounds_eq_run (h : Lowers m body) {fuel : ℕ} {s : σ} (hfuel : m s < fuel) :
    rounds body fuel s = run m body s := by
  have hsame : ∀ n k s, m s < n → m s < k → rounds body n s = rounds body k s := by
    intro n
    induction n with
    | zero =>
      intro k s hn
      exact absurd hn (Nat.not_lt_zero _)
    | succ n ih =>
      intro k s hn hk
      obtain ⟨k, rfl⟩ := Nat.exists_eq_succ_of_ne_zero (Nat.ne_zero_of_lt hk)
      cases hbody : body s with
      | again t =>
        have hlt := h s t hbody
        simp only [rounds, hbody]
        exact ih k t (by omega) (by omega)
      | done b => simp only [rounds, hbody]
  exact hsame fuel _ s hfuel (Nat.lt_succ_self _)

lemma run_again (h : Lowers m body) {s t : σ} (hbody : body s = .again t) :
    run m body s = run m body t := by
  rw [run, rounds]
  simp only [hbody]
  exact rounds_eq_run h (h s t hbody)

lemma run_done {s : σ} {b : β} (hbody : body s = .done b) : run m body s = b := by
  rw [run, rounds]
  simp only [hbody]

lemma run_eq (h : Lowers m body) (s : σ) :
    run m body s = match body s with
      | .again t => run m body t
      | .done b => b := by
  cases hbody : body s with
  | again t => exact run_again h hbody
  | done b => exact run_done hbody

/-- What the rounds keep and the last one turns into a result. -/
theorem run_induction (h : Lowers m body) {P : σ → Prop} {Q : β → Prop}
    (hagain : ∀ s t, P s → body s = .again t → P t)
    (hdone : ∀ s b, P s → body s = .done b → Q b) {s : σ} (hs : P s) : Q (run m body s) := by
  induction hm : m s using Nat.strong_induction_on generalizing s with
  | _ k ih =>
    subst hm
    cases hbody : body s with
    | again t =>
      rw [run_again h hbody]
      exact ih _ (h s t hbody) (hagain s t hs hbody) rfl
    | done b =>
      rw [run_done hbody]
      exact hdone s b hs hbody

end Rounds

/-- Two rounds go on to related states, or both end with related results. -/
inductive Round.Related (R : σ → τ → Prop) (Q : β → ρ → Prop) : Round σ β → Round τ ρ → Prop where
  | again {s : σ} {t : τ} (h : R s t) : Related R Q (.again s) (.again t)
  | done {b : β} {c : ρ} (h : Q b c) : Related R Q (.done b) (.done c)

/-- Loops whose rounds stay related have related results. -/
theorem run_relation [Inhabited β] [Inhabited ρ] {m : σ → ℕ} {body : σ → Round σ β} {n : τ → ℕ}
    {other : τ → Round τ ρ} (h : Lowers m body) (hother : Lowers n other) {R : σ → τ → Prop}
    {Q : β → ρ → Prop} (hround : ∀ s t, R s t → Round.Related R Q (body s) (other t)) {s : σ}
    {t : τ} (hs : R s t) : Q (run m body s) (run n other t) := by
  induction hm : m s using Nat.strong_induction_on generalizing s t with
  | _ k ih =>
    subst hm
    have hrel := hround s t hs
    rw [run_eq h s, run_eq hother t]
    generalize hbody : body s = round at hrel
    generalize hsecond : other t = second at hrel
    cases hrel with
    | again hnext => exact ih _ (h s _ hbody) hnext rfl
    | done hresult => exact hresult

/-! ## §2 Repeating a partial step -/

/-- Takes a step as often as there is one. -/
def many [Inhabited σ] (m : σ → ℕ) (step : σ → Option σ) (s : σ) : σ :=
  run m (fun s => match step s with
    | some t => .again t
    | none => .done s) s

section Many

variable [Inhabited σ] {m : σ → ℕ} {step : σ → Option σ}

omit [Inhabited σ] in
lemma many_lowers (h : ∀ s t, step s = some t → m t < m s) :
    Lowers m (fun s => match step s with
      | some t => Round.again t
      | none => Round.done s) := by
  intro s t hround
  cases hstep : step s with
  | none => simp [hstep] at hround
  | some u =>
    simp only [hstep, Round.again.injEq] at hround
    exact hround ▸ h s u hstep

lemma many_of_some (h : ∀ s t, step s = some t → m t < m s) {s t : σ}
    (hstep : step s = some t) : many m step s = many m step t :=
  run_again (many_lowers h) (by simp only [hstep])

lemma many_of_none {s : σ} (hstep : step s = none) : many m step s = s :=
  run_done (by simp only [hstep])

lemma many_reaches (h : ∀ s t, step s = some t → m t < m s) (s : σ) :
    Relation.ReflTransGen (fun s t => step s = some t) s (many m step s) := by
  refine run_induction (P := Relation.ReflTransGen (fun s t => step s = some t) s)
    (many_lowers h) ?_ ?_ .refl
  · intro t u hreach hround
    cases hstep : step t with
    | none => simp [hstep] at hround
    | some v =>
      simp only [hstep, Round.again.injEq] at hround
      exact hreach.tail (hround ▸ hstep)
  · intro t b hreach hdone
    cases hstep : step t with
    | none =>
      simp only [hstep, Round.done.injEq] at hdone
      exact hdone ▸ hreach
    | some v => simp [hstep] at hdone

end Many

/-! ## §3 Scanners -/

/-- What is left after what a scanner reads, or nothing when it does not read. -/
abbrev Scanner (α : Type*) := List α → Option (List α)

/-- What a scanner leaves, and the number it counted to. -/
abbrev Counting (α : Type*) := List α → ℕ → Option (List α) × ℕ

/-- A list is what is left of another after some of it was read. -/
def Within (r s : List α) : Prop :=
  r <:+ s ∧ r.length < s.length

lemma Within.suffix {r s : List α} (h : Within r s) : r <:+ s :=
  h.1

lemma Within.length_lt {r s : List α} (h : Within r s) : r.length < s.length :=
  h.2

lemma within_cons (a : α) (s : List α) : Within s (a :: s) :=
  ⟨List.suffix_cons a s, Nat.lt_succ_self _⟩

lemma Within.of_suffix {r s t : List α} (h : r <:+ s) (hs : Within s t) : Within r t :=
  ⟨h.trans hs.1, Nat.lt_of_le_of_lt h.length_le hs.2⟩

lemma Within.trans_suffix {r s t : List α} (h : Within r s) (hs : s <:+ t) : Within r t :=
  ⟨h.1.trans hs, Nat.lt_of_lt_of_le h.2 hs.length_le⟩

/-- A scanner reads something whenever it succeeds. -/
def Scanner.Consuming (p : Scanner α) : Prop :=
  ∀ s r, p s = some r → Within r s

def Counting.Consuming (p : Counting α) : Prop :=
  ∀ s n r k, p s n = (some r, k) → Within r s

/-- The first of several scanners that reads. -/
def Scanner.firstOf (ps : List (Scanner α)) : Scanner α :=
  fun s => ps.findSome? fun p => p s

/-- A scanner that counts nothing. -/
def Scanner.plain (p : Scanner α) : Counting α :=
  fun s n => (p s, n)

/-- The first of two counting scanners that reads; the second counts on from the first. -/
def Counting.orElse (p q : Counting α) : Counting α := fun s n =>
  match p s n with
  | (some r, k) => (some r, k)
  | (none, k) => q s k

lemma Scanner.Consuming.firstOf {ps : List (Scanner α)} (h : ∀ p ∈ ps, Consuming p) :
    Consuming (Scanner.firstOf ps) := by
  intro s r hread
  obtain ⟨p, hp, hread⟩ := List.exists_of_findSome?_eq_some hread
  exact h p hp s r hread

lemma Scanner.Consuming.plain {p : Scanner α} (h : Scanner.Consuming p) :
    Counting.Consuming (Scanner.plain p) := by
  intro s n r k hread
  exact h s r (congrArg Prod.fst hread)

lemma Counting.Consuming.orElse {p q : Counting α} (hp : Consuming p) (hq : Consuming q) :
    Consuming (Counting.orElse p q) := by
  intro s n r k hread
  unfold Counting.orElse at hread
  split at hread
  · next hfirst => exact hp s n r k (hfirst.trans hread)
  · next hfirst => exact hq s _ r k hread

lemma Scanner.Consuming.many_suffix {p : Scanner α} (h : Scanner.Consuming p)
    (s : List α) : many List.length p s <:+ s := by
  have hreach := many_reaches (m := List.length) (fun s t hstep => (h s t hstep).length_lt) s
  generalize many List.length p s = t at hreach
  induction hreach with
  | refl => exact List.suffix_refl s
  | tail _ hstep ih => exact (h _ _ hstep).suffix.trans ih

end Kwiry.Foundations
