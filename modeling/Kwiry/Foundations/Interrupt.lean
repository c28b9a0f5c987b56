import Mathlib.Data.List.Basic

/-!
# Interrupted Programs

A program that changes a store in steps, and what a crash leaves of it. Each step is either
done or not, except that some steps can be torn: stopped half-way with a result of their own.
-/

namespace Kwiry.Foundations

variable {S A : Type*}

/-- Runs a list of steps. -/
def runSteps (apply : A → S → S) (steps : List A) (s : S) : S :=
  steps.foldl (fun s a => apply a s) s

/-- What a crash leaves of a list of steps: it comes before the first, tears it, or comes
    after it. -/
inductive Cut (apply : A → S → S) (torn : A → S → S → Prop) : List A → S → S → Prop where
  | before (steps : List A) (s : S) : Cut apply torn steps s s
  | torn {a : A} {rest : List A} {s t : S} (h : torn a s t) : Cut apply torn (a :: rest) s t
  | after {a : A} {rest : List A} {s t : S} (h : Cut apply torn rest (apply a s) t) :
      Cut apply torn (a :: rest) s t

variable {apply : A → S → S} {torn : A → S → S → Prop}

@[simp] lemma runSteps_cons (a : A) (rest : List A) (s : S) :
    runSteps apply (a :: rest) s = runSteps apply rest (apply a s) := rfl

@[simp] lemma runSteps_append (xs ys : List A) (s : S) :
    runSteps apply (xs ++ ys) s = runSteps apply ys (runSteps apply xs s) := by
  simp [runSteps]

lemma Cut.complete (steps : List A) (s : S) : Cut apply torn steps s (runSteps apply steps s) := by
  induction steps generalizing s with
  | nil => exact .before _ _
  | cons a rest ih => exact .after (ih (apply a s))

lemma Cut.append_cases {xs ys : List A} {s t : S} (h : Cut apply torn (xs ++ ys) s t) :
    Cut apply torn xs s t ∨ Cut apply torn ys (runSteps apply xs s) t := by
  induction xs generalizing s with
  | nil => exact .inr h
  | cons a rest ih =>
    cases h with
    | before => exact .inl (.before _ _)
    | torn htorn => exact .inl (.torn htorn)
    | after hrest =>
      rcases ih hrest with hcut | hcut
      · exact .inl (.after hcut)
      · exact .inr hcut

/-- What every step keeps, done or torn, an interrupted program keeps. -/
theorem Cut.invariant {P : S → Prop} {steps : List A}
    (happly : ∀ a ∈ steps, ∀ s, P s → P (apply a s))
    (htorn : ∀ a ∈ steps, ∀ s t, P s → torn a s t → P t) {s t : S} (hs : P s)
    (h : Cut apply torn steps s t) : P t := by
  induction h with
  | before => exact hs
  | torn h => exact htorn _ List.mem_cons_self _ _ hs h
  | after h ih =>
    exact ih (fun b hb => happly b (List.mem_cons_of_mem _ hb))
      (fun b hb => htorn b (List.mem_cons_of_mem _ hb)) (happly _ List.mem_cons_self _ hs)

end Kwiry.Foundations
