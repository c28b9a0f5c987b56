import Mathlib.Logic.Relation
import Mathlib.Data.List.Basic

/-!
# Programs over a Shared Store

A program asks a system one call at a time and goes on with each reply; it ends in a value or in an
error. Programs are judged at every point where they can be cut off.
-/

namespace Kwiry.Foundations

/-- A program of calls; `Reply c` is what the system answers to `c`. -/
inductive Program (Call : Type) (Reply : Call → Type) (E A : Type) where
  | done (result : Except E A)
  | call (c : Call) (next : Reply c → Program Call Reply E A)

namespace Program

variable {Call : Type} {Reply : Call → Type} {E A B C : Type}

/-- Goes on with the result of a program, an error included. -/
def andThen : Program Call Reply E A → (Except E A → Program Call Reply E B) →
    Program Call Reply E B
  | done result, f => f result
  | call c next, f => call c fun reply => (next reply).andThen f

/-- Goes on with a value; an error ends the program. -/
def onValue (f : A → Program Call Reply E B) : Except E A → Program Call Reply E B
  | .ok a => f a
  | .error e => done (.error e)

instance : Monad (Program Call Reply E) where
  pure a := done (.ok a)
  bind p f := p.andThen (onValue f)

def throw (e : E) : Program Call Reply E A := done (.error e)

/-- The reply of one call. -/
def ask (c : Call) : Program Call Reply E (Reply c) := call c fun reply => done (.ok reply)

/-- Goes on with a handler after an error. -/
def orElse (p : Program Call Reply E A) (handler : E → Program Call Reply E A) :
    Program Call Reply E A :=
  p.andThen fun
    | .ok a => done (.ok a)
    | .error e => handler e

/-- Runs a last program in any case; the error of the last one wins. -/
def finish (p : Program Call Reply E A) (last : Program Call Reply E Unit) :
    Program Call Reply E A :=
  p.andThen fun result => last.andThen fun
    | .ok () => done result
    | .error e => done (.error e)

lemma bind_eq (p : Program Call Reply E A) (f : A → Program Call Reply E B) :
    p >>= f = p.andThen (onValue f) := rfl

lemma ask_bind (c : Call) (f : Reply c → Program Call Reply E B) :
    (ask c : Program Call Reply E (Reply c)) >>= f = call c f := rfl

/-- The calls that a program can make are of some kind. -/
def Uses (allowed : Call → Prop) : Program Call Reply E A → Prop
  | done _ => True
  | call c next => allowed c ∧ ∀ reply, (next reply).Uses allowed

variable {p : Program Call Reply E A}

lemma Uses.andThen {allowed : Call → Prop} {f : Except E A → Program Call Reply E B}
    (hp : p.Uses allowed) (hf : ∀ result, (f result).Uses allowed) :
    (p.andThen f).Uses allowed := by
  induction p with
  | done result => exact hf result
  | call c next ih => exact ⟨hp.1, fun reply => ih reply (hp.2 reply)⟩

lemma Uses.bind {allowed : Call → Prop} {f : A → Program Call Reply E B} (hp : p.Uses allowed)
    (hf : ∀ a, (f a).Uses allowed) : (p >>= f).Uses allowed := by
  refine Uses.andThen hp fun result => ?_
  cases result with
  | ok a => exact hf a
  | error e => trivial

/-- A program on its own, each call answered by a function. -/
def run {S : Type} (exec : (c : Call) → S → Reply c × S) :
    Program Call Reply E A → S → Except E A × S
  | done result, s => (result, s)
  | call c next, s => (next (exec c s).1).run exec (exec c s).2

lemma run_andThen {S : Type} (exec : (c : Call) → S → Reply c × S) (p : Program Call Reply E A)
    (f : Except E A → Program Call Reply E B) (s : S) :
    (p.andThen f).run exec s = (f (p.run exec s).1).run exec (p.run exec s).2 := by
  induction p generalizing s with
  | done result => rfl
  | call c next ih => exact ih _ _

section

variable {exec : (c : Call) → S → Reply c × S} {s s' : S} {a : A} {S : Type}
  (h : p.run exec s = (.ok a, s'))

include h

lemma run_bind (f : A → Program Call Reply E B) : (p >>= f).run exec s = (f a).run exec s' := by
  rw [bind_eq, run_andThen, h]
  rfl

lemma run_orElse (handler : E → Program Call Reply E A) :
    (p.orElse handler).run exec s = (.ok a, s') := by
  rw [orElse, run_andThen, h]
  rfl

end

/-- A call of a program that runs alone. -/
theorem run_call {S : Type} {exec : (c : Call) → S → Reply c × S} {c : Call} {s s' : S}
    {reply : Reply c} (h : exec c s = (reply, s')) (next : Reply c → Program Call Reply E A) :
    (call c next).run exec s = (next reply).run exec s' := by
  rw [run, h]

end Program

open Program Relation

variable {Call : Type} {Reply : Call → Type} {E A B S : Type}

/-- The answers a system can give, and the stores they leave. -/
abbrev System (Call : Type) (Reply : Call → Type) (S : Type) :=
  (c : Call) → S → Reply c → S → Prop

variable {sys : System Call Reply S}

/-! ## §1 One program -/

/-- The stores that a program passes through, the first one included. -/
inductive Passes (sys : System Call Reply S) : Program Call Reply E A → S → S → Prop where
  | here (p : Program Call Reply E A) (s : S) : Passes sys p s s
  | later {c : Call} {next : Reply c → Program Call Reply E A} {s s' t : S} {reply : Reply c}
      (hcall : sys c s reply s') (hrest : Passes sys (next reply) s' t) :
      Passes sys (.call c next) s t

variable {p : Program Call Reply E A} {s : S}

lemma Passes.andThen_left {t : S} (h : Passes sys p s t) (f : Except E A → Program Call Reply E B)
    : Passes sys (p.andThen f) s t := by
  induction h with
  | here => exact .here _ _
  | later hcall _ ih => exact .later hcall ih

/-- What comes after a program that ran to its end. -/
theorem Passes.andThen_right {exec : (c : Call) → S → Reply c × S}
    (hexec : ∀ c s, sys c s (exec c s).1 (exec c s).2) {s' t : S} {result : Except E A}
    (hrun : p.run exec s = (result, s')) {f : Except E A → Program Call Reply E B}
    (h : Passes sys (f result) s' t) : Passes sys (p.andThen f) s t := by
  induction p generalizing s with
  | done r =>
    cases hrun
    exact h
  | call c next ih => exact .later (hexec c s) (ih _ hrun)

/-- An invariant at every point of a program, and a condition on its result. -/
def Throughout (sys : System Call Reply S) (I : S → Prop) (Q : Except E A → S → Prop) :
    Program Call Reply E A → S → Prop
  | .done result, s => I s ∧ Q result s
  | .call c next, s => I s ∧ ∀ reply s', sys c s reply s' → Throughout sys I Q (next reply) s'

variable {I J : S → Prop} {Q : Except E A → S → Prop}

lemma Throughout.head (h : Throughout sys I Q p s) : I s := by
  cases p with
  | done result => exact h.1
  | call c next => exact h.1

lemma Throughout.passes {t : S} (h : Throughout sys I Q p s) (hpass : Passes sys p s t) :
    I t := by
  induction hpass with
  | here => exact h.head
  | later hcall _ ih => exact ih (h.2 _ _ hcall)

lemma Throughout.mono {Q' : Except E A → S → Prop} (h : Throughout sys I Q p s)
    (hI : ∀ t, I t → J t) (hQ : ∀ r t, I t → Q r t → Q' r t) : Throughout sys J Q' p s := by
  induction p generalizing s with
  | done result => exact ⟨hI s h.1, hQ result s h.1 h.2⟩
  | call c next ih => exact ⟨hI s h.1, fun reply s' hcall => ih reply (h.2 reply s' hcall)⟩

lemma Throughout.and {Q' : Except E A → S → Prop} (h : Throughout sys I Q p s)
    (h' : Throughout sys J Q' p s) :
    Throughout sys (fun t => I t ∧ J t) (fun result t => Q result t ∧ Q' result t) p s := by
  induction p generalizing s with
  | done result => exact ⟨⟨h.1, h'.1⟩, h.2, h'.2⟩
  | call c next ih =>
    exact ⟨⟨h.1, h'.1⟩, fun reply s' hcall => ih reply (h.2 reply s' hcall) (h'.2 reply s' hcall)⟩

/-- What holds at the end of a program, whatever it passes through. -/
abbrev Ends (sys : System Call Reply S) (Q : Except E A → S → Prop) :
    Program Call Reply E A → S → Prop :=
  Throughout sys (fun _ => True) Q

lemma throughout_andThen {Q : Except E B → S → Prop} {f : Except E A → Program Call Reply E B}
    (h : Throughout sys I (fun result t => Throughout sys I Q (f result) t) p s) :
    Throughout sys I Q (p.andThen f) s := by
  induction p generalizing s with
  | done result => exact h.2
  | call c next ih => exact ⟨h.1, fun reply s' hcall => ih reply (h.2 reply s' hcall)⟩

/-- A condition on the value of a program, and one on its error. -/
def OnResult (R : A → S → Prop) (onError : E → S → Prop) : Except E A → S → Prop
  | .ok a, s => R a s
  | .error e, s => onError e s

/-- Only the values go on in a sequence; what is asked of errors is asked of them at once. -/
theorem throughout_bind {Q : Except E B → S → Prop} {f : A → Program Call Reply E B}
    {R : A → S → Prop} (hp : Throughout sys I (OnResult R fun e => Q (.error e)) p s)
    (hf : ∀ a t, I t → R a t → Throughout sys I Q (f a) t) : Throughout sys I Q (p >>= f) s := by
  refine throughout_andThen (hp.mono (fun _ ht => ht) fun result t ht hresult => ?_)
  cases result with
  | ok a => exact hf a t ht hresult
  | error e => exact ⟨ht, hresult⟩

lemma throughout_orElse {handler : E → Program Call Reply E A} {R : A → S → Prop}
    {onError : E → S → Prop} (hp : Throughout sys I (OnResult R onError) p s)
    (hvalue : ∀ a t, I t → R a t → Q (.ok a) t)
    (herror : ∀ e t, I t → onError e t → Throughout sys I Q (handler e) t) :
    Throughout sys I Q (p.orElse handler) s := by
  refine throughout_andThen (hp.mono (fun _ ht => ht) fun result t ht hresult => ?_)
  cases result with
  | ok a => exact ⟨ht, hvalue a t ht hresult⟩
  | error e => exact herror e t ht hresult

/-- An invariant that every call of a program keeps. -/
theorem throughout_of_uses {allowed : Call → Prop} (huses : p.Uses allowed)
    (hstep : ∀ c t reply t', allowed c → I t → sys c t reply t' → I t') (hs : I s) :
    Throughout sys I (fun _ t => I t) p s := by
  induction p generalizing s with
  | done result => exact ⟨hs, hs⟩
  | call c next ih =>
    exact ⟨hs, fun reply s' hcall =>
      ih reply (huses.2 reply) (hstep c s reply s' huses.1 hs hcall)⟩

end Kwiry.Foundations
