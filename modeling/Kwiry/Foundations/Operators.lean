import Mathlib.Data.List.Basic
import Mathlib.Logic.Function.Basic

/-!
# Operator Grammars

Operands joined by binary operators that associate to the left, each with a precedence, and groups
between an opening and a closing token. A text of such a grammar is read one way only. The reading
climbs: an operand is extended by the operators after it as long as they bind tightly enough.
-/

namespace Kwiry.Foundations

open List

/-- Operands, groups, and two formulas joined by an operator. -/
inductive Formula (Op Atom : Type) where
  | atom (a : Atom)
  | group (inner : Formula Op Atom)
  | joined (o : Op) (left right : Formula Op Atom)

namespace Formula

variable {Op Atom : Type}

/-- The formula without its groups: the tree it stands for. -/
def tree : Formula Op Atom → Formula Op Atom
  | .atom a => .atom a
  | .group inner => inner.tree
  | .joined o left right => .joined o left.tree right.tree

/-- The operands in order. -/
def atoms : Formula Op Atom → List Atom
  | .atom a => [a]
  | .group inner => inner.atoms
  | .joined _ left right => left.atoms ++ right.atoms

end Formula

/-- The tokens of operators and groups, how tightly an operator binds, and which tokens are an
operand. -/
structure OperatorGrammar (Tok Op Atom : Type) where
  precedence : Op → ℕ
  operator : Op → Tok
  (opening closing : Tok)
  Operand : List Tok → Atom → Prop

namespace OperatorGrammar

variable {Tok Op Atom : Type} (G : OperatorGrammar Tok Op Atom)

/-! ## §1 Derivations -/

/-- The tokens of a formula whose operators outside groups bind at least as tightly as `p`. The
operators of the right operand bind tighter than the one before it. -/
inductive Derives : ℕ → List Tok → Formula Op Atom → Prop
  | operand (p : ℕ) {ts : List Tok} {a : Atom} (h : G.Operand ts a) : Derives p ts (.atom a)
  | group (p : ℕ) {ts : List Tok} {e : Formula Op Atom} (h : Derives 0 ts e) :
      Derives p (G.opening :: ts ++ [G.closing]) (.group e)
  | joined {p : ℕ} {o : Op} {ls rs : List Tok} {l r : Formula Op Atom}
      (hp : p ≤ G.precedence o) (hl : Derives (G.precedence o) ls l)
      (hr : Derives (G.precedence o + 1) rs r) :
      Derives p (ls ++ G.operator o :: rs) (.joined o l r)

variable {e e' : Formula Op Atom} {rest ts : List Tok} {p q : ℕ}

variable {G} in
lemma Derives.mono (h : G.Derives p ts e) (hle : q ≤ p) : G.Derives q ts e := by
  cases h with
  | operand _ h => exact .operand q h
  | group _ h => exact .group q h
  | joined hp hl hr => exact .joined (Nat.le_trans hle hp) hl hr

/-- Where an operand may end: before an operator, before the end of a group, at the end. -/
inductive Boundary : List Tok → Prop
  | done : Boundary []
  | closing (rest : List Tok) : Boundary (G.closing :: rest)
  | operator (o : Op) (rest : List Tok) : Boundary (G.operator o :: rest)

/-- No token is of two kinds, and an operand ends in one place. -/
structure Lawful : Prop where
  operator_injective : Function.Injective G.operator
  operator_ne_closing : ∀ o, G.operator o ≠ G.closing
  not_operand_opening : ∀ ts a, ¬ G.Operand (G.opening :: ts) a
  operand_ne_nil : ∀ a, ¬ G.Operand [] a
  operand_unique : ∀ {ts us rest rest' : List Tok} {a b : Atom}, G.Operand ts a → G.Operand us b →
    G.Boundary rest → G.Boundary rest' → ts ++ rest = us ++ rest' → rest = rest' ∧ a = b

/-- The operator that comes next, if one does, binds no tighter than `p`. -/
def Follows (p : ℕ) (rest : List Tok) : Prop :=
  ∀ o tail, rest = G.operator o :: tail → G.precedence o ≤ p

/-- The operator that comes next, if one does, binds less tightly than `p`. -/
def Ends (p : ℕ) (rest : List Tok) : Prop :=
  ∀ o tail, rest = G.operator o :: tail → G.precedence o < p

variable {G}

lemma Follows.ends (h : G.Follows p rest) (hlt : p < q) : G.Ends q rest :=
  fun o tail heq => Nat.lt_of_le_of_lt (h o tail heq) hlt

lemma Follows.mono (h : G.Follows p rest) (hle : p ≤ q) : G.Follows q rest :=
  fun o tail heq => Nat.le_trans (h o tail heq) hle

lemma follows_nil (p : ℕ) : G.Follows p [] :=
  fun _ _ heq => by cases heq

lemma Lawful.follows_operator (hG : G.Lawful) (o : Op) (rest : List Tok) :
    G.Follows (G.precedence o) (G.operator o :: rest) := by
  intro o' tail heq
  exact Nat.le_of_eq (congrArg G.precedence (hG.operator_injective (cons.inj heq).1).symm)

lemma Lawful.follows_closing (hG : G.Lawful) (p : ℕ) (rest : List Tok) :
    G.Follows p (G.closing :: rest) :=
  fun o _ heq => absurd (cons.inj heq).1.symm (hG.operator_ne_closing o)

lemma Lawful.ends_closing (hG : G.Lawful) (p : ℕ) (rest : List Tok) :
    G.Ends p (G.closing :: rest) :=
  fun o _ heq => absurd (cons.inj heq).1.symm (hG.operator_ne_closing o)

lemma Lawful.not_derives_nil (hG : G.Lawful) : ¬ G.Derives p [] e := by
  intro h
  generalize hts : ([] : List Tok) = ts at h
  cases h with
  | operand _ ha => exact hG.operand_ne_nil _ (hts ▸ ha)
  | group _ h => cases hts
  | joined hp hl hr => exact absurd hts.symm (by simp)

/-! ## §2 Climbing -/

variable (G)

/-- Reading a formula off the front of the tokens: an operand or a group first, then what the
operators after it that bind tightly enough join to it. -/
inductive Reads : ℕ → Option (Formula Op Atom) → List Tok → Formula Op Atom → List Tok → Prop
  | operand {p : ℕ} {ts rest rest' : List Tok} {a : Atom} {e : Formula Op Atom}
      (h : G.Operand ts a) (hrest : G.Boundary rest)
      (hnext : Reads p (some (.atom a)) rest e rest') :
      Reads p none (ts ++ rest) e rest'
  | group {p : ℕ} {ts rest rest' : List Tok} {inner e : Formula Op Atom}
      (h : Reads 0 none ts inner (G.closing :: rest))
      (hnext : Reads p (some (.group inner)) rest e rest') :
      Reads p none (G.opening :: ts) e rest'
  | stop {p : ℕ} {e : Formula Op Atom} {rest : List Tok} (h : G.Ends p rest) :
      Reads p (some e) rest e rest
  | step {p : ℕ} {o : Op} {l r e : Formula Op Atom} {ts rest rest' : List Tok}
      (hp : p ≤ G.precedence o) (h : Reads (G.precedence o + 1) none ts r rest)
      (hnext : Reads p (some (.joined o l r)) rest e rest') :
      Reads p (some l) (G.operator o :: ts) e rest'

variable {G}

lemma Lawful.operand_ne_opening (hG : G.Lawful) {us : List Tok} {a : Atom} (h : G.Operand ts a) :
    ts ++ rest ≠ G.opening :: us := by
  intro heq
  cases ts with
  | nil => exact hG.operand_ne_nil a h
  | cons t ts =>
    obtain rfl : t = G.opening := (cons.inj heq).1
    exact hG.not_operand_opening ts a h

/-- There is one way to read on. -/
theorem Lawful.reads_unique (hG : G.Lawful) {start : Option (Formula Op Atom)} {rest' : List Tok}
    (h : G.Reads p start ts e rest) (h' : G.Reads p start ts e' rest') : e = e' ∧ rest = rest' := by
  induction h generalizing e' rest' with
  | @operand p ts rest rest' a e ha hb hnext ih =>
    generalize hts : ts ++ rest = us at h'
    cases h' with
    | operand ha' hb' hnext' =>
      obtain ⟨rfl, rfl⟩ := hG.operand_unique ha ha' hb hb' hts
      exact ih hnext'
    | group hinner' hnext' => exact absurd hts (hG.operand_ne_opening ha)
  | @group p ts rest rest' inner e hinner hnext ihinner ih =>
    generalize hts : G.opening :: ts = us at h'
    cases h' with
    | operand ha' hb' hnext' => exact absurd hts.symm (hG.operand_ne_opening ha')
    | group hinner' hnext' =>
      obtain rfl := (cons.inj hts).2
      obtain ⟨rfl, hclosing⟩ := ihinner hinner'
      obtain rfl := (cons.inj hclosing).2
      exact ih hnext'
  | @stop p e rest hends =>
    generalize hts : rest = us at h'
    cases h' with
    | stop => exact ⟨rfl, rfl⟩
    | step hp => exact absurd (hends _ _ hts) (Nat.not_lt.mpr hp)
  | @step p o l r e ts rest rest' hp hright hnext ihright ih =>
    generalize hts : G.operator o :: ts = us at h'
    cases h' with
    | stop hends => exact absurd (hends _ _ hts.symm) (Nat.not_lt.mpr hp)
    | step hp' hright' hnext' =>
      obtain ⟨hop, rfl⟩ := cons.inj hts
      obtain rfl := hG.operator_injective hop
      obtain ⟨rfl, rfl⟩ := ihright hright'
      exact ih hnext'

/-- What has a derivation is read so: from the front, and then on with what follows it. -/
theorem Lawful.reads_of_derives (hG : G.Lawful) (h : G.Derives p ts e) :
    ∀ q ≤ p, ∀ rest e' rest', G.Boundary rest → G.Follows p rest →
      G.Reads q (some e) rest e' rest' → G.Reads q none (ts ++ rest) e' rest' := by
  induction h with
  | operand p ha => exact fun q _ rest e' rest' hb _ hnext => .operand ha hb hnext
  | group p h ih =>
    intro q _ rest e' rest' _ _ hnext
    have hinner := ih 0 (Nat.le_refl 0) (G.closing :: rest) _ _ (.closing rest)
      (hG.follows_closing 0 rest) (.stop (hG.ends_closing 0 rest))
    rw [append_assoc]
    exact .group hinner hnext
  | @joined p o ls rs l r hp hl hr ihl ihr =>
    intro q hq rest e' rest' hb hfollows hnext
    rw [append_assoc, cons_append]
    refine ihl q (Nat.le_trans hq hp) _ e' rest' (.operator o _) (hG.follows_operator o _) ?_
    -- the right operand ends before whatever follows the whole
    have hright : G.Reads (G.precedence o + 1) none (rs ++ rest) r rest :=
      ihr _ (Nat.le_refl _) rest r rest hb (hfollows.mono (by omega))
        (.stop (hfollows.ends (by omega)))
    exact .step (Nat.le_trans hq hp) hright hnext

lemma Lawful.derives_unique (hG : G.Lawful) (h : G.Derives 0 ts e) (h' : G.Derives 0 ts e') :
    e = e' := by
  have hread : ∀ f, G.Derives 0 ts f → G.Reads 0 none (ts ++ []) f [] := fun f hf =>
    hG.reads_of_derives hf 0 (Nat.le_refl 0) [] f [] .done (follows_nil 0)
      (.stop fun _ _ heq => by cases heq)
  exact (hG.reads_unique (hread e h) (hread e' h')).1

end OperatorGrammar

end Kwiry.Foundations
