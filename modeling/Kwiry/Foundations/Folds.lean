import Mathlib.Data.List.Nodup
import Mathlib.Data.List.Pairwise
import Mathlib.Logic.Function.Basic
import Std.Data.ExtTreeMap.Lemmas

/-!
# Folds with Disjoint Footprints, and Keys Ordered by a Projection

A loop over a list often touches, for each item, only the part of the state that
item owns. Read through a per-key view, such a loop is as good as the one step
that owns the key: the other steps are framed away.
-/

namespace Kwiry.Foundations

open List

/-! ## §1 Pure loops -/

lemma foldl_induction {S A : Type*} {step : S → A → S} {P : S → Prop}
    (hstep : ∀ s a, P s → P (step s a)) (items : List A) {s : S} (hs : P s) :
    P (items.foldl step s) := by
  induction items generalizing s with
  | nil => exact hs
  | cons a rest ih => exact ih (hstep s a hs)

/-- What each step adds for its own item alone, the loop adds for the items it ran over. -/
theorem foldl_iff {S A : Type*} {step : S → A → S} {P : S → Prop} {Q : A → Prop}
    (hstep : ∀ s a, P (step s a) ↔ P s ∨ Q a) (items : List A) (s : S) :
    P (items.foldl step s) ↔ P s ∨ ∃ a ∈ items, Q a := by
  induction items generalizing s with
  | nil => simp
  | cons a rest ih =>
    rw [foldl_cons, ih, hstep, exists_mem_cons_iff, or_assoc]

section Keys

variable {S A K V : Type*} [DecidableEq K] {step : S → A → S} (view : S → K → V)

/-- Where a step changes the view at its own key alone, and no key comes twice, a loop does to the
view what the step of the key does. -/
theorem view_foldl {key : A → K} (f : A → V → V)
    (hstep : ∀ s a k, view (step s a) k = if key a = k then f a (view s k) else view s k)
    {items : List A} (hnodup : (items.map key).Nodup) (s : S) (k : K) :
    view (items.foldl step s) k =
      (items.find? (key · = k)).elim (view s k) fun a => f a (view s k) := by
  induction items generalizing s with
  | nil => rfl
  | cons a rest ih =>
    obtain ⟨hhead, htail⟩ := nodup_cons.mp hnodup
    rw [foldl_cons, ih htail, hstep]
    by_cases hkey : key a = k
    · have hnone : rest.find? (key · = k) = none := by
        rw [find?_eq_none]
        intro b hb heq
        exact hhead (mem_map.mpr ⟨b, hb, (of_decide_eq_true heq).trans hkey.symm⟩)
      rw [find?_cons_of_pos (by simpa using hkey), hnone, if_pos hkey]
      rfl
    · rw [find?_cons_of_neg (by simpa using hkey), if_neg hkey]

lemma view_foldl_keys {step : S → K → S} (f : K → V → V)
    (hstep : ∀ s key k, view (step s key) k = if key = k then f key (view s k) else view s k)
    {keys : List K} (hnodup : keys.Nodup) (s : S) (k : K) :
    view (keys.foldl step s) k = if k ∈ keys then f k (view s k) else view s k := by
  rw [view_foldl view f hstep (by rwa [map_id'])]
  cases hfind : keys.find? (· = k) with
  | none => rw [if_neg fun hk => by simpa using find?_eq_none.mp hfind k hk, Option.elim_none]
  | some key =>
    obtain rfl : key = k := by simpa using find?_some hfind
    rw [if_pos (mem_of_find?_eq_some hfind), Option.elim_some]

lemma find?_key_eq_some_iff {key : A → K} {items : List A} (hnodup : (items.map key).Nodup)
    {k : K} {a : A} : items.find? (key · = k) = some a ↔ a ∈ items ∧ key a = k := by
  constructor
  · intro hfind
    exact ⟨mem_of_find?_eq_some hfind, by simpa using find?_some hfind⟩
  · rintro ⟨hmem, rfl⟩
    cases hfind : items.find? (key · = key a) with
    | none => exact absurd (decide_eq_true rfl) (find?_eq_none.mp hfind a hmem)
    | some b =>
      rw [inj_on_of_nodup_map hnodup (mem_of_find?_eq_some hfind) hmem
        (by simpa using find?_some hfind)]

end Keys

/-! ## §2 Loops that may fail -/

section

variable {S A K V E : Type*} (step : S → A → Except E S) (view : S → K → V)
  (owns : A → K → Prop)
variable {items : List A} {s t : S}

lemma foldlM_cons_ok {a : A} (h : (a :: items).foldlM step s = .ok t) :
    ∃ s', step s a = .ok s' ∧ items.foldlM step s' = .ok t := by
  rw [foldlM_cons] at h
  cases hstep : step s a with
  | error e =>
    rw [hstep] at h
    cases h
  | ok s' =>
    rw [hstep] at h
    exact ⟨s', rfl, h⟩

/-- A successful loop, split at one of its items. -/
theorem foldlM_append_cons_ok {before after : List A} {a : A}
    (h : (before ++ a :: after).foldlM step s = .ok t) :
    ∃ u v, before.foldlM step s = .ok u ∧ step u a = .ok v ∧ after.foldlM step v = .ok t := by
  induction before generalizing s with
  | nil =>
    obtain ⟨v, hstep, hrest⟩ := foldlM_cons_ok step h
    exact ⟨s, v, rfl, hstep, hrest⟩
  | cons b rest ih =>
    obtain ⟨s', hb, hrest⟩ := foldlM_cons_ok step h
    obtain ⟨u, v, hbefore, hstep, hafter⟩ := ih hrest
    refine ⟨u, v, ?_, hstep, hafter⟩
    rw [foldlM_cons, hb]
    exact hbefore

lemma foldlM_ok_of_forall (hstep : ∀ s, ∀ a ∈ items, ∃ t, step s a = .ok t) (s : S) :
    ∃ t, items.foldlM step s = .ok t := by
  induction items generalizing s with
  | nil => exact ⟨s, rfl⟩
  | cons a rest ih =>
    obtain ⟨s', ha⟩ := hstep s a mem_cons_self
    obtain ⟨t, hrest⟩ := ih (fun u b hb => hstep u b (mem_cons_of_mem _ hb)) s'
    refine ⟨t, ?_⟩
    rw [foldlM_cons, ha]
    exact hrest

/-- A property kept by every successful step is kept by the whole loop. -/
theorem foldlM_induction (P : S → Prop) (hstep : ∀ s t, ∀ a ∈ items, P s → step s a = .ok t → P t)
    (hs : P s) (h : items.foldlM step s = .ok t) : P t := by
  induction items generalizing s with
  | nil =>
    cases h
    exact hs
  | cons a rest ih =>
    obtain ⟨s', ha, hrest⟩ := foldlM_cons_ok step h
    have hs' : P s' := hstep s s' a mem_cons_self hs ha
    exact ih (fun u v b hb => hstep u v b (mem_cons_of_mem _ hb)) hs' hrest

lemma mem_of_mapM_ok {B : Type*} {f : A → Except E B} {results : List B}
    (h : items.mapM f = .ok results) (b : B) : b ∈ results ↔ ∃ a ∈ items, f a = .ok b := by
  induction items generalizing results with
  | nil =>
    cases h
    simp
  | cons a rest ih =>
    rw [mapM_cons] at h
    cases ha : f a with
    | error e =>
      rw [ha] at h
      cases h
    | ok b' =>
      cases hrest : rest.mapM f with
      | error e =>
        rw [ha, hrest] at h
        cases h
      | ok bs =>
        rw [ha, hrest] at h
        cases h
        simp [ih hrest, ha, eq_comm]

/-- Two fallible loops whose steps agree along a map of states agree along it. -/
theorem foldlM_map_state {T : Type*} (step' : T → A → Except E T) (φ : S → T)
    (hstep : ∀ s a, step' (φ s) a = (step s a).map φ) (items : List A) (s : S) :
    items.foldlM step' (φ s) = (items.foldlM step s).map φ := by
  induction items generalizing s with
  | nil => rfl
  | cons a rest ih =>
    rw [foldlM_cons, foldlM_cons, hstep]
    cases step s a with
    | error e => rfl
    | ok s' => exact ih s'

/-- A loop none of whose items owns `k` leaves the view at `k` alone. -/
theorem foldlM_eq_of_no_footprint
    (hframe : ∀ s t a k, step s a = .ok t → ¬ owns a k → view t k = view s k)
    (h : items.foldlM step s = .ok t) (k : K)
    (hno : ∀ a ∈ items, ¬ owns a k) : view t k = view s k := by
  refine foldlM_induction step (fun u => view u k = view s k) (fun u v a ha hu hstep => ?_) rfl h
  exact (hframe u v a k hstep (hno a ha)).trans hu

/-- In a loop whose items own disjoint keys, the view at an owned key is the one left by the owner's
step, taken in a state that still shows the initial view there. -/
theorem foldlM_eq_of_footprint
    (hframe : ∀ s t a k, step s a = .ok t → ¬ owns a k → view t k = view s k)
    (hdisj : items.Pairwise fun a b => ∀ k, ¬ (owns a k ∧ owns b k))
    (h : items.foldlM step s = .ok t) (k : K) {a : A} (ha : a ∈ items) (hown : owns a k) :
    ∃ s' t', view s' k = view s k ∧ step s' a = .ok t' ∧ view t k = view t' k := by
  obtain ⟨before, after, rfl⟩ := append_of_mem ha
  obtain ⟨u, v, hbefore, hstep, hafter⟩ := foldlM_append_cons_ok step h
  obtain ⟨-, hlater, hearlier⟩ := pairwise_append.mp hdisj
  refine ⟨u, v, foldlM_eq_of_no_footprint step view owns hframe hbefore k ?_, hstep,
    foldlM_eq_of_no_footprint step view owns hframe hafter k ?_⟩
  · exact fun b hb hown' => hearlier b hb a mem_cons_self k ⟨hown', hown⟩
  · exact fun c hc hown' => (pairwise_cons.mp hlater).1 c hc k ⟨hown, hown'⟩

end

section Footprint

variable {S A K V : Type*} (step : S → A → S) (view : S → K → V) (owns : A → K → Prop)

/-- Pure form of `foldlM_eq_of_no_footprint`. -/
theorem foldl_eq_of_no_footprint (hframe : ∀ s a k, ¬ owns a k → view (step s a) k = view s k)
    (items : List A) (s : S) (k : K) (hno : ∀ a ∈ items, ¬ owns a k) :
    view (items.foldl step s) k = view s k :=
  foldlM_eq_of_no_footprint (E := Unit) (fun s a => .ok (step s a)) view owns
    (by rintro s _ a k ⟨⟩; exact hframe s a k) foldlM_pure k hno

/-- Pure form of `foldlM_eq_of_footprint`. -/
theorem foldl_eq_of_footprint (hframe : ∀ s a k, ¬ owns a k → view (step s a) k = view s k)
    (items : List A) (hdisj : items.Pairwise fun a b => ∀ k, ¬ (owns a k ∧ owns b k)) (s : S)
    (k : K) (a : A) (ha : a ∈ items) (hown : owns a k) :
    ∃ s', view s' k = view s k ∧ view (items.foldl step s) k = view (step s' a) k := by
  obtain ⟨s', _, hs', ⟨⟩, hview⟩ := foldlM_eq_of_footprint (E := Unit)
    (fun s a => .ok (step s a)) view owns (by rintro s _ a k ⟨⟩; exact hframe s a k) hdisj
    foldlM_pure k ha hown
  exact ⟨s', hs', hview⟩

end Footprint

/-! ## §3 Checks -/

section

universe u

variable {E A K : Type*}
variable {items : List A}

/-- Refuses with an error when a condition holds. -/
def rejectIf (p : Prop) [Decidable p] (error : E) : Except E Unit :=
  if p then .error error else .ok ()

@[simp] lemma rejectIf_ok {p : Prop} [Decidable p] {error : E} {u : Unit} :
    rejectIf p error = .ok u ↔ ¬ p := by
  unfold rejectIf
  split <;> simp_all

lemma bind_ok_iff {S T : Type u} {x : Except E S} {f : S → Except E T} {t : T} :
    (x >>= f) = .ok t ↔ ∃ s, x = .ok s ∧ f s = .ok t := by
  cases x with
  | error e =>
    constructor
    · intro h
      cases h
    · rintro ⟨s, hs, -⟩
      cases hs
  | ok s =>
    constructor
    · intro h
      exact ⟨s, rfl, h⟩
    · rintro ⟨s', hs, h⟩
      cases hs
      exact h

lemma bind_unit_ok_iff {S : Type} {x : Except E Unit} {f : Unit → Except E S} {s : S} :
    (x >>= f) = .ok s ↔ x = .ok () ∧ f () = .ok s := by
  rw [bind_ok_iff]
  exact ⟨fun ⟨_, hx, hf⟩ => ⟨hx, hf⟩, fun ⟨hx, hf⟩ => ⟨(), hx, hf⟩⟩

@[simp] lemma forM_ok_iff {check : A → Except E Unit} {u : Unit} :
    items.forM check = .ok u ↔ ∀ a ∈ items, check a = .ok () := by
  induction items with
  | nil => exact ⟨fun _ _ h => absurd h not_mem_nil, fun _ => rfl⟩
  | cons a rest ih =>
    change (check a >>= fun _ => rest.forM check) = .ok u ↔ _
    rw [bind_ok_iff, forall_mem_cons, ← ih]
    exact ⟨fun ⟨_, ha, hrest⟩ => ⟨ha, hrest⟩, fun ⟨ha, hrest⟩ => ⟨(), ha, hrest⟩⟩

lemma exists_of_mem_forall₂ {B : Type*} {R : A → B → Prop} {items' : List B}
    (h : List.Forall₂ R items items') {b : B} (hb : b ∈ items') : ∃ a ∈ items, R a b := by
  induction h with
  | nil => exact absurd hb not_mem_nil
  | cons hhead hrest ih =>
    rcases mem_cons.mp hb with rfl | hb
    · exact ⟨_, mem_cons_self, hhead⟩
    · obtain ⟨a, ha, hR⟩ := ih hb
      exact ⟨a, mem_cons_of_mem _ ha, hR⟩

lemma mapM_ok_iff {S : Type u} {f : A → Except E S} {results : List S} :
    items.mapM f = .ok results ↔ List.Forall₂ (fun a b => f a = .ok b) items results := by
  induction items generalizing results with
  | nil => simp [pure, Except.pure, eq_comm]
  | cons a rest ih =>
    simp only [mapM_cons, bind_ok_iff, ih, pure, Except.pure, Except.ok.injEq]
    constructor
    · rintro ⟨b, hb, bs, hbs, rfl⟩
      exact .cons hb hbs
    · rintro (_ | ⟨hb, hbs⟩)
      exact ⟨_, hb, _, hbs, rfl⟩

lemma exists_mapM_ok {S : Type u} {f : A → Except E S}
    (h : ∀ a ∈ items, ∃ b, f a = .ok b) : ∃ results, items.mapM f = .ok results := by
  induction items with
  | nil => exact ⟨[], rfl⟩
  | cons a rest ih =>
    obtain ⟨b, hb⟩ := h a mem_cons_self
    obtain ⟨bs, hbs⟩ := ih fun c hc => h c (mem_cons_of_mem _ hc)
    exact ⟨b :: bs, mapM_ok_iff.mpr (.cons hb (mapM_ok_iff.mp hbs))⟩

/-- A loop that collects the keys it has seen and refuses a repeated one passes when its items pass
and their keys are distinct. -/
theorem foldlM_fresh_iff {step : List K → A → Except E (List K)} {P : A → Prop} {key : A → K}
    (hstep : ∀ seen a seen', step seen a = .ok seen' ↔ P a ∧ key a ∉ seen ∧ seen' = key a :: seen)
    (items : List A) (seen : List K) :
    (∃ seen', items.foldlM step seen = .ok seen') ↔
      (∀ a ∈ items, P a) ∧ (items.map key).Nodup ∧ ∀ a ∈ items, key a ∉ seen := by
  induction items generalizing seen with
  | nil => simp [pure, Except.pure]
  | cons a rest ih =>
    have hsplit : (∃ seen', (a :: rest).foldlM step seen = .ok seen') ↔
        (P a ∧ key a ∉ seen) ∧ ∃ seen', rest.foldlM step (key a :: seen) = .ok seen' := by
      simp only [foldlM_cons, bind_ok_iff, hstep]
      constructor
      · rintro ⟨seen', _, ⟨hP, hfresh, rfl⟩, hrest⟩
        exact ⟨⟨hP, hfresh⟩, seen', hrest⟩
      · rintro ⟨⟨hP, hfresh⟩, seen', hrest⟩
        exact ⟨seen', _, ⟨hP, hfresh, rfl⟩, hrest⟩
    rw [hsplit, ih, map_cons, nodup_cons, forall_mem_cons, forall_mem_cons]
    constructor
    · rintro ⟨⟨hP, hfresh⟩, hrest, hnodup, hunseen⟩
      refine ⟨⟨hP, hrest⟩, ⟨?_, hnodup⟩, hfresh, fun b hb hseen => ?_⟩
      · rintro hmem
        obtain ⟨b, hb, hkey⟩ := mem_map.mp hmem
        exact hunseen b hb (hkey ▸ mem_cons_self)
      · exact hunseen b hb (mem_cons_of_mem _ hseen)
    · rintro ⟨⟨hP, hrest⟩, ⟨hhead, hnodup⟩, hfresh, hunseen⟩
      refine ⟨⟨hP, hfresh⟩, hrest, hnodup, fun b hb hseen => ?_⟩
      rcases mem_cons.mp hseen with hkey | hseen
      · exact hhead (hkey ▸ mem_map_of_mem hb)
      · exact hunseen b hb hseen

end

/-! ## §4 Two fallible loops side by side -/

section

universe u v

variable {E A : Type*} {S S' : Type u} {T T' : Type v}

/-- Two fallible results fail together or succeed with related values. -/
def Agree (R : S → T → Prop) : Except E S → Except E T → Prop
  | .ok s, .ok t => R s t
  | .error _, .error _ => True
  | _, _ => False

/-- Related results keep agreeing under steps that do. -/
theorem Agree.bind {R : S → T → Prop} {R' : S' → T' → Prop} {x : Except E S}
    {y : Except E T} {f : S → Except E S'} {g : T → Except E T'} (h : Agree R x y)
    (hstep : ∀ s t, R s t → Agree R' (f s) (g t)) : Agree R' (x >>= f) (y >>= g) := by
  cases x with
  | error e =>
    cases y with
    | error e' => trivial
    | ok t => exact h.elim
  | ok s =>
    cases y with
    | error e' => exact h.elim
    | ok t => exact hstep s t h

/-- Two loops whose steps agree on each item agree. -/
theorem Agree.foldlM {R : S → T → Prop} {f : S → A → Except E S} {g : T → A → Except E T}
    (hstep : ∀ s t a, R s t → Agree R (f s a) (g t a)) (items : List A) {s : S} {t : T}
    (h : R s t) : Agree R (items.foldlM f s) (items.foldlM g t) := by
  induction items generalizing s t with
  | nil => exact h
  | cons a rest ih =>
    rw [foldlM_cons, foldlM_cons]
    exact Agree.bind (hstep s t a h) fun s' t' h' => ih h'

end

/-! ## §5 Loops that log their failures -/

section

variable {S A E W : Type*}

/-- A fallible step that logs its failure and leaves the state. -/
def logged (step : S → A → Except E S) (log : A → E → W) (state : S × List W) (a : A) :
    S × List W :=
  match step state.1 a with
  | .ok s => (s, state.2)
  | .error e => (state.1, state.2 ++ [log a e])

variable {step : S → A → Except E S} {log : A → E → W}

/-- A loop with nothing in its log is the fallible loop, which succeeded. -/
theorem foldlM_ok_of_foldl_logged {items : List A} {state : S × List W}
    (h : (items.foldl (logged step log) state).2 = []) :
    state.2 = [] ∧ items.foldlM step state.1 = .ok (items.foldl (logged step log) state).1 := by
  induction items generalizing state with
  | nil => exact ⟨h, rfl⟩
  | cons a rest ih =>
    rw [foldl_cons] at h ⊢
    obtain ⟨hlog, hrest⟩ := ih h
    rw [foldlM_cons]
    cases hstep : step state.1 a with
    | error e => simp [logged, hstep] at hlog
    | ok s =>
      simp only [logged, hstep] at hlog hrest ⊢
      exact ⟨hlog, hrest⟩

/-- A property every successful step keeps holds after a logged loop, failures and all. -/
theorem foldl_logged_induction {P : S → Prop} {items : List A} {state : S × List W}
    (hstep : ∀ s t, ∀ a ∈ items, P s → step s a = .ok t → P t) (h : P state.1) :
    P (items.foldl (logged step log) state).1 := by
  induction items generalizing state with
  | nil => exact h
  | cons a rest ih =>
    rw [foldl_cons]
    apply ih (fun s t b hb => hstep s t b (mem_cons_of_mem _ hb))
    unfold logged
    cases hs : step state.1 a with
    | error e => exact h
    | ok s => exact hstep _ _ a mem_cons_self h hs

end

/-! ## §6 Keys ordered by a projection -/

lemma lawfulEqCmp_compareOn {α β : Type*} [Ord β] [Std.LawfulEqOrd β] (f : α → β)
    (hf : Function.Injective f) : Std.LawfulEqCmp (compareOn f) where
  compare_self := by
    intro a
    exact Std.ReflOrd.compare_self
  eq_of_compare h := hf (Std.LawfulEqOrd.eq_of_compare h)

end Kwiry.Foundations
