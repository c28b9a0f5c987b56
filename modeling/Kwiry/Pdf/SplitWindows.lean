import Kwiry.Foundations.Pieces
import Kwiry.Pdf.Split

/-!
# The Windows of a Content Stream

Where the windows end depends on their budget, and nothing else does: the operations that are too
large to decode, and where the stream ends or does not parse, are those of the operations one after
the other. The windows are the pieces of the sequence of operations.
-/

namespace Kwiry.Pdf.Split

open Foundations List

/-! ## §1 Operations one after the other -/

/-- One operation. -/
def OperationStep (s r : Bytes) : Prop := (operation s 0).1 = some r

/-- The operations of a stream from a position on: where each stops, whether it is too large, and
what is left after the last of them. -/
inductive Operations (total : ℕ) : Bytes → List (ℕ × Bool) → Bytes → Prop where
  | stuck {s : Bytes} (h : (operation s 0).1 = none) : Operations total s [] s
  | step {s r t : Bytes} {k : ℕ} {items : List (ℕ × Bool)} (h : operation s 0 = (some r, k))
      (hrest : Operations total r items t) :
      Operations total s ((total - r.length, decide (maxOperandsPerOperation < k)) :: items) t

lemma exists_operations (total : ℕ) (s : Bytes) : ∃ items t, Operations total s items t := by
  induction hlength : s.length using Nat.strong_induction_on generalizing s with
  | _ n ih =>
    subst hlength
    cases hread : operation s 0 with
    | mk left k =>
      cases left with
      | none => exact ⟨[], s, .stuck (by rw [hread])⟩
      | some r =>
        obtain ⟨items, t, hrest⟩ := ih r.length (operation_within hread).length_lt r rfl
        exact ⟨_, t, .step hread hrest⟩

namespace Operations

variable {total : ℕ} {s t : Bytes} {items : List (ℕ × Bool)}

section

variable (h : Operations total s items t)

include h

lemma rising (hs : s.length ≤ total) : Rising total (total - s.length) items := by
  induction h with
  | stuck => trivial
  | step hread _ ih =>
    have hlt := (operation_within hread).length_lt
    exact ⟨by omega, Nat.sub_le _ _, ih (by omega)⟩

lemma suffix : t <:+ s := by
  induction h with
  | stuck => exact suffix_refl _
  | step hread _ ih => exact ih.trans (operation_within hread).suffix

lemma reaches : Relation.ReflTransGen OperationStep s t := by
  induction h with
  | stuck => exact .refl
  | step hread _ ih => exact .head (by rw [OperationStep, hread]) ih

lemma stop_le {item : ℕ × Bool} (hmem : item ∈ items) : item.1 ≤ total - t.length := by
  induction h with
  | stuck => cases hmem
  | step hread hrest ih =>
    rcases mem_cons.mp hmem with rfl | hmem
    · have hle := hrest.suffix.length_le
      exact Nat.sub_le_sub_left hle _
    · exact ih hmem

/-- Operations stop where steps lead. -/
lemma exists_of_mem {item : ℕ × Bool} (hmem : item ∈ items) :
    ∃ r, Relation.ReflTransGen OperationStep s r ∧ item.1 = total - r.length := by
  induction h with
  | stuck => cases hmem
  | step hread _ ih =>
    have hstep : OperationStep _ _ := congrArg Prod.fst hread
    rcases mem_cons.mp hmem with rfl | hmem
    · exact ⟨_, .single hstep, rfl⟩
    · obtain ⟨r, hreach, hstop⟩ := ih hmem
      exact ⟨r, .head hstep hreach, hstop⟩

/-- Where no operation follows, the operations end. -/
lemma eq_of_reaches {r : Bytes} (hreach : Relation.ReflTransGen OperationStep s r)
    (hstuck : (operation r 0).1 = none) : r = t := by
  induction h with
  | stuck hread =>
    rcases hreach.cases_head with rfl | ⟨u, hstep, _⟩
    · rfl
    · exact absurd (hread.symm.trans hstep) (by simp)
  | step hread _ ih =>
    rcases hreach.cases_head with rfl | ⟨u, hstep, hreach⟩
    · rw [hread] at hstuck
      cases hstuck
    · have hsame : some _ = some u := (congrArg Prod.fst hread).symm.trans hstep
      cases hsame
      exact ih hreach

end

end Operations

/-! ## §2 Windows are pieces of operations -/

variable {first start stop : ℕ}

section Windows

variable {content : Bytes} {budget : ℕ}

lemma windowRound_again {s r : Bytes} (h : windowRound content start budget first s = .again r) :
    ∃ k, operation s 0 = (some r, k) := by
  unfold windowRound at h
  split at h
  · cases h
  · next t k hread =>
    simp only at h
    split at h
    · cases h
    · split at h
      · cases h
      · split at h
        · cases h
        · cases h
          exact ⟨k, hread⟩

lemma windowRound_lowers (content : Bytes) (start budget first : ℕ) :
    Lowers length (windowRound content start budget first) := by
  intro s r h
  obtain ⟨k, hread⟩ := windowRound_again h
  exact (operation_within hread).length_lt

lemma windowRound_progress {s : Bytes} {w : Window} (hs : s.length ≤ content.length - start)
    (hfirst : start < content.length → start ≤ first)
    (h : windowRound content start budget first s = .done w) (hstop : continuation w = some stop) :
    start < stop ∧ stop ≤ content.length := by
  unfold windowRound at h
  split at h
  · simp only [Round.done.injEq] at h
    subst h
    split at hstop <;> cases hstop
  · next r k hread =>
    have hlt := (operation_within hread).length_lt
    simp only at h
    split at h
    · simp only [Round.done.injEq] at h
      subst h
      split at hstop <;> cases hstop <;> omega
    · split at h
      · cases h
        cases hstop
      · split at h
        · cases h
          cases hstop
          omega
        · cases h

lemma window_progress (h : continuation (window content start budget) = some stop) :
    start < stop ∧ stop ≤ content.length := by
  have hlength : (contentSpace (content.drop start)).length ≤ content.length - start := by
    have hle := (contentSpace_suffix (content.drop start)).length_le
    rwa [length_drop] at hle
  refine run_induction (P := fun s => s.length ≤ content.length - start)
    (Q := fun w => ∀ stop, continuation w = some stop → start < stop ∧ stop ≤ content.length)
    (windowRound_lowers content start budget _) ?_ ?_ hlength stop h
  · intro s r hs hround
    obtain ⟨k, hread⟩ := windowRound_again hround
    exact Nat.le_trans (Nat.le_of_lt (operation_within hread).length_lt) hs
  · intro s w hs hround other hother
    exact windowRound_progress hs (by omega) hround hother

lemma windowsRound_lowers (content : Bytes) (budget : ℕ) :
    Lowers (fun state => content.length - state.1) (windowsRound content budget) := by
  intro state next h
  obtain ⟨start, found⟩ := state
  simp only [windowsRound] at h
  split at h
  · next stop hstop =>
    cases h
    have hprogress := window_progress hstop
    show content.length - stop < content.length - start
    omega
  · cases h

/-- The windows from an offset on. -/
def windowsFrom (content : Bytes) (budget start : ℕ) : List (ℕ × Window) :=
  run (fun state => content.length - state.1) (windowsRound content budget) (start, [])

lemma run_windowsRound (start : ℕ) (found : List (ℕ × Window)) :
    run (fun state => content.length - state.1) (windowsRound content budget) (start, found) =
      found ++ windowsFrom content budget start := by
  refine run_relation (R := fun state other => state.1 = other.1 ∧ state.2 = found ++ other.2)
    (Q := fun result other => result = found ++ other) (windowsRound_lowers content budget)
    (windowsRound_lowers content budget) ?_ ⟨rfl, (append_nil found).symm⟩
  intro state other hrel
  obtain ⟨start, before⟩ := state
  obtain ⟨_, after⟩ := other
  simp only at hrel
  obtain ⟨rfl, rfl⟩ := hrel
  simp only [windowsRound]
  split
  · exact .again ⟨rfl, append_assoc _ _ _⟩
  · exact .done (append_assoc _ _ _)

lemma windowsFrom_eq (start : ℕ) :
    windowsFrom content budget start = (start, window content start budget) ::
      match continuation (window content start budget) with
      | some stop => windowsFrom content budget stop
      | none => [] := by
  rw [windowsFrom, run_eq (windowsRound_lowers content budget)]
  simp only [windowsRound]
  cases hstop : continuation (window content start budget) with
  | none => rfl
  | some stop => exact run_windowsRound stop _

/-- How the last window ends, by what no operation could be read from. -/
def lastWindow (content t : Bytes) : Window :=
  if contentSpace (comments t) = [] then .finish content.length
  else .unparsable (content.length - t.length)

def pieceWindow (content t : Bytes) : ℕ × Piece → ℕ × Window
  | (start, .cut stop) => (start, .boundary stop)
  | (start, .alone stop) => (start, .oversize stop)
  | (start, .last) => (start, lastWindow content t)

lemma lastWindow_nil (content : Bytes) : lastWindow content [] = .finish content.length := rfl

lemma continuation_lastWindow (content t : Bytes) :
    continuation (lastWindow content t) = none := by
  unfold lastWindow
  split <;> rfl

/-- A window from between two operations begins with an operation. -/
theorem window_of_suffix {s : Bytes} (hs : s <:+ content) (hspace : contentSpace s = s) :
    window content (content.length - s.length) budget =
      run length (windowRound content (content.length - s.length) budget
        (content.length - s.length)) s := by
  have hdrop : content.drop (content.length - s.length) = s :=
    (suffix_iff_eq_drop.mp hs).symm
  simp only [window, hdrop, hspace]

/-- From inside a window on, the windows are the pieces of the operations that follow. -/
theorem windows_eq_pieces_from {s t : Bytes} {items : List (ℕ × Bool)}
    (h : Operations content.length s items t) (hs : s <:+ content) (hspace : contentSpace s = s)
    (start first : ℕ) {w : Window}
    (hw : run length (windowRound content start budget first) s = w) :
    ((start, w) :: match continuation w with
      | some stop => windowsFrom content budget stop
      | none => []) =
      (pieces content.length budget start first (content.length - s.length) items).map
        (pieceWindow content t) := by
  induction h generalizing start first w with
  | @stuck s hread =>
    have hlast : windowRound content start budget first s = .done (lastWindow content s) := by
      unfold windowRound
      rw [show operation s 0 = (none, (operation s 0).2) from Prod.ext hread rfl]
      rfl
    rw [run_done hlast] at hw
    subst hw
    simp [continuation_lastWindow, pieces, pieceWindow]
  | @step s r t k items hread hrest ih =>
    have hwithin := operation_within hread
    have hr : r <:+ content := hwithin.suffix.trans hs
    have hrspace := contentSpace_of_operation hread
    -- the windows after one that ends with this operation
    have hnext : windowsFrom content budget (content.length - r.length) =
        (pieces content.length budget (content.length - r.length) (content.length - r.length)
          (content.length - r.length) items).map (pieceWindow content t) := by
      rw [windowsFrom_eq, window_of_suffix hr hrspace]
      exact ih hr hrspace _ _ rfl
    rw [pieces]
    by_cases hlarge : maxOperandsPerOperation < k
    · by_cases hfirst : first < content.length - s.length
      · have hround : windowRound content start budget first s =
            .done (.boundary (content.length - s.length)) := by
          simp only [windowRound, hread, hlarge, hfirst, if_true]
        have halone : run length (windowRound content (content.length - s.length) budget
            (content.length - s.length)) s = .oversize (content.length - r.length) :=
          run_done (by simp only [windowRound, hread, hlarge, Nat.lt_irrefl, if_true, if_false])
        rw [run_done hround] at hw
        subst hw
        simp only [continuation, hlarge, decide_true, if_true, hfirst, map_cons, pieceWindow]
        rw [windowsFrom_eq, window_of_suffix hs hspace, halone]
        simp only [continuation, hnext]
      · have hround : windowRound content start budget first s =
            .done (.oversize (content.length - r.length)) := by
          simp only [windowRound, hread, hlarge, hfirst, if_true, if_false]
        rw [run_done hround] at hw
        subst hw
        simp only [continuation, hlarge, decide_true, if_true, hfirst, if_false, map_cons,
          pieceWindow, hnext]
    · simp only [hlarge, decide_false, Bool.false_eq_true, if_false]
      by_cases hend : content.length ≤ content.length - r.length
      · have hround : windowRound content start budget first s =
            .done (.finish content.length) := by
          simp only [windowRound, hread, hlarge, hend, if_true, if_false]
        have hnil : r = [] := by
          have hlt := hwithin.length_lt
          have hle := hs.length_le
          exact eq_nil_of_length_eq_zero (by omega)
        have ht : t = [] := suffix_nil.mp (hnil ▸ hrest.suffix)
        rw [run_done hround] at hw
        subst hw
        simp [hend, continuation, pieceWindow, ht, lastWindow_nil]
      · by_cases hbudget : budget ≤ content.length - r.length - start
        · have hround : windowRound content start budget first s =
              .done (.boundary (content.length - r.length)) := by
            simp only [windowRound, hread, hlarge, hend, hbudget, if_true, if_false]
          rw [run_done hround] at hw
          subst hw
          simp only [continuation, hend, hbudget, if_true, if_false, map_cons, pieceWindow, hnext]
        · have hround : windowRound content start budget first s = .again r := by
            simp only [windowRound, hread, hlarge, hend, hbudget, if_false]
          rw [run_again (windowRound_lowers content start budget first) hround] at hw
          simp only [hend, hbudget, if_false]
          exact ih hr hrspace start first hw

/-- The windows of a stream are the pieces of its operations. -/
theorem windows_eq_pieces (content : Bytes) (budget : ℕ) {items : List (ℕ × Bool)} {t : Bytes}
    (h : Operations content.length (contentSpace content) items t) :
    windows content budget =
      (pieces content.length budget 0 (content.length - (contentSpace content).length)
        (content.length - (contentSpace content).length) items).map (pieceWindow content t) := by
  show windowsFrom content budget 0 = _
  rw [windowsFrom_eq]
  exact windows_eq_pieces_from h (contentSpace_suffix content) (contentSpace_contentSpace content)
    0 _ rfl

end Windows

/-! ## §3 What does not depend on the budget -/

/-- Windows from an offset on, each where the one before it ended and further along than it started,
up to one that no other follows. One that finishes does so at the stream's end. -/
inductive Tiles (content : Bytes) : ℕ → List (ℕ × Window) → Prop where
  | last {start : ℕ} {w : Window} (hlast : continuation w = none) (hstart : start ≤ w.stop)
      (hstop : w.stop ≤ content.length)
      (hfinish : ∀ stop, w = .finish stop → stop = content.length) : Tiles content start [(start, w)]
  | next {start stop : ℕ} {w : Window} {rest : List (ℕ × Window)}
      (hnext : continuation w = some stop) (hlt : start < stop) (hrest : Tiles content stop rest) :
      Tiles content start ((start, w) :: rest)

/-- How the last window ends. -/
def outcome (found : List (ℕ × Window)) : Option Window :=
  found.getLast?.map Prod.snd

def oversizeSpan (entry : ℕ × Window) : Option (ℕ × ℕ) :=
  if entry.2.isOversize then some (entry.1, entry.2.stop) else none

/-- Where the operations that are not decoded begin and end. -/
def oversizeSpans (found : List (ℕ × Window)) : List (ℕ × ℕ) :=
  found.filterMap oversizeSpan

/-- Where a window ends and another starts. -/
def cutPoints (found : List (ℕ × Window)) : List ℕ :=
  found.filterMap fun entry => continuation entry.2

/-- An offset where an operation ends, of the operations from the first one on. -/
def OperationBoundary (content : Bytes) (offset : ℕ) : Prop :=
  ∃ r, Relation.ReflTransGen OperationStep (contentSpace content) r ∧
    offset = content.length - r.length

section Budget

variable {content t : Bytes} {budget : ℕ} {items : List (ℕ × Bool)}

lemma lastWindow_stop (content t : Bytes) :
    content.length - t.length ≤ (lastWindow content t).stop ∧
      (lastWindow content t).stop ≤ content.length := by
  unfold lastWindow
  split <;> simp [Window.stop]

lemma eq_length_of_lastWindow {stop : ℕ} (h : lastWindow content t = .finish stop) :
    stop = content.length := by
  unfold lastWindow at h
  split at h <;> cases h
  rfl

lemma aloneSpan_pieceWindow (p : ℕ × Piece) :
    oversizeSpan (pieceWindow content t p) = aloneSpan p := by
  obtain ⟨start, piece⟩ := p
  cases piece with
  | last =>
    simp only [pieceWindow, lastWindow, oversizeSpan, aloneSpan]
    split <;> rfl
  | cut => rfl
  | alone => rfl

/-- Every piece that is not the last one ends before what is left at the end. -/
theorem tiles_of_tiled {found : List (ℕ × Piece)} (h : Tiled start found)
    (hstart : start ≤ content.length - t.length)
    (hstop : ∀ p ∈ found, ∀ stop, p.2 = .cut stop ∨ p.2 = .alone stop →
      stop ≤ content.length - t.length) :
    Tiles content start (found.map (pieceWindow content t)) := by
  induction h with
  | last start =>
    have hlast := lastWindow_stop content t
    exact .last (continuation_lastWindow content t) (by omega) hlast.2
      fun _ => eq_length_of_lastWindow
  | @cut start stop rest hlt hrest ih =>
    have hle := hstop _ mem_cons_self stop (.inl rfl)
    exact .next rfl hlt (ih hle fun p hp => hstop p (mem_cons_of_mem _ hp))
  | @alone start stop rest hlt hrest ih =>
    have hle := hstop _ mem_cons_self stop (.inr rfl)
    exact .next rfl hlt (ih hle fun p hp => hstop p (mem_cons_of_mem _ hp))

lemma outcome_of_tiled {found : List (ℕ × Piece)} (h : Tiled start found) :
    outcome (found.map (pieceWindow content t)) = some (lastWindow content t) := by
  induction h with
  | last => rfl
  | @cut start stop rest hlt hrest ih | @alone start stop rest hlt hrest ih =>
    cases hrest <;> simpa [outcome, getLast?_cons_cons] using ih

lemma windows_tiles (content : Bytes) (budget : ℕ) :
    Tiles content 0 (windows content budget) := by
  obtain ⟨items, t, hops⟩ := exists_operations content.length (contentSpace content)
  have hle := (contentSpace_suffix content).length_le
  have hend := hops.suffix.length_le
  rw [windows_eq_pieces content budget hops]
  refine tiles_of_tiled (pieces_tiled (hops.rising hle) (Nat.zero_le _) (Nat.le_refl _))
    (Nat.zero_le _) ?_
  intro p hp stop hstop
  rcases mem_stops_of_cut hp hstop with ⟨hlt, _⟩ | ⟨large, hitem⟩
  · exact absurd hlt (Nat.lt_irrefl _)
  · exact hops.stop_le hitem

/-- Where the windows end is where no operation follows. -/
lemma outcome_windows (budget : ℕ)
    (hops : Operations content.length (contentSpace content) items t) :
    outcome (windows content budget) = some (lastWindow content t) := by
  have hle := (contentSpace_suffix content).length_le
  rw [windows_eq_pieces content budget hops]
  exact outcome_of_tiled (pieces_tiled (hops.rising hle) (Nat.zero_le _) (Nat.le_refl _))

lemma oversizeSpans_windows (budget : ℕ)
    (hops : Operations content.length (contentSpace content) items t) :
    oversizeSpans (windows content budget) = spansFrom 0 items := by
  have hle := (contentSpace_suffix content).length_le
  rw [windows_eq_pieces content budget hops, oversizeSpans, filterMap_map]
  have hspan : oversizeSpan ∘ pieceWindow content t = aloneSpan :=
    funext aloneSpan_pieceWindow
  rw [hspan, alone_pieces (hops.rising hle) (Nat.le_refl _), origin, if_neg (Nat.lt_irrefl _)]

lemma operationBoundary_of_cut {cut : ℕ} (hcut : cut ∈ cutPoints (windows content budget)) :
    OperationBoundary content cut := by
  obtain ⟨items, t, hops⟩ := exists_operations content.length (contentSpace content)
  rw [windows_eq_pieces content budget hops, cutPoints, filterMap_map, mem_filterMap] at hcut
  obtain ⟨p, hp, hcut⟩ := hcut
  have hstop : p.2 = .cut cut ∨ p.2 = .alone cut := by
    obtain ⟨start, piece⟩ := p
    cases piece with
    | cut stop => exact .inl (by simpa [pieceWindow, continuation] using hcut)
    | alone stop => exact .inr (by simpa [pieceWindow, continuation] using hcut)
    | last => simp [pieceWindow, continuation_lastWindow] at hcut
  rcases mem_stops_of_cut hp hstop with ⟨hlt, _⟩ | ⟨large, hitem⟩
  · exact absurd hlt (Nat.lt_irrefl _)
  · exact hops.exists_of_mem hitem

lemma le_stop_window (s : Bytes) :
    content.length - s.length ≤
      (run length (windowRound content start budget first) s).stop := by
  refine run_induction (P := fun r => r.length ≤ s.length)
    (Q := fun w => content.length - s.length ≤ w.stop)
    (windowRound_lowers content start budget first) ?_ ?_ (Nat.le_refl _)
  · intro r next hr hround
    obtain ⟨k, hread⟩ := windowRound_again hround
    exact Nat.le_trans (Nat.le_of_lt (operation_within hread).length_lt) hr
  · intro r w hr hround
    unfold windowRound at hround
    split at hround
    · simp only [Round.done.injEq] at hround
      subst hround
      split <;> simp only [Window.stop] <;> omega
    · next next k hread =>
      have hlt := (operation_within hread).length_lt
      simp only at hround
      split at hround
      · simp only [Round.done.injEq] at hround
        subst hround
        split <;> simp only [Window.stop] <;> omega
      · split at hround
        · cases hround
          exact Nat.sub_le _ _
        · split at hround <;> cases hround
          simp only [Window.stop]
          omega

/-- From one start, the window of the smaller budget ends no later. -/
theorem stop_window_mono {b₁ b₂ : ℕ} (hle : b₁ ≤ b₂) (start first : ℕ) (s : Bytes) :
    (run length (windowRound content start b₁ first) s).stop ≤
      (run length (windowRound content start b₂ first) s).stop := by
  induction hlength : s.length using Nat.strong_induction_on generalizing s with
  | _ n ih =>
    subst hlength
    rw [run_eq (windowRound_lowers content start b₁ first),
      run_eq (windowRound_lowers content start b₂ first)]
    simp only [windowRound]
    cases hread : operation s 0 with
    | mk left k =>
      cases left with
      | none => exact Nat.le_refl _
      | some r =>
        simp only
        by_cases hlarge : maxOperandsPerOperation < k
        · simp only [hlarge, if_true]
          exact Nat.le_refl _
        · by_cases hend : content.length ≤ content.length - r.length
          · simp only [hlarge, hend, if_true, if_false]
            exact Nat.le_refl _
          · simp only [hlarge, hend, if_false]
            by_cases hsecond : b₂ ≤ content.length - r.length - start
            · simp only [hsecond, hle.trans hsecond, if_true]
              exact Nat.le_refl _
            · by_cases hfirst : b₁ ≤ content.length - r.length - start
              · simp only [hsecond, hfirst, if_true, if_false]
                exact le_stop_window r
              · simp only [hsecond, hfirst, if_false]
                exact ih r.length (operation_within hread).length_lt r rfl

/-- Whatever the budget, the windows follow each other through the stream, end alike, leave the same
operations undecoded and are cut between operations. From one start, the smaller budget ends the
window no later. -/
theorem windows_budget (content : Bytes) (b₁ b₂ : ℕ) :
    Tiles content 0 (windows content b₁) ∧
      outcome (windows content b₁) = outcome (windows content b₂) ∧
      oversizeSpans (windows content b₁) = oversizeSpans (windows content b₂) ∧
      (∀ cut ∈ cutPoints (windows content b₁), OperationBoundary content cut) ∧
      (b₁ ≤ b₂ → ∀ start, (window content start b₁).stop ≤ (window content start b₂).stop) := by
  obtain ⟨items, t, hops⟩ := exists_operations content.length (contentSpace content)
  refine ⟨windows_tiles content b₁, ?_, ?_, fun cut => operationBoundary_of_cut, ?_⟩
  · rw [outcome_windows b₁ hops, outcome_windows b₂ hops]
  · rw [oversizeSpans_windows b₁ hops, oversizeSpans_windows b₂ hops]
  · exact fun hle start => stop_window_mono hle start _ _

/-- Six operations of two bytes each. -/
def sixOperations : Bytes := ascii "q q q q q q "

/-- The cut points of the larger budget are not among those of the smaller one. -/
theorem cutPoints_not_nested :
    ¬ ∀ cut ∈ cutPoints (windows sixOperations 5), cut ∈ cutPoints (windows sixOperations 3) := by
  decide +kernel

theorem windows_budget_sixOperations :
    (window sixOperations 0 3).stop ≤ (window sixOperations 0 5).stop :=
  (windows_budget sixOperations 3 5).2.2.2.2 (by decide) 0

end Budget

end Kwiry.Pdf.Split
