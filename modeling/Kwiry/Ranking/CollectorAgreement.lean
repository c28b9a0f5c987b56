import Mathlib.Data.List.Dedup
import Kwiry.Ranking.Collectors

/-!
# Agreement of the Lane Collectors

The native candidates are the plugin's parallel arrays read side by side. One row keeps that
correspondence, so a lane does; the lanes keep it because a full window ends the native loop where
it makes the plugin skip what is left. The ranking then sees the same candidates, under another
scope and in another order, neither of which it depends on.
-/

namespace Kwiry

open Foundations List

/-! ## §1 Lists with distinct keys -/

section

variable {α β K : Type} [DecidableEq K] {key : α → K}

/-- To change the item of a key is to change the item at its position. -/
theorem map_ite_key_eq_modify {items : List α} (hnodup : (items.map key).Nodup) {i : ℕ} {item : α}
    (hi : items[i]? = some item) (f : α → α) :
    (items.map fun a => if key a = key item then f a else a) = items.modify i f := by
  refine ext_getElem? fun j => ?_
  rw [getElem?_map, getElem?_modify]
  cases hj : items[j]? with
  | none => simp
  | some a =>
    have hkey : key a = key item ↔ i = j := by
      constructor
      · intro heq
        have hi' : (items.map key)[i]? = some (key item) := by rw [List.getElem?_map, hi]; rfl
        have hj' : (items.map key)[j]? = some (key a) := by rw [List.getElem?_map, hj]; rfl
        have hlt : i < (items.map key).length := (List.getElem?_eq_some_iff.mp hi').1
        exact (getElem?_inj hlt hnodup).mp (by rw [hi', hj', heq])
      · rintro rfl
        rw [hi] at hj
        rw [Option.some.inj hj]
    simp [hkey]

lemma zip_modify_right (as : List α) (bs : List β) (i : ℕ) (f : β → β) :
    as.zip (bs.modify i f) = (as.zip bs).modify i (Prod.map id f) := by
  refine ext_getElem? fun j => ?_
  simp only [zip, getElem?_zipWith, getElem?_modify]
  cases as[j]? with
  | none => simp
  | some a =>
    cases bs[j]? with
    | none => simp
    | some b =>
      by_cases hij : i = j <;> simp [hij]

lemma separated_inj {c : α} {s s' t t' : List α} (hs : c ∉ s) (hs' : c ∉ s')
    (h : s ++ c :: t = s' ++ c :: t') : s = s' ∧ t = t' := by
  induction s generalizing s' with
  | nil =>
    cases s' with
    | nil => exact ⟨rfl, (cons.inj h).2⟩
    | cons a rest =>
      have heq : c = a := (cons.inj h).1
      exact absurd (heq ▸ mem_cons_self) hs'
  | cons a rest ih =>
    cases s' with
    | nil =>
      have heq : a = c := (cons.inj h).1
      exact absurd (heq ▸ mem_cons_self) hs
    | cons b rest' =>
      obtain ⟨rfl, htail⟩ := cons.inj h
      obtain ⟨hrest, ht⟩ := ih (fun hmem => hs (mem_cons_of_mem _ hmem))
        (fun hmem => hs' (mem_cons_of_mem _ hmem)) htail
      exact ⟨by rw [hrest], ht⟩

end

variable {P : Type}

lemma SearchRow.identityText_inj {row row' : SearchRow P}
    (h : row.identityText = row'.identityText) : row.identity = row'.identity := by
  simp only [identityText, append_assoc, cons_append] at h
  obtain ⟨hkey, hrest⟩ := separated_inj row.keysNoNul.1 row'.keysNoNul.1 h
  obtain ⟨hchunk, hpath⟩ := separated_inj row.keysNoNul.2 row'.keysNoNul.2 hrest
  unfold identity
  rw [hkey, hchunk, hpath]

lemma SearchRow.identityText_eq_iff {row row' : SearchRow P} :
    row.identityText = row'.identityText ↔ row.identity = row'.identity := by
  refine ⟨identityText_inj, fun h => ?_⟩
  simp only [identity, Prod.mk.injEq] at h
  obtain ⟨hkey, hchunk, hpath⟩ := h
  rw [identityText, identityText, hkey, hchunk, hpath]

/-! ## §2 The correspondence -/

variable {entry entry' : SearchRow P × List LexicalV2Proof}

section Collection

variable {scope : Text} {rows : CollectorLane → List (SearchRow P)}

/-- A hit of the plugin as the native engine holds it. -/
def nativeHit (scope : Text) (entry : SearchRow P × List LexicalV2Proof) : NativeLexicalV2Hit P :=
  ⟨⟨scope, entry.1.sourceKey⟩, entry.1, entry.2⟩

def ReadyState.entries (state : ReadyState P) : List (SearchRow P × List LexicalV2Proof) :=
  state.hits.zip state.proofs

/-- The arrays are parallel, and the map knows the position of every hit. -/
structure ReadyState.Indexed (state : ReadyState P) : Prop where
  parallel : state.proofs.length = state.hits.length
  positions : state.candidateByIdentity = state.hits.zipIdx.map fun e => (e.1.identityText, e.2)
  nodup : (state.hits.map SearchRow.identity).Nodup
  bounded : state.hits.length ≤ maxTotalCandidates

lemma ReadyState.Indexed.initial : (ReadyState.initial : ReadyState P).Indexed :=
  ⟨rfl, rfl, nodup_nil, Nat.zero_le _⟩

lemma nativeHit_identity_eq_iff :
    (nativeHit scope entry).identity = (nativeHit scope entry').identity ↔
      entry.1.identity = entry'.1.identity := by
  simp [nativeHit, NativeLexicalV2Hit.identity, SearchRow.identity]

section Row

variable {state : ReadyState P} {lane : CollectorLane} {row : SearchRow P} {engineOrdinal : ℕ}

lemma ReadyState.Indexed.fst_entries (h : state.Indexed) : state.entries.map Prod.fst = state.hits :=
  map_fst_zip h.parallel.ge

lemma ReadyState.Indexed.length_entries (h : state.Indexed) :
    state.entries.length = state.hits.length := by
  rw [← h.fst_entries, length_map]

/-- What the map answers: the position of the hit with the identity, if there is one. -/
theorem ReadyState.Indexed.find?_position (h : state.Indexed) (row : SearchRow P) :
    (∃ text known hit, state.candidateByIdentity.find? (·.1 = row.identityText) =
        some (text, known) ∧ state.hits[known]? = some hit ∧ hit.identity = row.identity) ∨
      state.candidateByIdentity.find? (·.1 = row.identityText) = none ∧
        row.identity ∉ state.hits.map SearchRow.identity := by
  cases hfind : state.candidateByIdentity.find? (·.1 = row.identityText) with
  | some found =>
    have htext := find?_some hfind
    have hmem := mem_of_find?_eq_some hfind
    rw [h.positions, mem_map] at hmem
    obtain ⟨⟨hit, known⟩, hhit, rfl⟩ := hmem
    refine .inl ⟨_, known, hit, rfl, mk_mem_zipIdx_iff_getElem?.mp hhit, ?_⟩
    exact SearchRow.identityText_inj (by simpa using htext)
  | none =>
    refine .inr ⟨rfl, fun hmem => ?_⟩
    obtain ⟨hit, hhit, hidentity⟩ := mem_map.mp hmem
    obtain ⟨known, hknown⟩ := mem_iff_getElem?.mp hhit
    have hentry : (hit.identityText, known) ∈ state.candidateByIdentity := by
      rw [h.positions]
      exact mem_map.mpr ⟨(hit, known), mk_mem_zipIdx_iff_getElem?.mpr hknown, rfl⟩
    have hnone := find?_eq_none.mp hfind _ hentry
    exact hnone (by simpa using SearchRow.identityText_eq_iff.mpr hidentity)

/-- A hit that is known gets another proof. -/
theorem ReadyState.Indexed.known (h : state.Indexed) {known : ℕ} {hit : SearchRow P}
    (hhit : state.hits[known]? = some hit) (hidentity : hit.identity = row.identity)
    (proof : LexicalV2Proof) :
    collectHit (state.entries.map (nativeHit scope)) (nativeHit scope (row, [proof])) =
      (state.hits.zip (state.proofs.modify known (pushProof · proof))).map (nativeHit scope) := by
  obtain ⟨proofs, hproofs⟩ : ∃ proofs, state.proofs[known]? = some proofs := by
    have hlt : known < state.proofs.length :=
      h.parallel ▸ (List.getElem?_eq_some_iff.mp hhit).1
    exact ⟨_, getElem?_eq_getElem hlt⟩
  have hentry : state.entries[known]? = some (hit, proofs) := by
    rw [entries, zip, getElem?_zipWith, hhit, hproofs]
  have hmem : (nativeHit scope (row, [proof])).identity ∈
      (state.entries.map (nativeHit scope)).map NativeLexicalV2Hit.identity := by
    rw [map_map]
    exact mem_map.mpr ⟨(hit, proofs), mem_of_getElem? hentry,
      nativeHit_identity_eq_iff.mpr hidentity⟩
  have hnodup : (state.entries.map fun entry => entry.1.identity).Nodup := by
    have hnodup := h.nodup
    rwa [← h.fst_entries, map_map] at hnodup
  rw [collectHit, if_pos hmem, zip_modify_right, ← entries,
    ← map_ite_key_eq_modify hnodup hentry, map_map, map_map]
  refine map_congr_left fun entry _ => ?_
  have hsame : (nativeHit scope entry).identity = (nativeHit scope (row, [proof])).identity ↔
      entry.1.identity = hit.identity := by
    rw [nativeHit_identity_eq_iff, hidentity]
  by_cases heq : entry.1.identity = hit.identity
  · simp only [Function.comp, if_pos heq, if_pos (hsame.mpr heq)]
    rfl
  · simp only [Function.comp, if_neg heq, if_neg (mt hsame.mp heq)]

/-- One row is collected alike, and keeps the arrays parallel. -/
theorem ReadyState.Indexed.readyRow (scope : Text) (lane : CollectorLane) (row : SearchRow P)
    (h : state.Indexed) (horder : engineOrdinal < 65536) :
    (Kwiry.readyRow lane state (row, engineOrdinal)).Indexed ∧
      collectHit (state.entries.map (nativeHit scope))
          ⟨⟨scope, row.sourceKey⟩, row, [lane.proof row (engineOrdinal % 65536)]⟩ =
        (Kwiry.readyRow lane state (row, engineOrdinal)).entries.map (nativeHit scope) := by
  rw [Nat.mod_eq_of_lt horder]
  rcases h.find?_position row with ⟨text, known, hit, hfind, hhit, hidentity⟩ | ⟨hfind, hfresh⟩
  · simp only [Kwiry.readyRow, hfind]
    exact ⟨⟨by simpa using h.parallel, h.positions, h.nodup, h.bounded⟩, h.known hhit hidentity _⟩
  · have hnew : (nativeHit scope (row, [lane.proof row engineOrdinal])).identity ∉
        (state.entries.map (nativeHit scope)).map NativeLexicalV2Hit.identity := by
      rw [map_map, mem_map]
      rintro ⟨entry, hentry, heq⟩
      refine hfresh ?_
      rw [← h.fst_entries, map_map]
      exact mem_map.mpr ⟨entry, hentry, nativeHit_identity_eq_iff.mp heq⟩
    simp only [Kwiry.readyRow, hfind]
    rw [collectHit]
    erw [if_neg hnew]
    rw [length_map, h.length_entries]
    by_cases hfull : state.hits.length = maxTotalCandidates
    · rw [if_pos hfull, if_neg (by omega)]
      exact ⟨h, rfl⟩
    · have hroom : state.hits.length < maxTotalCandidates := lt_of_le_of_ne h.bounded hfull
      rw [if_neg hfull, if_pos hroom]
      have hbounded : (state.hits ++ [row]).length ≤ maxTotalCandidates := by
        simpa using Nat.succ_le_of_lt hroom
      refine ⟨⟨by simp [h.parallel], ?_, ?_, hbounded⟩, ?_⟩
      · have hkey : row.identityText ∉ mapKeys state.candidateByIdentity := by
          intro hmem
          obtain ⟨position, hposition⟩ := mem_mapKeys.mp hmem
          exact find?_eq_none.mp hfind _ hposition (by simp)
        simp only [mapSet, if_neg hkey]
        rw [zipIdx_append, map_append, h.positions]
        simp
      · simp only [map_append, map_cons, map_nil]
        exact nodup_append.mpr ⟨h.nodup, nodup_singleton _, by
          rintro a ha b hb rfl
          exact hfresh (mem_singleton.mp hb ▸ ha)⟩
      · simp only [entries]
        rw [zip_append h.parallel.symm, map_append]
        rfl

end Row

/-! ## §3 Lanes -/

section

variable {state : ReadyState P} {lane : CollectorLane}

/-- The native engine takes the rows of a lane in the order they are given in. -/
def SameOrder (scope : Text) (lane : CollectorLane) (rows : List (SearchRow P)) : Prop :=
  mergeBoundedLexicalV2Hits [] (collectStableLexicalV2Hits scope lane rows) lane.maxCandidates =
    collectStableLexicalV2Hits scope lane rows

lemma retainFirst_eq_self {α K : Type} [DecidableEq K] {key : α → K} {items : List α}
    {seen : List K} (hnodup : (items.map key).Nodup) (hfresh : ∀ a ∈ items, key a ∉ seen) :
    retainFirst key seen items = items := by
  induction items generalizing seen with
  | nil => rfl
  | cons a rest ih =>
    rw [map_cons, nodup_cons] at hnodup
    rw [retainFirst, if_neg (hfresh a mem_cons_self), ih hnodup.2]
    intro b hb hmem
    rcases mem_cons.mp hmem with heq | hseen
    · exact hnodup.1 (heq ▸ mem_map_of_mem hb)
    · exact hfresh b (mem_cons_of_mem _ hb) hseen

/-- A row touches neither the latch nor what the lanes have noted of themselves. -/
theorem readyRow_notes (state : ReadyState P) (lane : CollectorLane) (entry : SearchRow P × ℕ) :
    (readyRow lane state entry).fallbackEnabled = state.fallbackEnabled ∧
      (readyRow lane state entry).anyLaneSaturated = state.anyLaneSaturated ∧
      (readyRow lane state entry).executed = state.executed := by
  obtain ⟨row, engineOrdinal⟩ := entry
  cases hfind : state.candidateByIdentity.find? (·.1 = row.identityText) with
  | some known => simp only [readyRow, hfind, and_self]
  | none =>
    simp only [readyRow, hfind]
    split <;> exact ⟨rfl, rfl, rfl⟩

lemma readyExecute_notes (rows : CollectorLane → List (SearchRow P)) (state : ReadyState P)
    (lane : CollectorLane) :
    (readyExecute rows lane state).fallbackEnabled = state.fallbackEnabled ∧
      (readyExecute rows lane state).anyLaneSaturated =
        (state.anyLaneSaturated || decide ((rows lane).length = lane.maxCandidates)) ∧
      (readyExecute rows lane state).executed = state.executed ++ [lane] := by
  unfold readyExecute
  refine foldl_induction (P := fun s : ReadyState P => s.fallbackEnabled = state.fallbackEnabled ∧
    s.anyLaneSaturated =
      (state.anyLaneSaturated || decide ((rows lane).length = lane.maxCandidates)) ∧
    s.executed = state.executed ++ [lane]) (fun s entry hs => ?_) _ ⟨rfl, rfl, rfl⟩
  obtain ⟨hlatch, hsaturated, hexecuted⟩ := readyRow_notes s lane entry
  exact ⟨hlatch.trans hs.1, hsaturated.trans hs.2.1, hexecuted.trans hs.2.2⟩

/-- A lane is collected alike. -/
theorem ReadyState.Indexed.readyExecute (h : state.Indexed)
    (horder : SameOrder scope lane (rows lane)) :
    (Kwiry.readyExecute rows lane state).Indexed ∧
      collectLane scope rows lane (state.entries.map (nativeHit scope)) =
        (Kwiry.readyExecute rows lane state).entries.map (nativeHit scope) := by
  have hcount : (rows lane).length < 65536 := by
    have hlength := congrArg length horder
    simp only [mergeBoundedLexicalV2Hits, length_take, collectStableLexicalV2Hits,
      length_map, length_zipIdx] at hlength
    have hbound := lane.bounded.2
    unfold maxTotalCandidates at hbound
    omega
  have hordinals : ∀ entry ∈ (rows lane).zipIdx, entry.2 < 65536 := by
    intro entry hentry
    exact (snd_lt_of_mem_zipIdx hentry).trans hcount
  rw [collectLane, horder, collectStableLexicalV2Hits, foldl_map, Kwiry.readyExecute]
  -- what the lane notes of itself is not part of the correspondence
  have hstart : ∀ start : ReadyState P, start.Indexed →
      ((rows lane).zipIdx.foldl (Kwiry.readyRow lane) start).Indexed ∧
        (rows lane).zipIdx.foldl (fun candidates entry => collectHit candidates
            ⟨⟨scope, entry.1.sourceKey⟩, entry.1, [lane.proof entry.1 (entry.2 % 65536)]⟩)
            (start.entries.map (nativeHit scope)) =
          ((rows lane).zipIdx.foldl (Kwiry.readyRow lane) start).entries.map (nativeHit scope) := by
    generalize (rows lane).zipIdx = entries at hordinals
    induction entries with
    | nil => exact fun start hstart => ⟨hstart, rfl⟩
    | cons entry rest ih =>
      intro start hstart
      obtain ⟨hindexed, hcollect⟩ := hstart.readyRow scope lane entry.1
        (hordinals entry mem_cons_self)
      rw [foldl_cons, foldl_cons, hcollect]
      exact ih (fun e he => hordinals e (mem_cons_of_mem _ he)) _ hindexed
  exact hstart _ ⟨h.parallel, h.positions, h.nodup, h.bounded⟩

lemma ReadyState.Indexed.needsFallback (h : state.Indexed) :
    Kwiry.needsFallback (state.entries.map (nativeHit scope)) =
      decide ((state.hits.map (·.sourceKey)).dedup.length < minStandardSources) := by
  have hsources : (state.entries.map (nativeHit scope)).map NativeLexicalV2Hit.source =
      (state.hits.map (·.sourceKey)).map (QualifiedSourceId.mk scope) := by
    rw [← h.fst_entries]
    simp only [map_map]
    rfl
  have hinj : Function.Injective (QualifiedSourceId.mk scope) := fun _ _ heq =>
    (QualifiedSourceId.mk.inj heq).2
  rw [Kwiry.needsFallback, hsources, dedup_map_of_injective hinj, length_map]

/-- Whether conditional lanes run: as it was decided, else by the sources found so far. -/
def ReadyState.enabled (state : ReadyState P) : Bool :=
  state.fallbackEnabled.getD
    (decide ((state.hits.map (·.sourceKey)).dedup.length < minStandardSources))

def ReadyState.latch (state : ReadyState P) : ReadyState P :=
  { state with fallbackEnabled := some state.enabled }

lemma readyLane_eq (state : ReadyState P) (lane : CollectorLane) :
    readyLane rows state lane =
      if lane.conditional = true then
        if state.enabled = false ∨ state.hits.length = maxTotalCandidates then state.latch
        else readyExecute rows lane state.latch
      else if state.hits.length = maxTotalCandidates then state
      else readyExecute rows lane state := by
  cases hconditional : lane.conditional with
  | false => simp [readyLane, hconditional]
  | true =>
    have hlatch : readyLane rows state lane =
        if some state.enabled = some false then state.latch
        else if state.hits.length = maxTotalCandidates then state.latch
        else readyExecute rows lane state.latch := by
      simp only [readyLane, hconditional, if_true, true_and]
      rfl
    rw [hlatch, if_pos rfl, ite_or]
    simp only [Option.some.injEq]

/-- What a lane can do to the arrays: nothing, or what its execution does. -/
theorem readyLane_full (rows : CollectorLane → List (SearchRow P)) (lane : CollectorLane)
    (hfull : state.hits.length = maxTotalCandidates) :
    (readyLane rows state lane).hits = state.hits ∧
      (readyLane rows state lane).proofs = state.proofs ∧
      (readyLane rows state lane).candidateByIdentity = state.candidateByIdentity := by
  rw [readyLane_eq, if_pos (Or.inr hfull), if_pos hfull]
  split <;> exact ⟨rfl, rfl, rfl⟩

/-- At a full window the lanes that are left change nothing. -/
theorem readyLanes_full (rows : CollectorLane → List (SearchRow P)) (h : state.Indexed)
    (hfull : state.hits.length = maxTotalCandidates) (lanes : List CollectorLane) :
    (lanes.foldl (readyLane rows) state).Indexed ∧
      (lanes.foldl (readyLane rows) state).entries = state.entries := by
  refine foldl_induction (P := fun s : ReadyState P => s.Indexed ∧ s.entries = state.entries)
    (fun s lane hs => ?_) lanes ⟨h, rfl⟩
  obtain ⟨hindexed, hentries⟩ := hs
  have hlength : s.hits.length = maxTotalCandidates := by
    rw [← hindexed.length_entries, hentries, h.length_entries, hfull]
  obtain ⟨hhits, hproofs, hpositions⟩ := readyLane_full rows lane hlength
  refine ⟨⟨by rw [hhits, hproofs, hindexed.parallel], by rw [hpositions, hhits, hindexed.positions],
    by rw [hhits]; exact hindexed.nodup, by rw [hhits]; exact hindexed.bounded⟩, ?_⟩
  rw [ReadyState.entries, hhits, hproofs]
  exact hentries

/-- **The lanes are collected alike**: the native loop that stops at a full window and the plugin's
loop that skips find the same candidates with the same proofs, in the same order. -/
theorem collectLanes_readyLanes {lanes : List CollectorLane} (h : state.Indexed)
    (horder : ∀ lane ∈ lanes, SameOrder scope lane (rows lane)) :
    (lanes.foldl (readyLane rows) state).Indexed ∧
      collectLanes scope rows lanes state.fallbackEnabled (state.entries.map (nativeHit scope)) =
        (lanes.foldl (readyLane rows) state).entries.map (nativeHit scope) := by
  induction lanes generalizing state with
  | nil => exact ⟨h, rfl⟩
  | cons lane rest ih =>
    have hrest := fun l hl => horder l (mem_cons_of_mem lane hl)
    have hlane := horder lane mem_cons_self
    have hlength : (state.entries.map (nativeHit scope)).length = state.hits.length := by
      rw [length_map, h.length_entries]
    rw [collectLanes, hlength]
    by_cases hfull : state.hits.length = maxTotalCandidates
    · obtain ⟨hindexed, hentries⟩ := readyLanes_full rows h hfull (lane :: rest)
      rw [if_pos hfull.ge, hentries]
      exact ⟨hindexed, rfl⟩
    · have hroom : ¬ maxTotalCandidates ≤ state.hits.length := fun hle =>
        hfull (h.bounded.antisymm hle)
      rw [if_neg hroom, foldl_cons]
      cases hconditional : lane.conditional with
      | false =>
        have hstep : readyLane rows state lane = readyExecute rows lane state := by
          rw [readyLane_eq, hconditional, if_neg Bool.false_ne_true, if_neg hfull]
        obtain ⟨hindexed, hcollect⟩ := h.readyExecute hlane
        have hlatch : (readyExecute rows lane state).fallbackEnabled = state.fallbackEnabled :=
          (readyExecute_notes rows state lane).1
        rw [hstep, if_neg Bool.false_ne_true, hcollect, ← hlatch]
        exact ih hindexed hrest
      | true =>
        have hlatched : state.latch.Indexed := ⟨h.parallel, h.positions, h.nodup, h.bounded⟩
        rw [readyLane_eq, if_pos hconditional, if_pos rfl, h.needsFallback]
        change _ ∧ (if state.enabled = true then _ else _) = _
        cases henabled : state.enabled with
        | false =>
          rw [if_pos (.inl rfl), if_neg Bool.false_ne_true]
          exact ih hlatched hrest
        | true =>
          obtain ⟨hindexed, hcollect⟩ := hlatched.readyExecute hlane
          have hlatch := readyExecute_notes rows state.latch lane
          have hentries : state.latch.entries = state.entries := rfl
          rw [if_neg (by simpa using hfull), if_pos rfl, ← hentries, hcollect]
          change _ ∧ collectLanes scope rows rest state.latch.fallbackEnabled _ = _
          rw [← hlatch.1]
          exact ih hindexed hrest

end

end Collection

/-! ## §4 Ranking under either scope -/

variable {entries entries' : List (SearchRow P × List LexicalV2Proof)}

variable {laneCount : ℕ}

section Ranking

variable {emphasis : Option QueryPublicField} {scope : Text}

/-- A hit with its proofs, as it is ranked. -/
def candidateAt (scope : Text) (entry : SearchRow P × List LexicalV2Proof) : LexicalV2Candidate :=
  ⟨⟨scope, entry.1.sourceKey⟩, entry.1.chunkId, entry.1.path, entry.2⟩

/-- A hit with the proof it is shown by, as the ranking returns it. -/
def rankedAt (emphasis : Option QueryPublicField) (scope : Text)
    (shown : (SearchRow P × List LexicalV2Proof) × LexicalV2Proof) : LexicalV2RankedCandidate :=
  ⟨candidateAt scope shown.1, shown.2, lexicalV2EvidencePoints shown.2 emphasis⟩

def compareShown (emphasis : Option QueryPublicField)
    (a b : (SearchRow P × List LexicalV2Proof) × LexicalV2Proof) : Ordering :=
  compareLexicalV2Candidates (rankedAt emphasis [] a) (rankedAt emphasis [] b)

instance : Std.TransCmp (compareShown (P := P) emphasis) :=
  transCmp_comap compareLexicalV2Candidates _

/-- The hits in the order of the ranking, which no scope enters. -/
def shownOf (emphasis : Option QueryPublicField)
    (entries : List (SearchRow P × List LexicalV2Proof)) :
    List ((SearchRow P × List LexicalV2Proof) × LexicalV2Proof) :=
  sortBy (compareShown emphasis) (entries.filterMap fun entry =>
    (sortBy (compareLexicalV2Proofs emphasis) entry.2).head?.map (entry, ·))

def ValidScope (scope : Text) : Prop :=
  scope ≠ [] ∧ utf8Len scope ≤ maxAuthorizationScopeBytes

lemma candidateAt_identity_eq_iff :
    (candidateAt scope entry).identity = (candidateAt scope entry').identity ↔
      entry.1.identity = entry'.1.identity := by
  simp [candidateAt, LexicalV2Candidate.identity, SearchRow.identity]

/-- Under one scope, candidates compare as they do under none. -/
theorem compareLexicalV2Candidates_rankedAt
    (a b : (SearchRow P × List LexicalV2Proof) × LexicalV2Proof) :
    compareLexicalV2Candidates (rankedAt emphasis scope a) (rankedAt emphasis scope b) =
      compareShown emphasis a b := by
  have hsource : ∀ s : Text, compare (QualifiedSourceId.mk s a.1.1.sourceKey)
      (QualifiedSourceId.mk s b.1.1.sourceKey) = compare a.1.1.sourceKey b.1.1.sourceKey := by
    intro s
    change (compare s s).then (compare a.1.1.sourceKey b.1.1.sourceKey) = _
    rw [Std.ReflOrd.compare_self]
    rfl
  simp only [compareShown, compareLexicalV2Candidates, rankedAt, candidateAt, hsource]
  rfl

/-- Whether an input is valid depends on neither the scope nor the order. -/
theorem validateLexicalV2Input_candidateAt {scope' : Text} (hscope' : ValidScope scope')
    (hperm : entries.Perm entries') (hvalid : validateLexicalV2Input
      (rankInput laneCount emphasis (entries.map (candidateAt scope))) = .ok ()) :
    validateLexicalV2Input
      (rankInput laneCount emphasis (entries'.map (candidateAt scope'))) = .ok () := by
  obtain ⟨hprofile, hlanes, hcount, hcandidates, hnodup⟩ := validateLexicalV2Input_ok.mp hvalid
  refine validateLexicalV2Input_ok.mpr ⟨hprofile, hlanes, ?_, ?_, ?_⟩
  · have hlength := hperm.length_eq
    simp only [rankInput, length_map] at hcount ⊢
    omega
  · intro candidate hmem
    obtain ⟨entry, hentry, rfl⟩ := mem_map.mp hmem
    have hentry := hcandidates (candidateAt scope entry) (mem_map_of_mem (hperm.mem_iff.mpr hentry))
    refine ⟨?_, hentry.chunkId, hentry.path, hentry.proofs, hentry.proof, hentry.slots⟩
    have hkey := (not_or.mp (not_or.mp (rejectIf_ok.mp hentry.source)).2).2
    refine rejectIf_ok.mpr ?_
    rintro (hempty | hlong | hrest)
    · exact hscope'.1 hempty
    · exact absurd hscope'.2 (not_le.mpr hlong)
    · exact hkey hrest
  · have hperm' := (hperm.map (candidateAt scope)).map LexicalV2Candidate.identity
    have hnodup := hperm'.nodup_iff.mp hnodup
    simp only [rankInput, map_map] at hnodup ⊢
    refine Nodup.map_on ?_ (Nodup.of_map _ hnodup)
    intro a ha b hb heq
    refine inj_on_of_nodup_map hnodup ha hb ?_
    exact candidateAt_identity_eq_iff.mpr (candidateAt_identity_eq_iff.mp heq)

/-- A valid input is ranked into its hits in the order of the ranking. -/
theorem rankLexicalV2_candidateAt (hvalid : validateLexicalV2Input
      (rankInput laneCount emphasis (entries.map (candidateAt scope))) = .ok ()) :
    rankLexicalV2 (rankInput laneCount emphasis (entries.map (candidateAt scope))) =
        .ok ((shownOf emphasis entries).map (rankedAt emphasis scope)) ∧
      ((shownOf emphasis entries).map Prod.fst).Perm entries := by
  have hproofs : ∀ entry ∈ entries, entry.2 ≠ [] := fun entry hentry =>
    ((validateLexicalV2Input_ok.mp hvalid).2.2.2.1 _ (mem_map_of_mem hentry)).proofs.1
  have hranked : ∀ entries : List (SearchRow P × List LexicalV2Proof),
      (∀ entry ∈ entries, entry.2 ≠ []) →
      ∃ shown, entries.filterMap (fun entry =>
          (sortBy (compareLexicalV2Proofs emphasis) entry.2).head?.map (entry, ·)) = shown ∧
        (entries.map (candidateAt scope)).mapM (rankLexicalV2Candidate emphasis) =
          .ok (shown.map (rankedAt emphasis scope)) ∧ shown.map Prod.fst = entries := by
    intro entries hentries
    induction entries with
    | nil => exact ⟨[], rfl, rfl, rfl⟩
    | cons entry rest ih =>
      obtain ⟨shown, hshown, hmapM, hfst⟩ :=
        ih fun e he => hentries e (mem_cons_of_mem _ he)
      cases hsorted : sortBy (compareLexicalV2Proofs emphasis) entry.2 with
      | nil =>
        have hperm := sortBy_perm (compareLexicalV2Proofs emphasis) entry.2
        rw [hsorted] at hperm
        exact absurd hperm.symm.eq_nil (hentries entry mem_cons_self)
      | cons proof others =>
        have hrank : rankLexicalV2Candidate emphasis (candidateAt scope entry) =
            .ok (rankedAt emphasis scope (entry, proof)) := by
          simp only [rankLexicalV2Candidate, candidateAt, hsorted]
          rfl
        refine ⟨(entry, proof) :: shown, ?_, ?_, by rw [map_cons, hfst]⟩
        · rw [filterMap_cons_some (by rw [hsorted]; rfl), hshown]
        · rw [map_cons, mapM_cons, hrank, hmapM]
          rfl
  obtain ⟨shown, hshown, hmapM, hfst⟩ := hranked entries hproofs
  have hmapM' : (rankInput laneCount emphasis (entries.map (candidateAt scope))).candidates.mapM
      (rankLexicalV2Candidate (rankInput laneCount emphasis
        (entries.map (candidateAt scope))).emphasis) = .ok (shown.map (rankedAt emphasis scope)) :=
    hmapM
  constructor
  · rw [rankLexicalV2, hvalid, hmapM', shownOf, hshown,
      sortBy_map (rankedAt emphasis scope) fun a _ b _ =>
        (compareLexicalV2Candidates_rankedAt a b).symm]
    rfl
  · rw [shownOf, hshown]
    exact ((sortBy_perm _ shown).map Prod.fst).trans (.of_eq hfst)

/-- The order the hits come in does not matter. -/
theorem shownOf_perm (hperm : entries.Perm entries')
    (hnodup : (entries.map fun entry => entry.1.identity).Nodup) :
    shownOf emphasis entries = shownOf emphasis entries' := by
  refine sortBy_eq_of_perm (hperm.filterMap _) fun a ha b hb heq => ?_
  have hshown : ∀ shown ∈ entries.filterMap (fun entry =>
      (sortBy (compareLexicalV2Proofs emphasis) entry.2).head?.map (entry, ·)),
      shown.1 ∈ entries ∧
        (sortBy (compareLexicalV2Proofs emphasis) shown.1.2).head? = some shown.2 := by
    intro shown hmem
    obtain ⟨entry, hentry, hsome⟩ := mem_filterMap.mp hmem
    obtain ⟨proof, hhead, rfl⟩ := Option.map_eq_some_iff.mp hsome
    exact ⟨hentry, hhead⟩
  obtain ⟨ha, hheadA⟩ := hshown a ha
  obtain ⟨hb, hheadB⟩ := hshown b hb
  have hentry : a.1 = b.1 := inj_on_of_nodup_map hnodup ha hb
    (candidateAt_identity_eq_iff.mp (compareLexicalV2Candidates_inj heq))
  refine Prod.ext hentry (Option.some.inj ?_)
  rw [← hheadA, ← hheadB, hentry]

end Ranking

/-! ## §5 Hits -/

section

variable {emphasis : Option QueryPublicField} {scope : Text}
  {shown : List ((SearchRow P × List LexicalV2Proof) × LexicalV2Proof)}

/-- The hit a ranked candidate is shown as. -/
def shownRow (shown : (SearchRow P × List LexicalV2Proof) × LexicalV2Proof) : SearchRow P :=
  { shown.1.1 with score := shown.2.engineScore }

/-- The plugin finds a candidate at the position of its hit. -/
theorem candidateOrdinal_rankedAt (emphasis : Option QueryPublicField) (scope : Text)
    (hnodup : (entries.map fun entry => entry.1.identity).Nodup)
    (hmem : ∀ x ∈ shown, x.1 ∈ entries) : ∃ ordinals, (shown.map (rankedAt emphasis scope)).mapM
        (candidateOrdinal (entries.map (candidateAt scope))) = .ok ordinals ∧
      List.Forall₂ (fun x i => entries[i]? = some x.1) shown ordinals := by
  let key (e : LexicalV2Candidate × ℕ) := e.1.identity
  have hkeys : (((entries.map (candidateAt scope)).zipIdx.reverse).map key).Nodup := by
    have hidentities : ((entries.map (candidateAt scope)).zipIdx.map key) =
        entries.map (LexicalV2Candidate.identity ∘ candidateAt scope) := by
      rw [← map_map, ← zipIdx_map_fst 0 (entries.map (candidateAt scope)), map_map, zipIdx_map_fst]
      rfl
    rw [map_reverse, nodup_reverse, hidentities]
    refine Nodup.map_on (fun a ha b hb heq => ?_) (Nodup.of_map _ hnodup)
    exact inj_on_of_nodup_map hnodup ha hb (candidateAt_identity_eq_iff.mp heq)
  have hone : ∀ x ∈ shown, ∃ i, candidateOrdinal (entries.map (candidateAt scope))
      (rankedAt emphasis scope x) = .ok i ∧ entries[i]? = some x.1 := by
    intro x hx
    obtain ⟨i, hi⟩ := mem_iff_getElem?.mp (hmem x hx)
    have hentry : (candidateAt scope x.1, i) ∈ (entries.map (candidateAt scope)).zipIdx.reverse := by
      rw [mem_reverse, mk_mem_zipIdx_iff_getElem?, getElem?_map, hi]
      rfl
    refine ⟨i, ?_, hi⟩
    have hfind := (find?_key_eq_some_iff hkeys).mpr ⟨hentry, rfl⟩
    exact candidateOrdinal_found (entries.map (candidateAt scope)) (rankedAt emphasis scope x) hfind
  clear hkeys key
  induction shown with
  | nil => exact ⟨[], rfl, .nil⟩
  | cons x rest ih =>
    obtain ⟨i, hordinal, hi⟩ := hone x mem_cons_self
    obtain ⟨ordinals, hmapM, hall⟩ := ih (fun y hy => hmem y (mem_cons_of_mem _ hy))
      fun y hy => hone y (mem_cons_of_mem _ hy)
    refine ⟨i :: ordinals, ?_, .cons hi hall⟩
    rw [map_cons, mapM_cons, hordinal, hmapM]
    rfl

/-- The hits at these positions, with their scores, are the hits shown. -/
theorem mapM_rankedHit {state : ReadyState P} {ordinals : List ℕ}
    (h : List.Forall₂ (fun x i => state.entries[i]? = some x.1) shown ordinals) :
    (ordinals.zip (shown.map fun x => x.2.engineScore)).mapM state.rankedHit =
      .ok (shown.map shownRow) := by
  induction h with
  | nil => rfl
  | @cons x i rest ordinals hhead _ ih =>
    have hhit : state.hits[i]? = some x.1.1 := by
      rw [ReadyState.entries, getElem?_zip_eq_some] at hhead
      exact hhead.1
    have hone : state.rankedHit (i, x.2.engineScore) = .ok (shownRow x) := by
      simp only [ReadyState.rankedHit, hhit]
      rfl
    rw [map_cons, zip_cons_cons, mapM_cons, hone, ih]
    rfl

end

/-! ## §6 Agreement -/

section

variable {resource : Option PartitionDigest} {lanes : List CollectorLane}
  {rows : CollectorLane → List (SearchRow P)} {emphasis : Option QueryPublicField} {limit : ℕ}

lemma utf8Len_hexText (digest : Digest) : utf8Len (hexText digest) = 2 * digest.length := by
  induction digest with
  | nil => rfl
  | cons byte rest ih =>
    have hdigit : ∀ n, n < 16 → (hexDigit n).utf8Size = 1 := by decide
    have hbyte := byte.toNat_lt
    rw [hexText, flatMap_cons, ← hexText, utf8Len_append, ih, length_cons, utf8Len_cons,
      utf8Len_cons, hdigit _ (by omega), hdigit _ (by omega), utf8Len_nil]
    omega

lemma validScope_authorizationScope (resource : Option PartitionDigest) :
    ValidScope (authorizationScope resource) := by
  cases resource with
  | none => exact ⟨by decide +kernel, by decide +kernel⟩
  | some id =>
    have hlabel : utf8Len "openclast:".toList = 10 := by decide +kernel
    have hlength : utf8Len (authorizationScope (some id)) = 74 := by
      change utf8Len ("openclast:".toList ++ hexText id) = 74
      rw [utf8Len_append, utf8Len_hexText, id.2, hlabel]
    refine ⟨fun hempty => ?_, by rw [hlength]; decide⟩
    rw [hempty] at hlength
    cases hlength

lemma readyLanes_entries (horder : ∀ lane ∈ lanes,
    SameOrder (authorizationScope resource) lane (rows lane)) :
    (readyLanes rows lanes).Indexed ∧
      collectLanes (authorizationScope resource) rows lanes none [] =
        (readyLanes rows lanes).entries.map (nativeHit (authorizationScope resource)) :=
  collectLanes_readyLanes .initial horder

lemma rankLexicalV2_error {input : LexicalV2RankInput}
    (hinvalid : validateLexicalV2Input input ≠ .ok ()) : (rankLexicalV2 input).toOption = none := by
  cases hvalidate : validateLexicalV2Input input with
  | ok u => exact absurd hvalidate hinvalid
  | error e =>
    rw [rankLexicalV2, hvalidate]
    rfl

/-- The native result, over the hits of the plugin's arrays. -/
theorem executeLexicalV2_toOption (hlanes : lanes ≠ [])
    (horder : ∀ lane ∈ lanes, SameOrder (authorizationScope resource) lane (rows lane)) :
    (executeLexicalV2 resource lanes rows emphasis limit).toOption =
      if validateLexicalV2Input (rankInput lanes.length emphasis
          ((readyLanes rows lanes).entries.map (candidateAt inPluginScope))) = .ok () then
        some ⟨((shownOf emphasis (readyLanes rows lanes).entries).take limit).map shownRow,
          lexicalMatchQuality
            (((shownOf emphasis (readyLanes rows lanes).entries).take limit).map (·.2.kind))⟩
      else none := by
  obtain ⟨hindexed, hcollect⟩ := readyLanes_entries horder
  set entries := (readyLanes rows lanes).entries with hentries
  set scope := authorizationScope resource with hscope
  have hplugin : ValidScope inPluginScope := ⟨by decide +kernel, by decide +kernel⟩
  have hnative : ValidScope scope := validScope_authorizationScope resource
  -- the map is walked in the order of the identities
  let walked := sortBy (fun a b => compareNativeIdentities (nativeHit scope a).identity
    (nativeHit scope b).identity) entries
  have hwalked : walked.Perm entries := sortBy_perm _ _
  have hvalues : sortBy (fun a b => compareNativeIdentities a.identity b.identity)
      (entries.map (nativeHit scope)) = walked.map (nativeHit scope) :=
    (sortBy_map (nativeHit scope) fun _ _ _ _ => rfl).symm
  have hcandidates : (walked.map (nativeHit scope)).map NativeLexicalV2Hit.candidate =
      walked.map (candidateAt scope) := by
    rw [map_map]
    rfl
  have hnodup : (entries.map fun entry => entry.1.identity).Nodup := by
    have hnodup := hindexed.nodup
    rwa [← hindexed.fst_entries, map_map] at hnodup
  simp only [executeLexicalV2, if_neg hlanes, ← hscope, hcollect, hvalues, hcandidates]
  by_cases hvalid : validateLexicalV2Input (rankInput lanes.length emphasis
      (entries.map (candidateAt inPluginScope))) = .ok ()
  · have hvalid' := validateLexicalV2Input_candidateAt hnative hwalked.symm hvalid
    obtain ⟨hrank, hperm⟩ := rankLexicalV2_candidateAt hvalid'
    rw [shownOf_perm hwalked ((hwalked.map _).nodup_iff.mpr hnodup)] at hrank hperm
    have hhits : takeRankedHits
        (((shownOf emphasis entries).take limit).map (rankedAt emphasis scope))
        (walked.map (nativeHit scope)) =
          .ok (((shownOf emphasis entries).take limit).map shownRow) := by
      refine takeRankedHits_map
        (fun x : (SearchRow P × List LexicalV2Proof) × LexicalV2Proof => nativeHit scope x.1)
        (fun _ => rfl) ?_ ?_ ?_
      · have hshown : ((shownOf emphasis entries).map fun x => x.1.1.identity).Nodup := by
          have hnodup := ((hperm.trans hwalked).map fun entry => entry.1.identity).nodup_iff.mpr
            hnodup
          rwa [map_map] at hnodup
        exact (pairwise_map.mp (hshown.sublist ((take_sublist _ _).map _))).imp
          (mt nativeHit_identity_eq_iff.mp)
      · rw [map_map]
        refine Nodup.map_on (fun a ha b hb heq => ?_)
          (Nodup.of_map _ ((hwalked.map _).nodup_iff.mpr hnodup))
        exact inj_on_of_nodup_map hnodup (hwalked.mem_iff.mp ha) (hwalked.mem_iff.mp hb)
          (nativeHit_identity_eq_iff.mp heq)
      · intro x hx
        exact mem_map_of_mem (hperm.mem_iff.mp (mem_map_of_mem (mem_of_mem_take hx)))
    rw [hrank, if_pos hvalid]
    simp only [bind, Except.bind, hhits, ← map_take, map_map]
    rfl
  · have hinvalid : validateLexicalV2Input (rankInput lanes.length emphasis
        (walked.map (candidateAt scope))) ≠ .ok () := fun h =>
      hvalid (validateLexicalV2Input_candidateAt hplugin hwalked h)
    rw [if_neg hvalid]
    cases hrank : rankLexicalV2 (rankInput lanes.length emphasis
        (walked.map (candidateAt scope))) with
    | ok ranked =>
      have herror := rankLexicalV2_error hinvalid
      rw [hrank] at herror
      cases herror
    | error e => rfl

lemma finalizeLexicalV2Rank_shown (hnodup : (entries.map fun entry => entry.1.identity).Nodup)
    (hvalid : validateLexicalV2Input
      (rankInput laneCount emphasis (entries.map (candidateAt inPluginScope))) = .ok ()) :
    ∃ ordinals, finalizeLexicalV2Rank
        (rankInput laneCount emphasis (entries.map (candidateAt inPluginScope))) =
          .ok ⟨ordinals, (shownOf emphasis entries).map (·.2.engineScore),
            (shownOf emphasis entries).map (·.2.kind)⟩ ∧
      List.Forall₂ (fun x i => entries[i]? = some x.1) (shownOf emphasis entries) ordinals := by
  obtain ⟨hrank, hperm⟩ := rankLexicalV2_candidateAt hvalid
  obtain ⟨ordinals, hordinals, hall⟩ :=
    candidateOrdinal_rankedAt emphasis inPluginScope hnodup fun x hx => hperm.mem_iff.mp
    (mem_map_of_mem hx)
  have hordinals' : ((shownOf emphasis entries).map (rankedAt emphasis inPluginScope)).mapM
      (candidateOrdinal (rankInput laneCount emphasis
        (entries.map (candidateAt inPluginScope))).candidates) = .ok ordinals := hordinals
  refine ⟨ordinals, ?_, hall⟩
  rw [finalizeLexicalV2Rank, hrank]
  simp only [bind, Except.bind, hordinals', map_map]
  rfl

/-- What the plugin returns, over its arrays. -/
theorem searchReady_eq (emphasis : Option QueryPublicField) (haccepts : acceptsLanes lanes = true)
    (hlimit : 1 ≤ limit ∧ limit ≤ maxTotalCandidates) (hindexed : (readyLanes rows lanes).Indexed) :
    (searchReady lanes rows emphasis limit).toOption =
      if validateLexicalV2Input (rankInput lanes.length emphasis
          ((readyLanes rows lanes).entries.map (candidateAt inPluginScope))) = .ok () then
        some {
          outcome := ⟨((shownOf emphasis (readyLanes rows lanes).entries).take limit).map shownRow,
            lexicalMatchQuality
              (((shownOf emphasis (readyLanes rows lanes).entries).take limit).map (·.2.kind))⟩
          windowState :=
            if (readyLanes rows lanes).hits.length = maxTotalCandidates then
              .candidateLimitReached
            else if (readyLanes rows lanes).anyLaneSaturated then .unknown
            else if limit < (shownOf emphasis (readyLanes rows lanes).entries).length then
              .moreAvailable
            else .exhausted
          candidateCount := (readyLanes rows lanes).hits.length
          executed := (readyLanes rows lanes).executed }
      else none := by
  have hcandidates : (readyLanes rows lanes).candidates =
      (readyLanes rows lanes).entries.map (candidateAt inPluginScope) := rfl
  have hnodup : ((readyLanes rows lanes).entries.map fun entry => entry.1.identity).Nodup := by
    have hnodup := hindexed.nodup
    rwa [← hindexed.fst_entries, map_map] at hnodup
  have hinRange : ¬ (limit < 1 ∨ maxTotalCandidates < limit) := by omega
  simp only [searchReady, haccepts, Bool.true_eq_false, if_false, if_neg hinRange, hcandidates]
  by_cases hvalid : validateLexicalV2Input (rankInput lanes.length emphasis
      ((readyLanes rows lanes).entries.map (candidateAt inPluginScope))) = .ok ()
  · obtain ⟨ordinals, hfinalize, hall⟩ := finalizeLexicalV2Rank_shown hnodup hvalid
    have hhits := mapM_rankedHit hall
    rw [hfinalize, if_pos hvalid]
    simp only [bind, Except.bind, Except.mapError, hhits, length_map, ← map_take]
    rfl
  · rw [if_neg hvalid]
    cases hfinalize : finalizeLexicalV2Rank (rankInput lanes.length emphasis
        ((readyLanes rows lanes).entries.map (candidateAt inPluginScope))) with
    | ok ranked =>
      obtain ⟨ranked', hrank, -⟩ := bind_ok_iff.mp hfinalize
      have herror := rankLexicalV2_error hvalid
      rw [hrank] at herror
      cases herror
    | error e => rfl

/-- A lane that returned as many rows as it may is noted. -/
theorem readyLanes_saturated (rows : CollectorLane → List (SearchRow P))
    (lanes : List CollectorLane) :
    (readyLanes rows lanes).anyLaneSaturated = (readyLanes rows lanes).executed.any fun lane =>
      decide ((rows lane).length = lane.maxCandidates) := by
  refine foldl_induction (P := fun state : ReadyState P => state.anyLaneSaturated =
    state.executed.any fun lane => decide ((rows lane).length = lane.maxCandidates))
    (fun state lane hstate => ?_) lanes rfl
  have hexecute : ∀ start : ReadyState P, start.anyLaneSaturated = state.anyLaneSaturated →
      start.executed = state.executed →
      (readyExecute rows lane start).anyLaneSaturated =
        (readyExecute rows lane start).executed.any fun lane =>
          decide ((rows lane).length = lane.maxCandidates) := by
    intro start hsaturated hexecuted
    obtain ⟨-, hsaturated', hexecuted'⟩ := readyExecute_notes rows start lane
    rw [hsaturated', hexecuted', hsaturated, hexecuted, hstate]
    simp
  rw [readyLane_eq]
  split
  · split
    · exact hstate
    · exact hexecute state.latch rfl rfl
  · split
    · exact hstate
    · exact hexecute state rfl rfl

/-- **The lane collectors agree.** Over lanes and limits that the plugin accepts, with rows both
engines take in the same order, they admit the same candidates with the same proofs and return the
same hits, scores and match quality, or both refuse to rank them; and the window is exhausted, or
has more, only if no executed lane was cut and the window is not full. -/
theorem lexical_collectors_agree (resource : Option PartitionDigest) (lanes : List CollectorLane)
    (rows : CollectorLane → List (SearchRow P)) (emphasis : Option QueryPublicField) (limit : ℕ)
    (haccepts : acceptsLanes lanes = true) (hlimit : 1 ≤ limit ∧ limit ≤ maxTotalCandidates)
    (horder : ∀ lane ∈ lanes, SameOrder (authorizationScope resource) lane (rows lane)) :
    (collectLanes (authorizationScope resource) rows lanes none []).map
        (fun hit => (hit.hit, hit.proofs)) =
      (readyLanes rows lanes).hits.zip (readyLanes rows lanes).proofs ∧
    (executeLexicalV2 resource lanes rows emphasis limit).toOption =
      (searchReady lanes rows emphasis limit).toOption.map (·.outcome) ∧
    ∀ result, searchReady lanes rows emphasis limit = .ok result →
      result.windowState = .exhausted ∨ result.windowState = .moreAvailable →
      (∀ lane ∈ result.executed, (rows lane).length ≠ lane.maxCandidates) ∧
        result.candidateCount < maxTotalCandidates := by
  obtain ⟨hindexed, hcollect⟩ := readyLanes_entries horder
  have hlanes : lanes ≠ [] := by
    rintro rfl
    simp [acceptsLanes] at haccepts
  have hready := searchReady_eq emphasis haccepts hlimit hindexed
  refine ⟨?_, ?_, fun result hresult hstate => ?_⟩
  · rw [hcollect, map_map]
    exact map_id _
  · rw [executeLexicalV2_toOption hlanes horder, hready]
    split <;> rfl
  · rw [hresult] at hready
    split at hready
    · obtain rfl := Option.some.inj hready
      dsimp only at hstate ⊢
      split at hstate
      · simp at hstate
      · next hroom =>
        split at hstate
        · simp at hstate
        · next hsaturated =>
          refine ⟨fun lane hlane hfull => hsaturated ?_, lt_of_le_of_ne hindexed.bounded hroom⟩
          rw [readyLanes_saturated]
          exact any_eq_true.mpr ⟨lane, hlane, decide_eq_true hfull⟩
    · cases hready

end

/-! ## §7 A repeated hit, and what the plugin refuses -/

def exactLane : CollectorLane := ⟨0, .filename, .exact, false, 2, by decide⟩

def fallbackLane : CollectorLane := ⟨1, .crossField, .partialCoverage, true, 3, by decide⟩

def collectedRow (key : Char) (score : F32) (h : key ≠ '\x00') : SearchRow Unit :=
  ⟨[key], ['c'], ['p'], score, (), by simpa using h.symm, by decide⟩

/-- The fallback lane finds the hit of the exact lane again, behind another. -/
def collectedRows (lane : CollectorLane) : List (SearchRow Unit) :=
  if lane.ordinal = 0 then [collectedRow 'a' ⟨1065353216⟩ (by decide)]
  else [collectedRow 'b' ⟨1073741824⟩ (by decide), collectedRow 'a' ⟨1065353216⟩ (by decide)]

theorem lexical_collectors_agree_repeated :
    (executeLexicalV2 none [exactLane, fallbackLane] collectedRows none 2).toOption =
      (searchReady [exactLane, fallbackLane] collectedRows none 2).toOption.map (·.outcome) ∧
    (searchReady [exactLane, fallbackLane] collectedRows none 2).toOption.map
      (fun result => (result.windowState, result.outcome.hits.map SearchRow.sourceKey)) =
        some (.exhausted, [['a'], ['b']]) := by
  have horder : ∀ lane ∈ [exactLane, fallbackLane],
      SameOrder (authorizationScope none) lane (collectedRows lane) := by
    intro lane hlane
    rcases mem_pair.mp hlane with rfl | rfl <;> exact by unfold SameOrder; decide +kernel
  exact ⟨(lexical_collectors_agree none [exactLane, fallbackLane] collectedRows none 2
    (by decide) (by decide) horder).2.1, by decide +kernel⟩

/-- Without lanes, and at a limit of zero, the native collector returns what the plugin refuses. -/
theorem collectors_differ_at_guards :
    (executeLexicalV2 none [] collectedRows none 2 = .ok ⟨[], .none⟩ ∧
      (searchReady [] collectedRows none 2).toOption.isNone) ∧
    ((executeLexicalV2 none [exactLane] collectedRows none 0).toOption = some ⟨[], .none⟩ ∧
      (searchReady [exactLane] collectedRows none 0).toOption.isNone) :=
  ⟨⟨rfl, by decide⟩, by decide +kernel, by decide⟩

end Kwiry
