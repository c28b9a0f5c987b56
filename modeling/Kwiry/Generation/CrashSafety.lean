import Kwiry.Generation.Store

/-!
# Crash Safety of the Generation Store

Wherever a publication or a preparation is cut, the pointer names a whole generation, and
recovery settles on it. The run invariant is `StoreState.Sound`: what the pointer can name.

The pointer of another format is the one thing a preparation leaves unsettled: it is kept for
the reader to refuse, and the next publication replaces it.
-/

namespace Kwiry

open Foundations List

variable (B : Build)

/-! ## §1 What validity depends on -/

/-- Whether the directory at a name holds a whole generation. -/
def entryOk : Option Entry → Bool
  | some (.dir contents) => (contents.validate B "").isOk
  | _ => false

variable {B}

lemma isOk_bind_congr {α β : Type} {x y : Except Error α} {f g : α → Except Error β}
    (hx : x.isOk = y.isOk) (hval : ∀ a b, x = .ok a → y = .ok b → (f a).isOk = (g b).isOk) :
    (x >>= f).isOk = (y >>= g).isOk := by
  cases x with
  | error e =>
    cases y with
    | error e' => rfl
    | ok b => cases hx
  | ok a =>
    cases y with
    | error e' => cases hx
    | ok b => exact hval a b rfl rfl

lemma isOk_forM_congr {α : Type} {f g : α → Except Error Unit} {items : List α}
    (h : ∀ a, (f a).isOk = (g a).isOk) : (items.forM f).isOk = (items.forM g).isOk := by
  induction items with
  | nil => rfl
  | cons a rest ih => exact isOk_bind_congr (h a) fun _ _ _ _ => ih

lemma isOk_validateIndexDir (p q : String) (index : IndexDir) :
    (validateIndexDir p index).isOk = (validateIndexDir q index).isOk := by
  unfold validateIndexDir
  cases index.openError <;> rfl

lemma isOk_validate (p q : String) (contents : GenerationDir) :
    (contents.validate B p).isOk = (contents.validate B q).isOk := by
  unfold GenerationDir.validate
  refine isOk_bind_congr rfl fun manifest manifest' hx hy => ?_
  rw [hx, Except.ok.injEq] at hy
  subst hy
  split
  · refine isOk_bind_congr (isOk_validateIndexDir _ _ _) fun _ _ _ _ => ?_
    split <;> rfl
  · refine isOk_bind_congr rfl fun layout layout' hlayout hlayout' => ?_
    rw [hlayout, Except.ok.injEq] at hlayout'
    subst hlayout'
    refine isOk_bind_congr (isOk_forM_congr fun partition => ?_) fun _ _ _ _ => rfl
    unfold validateGenerationPartition
    simp only
    split
    · rfl
    · exact isOk_validateIndexDir _ _ _
  · rfl

lemma GenerationPaths.isOk_validate_eq (data : DataRoot) (paths : GenerationPaths) :
    (paths.validate B data).isOk = (isGenerationId paths.id &&
      entryOk B data.generations[paths.root]?) := by
  unfold GenerationPaths.validate
  simp only
  cases isGenerationId paths.id with
  | false => rfl
  | true =>
    simp only [Bool.not_true, Bool.false_eq_true, if_false, Bool.true_and]
    split
    · rename_i hentry
      rw [hentry]
      rfl
    · rename_i hentry
      rw [hentry]
      rfl
    · rename_i hentry
      rw [hentry]
      rfl
    · rename_i contents hentry
      rw [hentry]
      exact isOk_validate _ _ _

variable {a b root : DataRoot}

namespace DataRoot

variable {data : DataRoot}

lemma holdsValid_iff {id : Text} :
    data.holdsValid B id = true ↔
      isGenerationId id = true ∧ entryOk B data.generations[id]? = true := by
  unfold holdsValid
  rw [GenerationPaths.isOk_validate_eq]
  simp

/-- A readable pointer is incompatible, or names a valid generation or an invalid one. -/
theorem readCurrent_of_ok {current : CurrentGeneration} (h : data.current = some (.ok current)) :
    data.readCurrent B =
      if current.hasSupportedVersions then
        if data.holdsValid B current.generation then .valid current.generation
        else .missingOrInvalid
      else .incompatible := by
  unfold readCurrent
  rw [h]
  simp only
  cases hversions : current.hasSupportedVersions with
  | false => rfl
  | true =>
    have hvalidate : current.validate.isOk = isGenerationId current.generation := by
      unfold CurrentGeneration.validate
      cases isGenerationId current.generation <;> simp [hversions] <;> rfl
    have hholds : data.holdsValid B current.generation = (isGenerationId current.generation &&
        (GenerationPaths.validate B data ⟨current.generation, current.generation⟩).isOk) := rfl
    rw [hvalidate, hholds]
    cases isGenerationId current.generation <;>
      cases (GenerationPaths.validate B data ⟨current.generation, current.generation⟩).isOk <;> rfl

/-- The pointer this build writes for a generation. -/
def pointerTo (id : Text) : Option (Except Error CurrentGeneration) :=
  some (.ok ⟨layoutVersion, indexFormatVersion, id⟩)

lemma readCurrent_pointerTo {id : Text} (h : data.current = pointerTo id) :
    data.readCurrent B = if data.holdsValid B id then .valid id else .missingOrInvalid := by
  rw [readCurrent_of_ok h]
  rfl

lemma readCurrent_valid_iff {id : Text} :
    data.readCurrent B = .valid id ↔ data.current = pointerTo id ∧ data.holdsValid B id = true := by
  constructor
  · intro h
    cases hcurrent : data.current with
    | none => simp [readCurrent, hcurrent] at h
    | some json =>
      cases json with
      | error e => simp [readCurrent, hcurrent] at h
      | ok current =>
        rw [readCurrent_of_ok hcurrent] at h
        cases hversions : current.hasSupportedVersions with
        | false => simp [hversions] at h
        | true =>
          rw [hversions, if_pos rfl] at h
          split at h
          · rename_i hvalid
            cases h
            simp only [CurrentGeneration.hasSupportedVersions, Bool.and_eq_true,
              decide_eq_true_eq] at hversions
            refine ⟨?_, hvalid⟩
            rw [pointerTo, ← hversions.1, ← hversions.2]
          · cases h
  · rintro ⟨hcurrent, hvalid⟩
    rw [readCurrent_pointerTo hcurrent, if_pos hvalid]

lemma readCurrent_incompatible_congr (h : a.current = b.current)
    (hb : b.readCurrent B = .incompatible) : a.readCurrent B = .incompatible := by
  cases hcurrent : b.current with
  | none => simp [readCurrent, hcurrent] at hb
  | some json =>
    cases json with
    | error e => simp [readCurrent, hcurrent] at hb
    | ok current =>
      rw [readCurrent_of_ok hcurrent] at hb
      rw [readCurrent_of_ok (h.trans hcurrent)]
      split at hb
      · split at hb <;> cases hb
      · rename_i hversions
        rw [if_neg hversions]

/-- Two roots with one pointer and the same generations. -/
structure Agrees (a b : DataRoot) : Prop where
  current : a.current = b.current
  entry : ∀ id, isGenerationId id = true → a.generations[id]? = b.generations[id]?

lemma holdsValid_congr
    (h : ∀ id, isGenerationId id = true → a.generations[id]? = b.generations[id]?) (id : Text) :
    a.holdsValid B id = b.holdsValid B id := by
  rw [Bool.eq_iff_iff, holdsValid_iff, holdsValid_iff]
  exact and_congr_right fun hid => by rw [h id hid]

lemma Agrees.readCurrent (h : a.Agrees b) : a.readCurrent B = b.readCurrent B := by
  cases hcurrent : b.current with
  | none => simp [DataRoot.readCurrent, h.current, hcurrent]
  | some json =>
    cases json with
    | error e => simp [DataRoot.readCurrent, h.current, hcurrent]
    | ok current =>
      rw [readCurrent_of_ok hcurrent, readCurrent_of_ok (h.current.trans hcurrent),
        holdsValid_congr h.entry]

lemma mem_validGenerations {id : Text} :
    id ∈ data.validGenerations B ↔ data.holdsValid B id = true := by
  rw [validGenerations, mem_mergeSort, mem_filter, Std.ExtTreeMap.mem_keys]
  refine and_iff_right_of_imp fun hvalid => ?_
  have hentry := (holdsValid_iff.mp hvalid).2
  rw [Std.ExtTreeMap.mem_iff_isSome_getElem?]
  cases hget : data.generations[id]? with
  | none =>
    rw [hget] at hentry
    cases hentry
  | some entry => rfl

/-- The first valid generation is the newest. -/
theorem head_validGenerations {id : Text} (h : (data.validGenerations B).head? = some id) :
    data.holdsValid B id = true ∧
      ∀ other, data.holdsValid B other = true → generationOrder other ≤ generationOrder id := by
  have hmem : id ∈ data.validGenerations B := mem_of_mem_head? h
  refine ⟨mem_validGenerations.mp hmem, fun other hother => ?_⟩
  have hsorted : (data.validGenerations B).Pairwise fun left right =>
      decide (generationOrder right ≤ generationOrder left) = true := by
    refine pairwise_mergeSort ?_ ?_ _
    · intro a b c hab hbc
      simp only [decide_eq_true_eq] at hab hbc ⊢
      exact hbc.trans hab
    · intro a b
      simp only [Bool.or_eq_true, decide_eq_true_eq]
      exact le_total _ _
  obtain ⟨rest, hlist⟩ : ∃ rest, data.validGenerations B = id :: rest := by
    cases hlist : data.validGenerations B with
    | nil =>
      rw [hlist] at h
      cases h
    | cons head rest =>
      rw [hlist] at h
      cases h
      exact ⟨rest, rfl⟩
  have hother := mem_validGenerations.mpr hother
  rw [hlist] at hother hsorted
  rcases mem_cons.mp hother with rfl | hrest
  · exact le_refl _
  · simpa using rel_of_pairwise_cons hsorted hrest

end DataRoot

/-! ## §2 Removals -/

variable {id : Text} {data data' : DataRoot} {listing : List Text} {steps : List StoreStep}
  {s : StoreState}

lemma isStaging_of_isGenerationId (h : isGenerationId id = true) :
    stagingPrefix.isPrefixOf id = false := by
  simp only [isGenerationId, Bool.and_eq_true] at h
  obtain ⟨⟨⟨hstart, -⟩, -⟩, -⟩ := h
  cases id with
  | nil => rfl
  | cons c rest =>
    have hc : c = 'g' := by
      simp only [generationPrefix, isPrefixOf, Bool.and_eq_true, beq_iff_eq] at hstart
      exact hstart.1.symm
    subst hc
    rfl

variable {active name : Text}

lemma apply_removeEntry_ne (h : name ≠ id) :
    ((StoreStep.removeEntry name).apply data).generations[id]? = data.generations[id]? := by
  have hne : ¬ compare name id = .eq := fun heq => h (Std.LawfulEqCmp.compare_eq_iff_eq.mp heq)
  simp [StoreStep.apply, Std.ExtTreeMap.getElem?_erase, hne]

lemma torn_removeEntry_ne (h : name ≠ id) (htorn : (StoreStep.removeEntry name).Torn data data') :
    data'.current = data.current ∧ data'.generations[id]? = data.generations[id]? := by
  obtain ⟨leftover, -, rfl⟩ := htorn
  have hne : ¬ compare name id = .eq := fun heq => h (Std.LawfulEqCmp.compare_eq_iff_eq.mp heq)
  exact ⟨rfl, by simp [Std.ExtTreeMap.getElem?_insert, hne]⟩

/-- Removals, done or cut, touch the names they remove only. -/
theorem removals_cut {names : List Text}
    (h : Cut StoreStep.apply StoreStep.Torn (names.map .removeEntry) data data') :
    data'.current = data.current ∧
      ∀ id, id ∉ names → data'.generations[id]? = data.generations[id]? := by
  refine h.invariant (P := fun root => root.current = data.current ∧
    ∀ id, id ∉ names → root.generations[id]? = data.generations[id]?) ?_ ?_ ⟨rfl, fun _ _ => rfl⟩
  · intro step hstep root hroot
    obtain ⟨name, hname, rfl⟩ := mem_map.mp hstep
    refine ⟨hroot.1, fun id hid => ?_⟩
    rw [apply_removeEntry_ne (by rintro rfl; exact hid hname), hroot.2 id hid]
  · intro step hstep root root' hroot htorn
    obtain ⟨name, hname, rfl⟩ := mem_map.mp hstep
    refine ⟨?_, fun id hid => ?_⟩
    · obtain ⟨leftover, -, rfl⟩ := htorn
      exact hroot.1
    · rw [(torn_removeEntry_ne (by rintro rfl; exact hid hname) htorn).2, hroot.2 id hid]

lemma removals_done {names : List Text} (h : id ∈ names) :
    (runSteps StoreStep.apply (names.map .removeEntry) data).generations[id]? = none := by
  induction names generalizing data with
  | nil => cases h
  | cons name rest ih =>
    by_cases hrest : id ∈ rest
    · exact ih hrest
    · have hname : id = name := by
        rcases mem_cons.mp h with heq | hmem
        · exact heq
        · exact absurd hmem hrest
      subst hname
      have hcut := (removals_cut (Cut.complete (rest.map StoreStep.removeEntry)
        ((StoreStep.removeEntry id).apply data))).2 id hrest
      rw [map_cons, runSteps_cons, hcut]
      simp [StoreStep.apply]

lemma agrees_of_staging_cut {staging : List Text}
    (h : Cut StoreStep.apply StoreStep.Torn (stagingSteps staging) data data') :
    data'.Agrees data := by
  obtain ⟨hcurrent, hentry⟩ := removals_cut h
  refine ⟨hcurrent, fun id hid => hentry id fun hmem => ?_⟩
  have hstaging := (mem_filter.mp hmem).2
  rw [isStaging_of_isGenerationId hid] at hstaging
  cases hstaging

lemma agrees_cleanedRoot (data : DataRoot) (staging : List Text) :
    (cleanedRoot data staging).Agrees data :=
  agrees_of_staging_cut (Cut.complete _ _)

lemma active_notMem_pruned :
    active ∉ listing.filter fun name => isGenerationId name && name ∉ retained B data active := by
  simp [retained]

/-- Pruning, done or cut, leaves the pointer and the active generation. -/
theorem prune_cut (pruned : DataRoot)
    (h : Cut StoreStep.apply StoreStep.Torn (pruneSteps B pruned active listing) data data') :
    data'.current = data.current ∧ data'.generations[active]? = data.generations[active]? := by
  obtain ⟨hcurrent, hentry⟩ := removals_cut h
  exact ⟨hcurrent, hentry active active_notMem_pruned⟩

/-- A completed pruning leaves no generation after the active one. -/
theorem prune_done {pruned : DataRoot} (hlisting : listing.Perm data.generations.keys)
    (hmem : name ∈ (runSteps StoreStep.apply (pruneSteps B pruned active listing) data).generations)
    (hname : isGenerationId name = true) : generationOrder name ≤ generationOrder active := by
  set names := listing.filter fun name => isGenerationId name && name ∉ retained B pruned active
    with hnames
  by_cases hpruned : name ∈ names
  · rw [Std.ExtTreeMap.mem_iff_isSome_getElem?, pruneSteps, removals_done hpruned] at hmem
    cases hmem
  · -- a name that was there and not pruned is retained
    have hget := (removals_cut (Cut.complete (names.map StoreStep.removeEntry) data)).2 name hpruned
    rw [Std.ExtTreeMap.mem_iff_isSome_getElem?, pruneSteps, hget,
      ← Std.ExtTreeMap.mem_iff_isSome_getElem?, ← Std.ExtTreeMap.mem_keys,
      ← hlisting.mem_iff] at hmem
    have hretained : name ∈ retained B pruned active := by
      by_contra hno
      exact hpruned (mem_filter.mpr ⟨hmem, by simp [hname, hno]⟩)
    rcases mem_cons.mp hretained with rfl | hearlier
    · exact le_refl _
    · have hlt := (mem_filter.mp (mem_of_mem_take hearlier)).2
      simp only [Bool.and_eq_true, decide_eq_true_eq] at hlt
      exact hlt.2.le

/-! ## §3 Publications and preparations, done or cut -/

lemma publishSteps_ok (h : publishSteps B data id listing = .ok steps) :
    isGenerationId id = true ∧ entryOk B data.generations[stagingPrefix ++ id]? = true ∧
      data.renameTarget id = true ∧
      steps = [.rename (stagedCandidate id), .writeCurrent id] ++
        pruneSteps B (publishedRoot data id) id listing := by
  unfold publishSteps at h
  obtain ⟨_, hvalid, h⟩ := except_bind_ok h
  have hok : ((stagedCandidate id).validate B data).isOk = true := by
    rw [hvalid]
    rfl
  rw [GenerationPaths.isOk_validate_eq, Bool.and_eq_true] at hok
  split at h
  · cases h
  · rename_i htarget
    cases h
    exact ⟨hok.1, hok.2, by simpa using htarget, rfl⟩

lemma rename_entry (hstaged : entryOk B data.generations[stagingPrefix ++ id]? = true) :
    let renamed := (StoreStep.rename (stagedCandidate id)).apply data
    renamed.current = data.current ∧
      renamed.generations[id]? = data.generations[stagingPrefix ++ id]? ∧
      ∀ other, isGenerationId other = true → other ≠ id →
        renamed.generations[other]? = data.generations[other]? := by
  cases hget : data.generations[stagingPrefix ++ id]? with
  | none =>
    rw [hget] at hstaged
    cases hstaged
  | some entry =>
    have happly : (StoreStep.rename (stagedCandidate id)).apply data = { data with
        generations := (data.generations.erase (stagingPrefix ++ id)).insert id entry } := by
      simp [StoreStep.apply, stagedCandidate, hget]
    simp only [happly]
    refine ⟨trivial, by simp, fun other hother hne => ?_⟩
    have hid : ¬ compare id other = .eq :=
      fun heq => hne (Std.LawfulEqCmp.compare_eq_iff_eq.mp heq).symm
    have hstaging : ¬ compare (stagingPrefix ++ id) other = .eq := by
      intro heq
      have hstart := isStaging_of_isGenerationId hother
      rw [← Std.LawfulEqCmp.compare_eq_iff_eq.mp heq] at hstart
      cases hstart
    simp [Std.ExtTreeMap.getElem?_insert, Std.ExtTreeMap.getElem?_erase, hid, hstaging]

/-- **A publication, wherever it is cut**: not begun, renamed, or pointed at. -/
theorem publish_cut (hpublish : Publishes B data id steps)
    (h : Cut StoreStep.apply StoreStep.Torn steps data data') :
    data' = data ∨ data' = (StoreStep.rename (stagedCandidate id)).apply data ∨
      (data'.current = DataRoot.pointerTo id ∧
        data'.generations[id]? = data.generations[stagingPrefix ++ id]?) := by
  obtain ⟨listing, -, hsteps⟩ := hpublish
  obtain ⟨-, hstaged, -, rfl⟩ := publishSteps_ok hsteps
  have hrenamed := (rename_entry hstaged).2.1
  rcases h.append_cases with hfirst | hprune
  · cases hfirst with
    | before => exact .inl rfl
    | torn h => cases h
    | after hsecond =>
      cases hsecond with
      | before => exact .inr (.inl rfl)
      | torn h => cases h
      | after hthird =>
        cases hthird with
        | before => exact .inr (.inr ⟨rfl, hrenamed⟩)
  · obtain ⟨hcurrent, hentry⟩ := prune_cut _ hprune
    exact .inr (.inr ⟨hcurrent, hentry.trans hrenamed⟩)

/-- The generation a preparation settles on: the one pointed at, or else the newest. -/
def DataRoot.Elects (B : Build) (data : DataRoot) (active : Text) : Prop :=
  data.readCurrent B = .valid active ∨
    (data.readCurrent B = .missingOrInvalid ∧ data.holdsValid B active = true ∧
      ∀ other, data.holdsValid B other = true → generationOrder other ≤ generationOrder active)

/-- Nothing to settle on: no usable pointer and no valid generation. -/
def DataRoot.Bare (B : Build) (data : DataRoot) : Prop :=
  data.readCurrent B = .missingOrInvalid ∧ ∀ id, data.holdsValid B id = false

lemma bare_of_head (hmissing : data.readCurrent B = .missingOrInvalid)
    (hhead : (data.validGenerations B).head? = none) : data.Bare B := by
  refine ⟨hmissing, fun id => ?_⟩
  by_contra hvalid
  have hmem := DataRoot.mem_validGenerations.mpr (Bool.not_eq_false _ ▸ hvalid)
  rw [head?_eq_none_iff.mp hhead] at hmem
  cases hmem

lemma settle_cut
    (h : Cut StoreStep.apply StoreStep.Torn (settleSteps B data listing) data data') :
    data' = data ∨
      (∃ active, data.Elects B active ∧ data'.current = DataRoot.pointerTo active ∧
        data'.generations[active]? = data.generations[active]?) ∨
      (data.Bare B ∧ data'.current = none ∧ data'.generations = data.generations) := by
  unfold settleSteps at h
  split at h
  · rename_i active hactive
    obtain ⟨hcurrent, hentry⟩ := prune_cut _ h
    exact .inr (.inl ⟨active, .inl hactive,
      hcurrent.trans (DataRoot.readCurrent_valid_iff.mp hactive).1, hentry⟩)
  · cases h
    exact .inl rfl
  · rename_i hmissing
    split at h
    · rename_i active hhead
      cases h with
      | before => exact .inl rfl
      | torn h => cases h
      | after hprune =>
        obtain ⟨hcurrent, hentry⟩ := prune_cut _ hprune
        exact .inr (.inl ⟨active, .inr ⟨hmissing, DataRoot.head_validGenerations hhead⟩,
          hcurrent, hentry⟩)
    · rename_i hhead
      have hbare := bare_of_head hmissing hhead
      split at h
      · cases h with
        | before => exact .inl rfl
        | torn h => cases h
        | after hnone =>
          cases hnone
          exact .inr (.inr ⟨hbare, rfl, rfl⟩)
      · cases h
        exact .inl rfl

lemma settle_done (hlisting : listing.Perm data.generations.keys) :
    let settled := runSteps StoreStep.apply (settleSteps B data listing) data
    (∃ active, data.Elects B active ∧ settled.current = DataRoot.pointerTo active ∧
        settled.generations[active]? = data.generations[active]? ∧
        ∀ name ∈ settled.generations, isGenerationId name = true →
          generationOrder name ≤ generationOrder active) ∨
      (data.readCurrent B = .incompatible ∧ settled = data) ∨
      (data.Bare B ∧ settled.current = none ∧ settled.generations = data.generations) := by
  unfold settleSteps
  split
  · rename_i active hactive
    obtain ⟨hcurrent, hentry⟩ := prune_cut (B := B) data
      (Cut.complete (pruneSteps B data active listing) data)
    exact .inl ⟨active, .inl hactive,
      hcurrent.trans (DataRoot.readCurrent_valid_iff.mp hactive).1, hentry,
      fun name hmem hname => prune_done hlisting hmem hname⟩
  · rename_i hincompatible
    exact .inr (.inl ⟨hincompatible, rfl⟩)
  · rename_i hmissing
    split
    · rename_i active hhead
      let pointed := (StoreStep.writeCurrent active).apply data
      have hpointed : listing.Perm pointed.generations.keys := hlisting
      obtain ⟨hcurrent, hentry⟩ := prune_cut (B := B) pointed
        (Cut.complete (pruneSteps B pointed active listing) pointed)
      exact .inl ⟨active, .inr ⟨hmissing, DataRoot.head_validGenerations hhead⟩, hcurrent,
        hentry, fun name hmem hname => prune_done hpointed hmem hname⟩
    · rename_i hhead
      have hbare := bare_of_head hmissing hhead
      cases hcurrent : data.current with
      | none => exact .inr (.inr ⟨hbare, hcurrent, rfl⟩)
      | some json => exact .inr (.inr ⟨hbare, rfl, rfl⟩)

/-! ## §4 What holds along a run -/

namespace DataRoot

lemma Agrees.elects (h : a.Agrees b) (helects : a.Elects B active) : b.Elects B active := by
  unfold Elects at helects ⊢
  simpa only [h.readCurrent, holdsValid_congr h.entry] using helects

lemma Agrees.bare (h : a.Agrees b) (hbare : a.Bare B) : b.Bare B := by
  unfold Bare at hbare ⊢
  simpa only [h.readCurrent, holdsValid_congr h.entry] using hbare

lemma Elects.holdsValid (h : data.Elects B active) : data.holdsValid B active = true := by
  rcases h with hvalid | ⟨-, hvalid, -⟩
  · exact (readCurrent_valid_iff.mp hvalid).2
  · exact hvalid

/-- A root whose pointer and entry at it are those of an elected generation points there. -/
theorem Elects.readCurrent (h : data.Elects B active) (hcurrent : data'.current = pointerTo active)
    (hentry : data'.generations[active]? = data.generations[active]?) :
    data'.readCurrent B = .valid active := by
  obtain ⟨hid, hok⟩ := holdsValid_iff.mp h.holdsValid
  exact readCurrent_valid_iff.mpr ⟨hcurrent, holdsValid_iff.mpr ⟨hid, by rw [hentry, hok]⟩⟩

variable (B) in
/-- A settled root: its pointer names a valid generation, no generation comes after it, and a
preparation without the pointer finds it again. -/
structure Settled (data : DataRoot) (id : Text) : Prop where
  active : data.readCurrent B = .valid id
  newest : ∀ name ∈ data.generations, isGenerationId name = true →
    generationOrder name ≤ generationOrder id
  recovers : ∀ steps, Prepares B { data with current := none } steps →
    (runSteps StoreStep.apply steps { data with current := none }).readCurrent B = .valid id

end DataRoot

/-- **A preparation, wherever it is cut.** -/
theorem prepare_cut (hprepare : Prepares B data steps)
    (h : Cut StoreStep.apply StoreStep.Torn steps data data') :
    data'.Agrees data ∨
      (∃ active, data.Elects B active ∧ data'.current = DataRoot.pointerTo active ∧
        data'.generations[active]? = data.generations[active]?) ∨
      (data.Bare B ∧ data'.current = none ∧
        ∀ id, isGenerationId id = true → data'.generations[id]? = data.generations[id]?) := by
  obtain ⟨staging, listing, -, -, rfl⟩ := hprepare
  have hclean := agrees_cleanedRoot data staging
  rcases h.append_cases with hstaging | hsettle
  · exact .inl (agrees_of_staging_cut hstaging)
  · rcases settle_cut hsettle with rfl | ⟨active, helects, hcurrent, hentry⟩ |
      ⟨hbare, hcurrent, hentries⟩
    · exact .inl hclean
    · have hid := (DataRoot.holdsValid_iff.mp helects.holdsValid).1
      exact .inr (.inl ⟨active, hclean.elects helects, hcurrent,
        hentry.trans (hclean.entry active hid)⟩)
    · refine .inr (.inr ⟨hclean.bare hbare, hcurrent, fun id hid => ?_⟩)
      rw [hentries]
      exact hclean.entry id hid

lemma prepare_done (hprepare : Prepares B data steps) :
    let settled := runSteps StoreStep.apply steps data
    (∃ active, data.Elects B active ∧ settled.readCurrent B = .valid active ∧
        ∀ name ∈ settled.generations, isGenerationId name = true →
          generationOrder name ≤ generationOrder active) ∨
      (data.readCurrent B = .incompatible ∧ settled.Agrees data) ∨
      (data.Bare B ∧ settled.current = none ∧ ∀ id, settled.holdsValid B id = false) := by
  obtain ⟨staging, listing, -, hlisting, rfl⟩ := hprepare
  have hclean := agrees_cleanedRoot data staging
  simp only [prepareSteps, runSteps_append]
  rcases settle_done (B := B) hlisting with ⟨active, helects, hcurrent, hentry, hnewest⟩ |
    ⟨hincompatible, hsame⟩ | ⟨hbare, hcurrent, hentries⟩
  · exact .inl ⟨active, hclean.elects helects, helects.readCurrent hcurrent hentry, hnewest⟩
  · refine .inr (.inl ⟨hclean.readCurrent.symm.trans hincompatible, ?_⟩)
    change (runSteps _ _ (cleanedRoot data staging)).Agrees data
    rw [hsame]
    exact hclean
  · refine .inr (.inr ⟨hclean.bare hbare, hcurrent, fun id => ?_⟩)
    rw [DataRoot.holdsValid_congr (b := cleanedRoot data staging) fun id _ => by
      change (runSteps _ _ (cleanedRoot data staging)).generations[id]? = _
      rw [hentries]]
    exact hbare.2 id

/-- Without its pointer a root recovers the generation that none comes after. -/
theorem settled_of_newest (hactive : data.readCurrent B = .valid id)
    (hnewest : ∀ name ∈ data.generations, isGenerationId name = true →
      generationOrder name ≤ generationOrder id)
    : data.Settled B id := by
  refine ⟨hactive, hnewest, fun steps hprepare => ?_⟩
  have hvalid : ({ data with current := none } : DataRoot).holdsValid B id = true :=
    (DataRoot.readCurrent_valid_iff.mp hactive).2
  have hmissing : ({ data with current := none } : DataRoot).readCurrent B = .missingOrInvalid := rfl
  rcases prepare_done hprepare with ⟨active, helects, hcurrent, -⟩ | ⟨hincompatible, -⟩ | ⟨hbare, -⟩
  · rcases helects with hpointed | ⟨-, hactive', hfirst⟩
    · rw [hmissing] at hpointed
      cases hpointed
    · -- each is at least as new as the other
      have hmem : active ∈ data.generations :=
        Std.ExtTreeMap.mem_keys.mp (mem_of_mem_filter
          (mem_mergeSort.mp (DataRoot.mem_validGenerations.mpr hactive')))
      have hle := hnewest active hmem (DataRoot.holdsValid_iff.mp hactive').1
      have hsame := generationOrder_inj (le_antisymm hle (hfirst id hvalid))
      rw [hcurrent, hsame]
  · rw [hmissing] at hincompatible
    cases hincompatible
  · rw [hbare.2 id] at hvalid
    cases hvalid

lemma publish_done (hpublish : Publishes B data id steps) :
    (runSteps StoreStep.apply steps data).Settled B id := by
  obtain ⟨listing, hlisting, hsteps⟩ := hpublish
  obtain ⟨hid, hstaged, -, rfl⟩ := publishSteps_ok hsteps
  have hrenamed := (rename_entry hstaged).2.1
  rw [runSteps_append]
  change (runSteps _ (pruneSteps B (publishedRoot data id) id listing)
    (publishedRoot data id)).Settled B id
  obtain ⟨hcurrent, hentry⟩ := prune_cut (B := B) (publishedRoot data id)
    (Cut.complete (pruneSteps B (publishedRoot data id) id listing) (publishedRoot data id))
  refine settled_of_newest ?_ fun name hmem hname => prune_done hlisting hmem hname
  refine DataRoot.readCurrent_valid_iff.mpr ⟨hcurrent, DataRoot.holdsValid_iff.mpr ⟨hid, ?_⟩⟩
  rw [hentry]
  change entryOk B ((StoreStep.rename (stagedCandidate id)).apply data).generations[id]? = true
  rw [hrenamed]
  exact hstaged

variable (B) in
/-- The run invariant: a usable pointer names the last active generation or one published since; an
unusable one was there from the start, or there is none and every valid generation was published
since. -/
def StoreState.Sound (s : StoreState) : Prop :=
  match s.root.readCurrent B with
  | .valid id => id ∈ s.candidates
  | .incompatible => s.active = none ∧ s.root.current = s.initial
  | .missingOrInvalid => s.active = none ∧ s.root.current = none ∧
      ∀ id, s.root.holdsValid B id = true → id ∈ s.pending

lemma StoreState.Sound.of_agrees (h : s.Sound B) {pending : List Text}
    (hagrees : root.Agrees s.root) (hpending : s.pending ⊆ pending) :
    { s with root := root, pending := pending : StoreState }.Sound B := by
  unfold StoreState.Sound at h ⊢
  simp only [hagrees.readCurrent, hagrees.current, DataRoot.holdsValid_congr hagrees.entry]
  cases hread : s.root.readCurrent B with
  | valid active =>
    rw [hread] at h
    rcases mem_append.mp h with hactive | hmem
    · exact mem_append.mpr (.inl hactive)
    · exact mem_append.mpr (.inr (hpending hmem))
  | incompatible =>
    rw [hread] at h
    exact h
  | missingOrInvalid =>
    rw [hread] at h
    exact ⟨h.1, h.2.1, fun id hid => hpending (h.2.2 id hid)⟩

lemma StoreState.Sound.elects (h : s.Sound B) (helects : s.root.Elects B active) :
    active ∈ s.candidates := by
  unfold StoreState.Sound at h
  rcases helects with hread | ⟨hread, hvalid, -⟩
  · rw [hread] at h
    exact h
  · rw [hread] at h
    exact mem_append.mpr (.inr (h.2.2 active hvalid))

/-- A rename does not move what the pointer names. -/
theorem StoreState.Sound.renamed (h : s.Sound B)
    (hstaged : entryOk B s.root.generations[stagingPrefix ++ id]? = true)
    (htarget : s.root.renameTarget id = true) :
    { s with
      root := (StoreStep.rename (stagedCandidate id)).apply s.root
      pending := id :: s.pending : StoreState }.Sound B := by
  obtain ⟨hcurrent, -, hother⟩ := rename_entry hstaged
  set renamed := (StoreStep.rename (stagedCandidate id)).apply s.root
  -- the target was free or empty, so it is not the active generation
  have hinvalid : s.root.holdsValid B id = false := by
    by_contra hvalid
    have hok := (DataRoot.holdsValid_iff.mp (Bool.not_eq_false _ ▸ hvalid)).2
    unfold DataRoot.renameTarget at htarget
    split at htarget
    · rename_i hget
      rw [hget] at hok
      cases hok
    · rename_i hget
      rw [hget] at hok
      cases hok
    · cases htarget
  have hkept : ∀ other, s.root.holdsValid B other = true → renamed.holdsValid B other = true := by
    intro other hvalid
    obtain ⟨hid, hok⟩ := DataRoot.holdsValid_iff.mp hvalid
    have hne : other ≠ id := by
      rintro rfl
      rw [hinvalid] at hvalid
      cases hvalid
    exact DataRoot.holdsValid_iff.mpr ⟨hid, by rw [hother other hid hne, hok]⟩
  unfold StoreState.Sound at h ⊢
  cases hread : s.root.readCurrent B with
  | valid active =>
    rw [hread] at h
    obtain ⟨hpointer, hvalid⟩ := DataRoot.readCurrent_valid_iff.mp hread
    have hread' : renamed.readCurrent B = .valid active :=
      DataRoot.readCurrent_valid_iff.mpr ⟨hcurrent.trans hpointer, hkept active hvalid⟩
    simp only [hread']
    rcases mem_append.mp h with hmem | hmem
    · exact mem_append.mpr (.inl hmem)
    · exact mem_append.mpr (.inr (mem_cons_of_mem _ hmem))
  | incompatible =>
    rw [hread] at h
    have hread' : renamed.readCurrent B = .incompatible :=
      DataRoot.readCurrent_incompatible_congr hcurrent hread
    simp only [hread']
    exact ⟨h.1, hcurrent.trans h.2⟩
  | missingOrInvalid =>
    rw [hread] at h
    have hnone : renamed.current = none := hcurrent.trans h.2.1
    have hread' : renamed.readCurrent B = .missingOrInvalid := by
      simp [DataRoot.readCurrent, hnone]
    simp only [hread']
    refine ⟨h.1, hnone, fun other hvalid => ?_⟩
    by_cases hne : other = id
    · exact mem_cons.mpr (.inl hne)
    · obtain ⟨hid, hok⟩ := DataRoot.holdsValid_iff.mp hvalid
      refine mem_cons_of_mem _ (h.2.2 other (DataRoot.holdsValid_iff.mpr ⟨hid, ?_⟩))
      rw [← hother other hid hne]
      exact hok

lemma StoreState.sound_of_valid (hread : s.root.readCurrent B = .valid id)
    (hmem : id ∈ s.candidates) : s.Sound B := by
  unfold StoreState.Sound
  rw [hread]
  exact hmem

lemma StoreState.Sound.publishCut (h : s.Sound B) (hpublish : Publishes B s.root id steps)
    (hcut : Cut StoreStep.apply StoreStep.Torn steps s.root root) :
    { s with root := root, pending := id :: s.pending : StoreState }.Sound B := by
  rcases publish_cut hpublish hcut with rfl | rfl | ⟨hcurrent, hentry⟩
  · exact h.of_agrees ⟨rfl, fun _ _ => rfl⟩ (subset_cons_self _ _)
  · obtain ⟨listing, -, hsteps⟩ := hpublish
    obtain ⟨-, hstaged, htarget, -⟩ := publishSteps_ok hsteps
    exact h.renamed hstaged htarget
  · obtain ⟨listing, -, hsteps⟩ := hpublish
    obtain ⟨hid, hstaged, -, -⟩ := publishSteps_ok hsteps
    have hread : root.readCurrent B = .valid id :=
      DataRoot.readCurrent_valid_iff.mpr ⟨hcurrent,
        DataRoot.holdsValid_iff.mpr ⟨hid, by rw [hentry, hstaged]⟩⟩
    exact StoreState.sound_of_valid hread (mem_append.mpr (.inr mem_cons_self))

lemma StoreState.Sound.prepareCut (h : s.Sound B) (hprepare : Prepares B s.root steps)
    (hcut : Cut StoreStep.apply StoreStep.Torn steps s.root root) :
    { s with root := root : StoreState }.Sound B := by
  rcases prepare_cut hprepare hcut with hagrees | ⟨active, helects, hcurrent, hentry⟩ |
    ⟨hbare, hcurrent, hentries⟩
  · exact h.of_agrees hagrees (Subset.refl _)
  · exact StoreState.sound_of_valid (helects.readCurrent hcurrent hentry) (h.elects helects)
  · -- a bare root of a run has no pointer to begin with
    have hnone : s.root.current = none := by
      unfold StoreState.Sound at h
      rw [hbare.1] at h
      exact h.2.1
    exact h.of_agrees ⟨hcurrent.trans hnone.symm, hentries⟩ (Subset.refl _)

/-- What a completed preparation leaves is sound from then on. -/
theorem sound_prepared (hprepare : Prepares B data steps)
    {initial : Option (Except Error CurrentGeneration)}
    (hinitial : data.readCurrent B = .incompatible → data.current = initial) :
    let root := runSteps StoreStep.apply steps data
    (⟨root, initial, root.activeId B, []⟩ : StoreState).Sound B := by
  intro root
  rcases prepare_done hprepare with ⟨active, -, hread, -⟩ | ⟨hincompatible, hagrees⟩ |
    ⟨-, hcurrent, hnone⟩
  · refine StoreState.sound_of_valid hread ?_
    simp [StoreState.candidates, DataRoot.activeId, root, hread]
  · have hread : root.readCurrent B = .incompatible := hagrees.readCurrent.trans hincompatible
    unfold StoreState.Sound
    simp only [hread]
    exact ⟨by simp [DataRoot.activeId, hread], hagrees.current.trans (hinitial hincompatible)⟩
  · have hread : root.readCurrent B = .missingOrInvalid := by
      simp [DataRoot.readCurrent, root, hcurrent]
    unfold StoreState.Sound
    simp only [hread]
    refine ⟨by simp [DataRoot.activeId, hread], hcurrent, fun id hid => ?_⟩
    rw [hnone id] at hid
    cases hid

lemma sound_of_run (hrun : StoreRun B s) : s.Sound B := by
  induction hrun with
  | start hprepare hroot =>
    subst hroot
    refine sound_prepared hprepare fun hincompatible => ?_
    rcases prepare_done hprepare with ⟨active, helects, -⟩ | ⟨-, hagrees⟩ | ⟨hbare, -⟩
    · rcases helects with hread | ⟨hread, -⟩ <;> rw [hincompatible] at hread <;> cases hread
    · exact hagrees.current.symm
    · cases hbare.1.symm.trans hincompatible
  | staged hrun hsame ih =>
    exact ih.of_agrees ⟨rfl, fun id hid => hsame id (isStaging_of_isGenerationId hid)⟩
      (Subset.refl _)
  | published hrun hpublish ih =>
    exact StoreState.sound_of_valid (publish_done hpublish).active (by simp [StoreState.candidates])
  | publishCut hrun hpublish hcut ih => exact ih.publishCut hpublish hcut
  | prepared hrun hprepare hroot ih =>
    subst hroot
    refine sound_prepared hprepare fun hincompatible => ?_
    unfold StoreState.Sound at ih
    rw [hincompatible] at ih
    exact ih.2
  | prepareCut hrun hprepare hcut ih => exact ih.prepareCut hprepare hcut

/-! ## §5 Crash safety -/

variable (B) in
/-- Where a recovery leaves a run: at a settled generation that was active or published since, at
the unusable pointer the run started with, or at a root that has no valid generation and never had
an active one. -/
def StoreState.RecoversTo (s : StoreState) (root : DataRoot) : Prop :=
  match root.readCurrent B with
  | .valid id => id ∈ s.candidates ∧ root.Settled B id
  | .incompatible => s.active = none ∧ root.current = s.initial
  | .missingOrInvalid => s.active = none ∧ root.current = none ∧
      ∀ id, root.holdsValid B id = false

lemma StoreState.Sound.recovers (h : s.Sound B) (hprepare : Prepares B s.root steps) :
    s.RecoversTo B (runSteps StoreStep.apply steps s.root) := by
  unfold StoreState.RecoversTo
  rcases prepare_done hprepare with ⟨active, helects, hread, hnewest⟩ |
    ⟨hincompatible, hagrees⟩ | ⟨hbare, hcurrent, hnone⟩
  · simp only [hread]
    exact ⟨h.elects helects, settled_of_newest hread hnewest⟩
  · simp only [hagrees.readCurrent.trans hincompatible]
    unfold StoreState.Sound at h
    rw [hincompatible] at h
    exact ⟨h.1, hagrees.current.trans h.2⟩
  · have hread : (runSteps StoreStep.apply steps s.root).readCurrent B = .missingOrInvalid := by
      simp [DataRoot.readCurrent, hcurrent]
    simp only [hread]
    unfold StoreState.Sound at h
    rw [hbare.1] at h
    exact ⟨h.1, hcurrent, hnone⟩

/-- **Crash safety of the generation store.** After any run: recovery settles as above; a completed
publication settles on what it published; and wherever an operation is cut, the directory the
pointer names is as it was before, or as it was staged. -/
theorem store_crash_safe {s : StoreState} (hrun : StoreRun B s) :
    (∀ steps, Prepares B s.root steps →
      s.RecoversTo B (runSteps StoreStep.apply steps s.root)) ∧
    (∀ id steps, Publishes B s.root id steps →
      (runSteps StoreStep.apply steps s.root).Settled B id) ∧
    (∀ steps root id, Prepares B s.root steps →
      Cut StoreStep.apply StoreStep.Torn steps s.root root → root.readCurrent B = .valid id →
      id ∈ s.candidates ∧ root.generations[id]? = s.root.generations[id]?) ∧
    ∀ published steps root id, Publishes B s.root published steps →
      Cut StoreStep.apply StoreStep.Torn steps s.root root → root.readCurrent B = .valid id →
      (id = published ∧
        root.generations[id]? = s.root.generations[(stagedCandidate published).root]?) ∨
      (s.root.readCurrent B = .valid id ∧ id ∈ s.candidates ∧
        root.generations[id]? = s.root.generations[id]?) := by
  have hsound := sound_of_run hrun
  refine ⟨fun steps hprepare => hsound.recovers hprepare,
    fun id steps hpublish => publish_done hpublish, ?_, ?_⟩
  · intro steps root id hprepare hcut hread
    obtain ⟨hpointer, hvalid⟩ := DataRoot.readCurrent_valid_iff.mp hread
    have hid := (DataRoot.holdsValid_iff.mp hvalid).1
    rcases prepare_cut hprepare hcut with hagrees | ⟨active, helects, hcurrent, hentry⟩ |
      ⟨-, hcurrent, -⟩
    · exact ⟨hsound.elects (Or.inl (hagrees.readCurrent.symm.trans hread)), hagrees.entry id hid⟩
    · have hsame := helects.readCurrent hcurrent hentry
      rw [hread, CurrentState.valid.injEq] at hsame
      subst hsame
      exact ⟨hsound.elects helects, hentry⟩
    · rw [hpointer] at hcurrent
      cases hcurrent
  · intro published steps root id hpublish hcut hread
    obtain ⟨hpointer, hvalid⟩ := DataRoot.readCurrent_valid_iff.mp hread
    have hid := (DataRoot.holdsValid_iff.mp hvalid).1
    rcases publish_cut hpublish hcut with rfl | rfl | ⟨hcurrent, hentry⟩
    · exact Or.inr ⟨hread, hsound.elects (Or.inl hread), rfl⟩
    · obtain ⟨listing, -, hsteps⟩ := hpublish
      obtain ⟨-, hstaged, -, -⟩ := publishSteps_ok hsteps
      obtain ⟨hsame, hrenamed, hother⟩ := rename_entry hstaged
      by_cases hne : id = published
      · subst hne
        exact Or.inl ⟨rfl, hrenamed⟩
      · have hentry := hother id hid hne
        have hbefore : s.root.readCurrent B = .valid id := by
          refine DataRoot.readCurrent_valid_iff.mpr ⟨hsame.symm.trans hpointer,
            DataRoot.holdsValid_iff.mpr ⟨hid, ?_⟩⟩
          rw [← hentry]
          exact (DataRoot.holdsValid_iff.mp hvalid).2
        exact Or.inr ⟨hbefore, hsound.elects (Or.inl hbefore), hentry⟩
    · rw [hpointer] at hcurrent
      have hsame : id = published := by
        simpa [DataRoot.pointerTo] using hcurrent
      subst hsame
      exact Or.inl ⟨rfl, hentry⟩

/-! ## A first publication cut between its two renames -/

def firstId : Text := ['g', '-', '1']

/-- An empty desktop generation, staged in a root that has none. -/
def firstStaged : DataRoot where
  path := []
  current := none
  generations := (∅ : Std.ExtTreeMap Text Entry).insert (stagingPrefix ++ firstId)
    (.dir ⟨.ok Manifest.default, ⟨true, none⟩, none, fun _ => ⟨false, none⟩⟩)

def firstPublishes : Publishes Build.plain firstStaged firstId
    [.rename (stagedCandidate firstId), .writeCurrent firstId] where
  listing := [firstId]
  listing_perm := by decide +kernel
  steps_eq := by decide +kernel

/-- The directory is in place and the pointer is not. -/
def firstCut : StoreState where
  root := (StoreStep.rename (stagedCandidate firstId)).apply firstStaged
  initial := none
  active := none
  pending := [firstId]

lemma firstCut_run : StoreRun Build.plain firstCut := by
  have hempty : Prepares Build.plain ⟨[], none, ∅⟩ [] :=
    ⟨[], [], by decide +kernel, by decide +kernel, by decide +kernel⟩
  have hstart : StoreRun Build.plain ⟨⟨[], none, ∅⟩, none, none, []⟩ := .start hempty rfl
  have hstaged : StoreRun Build.plain ⟨firstStaged, none, none, []⟩ := by
    refine @StoreRun.staged _ _ firstStaged.generations hstart fun name hname => ?_
    have hne : ¬ compare (stagingPrefix ++ firstId) name = .eq := by
      intro heq
      rw [← Std.LawfulEqCmp.compare_eq_iff_eq.mp heq] at hname
      exact absurd hname (by decide)
    simp [firstStaged, hne]
  exact .publishCut hstaged firstPublishes (.after (.before _ _))

def firstPrepares : Prepares Build.plain firstCut.root [.writeCurrent firstId] where
  staging := [firstId]
  listing := [firstId]
  staging_perm := by decide +kernel
  listing_perm := by decide +kernel
  steps_eq := by decide +kernel

/-- The general result at the cut publication: recovery points at what was renamed. -/
theorem firstCut_crash_safe :
    (runSteps StoreStep.apply [.writeCurrent firstId] firstCut.root).readCurrent Build.plain =
      .valid firstId ∧
    firstCut.RecoversTo Build.plain
      (runSteps StoreStep.apply [.writeCurrent firstId] firstCut.root) :=
  ⟨by decide +kernel, (store_crash_safe firstCut_run).1 _ firstPrepares⟩

/-! ## A pointer of an older format -/

/-- A root whose pointer was written for an older index format. -/
def olderRoot : DataRoot := ⟨[], some (.ok ⟨2, 11, ['g', '-', '1']⟩), ∅⟩

def olderPrepares : Prepares Build.plain olderRoot [] where
  staging := []
  listing := []
  staging_perm := by decide +kernel
  listing_perm := by decide +kernel
  steps_eq := by decide +kernel

def olderState : StoreState := ⟨olderRoot, olderRoot.current, olderRoot.activeId Build.plain, []⟩

lemma olderState_run : StoreRun Build.plain olderState := .start olderPrepares rfl

/-- Preparing a root leaves a pointer of an older format, which names no valid generation. -/
theorem olderState_not_active :
    ¬ ∀ (s : StoreState) (steps : List StoreStep), StoreRun Build.plain s →
      Prepares Build.plain s.root steps →
      ∃ id ∈ s.candidates,
        (runSteps StoreStep.apply steps s.root).readCurrent Build.plain = .valid id := by
  intro hclaim
  obtain ⟨id, hmem, -⟩ := hclaim olderState [] olderState_run olderPrepares
  have hnone : olderState.candidates = [] := by decide +kernel
  rw [hnone] at hmem
  cases hmem

end Kwiry
