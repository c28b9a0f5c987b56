import Kwiry.Foundations.Folds
import Kwiry.Plugin.Worker

/-!
# The Worker's Generation Protocol

What requests do to the active and the staged generation, as moves of a staged publication, and
what holds between a successful initialization and disposal: the state says whether something is
staged, an id is given to one generation, what is active passed its integrity check after its last
change in staging, and requests that fail leave it alone, except where what replaced it cannot be
answered.
-/

namespace Kwiry.Plugin

open Foundations List

namespace Worker

variable {Rows Answer : Type}

/-! ## §1 Effects -/

/-- A generation that is active or staged. -/
def Holds (w : Worker Rows) (g : Generation Rows) : Prop :=
  w.active = some g ∨ w.staging = some g

/-- What an operation does to the generations, with the moves it reports. -/
inductive Effect : Worker Rows → List (Move GenerationId) → Worker Rows → Prop where
  | touched {w : Worker Rows} {moves : List (Move GenerationId)}
      (h : ∀ m ∈ moves, ∃ g, w.Holds g ∧ m.Touches g.index.handle) : Effect w moves w
  | staged {w : Worker Rows} {target : Generation Rows} (hnone : w.staging = none)
      (hfresh : target.id ∉ w.usedGenerations) (hhandle : target.index.handle = w.nextHandle) :
      Effect w [.opened w.nextHandle target.id] (w.stage target)
  | flagged {w : Worker Rows} {isInitialCold restored eligible : Bool} {revision : ℕ}
      (hstaged : w.staging.isSome = true) (hcold : isInitialCold = true → w.active = none)
      (heligible : eligible = true → isInitialCold = true ∧ restored = false) :
      Effect w [] { w with
        stagingIsInitialCold := isInitialCold
        stagingRestoredCheckpoint := restored
        stagingPreviewEligible := eligible
        stagingRevision := revision }
  | updated {w : Worker Rows} {old target : Generation Rows} (hold : w.staging = some old)
      (hid : target.id = old.id) (hhandle : target.index.handle = old.index.handle) :
      Effect w [.changed old.index.handle] { w with staging := some target }
  | aborted {w : Worker Rows} {target : Generation Rows} (hstaged : w.staging = some target) :
      Effect w [.dropped target.index.handle] w.abortStaging
  | published {w : Worker Rows} {target : Generation Rows} (hstaged : w.staging = some target) :
      Effect w [.checked target.index.handle, .read target.index.handle,
        .published target.index.handle] (w.publish target)
  | renamed {w : Worker Rows} {old target : Generation Rows} (hold : w.active = some old)
      (hnone : w.staging = none) (hfresh : target.id ∉ w.usedGenerations)
      (hhandle : target.index.handle = old.index.handle) :
      Effect w [.changed old.index.handle, .renamed old.index.handle target.id]
        { w with active := some target, usedGenerations := target.id :: w.usedGenerations }
  | seq {w₁ w₂ w₃ : Worker Rows} {moves₁ moves₂ : List (Move GenerationId)}
      (h₁ : Effect w₁ moves₁ w₂) (h₂ : Effect w₂ moves₂ w₃) : Effect w₁ (moves₁ ++ moves₂) w₃

lemma Effect.refl (w : Worker Rows) : Effect w [] w :=
  .touched (by simp)

variable {g target : Generation Rows} {w : Worker Rows} {moves : List (Move GenerationId)}
  {p : Publication GenerationId} {α : Type} {o : Outcomes Rows Answer} {request : SourceChanges}
  {operation : WorkerOperation}

lemma Effect.read (h : w.Holds g) : Effect w [.read g.index.handle] w :=
  .touched fun m hm => ⟨g, h, by rw [mem_singleton.mp hm]; rfl⟩

/-- What holds of the variables while the module serves. -/
structure Running (w : Worker Rows) : Prop where
  state : w.state = if w.staging.isSome then .building else .ready
  idle : w.staging = none → w.stagingIsInitialCold = false ∧ w.stagingRestoredCheckpoint = false ∧
    w.stagingPreviewEligible = false
  cold : w.stagingIsInitialCold = true → w.active = none
  eligible : w.stagingPreviewEligible = true →
    w.stagingIsInitialCold = true ∧ w.stagingRestoredCheckpoint = false
  used : ∀ g, w.Holds g → g.id ∈ w.usedGenerations
  distinct : ∀ g g', w.active = some g → w.staging = some g' → g.id ≠ g'.id

lemma Effect.running {w' : Worker Rows} (h : Effect w moves w') (hrunning : Running w) :
    Running w' := by
  induction h with
  | touched => exact hrunning
  | @staged w target hnone hfresh =>
    obtain ⟨hcold, -, heligible⟩ := hrunning.idle hnone
    refine ⟨rfl, nofun, fun h => by simp [stage, hcold] at h,
      fun h => by simp [stage, heligible] at h, ?_, ?_⟩
    · rintro g (hg | hg)
      · exact mem_cons_of_mem _ (hrunning.used g (.inl hg))
      · exact Option.some.inj hg ▸ mem_cons_self
    · rintro g g' hg hg' heq
      obtain rfl : target = g' := Option.some.inj hg'
      exact hfresh (heq ▸ hrunning.used g (.inl hg))
  | flagged hstaged hcold heligible =>
    refine ⟨hrunning.state, fun h => ?_, hcold, heligible, hrunning.used, hrunning.distinct⟩
    rw [h] at hstaged
    cases hstaged
  | @updated w old target hold hid =>
    refine ⟨?_, nofun, hrunning.cold, hrunning.eligible, ?_, ?_⟩
    · rw [hrunning.state, hold]
      rfl
    · rintro g (hg | hg)
      · exact hrunning.used g (.inl hg)
      · exact Option.some.inj hg ▸ hid ▸ hrunning.used old (.inr hold)
    · rintro g g' hg hg'
      exact Option.some.inj hg' ▸ hid ▸ hrunning.distinct g old hg hold
  | aborted =>
    exact ⟨rfl, fun _ => ⟨rfl, rfl, rfl⟩, nofun, nofun,
      fun g hg => hrunning.used g (.inl (hg.resolve_right nofun)),
      nofun⟩
  | published hstaged =>
    refine ⟨rfl, fun _ => ⟨rfl, rfl, rfl⟩, nofun, nofun, ?_,
      nofun⟩
    rintro g (hg | hg)
    · exact Option.some.inj hg ▸ hrunning.used _ (.inr hstaged)
    · cases hg
  | renamed _ hnone =>
    have hflags := hrunning.idle hnone
    refine ⟨hrunning.state, hrunning.idle, fun h => by simp [hflags.1] at h, hrunning.eligible,
      ?_, fun _ _ _ h => by simp [hnone] at h⟩
    rintro g (hg | hg)
    · exact Option.some.inj hg ▸ mem_cons_self
    · simp [hnone] at hg
  | seq _ _ ih₁ ih₂ => exact ih₂ (ih₁ hrunning)

/-- A staged publication that a module carries out. -/
structure Refines (p : Publication GenerationId) (w : Worker Rows) : Prop where
  active : p.active = w.active.map fun g => (g.index.handle, g.id)
  staging : p.staging = w.staging.map fun g => (g.index.handle, g.id)
  used : p.used = w.usedGenerations
  next : p.next = w.nextHandle

lemma Refines.stagedHandle (h : Refines p w) (hg : w.staging = some g) :
    p.stagedHandle = some g.index.handle := by
  simp [Publication.stagedHandle, h.staging, hg]

lemma Refines.activeHandle (h : Refines p w) (hg : w.active = some g) :
    p.activeHandle = some g.index.handle := by
  simp [Publication.activeHandle, h.active, hg]

lemma Refines.staging_isNone (h : Refines p w) (hnone : w.staging = none) : p.staging = none := by
  simp [h.staging, hnone]

lemma Effect.refines {w' : Worker Rows} (h : Effect w moves w') (hp : Refines p w) :
    ∃ p', p.run moves = some p' ∧ Refines p' w' := by
  induction h generalizing p with
  | touched h =>
    obtain ⟨checked, hrun⟩ := p.run_touches fun m hm => by
      obtain ⟨g, hg, htouch⟩ := h m hm
      refine ⟨g.index.handle, ?_, htouch⟩
      exact hg.elim (fun ha => .inr (hp.activeHandle ha)) fun hs => .inl (hp.stagedHandle hs)
    exact ⟨_, hrun, ⟨hp.active, hp.staging, hp.used, hp.next⟩⟩
  | @staged w target hnone hfresh hhandle =>
    have hguard : p.staging.isNone = true ∧ w.nextHandle = p.next ∧ target.id ∉ p.used :=
      ⟨by simp [hp.staging_isNone hnone], hp.next.symm, hp.used ▸ hfresh⟩
    have hopened : p.step (.opened w.nextHandle target.id) = some { p with
        staging := some (w.nextHandle, target.id), checked := false
        used := target.id :: p.used, next := p.next + 1 } := if_pos hguard
    refine ⟨{ p with
        staging := some (w.nextHandle, target.id), checked := false
        used := target.id :: p.used, next := p.next + 1 }, by simp [hopened], hp.active, ?_, ?_, ?_⟩
    · simp [stage, hhandle]
    · simp [stage, hp.used]
    · simp [stage, hp.next]
  | flagged => exact ⟨p, rfl, ⟨hp.active, hp.staging, hp.used, hp.next⟩⟩
  | @updated w old target hold hid hhandle =>
    have hchanged : p.step (.changed old.index.handle) = some { p with checked := false } :=
      if_pos (hp.stagedHandle hold)
    refine ⟨{ p with checked := false }, by simp [hchanged], hp.active, ?_, hp.used, hp.next⟩
    simp [hp.staging, hold, hid, hhandle]
  | @aborted w target hstaged =>
    have hdropped : p.step (.dropped target.index.handle) =
        some { p with staging := none, checked := false } := if_pos (hp.stagedHandle hstaged)
    exact ⟨{ p with staging := none, checked := false }, by simp [hdropped], hp.active, rfl,
      hp.used, hp.next⟩
  | @published w target hstaged =>
    have hhandle := hp.stagedHandle hstaged
    have hchecked : p.step (.checked target.index.handle) = some { p with checked := true } :=
      if_pos hhandle
    have hread : ({ p with checked := true } : Publication GenerationId).step
        (.read target.index.handle) = some { p with checked := true } := if_pos (.inl hhandle)
    have hpublished : ({ p with checked := true } : Publication GenerationId).step
        (.published target.index.handle) =
          some { p with active := p.staging, staging := none, checked := false } :=
      if_pos ⟨hhandle, rfl⟩
    refine ⟨{ p with active := p.staging, staging := none, checked := false }, ?_, ?_, rfl,
      hp.used, hp.next⟩
    · simp [hchecked, hread, hpublished]
    · simp [publish, hp.staging, hstaged]
  | @renamed w old target hold hnone hfresh hhandle =>
    have hhandle' := hp.activeHandle hold
    have hstaged : p.stagedHandle ≠ some old.index.handle := by
      simp [Publication.stagedHandle, hp.staging_isNone hnone]
    have hchanged : p.step (.changed old.index.handle) = some p := by
      rw [Publication.step, if_neg hstaged, if_pos hhandle']
    have hrenamed : p.step (.renamed old.index.handle target.id) = some { p with
        active := some (old.index.handle, target.id), used := target.id :: p.used } :=
      if_pos ⟨hhandle', by simp [hp.staging_isNone hnone], hp.used ▸ hfresh⟩
    refine ⟨{ p with
        active := some (old.index.handle, target.id), used := target.id :: p.used }, ?_, ?_,
      hp.staging, ?_, hp.next⟩
    · simp [hchanged, hrenamed]
    · simp [hhandle]
    · simp [hp.used]
  | seq _ _ ih₁ ih₂ =>
    obtain ⟨p₁, hrun₁, hp₁⟩ := ih₁ hp
    obtain ⟨p₂, hrun₂, hp₂⟩ := ih₂ hp₁
    exact ⟨p₂, by rw [Publication.run_append hrun₁, hrun₂], hp₂⟩

/-! ## §2 Operations -/

/-- A reply is made of effects that keep the active generation. -/
structure Sound {α : Type} (w : Worker Rows) (reply : Reply Rows α) : Prop where
  effect : Effect w reply.moves reply.worker
  kept : reply.worker.active = w.active

lemma sound_refuse (w : Worker Rows) (fault : Fault) : Sound w (w.refuse fault : Reply Rows α) :=
  ⟨.refl w, rfl⟩

lemma sound_touched {result : Except Fault α}
    (h : ∀ m ∈ moves, ∃ g, w.Holds g ∧ m.Touches g.index.handle) :
    Sound w (⟨result, w, moves⟩ : Reply Rows α) :=
  ⟨.touched h, rfl⟩

variable {fault : Fault}

lemma sound_abortWith (hstaged : w.staging = some target)
    (hmoves : ∀ m ∈ moves, m.Touches target.index.handle) :
    Sound w (w.abortWith target moves fault : Reply Rows α) :=
  ⟨.seq (.touched fun m hm => ⟨target, .inr hstaged, hmoves m hm⟩) (.aborted hstaged), rfl⟩

variable {generation next : GenerationId}

lemma requireStaging_eq_ok (h : w.requireStaging generation = .ok target) :
    w.staging = some target ∧ target.id = generation := by
  rw [requireStaging, bind_ok_iff] at h
  obtain ⟨-, -, h⟩ := h
  cases hfilter : w.staging.filter (·.id = generation) with
  | none => simp [hfilter] at h
  | some found =>
    simp only [hfilter, Except.ok.injEq] at h
    subst h
    simpa [Option.filter_eq_some_iff] using hfilter

lemma beginBuild_sound (o : Outcomes Rows Answer) (generation : GenerationId) :
    Sound w (w.beginBuild o generation) := by
  rw [beginBuild]
  split
  · exact sound_refuse w _
  · next index hguards =>
    rw [bind_ok_iff] at hguards
    obtain ⟨-, -, hguards⟩ := hguards
    split at hguards
    · cases hguards
    · next hfree =>
      simp only [not_or, Option.isSome_iff_ne_none, ne_eq, not_not] at hfree
      obtain ⟨-, hnone, hfresh⟩ := hfree
      refine ⟨?_, rfl⟩
      have hstaged : Effect w _ (w.stage (w.generationOf generation index)) :=
        .staged hnone hfresh rfl
      have hflags : Effect (w.stage (w.generationOf generation index)) []
          ((w.stage (w.generationOf generation index)).setStagingFlags w.active.isNone false) :=
        .flagged rfl (fun hcold => Option.isNone_iff_eq_none.mp hcold) (by simp)
      exact hstaged.seq (hflags.seq (.read (g := w.generationOf generation index) (.inr rfl)))

/-- The rest of a batch that was applied to staging: the answer is computed, and staging is aborted
when that fails. -/
theorem sound_changed {w' : Worker Rows} {old : Generation Rows} (o : Outcomes Rows Answer)
    (hold : w.staging = some old) (hid : target.id = old.id)
    (hhandle : target.index.handle = old.index.handle)
    (hflags : Effect { w with staging := some target } [] w') (hstaged : w'.staging = some target)
    (hactive : w'.active = w.active) :
    Sound w (match generationResult o target with
      | .error fault => w'.abortWith target [.changed old.index.handle, .read old.index.handle]
          (sourceChangeError fault)
      | .ok result => ⟨.ok result, w', [.changed old.index.handle, .read old.index.handle]⟩) := by
  have hchanged : Effect w ([.changed old.index.handle] ++ ([] ++ [.read old.index.handle])) w' :=
    (Effect.updated hold hid hhandle).seq (hflags.seq (hhandle ▸ .read (.inr hstaged)))
  split
  · exact ⟨hchanged.seq (.aborted hstaged), hactive⟩
  · exact ⟨hchanged, hactive⟩

lemma addSourceBatch_sound (hrunning : Running w) (o : Outcomes Rows Answer)
    (generation : GenerationId) (sources : List SourceIdentity) :
    Sound w (w.addSourceBatch o generation sources) := by
  rw [addSourceBatch]
  split
  · exact sound_refuse w _
  · next target hrequire =>
    obtain ⟨hstaged, -⟩ := requireStaging_eq_ok hrequire
    dsimp only
    split
    · exact sound_abortWith hstaged (by simp)
    · next quarantined contents _ =>
      by_cases hcold : w.stagingIsInitialCold = true
      · simp only [if_pos hcold]
        refine sound_changed o hstaged rfl rfl ?_ rfl rfl
        refine .flagged rfl (fun _ => hrunning.cold hcold) fun heligible => ⟨hcold, ?_⟩
        simp only [Bool.and_eq_true, Bool.not_eq_true'] at heligible
        exact heligible.1.1
      · simp only [if_neg hcold]
        exact sound_changed o hstaged rfl rfl (.refl _) rfl rfl

lemma applyToStaging_sound (hrunning : Running w) (o : Outcomes Rows Answer)
    (request : SourceChanges) : Sound w (w.applyToStaging o request) := by
  rw [applyToStaging]
  split
  · exact sound_refuse w _
  · next target hrequire =>
    obtain ⟨hstaged, -⟩ := requireStaging_eq_ok hrequire
    dsimp only
    split
    · exact sound_abortWith hstaged (by simp)
    · refine sound_changed o hstaged rfl rfl ?_ rfl rfl
      exact .flagged rfl hrunning.cold (by simp)

/-- Every step of a publication succeeds, the answer included. -/
def Publishes (o : Outcomes Rows Answer) (target : Generation Rows) (compact : Bool) : Prop :=
  o.asserted false = .ok () ∧ (compact = true → o.compacted = .ok ()) ∧
    o.asserted true = .ok () ∧ ∃ bytes, o.measured target.index.handle = .ok bytes

lemma generationResult_eq_error (h : generationResult o g = .error fault) :
    o.measured g.index.handle = .error fault := by
  rw [generationResult] at h
  cases hmeasured : o.measured g.index.handle with
  | ok bytes =>
    rw [hmeasured] at h
    cases h
  | error other =>
    rw [hmeasured] at h
    cases h
    rfl

lemma publishStaging_of_publishes {compact : Bool} (h : Publishes o target compact)
    (w : Worker Rows) :
    ∃ result, w.publishStaging o target compact = ⟨.ok result, w.publish target,
      ([.read target.index.handle] ++ if compact then [.changed target.index.handle] else []) ++
        [.checked target.index.handle, .read target.index.handle,
          .published target.index.handle]⟩ := by
  obtain ⟨hfirst, hcompacted, hsecond, bytes, hbytes⟩ := h
  have hcompact : (if compact then o.compacted else .ok ()) = .ok () := by
    cases compact with
    | false => rfl
    | true => exact hcompacted rfl
  cases hresult : generationResult o target with
  | ok result =>
    refine ⟨result, ?_⟩
    simp only [publishStaging, hfirst, hcompact, hsecond, hresult, append_assoc]
    rfl
  | error fault =>
    rw [generationResult_eq_error hresult] at hbytes
    cases hbytes

lemma touches_compaction (handle : ℕ) (compact : Bool) :
    ∀ m ∈ [.read handle] ++ (if compact then [.changed handle] else [] : List (Move GenerationId)),
      m.Touches handle := by
  cases compact <;> simp [Move.Touches]

lemma publishStaging_sound {compact : Bool} (hstaged : w.staging = some target)
    (h : ¬ Publishes o target compact) : Sound w (w.publishStaging o target compact) := by
  have hcompaction := touches_compaction target.index.handle compact
  rw [publishStaging]
  dsimp only
  split
  · exact sound_abortWith hstaged (by simp)
  · next hfirst =>
    split
    · exact sound_abortWith hstaged (by simp [Move.Touches])
    · exact sound_abortWith hstaged (by simp [Move.Touches])
    · next hcompact =>
      split
      · exact sound_abortWith hstaged hcompaction
      · next hsecond =>
        split
        · refine sound_touched fun m hm => ⟨target, .inr hstaged, ?_⟩
          rcases mem_append.mp hm with hm | hm
          · exact hcompaction m hm
          · simp only [mem_cons, not_mem_nil, or_false] at hm
            rcases hm with rfl | rfl <;> rfl
        · next result hresult =>
          refine absurd ⟨hfirst, fun htrue => ?_, hsecond, ?_⟩ h
          · rwa [if_pos htrue] at hcompact
          · cases hmeasured : o.measured target.index.handle with
            | ok bytes => exact ⟨bytes, rfl⟩
            | error fault =>
              rw [generationResult, hmeasured] at hresult
              cases hresult

lemma publishStaging_effect (o : Outcomes Rows Answer) (hstaged : w.staging = some target)
    (compact : Bool) :
    Effect w (w.publishStaging o target compact).moves (w.publishStaging o target compact).worker := by
  by_cases h : Publishes o target compact
  · obtain ⟨result, heq⟩ := publishStaging_of_publishes h w
    rw [heq]
    have htouched : Effect w _ w := .touched fun m hm =>
      ⟨target, .inr hstaged, touches_compaction target.index.handle compact m hm⟩
    exact htouched.seq (.published hstaged)
  · exact (publishStaging_sound hstaged h).effect

lemma commitBuild_effect (o : Outcomes Rows Answer) (generation : GenerationId) :
    Effect w (w.commitBuild o generation).moves (w.commitBuild o generation).worker := by
  rw [commitBuild]
  split
  · exact .refl w
  · next target hrequire => exact publishStaging_effect o (requireStaging_eq_ok hrequire).1 true

lemma abortBuild_sound (o : Outcomes Rows Answer) (generation : GenerationId) :
    Sound w (w.abortBuild o generation) := by
  rw [abortBuild]
  split
  · exact sound_refuse w _
  · next target hrequire =>
    obtain ⟨hstaged, -⟩ := requireStaging_eq_ok hrequire
    split
    · exact sound_touched (by simpa [Move.Touches] using ⟨target, .inr hstaged, rfl⟩)
    · exact ⟨(Effect.read (.inr hstaged)).seq (.aborted hstaged), rfl⟩

lemma openGeneration_eq_ok {build : BuildIdentities} {request : RestoreRequest}
    {index : OpenedIndex Rows} (h : w.openGeneration build o request = .ok index) :
    w.staging = none ∧ request.generation ∉ w.usedGenerations := by
  rw [openGeneration, bind_ok_iff] at h
  obtain ⟨-, -, h⟩ := h
  split at h
  · cases h
  · next hfree =>
    simp only [not_or, Option.isSome_iff_ne_none, ne_eq, not_not] at hfree
    exact hfree.2.2

lemma restoreGeneration_effect (build : BuildIdentities) (o : Outcomes Rows Answer)
    (request : RestoreRequest) :
    Effect w (w.restoreGeneration build o request).moves
      (w.restoreGeneration build o request).worker := by
  rw [restoreGeneration]
  dsimp only
  split
  · exact .refl w
  · next index hopened =>
    obtain ⟨hnone, hfresh⟩ := openGeneration_eq_ok hopened
    have hstaged : Effect w [.opened w.nextHandle request.generation]
        (w.stage (w.generationOf request.generation index)) :=
      @Effect.staged _ w (w.generationOf request.generation index) hnone hfresh rfl
    exact hstaged.seq (publishStaging_effect (w := w.stage
      (w.generationOf request.generation index)) o rfl false)

lemma restoreInitialBuildCheckpoint_sound (build : BuildIdentities) (o : Outcomes Rows Answer)
    (request : CheckpointRestoreRequest) :
    Sound w (w.restoreInitialBuildCheckpoint build o request) := by
  rw [restoreInitialBuildCheckpoint]
  dsimp only
  split
  · exact sound_refuse w _
  · next index hchecks =>
    rw [bind_ok_iff] at hchecks
    obtain ⟨-, -, hchecks⟩ := hchecks
    split at hchecks
    · cases hchecks
    · next hfree =>
      simp only [not_or, Option.isSome_iff_ne_none, ne_eq, not_not] at hfree
      obtain ⟨-, -, hactive, hnone, hfresh⟩ := hfree
      split
      · exact sound_refuse w _
      · have hstaged : Effect w [.opened w.nextHandle request.generation]
            (w.stage (w.generationOf request.generation index)) :=
        @Effect.staged _ w (w.generationOf request.generation index) hnone hfresh rfl
        have hflags : Effect (w.stage (w.generationOf request.generation index)) []
            ((w.stage (w.generationOf request.generation index)).setStagingFlags true true) :=
          .flagged rfl (fun _ => hactive) (by simp)
        refine ⟨hstaged.seq (hflags.seq (.read (g := w.generationOf request.generation index)
          (.inr rfl))), rfl⟩

/-- What looks at the active generation alone. -/
structure ReadsActive {α : Type} (w : Worker Rows) (reply : Reply Rows α) : Prop where
  worker : reply.worker = w
  moves : ∀ m ∈ reply.moves, ∃ g, w.active = some g ∧ m.Touches g.index.handle

lemma ReadsActive.sound {reply : Reply Rows α} (h : ReadsActive w reply) : Sound w reply := by
  obtain ⟨result, worker, moves⟩ := reply
  obtain rfl : worker = w := h.worker
  refine sound_touched fun m hm => ?_
  obtain ⟨g, hg, htouch⟩ := h.moves m hm
  exact ⟨g, .inl hg, htouch⟩

lemma readsActive_refuse (w : Worker Rows) (fault : Fault) :
    ReadsActive w (w.refuse fault : Reply Rows α) :=
  ⟨rfl, nofun⟩

lemma readsActive_of {result : Except Fault α} (hactive : w.active = some g)
    (hmoves : ∀ m ∈ moves, m.Touches g.index.handle) :
    ReadsActive w (⟨result, w, moves⟩ : Reply Rows α) :=
  ⟨rfl, fun m hm => ⟨g, hactive, hmoves m hm⟩⟩

lemma initialColdStaging_eq_some (h : w.initialColdStaging generation = some target) :
    w.staging = some target := by
  rw [initialColdStaging] at h
  split at h
  · cases h
  · exact (Option.filter_eq_some_iff.mp h).1

section

variable (w) (build : BuildIdentities) (o : Outcomes Rows Answer)

lemma exportGeneration_readsActive (generation : GenerationId) (cacheIdentity : String) :
    ReadsActive w (w.exportGeneration build o generation cacheIdentity) := by
  rw [exportGeneration]
  split
  · exact readsActive_refuse w _
  · split
    · exact readsActive_refuse w _
    · next target htarget =>
      have hactive : w.active = some target := (Option.filter_eq_some_iff.mp htarget).1
      split
      · exact readsActive_refuse w _
      · dsimp only
        split
        · exact readsActive_refuse w _
        · split <;> refine readsActive_of hactive ?_ <;>
            cases target.index.requiresPreExportCompaction <;> simp [Move.Touches]

lemma planReconciliation_readsActive (generation : GenerationId) :
    ReadsActive w (w.planReconciliation o generation) := by
  rw [planReconciliation]
  split
  · exact readsActive_refuse w _
  · split
    · exact readsActive_refuse w _
    · next target htarget =>
      split
      · exact readsActive_refuse w _
      · exact readsActive_of (Option.filter_eq_some_iff.mp htarget).1 (by simp [Move.Touches])

lemma search_readsActive : ReadsActive w (w.search o) := by
  rw [search]
  split
  · exact readsActive_refuse w _
  · split
    · exact readsActive_refuse w _
    · next target hactive => exact readsActive_of hactive (by simp [Move.Touches])

lemma exportInitialBuildCheckpoint_sound (generation : GenerationId)
    (cursor cacheIdentity : String) :
    Sound w (w.exportInitialBuildCheckpoint build o generation cursor cacheIdentity) := by
  rw [exportInitialBuildCheckpoint]
  split
  · exact sound_refuse w _
  · split
    · exact sound_refuse w _
    · next target htarget =>
      have hstaged := initialColdStaging_eq_some htarget
      split
      · exact sound_refuse w _
      · dsimp only
        split
        · exact sound_refuse w _
        · split <;> refine sound_touched fun m hm => ⟨target, .inr hstaged, ?_⟩ <;>
            revert m <;> simp [Move.Touches]

lemma planInitialBuildCheckpointReconciliation_sound (generation : GenerationId) :
    Sound w (w.planInitialBuildCheckpointReconciliation o generation) := by
  rw [planInitialBuildCheckpointReconciliation]
  split
  · exact sound_refuse w _
  · split
    · exact sound_refuse w _
    · next target htarget =>
      have hstaged := initialColdStaging_eq_some htarget
      split
      · exact sound_refuse w _
      · refine sound_touched fun m hm => ⟨target, .inr hstaged, ?_⟩
        revert m
        simp [Move.Touches]

lemma status_sound (limit : ℕ) (noFormats : List (String × ℕ)) :
    Sound w (w.status o limit noFormats) := by
  rw [status]
  split
  · exact ⟨.refl w, rfl⟩
  · refine sound_touched fun m hm => ?_
    obtain ⟨g, hg, rfl⟩ := mem_map.mp hm
    refine ⟨g, ?_, rfl⟩
    simpa [Holds] using hg

end

lemma requireInitialized_eq_ok (h : w.requireInitialized = .ok ()) :
    w.state = .ready ∨ w.state = .building := by
  rw [requireInitialized] at h
  split at h
  · cases h
  · split at h
    · cases h
    · next hserving =>
      simp only [not_or, not_and_or, ne_eq, not_not] at hserving
      exact hserving.2

/-- The active generation that an update in place is about. -/
def UpdatesInPlace (w : Worker Rows) (request : SourceChanges) (next : GenerationId)
    (active : Generation Rows) : Prop :=
  w.active = some active ∧ active.id = request.generation ∧ w.staging = none ∧
    next ∉ w.usedGenerations

lemma applyInPlace_of_updates {active : Generation Rows}
    (h : w.UpdatesInPlace request next active) {changed : _ × IndexContents Rows}
    (hchanged : changeSources o = .ok changed) :
    ∃ target : Generation Rows, target.id = next ∧ target.index.handle = active.index.handle ∧
      w.applyInPlace o request next =
        ⟨(generationResult o target).mapError sourceChangeError,
          { w with active := some target, usedGenerations := next :: w.usedGenerations },
          [.changed active.index.handle, .renamed active.index.handle next,
            .read active.index.handle]⟩ := by
  obtain ⟨hactive, hid, hnone, hfresh⟩ := h
  refine ⟨{ updateQuarantinedSources request.upserts request.removals changed.1
    (withContents active changed.2) with id := next }, rfl, rfl, ?_⟩
  rw [applyInPlace, hactive]
  simp only [Option.filter_some, hid, decide_true, if_true, hnone, Option.isSome_none,
    Bool.false_eq_true, hfresh, or_self, if_false, hchanged]

lemma applyInPlace_of_not_updates

    (h : ∀ active changed, w.UpdatesInPlace request next active → changeSources o = .ok changed → False) :
    ∃ fault, w.applyInPlace o request next = w.refuse fault := by
  rw [applyInPlace]
  split
  · exact ⟨_, rfl⟩
  · next active hactive =>
    obtain ⟨hactive, hid⟩ := Option.filter_eq_some_iff.mp hactive
    split
    · exact ⟨_, rfl⟩
    · next hfree =>
      simp only [not_or, Option.isSome_iff_ne_none, ne_eq, not_not] at hfree
      dsimp only
      split
      · exact ⟨_, rfl⟩
      · next changed hchanged =>
        exact (h active _ ⟨hactive, by simpa using hid, hfree.1, hfree.2⟩ hchanged).elim

lemma applySourceChanges_effect (hrunning : Running w) (o : Outcomes Rows Answer)
    (request : SourceChanges) :
    Effect w (w.applySourceChanges o request).moves (w.applySourceChanges o request).worker := by
  rw [applySourceChanges]
  split
  · exact .refl w
  · split
    · exact (applyToStaging_sound hrunning o request).effect
    · next next _ =>
      by_cases h : ∃ active changed, w.UpdatesInPlace request next active ∧
          changeSources o = .ok changed
      · obtain ⟨active, changed, hupdates, hchanged⟩ := h
        obtain ⟨target, rfl, hhandle, heq⟩ := applyInPlace_of_updates hupdates hchanged
        rw [heq]
        have hrenamed := @Effect.renamed _ w active target hupdates.1 hupdates.2.2.1
          hupdates.2.2.2 hhandle
        exact hrenamed.seq (hhandle ▸ .read (.inl rfl))
      · obtain ⟨fault, heq⟩ := applyInPlace_of_not_updates
          fun active changed hupdates hchanged => h ⟨active, changed, hupdates, hchanged⟩
        rw [heq]
        exact .refl w

/-- The active generation is replaced: an update in place, a publication or a disposal succeeds, but
perhaps for the answer. -/
def Replaces (env : Environment) (o : Outcomes Rows Answer) (w : Worker Rows) :
    WorkerOperation → Prop
  | .applySourceChanges request => w.requireInitialized = .ok () ∧
    ∃ next active, request.nextGeneration = some next ∧ w.UpdatesInPlace request next active ∧
      ∃ changed, changeSources o = .ok changed
  | .commitBuild generation => ∃ target, w.requireStaging generation = .ok target ∧
    Publishes o target true
  | .restoreGeneration request => ∃ index,
    w.openGeneration env.identities o request = .ok index ∧
      Publishes o (w.generationOf request.generation index) false
  | .dispose => w.active.isSome = true
  | _ => False

/-- The database of an index that is updated in place cannot be measured for the answer. -/
def Unmeasured (o : Outcomes Rows Answer) (w : Worker Rows) : WorkerOperation → Prop
  | .applySourceChanges _ =>
    ∃ active fault, w.active = some active ∧ o.measured active.index.handle = .error fault
  | _ => False

lemma applySourceChanges_kept (hrunning : Running w) (env : Environment)
    (h : ¬ Replaces env o w (.applySourceChanges request)) :
    (w.applySourceChanges o request).worker.active = w.active := by
  rw [applySourceChanges]
  split
  · rfl
  · next hrequire =>
    split
    · exact (applyToStaging_sound hrunning o request).kept
    · next next hnext =>
      obtain ⟨other, heq⟩ := applyInPlace_of_not_updates fun active changed hupdates hchanged =>
        h ⟨hrequire, next, active, hnext, hupdates, changed, hchanged⟩
      rw [heq]
      rfl

/-- An update in place takes place before its answer is computed. -/
theorem applySourceChanges_of_replaces {env : Environment}
    (h : Replaces env o w (.applySourceChanges request)) :
    ∃ active target, w.active = some active ∧ target.id ∉ w.usedGenerations ∧
      target.index.handle = active.index.handle ∧
      (w.applySourceChanges o request).result =
        (generationResult o target).mapError sourceChangeError ∧
      (w.applySourceChanges o request).worker.active = some target := by
  obtain ⟨hrequire, next, active, hnext, hupdates, changed, hchanged⟩ := h
  obtain ⟨target, rfl, hhandle, heq⟩ := applyInPlace_of_updates hupdates hchanged
  refine ⟨active, target, hupdates.1, hupdates.2.2.2, hhandle, ?_, ?_⟩ <;>
    simp only [applySourceChanges, hrequire, hnext, heq]

lemma restoreGeneration_of_replaces {env : Environment} {restored : RestoreRequest}
    (h : Replaces env o w (.restoreGeneration restored)) :
    ∃ target result, target.id ∉ w.usedGenerations ∧
      (w.restoreGeneration env.identities o restored).result = .ok result ∧
      (w.restoreGeneration env.identities o restored).worker.active = some target := by
  obtain ⟨index, hopened, hpublishes⟩ := h
  obtain ⟨result, heq⟩ := publishStaging_of_publishes hpublishes
    (w.stage (w.generationOf restored.generation index))
  refine ⟨w.generationOf restored.generation index, ⟨result, index.evictions⟩,
    (openGeneration_eq_ok hopened).2, ?_, ?_⟩ <;>
    simp only [restoreGeneration, hopened, heq]
  · rfl
  · rfl

/-! ## §3 Requests -/

lemma perform_initializeWorker (hcold : w.state ≠ .cold) (o : Outcomes Rows Answer)
    (request : InitializeRequest) : Sound w (w.initializeWorker o request) := by
  rw [initializeWorker, if_pos hcold]
  exact sound_refuse w _

lemma Running.not_cold (h : Running w) : w.state ≠ .cold := by
  rw [h.state]
  split <;> simp

/-- While the module serves, every operation but disposal is a sequence of effects. -/
theorem perform_effect (hrunning : Running w) (env : Environment) (o : Outcomes Rows Answer)
    (hdispose : operation ≠ .dispose) :
    Effect w (w.perform env o operation).moves (w.perform env o operation).worker := by
  cases operation with
  | initializeWorker request => exact (perform_initializeWorker hrunning.not_cold o request).effect
  | beginBuild generation => exact (beginBuild_sound o generation).effect
  | addSourceBatch generation sources =>
    exact (addSourceBatch_sound hrunning o generation sources).effect
  | applySourceChanges request => exact applySourceChanges_effect hrunning o request
  | commitBuild generation => exact commitBuild_effect o generation
  | abortBuild generation => exact (abortBuild_sound o generation).effect
  | exportGeneration generation cacheIdentity =>
    exact (exportGeneration_readsActive w env.identities o generation cacheIdentity).sound.effect
  | restoreGeneration request => exact restoreGeneration_effect env.identities o request
  | planReconciliation generation => exact (planReconciliation_readsActive w o generation).sound.effect
  | exportInitialBuildCheckpoint generation cursor cacheIdentity =>
    exact (exportInitialBuildCheckpoint_sound w env.identities o generation cursor
      cacheIdentity).effect
  | restoreInitialBuildCheckpoint request =>
    exact (restoreInitialBuildCheckpoint_sound env.identities o request).effect
  | planInitialBuildCheckpointReconciliation generation =>
    exact (planInitialBuildCheckpointReconciliation_sound w o generation).effect
  | search => exact (search_readsActive w o).sound.effect
  | status => exact (status_sound w o _ _).effect
  | dispose => exact absurd rfl hdispose

/-- An operation that does not replace the active generation keeps it. -/
theorem perform_kept (hrunning : Running w) (env : Environment) (o : Outcomes Rows Answer)
    (h : ¬ Replaces env o w operation) :
    (w.perform env o operation).worker.active = w.active := by
  cases operation with
  | initializeWorker request => exact (perform_initializeWorker hrunning.not_cold o request).kept
  | beginBuild generation => exact (beginBuild_sound o generation).kept
  | addSourceBatch generation sources => exact (addSourceBatch_sound hrunning o generation sources).kept
  | applySourceChanges request => exact applySourceChanges_kept hrunning env h
  | commitBuild generation =>
    rw [perform, Reply.map, commitBuild]
    split
    · rfl
    · next target hrequire =>
      refine (publishStaging_sound (requireStaging_eq_ok hrequire).1 fun hpublishes => ?_).kept
      exact h ⟨target, hrequire, hpublishes⟩
  | abortBuild generation => exact (abortBuild_sound o generation).kept
  | exportGeneration generation cacheIdentity =>
    exact (exportGeneration_readsActive w env.identities o generation cacheIdentity).sound.kept
  | restoreGeneration request =>
    rw [perform, Reply.map, restoreGeneration]
    dsimp only
    split
    · rfl
    · next index hopened =>
      exact (publishStaging_sound (w := w.stage (w.generationOf request.generation index)) rfl
        fun hpublishes => h ⟨index, hopened, hpublishes⟩).kept
  | planReconciliation generation => exact (planReconciliation_readsActive w o generation).sound.kept
  | exportInitialBuildCheckpoint generation cursor cacheIdentity =>
    exact (exportInitialBuildCheckpoint_sound w env.identities o generation cursor
      cacheIdentity).kept
  | restoreInitialBuildCheckpoint request =>
    exact (restoreInitialBuildCheckpoint_sound env.identities o request).kept
  | planInitialBuildCheckpointReconciliation generation =>
    exact (planInitialBuildCheckpointReconciliation_sound w o generation).kept
  | search => exact (search_readsActive w o).sound.kept
  | status => exact (status_sound w o _ _).kept
  | dispose =>
    rw [perform, Reply.map, dispose]
    split
    · rfl
    · exact (Option.not_isSome_iff_eq_none.mp h).symm

lemma Running.id_ne (hrunning : Running w) (hfresh : target.id ∉ w.usedGenerations) :
    some target.id ≠ w.active.map Generation.id := by
  intro heq
  obtain ⟨g, hg, hid⟩ := Option.map_eq_some_iff.mp heq.symm
  exact hfresh (hid ▸ hrunning.used g (.inl hg))

/-- What replaces the active generation has another id, or is nothing. -/
theorem perform_replaced (hrunning : Running w) {env : Environment}
    (h : Replaces env o w operation) :
    (w.perform env o operation).worker.active.map Generation.id ≠ w.active.map Generation.id := by
  cases operation with
  | applySourceChanges request =>
    obtain ⟨-, target, -, hfresh, -, -, htarget⟩ := applySourceChanges_of_replaces h
    rw [perform, Reply.map, htarget]
    exact hrunning.id_ne hfresh
  | commitBuild generation =>
    obtain ⟨target, hrequire, hpublishes⟩ := h
    obtain ⟨result, hpublished⟩ := publishStaging_of_publishes hpublishes w
    simp only [perform, Reply.map, commitBuild, hrequire, hpublished, publish, Option.map_some]
    intro heq
    obtain ⟨g, hg, hid⟩ := Option.map_eq_some_iff.mp heq.symm
    exact hrunning.distinct g target hg (requireStaging_eq_ok hrequire).1 hid
  | restoreGeneration request =>
    obtain ⟨target, -, hfresh, -, htarget⟩ := restoreGeneration_of_replaces h
    rw [perform, Reply.map, htarget]
    exact hrunning.id_ne hfresh
  | dispose =>
    obtain ⟨g, hg⟩ := Option.isSome_iff_exists.mp h
    have hdisposed : w.state ≠ .disposed := by
      rw [hrunning.state]
      split <;> simp
    simp [perform, Reply.map, dispose, hdisposed, hg]
  | _ => exact h.elim

/-- An operation that replaces the active generation fails exactly when the answer of an update in
place cannot be computed. -/
theorem perform_failed_iff {env : Environment} (h : Replaces env o w operation) :
    (∃ fault, (w.perform env o operation).result = .error fault) ↔ Unmeasured o w operation := by
  cases operation with
  | applySourceChanges request =>
    obtain ⟨active, target, hactive, -, hhandle, hresult, -⟩ := applySourceChanges_of_replaces h
    constructor
    · rintro ⟨fault, hfault⟩
      cases hmeasured : o.measured active.index.handle with
      | error other => exact ⟨active, other, hactive, hmeasured⟩
      | ok bytes =>
        rw [perform, Reply.map, hresult, generationResult, hhandle, hmeasured] at hfault
        cases hfault
    · rintro ⟨other, fault, hother, hmeasured⟩
      obtain rfl := Option.some.inj (hactive.symm.trans hother)
      refine ⟨sourceChangeError fault, ?_⟩
      rw [perform, Reply.map, hresult, generationResult, hhandle, hmeasured]
      rfl
  | commitBuild generation =>
    obtain ⟨target, hrequire, hpublishes⟩ := h
    obtain ⟨result, hpublished⟩ := publishStaging_of_publishes hpublishes w
    refine iff_of_false ?_ id
    simp [perform, Reply.map, commitBuild, hrequire, hpublished, Except.map]
  | restoreGeneration request =>
    obtain ⟨-, result, -, hresult, -⟩ := restoreGeneration_of_replaces h
    refine iff_of_false ?_ id
    simp [perform, Reply.map, hresult, Except.map]
  | dispose =>
    refine iff_of_false ?_ id
    rw [perform, Reply.map, dispose]
    split <;> simp [Except.map]
  | _ => exact h.elim

/-! ## §4 Sessions -/

/-- A module that is not initialized, or no longer serves. -/
structure Waits (w : Worker Rows) : Prop where
  state : w.state ≠ .ready ∧ w.state ≠ .building
  cold : w.state = .cold → w.active = none ∧ w.staging = none ∧ w.usedGenerations = [] ∧
    w.nextHandle = 0 ∧ w.stagingIsInitialCold = false ∧ w.stagingRestoredCheckpoint = false ∧
    w.stagingPreviewEligible = false

lemma Waits.requireInitialized (h : Waits w) : ∃ fault, w.requireInitialized = .error fault := by
  cases hresult : w.requireInitialized with
  | error fault => exact ⟨fault, rfl⟩
  | ok =>
    rcases requireInitialized_eq_ok hresult with hready | hbuilding
    · exact absurd hready h.state.1
    · exact absurd hbuilding h.state.2

lemma perform_waits (h : Waits w) (env : Environment) (o : Outcomes Rows Answer)
    (hinit : ∀ request, operation = .initializeWorker request →
      ∃ fault, (w.perform env o operation).result = .error fault) :
    Waits (w.perform env o operation).worker := by
  obtain ⟨fault, hrequire⟩ := h.requireInitialized
  have hstaging : ∀ generation, w.requireStaging generation = .error fault := by
    intro generation
    rw [requireStaging, hrequire]
    rfl
  -- every operation but the three below starts with the guard
  have hrefused : ∀ {α : Type} {fault : Fault}, Waits (w.refuse fault : Reply Rows α).worker :=
    fun {_ _} => h
  cases operation with
  | initializeWorker request =>
    obtain ⟨other, hother⟩ := hinit request rfl
    rw [perform, initializeWorker] at hother ⊢
    split
    · exact h
    · next hcold =>
      simp only [ne_eq, not_not] at hcold
      cases hresult : o.initialized with
      | error other =>
        exact ⟨by simp [Reply.map], fun hfailed => by simp [Reply.map] at hfailed⟩
      | ok identity => simp [hcold, hresult, Reply.map, Except.map] at hother
  | status =>
    rw [perform, status]
    split <;> exact h
  | dispose =>
    rw [perform, dispose]
    split
    · exact h
    · exact ⟨by simp [Reply.map], fun hcold => by simp [Reply.map] at hcold⟩
  | beginBuild generation =>
    rw [perform, beginBuild]
    simp only [hrequire]
    exact hrefused
  | restoreGeneration request =>
    rw [perform, restoreGeneration, openGeneration]
    simp only [hrequire]
    exact hrefused
  | restoreInitialBuildCheckpoint request =>
    rw [perform, restoreInitialBuildCheckpoint]
    simp only [hrequire]
    exact hrefused
  | addSourceBatch generation sources =>
    rw [perform, addSourceBatch, hstaging]
    exact hrefused
  | commitBuild generation =>
    rw [perform, commitBuild, hstaging]
    exact hrefused
  | abortBuild generation =>
    rw [perform, abortBuild, hstaging]
    exact hrefused
  | applySourceChanges request =>
    rw [perform, applySourceChanges, hrequire]
    exact hrefused
  | exportGeneration generation cacheIdentity =>
    rw [perform, exportGeneration, hrequire]
    exact hrefused
  | planReconciliation generation =>
    rw [perform, planReconciliation, hrequire]
    exact hrefused
  | exportInitialBuildCheckpoint generation cursor cacheIdentity =>
    rw [perform, exportInitialBuildCheckpoint, hrequire]
    exact hrefused
  | planInitialBuildCheckpointReconciliation generation =>
    rw [perform, planInitialBuildCheckpointReconciliation, hrequire]
    exact hrefused
  | search =>
    rw [perform, search, hrequire]
    exact hrefused

lemma handleMessage_stale (env : Environment) (o : Outcomes Rows Answer) {request : WorkerRequest}
    (h : request.id ≤ w.lastRequestId) :
    (w.handleMessage env o request).worker = w ∧ (w.handleMessage env o request).moves = [] := by
  simp only [handleMessage, dispatchProduction, if_pos h]
  exact ⟨rfl, rfl⟩

/-- The module with the id of a request that is new. -/
def accept (w : Worker Rows) (request : WorkerRequest) : Worker Rows :=
  { w with lastRequestId := request.id }

lemma dispatchProduction_fresh (env : Environment) (o : Outcomes Rows Answer)
    {request : WorkerRequest} (h : ¬ request.id ≤ w.lastRequestId) :
    w.dispatchProduction env o request = (w.accept request).perform env o request.operation :=
  if_neg h

/-- A request is answered with an error when its response cannot be posted, or is one. -/
theorem handleMessage_failed_iff (env : Environment) (o : Outcomes Rows Answer)
    (request : WorkerRequest) :
    (∃ fault, (w.handleMessage env o request).result = .error fault) ↔
      (∃ fault, o.posted = .error fault) ∨
        ∃ fault, (w.dispatchProduction env o request).result = .error fault := by
  rw [handleMessage]
  cases o.posted with
  | error fault => simp
  | ok => cases (w.dispatchProduction env o request).result <;> simp [Except.mapError]

lemma Running.accept (h : Running w) (request : WorkerRequest) : Running (w.accept request) :=
  ⟨h.state, h.idle, h.cold, h.eligible, h.used, h.distinct⟩

/-- The module before it is initialized: requests of any kind came in, and none initialized it. -/
inductive Waiting (env : Environment) : Worker Rows → Prop where
  | initial : Waiting env initial
  | step {w : Worker Rows} (h : Waiting env w) (o : Outcomes Rows Answer) (request : WorkerRequest)
      (hinit : ∀ r, request.operation = .initializeWorker r →
        ∃ fault, (w.dispatchProduction env o request).result = .error fault) :
      Waiting env (w.handleMessage env o request).worker

/-- The module after it is initialized, whether that is answered or not, and before it is disposed
of, with what was done to its indexes since. -/
inductive Serving (env : Environment) (Answer : Type) :
    Worker Rows → List (Move GenerationId) → Prop where
  | started {w : Worker Rows} (h : @Waiting Rows Answer env w) (o : Outcomes Rows Answer)
      {request : WorkerRequest} {r : InitializeRequest}
      (hoperation : request.operation = .initializeWorker r) {result : WorkerResult Answer}
      (hresult : (w.dispatchProduction env o request).result = .ok result) :
      Serving env Answer (w.handleMessage env o request).worker []
  | step {w : Worker Rows} {trace : List (Move GenerationId)} (h : Serving env Answer w trace)
      (o : Outcomes Rows Answer) (request : WorkerRequest)
      (hdispose : request.operation = .dispose → request.id ≤ w.lastRequestId) :
      Serving env Answer (w.handleMessage env o request).worker
        (trace ++ (w.handleMessage env o request).moves)

lemma Waiting.waits {env : Environment} (h : @Waiting Rows Answer env w) : Waits w := by
  induction h with
  | initial =>
    exact ⟨⟨nofun, nofun⟩,
      fun _ => ⟨rfl, rfl, rfl, rfl, rfl, rfl, rfl⟩⟩
  | @step w _ o request hinit ih =>
    by_cases hid : request.id ≤ w.lastRequestId
    · rw [(handleMessage_stale _ _ hid).1]
      exact ih
    · have ih' : Waits (w.accept request) := ⟨ih.state, ih.cold⟩
      rw [dispatchProduction_fresh env o hid] at hinit
      rw [handleMessage, dispatchProduction_fresh env o hid]
      exact perform_waits ih' env o hinit

/-- What a session keeps: the variables are consistent, and what was done is a run of a staged
publication. -/
theorem Serving.refines {env : Environment} {trace : List (Move GenerationId)}
    (h : Serving env Answer w trace) :
    Running w ∧ ∃ p, Publication.empty.run trace = some p ∧ Refines p w := by
  induction h with
  | @started w hwaiting o request r hoperation result hresult =>
    have hwaits := hwaiting.waits
    have hid : ¬ request.id ≤ w.lastRequestId := by
      intro hid
      rw [dispatchProduction, if_pos hid] at hresult
      cases hresult
    rw [handleMessage, dispatchProduction_fresh env o hid]
    rw [dispatchProduction_fresh env o hid] at hresult
    rw [hoperation, perform, initializeWorker] at hresult ⊢
    split at hresult
    · cases hresult
    · next hcold =>
      rw [if_neg hcold]
      obtain ⟨hactive, hstaging, hused, hnext, hflags⟩ :=
        hwaits.cold (by simpa [accept] using hcold)
      cases hidentity : o.initialized with
      | error other => simp [hidentity, Reply.map, Except.map] at hresult
      | ok identity =>
        simp only [Reply.map, accept]
        exact ⟨⟨by simp [hstaging], fun _ => hflags, fun _ => hactive,
          fun heligible => by simp [hflags] at heligible, fun g hg => by
            simp [Holds, hactive, hstaging] at hg, fun g g' hg => by simp [hactive] at hg⟩,
          Publication.empty, rfl, by simp [Publication.empty, hactive],
          by simp [Publication.empty, hstaging], by simp [Publication.empty, hused],
          by simp [Publication.empty, hnext]⟩
  | @step w trace _ o request hdispose ih =>
    obtain ⟨hrunning, p, hrun, hp⟩ := ih
    by_cases hid : request.id ≤ w.lastRequestId
    · obtain ⟨hworker, hmoves⟩ := handleMessage_stale env o hid
      rw [hworker, hmoves, append_nil]
      exact ⟨hrunning, p, hrun, hp⟩
    · have hrunning' := hrunning.accept request
      have hp' : Refines p (w.accept request) := ⟨hp.active, hp.staging, hp.used, hp.next⟩
      have heffect := perform_effect hrunning' env o fun heq => hid (hdispose heq)
      obtain ⟨p', hrun', hp''⟩ := heffect.refines hp'
      rw [handleMessage, dispatchProduction_fresh env o hid, Publication.run_append hrun]
      exact ⟨heffect.running hrunning', p', hrun', hp''⟩

/-! ## §5 The protocol -/

/-- The rows and counters that are served, with their generation's id. -/
def served (w : Worker Rows) : Option (GenerationId × Rows × IndexCounters) :=
  w.active.map fun g => (g.id, g.index.contents.rows, g.index.contents.counters)

/-- What holds at every point of a session. -/
structure Consistent (w : Worker Rows) (trace : List (Move GenerationId)) : Prop where
  building : w.state = .building ↔ w.staging.isSome = true
  ready : w.state = .ready ↔ w.staging = none
  unique : ∀ handle handle' id, Named trace handle id → Named trace handle' id → handle = handle'
  named : ∀ g, w.Holds g → Named trace g.index.handle g.id
  published : ∀ g, w.active = some g → PublishedChecked trace g.index.handle
  preview : w.stagingPreviewEligible = true → w.staging.isSome = true ∧ w.active = none ∧
    w.stagingIsInitialCold = true ∧ w.stagingRestoredCheckpoint = false

lemma Serving.consistent {env : Environment} {trace : List (Move GenerationId)}
    (h : Serving env Answer w trace) : Consistent w trace := by
  obtain ⟨hrunning, p, hrun, hp⟩ := h.refines
  have hrecorded := Recorded.empty.run hrun
  rw [nil_append] at hrecorded
  have hstate := hrunning.state
  refine ⟨?_, ?_, hrecorded.unique, ?_, ?_, ?_⟩
  · rw [hstate]
    split <;> simp [*]
  · rw [hstate, ← Option.not_isSome_iff_eq_none]
    split <;> simp [*]
  · rintro g (hg | hg)
    · exact hrecorded.active _ _ (by rw [hp.active, hg]; rfl)
    · exact hrecorded.staging _ _ (by rw [hp.staging, hg]; rfl)
  · intro g hg
    exact hrecorded.published _ (by rw [hp.active, hg]; rfl)
  · intro heligible
    obtain ⟨hcold, hrestored⟩ := hrunning.eligible heligible
    refine ⟨?_, hrunning.cold hcold, hcold, hrestored⟩
    by_contra hnone
    rw [Option.not_isSome_iff_eq_none] at hnone
    rw [(hrunning.idle hnone).2.2] at heligible
    cases heligible

/-- The operations that read the active generation. -/
def readsActive : WorkerOperation → Bool
  | .search | .exportGeneration .. | .planReconciliation _ => true
  | _ => false

lemma perform_readsActive (w : Worker Rows) (env : Environment) (o : Outcomes Rows Answer)
    (h : readsActive operation = true) : ReadsActive w (w.perform env o operation) := by
  cases operation with
  | exportGeneration generation cacheIdentity =>
    have hreads := exportGeneration_readsActive w env.identities o generation cacheIdentity
    exact ⟨hreads.worker, hreads.moves⟩
  | planReconciliation generation =>
    have hreads := planReconciliation_readsActive w o generation
    exact ⟨hreads.worker, hreads.moves⟩
  | search =>
    have hreads := search_readsActive w o
    exact ⟨hreads.worker, hreads.moves⟩
  | _ => cases h

/-- A new request replaces the active generation, and cannot be answered: the response cannot be
posted, or the database cannot be measured after an update in place. -/
def LosesAnswer (env : Environment) (o : Outcomes Rows Answer) (w : Worker Rows)
    (request : WorkerRequest) : Prop :=
  w.lastRequestId < request.id ∧ Replaces env o w request.operation ∧
    ((∃ fault, o.posted = .error fault) ∨ Unmeasured o w request.operation)

/-- The id of a request plays no part in what it replaces. -/
theorem replaces_accept (env : Environment) (o : Outcomes Rows Answer) (w : Worker Rows)
    (request : WorkerRequest) :
    (Replaces env o (w.accept request) operation ↔ Replaces env o w operation) ∧
      (Unmeasured o (w.accept request) operation ↔ Unmeasured o w operation) := by
  cases operation <;> exact ⟨Iff.rfl, Iff.rfl⟩

/-- At every point of a session the variables are consistent, reading requests touch the active
generation alone, and a request that is answered with an error leaves it alone exactly when it did
not replace it and then lose its answer. -/
theorem worker_protocol (env : Environment) {w : Worker Rows} {trace : List (Move GenerationId)}
    (h : Serving env Answer w trace) :
    Consistent w trace ∧
    (∀ (o : Outcomes Rows Answer) (request : WorkerRequest), readsActive request.operation = true →
      ∀ m ∈ (w.handleMessage env o request).moves,
        ∃ g, w.active = some g ∧ m.Touches g.index.handle) ∧
    ∀ (o : Outcomes Rows Answer) (request : WorkerRequest),
      ((∃ fault, (w.handleMessage env o request).result = .error fault) →
        (w.handleMessage env o request).worker.served = w.served) ↔
          ¬ LosesAnswer env o w request := by
  refine ⟨h.consistent, fun o request hreads m hm => ?_, fun o request => ?_⟩
  · by_cases hid : request.id ≤ w.lastRequestId
    · rw [(handleMessage_stale _ _ hid).2] at hm
      cases hm
    · rw [handleMessage, dispatchProduction_fresh _ _ hid] at hm
      exact (perform_readsActive (w.accept request) env o hreads).moves m hm
  · by_cases hid : request.id ≤ w.lastRequestId
    · rw [(handleMessage_stale _ _ hid).1]
      exact iff_of_true (fun _ => rfl) fun hloses => absurd hloses.1 (Nat.not_lt.mpr hid)
    · have hrunning := h.refines.1.accept request
      rw [handleMessage_failed_iff, dispatchProduction_fresh _ _ hid, LosesAnswer,
        ← (replaces_accept env o w request).1, ← (replaces_accept env o w request).2, handleMessage,
        dispatchProduction_fresh _ _ hid]
      by_cases hreplaces : Replaces env o (w.accept request) request.operation
      · -- the ids tell the generations apart
        have hserved : ((w.accept request).perform env o request.operation).worker.served ≠
            w.served := by
          intro heq
          refine perform_replaced hrunning hreplaces ?_
          have hids := congrArg (Option.map Prod.fst) heq
          rw [served, served, Option.map_map, Option.map_map] at hids
          exact hids
        rw [perform_failed_iff hreplaces]
        exact ⟨fun hkept hloses => hserved (hkept hloses.2.2),
          fun hanswered hlost => absurd ⟨Nat.not_le.mp hid, hreplaces, hlost⟩ hanswered⟩
      · have hkept := perform_kept hrunning env o hreplaces
        exact iff_of_true (fun _ => congrArg (Option.map _) hkept) fun hloses => hreplaces hloses.2.1

/-! ### A lost answer -/

/-- Calls that succeed, except that a database's size cannot be read where that is asked for. -/
def emptyIndexOutcomes (measured : Except Fault ℕ) (posted : Except Fault Unit) :
    Outcomes Unit Unit where
  initialized := .ok ⟨1, 1, 1, 1, 1, 1⟩
  opened := .ok ⟨⟨(), ⟨0, 0, 0, 0, []⟩, none⟩, true, 0, ⟨[], []⟩⟩
  prepared := .ok []
  applied := .ok ⟨(), ⟨1, 1, 0, 1, []⟩, some 1⟩
  asserted _ := .ok ()
  compacted := .ok ()
  measured _ := measured
  exported _ := .ok [0]
  digest _ := .ok ""
  imageWal _ := .ok false
  planned _ := .ok ()
  traceStarted := .ok ()
  searched _ := .ok ()
  posted := posted

def smallEnvironment : Environment :=
  ⟨⟨"kwiry", "1", "", ""⟩, 0, []⟩

/-- A module that was initialized, and then built and published a first generation. -/
def publishedFirst : Worker Unit :=
  let o := emptyIndexOutcomes (.ok 0) (.ok ())
  let initialized := initial.handleMessage smallEnvironment o
    ⟨1, .initializeWorker ⟨"vault", "", []⟩⟩
  let begun := initialized.worker.handleMessage smallEnvironment o ⟨2, .beginBuild "g1"⟩
  (begun.worker.handleMessage smallEnvironment o ⟨3, .commitBuild "g1"⟩).worker

lemma serving_publishedFirst : Serving smallEnvironment Unit publishedFirst
    [.opened 0 "g1", .read 0, .read 0, .changed 0, .checked 0, .read 0, .published 0] :=
  .step (.step (.started .initial (emptyIndexOutcomes (.ok 0) (.ok ())) rfl rfl)
    (emptyIndexOutcomes (.ok 0) (.ok ())) ⟨2, .beginBuild "g1"⟩ nofun)
    (emptyIndexOutcomes (.ok 0) (.ok ())) ⟨3, .commitBuild "g1"⟩ nofun

theorem worker_protocol_publishedFirst : Consistent publishedFirst
    [.opened 0 "g1", .read 0, .read 0, .changed 0, .checked 0, .read 0, .published 0] :=
  (worker_protocol smallEnvironment serving_publishedFirst).1

/-- The size of the database cannot be read after an update in place: the request fails, and the
active generation has the new id and rows. -/
theorem update_in_place_loses_answer :
    let reply := publishedFirst.handleMessage smallEnvironment
      (emptyIndexOutcomes (.error .integrity) (.ok ()))
      ⟨4, .applySourceChanges ⟨"g1", some "g2", [("vault", "a.md")], []⟩⟩
    (∃ trace, Serving smallEnvironment Unit publishedFirst trace) ∧
      (∃ fault, reply.result = .error fault) ∧ reply.worker.served ≠ publishedFirst.served := by
  refine ⟨⟨_, serving_publishedFirst⟩, ⟨_, rfl⟩, ?_⟩
  decide +kernel

end Worker

end Kwiry.Plugin
