import Mathlib.Data.List.Induction
import Kwiry.Runtime.Convergence

/-!
# Coverage of the Rolling Audit

Under the metadata basis a full pass audits a few of the sources whose metadata it reuses.
One budget and one cursor serve all vaults in configuration order: a vault is audited with
what the vaults before it left of the budget, from the cursor they left, reduced to its own
number of candidates.

So a vault behind an exhausted budget is never audited, and the cursor of the vault in which
the budget ends comes back reduced by every vault before it. Coverage of all sources needs
the budget to reach every vault and no smaller vault in front of the one where it ends.
-/

namespace Kwiry

open Foundations List

/-! ## §1 One selection -/

variable {budget start : ℕ}

namespace AuditBudget

/-- The candidate at a position is taken. -/
def take (selection : AuditSelection) (key : SourceKey) (byteLength : ℕ) : AuditSelection where
  budget :=
    { selection.budget with
      remainingSources := selection.budget.remainingSources - 1
      remainingBytes := selection.budget.remainingBytes - byteLength }
  examined := selection.examined + 1
  selected := selection.selected.insert key

/-- No examined candidate is skipped for its size. -/
def LoopFits (candidates : List (SourceKey × ℕ)) (start : ℕ) : ℕ → AuditSelection → Prop
  | 0, _ => True
  | left + 1, selection =>
    selection.budget.remainingSources = 0 ∨
      ∀ key byteLength,
        candidates[(start + selection.examined) % candidates.length]? = some (key, byteLength) →
        byteLength ≤ selection.budget.remainingBytes ∧
          LoopFits candidates start left (take selection key byteLength)

/-- The byte budget does not bind when a vault's candidates are selected. -/
structure Fits (budget : AuditBudget) (candidates : List (SourceKey × ℕ)) : Prop where
  loop : LoopFits candidates (budget.cursor % candidates.length) candidates.length ⟨budget, 0, ∅⟩

lemma selectLoop_spec {candidates : List (SourceKey × ℕ)} (hne : candidates ≠ [])
    {left : ℕ} {selection : AuditSelection} (hfits : LoopFits candidates start left selection) :
    let final := selectLoop candidates start left selection
    let count := min selection.budget.remainingSources left
    final.examined = selection.examined + count ∧
      final.budget.remainingSources = selection.budget.remainingSources - count ∧
      (∀ k ∈ selection.selected, k ∈ final.selected) ∧
      ∀ i < count, ∀ entry,
        candidates[(start + (selection.examined + i)) % candidates.length]? = some entry →
        entry.1 ∈ final.selected := by
  induction left generalizing selection with
  | zero => simp [selectLoop]
  | succ left ih =>
    have hlength : 0 < candidates.length := length_pos_of_ne_nil hne
    rw [selectLoop]
    by_cases hzero : selection.budget.remainingSources = 0
    · simp [hzero]
    rw [if_neg hzero]
    obtain ⟨⟨key, byteLength⟩, hentry⟩ : ∃ entry,
        candidates[(start + selection.examined) % candidates.length]? = some entry :=
      ⟨_, getElem?_eq_getElem (Nat.mod_lt _ hlength)⟩
    obtain ⟨hbytes, hrest⟩ := (hfits.resolve_left hzero) key byteLength hentry
    simp only [hentry, if_neg (Nat.not_lt.mpr hbytes)]
    obtain ⟨hexamined, hsources, hkept, htaken⟩ := ih hrest
    have hcount : min selection.budget.remainingSources (left + 1) =
        min (selection.budget.remainingSources - 1) left + 1 := by omega
    simp only [take] at hexamined hsources hkept htaken
    refine ⟨by rw [hexamined, hcount]; omega, by rw [hsources, hcount]; omega, ?_, ?_⟩
    · intro k hk
      exact hkept k (Std.ExtTreeSet.mem_insert.mpr (.inr hk))
    · intro i hi entry hget
      cases i with
      | zero =>
        rw [Nat.add_zero, hentry, Option.some.injEq] at hget
        subst hget
        exact hkept key Std.ExtTreeSet.mem_insert_self
      | succ i =>
        refine htaken i (by omega) entry ?_
        rw [← hget]
        congr 2
        omega

/-- A selection that is not cut by bytes takes consecutive candidates from the cursor, as many as
sources remain. -/
theorem select_spec {budget : AuditBudget} {candidates : List (SourceKey × ℕ)}
    (hne : candidates ≠ []) (hsources : 0 < budget.remainingSources)
    (hfits : budget.Fits candidates) : let start := budget.cursor % candidates.length
    let count := min budget.remainingSources candidates.length
    (budget.select candidates).1.cursor = (start + count) % candidates.length ∧
      (budget.select candidates).1.remainingSources = budget.remainingSources - count ∧
      ∀ i < count, ∀ entry, candidates[(start + i) % candidates.length]? = some entry →
        entry.1 ∈ (budget.select candidates).2 := by
  have hskip : ¬ (candidates.isEmpty || budget.remainingSources = 0) = true := by
    simp [hne, hsources.ne']
  obtain ⟨hexamined, hleft, -, htaken⟩ := selectLoop_spec hne hfits.loop
  simp only [Nat.zero_add] at hexamined hleft htaken
  simp only [select, if_neg hskip]
  exact ⟨by rw [hexamined], hleft, htaken⟩

lemma select_of_nil (budget : AuditBudget) : budget.select [] = (budget, ∅) := by
  simp [select]

lemma select_of_exhausted {budget : AuditBudget} (h : budget.remainingSources = 0)
    (candidates : List (SourceKey × ℕ)) : budget.select candidates = (budget, ∅) := by
  simp [select, h]

end AuditBudget

/-! ## §2 The audit of a pass -/

variable (B : Build)

/-- The budget a vault finds in a pass: what the vaults before it left. -/
def auditBefore (manifest : Manifest) (config : Config) (scope : ReconcileScope)
    (auditCursor : ℕ) (world : PassWorld) (before : List VaultRegistration) : AuditBudget :=
  (before.foldl (planDesktopVault B manifest config scope world)
    (desktopStart manifest config scope auditCursor)).audit

/-- A pass of a manager audits a source: its vault is mounted, and the vault's selection takes the
source. -/
def Audits (manager : DesktopIndexManager) (config : Config) (scope : ReconcileScope)
    (world : PassWorld) (vault : VaultRegistration) (path : Str) : Prop :=
  (world.vault vault).isDir = true ∧
    ∃ before after, config.vaults = before ++ vault :: after ∧
      sourceKey B.hash vault.id path ∈
        auditedKeys B vault (world.vault vault) manager.manifest
          (desktopContext B config scope world vault)
          (auditBefore B manager.manifest config scope manager.auditCursor world before)

/-- An endless run of passes, infinitely many of them full, over mounted vaults whose files stay as
they are. In every full pass the metadata of every source is reusable and the byte budget does not
bind. -/
structure SteadyRun (config : Config) (worlds : VaultRegistration → VaultWorld)
    (manager : ℕ → DesktopIndexManager) (scope : ℕ → ReconcileScope) (env : ℕ → PassEnv) :
    Prop where
  step : ∀ t, ∃ report,
    (manager t).reconcile B config (scope t) (env t) = (manager (t + 1), .ok report)
  full : ∀ t, ∃ u, t ≤ u ∧ scope u = .full
  unchanged : ∀ t, ∀ vault ∈ config.vaults, (env t).world.vault vault = worlds vault
  mounted : ∀ vault ∈ config.vaults, (worlds vault).isDir = true
  reusable : ∀ t, scope t = .full → ∀ vault ∈ config.vaults, ∀ file ∈ (worlds vault).files,
    observeFile B vault (manager t).manifest
      (desktopContext B config (scope t) (env t).world vault) file = .reuseMetadata
  fits : ∀ t, scope t = .full → ∀ before vault after, config.vaults = before ++ vault :: after →
    (auditBefore B (manager t).manifest config (scope t) (manager t).auditCursor (env t).world
      before).Fits
      (auditCandidates B vault (worlds vault) (manager t).manifest
        (desktopContext B config (scope t) (env t).world vault))

/-- The numbers of sources of some vaults. -/
def sourceCounts (worlds : VaultRegistration → VaultWorld) (vaults : List VaultRegistration) :
    List ℕ :=
  vaults.map fun vault => (worlds vault).files.length

/-- The budget reaches every vault that has sources, and where it ends inside a vault no vault
before that one has fewer sources. -/
def AuditReaches (budget : ℕ) (counts : List ℕ) : Prop :=
  ∀ before count after, counts = before ++ count :: after → 0 < count →
    before.sum < budget ∧ (before.sum + count ≤ budget ∨ ∀ n ∈ before, n = 0 ∨ count ≤ n)

/-! ## §3 One full pass -/

variable {after before : List VaultRegistration}

section OnePass

variable {B} {manifest : Manifest} {config : Config} {worlds : VaultRegistration → VaultWorld}
  {world : PassWorld} {cursor : ℕ}

/-- A full pass over steady vaults. -/
private structure SteadyPass (B : Build) (manifest : Manifest) (config : Config)
    (worlds : VaultRegistration → VaultWorld) (world : PassWorld) (cursor : ℕ) : Prop where
  unchanged : ∀ vault ∈ config.vaults, world.vault vault = worlds vault
  mounted : ∀ vault ∈ config.vaults, (worlds vault).isDir = true
  reusable : ∀ vault ∈ config.vaults, ∀ file ∈ (worlds vault).files,
    observeFile B vault manifest (desktopContext B config .full world vault) file = .reuseMetadata
  fits : ∀ before vault after, config.vaults = before ++ vault :: after →
    (auditBefore B manifest config .full cursor world before).Fits
      (auditCandidates B vault (worlds vault) manifest
        (desktopContext B config .full world vault))

section

variable {vault : VaultRegistration} (hpass : SteadyPass B manifest config worlds world cursor)
  (hvault : vault ∈ config.vaults)

include hpass hvault

lemma auditCandidates_eq :
    auditCandidates B vault (worlds vault) manifest (desktopContext B config .full world vault) =
      (worlds vault).files.map fun file =>
        (sourceKey B.hash vault.id file.relativePath, file.byteLength) := by
  rw [auditCandidates, filter_eq_self.mpr]
  intro file hfile
  simpa using hpass.reusable vault hvault file hfile

lemma auditBefore_concat (before : List VaultRegistration) :
    auditBefore B manifest config .full cursor world (before ++ [vault]) =
      ((auditBefore B manifest config .full cursor world before).select
        (auditCandidates B vault (worlds vault) manifest
          (desktopContext B config .full world vault))).1 := by
  have hworld := hpass.unchanged vault hvault
  have hdir := hpass.mounted vault hvault
  simp only [auditBefore, foldl_append, foldl_cons, foldl_nil, planDesktopVault,
    hworld, hdir, Bool.not_true, Bool.false_eq_true, if_false]
  rfl

end

/-- The cursor that vaults audited in full leave. -/
private def reduceCursor (cursor : ℕ) (counts : List ℕ) : ℕ :=
  counts.foldl (fun cursor count => if count = 0 then cursor else cursor % count) cursor

lemma reduceCursor_eq_self {counts : List ℕ} (h : ∀ n ∈ counts, n = 0 ∨ cursor < n) :
    reduceCursor cursor counts = cursor := by
  induction counts with
  | nil => rfl
  | cons n counts ih =>
    have hrest := ih fun m hm => h m (mem_cons_of_mem _ hm)
    have hstep : (if n = 0 then cursor else cursor % n) = cursor := by
      rcases h n mem_cons_self with hn | hn
      · simp [hn]
      · rw [if_neg (by omega), Nat.mod_eq_of_lt hn]
    simp only [reduceCursor, foldl_cons, hstep]
    exact hrest

section

variable (hpass : SteadyPass B manifest config worlds world cursor)

include hpass

/-- As long as the budget lasts, vaults are audited in full and only reduce the cursor. -/
theorem auditBefore_of_sum_le (hvaults : config.vaults = before ++ after)
    (hsum : (sourceCounts worlds before).sum ≤ config.auditSourcesPerPass) :
    (auditBefore B manifest config .full cursor world before).remainingSources =
        config.auditSourcesPerPass - (sourceCounts worlds before).sum ∧
      (auditBefore B manifest config .full cursor world before).cursor =
        reduceCursor cursor (sourceCounts worlds before) := by
  induction before using reverseRecOn generalizing after with
  | nil => exact ⟨rfl, rfl⟩
  | append_singleton before vault ih =>
    have hsplit : config.vaults = before ++ vault :: after := by simpa using hvaults
    have hvault : vault ∈ config.vaults := by simp [hsplit]
    simp only [sourceCounts, map_append, map_cons, map_nil, sum_append,
      sum_cons, sum_nil, Nat.add_zero, reduceCursor, foldl_append,
      foldl_cons, foldl_nil] at hsum ih ⊢
    obtain ⟨hsources, hcursor⟩ := ih hsplit (by omega)
    have hfits := hpass.fits before vault after hsplit
    have hcands := auditCandidates_eq hpass hvault
    rw [auditBefore_concat hpass hvault]
    by_cases hempty : (worlds vault).files.length = 0
    · have hnil : auditCandidates B vault (worlds vault) manifest
          (desktopContext B config .full world vault) = [] := by
        rw [hcands, map_eq_nil_iff]
        exact eq_nil_of_length_eq_zero hempty
      rw [hnil, AuditBudget.select_of_nil]
      simp [hempty, hsources, hcursor]
    · have hne : auditCandidates B vault (worlds vault) manifest
          (desktopContext B config .full world vault) ≠ [] := by
        rw [hcands]
        intro hnil
        exact hempty (by rw [map_eq_nil_iff.mp hnil]; rfl)
      obtain ⟨hnext, hleft, -⟩ := AuditBudget.select_spec hne (by omega) hfits
      rw [hcands, length_map] at hnext hleft
      have hcount : min (config.auditSourcesPerPass -
          (before.map fun vault => (worlds vault).files.length).sum)
          (worlds vault).files.length = (worlds vault).files.length := by omega
      rw [hsources, hcount] at hnext hleft
      rw [hcands, hnext, hleft, hcursor, if_neg hempty, Nat.add_mod_right, Nat.mod_mod]
      exact ⟨by omega, rfl⟩

/-- An exhausted budget goes through the remaining vaults as it is. -/
theorem auditBefore_of_exhausted {rest : List VaultRegistration}
    (hvaults : config.vaults = before ++ rest ++ after)
    (hzero : (auditBefore B manifest config .full cursor world before).remainingSources = 0) :
    auditBefore B manifest config .full cursor world (before ++ rest) =
      auditBefore B manifest config .full cursor world before := by
  induction rest using reverseRecOn generalizing after with
  | nil => rw [append_nil]
  | append_singleton rest vault ih =>
    have hvault : vault ∈ config.vaults := by simp [hvaults]
    have hprev := @ih (vault :: after) (by simpa using hvaults)
    rw [← append_assoc, auditBefore_concat hpass hvault, hprev,
      AuditBudget.select_of_exhausted hzero]

/-- The selection of a vault the budget reaches: consecutive sources from where the reduced cursor
points, as many as remain. -/
theorem vault_selection {vault : VaultRegistration}
    (hvaults : config.vaults = before ++ vault :: after) (hne : 0 < (worlds vault).files.length)
    (hsum : (sourceCounts worlds before).sum < config.auditSourcesPerPass) :
    let start := reduceCursor cursor (sourceCounts worlds before) % (worlds vault).files.length
    let left := config.auditSourcesPerPass - (sourceCounts worlds before).sum
    (∀ i < min left (worlds vault).files.length, ∀ file,
        (worlds vault).files[(start + i) % (worlds vault).files.length]? = some file →
        sourceKey B.hash vault.id file.relativePath ∈
          auditedKeys B vault (world.vault vault) manifest
            (desktopContext B config .full world vault)
            (auditBefore B manifest config .full cursor world before)) ∧
      (left < (worlds vault).files.length →
        (auditBefore B manifest config .full cursor world config.vaults).cursor =
          (start + left) % (worlds vault).files.length) := by
  have hvault : vault ∈ config.vaults := by simp [hvaults]
  obtain ⟨hsources, hcursor⟩ := auditBefore_of_sum_le hpass hvaults hsum.le
  have hcands := auditCandidates_eq hpass hvault
  have hcandsNe : auditCandidates B vault (worlds vault) manifest
      (desktopContext B config .full world vault) ≠ [] := by
    rw [hcands]
    intro hnil
    rw [map_eq_nil_iff.mp hnil] at hne
    exact absurd hne (Nat.lt_irrefl 0)
  obtain ⟨hnext, hleft, htaken⟩ :=
    AuditBudget.select_spec hcandsNe (by omega) (hpass.fits before vault after hvaults)
  rw [hcands, length_map, hsources] at hleft
  rw [hcands, length_map, hsources, hcursor] at hnext htaken
  constructor
  · intro i hi file hfile
    rw [auditedKeys, hpass.unchanged vault hvault, hcands]
    refine htaken i hi (sourceKey B.hash vault.id file.relativePath, file.byteLength) ?_
    rw [getElem?_map, hfile]
    rfl
  · intro hends
    -- the budget ends here, and the vaults behind it leave the cursor
    have hconcat := auditBefore_concat hpass hvault before
    have hzero : (auditBefore B manifest config .full cursor world
        (before ++ [vault])).remainingSources = 0 := by
      rw [hconcat, hcands, hleft]
      omega
    have hrest : auditBefore B manifest config .full cursor world config.vaults =
        auditBefore B manifest config .full cursor world (before ++ [vault]) := by
      have hall : config.vaults = before ++ [vault] ++ after := by simpa using hvaults
      conv_lhs => rw [hall]
      exact @auditBefore_of_exhausted _ [] _ _ _ _ _ _ hpass _ (by simpa using hall) hzero
    rw [hrest, hconcat, hcands, hnext, Nat.min_eq_left hends.le]

end

end OnePass

/-! ## §4 Steady runs -/

lemma auditCursor_of_reconcile {B : Build} {manager after : DesktopIndexManager}
    {config : Config} {scope : ReconcileScope} {env : PassEnv} {report : ReconcileReport}
    (h : manager.reconcile B config scope env = (after, .ok report)) :
    after.auditCursor =
      if scope = .full then
        (auditBefore B manager.manifest config scope manager.auditCursor env.world
          config.vaults).cursor
      else manager.auditCursor := by
  unfold DesktopIndexManager.reconcile at h
  simp only at h
  split at h
  · cases h
  split at h
  · split at h
    · cases h
    · rename_i hpublish
      obtain ⟨candidate, current, -, rfl⟩ := DesktopIndexManager.publishPlan_ok hpublish
      cases h
      rfl
  · cases h
    rfl

section Runs

variable {B} {config : Config} {worlds : VaultRegistration → VaultWorld}
  {manager : ℕ → DesktopIndexManager} {scope : ℕ → ReconcileScope} {env : ℕ → PassEnv}

lemma SteadyRun.pass (hrun : SteadyRun B config worlds manager scope env) {t : ℕ}
    (hfull : scope t = .full) :
    SteadyPass B (manager t).manifest config worlds (env t).world (manager t).auditCursor where
  unchanged := hrun.unchanged t
  mounted := hrun.mounted
  reusable := hfull ▸ hrun.reusable t hfull
  fits := by
    have hfits := hrun.fits t hfull
    rw [hfull] at hfits
    exact hfits

lemma SteadyRun.next_full (hrun : SteadyRun B config worlds manager scope env) (t : ℕ) :
    ∃ u, t ≤ u ∧ scope u = .full ∧ (manager u).auditCursor = (manager t).auditCursor := by
  obtain ⟨u, htu, hu⟩ := hrun.full t
  obtain ⟨k, rfl⟩ := Nat.exists_eq_add_of_le htu
  induction k using Nat.strong_induction_on with
  | _ k ih =>
    by_cases hearlier : ∃ j < k, scope (t + j) = .full
    · obtain ⟨j, hj, hfull⟩ := hearlier
      exact ih j hj (Nat.le_add_right t j) hfull
    · refine ⟨t + k, htu, hu, ?_⟩
      -- only scoped passes in between, and those leave the cursor
      have hkept : ∀ j ≤ k, (manager (t + j)).auditCursor = (manager t).auditCursor := by
        intro j hj
        induction j with
        | zero => rfl
        | succ j ihj =>
          obtain ⟨report, hpass⟩ := hrun.step (t + j)
          have hscope : ¬ scope (t + j) = .full := fun h => hearlier ⟨j, by omega, h⟩
          rw [← Nat.add_assoc, auditCursor_of_reconcile hpass, if_neg hscope]
          exact ihj (by omega)
      exact hkept k le_rfl

lemma exists_offset {p n : ℕ} (hstart : start < n) (hp : p < n) :
    ∃ d < n, (start + d) % n = p := by
  by_cases hle : start ≤ p
  · refine ⟨p - start, by omega, ?_⟩
    rw [Nat.add_sub_cancel' hle, Nat.mod_eq_of_lt hp]
  · refine ⟨p + n - start, by omega, ?_⟩
    have hsum : start + (p + n - start) = p + n := by omega
    rw [hsum, Nat.add_mod_right, Nat.mod_eq_of_lt hp]

/-- Where the budget ends in a vault, the rotation comes to the source `d` places ahead. -/
theorem SteadyRun.rotation_covers (hrun : SteadyRun B config worlds manager scope env)
    {vault : VaultRegistration} (hvaults : config.vaults = before ++ vault :: after)
    (hne : 0 < (worlds vault).files.length)
    (hsum : (sourceCounts worlds before).sum < config.auditSourcesPerPass)
    (hends : config.auditSourcesPerPass - (sourceCounts worlds before).sum <
      (worlds vault).files.length)
    (hlarge : ∀ n ∈ sourceCounts worlds before, n = 0 ∨ (worlds vault).files.length ≤ n)
    {file : DiscoveredFile} (d : ℕ) (hd : d < (worlds vault).files.length) (t : ℕ)
    (hcursor : (manager t).auditCursor < (worlds vault).files.length)
    (hfile : (worlds vault).files[((manager t).auditCursor + d) %
      (worlds vault).files.length]? = some file) :
    ∃ u, t ≤ u ∧ scope u = .full ∧
      Audits B (manager u) config (scope u) (env u).world vault file.relativePath := by
  induction d using Nat.strong_induction_on generalizing t with
  | _ d ih =>
    have hvault : vault ∈ config.vaults := by simp [hvaults]
    obtain ⟨u, htu, hfull, hsame⟩ := hrun.next_full t
    have hpass := hrun.pass hfull
    obtain ⟨htaken, hnext⟩ := vault_selection hpass hvaults hne hsum
    rw [← hsame] at hcursor hfile
    have hreduced : reduceCursor (manager u).auditCursor (sourceCounts worlds before) =
        (manager u).auditCursor := by
      refine reduceCursor_eq_self fun n hn => ?_
      rcases hlarge n hn with hzero | hle
      · exact .inl hzero
      · exact .inr (hcursor.trans_le hle)
    rw [hreduced, Nat.mod_eq_of_lt hcursor] at htaken hnext
    by_cases hd' : d < config.auditSourcesPerPass - (sourceCounts worlds before).sum
    · have haudited := htaken d (by omega) file hfile
      refine ⟨u, htu, hfull, ?_, before, after, hvaults, ?_⟩
      · rw [hrun.unchanged u vault hvault]
        exact hrun.mounted vault hvault
      · rw [hfull]
        exact haudited
    · -- the next full pass starts nearer to the source
      obtain ⟨report, hstep⟩ := hrun.step u
      have hcursor' := auditCursor_of_reconcile hstep
      rw [if_pos hfull, hfull, hnext hends] at hcursor'
      set left := config.auditSourcesPerPass - (sourceCounts worlds before).sum with hleft
      obtain ⟨w, huw, hw, haudits⟩ := ih (d - left) (by omega) (by omega) (u + 1)
        (by rw [hcursor']; exact Nat.mod_lt _ hne)
        (by
          rw [hcursor', Nat.mod_add_mod]
          have hsum : (manager u).auditCursor + left + (d - left) = (manager u).auditCursor + d := by
            omega
          rw [hsum]
          exact hfile)
      exact ⟨w, by omega, hw, haudits⟩

/-- In a steady run whose budget reaches every vault, every source is audited, again and again. -/
theorem audit_covers (hrun : SteadyRun B config worlds manager scope env)
    (hreaches : AuditReaches config.auditSourcesPerPass (sourceCounts worlds config.vaults))
    {vault : VaultRegistration} (hvault : vault ∈ config.vaults) {file : DiscoveredFile}
    (hfile : file ∈ (worlds vault).files) (t : ℕ) :
    ∃ u, t ≤ u ∧ scope u = .full ∧
      Audits B (manager u) config (scope u) (env u).world vault file.relativePath := by
  obtain ⟨before, after, hvaults⟩ := append_of_mem hvault
  obtain ⟨p, hp, hget⟩ := getElem_of_mem hfile
  have hne : 0 < (worlds vault).files.length := Nat.zero_lt_of_lt hp
  have hat : (worlds vault).files[p]? = some file := by
    rw [getElem?_eq_getElem hp, hget]
  obtain ⟨hsum, hcase⟩ := hreaches (sourceCounts worlds before) (worlds vault).files.length
    (sourceCounts worlds after) (by simp [hvaults, sourceCounts]) hne
  obtain ⟨u, htu, hfull, -⟩ := hrun.next_full t
  have hpass := hrun.pass hfull
  obtain ⟨htaken, hnext⟩ := vault_selection hpass hvaults hne hsum
  by_cases hends : config.auditSourcesPerPass - (sourceCounts worlds before).sum <
      (worlds vault).files.length
  · -- the budget ends in this vault: rotate from the cursor the first full pass leaves
    obtain ⟨report, hstep⟩ := hrun.step u
    have hcursor := auditCursor_of_reconcile hstep
    rw [if_pos hfull, hfull, hnext hends] at hcursor
    have hlt : (manager (u + 1)).auditCursor < (worlds vault).files.length := by
      rw [hcursor]
      exact Nat.mod_lt _ hne
    obtain ⟨d, hd, hoffset⟩ := exists_offset hlt hp
    have hlarge := hcase.resolve_left (by omega)
    obtain ⟨w, huw, hw, haudits⟩ := hrun.rotation_covers hvaults hne hsum hends hlarge d hd (u + 1)
      hlt (by rw [hoffset]; exact hat)
    exact ⟨w, by omega, hw, haudits⟩
  · -- the whole vault is audited in every full pass
    obtain ⟨d, hd, hoffset⟩ := exists_offset
      (Nat.mod_lt (reduceCursor (manager u).auditCursor (sourceCounts worlds before)) hne) hp
    have haudited := htaken d (by omega) file (by rw [hoffset]; exact hat)
    refine ⟨u, htu, hfull, ?_, before, after, hvaults, ?_⟩
    · rw [hrun.unchanged u vault hvault]
      exact hrun.mounted vault hvault
    · rw [hfull]
      exact haudited

end Runs

/-! ## §5 Two vaults of one note each -/

def pairVault (name : Char) : VaultRegistration where
  id := ⟨[name], by
    have := Char.utf8Size_le_four name
    simp only [utf8Len_cons, utf8Len_nil]
    omega⟩
  path := ⟨['/'], by decide⟩
  room := none

def pairConfig (budget : ℕ) : Config where
  tenantId := none
  basis := .metadataAudit
  auditSourcesPerPass := budget
  auditBytesPerPass := 100
  racyWindowMillis := 0
  vaults := [pairVault 'v', pairVault 'w']
  vaults_nodup := by decide

def pairEnv : PassEnv := ⟨{ noteWorld 0 with nowNanos := 1 }, fun _ => none, "", ['g']⟩

def pairGeneration : DesktopGeneration :=
  Except.value (buildDesktopIndex Build.plain (pairConfig 1) pairEnv) (by decide +kernel)

def pairOpened : DesktopIndexManager :=
  Except.value (DesktopIndexManager.openManager Build.plain (pairConfig 1) pairGeneration false
    pairEnv) (by decide +kernel)

/-- The manager after a first full pass. -/
def pairManager (budget : ℕ) : DesktopIndexManager :=
  (pairOpened.reconcile Build.plain (pairConfig budget) .full pairEnv).1

/-- What a full pass over the pair plans. -/
def pairState (manager : DesktopIndexManager) (budget : ℕ) : PassState :=
  planDesktop Build.plain manager.manifest (pairConfig budget) .full manager.auditCursor
    pairEnv.world

/-- A pass that has nothing to publish only moves the cursor. -/
theorem pairPass_idle {manager : DesktopIndexManager} {cursor : ℕ}
    (hidle : (pairState manager budget).plan.validateRetention.toOption.isSome = true ∧
      (pairState manager budget).plan.publishes manager.manifest = false ∧
      (pairState manager budget).audit.cursor = cursor) :
    ∃ report, manager.reconcile Build.plain (pairConfig budget) .full pairEnv =
      ({ manager.setFreshnessBasis .metadataAudit with
          auditCursor := cursor, config := pairConfig budget }, .ok report) := by
  obtain ⟨hretention, hquiet, hcursor⟩ := hidle
  have hok : (pairState manager budget).plan.validateRetention = .ok () :=
    Except.eq_ok_value hretention
  unfold pairState at hok hquiet hcursor
  simp only [DesktopIndexManager.reconcile, hok, hquiet, Bool.false_eq_true, if_false]
  rw [← hcursor]
  exact ⟨_, rfl⟩

lemma pairManager_eq (hidle :
    (pairState pairOpened budget).plan.validateRetention.toOption.isSome = true ∧
      (pairState pairOpened budget).plan.publishes pairOpened.manifest = false ∧
      (pairState pairOpened budget).audit.cursor = 0) :
    pairManager budget = { pairOpened.setFreshnessBasis .metadataAudit with
      auditCursor := 0, config := pairConfig budget } := by
  obtain ⟨report, hpass⟩ := pairPass_idle hidle
  rw [pairManager, hpass]

lemma pairPass_steady (hbudget : budget = 1 ∨ budget = 2) :
    ∃ report, (pairManager budget).reconcile Build.plain (pairConfig budget) .full pairEnv =
      (pairManager budget, .ok report) := by
  have hopened : (pairState pairOpened budget).plan.validateRetention.toOption.isSome = true ∧
      (pairState pairOpened budget).plan.publishes pairOpened.manifest = false ∧
      (pairState pairOpened budget).audit.cursor = 0 := by
    rcases hbudget with rfl | rfl <;> decide +kernel
  have hagain : (pairState (pairManager budget) budget).plan.validateRetention.toOption.isSome =
        true ∧
      (pairState (pairManager budget) budget).plan.publishes (pairManager budget).manifest = false ∧
      (pairState (pairManager budget) budget).audit.cursor = 0 := by
    rcases hbudget with rfl | rfl <;> decide +kernel
  obtain ⟨report, hpass⟩ := pairPass_idle hagain
  refine ⟨report, hpass.trans ?_⟩
  rw [pairManager_eq hopened]
  rfl

/-- Where a list of two is split. -/
theorem pair_split {A : Type} {a b x : A} {before after : List A}
    (h : [a, b] = before ++ x :: after) : before = [] ∧ x = a ∨ before = [a] ∧ x = b := by
  rcases before with _ | ⟨first, _ | ⟨second, rest⟩⟩
  · exact .inl ⟨rfl, (cons.inj h).1.symm⟩
  · obtain ⟨rfl, hrest⟩ := cons.inj h
    exact .inr ⟨rfl, (cons.inj hrest).1.symm⟩
  · simp at h

lemma fits_of_single {budget : AuditBudget} {entry : SourceKey × ℕ}
    (h : entry.2 ≤ budget.remainingBytes) : budget.Fits [entry] := by
  refine ⟨.inr fun key byteLength hget => ?_⟩
  simp only [length_singleton, Nat.mod_one, getElem?_cons_zero, Option.some.injEq] at hget
  subst hget
  exact ⟨h, trivial⟩

lemma pairRun_fits (hbudget : budget = 1 ∨ budget = 2) (before : List VaultRegistration)
    (vault : VaultRegistration) (after : List VaultRegistration)
    (hvaults : (pairConfig budget).vaults = before ++ vault :: after) :
    (auditBefore Build.plain (pairManager budget).manifest (pairConfig budget) .full
      (pairManager budget).auditCursor pairEnv.world before).Fits
      (auditCandidates Build.plain vault (pairEnv.world.vault vault) (pairManager budget).manifest
        (desktopContext Build.plain (pairConfig budget) .full pairEnv.world vault)) := by
  have hsplit := pair_split hvaults
  have hentry : auditCandidates Build.plain vault (pairEnv.world.vault vault)
      (pairManager budget).manifest
      (desktopContext Build.plain (pairConfig budget) .full pairEnv.world vault) =
      [(sourceKey Build.plain.hash vault.id ⟨['a', '.', 'm', 'd'], by decide⟩, 1)] := by
    rcases hbudget with rfl | rfl <;> rcases hsplit with ⟨-, rfl⟩ | ⟨-, rfl⟩ <;> decide +kernel
  rw [hentry]
  refine fits_of_single ?_
  rcases hbudget with rfl | rfl <;> rcases hsplit with ⟨rfl, rfl⟩ | ⟨rfl, rfl⟩ <;> decide +kernel

lemma pairRun_reusable (hbudget : budget = 1 ∨ budget = 2) :
    ∀ vault ∈ (pairConfig budget).vaults, ∀ file ∈ (pairEnv.world.vault vault).files,
      observeFile Build.plain vault (pairManager budget).manifest
        (desktopContext Build.plain (pairConfig budget) .full pairEnv.world vault) file =
        .reuseMetadata := by
  rcases hbudget with rfl | rfl <;> decide +kernel

/-- The same full pass for ever. -/
theorem pairRun_steady (hbudget : budget = 1 ∨ budget = 2) :
    SteadyRun Build.plain (pairConfig budget) pairEnv.world.vault (fun _ => pairManager budget)
      (fun _ => .full) (fun _ => pairEnv) where
  step _ := pairPass_steady hbudget
  full t := ⟨t, le_rfl, rfl⟩
  unchanged _ _ _ := rfl
  mounted _ _ := rfl
  reusable _ _ := pairRun_reusable hbudget
  fits _ _ := pairRun_fits hbudget

lemma pairManager_run (budget : ℕ) (hbudget : budget = 1 ∨ budget = 2) :
    DesktopRun Build.plain (pairManager budget) := by
  have hok : (pairOpened.reconcile Build.plain (pairConfig budget) .full
      pairEnv).2.toOption.isSome = true := by
    rcases hbudget with rfl | rfl <;> decide +kernel
  have hbuild : buildDesktopIndex Build.plain (pairConfig 1) pairEnv = .ok pairGeneration :=
    Except.eq_ok_value _
  have hopened : DesktopRun Build.plain pairOpened := .opened hbuild (Except.eq_ok_value _)
  have hpass : pairOpened.reconcile Build.plain (pairConfig budget) .full pairEnv =
      (pairManager budget, .ok (Except.value _ hok)) := by
    rw [← Except.eq_ok_value hok, pairManager]
  exact .pass hopened hpass

lemma pair_reaches :
    AuditReaches 2 (sourceCounts pairEnv.world.vault (pairConfig 2).vaults) := by
  intro before count after hcounts hpos
  have hlist : [1, 1] = before ++ count :: after := hcounts
  rcases pair_split hlist with ⟨rfl, rfl⟩ | ⟨rfl, rfl⟩ <;> exact ⟨by decide, .inl (by decide)⟩

/-- The general result at two vaults and a budget for both. -/
theorem pairRun_covers :
    AuditReaches 2 (sourceCounts pairEnv.world.vault (pairConfig 2).vaults) ∧
      ∃ u, 0 ≤ u ∧ ReconcileScope.full = .full ∧
        Audits Build.plain (pairManager 2) (pairConfig 2) .full pairEnv.world (pairVault 'w')
          ⟨['a', '.', 'm', 'd'], by decide⟩ :=
  ⟨pair_reaches, audit_covers (pairRun_steady (Or.inr rfl)) pair_reaches
    (mem_cons_of_mem _ mem_cons_self) mem_cons_self 0⟩

/-- With a budget of one source the second vault is never audited. -/
theorem pairRun_starves :
    ¬ ∀ (config : Config) (worlds : VaultRegistration → VaultWorld)
      (manager : ℕ → DesktopIndexManager) (scope : ℕ → ReconcileScope) (env : ℕ → PassEnv),
      DesktopRun Build.plain (manager 0) →
      SteadyRun Build.plain config worlds manager scope env →
      0 < config.auditSourcesPerPass →
      ∀ vault ∈ config.vaults, ∀ file ∈ (worlds vault).files, ∃ u, scope u = .full ∧
        Audits Build.plain (manager u) config (scope u) (env u).world vault file.relativePath := by
  intro hclaim
  obtain ⟨u, -, -, before, after, hvaults, haudited⟩ := hclaim (pairConfig 1) pairEnv.world.vault
    (fun _ => pairManager 1) (fun _ => .full) (fun _ => pairEnv)
    (pairManager_run 1 (Or.inl rfl)) (pairRun_steady (Or.inl rfl)) (by decide) (pairVault 'w')
    (mem_cons_of_mem _ mem_cons_self) _ mem_cons_self
  obtain ⟨-, hother⟩ | ⟨rfl, -⟩ := pair_split hvaults
  · exact absurd hother (by decide)
  have hnone : (auditedKeys Build.plain (pairVault 'w') (pairEnv.world.vault (pairVault 'w'))
      (pairManager 1).manifest
      (desktopContext Build.plain (pairConfig 1) .full pairEnv.world (pairVault 'w'))
      (auditBefore Build.plain (pairManager 1).manifest (pairConfig 1) .full
        (pairManager 1).auditCursor pairEnv.world [pairVault 'v'])).contains
      (sourceKey Build.plain.hash (pairVault 'w').id ⟨['a', '.', 'm', 'd'], by decide⟩) = false := by
    decide +kernel
  rw [← Std.ExtTreeSet.contains_iff_mem] at haudited
  exact absurd (haudited.symm.trans hnone) (by decide)

end Kwiry
