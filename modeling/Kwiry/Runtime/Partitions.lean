import Kwiry.Runtime.OpenClast

/-!
# A Pass over Partitions, at One Key

What a pass of the OpenClast manager plans and leaves for one source key in every
partition: the removals, the vault that owns the key, the sweep, and the staged partitions.
-/

namespace Kwiry

open Foundations List

variable {B : Build}

/-! ## §1 Layouts and their vaults -/

variable {resources : Std.ExtTreeSet ResourceKey}

lemma GenerationLayout.openclast_ok {layout : GenerationLayout}
    (h : GenerationLayout.openclast B resources = .ok layout) (resource : ResourceKey) :
    resource ∈ layout.resources ↔ resource ∈ resources := by
  unfold GenerationLayout.openclast at h
  obtain ⟨_, -, h⟩ := except_bind_ok h
  cases h
  simp [GenerationLayout.resources, Function.comp_def]

lemma resourcesByVault_ok {layout : GenerationLayout} {previous : Str → Option ResourceKey}
    (h : resourcesByVault layout = .ok previous) (id : Str) (resource : ResourceKey) :
    previous id = some resource ↔ resource ∈ layout.resources ∧ resource.vaultId = id := by
  have hgen : ∀ (resources : List ResourceKey) (start : Str → Option ResourceKey), resources.foldlM
        (fun resources resource =>
          if (resources resource.vaultId).isSome then
            Except.error (Error.state ("generation layout contains multiple resources for vault " ++
              resource.vaultId.toString))
          else
            .ok (Function.update resources resource.vaultId (some resource)))
        start = .ok previous →
      (previous id = some resource ↔
        start id = some resource ∨ (resource ∈ resources ∧ resource.vaultId = id)) := by
    intro resources
    induction resources with
    | nil =>
      intro start hfold
      cases hfold
      simp
    | cons head rest ih =>
      intro start hfold
      obtain ⟨next, hnext, hrest⟩ := foldlM_cons_ok _ hfold
      split at hnext
      · cases hnext
      rename_i hfresh
      cases hnext
      rw [ih _ hrest]
      by_cases hid : id = head.vaultId
      · subst hid
        have hnone : start head.vaultId = none := by simpa using hfresh
        simp only [Function.update_self, Option.some.injEq, hnone, reduceCtorEq, false_or, mem_cons]
        constructor
        · rintro (rfl | ⟨hmem, hvault⟩)
          · exact ⟨.inl rfl, rfl⟩
          · exact ⟨.inr hmem, hvault⟩
        · rintro ⟨rfl | hmem, hvault⟩
          · exact .inl rfl
          · exact .inr ⟨hmem, hvault⟩
      · rw [Function.update_of_ne hid, mem_cons]
        constructor
        · rintro (hstart | ⟨hmem, hvault⟩)
          · exact .inl hstart
          · exact .inr ⟨.inr hmem, hvault⟩
        · rintro (hstart | ⟨rfl | hmem, hvault⟩)
          · exact .inl hstart
          · exact absurd hvault.symm hid
          · exact .inr ⟨hmem, hvault⟩
  have hall := hgen layout.resources (fun _ => none) h
  simpa using hall

/-- The parts of a successful plan. -/
theorem planOpenClast_ok {manager : OpenClastIndexManager} {config : Config}
    {scope : ReconcileScope} {env : PassEnv} {planned : OpenClastPlan}
    (h : planOpenClast B manager config scope env = .ok planned) :
    ∃ previousResources loop, resourcesByVault manager.layout = .ok previousResources ∧
      config.vaults.foldlM
        (planOpenClastVault B manager.manifest config scope env.world previousResources)
        (openClastStart manager.manifest manager.layout config scope manager.auditCursor
          previousResources) = .ok loop ∧
      GenerationLayout.openclast B loop.nextResources = .ok planned.layout ∧
      planned.layout.resources.foldlM
        (sweepPartition B config manager.active.partitions env.faults) loop.pass.plan =
          .ok planned.plan := by
  unfold planOpenClast at h
  obtain ⟨previousResources, hprevious, h⟩ := except_bind_ok h
  obtain ⟨loop, hloop, h⟩ := except_bind_ok h
  obtain ⟨layout, hlayout, h⟩ := except_bind_ok h
  obtain ⟨plan, hplan, h⟩ := except_bind_ok h
  obtain ⟨_, -, h⟩ := except_bind_ok h
  cases h
  exact ⟨previousResources, loop, hprevious, hloop, hlayout, hplan⟩

/-! ## §2 One vault -/

variable {r resource : ResourceKey}

section Vault

variable {manifest : Manifest} {config : Config} {scope : ReconcileScope} {world : PassWorld}
  {previousResources : Str → Option ResourceKey} {loop loop' : VaultLoop}
  {vault : VaultRegistration}

lemma mem_withdrawReclassified {previous : Option ResourceKey} {reclassified : Bool} :
    r ∈ withdrawReclassified resources previous reclassified ↔
      r ∈ resources ∧ ¬ (previous = some r ∧ reclassified = true) := by
  cases previous with
  | none => simp [withdrawReclassified]
  | some previous =>
    cases reclassified with
    | false => simp [withdrawReclassified]
    | true => simp [withdrawReclassified, and_comm]

/-- The cases of a vault's step. -/
theorem planOpenClastVault_ok
    (h : planOpenClastVault B manifest config scope world previousResources loop vault =
      .ok loop') :
    ∃ resource, config.resourceKey vault = some resource ∧
      ((world.vault vault).isDir = false →
        ∃ message, loop'.pass = retainVault manifest vault message loop.pass) ∧
      ((world.vault vault).isDir = true →
        loop'.pass = planVault B manifest
          (openClastContext B config scope world previousResources vault resource) vault
          (world.vault vault) loop.pass) ∧
      ∀ r, r ∈ loop'.nextResources ↔
        ((world.vault vault).isDir = true ∧ r = resource) ∨
        (r ∈ loop.nextResources ∧ ¬ (previousResources vault.id = some r ∧
          vaultReclassified B manifest previousResources vault resource = true)) := by
  unfold planOpenClastVault at h
  obtain ⟨resource, hresource, h⟩ := except_bind_ok h
  have hkey : config.resourceKey vault = some resource := by
    unfold requireResource at hresource
    split at hresource
    · rename_i found hfound
      cases hresource
      exact hfound
    · cases hresource
  refine ⟨resource, hkey, ?_⟩
  simp only at h
  split at h
  · rename_i hdir
    have hdir' : (world.vault vault).isDir = false := by simpa using hdir
    cases h
    refine ⟨fun _ => ⟨_, rfl⟩, fun hyes => ?_, fun r => ?_⟩
    · rw [hdir'] at hyes
      cases hyes
    · rw [mem_withdrawReclassified]
      simp [hdir']
  · rename_i hdir
    have hdir' : (world.vault vault).isDir = true := by simpa using hdir
    cases h
    refine ⟨fun hno => ?_, fun _ => rfl, fun r => ?_⟩
    · rw [hdir'] at hno
      cases hno
    · simp only [Std.ExtTreeSet.mem_insert, Std.LawfulEqCmp.compare_eq_iff_eq,
        mem_withdrawReclassified, hdir', true_and]
      rw [eq_comm]

lemma view_planOpenClastVault_ne (hkeyed : manifest.Keyed B) (k : SourceKey)
    (h : planOpenClastVault B manifest config scope world previousResources loop vault =
      .ok loop') (hne : ¬ ∃ path, sourceKey B.hash vault.id path = k) :
    loop'.pass.plan.view B k = loop.pass.plan.view B k := by
  have hforeign : ∀ path, sourceKey B.hash vault.id path ≠ k := fun path hpath => hne ⟨path, hpath⟩
  obtain ⟨resource, -, hunavailable, havailable, -⟩ := planOpenClastVault_ok h
  cases hdir : (world.vault vault).isDir with
  | false =>
    obtain ⟨message, hpass⟩ := hunavailable hdir
    rw [hpass]
    exact view_retainVault_of_ne hkeyed loop.pass k hforeign
  | true =>
    rw [havailable hdir]
    exact view_planVault_of_ne hkeyed loop.pass k hforeign

end Vault

/-! ## §3 The loop over vaults -/

/-- The audit budget after one vault. -/
def auditAfterVault (manifest : Manifest) (config : Config) (scope : ReconcileScope)
    (world : PassWorld) (previousResources : Str → Option ResourceKey) (audit : AuditBudget)
    (vault : VaultRegistration) : AuditBudget :=
  match config.resourceKey vault with
  | none => audit
  | some resource =>
    if (world.vault vault).isDir then
      (audit.select (auditCandidates B vault (world.vault vault) manifest
        (openClastContext B config scope world previousResources vault resource))).1
    else audit

section Loop

variable {manifest : Manifest} {layout : GenerationLayout} {config : Config}
  {scope : ReconcileScope} {auditCursor : ℕ} {world : PassWorld}
  {previousResources : Str → Option ResourceKey} {loop : VaultLoop}

/-- What the removal of an unregistered vault's source leaves of it. -/
private def unregisteredView (previousResources : Str → Option ResourceKey)
    (row : ManifestFile) : KeyView :=
  ((row.resource.toList ++ (previousResources row.vaultId).toList).map
    PartitionScope.resource).foldl KeyView.delete ((KeyView.initial (some row)).setRow none)

/-- The effect of the removal of a key on the view of the key. -/
private def unregisteredEffect (manifest : Manifest) (previousResources : Str → Option ResourceKey)
    (key : SourceKey) (view : KeyView) : KeyView :=
  manifest.files[key]?.elim view fun row =>
    ((row.resource.toList ++ (previousResources row.vaultId).toList).map
      PartitionScope.resource).foldl KeyView.delete (view.setRow none)

lemma view_removeUnregistered (plan : ReconcilePlan) (key k : SourceKey) :
    (removeUnregistered manifest previousResources plan key).view B k =
      if key = k then unregisteredEffect manifest previousResources key (plan.view B k)
      else plan.view B k := by
  unfold removeUnregistered unregisteredEffect
  cases manifest.files[key]? with
  | none => exact (ite_self _).symm
  | some row =>
    simp only [ReconcilePlan.view_removeIndexSource_foldl, ReconcilePlan.view_eraseRow]
    split <;> rfl

lemma view_openClastStart (k : SourceKey) :
    (openClastStart manifest layout config scope auditCursor previousResources).pass.plan.view B k =
      match manifest.files[k]? with
      | none => KeyView.initial none
      | some row =>
        if row.vaultId ∈ config.vaultIds then KeyView.initial (some row)
        else unregisteredView previousResources row := by
  refine (view_foldl_keys (ReconcilePlan.view B)
    (unregisteredEffect manifest previousResources) view_removeUnregistered
    (manifest.nodup_keysWhere _) (ReconcilePlan.new manifest) k).trans ?_
  rw [ReconcilePlan.view_new, unregisteredEffect]
  cases hrow : manifest.files[k]? with
  | none => exact ite_self _
  | some row =>
    by_cases hid : row.vaultId ∈ config.vaultIds <;>
      simp [Manifest.mem_keysWhere, hrow, hid, unregisteredView]

/-- The audit budget of the loop does not depend on what is planned. -/
theorem audit_planOpenClastVault {loop' : VaultLoop} {vault : VaultRegistration}
    (h : planOpenClastVault B manifest config scope world previousResources loop vault =
      .ok loop') :
    loop'.pass.audit =
      auditAfterVault (B := B) manifest config scope world previousResources loop.pass.audit
        vault := by
  obtain ⟨resource, hkey, hunavailable, havailable, -⟩ := planOpenClastVault_ok h
  unfold auditAfterVault
  rw [hkey]
  cases hdir : (world.vault vault).isDir with
  | false =>
    obtain ⟨message, hpass⟩ := hunavailable hdir
    rw [hpass]
    rfl
  | true =>
    rw [havailable hdir]
    rfl

lemma audit_foldlM (vaults : List VaultRegistration) {loop' : VaultLoop}
    (h : vaults.foldlM (planOpenClastVault B manifest config scope world previousResources) loop =
      .ok loop') :
    loop'.pass.audit = vaults.foldl
      (auditAfterVault (B := B) manifest config scope world previousResources)
      loop.pass.audit := by
  induction vaults generalizing loop with
  | nil =>
    cases h
    rfl
  | cons vault rest ih =>
    obtain ⟨next, hnext, hrest⟩ := foldlM_cons_ok _ h
    rw [ih hrest, audit_planOpenClastVault hnext, foldl_cons]

/-- The audit budget a vault is observed with. -/
def auditBudgetAt (manifest : Manifest) (config : Config) (scope : ReconcileScope)
    (auditCursor : ℕ) (world : PassWorld) (previousResources : Str → Option ResourceKey)
    (vault : VaultRegistration) : AuditBudget :=
  (config.vaults.takeWhile (· ≠ vault)).foldl
    (auditAfterVault (B := B) manifest config scope world previousResources)
    (initialPassState manifest config scope auditCursor).audit

variable (hloop : config.vaults.foldlM
    (planOpenClastVault B manifest config scope world previousResources)
    (openClastStart manifest layout config scope auditCursor previousResources) = .ok loop)

include hloop

/-- **The loop at a key of a registered vault**: nothing when the vault is unavailable, and the
key's fate otherwise. -/
theorem view_vaultLoop (hkeyed : manifest.Keyed B) {vault : VaultRegistration}
    (hvault : vault ∈ config.vaults) (path : Str) :
    ∃ resource, config.resourceKey vault = some resource ∧
      let key := sourceKey B.hash vault.id path
      let context := openClastContext B config scope world previousResources vault resource
      let budget := auditBudgetAt (B := B) manifest config scope auditCursor world
        previousResources vault
      ((world.vault vault).isDir = false →
        loop.pass.plan.view B key = KeyView.initial manifest.files[key]?) ∧
      ((world.vault vault).isDir = true →
        loop.pass.plan.view B key = (sourceFate B context vault (world.vault vault)
          (readsFile B vault manifest context
            (auditedKeys B vault (world.vault vault) manifest context budget))
          manifest.files[key]? path).apply B context manifest.files[key]?
            (KeyView.initial manifest.files[key]?)) := by
  -- no vault before or after this one touches its keys
  obtain ⟨before, rest, hvaults, hnot⟩ := eq_append_cons_of_mem hvault
  have htake : config.vaults.takeWhile (· ≠ vault) = before := by
    rw [hvaults, takeWhile_append_of_pos, takeWhile_cons_of_neg (by simp), append_nil]
    intro other hother
    have hne : other ≠ vault := fun heq => hnot (heq ▸ hother)
    simp [hne]
  have hdisjoint := config.vaults_disjoint B.hash
  rw [hvaults, pairwise_append, pairwise_cons] at hdisjoint
  obtain ⟨-, ⟨hafter, -⟩, hbefore⟩ := hdisjoint
  rw [hvaults] at hloop
  obtain ⟨reached, stepped, hreached, hstep, hrest⟩ := foldlM_append_cons_ok _ hloop
  set key := sourceKey B.hash vault.id path with hkey
  have hframe : ∀ (s t : VaultLoop) (other : VaultRegistration) (k : SourceKey),
      planOpenClastVault B manifest config scope world previousResources s other = .ok t →
      (¬ ∃ path, sourceKey B.hash other.id path = k) →
      t.pass.plan.view B k = s.pass.plan.view B k :=
    fun s t other k hother hne => view_planOpenClastVault_ne hkeyed k hother hne
  have hreachedView : reached.pass.plan.view B key = KeyView.initial manifest.files[key]? := by
    rw [foldlM_eq_of_no_footprint
      (planOpenClastVault B manifest config scope world previousResources)
      (fun loop k => loop.pass.plan.view B k)
      (fun other k => ∃ path, sourceKey B.hash other.id path = k) hframe hreached key
      (fun other hother hown => hbefore other hother vault mem_cons_self key
        ⟨hown, path, rfl⟩), view_openClastStart]
    cases hrow : manifest.files[key]? with
    | none => rfl
    | some row =>
      simp only
      rw [if_pos]
      rw [← (sourceKey_inj B.hash (hkeyed _ row hrow)).1]
      exact mem_map_of_mem hvault
  have hloopView : loop.pass.plan.view B key = stepped.pass.plan.view B key :=
    foldlM_eq_of_no_footprint (planOpenClastVault B manifest config scope world previousResources)
      (fun loop k => loop.pass.plan.view B k)
      (fun other k => ∃ path, sourceKey B.hash other.id path = k) hframe hrest key
      (fun other hother hown => hafter other hother key ⟨⟨path, rfl⟩, hown⟩)
  have hrow : (reached.pass.plan.view B key).row = manifest.files[key]? := by
    rw [hreachedView]
    rfl
  obtain ⟨resource, hresource, hunavailable, havailable, -⟩ := planOpenClastVault_ok hstep
  refine ⟨resource, hresource, ?_, ?_⟩
  · intro hdir
    obtain ⟨message, hpass⟩ := hunavailable hdir
    rw [hloopView, hpass, view_retainVault reached.pass key hrow, hreachedView]
  · intro hdir
    have haudit : reached.pass.audit = auditBudgetAt (B := B) manifest config scope auditCursor
        world previousResources vault := by
      rw [audit_foldlM before hreached, auditBudgetAt, htake]
      rfl
    rw [hloopView, havailable hdir, view_planVault hkeyed reached.pass path hrow, haudit,
      hreachedView]

/-- The loop at a key of no registered vault drops what is recorded there. -/
theorem view_vaultLoop_unregistered (hkeyed : manifest.Keyed B) {k : SourceKey}
    (hne : ∀ vault ∈ config.vaults, ∀ path, sourceKey B.hash vault.id path ≠ k) :
    (loop.pass.plan.view B k).row = none ∧ ∀ s, (loop.pass.plan.view B k).added s = [] := by
  have hview : loop.pass.plan.view B k = _ :=
    foldlM_eq_of_no_footprint (planOpenClastVault B manifest config scope world previousResources)
      (fun loop k => loop.pass.plan.view B k)
      (fun other k => ∃ path, sourceKey B.hash other.id path = k)
      (fun s t other k hother hno => view_planOpenClastVault_ne hkeyed k hother hno) hloop k
      (by
        rintro vault hvault ⟨path, hpath⟩
        exact hne vault hvault path hpath)
  rw [hview, view_openClastStart]
  cases hrow : manifest.files[k]? with
  | none => exact ⟨rfl, fun _ => rfl⟩
  | some row =>
    have hid : row.vaultId ∉ config.vaultIds := by
      intro hid
      obtain ⟨vault, hvault, hid⟩ := mem_map.mp hid
      exact hne vault hvault row.path (by rw [hkeyed k row hrow, hid])
    simp only [hid, if_false]
    refine ⟨?_, fun s => ?_⟩
    · simp [unregisteredView, KeyView.foldl_delete, KeyView.setRow]
    · simp [unregisteredView, KeyView.foldl_delete, KeyView.setRow, KeyView.initial]

/-- **Which resources are published**: the current resource of each available vault, and of each
unavailable one that is published under it and wholly recorded under it. -/
theorem mem_nextResources (hprevious : resourcesByVault layout = .ok previousResources)
    (r : ResourceKey) :
    r ∈ loop.nextResources ↔ ∃ vault ∈ config.vaults, config.resourceKey vault = some r ∧
      ((world.vault vault).isDir = true ∨ (previousResources vault.id = some r ∧
        manifest.registrationReclassified B vault r = false)) := by
  have hframe : ∀ (s t : VaultLoop) (vault : VaultRegistration) (r : ResourceKey),
      planOpenClastVault B manifest config scope world previousResources s vault = .ok t →
      ¬ r.vaultId = vault.id → (r ∈ t.nextResources) = (r ∈ s.nextResources) := by
    intro s t vault r hstep hno
    obtain ⟨resource, hresource, -, -, hnext⟩ := planOpenClastVault_ok hstep
    have hne : r ≠ resource := fun heq => hno (heq ▸ Config.vaultId_of_resourceKey hresource)
    have hother : previousResources vault.id ≠ some r := fun heq =>
      hno ((resourcesByVault_ok hprevious vault.id r).mp heq).2
    simp [hnext r, hne, hother]
  have hdisjoint : config.vaults.Pairwise fun a b =>
      ∀ r : ResourceKey, ¬ (r.vaultId = a.id ∧ r.vaultId = b.id) := by
    refine (pairwise_map.mp config.vaults_nodup).imp ?_
    rintro a b hne r ⟨ha, hb⟩
    exact hne (ha.symm.trans hb)
  have hstart : ∀ r, r ∈ (openClastStart manifest layout config scope auditCursor
      previousResources).nextResources ↔ r ∈ layout.resources ∧ r.vaultId ∈ config.vaultIds := by
    intro r
    simp [openClastStart]
  by_cases hid : r.vaultId ∈ config.vaultIds
  · obtain ⟨vault, hvault, hvid⟩ := mem_map.mp hid
    obtain ⟨s, t, hs, hstep, ht⟩ := foldlM_eq_of_footprint
      (planOpenClastVault B manifest config scope world previousResources)
      (fun (loop : VaultLoop) r => r ∈ loop.nextResources)
      (fun (vault : VaultRegistration) (r : ResourceKey) => r.vaultId = vault.id) hframe hdisjoint
      hloop r hvault hvid.symm
    obtain ⟨resource, hresource, -, -, hnext⟩ := planOpenClastVault_ok hstep
    have honly : ∀ other ∈ config.vaults, config.resourceKey other = some r → other = vault := by
      intro other hother hkey
      refine Config.eq_of_id_eq hother hvault ?_
      rw [← Config.vaultId_of_resourceKey hkey, hvid]
    have hpublished : r ∈ s.nextResources ↔ previousResources vault.id = some r := by
      rw [hs, hstart, resourcesByVault_ok hprevious]
      simp [hid, hvid]
    rw [ht, hnext r, hpublished]
    constructor
    · rintro (⟨hdir, rfl⟩ | ⟨hprev, hnot⟩)
      · exact ⟨vault, hvault, hresource, .inl hdir⟩
      · -- published and not reclassified means published under the current resource
        have hfalse : vaultReclassified B manifest previousResources vault resource = false := by
          simpa [hprev] using hnot
        simp only [vaultReclassified, hprev, Option.any_some, Bool.or_eq_false_iff,
          decide_eq_false_iff_not, not_not] at hfalse
        obtain ⟨rfl, hrows⟩ := hfalse
        exact ⟨vault, hvault, hresource, .inr ⟨hprev, hrows⟩⟩
    · rintro ⟨other, hother, hkey, hserved⟩
      obtain rfl := honly other hother hkey
      rw [hresource, Option.some.injEq] at hkey
      subst hkey
      rcases hserved with hdir | ⟨hprev, hrows⟩
      · exact .inl ⟨hdir, rfl⟩
      · refine .inr ⟨hprev, fun hboth => ?_⟩
        simp [vaultReclassified, hprev, hrows] at hboth
  · have hview := foldlM_eq_of_no_footprint
      (planOpenClastVault B manifest config scope world previousResources)
      (fun (loop : VaultLoop) r => r ∈ loop.nextResources)
      (fun (vault : VaultRegistration) (r : ResourceKey) => r.vaultId = vault.id) hframe hloop r
      (fun vault hvault hown => hid (hown ▸ mem_map_of_mem hvault))
    rw [hview, hstart]
    constructor
    · rintro ⟨-, hmem⟩
      exact absurd hmem hid
    · rintro ⟨vault, hvault, hkey, -⟩
      exact absurd (mem_map_of_mem hvault) (Config.vaultId_of_resourceKey hkey ▸ hid)

end Loop

/-! ## §4 The sweep -/

variable {plan plan' : ReconcilePlan}

section Sweep

variable {config : Config} {partitions : Std.ExtTreeMap ResourceKey (List Document)}
  {faults : PassFaults}

/-- The keys a partition is swept of. -/
private def unexpectedKeys (config : Config) (plan : ReconcilePlan) (documents : List Document)
    (resource : ResourceKey) : List SourceKey :=
  (partitionSourceKeys documents).toList.filter fun key =>
    !plan.nextManifest.files[key]?.any fun row => config.expects B row resource

lemma mem_unexpectedKeys {documents : List Document} {k : SourceKey} :
    k ∈ unexpectedKeys (B := B) config plan documents resource ↔
      documentsAt documents k ≠ [] ∧
        ¬ ∃ row, plan.nextManifest.files[k]? = some row ∧ config.expects B row resource = true := by
  have hkeys : k ∈ (partitionSourceKeys documents).toList ↔ documentsAt documents k ≠ [] := by
    simp [partitionSourceKeys, documentsAt]
  rw [unexpectedKeys, mem_filter, hkeys, Bool.not_eq_true', ← Bool.not_eq_true, Option.any_eq_true]

lemma sweep_foldl (keys : List SourceKey) (resource : ResourceKey)
    (plan : ReconcilePlan) (k : SourceKey) :
    let swept := keys.foldl (fun plan key => plan.removeIndexSource key (.resource resource)) plan
    swept.nextManifest = plan.nextManifest ∧
      swept.view B k = if k ∈ keys then (plan.view B k).delete (.resource resource)
        else plan.view B k := by
  induction keys generalizing plan with
  | nil => simp
  | cons key rest ih =>
    obtain ⟨hmanifest, hview⟩ := ih (plan.removeIndexSource key (.resource resource))
    refine ⟨hmanifest, ?_⟩
    rw [foldl_cons, hview, ReconcilePlan.view_removeIndexSource]
    by_cases hkey : key = k
    · subst hkey
      simp only [if_true, mem_cons_self]
      split
      · ext s <;> simp [KeyView.delete]
      · rfl
    · have hne : k ≠ key := fun h => hkey h.symm
      simp [hkey, hne]

/-- What a partition is swept of at a key. -/
theorem view_sweepPartition
    (h : sweepPartition B config partitions faults plan resource = .ok plan') (k : SourceKey) :
    plan'.nextManifest = plan.nextManifest ∧
      plan'.view B k =
        if documentsAt (partitions.getD resource []) k ≠ [] ∧
            ¬ ∃ row, plan.nextManifest.files[k]? = some row ∧ config.expects B row resource = true
        then (plan.view B k).delete (.resource resource)
        else plan.view B k := by
  unfold sweepPartition at h
  split at h
  · rename_i hnone
    cases h
    have hempty : partitions.getD resource [] = [] := by
      rw [Std.ExtTreeMap.getD_eq_getD_getElem?, hnone]
      rfl
    simp [hempty, documentsAt]
  · rename_i documents hsome
    have h := attempt_bind_ok h
    cases h
    have hget : partitions.getD resource [] = documents := by
      rw [Std.ExtTreeMap.getD_eq_getD_getElem?, hsome]
      rfl
    obtain ⟨hmanifest, hview⟩ := sweep_foldl (B := B)
      (unexpectedKeys (B := B) config plan documents resource) resource plan k
    refine ⟨hmanifest, ?_⟩
    rw [hget]
    simp only [← mem_unexpectedKeys]
    exact hview

/-- **The sweep at a key**: rows and additions stand, and the key is deleted in every swept
partition that holds it and may not. -/
theorem view_sweep {resources : List ResourceKey}
    (h : resources.foldlM (sweepPartition B config partitions faults) plan = .ok plan')
    (k : SourceKey) :
    plan'.nextManifest = plan.nextManifest ∧
      (∀ s, (plan'.view B k).added s = (plan.view B k).added s) ∧
      ∀ r, (plan'.view B k).deleted (.resource r) = true ↔
        (plan.view B k).deleted (.resource r) = true ∨
          (r ∈ resources ∧ documentsAt (partitions.getD r []) k ≠ [] ∧
            ¬ ∃ row, plan.nextManifest.files[k]? = some row ∧ config.expects B row r = true) := by
  induction resources generalizing plan with
  | nil =>
    cases h
    simp
  | cons resource rest ih =>
    obtain ⟨next, hnext, hrest⟩ := foldlM_cons_ok _ h
    obtain ⟨hmanifest, hview⟩ := view_sweepPartition hnext k
    obtain ⟨hmanifest', hadded, hdeleted⟩ := ih hrest
    refine ⟨hmanifest'.trans hmanifest, fun s => ?_, fun r => ?_⟩
    · rw [hadded, hview]
      split <;> rfl
    · rw [hdeleted, hview, hmanifest]
      split
      · rename_i hswept
        simp only [KeyView.delete, Bool.or_eq_true, decide_eq_true_eq, PartitionScope.resource.injEq,
          mem_cons]
        constructor
        · rintro ((hold | rfl) | ⟨hmem, hrest⟩)
          · exact .inl hold
          · exact .inr ⟨.inl rfl, hswept⟩
          · exact .inr ⟨.inr hmem, hrest⟩
        · rintro (hold | ⟨rfl | hmem, hrest⟩)
          · exact .inl (.inl hold)
          · exact .inl (.inr rfl)
          · exact .inr ⟨hmem, hrest⟩
      · rename_i hkept
        rw [mem_cons]
        constructor
        · rintro (hold | ⟨hmem, hrest⟩)
          · exact .inl hold
          · exact .inr ⟨.inr hmem, hrest⟩
        · rintro (hold | ⟨rfl | hmem, hrest⟩)
          · exact .inl hold
          · exact absurd hrest hkept
          · exact .inr ⟨hmem, hrest⟩

lemma counted_sweep {resources : List ResourceKey} (hcounted : plan.Counted B)
    (h : resources.foldlM (sweepPartition B config partitions faults) plan = .ok plan') :
    plan'.Counted B := by
  refine foldlM_induction _ (ReconcilePlan.Counted B) ?_ hcounted h
  intro s t resource _ hs hstep
  unfold sweepPartition at hstep
  split at hstep
  · cases hstep
    exact hs
  · have hstep := attempt_bind_ok hstep
    cases hstep
    exact foldl_induction (fun _ _ hplan => hplan.removeIndexSource _) _ hs

end Sweep

/-! ## §5 The staged partitions -/

section

variable {planned : OpenClastPlan} {faults : PassFaults}

lemma updatePartition_ne {partitions partitions' : Std.ExtTreeMap ResourceKey (List Document)}
    (h : updatePartition B planned faults partitions resource = .ok partitions')
    (hne : ¬ resource = r) : partitions'[r]? = partitions[r]? := by
  unfold updatePartition at h
  split at h
  · cases h
    rfl
  · obtain ⟨documents, -, h⟩ := except_bind_ok (attempt_bind_ok h)
    have h := attempt_bind_ok h
    cases h
    simp [Std.ExtTreeMap.getElem?_insert, hne]

/-- A partition of the layout after its own update. -/
theorem updatePartition_self {partitions partitions' : Std.ExtTreeMap ResourceKey (List Document)}
    (h : updatePartition B planned faults partitions r = .ok partitions')
    (hr : r ∈ planned.layout.resources) :
    ∃ documents, partitions'[r]? = some documents ∧
      ∀ k, documentsAt documents k = (planned.plan.view B k).updated B (.resource r)
        (documentsAt (partitions.getD r []) k) := by
  unfold updatePartition at h
  rw [if_neg (by simpa using hr)] at h
  obtain ⟨documents, hdocuments, h⟩ := except_bind_ok (attempt_bind_ok h)
  have h := attempt_bind_ok h
  cases h
  exact ⟨documents, by simp, fun k => documentsAt_update hdocuments k⟩

/-- Outside its update scopes a plan changes nothing. -/
theorem updated_of_notMem {s : PartitionScope} (h : s ∉ plan.updateScopes) (k : SourceKey)
    (before : List Document) : (plan.view B k).updated B s before = before := by
  simp only [ReconcilePlan.updateScopes, mem_append, Std.ExtTreeMap.mem_keys, not_or] at h
  have hdeletes : plan.deletesAt s = ∅ := by
    rw [ReconcilePlan.deletesAt, Std.ExtTreeMap.getD_eq_fallback h.1]
  have hadditions : plan.additionsAt s = [] := by
    rw [ReconcilePlan.additionsAt, Std.ExtTreeMap.getD_eq_fallback h.2]
  simp [KeyView.updated, ReconcilePlan.view, hdeletes, hadditions]

lemma mem_resourcesToUpdate {partitions : Std.ExtTreeMap ResourceKey (List Document)} :
    r ∈ (resourcesToUpdate partitions planned).toList ↔
      .resource r ∈ planned.plan.updateScopes ∨
        (r ∈ planned.layout.resources ∧ r ∉ partitions) := by
  simp only [resourcesToUpdate, Std.ExtTreeSet.mem_toList, Std.ExtTreeSet.mem_ofList,
    contains_iff_mem, mem_append, mem_filterMap, mem_filter,
    Bool.not_eq_true', ← Bool.not_eq_true, Std.ExtTreeMap.contains_iff_mem]
  refine or_congr_left ⟨?_, fun hmem => ⟨_, hmem, rfl⟩⟩
  rintro ⟨scope, hmem, hscope⟩
  cases scope with
  | whole => cases hscope
  | resource key =>
    cases hscope
    exact hmem

/-- **The staged partitions**: those of the layout, each updated as planned. -/
theorem stageOpenClast_ok {active candidate : OpenClastGeneration} {env : PassEnv}
    (h : stageOpenClast B active planned env = .ok candidate) :
    candidate.layout = planned.layout ∧
      candidate.manifest.files = planned.plan.nextManifest.files ∧
      (∀ r, r ∈ candidate.partitions ↔ r ∈ planned.layout.resources) ∧
      ∀ r ∈ planned.layout.resources, ∀ k,
        documentsAt (candidate.partitions.getD r []) k =
          (planned.plan.view B k).updated B (.resource r)
            (documentsAt (active.partitions.getD r []) k) := by
  unfold stageOpenClast at h
  have h := attempt_bind_ok (attempt_bind_ok (attempt_bind_ok h))
  obtain ⟨partitions, hpartitions, h⟩ := except_bind_ok h
  obtain ⟨_, -, h⟩ := except_bind_ok h
  obtain ⟨_, -, h⟩ := except_bind_ok (attempt_bind_ok h)
  have h := attempt_bind_ok h
  cases h
  set kept := active.partitions.filter fun resource _ => resource ∈ planned.layout.resources
    with hkeptDef
  have hkept : ∀ r, kept[r]? = if r ∈ planned.layout.resources then active.partitions[r]? else none := by
    intro r
    rw [hkeptDef, Std.ExtTreeMap.getElem?_filter']
    by_cases hr : r ∈ planned.layout.resources
    · cases active.partitions[r]? <;> simp [hr]
    · simp [hr]
  have hframe : ∀ (s t : Std.ExtTreeMap ResourceKey (List Document)) (resource r : ResourceKey),
      updatePartition B planned env.faults s resource = .ok t → ¬ resource = r → t[r]? = s[r]? :=
    fun s t resource r hstep hne => updatePartition_ne hstep hne
  have hdisjoint : (resourcesToUpdate active.partitions planned).toList.Pairwise
      fun a b => ∀ r, ¬ (a = r ∧ b = r) := by
    refine Std.ExtTreeSet.distinct_toList.imp ?_
    rintro a b hne r ⟨rfl, rfl⟩
    exact hne (Std.LawfulEqCmp.compare_eq_iff_eq.mpr rfl)
  -- a partition of the layout is there, and as planned
  have hstaged : ∀ r ∈ planned.layout.resources, ∃ documents, partitions[r]? = some documents ∧
      ∀ k, documentsAt documents k = (planned.plan.view B k).updated B (.resource r)
        (documentsAt (active.partitions.getD r []) k) := by
    intro r hr
    by_cases hupdate : r ∈ (resourcesToUpdate active.partitions planned).toList
    · obtain ⟨s, t, hs, hstep, hview⟩ := foldlM_eq_of_footprint
        (updatePartition B planned env.faults) (fun partitions r => partitions[r]?)
        (fun resource r => resource = r) hframe hdisjoint hpartitions r hupdate rfl
      obtain ⟨documents, hget, hdocuments⟩ := updatePartition_self hstep hr
      refine ⟨documents, hview.trans hget, fun k => ?_⟩
      rw [hkept, if_pos hr] at hs
      rw [hdocuments k, Std.ExtTreeMap.getD_eq_getD_getElem?, hs,
        ← Std.ExtTreeMap.getD_eq_getD_getElem?]
    · rw [foldlM_eq_of_no_footprint (updatePartition B planned env.faults)
        (fun partitions r => partitions[r]?) (fun resource r => resource = r) hframe hpartitions r
        (by rintro resource hmem rfl; exact hupdate hmem), hkept, if_pos hr]
      rw [mem_resourcesToUpdate, not_or, not_and, not_not] at hupdate
      have hpresent := hupdate.2 hr
      refine ⟨active.partitions.getD r [], ?_, fun k => ?_⟩
      · rw [Std.ExtTreeMap.getD_eq_getD_getElem?]
        obtain ⟨documents, hget⟩ := Option.isSome_iff_exists.mp
          (Std.ExtTreeMap.mem_iff_isSome_getElem?.mp hpresent)
        simp [hget]
      · rw [updated_of_notMem hupdate.1]
  refine ⟨rfl, rfl, fun r => ?_, fun r hr k => ?_⟩
  · constructor
    · intro hmem
      by_contra hr
      -- a partition outside the layout is dropped and never recreated
      have hnone : partitions[r]? = none := by
        have hskip : ∀ (s t : Std.ExtTreeMap ResourceKey (List Document)) (resource r : ResourceKey),
            updatePartition B planned env.faults s resource = .ok t →
            ¬ (resource = r ∧ r ∈ planned.layout.resources) → t[r]? = s[r]? := by
          intro s t resource r hstep hno
          by_cases hresource : resource = r
          · subst hresource
            have hout : resource ∉ planned.layout.resources := fun hin => hno ⟨rfl, hin⟩
            unfold updatePartition at hstep
            rw [if_pos hout] at hstep
            cases hstep
            rfl
          · exact hframe s t resource r hstep hresource
        rw [foldlM_eq_of_no_footprint (updatePartition B planned env.faults)
          (fun partitions r => partitions[r]?)
          (fun resource r => resource = r ∧ r ∈ planned.layout.resources) hskip hpartitions r
          (fun resource _ hown => hr hown.2), hkept, if_neg hr]
      rw [Std.ExtTreeMap.mem_iff_isSome_getElem?, hnone] at hmem
      cases hmem
    · intro hr
      obtain ⟨documents, hget, -⟩ := hstaged r hr
      exact Std.ExtTreeMap.mem_iff_isSome_getElem?.mpr (by simp [hget])
  · obtain ⟨documents, hget, hdocuments⟩ := hstaged r hr
    rw [← hdocuments k, Std.ExtTreeMap.getD_eq_getD_getElem?, hget]
    rfl

end

/-! ## §6 A pass at one key -/

namespace OpenClastIndexManager

/-- The documents of a partition. -/
def documents (manager : OpenClastIndexManager) (resource : ResourceKey) : List Document :=
  manager.active.partitions.getD resource []

/-- The active generation holds the partitions of the published layout and no others. -/
def Aligned (manager : OpenClastIndexManager) : Prop :=
  ∀ r, r ∈ manager.active.partitions ↔ r ∈ manager.layout.resources

lemma Aligned.documents_eq_nil {manager : OpenClastIndexManager} (h : manager.Aligned)
    (hr : r ∉ manager.layout.resources) : manager.documents r = [] :=
  Std.ExtTreeMap.getD_eq_fallback fun hmem => hr ((h r).mp hmem)

variable (B) in
/-- Whether a pass publishes the partition of a vault's current resource. -/
def Serves (manager : OpenClastIndexManager) (world : PassWorld) (vault : VaultRegistration)
    (resource : ResourceKey) : Prop :=
  (world.vault vault).isDir = true ∨ (resource ∈ manager.layout.resources ∧
    manager.manifest.registrationReclassified B vault resource = false)

variable (B) in
/-- What a pass does with a source of a registered vault. -/
def fate (manager : OpenClastIndexManager) (config : Config) (scope : ReconcileScope)
    (world : PassWorld) (previousResources : Str → Option ResourceKey) (vault : VaultRegistration)
    (resource : ResourceKey) (path : Str) : SourceFate :=
  if !(world.vault vault).isDir then .untouched
  else
    let context := openClastContext B config scope world previousResources vault resource
    let budget := auditBudgetAt (B := B) manager.manifest config scope manager.auditCursor world
      previousResources vault
    sourceFate B context vault (world.vault vault)
      (readsFile B vault manager.manifest context
        (auditedKeys B vault (world.vault vault) manager.manifest context budget))
      manager.manifest.files[sourceKey B.hash vault.id path]? path

end OpenClastIndexManager

/-- The documents a planned key ends with in a published partition: swept unless expected there. -/
def KeyView.settle (B : Build) (view : KeyView) (config : Config) (resource : ResourceKey)
    (before : List Document) : List Document :=
  (if view.deleted (.resource resource) ||
      !view.row.any fun row => config.expects B row resource then []
    else before) ++
    (view.added (.resource resource)).map fun planned => chunkDocument B planned.1 planned.2

/-- What a successful pass leaves. -/
structure PassEffect (B : Build) (manager after : OpenClastIndexManager) (config : Config)
    (scope : ReconcileScope) (world : PassWorld) : Prop where
  configured : after.config = config
  aligned : after.Aligned
  layout : ∀ r, r ∈ after.layout.resources ↔ ∃ vault ∈ config.vaults,
    config.resourceKey vault = some r ∧ manager.Serves B world vault r
  /-- A key of a registered vault meets its fate and is swept. -/
  registered : ∃ previousResources, resourcesByVault manager.layout = .ok previousResources ∧
    ∀ vault ∈ config.vaults, ∀ path, ∃ resource, config.resourceKey vault = some resource ∧
      let key := sourceKey B.hash vault.id path
      let row := manager.manifest.files[key]?
      let view := (manager.fate B config scope world previousResources vault resource path).apply B
        (openClastContext B config scope world previousResources vault resource) row
        (KeyView.initial row)
      after.manifest.files[key]? = view.row ∧ ∀ r ∈ after.layout.resources,
        documentsAt (after.documents r) key =
          view.settle B config r (documentsAt (manager.documents r) key)
  /-- Any other key is dropped. -/
  unregistered : ∀ k, (∀ vault ∈ config.vaults, ∀ path, sourceKey B.hash vault.id path ≠ k) →
    after.manifest.files[k]? = none ∧ ∀ r ∈ after.layout.resources,
      documentsAt (after.documents r) k = []

section Effect

variable {manager after : OpenClastIndexManager} {config : Config} {scope : ReconcileScope}
  {env : PassEnv}

lemma counted_planOpenClast {planned : OpenClastPlan}
    (h : planOpenClast B manager config scope env = .ok planned) : planned.plan.Counted B := by
  obtain ⟨previousResources, loop, -, hloop, -, hsweep⟩ := planOpenClast_ok h
  refine counted_sweep ?_ hsweep
  refine foldlM_induction _ (fun loop : VaultLoop => loop.pass.plan.Counted B) ?_ ?_ hloop
  · intro s t vault _ hs hstep
    obtain ⟨resource, -, hunavailable, havailable, -⟩ := planOpenClastVault_ok hstep
    cases hdir : (env.world.vault vault).isDir with
    | false =>
      obtain ⟨message, hpass⟩ := hunavailable hdir
      rw [hpass]
      exact counted_retainVault hs
    | true =>
      rw [havailable hdir]
      exact counted_planVault hs
  · refine foldl_induction (fun plan key hplan => ?_) _ (ReconcilePlan.counted_new manager.manifest)
    unfold removeUnregistered
    split
    · exact hplan
    · exact foldl_induction (fun _ scope hs => hs.removeIndexSource scope) _
        hplan.removeManifestSource

/-- A successful pass leaves its plan: rows, layout and partitions. -/
theorem reconcile_ok_planned {report : ReconcileReport}
    (haligned : manager.Aligned)
    (h : manager.reconcile B config scope env = (after, .ok report)) :
    ∃ planned, planOpenClast B manager config scope env = .ok planned ∧ after.config = config ∧
      after.layout.resources = planned.layout.resources ∧ after.Aligned ∧
      ∀ k, after.manifest.files[k]? = (planned.plan.view B k).row ∧
        ∀ r ∈ planned.layout.resources, documentsAt (after.documents r) k =
          (planned.plan.view B k).updated B (.resource r) (documentsAt (manager.documents r) k) := by
  obtain ⟨planned, hplanned, hconfig, hcases⟩ := OpenClastIndexManager.reconcile_ok_cases h
  refine ⟨planned, hplanned, hconfig, ?_⟩
  rcases hcases with ⟨candidate, hstage, hactive, hlayout, hmanifest⟩ |
    ⟨hidle, hactive, hlayout, hmanifest⟩
  · obtain ⟨hsame, hfiles, hdomain, hdocuments⟩ := stageOpenClast_ok hstage
    refine ⟨by rw [hlayout, hsame], fun r => ?_, fun k => ⟨?_, fun r hr => ?_⟩⟩
    · rw [hactive, hlayout, hsame, hdomain r]
    · rw [hmanifest, hfiles]
      rfl
    · rw [OpenClastIndexManager.documents, hactive, hdocuments r hr k]
      rfl
  · -- nothing was published, so nothing was planned either
    simp only [OpenClastIndexManager.publishes, ReconcilePlan.publishes, Bool.or_eq_false_iff,
      decide_eq_false_iff_not, not_not, not_lt, Nat.le_zero] at hidle
    obtain ⟨⟨⟨hrows, hzero⟩, -⟩, hsame⟩ := hidle
    have hview := (counted_planOpenClast hplanned).view_of_unchanged hzero
    refine ⟨by rw [hlayout, hsame], fun r => ?_, fun k => ⟨?_, fun r hr => ?_⟩⟩
    · rw [hactive, hlayout]
      exact haligned r
    · rw [hview k, hmanifest, hrows]
      rfl
    · rw [hview k, KeyView.updated_initial, OpenClastIndexManager.documents, hactive]
      rfl

/-- Sweeping a planned key of a published partition settles it. -/
theorem updated_eq_settle {planned : OpenClastPlan} {loop : VaultLoop}
    (hsweep : planned.layout.resources.foldlM
      (sweepPartition B config manager.active.partitions env.faults) loop.pass.plan =
        .ok planned.plan) (hr : r ∈ planned.layout.resources) (k : SourceKey) :
    (planned.plan.view B k).updated B (.resource r) (documentsAt (manager.documents r) k) =
      (loop.pass.plan.view B k).settle B config r (documentsAt (manager.documents r) k) := by
  obtain ⟨-, hadded, hdeleted⟩ := view_sweep hsweep k
  unfold KeyView.updated KeyView.settle
  rw [hadded]
  congr 1
  by_cases hempty : documentsAt (manager.documents r) k = []
  · simp [hempty]
  · have hexpected : (∃ row, loop.pass.plan.nextManifest.files[k]? = some row ∧
        config.expects B row r = true) ↔
        ((loop.pass.plan.view B k).row.any fun row => config.expects B row r) = true := by
      rw [Option.any_eq_true]
      rfl
    have hiff := hdeleted r
    rw [hexpected] at hiff
    refine if_congr ?_ rfl rfl
    rw [hiff, Bool.or_eq_true, Bool.not_eq_true', Bool.not_eq_true]
    constructor
    · rintro (hold | ⟨-, -, hno⟩)
      · exact .inl hold
      · exact .inr hno
    · rintro (hold | hno)
      · exact .inl hold
      · exact .inr ⟨hr, hempty, hno⟩

/-- **A successful pass**, key by key. -/
theorem passEffect {report : ReconcileReport} (hkeyed : manager.manifest.Keyed B)
    (haligned : manager.Aligned) (h : manager.reconcile B config scope env = (after, .ok report)) :
    PassEffect B manager after config scope env.world := by
  obtain ⟨planned, hplanned, hconfig, hlayout, haligned', hview⟩ := reconcile_ok_planned haligned h
  obtain ⟨previousResources, loop, hprevious, hloop, hnext, hsweep⟩ := planOpenClast_ok hplanned
  have hrow : ∀ k, (planned.plan.view B k).row = (loop.pass.plan.view B k).row := by
    intro k
    change planned.plan.nextManifest.files[k]? = loop.pass.plan.nextManifest.files[k]?
    rw [(view_sweep hsweep k).1]
  refine ⟨hconfig, haligned', fun r => ?_, ⟨previousResources, hprevious, ?_⟩, ?_⟩
  · rw [hlayout, GenerationLayout.openclast_ok hnext, mem_nextResources hloop hprevious]
    refine exists_congr fun vault => and_congr_right fun hvault => and_congr_right fun hkey => ?_
    refine or_congr_right (and_congr_left fun _ => ?_)
    rw [resourcesByVault_ok hprevious]
    exact and_iff_left (Config.vaultId_of_resourceKey hkey)
  · intro vault hvault path
    obtain ⟨resource, hresource, hunavailable, havailable⟩ :=
      view_vaultLoop hloop hkeyed hvault path
    refine ⟨resource, hresource, ?_⟩
    intro key row view
    have hfate : loop.pass.plan.view B key = view := by
      simp only [view, OpenClastIndexManager.fate]
      cases hdir : (env.world.vault vault).isDir with
      | false => exact hunavailable hdir
      | true => exact havailable hdir
    refine ⟨by rw [(hview key).1, hrow, hfate], fun r hr => ?_⟩
    rw [hlayout] at hr
    rw [(hview key).2 r hr, updated_eq_settle hsweep hr, hfate]
  · intro k hne
    obtain ⟨hnone, hadded⟩ := view_vaultLoop_unregistered hloop hkeyed hne
    refine ⟨by rw [(hview k).1, hrow, hnone], fun r hr => ?_⟩
    rw [hlayout] at hr
    rw [(hview k).2 r hr, updated_eq_settle hsweep hr, KeyView.settle, hadded, hnone]
    simp

end Effect

end Kwiry
