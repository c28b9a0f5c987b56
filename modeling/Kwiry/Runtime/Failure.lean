import Kwiry.Runtime.Convergence
import Kwiry.Runtime.OpenClast

/-!
# Failed Passes

What a pass that returns an error leaves behind. Both managers plan and stage on copies and
commit their fields after the last fallible step, with one exception: the serving runtime is
told the new freshness basis before the first one.
-/

namespace Kwiry

open Foundations

/-- What a failed pass must not change in a desktop manager. -/
structure DesktopIndexManager.Unchanged (before after : DesktopIndexManager) : Prop where
  config : after.config = before.config
  manifest : after.manifest = before.manifest
  freshnessBasis : after.runtime.freshnessBasis = before.runtime.freshnessBasis
  active : after.active = before.active
  installed : after.runtime.installed = before.runtime.installed

/-- What a failed pass must not change in a partitioned manager. -/
structure OpenClastIndexManager.Unchanged (before after : OpenClastIndexManager) : Prop where
  config : after.config = before.config
  manifest : after.manifest = before.manifest
  freshnessBasis : after.runtime.freshnessBasis = before.runtime.freshnessBasis
  active : after.active = before.active
  layout : after.layout = before.layout
  installed : after.runtime.installed = before.runtime.installed

/-- **Failed passes.** In either profile, at every failure point, a failed pass leaves the
configuration, the manifest, the freshness basis, the active generation and the served index as they
were, exactly when the basis it came with is the one in force. -/
theorem reconcile_error_unchanged_iff (B : Build) :
    (∀ (manager after : DesktopIndexManager) (config : Config) (scope : ReconcileScope)
      (env : PassEnv) (error : Error),
      manager.reconcile B config scope env = (after, .error error) →
      (manager.Unchanged after ↔ config.basis = manager.runtime.freshnessBasis)) ∧
    ∀ (manager after : OpenClastIndexManager) (config : Config) (scope : ReconcileScope)
      (env : PassEnv) (error : Error),
      manager.reconcile B config scope env = (after, .error error) →
      (manager.Unchanged after ↔ config.basis = manager.runtime.freshnessBasis) := by
  constructor
  · intro manager after config scope env error h
    obtain ⟨current, rfl⟩ := DesktopIndexManager.reconcile_error_cases h
    constructor
    · intro hsame
      exact hsame.freshnessBasis
    · intro hbasis
      exact ⟨rfl, rfl, hbasis, rfl, rfl⟩
  · intro manager after config scope env error h
    obtain ⟨current, rfl⟩ := OpenClastIndexManager.reconcile_error_cases h
    constructor
    · intro hsame
      exact hsame.freshnessBasis
    · intro hbasis
      exact ⟨rfl, rfl, hbasis, rfl, rfl, rfl⟩

/-! ## A pass with a new basis that cannot be staged -/

/-- The configuration of the note with another basis. -/
def auditedConfig : Config := { noteConfig with basis := .metadataAudit }

/-- The host refuses the candidate directory. -/
def refusedEnv : PassEnv :=
  { noteEnv 1 with
    faults := fun point => if point = .createCandidate then some (.io "no space left") else none }

def refusedPass : DesktopIndexManager × Except Error ReconcileReport :=
  noteManager.reconcile Build.plain auditedConfig .full refusedEnv

lemma refusedPass_fails : ∃ error,
    noteManager.reconcile Build.plain auditedConfig .full refusedEnv =
      (refusedPass.1, .error error) := by
  have hfails : refusedPass.2.toOption.isNone = true := by decide +kernel
  cases hresult : refusedPass.2 with
  | ok report =>
    rw [hresult] at hfails
    cases hfails
  | error error =>
    refine ⟨error, ?_⟩
    rw [← hresult, Prod.mk.eta, refusedPass]

/-- The general result at the refused pass. -/
theorem refusedPass_unchanged_iff :
    (∃ error, noteManager.reconcile Build.plain auditedConfig .full refusedEnv =
      (refusedPass.1, .error error)) ∧
    (noteManager.Unchanged refusedPass.1 ↔
      auditedConfig.basis = noteManager.runtime.freshnessBasis) := by
  refine ⟨refusedPass_fails, ?_⟩
  obtain ⟨error, hpass⟩ := refusedPass_fails
  exact (reconcile_error_unchanged_iff Build.plain).1 noteManager refusedPass.1 auditedConfig .full
    refusedEnv error hpass

/-- The refused pass leaves the runtime on the new basis. -/
theorem refusedPass_changes_basis :
    ¬ ∀ (manager after : DesktopIndexManager) (config : Config) (scope : ReconcileScope)
      (env : PassEnv) (error : Error),
      manager.reconcile Build.plain config scope env = (after, .error error) →
      manager.Unchanged after := by
  intro hclaim
  obtain ⟨error, hpass⟩ := refusedPass_fails
  have hsame := (hclaim _ _ _ _ _ error hpass).freshnessBasis
  exact absurd hsame (by decide +kernel)

end Kwiry
