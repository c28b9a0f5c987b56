import Kwiry.Plugin.Pending

/-!
# Coalesced Vault Changes

What pending work has to account for while events of a vault's history are merged into it, and what
draining it then leaves: the vault's paths indexed, and the paths the history wrote read again. A
rename that continues a pending one drops what was pending for the paths it passes through, so
histories are followed under the condition that nothing was.
-/

namespace Kwiry.Plugin

open Foundations List

/-! ## §1 Histories of a vault -/

/-- Removals and renames name a file, and a rename's destination is free. -/
def VaultSourceEvent.Valid (vault : List JsString) : VaultSourceEvent → Prop
  | .upsert _ => True
  | .remove path => path ∈ vault
  | .rename oldPath path => oldPath ∈ vault ∧ path ∉ vault
  | .rescan => False

def VaultSourceEvent.applyTo (vault : List JsString) : VaultSourceEvent → List JsString
  | .upsert path => setAdd path vault
  | .remove path => setDelete path vault
  | .rename oldPath path => setAdd path (setDelete oldPath vault)
  | .rescan => vault

/-- The path an event writes. -/
def VaultSourceEvent.written : VaultSourceEvent → List JsString
  | .upsert path => [path]
  | .rename _ path => [path]
  | .remove _ | .rescan => []

/-! ## §2 What pending work accounts for -/

/-- Pending work accounts for every difference between a vault and its index: what is present and
not indexed, or written and not read since, will be read, and what is indexed and gone will be
removed. -/
structure Accounted (vault : List JsString) (index : IndexedPaths) (written : List JsString)
    (pending : PendingChanges) : Prop where
  keys_nodup : (mapKeys pending.renames).Nodup
  destination_unique : ∀ root root' path, (root, path) ∈ pending.renames →
    (root', path) ∈ pending.renames → root = root'
  destination : ∀ root path, (root, path) ∈ pending.renames →
    path ∈ vault ∧ path ∉ pending.removals ∧ path ∉ pending.upserts
  upsert : ∀ path ∈ pending.upserts, path ∈ vault
  removal : ∀ path ∈ pending.removals, path ∈ vault → path ∈ pending.upserts
  root : ∀ path ∈ mapKeys pending.renames, path ∈ vault →
    path ∈ pending.upserts ∨ LaterValue path path pending.renames
  gone : ∀ path ∈ index.paths, path ∉ vault →
    path ∈ mapKeys pending.renames ∨ path ∈ pending.removals
  present : ∀ path ∈ vault, path ∉ index.paths →
    path ∈ pending.upserts ∨ ∃ root, (root, path) ∈ pending.renames
  written : ∀ path ∈ written, path ∈ vault →
    path ∈ pending.upserts ∨ (∃ root, (root, path) ∈ pending.renames) ∨ path ∈ index.reads

/-- A rename that continues a pending one finds its old path unindexed, the chain's root not to be
read again, and its new path not to be freed by a later pending rename. Renames answered with a
rescan (of a pending old path, or closing a cycle) are safe. -/
def ChainSafe (index : List JsString) (pending : PendingChanges) : VaultSourceEvent → Prop
  | .rename oldPath path => oldPath ∉ mapKeys pending.renames →
    ∀ entry ∈ pending.chained oldPath,
      PendingChanges.hasRenameCycle (mapSet entry.1 path pending.renames) = false →
        oldPath ∉ index ∧ entry.1 ∉ pending.upserts ∧
          path ∉ mapKeys (entriesAfter entry.1 pending.renames)
  | _ => True

instance (index : List JsString) (pending : PendingChanges) :
    DecidablePred (ChainSafe index pending)
  | .rename oldPath path => inferInstanceAs (Decidable (oldPath ∉ mapKeys pending.renames →
      ∀ entry ∈ pending.chained oldPath,
        PendingChanges.hasRenameCycle (mapSet entry.1 path pending.renames) = false →
          oldPath ∉ index ∧ entry.1 ∉ pending.upserts ∧
            path ∉ mapKeys (entriesAfter entry.1 pending.renames)))
  | .upsert _ | .remove _ | .rescan => isTrue trivial

variable {oldPath path : JsString}

lemma PendingChanges.chained_eq_some {pending : PendingChanges} {entry : JsString × JsString}
    (h : pending.chained path = some entry) : entry ∈ pending.renames ∧ entry.2 = path :=
  ⟨mem_of_find?_eq_some h, by simpa using find?_some h⟩

lemma PendingChanges.chained_eq_none {pending : PendingChanges} (h : pending.chained path = none)
    (root : JsString) : (root, path) ∉ pending.renames :=
  fun hmem => by simpa using find?_eq_none.mp h _ hmem

/-- A rename of a path to itself is a cycle. -/
theorem hasRenameCycle_of_self {renames : List (JsString × JsString)}
    (hnodup : (mapKeys renames).Nodup) (h : (path, path) ∈ renames) :
    PendingChanges.hasRenameCycle renames = true := by
  have hfind : renames.find? (fun entry => entry.1 = path) = some (path, path) := by
    cases hfound : renames.find? fun entry => entry.1 = path with
    | none => exact absurd (find?_eq_none.mp hfound _ h) (by simp)
    | some entry =>
      obtain ⟨key, value⟩ := entry
      obtain rfl : key = path := by simpa using find?_some hfound
      rw [value_unique hnodup (mem_of_find?_eq_some hfound) h]
  rw [PendingChanges.hasRenameCycle, any_eq_true]
  exact ⟨(path, path), h, by simp [PendingChanges.followsCycle, hfind]⟩

variable {maxPendingPaths : ℕ}

section Steps

variable {vault written : List JsString} {index : IndexedPaths} {pending : PendingChanges}

section

variable (h : Accounted vault index written pending)

include h

lemma Accounted.queueUpsert (path : JsString) :
    Accounted (setAdd path vault) index (written ++ [path]) (pending.queueUpsert path) := by
  rw [PendingChanges.queueUpsert]
  split
  · next hdest =>
    obtain ⟨⟨root, dest⟩, hentry, rfl⟩ := mem_map.mp hdest
    have hpath : dest ∈ vault := (h.destination root dest hentry).1
    -- the vault has the path already, and the rename reads it
    have hvault : ∀ p, p ∈ setAdd dest vault ↔ p ∈ vault := by
      intro p
      rw [mem_setAdd]
      exact or_iff_right_of_imp fun heq => heq ▸ hpath
    refine ⟨h.keys_nodup, h.destination_unique, ?_, ?_, ?_, ?_, ?_, ?_, ?_⟩
    · intro r d hrd
      obtain ⟨hd, hremoval, hupsert⟩ := h.destination r d hrd
      exact ⟨(hvault d).mpr hd, by simp [hremoval], hupsert⟩
    · exact fun p hp => (hvault p).mpr (h.upsert p hp)
    · exact fun p hp hv => h.removal p (mem_setDelete.mp hp).1 ((hvault p).mp hv)
    · exact fun p hp hv => h.root p hp ((hvault p).mp hv)
    · intro p hp hv
      have hv' : p ∉ vault := fun hmem => hv ((hvault p).mpr hmem)
      refine (h.gone p hp hv').imp_right fun hr => mem_setDelete.mpr ⟨hr, ?_⟩
      rintro rfl
      exact hv' hpath
    · exact fun p hv hp => h.present p ((hvault p).mp hv) hp
    · intro p hp hv
      rcases mem_append.mp hp with hp | hp
      · exact h.written p hp ((hvault p).mp hv)
      · rw [mem_singleton.mp hp]
        exact .inr (.inl ⟨root, hentry⟩)
  · next hdest =>
    have hnot : ∀ root, (root, path) ∉ pending.renames := fun root hmem =>
      hdest (mem_map.mpr ⟨(root, path), hmem, rfl⟩)
    refine ⟨h.keys_nodup, h.destination_unique, ?_, ?_, ?_, ?_, ?_, ?_, ?_⟩
    · intro r d hrd
      obtain ⟨hd, hremoval, hupsert⟩ := h.destination r d hrd
      have hne : d ≠ path := by
        rintro rfl
        exact hnot r hrd
      exact ⟨mem_setAdd.mpr (.inr hd), by simp [hremoval], by simp [hne, hupsert]⟩
    · intro p hp
      rcases mem_setAdd.mp hp with rfl | hp
      · exact mem_setAdd.mpr (.inl rfl)
      · exact mem_setAdd.mpr (.inr (h.upsert p hp))
    · intro p hp hv
      obtain ⟨hp, hne⟩ := mem_setDelete.mp hp
      rcases mem_setAdd.mp hv with rfl | hv
      · exact absurd rfl hne
      · exact mem_setAdd.mpr (.inr (h.removal p hp hv))
    · intro p hp hv
      rcases mem_setAdd.mp hv with rfl | hv
      · exact .inl (mem_setAdd.mpr (.inl rfl))
      · exact (h.root p hp hv).imp_left fun hu => mem_setAdd.mpr (.inr hu)
    · intro p hp hv
      rw [mem_setAdd, not_or] at hv
      exact (h.gone p hp hv.2).imp_right fun hr => mem_setDelete.mpr ⟨hr, hv.1⟩
    · intro p hv hp
      rcases mem_setAdd.mp hv with rfl | hv
      · exact .inl (mem_setAdd.mpr (.inl rfl))
      · exact (h.present p hv hp).imp_left fun hu => mem_setAdd.mpr (.inr hu)
    · intro p hp hv
      by_cases hpath : p = path
      · exact .inl (mem_setAdd.mpr (.inl hpath))
      · have hp' : p ∈ written := by simpa [hpath] using hp
        have hv' : p ∈ vault := by simpa [hpath] using hv
        exact (h.written p hp' hv').imp_left fun hu => mem_setAdd.mpr (.inr hu)

theorem Accounted.queueRemoval (hpath : path ∈ vault)
    (hrescan : (pending.queueRemoval path).rescanRequested = false) :
    Accounted (setDelete path vault) index written (pending.queueRemoval path) := by
  rw [PendingChanges.queueRemoval] at hrescan ⊢
  cases hchained : pending.chained path with
  | none =>
    have hnot := PendingChanges.chained_eq_none hchained
    have hne : ∀ root dest, (root, dest) ∈ pending.renames → dest ≠ path := by
      rintro root dest hmem rfl
      exact hnot root hmem
    refine ⟨h.keys_nodup, h.destination_unique, ?_, ?_, ?_, ?_, ?_, ?_, ?_⟩
    · intro r d hrd
      obtain ⟨hd, hremoval, hupsert⟩ := h.destination r d hrd
      exact ⟨mem_setDelete.mpr ⟨hd, hne r d hrd⟩, by simp [hne r d hrd, hremoval],
        by simp [hupsert]⟩
    · intro p hp
      obtain ⟨hp, hpne⟩ := mem_setDelete.mp hp
      exact mem_setDelete.mpr ⟨h.upsert p hp, hpne⟩
    · intro p hp hv
      obtain ⟨hv, hpne⟩ := mem_setDelete.mp hv
      have hp : p ∈ pending.removals := (mem_setAdd.mp hp).resolve_left hpne
      exact mem_setDelete.mpr ⟨h.removal p hp hv, hpne⟩
    · intro p hp hv
      obtain ⟨hv, hpne⟩ := mem_setDelete.mp hv
      exact (h.root p hp hv).imp_left fun hu => mem_setDelete.mpr ⟨hu, hpne⟩
    · intro p hp hv
      by_cases hpath : p = path
      · exact .inr (mem_setAdd.mpr (.inl hpath))
      · have hv' : p ∉ vault := fun hmem => hv (mem_setDelete.mpr ⟨hmem, hpath⟩)
        exact (h.gone p hp hv').imp_right fun hr => mem_setAdd.mpr (.inr hr)
    · intro p hv hp
      obtain ⟨hv, hpne⟩ := mem_setDelete.mp hv
      exact (h.present p hv hp).imp_left fun hu => mem_setDelete.mpr ⟨hu, hpne⟩
    · intro p hp hv
      obtain ⟨hv, hpne⟩ := mem_setDelete.mp hv
      exact (h.written p hp hv).imp_left fun hu => mem_setDelete.mpr ⟨hu, hpne⟩
  | some entry =>
    obtain ⟨root, dest⟩ := entry
    obtain ⟨hentry, rfl⟩ := PendingChanges.chained_eq_some hchained
    simp only [hchained] at hrescan ⊢
    split at hrescan
    · cases hrescan
    · next hreused =>
      rw [if_neg hreused]
      -- no other rename ends at the root of the one given up
      have hroot : ∀ other, (other, root) ∈ pending.renames → other = root := by
        intro other hmem
        by_contra hne
        exact hreused (any_eq_true.mpr ⟨(other, root), hmem, by simpa using hne⟩)
      have honly : ∀ r d, (r, d) ∈ pending.renames → r ≠ root → d ≠ dest := by
        rintro r d hmem hne rfl
        exact hne (h.destination_unique r root d hmem hentry)
      refine ⟨nodup_keys_mapDelete h.keys_nodup, ?_, ?_, ?_, ?_, ?_, ?_, ?_, ?_⟩
      · intro r r' d hr hr'
        exact h.destination_unique r r' d (mem_mapDelete.mp hr).1 (mem_mapDelete.mp hr').1
      · intro r d hrd
        obtain ⟨hrd, hne⟩ := mem_mapDelete.mp hrd
        obtain ⟨hd, hremoval, hupsert⟩ := h.destination r d hrd
        have hdne : d ≠ dest := honly r d hrd hne
        have hdroot : d ≠ root := fun heq => hne (hroot r (heq ▸ hrd))
        exact ⟨mem_setDelete.mpr ⟨hd, hdne⟩, by simp [hdne, hdroot, hremoval], by simp [hupsert]⟩
      · intro p hp
        obtain ⟨hp, hpne⟩ := mem_setDelete.mp hp
        exact mem_setDelete.mpr ⟨h.upsert p hp, hpne⟩
      · intro p hp hv
        obtain ⟨hv, hpne⟩ := mem_setDelete.mp hv
        rw [mem_setAdd, mem_setAdd, or_iff_right hpne] at hp
        rcases hp with rfl | hp
        · rcases h.root p (mem_mapKeys.mpr ⟨dest, hentry⟩) hv with hu | hlater
          · exact mem_setDelete.mpr ⟨hu, hpne⟩
          · -- the root would be reused by a later rename, other than its own
            exfalso
            obtain ⟨before, own, after, other, hsplit, hmem⟩ := hlater
            have hother : other = p := hroot other (by rw [hsplit]; simp [hmem])
            have hnodup := h.keys_nodup
            rw [hsplit, mapKeys, map_append, map_cons, nodup_append, nodup_cons] at hnodup
            exact hnodup.2.1.1 (mem_map.mpr ⟨(other, p), hmem, hother⟩)
        · exact mem_setDelete.mpr ⟨h.removal p hp hv, hpne⟩
      · intro p hp hv
        obtain ⟨hv, hpne⟩ := mem_setDelete.mp hv
        obtain ⟨d, hd⟩ := mem_mapKeys.mp hp
        obtain ⟨hd, hproot⟩ := mem_mapDelete.mp hd
        rcases h.root p (mem_mapKeys.mpr ⟨d, hd⟩) hv with hu | hlater
        · exact .inl (mem_setDelete.mpr ⟨hu, hpne⟩)
        · refine .inr (hlater.mapDelete hproot fun hmem => ?_)
          exact hpne (value_unique h.keys_nodup hmem hentry)
      · intro p hp hv
        by_cases hpath : p = dest
        · exact .inr (mem_setAdd.mpr (.inl hpath))
        · have hv' : p ∉ vault := fun hmem => hv (mem_setDelete.mpr ⟨hmem, hpath⟩)
          by_cases hproot : p = root
          · exact .inr (mem_setAdd.mpr (.inr (mem_setAdd.mpr (.inl hproot))))
          · rcases h.gone p hp hv' with hk | hr
            · obtain ⟨d, hd⟩ := mem_mapKeys.mp hk
              exact .inl (mem_mapKeys.mpr ⟨d, mem_mapDelete.mpr ⟨hd, hproot⟩⟩)
            · exact .inr (mem_setAdd.mpr (.inr (mem_setAdd.mpr (.inr hr))))
      · intro p hv hp
        obtain ⟨hv, hpne⟩ := mem_setDelete.mp hv
        rcases h.present p hv hp with hu | ⟨r, hr⟩
        · exact .inl (mem_setDelete.mpr ⟨hu, hpne⟩)
        · refine .inr ⟨r, mem_mapDelete.mpr ⟨hr, ?_⟩⟩
          rintro rfl
          exact hpne (value_unique h.keys_nodup hr hentry)
      · intro p hp hv
        obtain ⟨hv, hpne⟩ := mem_setDelete.mp hv
        rcases h.written p hp hv with hu | ⟨r, hr⟩ | hread
        · exact .inl (mem_setDelete.mpr ⟨hu, hpne⟩)
        · refine .inr (.inl ⟨r, mem_mapDelete.mpr ⟨hr, ?_⟩⟩)
          rintro rfl
          exact hpne (value_unique h.keys_nodup hr hentry)
        · exact .inr (.inr hread)

/-- Writing the new path under `root`, the old path itself or the root of the one chain that ends
there, accounts for the rename. -/
theorem Accounted.queueRename_from {root : JsString} (hpath : path ∉ vault) (hcycle : path ≠ root)
    (hchain : ∀ {r d}, (r, d) ∈ pending.renames → (r = root ↔ d = oldPath))
    (hcontinued : root ≠ oldPath → root ∈ mapKeys pending.renames ∧ oldPath ∉ index.paths ∧
      root ∉ pending.upserts)
    (hfreed : path ∈ mapKeys pending.renames → LaterValue path path (mapSet root path pending.renames)) :
    Accounted (setAdd path (setDelete oldPath vault)) index (written ++ [path])
      { pending with
        renames := mapSet root path pending.renames
        upserts := setDelete path (setDelete oldPath (setDelete root pending.upserts))
        removals := setDelete path pending.removals } := by
  have hmem : ∀ {r d}, (r, d) ∈ mapSet root path pending.renames ↔
      r = root ∧ d = path ∨ (r, d) ∈ pending.renames ∧ r ≠ root := by
    intro r d
    rw [mem_mapSet, Prod.mk.injEq]
  have hdest : ∀ {r d}, (r, d) ∈ pending.renames → d ≠ path := by
    rintro r d hrd rfl
    exact hpath (h.destination r d hrd).1
  have hother : ∀ {r d}, (r, d) ∈ pending.renames → d ≠ oldPath →
      (r, d) ∈ mapSet root path pending.renames :=
    fun hrd hd => hmem.mpr (.inr ⟨hrd, fun hr => hd ((hchain hrd).mp hr)⟩)
  have hvault : ∀ {p}, p ∈ setAdd path (setDelete oldPath vault) ↔
      p = path ∨ p ∈ vault ∧ p ≠ oldPath := by
    intro p
    rw [mem_setAdd, mem_setDelete]
  have hupsert : ∀ {p}, p ∈ setDelete path (setDelete oldPath (setDelete root pending.upserts)) ↔
      p ∈ pending.upserts ∧ p ≠ oldPath ∧ p ≠ path := by
    intro p
    simp only [mem_setDelete]
    constructor
    · rintro ⟨⟨⟨hu, -⟩, hold⟩, hp⟩
      exact ⟨hu, hold, hp⟩
    · rintro ⟨hu, hold, hp⟩
      refine ⟨⟨⟨hu, ?_⟩, hold⟩, hp⟩
      rintro rfl
      exact (hcontinued hold).2.2 hu
  refine ⟨nodup_keys_mapSet h.keys_nodup, ?_, ?_, ?_, ?_, ?_, ?_, ?_, ?_⟩
  · intro r r' d hr hr'
    rcases hmem.mp hr with ⟨hroot, heq⟩ | ⟨hold, hroot⟩ <;>
      rcases hmem.mp hr' with ⟨hroot', heq'⟩ | ⟨hold', hroot'⟩
    · rw [hroot, hroot']
    · exact absurd heq (hdest hold')
    · exact absurd heq' (hdest hold)
    · exact h.destination_unique r r' d hold hold'
  · intro r d hrd
    rcases hmem.mp hrd with ⟨rfl, rfl⟩ | ⟨hrd, hroot⟩
    · exact ⟨hvault.mpr (.inl rfl), fun hr => (mem_setDelete.mp hr).2 rfl,
        fun hu => (hupsert.mp hu).2.2 rfl⟩
    · obtain ⟨hd, hremoval, hup⟩ := h.destination r d hrd
      exact ⟨hvault.mpr (.inr ⟨hd, fun heq => hroot ((hchain hrd).mpr heq)⟩),
        fun hr => hremoval (mem_setDelete.mp hr).1, fun hu => hup (hupsert.mp hu).1⟩
  · intro p hp
    obtain ⟨hp, hpold, -⟩ := hupsert.mp hp
    exact hvault.mpr (.inr ⟨h.upsert p hp, hpold⟩)
  · intro p hp hv
    obtain ⟨hp, hppath⟩ := mem_setDelete.mp hp
    obtain ⟨hv, hpold⟩ := (hvault.mp hv).resolve_left hppath
    exact hupsert.mpr ⟨h.removal p hp hv, hpold, hppath⟩
  · intro p hp hv
    obtain ⟨d, hd⟩ := mem_mapKeys.mp hp
    by_cases hppath : p = path
    · -- the new path is freed by an earlier rename only
      subst hppath
      obtain ⟨hd, -⟩ := (hmem.mp hd).resolve_left fun heq => hcycle heq.1
      exact .inr (hfreed (mem_mapKeys.mpr ⟨d, hd⟩))
    · obtain ⟨hv, hpold⟩ := (hvault.mp hv).resolve_left hppath
      have hp : p ∈ mapKeys pending.renames := by
        rcases hmem.mp hd with ⟨rfl, -⟩ | ⟨hd, -⟩
        · exact (hcontinued hpold).1
        · exact mem_mapKeys.mpr ⟨d, hd⟩
      rcases h.root p hp hv with hu | hlater
      · exact .inl (hupsert.mpr ⟨hu, hpold, hppath⟩)
      · exact .inr (hlater.mapSet fun hmem => hpold ((hchain hmem).mp rfl))
  · intro p hp hv
    rw [hvault, not_or] at hv
    by_cases hproot : p = root
    · exact .inl (mem_mapKeys.mpr ⟨path, hmem.mpr (.inl ⟨hproot, rfl⟩)⟩)
    · have hpold : p ≠ oldPath := by
        rintro rfl
        exact (hcontinued (Ne.symm hproot)).2.1 hp
      rcases h.gone p hp (fun hmem => hv.2 ⟨hmem, hpold⟩) with hk | hr
      · obtain ⟨d, hd⟩ := mem_mapKeys.mp hk
        exact .inl (mem_mapKeys.mpr ⟨d, hmem.mpr (.inr ⟨hd, hproot⟩)⟩)
      · exact .inr (mem_setDelete.mpr ⟨hr, hv.1⟩)
  · intro p hv hp
    by_cases hppath : p = path
    · exact .inr ⟨root, hmem.mpr (.inl ⟨rfl, hppath⟩)⟩
    · obtain ⟨hv, hpold⟩ := (hvault.mp hv).resolve_left hppath
      rcases h.present p hv hp with hu | ⟨r, hr⟩
      · exact .inl (hupsert.mpr ⟨hu, hpold, hppath⟩)
      · exact .inr ⟨r, hother hr hpold⟩
  · intro p hp hv
    by_cases hppath : p = path
    · exact .inr (.inl ⟨root, hmem.mpr (.inl ⟨rfl, hppath⟩)⟩)
    · obtain ⟨hv, hpold⟩ := (hvault.mp hv).resolve_left hppath
      have hp' : p ∈ written := by simpa [hppath] using hp
      rcases h.written p hp' hv with hu | ⟨r, hr⟩ | hread
      · exact .inl (hupsert.mpr ⟨hu, hpold, hppath⟩)
      · exact .inr (.inl ⟨r, hother hr hpold⟩)
      · exact .inr (.inr hread)

lemma Accounted.queueRename (hold : oldPath ∈ vault) (hpath : path ∉ vault)
    (hsafe : ChainSafe index.paths pending (.rename oldPath path))
    (hrescan : (pending.queueRename oldPath path).rescanRequested = false) :
    Accounted (setAdd path (setDelete oldPath vault)) index (written ++ [path])
      (pending.queueRename oldPath path) := by
  rw [PendingChanges.queueRename] at hrescan ⊢
  split at hrescan
  · cases hrescan
  · next hkey =>
    rw [if_neg hkey]
    cases hchained : pending.chained oldPath with
    | none =>
      simp only [hchained, Option.map_none, Option.getD_none] at hrescan ⊢
      split at hrescan
      · cases hrescan
      · next hcycle =>
        rw [if_neg hcycle]
        refine h.queueRename_from hpath (fun heq => hpath (heq ▸ hold)) ?_ (absurd rfl) ?_
        · refine fun hrd => iff_of_false ?_ ?_
          · rintro rfl
            exact hkey (mem_mapKeys.mpr ⟨_, hrd⟩)
          · rintro rfl
            exact PendingChanges.chained_eq_none hchained _ hrd
        · -- the new rename comes last
          intro hmem
          obtain ⟨d, hd⟩ := mem_mapKeys.mp hmem
          obtain ⟨first, after, hsplit⟩ := append_of_mem hd
          refine ⟨first, d, after ++ [(oldPath, path)], oldPath, ?_, by simp⟩
          rw [mapSet, if_neg hkey, hsplit, append_assoc, cons_append]
    | some entry =>
      obtain ⟨root, dest⟩ := entry
      have hsafe := hsafe hkey (root, dest) hchained
      obtain ⟨hentry, rfl⟩ := PendingChanges.chained_eq_some hchained
      simp only [hchained, Option.map_some, Option.getD_some] at hrescan ⊢
      split at hrescan
      · cases hrescan
      · next hcycle =>
        obtain ⟨hindex, hupserts, hafter⟩ := hsafe (by simpa using hcycle)
        rw [if_neg hcycle]
        have hne : path ≠ root := by
          rintro rfl
          exact hcycle (hasRenameCycle_of_self (nodup_keys_mapSet h.keys_nodup)
            (mem_mapSet.mpr (.inl rfl)))
        refine h.queueRename_from hpath hne (fun hrd => ⟨?_, ?_⟩)
          (fun _ => ⟨mem_mapKeys.mpr ⟨_, hentry⟩, hindex, hupserts⟩)
          (fun hback => laterValue_mapSet_of_before h.keys_nodup hentry hback hne hafter)
        · rintro rfl
          exact value_unique h.keys_nodup hrd hentry
        · rintro rfl
          exact h.destination_unique _ _ _ hrd hentry

end

/-- Pending work that no rescan replaced is what the event made of it. -/
theorem enforcePendingBound_eq {next : PendingChanges}
    (h : (next.enforcePendingBound maxPendingPaths).rescanRequested = false) :
    next.enforcePendingBound maxPendingPaths = next := by
  unfold PendingChanges.enforcePendingBound at h ⊢
  split at h
  · next hbound => rw [if_pos hbound]
  · cases h

lemma rescanRequested_enforcePendingBound {next : PendingChanges}
    (h : next.rescanRequested = true) :
    (next.enforcePendingBound maxPendingPaths).rescanRequested = true := by
  unfold PendingChanges.enforcePendingBound
  split
  · exact h
  · rfl

lemma Accounted.handleEvent (h : Accounted vault index written pending) {event : VaultSourceEvent}
    (hvalid : event.Valid vault) (hsafe : ChainSafe index.paths pending event)
    (hrescan : (pending.handleEvent maxPendingPaths event).rescanRequested = false) :
    Accounted (event.applyTo vault) index (written ++ event.written)
      (pending.handleEvent maxPendingPaths event) := by
  have heq := enforcePendingBound_eq hrescan
  cases event with
  | upsert path =>
    rw [PendingChanges.handleEvent, heq]
    exact h.queueUpsert path
  | remove path =>
    rw [PendingChanges.handleEvent, heq] at hrescan ⊢
    rw [VaultSourceEvent.written, append_nil]
    exact h.queueRemoval hvalid hrescan
  | rename oldPath path =>
    rw [PendingChanges.handleEvent, heq] at hrescan ⊢
    exact h.queueRename hvalid.1 hvalid.2 hsafe hrescan
  | rescan => exact hvalid.elim

end Steps

/-! ## §3 Histories -/

/-- A history of a vault, from its first event on. -/
def ValidHistory : List JsString → List VaultSourceEvent → Prop
  | _, [] => True
  | vault, event :: rest => event.Valid vault ∧ ValidHistory (event.applyTo vault) rest

/-- Every rename that continues a pending one is safe where it arrives. -/
def SafeHistory (maxPendingPaths : ℕ) (index : List JsString) :
    PendingChanges → List VaultSourceEvent → Prop
  | _, [] => True
  | pending, event :: rest => ChainSafe index pending event ∧
      SafeHistory maxPendingPaths index (pending.handleEvent maxPendingPaths event) rest

def handleEvents (maxPendingPaths : ℕ) (pending : PendingChanges)
    (events : List VaultSourceEvent) : PendingChanges :=
  events.foldl (PendingChanges.handleEvent maxPendingPaths) pending

def vaultAfter (vault : List JsString) (events : List VaultSourceEvent) : List JsString :=
  events.foldl (fun vault event => event.applyTo vault) vault

lemma rescanRequested_handleEvent {pending : PendingChanges} {event : VaultSourceEvent}
    (h : pending.rescanRequested = true) :
    (pending.handleEvent maxPendingPaths event).rescanRequested = true := by
  refine rescanRequested_enforcePendingBound ?_
  cases event with
  | upsert path =>
    simp only [PendingChanges.queueUpsert]
    split <;> exact h
  | remove path =>
    simp only [PendingChanges.queueRemoval]
    split
    · split
      · rfl
      · exact h
    · exact h
  | rename oldPath path =>
    simp only [PendingChanges.queueRename]
    split
    · rfl
    · split
      · rfl
      · exact h
  | rescan => rfl

lemma rescanRequested_handleEvents {pending : PendingChanges} {events : List VaultSourceEvent}
    (h : (handleEvents maxPendingPaths pending events).rescanRequested = false) :
    pending.rescanRequested = false := by
  induction events generalizing pending with
  | nil => exact h
  | cons event rest ih =>
    have hnext := ih h
    by_contra hrequested
    rw [rescanRequested_handleEvent (by simpa using hrequested)] at hnext
    cases hnext

lemma Accounted.handleEvents {vault written : List JsString} {index : IndexedPaths}
    {pending : PendingChanges} {events : List VaultSourceEvent}
    (h : Accounted vault index written pending) (hvalid : ValidHistory vault events)
    (hsafe : SafeHistory maxPendingPaths index.paths pending events)
    (hrescan : (Plugin.handleEvents maxPendingPaths pending events).rescanRequested = false) :
    Accounted (vaultAfter vault events) index
      (written ++ events.flatMap VaultSourceEvent.written)
      (Plugin.handleEvents maxPendingPaths pending events) := by
  induction events generalizing vault written pending with
  | nil => rwa [flatMap_nil, append_nil]
  | cons event rest ih =>
    have hstep := h.handleEvent hvalid.1 hsafe.1 (rescanRequested_handleEvents hrescan)
    have hrest := ih hstep hvalid.2 hsafe.2 hrescan
    rwa [append_assoc] at hrest

/-! ## §4 Draining -/

section

variable {vault written : List JsString} {index : IndexedPaths} {pending : PendingChanges}

section

variable (h : Accounted vault index written pending)

include h

/-- A turn takes the first rename. -/
theorem Accounted.takeRename {rest : List (JsString × JsString)}
    (hrenames : pending.renames = (oldPath, path) :: rest) :
    Accounted vault (applyPendingChanges vault index ⟨[path], [oldPath]⟩) written
      { pending with renames := mapDelete oldPath pending.renames } := by
  have hhead : (oldPath, path) ∈ pending.renames := by simp [hrenames]
  have hpath : path ∈ vault := (h.destination oldPath path hhead).1
  have hkeys := h.keys_nodup
  rw [hrenames] at hkeys
  have hdelete : mapDelete oldPath pending.renames = rest := by rw [hrenames, mapDelete_cons hkeys]
  have hrest : ∀ {r d}, (r, d) ∈ rest → (r, d) ∈ pending.renames := fun hrd => by
    rw [hrenames]
    exact mem_cons_of_mem _ hrd
  have hmem : ∀ {r d}, (r, d) ∈ pending.renames → r ≠ oldPath → (r, d) ∈ rest := by
    intro r d hrd hne
    rw [← hdelete]
    exact mem_mapDelete.mpr ⟨hrd, hne⟩
  have hindex : ∀ {p}, p ∈ (applyPendingChanges vault index ⟨[path], [oldPath]⟩).paths ↔
      p = path ∨ p ∈ index.paths ∧ p ≠ oldPath := by
    intro p
    by_cases hself : oldPath = path <;> simp [applyPendingChanges, hpath, hself]
    tauto
  have hreads : (applyPendingChanges vault index ⟨[path], [oldPath]⟩).reads =
      index.reads ++ [path] := by
    simp [applyPendingChanges, hpath]
  rw [hdelete]
  refine ⟨(nodup_cons.mp hkeys).2, ?_, ?_, h.upsert, h.removal, ?_, ?_, ?_, ?_⟩
  · exact fun r r' d hr hr' => h.destination_unique r r' d (hrest hr) (hrest hr')
  · exact fun r d hrd => h.destination r d (hrest hrd)
  · intro p hp hv
    obtain ⟨d, hd⟩ := mem_mapKeys.mp hp
    have hpold : p ≠ oldPath := by
      rintro rfl
      exact (nodup_cons.mp hkeys).1 (mem_mapKeys.mpr ⟨d, hd⟩)
    refine (h.root p (mem_mapKeys.mpr ⟨d, hrest hd⟩) hv).imp_right fun hlater => ?_
    obtain ⟨before, own, after, other, hsplit, hother⟩ := hlater
    rw [hrenames] at hsplit
    cases before with
    | nil => exact absurd (Prod.mk.inj (cons.inj hsplit).1).1.symm hpold
    | cons first before => exact ⟨before, own, after, other, (cons.inj hsplit).2, hother⟩
  · intro p hp hv
    rcases hindex.mp hp with rfl | ⟨hp, hpold⟩
    · exact absurd hpath hv
    · refine (h.gone p hp hv).imp_left fun hk => ?_
      obtain ⟨d, hd⟩ := mem_mapKeys.mp hk
      exact mem_mapKeys.mpr ⟨d, hmem hd hpold⟩
  · intro p hv hp
    rw [hindex, not_or] at hp
    obtain ⟨hppath, hp⟩ := hp
    by_cases hpold : p = oldPath
    · -- the removed root is read again, or a later rename ends there
      rcases h.root p (mem_mapKeys.mpr ⟨path, hpold ▸ hhead⟩) hv with hu | hlater
      · exact .inl hu
      · obtain ⟨other, hother⟩ := hlater.mem
        refine .inr ⟨other, hmem hother ?_⟩
        rintro rfl
        exact hppath (value_unique h.keys_nodup hother hhead)
    · rcases h.present p hv (fun hi => hp ⟨hi, hpold⟩) with hu | ⟨r, hr⟩
      · exact .inl hu
      · refine .inr ⟨r, hmem hr ?_⟩
        rintro rfl
        exact hppath (value_unique h.keys_nodup hr hhead)
  · intro p hp hv
    rw [hreads, mem_append, mem_singleton]
    rcases h.written p hp hv with hu | ⟨r, hr⟩ | hread
    · exact .inl hu
    · by_cases hrold : r = oldPath
      · subst hrold
        exact .inr (.inr (.inr (value_unique h.keys_nodup hr hhead)))
      · exact .inr (.inl ⟨r, hmem hr hrold⟩)
    · exact .inr (.inr (.inl hread))

/-- With no rename left a turn reads or removes one path. -/
theorem Accounted.takePath (hrenames : pending.renames = [])
    (hpath : path ∈ pending.removals ++ pending.upserts) :
    Accounted vault
      (applyPendingChanges vault index
        ⟨if path ∈ pending.upserts then [path] else [],
          if path ∈ pending.removals then [path] else []⟩) written
      { pending with
        upserts := setDelete path pending.upserts
        removals := setDelete path pending.removals } := by
  have hnone : ∀ {r d}, (r, d) ∉ pending.renames := by simp [hrenames]
  have hnokey : ∀ {p}, p ∉ mapKeys pending.renames := by simp [hrenames]
  have hremoval : ∀ p ∈ setDelete path pending.removals, p ∈ vault →
      p ∈ setDelete path pending.upserts := by
    intro p hp hv
    obtain ⟨hp, hne⟩ := mem_setDelete.mp hp
    exact mem_setDelete.mpr ⟨h.removal p hp hv, hne⟩
  refine ⟨h.keys_nodup, h.destination_unique, fun _ _ hrd => absurd hrd hnone, ?_, hremoval,
    fun _ hp => absurd hp hnokey, ?_, ?_, ?_⟩
  · exact fun p hp => h.upsert p (mem_setDelete.mp hp).1
  all_goals by_cases hu : path ∈ pending.upserts
  · have hv : path ∈ vault := h.upsert path hu
    intro p hp hpv
    have hne : p ≠ path := fun heq => hpv (heq ▸ hv)
    have hp : p ∈ index.paths := by
      by_cases hr : path ∈ pending.removals <;>
        simpa [applyPendingChanges, hu, hr, hv, hne] using hp
    exact (h.gone p hp hpv).imp_right fun hr => mem_setDelete.mpr ⟨hr, hne⟩
  · have hr : path ∈ pending.removals := (mem_append.mp hpath).resolve_right hu
    intro p hp hpv
    obtain ⟨hp, hne⟩ : p ∈ index.paths ∧ p ≠ path := by
      simpa [applyPendingChanges, hu, hr] using hp
    exact (h.gone p hp hpv).imp_right fun hr => mem_setDelete.mpr ⟨hr, hne⟩
  · have hv : path ∈ vault := h.upsert path hu
    intro p hpv hp
    obtain ⟨hne, hp⟩ : p ≠ path ∧ p ∉ index.paths := by
      by_cases hr : path ∈ pending.removals <;>
        simpa [applyPendingChanges, hu, hr, hv] using hp
    exact (h.present p hpv hp).imp_left fun hu => mem_setDelete.mpr ⟨hu, hne⟩
  · have hr : path ∈ pending.removals := (mem_append.mp hpath).resolve_right hu
    have hv : path ∉ vault := fun hv => hu (h.removal path hr hv)
    intro p hpv hp
    have hne : p ≠ path := fun heq => hv (heq ▸ hpv)
    have hp : p ∉ index.paths := by
      simpa [applyPendingChanges, hu, hr, hne] using hp
    exact (h.present p hpv hp).imp_left fun hu => mem_setDelete.mpr ⟨hu, hne⟩
  · have hv : path ∈ vault := h.upsert path hu
    have hreads : (applyPendingChanges vault index ⟨if path ∈ pending.upserts then [path] else [],
          if path ∈ pending.removals then [path] else []⟩).reads = index.reads ++ [path] := by
      simp [applyPendingChanges, hu, hv]
    intro p hp hpv
    rw [hreads, mem_append, mem_singleton]
    by_cases hne : p = path
    · exact .inr (.inr (.inr hne))
    · rcases h.written p hp hpv with hu | hr | hread
      · exact .inl (mem_setDelete.mpr ⟨hu, hne⟩)
      · exact .inr (.inl hr)
      · exact .inr (.inr (.inl hread))
  · have hreads : (applyPendingChanges vault index ⟨if path ∈ pending.upserts then [path] else [],
          if path ∈ pending.removals then [path] else []⟩).reads = index.reads := by
      simp [applyPendingChanges, hu]
    intro p hp hpv
    rw [hreads]
    refine (h.written p hp hpv).imp_left fun hup => mem_setDelete.mpr ⟨hup, ?_⟩
    rintro rfl
    exact hu hup

lemma Accounted.takePendingChanges (hpending : pending.hasPendingChanges = true) :
    Accounted vault (applyPendingChanges vault index pending.takePendingChanges.1) written
        pending.takePendingChanges.2 ∧
      pending.takePendingChanges.2.size < pending.size := by
  rw [PendingChanges.takePendingChanges]
  split
  · next oldPath path rest hrenames =>
    refine ⟨h.takeRename hrenames, ?_⟩
    have hlength : (mapDelete oldPath pending.renames).length < pending.renames.length :=
      length_filter_lt_length_iff_exists.mpr ⟨(oldPath, path), by simp [hrenames], by simp⟩
    simp only [PendingChanges.size]
    omega
  · next hrenames =>
    split
    · next hsorted =>
      exfalso
      have hperm := sortBy_perm compare (pending.removals ++ pending.upserts)
      rw [hsorted, nil_perm, append_eq_nil_iff] at hperm
      simp [PendingChanges.hasPendingChanges, hrenames, hperm.1, hperm.2] at hpending
    · next path rest hsorted =>
      have hpath : path ∈ pending.removals ++ pending.upserts := by
        refine (sortBy_perm compare _).mem_iff.mp ?_
        rw [hsorted]
        exact mem_cons_self
      refine ⟨h.takePath hrenames hpath, ?_⟩
      have hupserts := length_setDelete_le path pending.upserts
      have hremovals := length_setDelete_le path pending.removals
      simp only [PendingChanges.size]
      rcases mem_append.mp hpath with hr | hu
      · have := length_setDelete_lt hr
        omega
      · have := length_setDelete_lt hu
        omega

lemma Accounted.drain {turns : ℕ} (hturns : pending.size ≤ turns) :
    let state := Plugin.drain vault turns (pending, index)
    Accounted vault state.2 written state.1 ∧ state.1.hasPendingChanges = false := by
  induction turns generalizing pending index with
  | zero =>
    refine ⟨h, ?_⟩
    have hempty : pending.upserts = [] ∧ pending.removals = [] ∧ pending.renames = [] := by
      simpa [PendingChanges.size, and_assoc] using hturns
    simp [Plugin.drain, PendingChanges.hasPendingChanges, hempty]
  | succ turns ih =>
    unfold Plugin.drain
    by_cases hpending : pending.hasPendingChanges = true
    · rw [if_pos hpending]
      obtain ⟨hnext, hsize⟩ := h.takePendingChanges hpending
      exact ih hnext (Nat.le_of_lt_succ (hsize.trans_le hturns))
    · rw [if_neg hpending]
      exact ⟨h, by simpa using hpending⟩

end

end

/-! ## §5 No change is lost -/

/-- What a history asks for: without a rescan, draining leaves nothing pending, the vault's paths
indexed, and read whatever is left of what the history wrote. -/
def Synchronises (maxPendingPaths : ℕ) (vault index : List JsString)
    (events : List VaultSourceEvent) : Prop :=
  let pending := handleEvents maxPendingPaths PendingChanges.empty events
  let final := vaultAfter vault events
  pending.rescanRequested = false →
    let (left, indexed) := drainAll final pending ⟨index, []⟩
    left.hasPendingChanges = false ∧ (∀ path, path ∈ indexed.paths ↔ path ∈ final) ∧
      ∀ path ∈ events.flatMap VaultSourceEvent.written, path ∈ final → path ∈ indexed.reads

lemma Accounted.empty {vault index : List JsString} (h : ∀ path, path ∈ index ↔ path ∈ vault) :
    Accounted vault ⟨index, []⟩ [] PendingChanges.empty where
  keys_nodup := nodup_nil
  destination_unique := by simp [PendingChanges.empty]
  destination := by simp [PendingChanges.empty]
  upsert := by simp [PendingChanges.empty]
  removal := by simp [PendingChanges.empty]
  root := by simp [PendingChanges.empty]
  gone path hp hv := absurd ((h path).mp hp) hv
  present path hv hp := absurd ((h path).mpr hv) hp
  written := by simp

/-- A removal pending on a path that a rename then takes is dropped, and continuing that rename
leaves the path indexed. -/
theorem coalescing_forgets_removal :
    let vault : List JsString := [[97], [98]]
    let events : List VaultSourceEvent := [.remove [98], .rename [97] [98], .rename [98] [99]]
    ValidHistory vault events ∧ ¬ Synchronises 2048 vault vault events := by
  refine ⟨by simp [ValidHistory, VaultSourceEvent.Valid, VaultSourceEvent.applyTo, setDelete,
    setAdd], fun h => ?_⟩
  have hpaths := (h (by decide +kernel)).2.1 [98]
  revert hpaths
  decide +kernel

/-- Every history whose chained renames are safe is synchronised. -/
theorem coalescing_synchronises (maxPendingPaths : ℕ) (vault index : List JsString)
    (events : List VaultSourceEvent) (hindex : ∀ path, path ∈ index ↔ path ∈ vault)
    (hvalid : ValidHistory vault events)
    (hsafe : SafeHistory maxPendingPaths index PendingChanges.empty events) :
    Synchronises maxPendingPaths vault index events := by
  intro hrescan
  have hpending := (Accounted.empty hindex).handleEvents hvalid hsafe hrescan
  obtain ⟨hdrained, hempty⟩ := hpending.drain le_rfl
  have hnone := hempty
  rw [PendingChanges.hasPendingChanges] at hnone
  simp only [Bool.or_eq_false_iff, Bool.not_eq_false', List.isEmpty_iff] at hnone
  obtain ⟨⟨hupserts, hremovals⟩, hrenames⟩ := hnone
  refine ⟨hempty, fun path => ⟨fun hp => ?_, fun hv => ?_⟩, fun path hp hv => ?_⟩
  · by_contra hv
    simpa [hrenames, hremovals] using hdrained.gone path hp hv
  · by_contra hp
    simpa [hrenames, hupserts] using hdrained.present path hv hp
  · simpa [hrenames, hupserts] using hdrained.written path (by simpa using hp) hv

theorem coalescing_synchronises_chain :
    Synchronises 2048 [[98]] [[98]] [.rename [98] [99], .rename [99] [100]] :=
  coalescing_synchronises 2048 [[98]] [[98]] _ (fun _ => Iff.rfl)
    (by simp [ValidHistory, VaultSourceEvent.Valid, VaultSourceEvent.applyTo, setDelete, setAdd])
    ⟨by decide +kernel, by decide +kernel, trivial⟩

end Kwiry.Plugin
