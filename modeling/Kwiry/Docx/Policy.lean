import Kwiry.Docx.Selection

/-!
# The Relationship Policy of a DOCX Package

Which parts of a package have their relationships processed. A part enters the queue when a
relationship of another part selects it first. The parts that the package root selects are opened
as well, and are not new when a part selects them afterwards: their relationships are never read.
-/

namespace Kwiry.Docx

open Foundations List

variable {R : XmlReader} {inventory : ArchiveInventory} {state state' : LoadState R}
variable {sources : List Text}

/-! ## §5 What is queued -/

/-- The parts taken from the queue so far, the parts that wait in it, and the parts the package root
selected are three kinds of visited parts. The latter never enter the queue. -/
structure LoadState.Queued (rootParts : List (Text × PackagePartKind)) (popped : List Text)
    (state : LoadState R) : Prop where
  nodup : (popped ++ state.pending).Nodup
  found : ∀ partUri ∈ popped ++ state.pending, partUri ∈ state.visitedParts.map Prod.fst
  kept : ∀ visited ∈ state.visitedParts, visited.2.wordprocessing.isSome = true →
    visited.1 ∈ popped ++ state.pending ∨ visited ∈ rootParts
  rooted : ∀ visited ∈ rootParts,
    visited ∈ state.visitedParts ∧ visited.1 ∉ popped ++ state.pending

variable {rootParts : List (Text × PackagePartKind)} {popped : List Text}

variable {partUri target : Text}

namespace LoadState.Queued

section

variable (h : state.Queued rootParts popped)

include h

lemma congr (hpending : state'.pending = state.pending)
    (hvisited : state'.visitedParts = state.visitedParts) : state'.Queued rootParts popped where
  nodup := hpending ▸ h.nodup
  found := by
    rw [hpending, hvisited]
    exact h.found
  kept := by
    rw [hpending, hvisited]
    exact h.kept
  rooted := by
    rw [hpending, hvisited]
    exact h.rooted

/-- A part that is not one of the document's own is kept beside the queue. -/
theorem keepPart {kind : PackagePartKind} {bytes : Bytes} {selected : ℕ} {budget : R.Budget}
    (hkind : kind.wordprocessing = none) :
    (state.keepPart partUri kind bytes selected budget).Queued rootParts popped where
  nodup := h.nodup
  found := by
    intro uri huri
    show uri ∈ (state.visitedParts ++ [(partUri, kind)]).map Prod.fst
    rw [map_append]
    exact mem_append_left _ (h.found uri huri)
  kept := by
    intro visited hvisited hword
    rcases mem_append.mp hvisited with hold | hnew
    · exact h.kept visited hold hword
    · rw [mem_singleton.mp hnew, hkind] at hword
      cases hword
  rooted := by
    intro visited hvisited
    obtain ⟨hkept, hout⟩ := h.rooted visited hvisited
    exact ⟨mem_append_left _ hkept, hout⟩

/-- A part that is visited for the first time goes to the end of the queue. -/
theorem enqueue {kind : PackagePartKind} (hnew : partUri ∉ state.visitedParts.map Prod.fst)
    (hpending : state'.pending = state.pending ++ [partUri])
    (hvisited : state'.visitedParts = state.visitedParts ++ [(partUri, kind)]) :
    state'.Queued rootParts popped := by
  have hqueue : popped ++ state'.pending = popped ++ state.pending ++ [partUri] := by
    rw [hpending, append_assoc]
  have hmap : state'.visitedParts.map Prod.fst = state.visitedParts.map Prod.fst ++ [partUri] := by
    rw [hvisited, map_append]
    rfl
  exact
    { nodup := by
        rw [hqueue, nodup_append]
        refine ⟨h.nodup, nodup_singleton _, ?_⟩
        intro uri huri uri' huri' heq
        rw [heq, mem_singleton.mp huri'] at huri
        exact hnew (h.found partUri huri)
      found := by
        rw [hqueue, hmap]
        intro uri huri
        rcases mem_append.mp huri with hold | hlast
        · exact mem_append_left _ (h.found uri hold)
        · exact mem_append_right _ hlast
      kept := by
        rw [hqueue, hvisited]
        intro visited hmem hword
        rcases mem_append.mp hmem with hold | hlast
        · exact (h.kept visited hold hword).imp_left (mem_append_left _)
        · rw [mem_singleton.mp hlast]
          exact .inl (mem_append_right _ (mem_singleton.mpr rfl))
      rooted := by
        rw [hqueue, hvisited]
        intro visited hmem
        obtain ⟨hkept, hout⟩ := h.rooted visited hmem
        refine ⟨mem_append_left _ hkept, ?_⟩
        intro hmem
        rcases mem_append.mp hmem with hold | hlast
        · exact hout hold
        · exact hnew (mem_singleton.mp hlast ▸ mem_map_of_mem hkept) }

lemma pop {sourcePart : Text} {rest : List Text} (hpending : state.pending = sourcePart :: rest) :
    ({ state with pending := rest } : LoadState R).Queued rootParts (popped ++ [sourcePart]) := by
  have hqueue : popped ++ [sourcePart] ++ rest = popped ++ state.pending := by
    rw [hpending, append_assoc]
    rfl
  exact
    { nodup := by
        show (popped ++ [sourcePart] ++ rest).Nodup
        rw [hqueue]
        exact h.nodup
      found := by
        show ∀ partUri ∈ popped ++ [sourcePart] ++ rest, _
        rw [hqueue]
        exact h.found
      kept := by
        show ∀ visited ∈ state.visitedParts, _ → visited.1 ∈ popped ++ [sourcePart] ++ rest ∨ _
        rw [hqueue]
        exact h.kept
      rooted := by
        show ∀ visited ∈ rootParts, _ ∧ visited.1 ∉ popped ++ [sourcePart] ++ rest
        rw [hqueue]
        exact h.rooted }

end

end LoadState.Queued

lemma not_mem_of_lookup_eq_none {visitedParts : List (Text × PackagePartKind)}
    (h : visitedParts.lookup partUri = none) : partUri ∉ visitedParts.map Prod.fst := by
  intro hmem
  obtain ⟨visited, hvisited, rfl⟩ := mem_map.mp hmem
  have hne := lookup_eq_none_iff.mp h visited hvisited
  simp at hne

variable {relationship : Relationship} {keys : Text × Text → Prop} {kind : PackagePartKind}

lemma RelationshipStep.keepsQueue {sourcePart : Text}
    (h : RelationshipStep inventory sourcePart relationship state state')
    (hqueued : state.Queued rootParts popped) : state'.Queued rootParts popped := by
  cases h with
  | ignored => exact hqueued
  | linked =>
    obtain ⟨links, hlinks, -⟩ := state.addLink_eq _
    rw [hlinks]
    exact hqueued.congr rfl rfl
  | passedOver => exact hqueued.congr rfl rfl
  | @selected kind _ _ _ _ hselects hold =>
    cases hselects with
    | unavailable | known => exact hqueued.congr rfl rfl
    | @opened target _ _ _ =>
      have hrecorded :
          (state.recordTarget sourcePart relationship.id kind target).Queued rootParts popped :=
        hqueued.congr rfl rfl
      exact hrecorded.keepPart (hold rfl)
  | @queued kind _ _ _ hselects =>
    cases hselects with
    | @opened target _ _ _ _ _ hvisited =>
      -- the target just recorded is the one that is queued
      apply hqueued.enqueue (not_mem_of_lookup_eq_none hvisited)
      · simp [LoadState.enqueueTarget, LoadState.keepPart, LoadState.recordTarget]
      · simp [LoadState.enqueueTarget, LoadState.keepPart, LoadState.recordTarget]
        rfl

/-! ## §6 What is covered -/

/-- The policy holds of the relationships of a part, with these links and these targets. -/
structure Covered (inventory : ArchiveInventory) (links : List Text)
    (targets : List ((Text × Text) × PackagePartKind × Text)) (sourcePart : Text)
    (relationships : List Relationship) : Prop where
  permitted : ∀ relationship ∈ relationships, relationship.forbidden = false
  linked : ∀ relationship ∈ relationships, relationship.external = true →
    relationshipSuffix relationship.relationshipType = some "hyperlink".toList →
    ∀ target, inertExternalTarget relationship.target = some target → target ∈ links
  recorded : ∀ relationship ∈ relationships, relationship.external = false →
    ∀ kind, packageRelationshipKind relationship.relationshipType = some kind →
    ∀ target, resolveRelationshipTarget sourcePart relationship.target = .ok target →
    inventory.contains target = true →
    targets.lookup (sourcePart, relationship.id) = some (kind, target)

/-- Links are only added, and targets recorded under these keys. -/
structure LoadState.Extends (keys : Text × Text → Prop) (state state' : LoadState R) : Prop where
  links : ∀ link ∈ state.linksOut, link ∈ state'.linksOut
  targets : ∀ key, ¬ keys key →
    state'.relationshipTargets.lookup key = state.relationshipTargets.lookup key
  processed : state'.processed = state.processed

lemma LoadState.Extends.refl (state : LoadState R) : state.Extends keys state :=
  ⟨fun _ h => h, fun _ _ => rfl, rfl⟩

lemma LoadState.Extends.trans {state'' : LoadState R} (h : state.Extends keys state')
    (h' : state'.Extends keys state'') :
    state.Extends keys state'' where
  links := fun link hlink => h'.links link (h.links link hlink)
  targets := fun key hkey => (h'.targets key hkey).trans (h.targets key hkey)
  processed := h'.processed.trans h.processed

lemma LoadState.Extends.mono {keys' : Text × Text → Prop} (h : state.Extends keys state')
    (hkeys : ∀ key, keys key → keys' key) : state.Extends keys' state' :=
  { h with targets := fun key hkey => h.targets key fun hold => hkey (hkeys key hold) }

lemma Covered.extend {sourcePart : Text} {relationships : List Relationship}
    (h : Covered inventory state.linksOut state.relationshipTargets sourcePart relationships)
    (hextends : state.Extends keys state')
    (hkeys : ∀ relationship ∈ relationships, ¬ keys (sourcePart, relationship.id)) :
    Covered inventory state'.linksOut state'.relationshipTargets sourcePart relationships where
  permitted := h.permitted
  linked := fun relationship hmem hexternal hsuffix target htarget =>
    hextends.links target (h.linked relationship hmem hexternal hsuffix target htarget)
  recorded := by
    intro relationship hmem hinternal kind hkind target htarget hcontains
    rw [hextends.targets _ (hkeys relationship hmem)]
    exact h.recorded relationship hmem hinternal kind hkind target htarget hcontains

section

variable {sourcePart : Text} {wasNew : Bool}
  (h : Selects inventory sourcePart relationship kind state wasNew state')

include h

lemma Selects.extends : state.Extends (· = (sourcePart, relationship.id)) state' := by
  have hrecorded : ∀ target key, key ≠ (sourcePart, relationship.id) →
      (state.recordTarget sourcePart relationship.id kind target).relationshipTargets.lookup key =
        state.relationshipTargets.lookup key := by
    intro target key hkey
    rw [LoadState.recordTarget, lookup_cons, beq_false_of_ne hkey]
  cases h with
  | unavailable => exact ⟨fun _ h => h, fun _ _ => rfl, rfl⟩
  | @known target | @opened target => exact ⟨fun _ h => h, hrecorded target, rfl⟩

/-- A target that is there was recorded. -/
theorem Selects.recorded
    (htarget : resolveRelationshipTarget sourcePart relationship.target = .ok target)
    (hcontains : inventory.contains target = true) :
    state'.relationshipTargets.lookup (sourcePart, relationship.id) = some (kind, target) := by
  cases h with
  | unavailable htarget' hcontains' =>
    rw [htarget] at htarget'
    cases htarget'
    rw [hcontains] at hcontains'
    cases hcontains'
  | known htarget' | opened htarget' =>
    rw [htarget] at htarget'
    cases htarget'
    exact lookup_cons_self

end

lemma RelationshipStep.extends {sourcePart : Text}
    (h : RelationshipStep inventory sourcePart relationship state state') :
    state.Extends (· = (sourcePart, relationship.id)) state' := by
  cases h with
  | ignored => exact .refl state
  | linked =>
    obtain ⟨links, hlinks, hmono, -⟩ := state.addLink_eq _
    rw [hlinks]
    exact ⟨hmono, fun _ _ => rfl, rfl⟩
  | passedOver => exact ⟨fun _ h => h, fun _ _ => rfl, rfl⟩
  | selected _ _ hselects => exact hselects.extends
  | queued _ _ hselects =>
    obtain ⟨pending, hpending⟩ := LoadState.enqueueTarget_eq _ sourcePart relationship.id
    rw [hpending]
    have hextends := hselects.extends
    exact ⟨hextends.links, hextends.targets, hextends.processed⟩

/-- One relationship is covered by its own step. -/
theorem RelationshipStep.covered {sourcePart : Text}
    (h : RelationshipStep inventory sourcePart relationship state state')
    (hpermitted : relationship.forbidden = false) :
    Covered inventory state'.linksOut state'.relationshipTargets sourcePart [relationship] where
  permitted := by simpa using hpermitted
  linked := by
    intro relationship' hmem hexternal hsuffix target htarget
    rw [mem_singleton.mp hmem] at hexternal hsuffix htarget
    cases h with
    | ignored hinternal => simp [hinternal] at hexternal
    | @linked target' _ htarget' =>
      obtain ⟨links, hlinks, -, hadded⟩ := state.addLink_eq target'
      rw [htarget] at htarget'
      cases htarget'
      rw [hlinks]
      exact hadded
    | passedOver _ hother =>
      rw [hother hsuffix] at htarget
      cases htarget
    | selected hinternal | queued hinternal => simp [hinternal] at hexternal
  recorded := by
    intro relationship' hmem hinternal kind hkind target htarget hcontains
    rw [mem_singleton.mp hmem] at hinternal hkind htarget ⊢
    cases h with
    | ignored _ hnone =>
      rw [hkind] at hnone
      cases hnone
    | linked hexternal | passedOver hexternal => simp [hexternal] at hinternal
    | selected _ hkind' hselects =>
      rw [hkind] at hkind'
      cases hkind'
      exact hselects.recorded htarget hcontains
    | queued _ hkind' hselects =>
      rw [hkind] at hkind'
      cases hkind'
      obtain ⟨pending, hpending⟩ := LoadState.enqueueTarget_eq _ sourcePart relationship.id
      rw [hpending]
      exact hselects.recorded htarget hcontains

variable {types : ContentTypes} {sourcePart : Text} {relationships : List Relationship}

/-- All relationships of a part are covered, and nothing but their targets is recorded. -/
theorem covered_of_foldlM (hids : (relationships.map Relationship.id).Nodup)
    (h : relationships.foldlM (processRelationship inventory types sourcePart) state = .ok state') :
    Covered inventory state'.linksOut state'.relationshipTargets sourcePart relationships ∧
      state.Extends (fun key => key.1 = sourcePart ∧ key.2 ∈ relationships.map Relationship.id)
        state' := by
  induction relationships generalizing state with
  | nil =>
    cases h
    exact ⟨⟨by simp, by simp, by simp⟩, .refl _⟩
  | cons relationship rest ih =>
    obtain ⟨next, hfirst, hrest⟩ := foldlM_cons_ok _ h
    obtain ⟨hpermitted, hstep⟩ := processRelationship_ok hfirst
    rw [map_cons, nodup_cons] at hids
    obtain ⟨hcovered, hextends⟩ := ih hids.2 hrest
    -- the first one is covered at once, and no later one has its id
    have hone := (hstep.covered hpermitted).extend hextends (by
      intro relationship' hmem
      rw [mem_singleton.mp hmem]
      exact fun hkey => hids.1 hkey.2)
    refine ⟨⟨?_, ?_, ?_⟩, ?_⟩
    · exact forall_mem_cons.mpr ⟨hpermitted, hcovered.permitted⟩
    · exact forall_mem_cons.mpr ⟨hone.linked relationship mem_cons_self, hcovered.linked⟩
    · exact forall_mem_cons.mpr ⟨hone.recorded relationship mem_cons_self, hcovered.recorded⟩
    · apply (hstep.extends.mono _).trans (hextends.mono _)
      · intro key hkey
        rw [hkey]
        exact ⟨rfl, mem_cons_self⟩
      · intro key hkey
        exact ⟨hkey.1, mem_cons_of_mem _ hkey.2⟩

/-- What the relationships of a part do to the queue and to what was opened. -/
theorem queued_of_foldlM
    (h : relationships.foldlM (processRelationship inventory types sourcePart) state = .ok state')
    (hsound : state.Sound inventory sources) (hqueued : state.Queued rootParts popped) :
    state'.Sound inventory sources ∧ state'.Queued rootParts popped := by
  refine foldlM_induction _ (fun state => state.Sound inventory sources ∧
    state.Queued rootParts popped) ?_ ⟨hsound, hqueued⟩ h
  intro before next relationship _ hbefore hnext
  have hstep := (processRelationship_ok hnext).2
  exact ⟨hstep.sound hbefore.1, hstep.keepsQueue hbefore.2⟩

/-! ## §7 The queue -/

/-- What a relationship part says. -/
def ReadFrom (R : XmlReader) (inventory : ArchiveInventory) (partUri : Text)
    (relationships : List Relationship) : Prop :=
  ∃ bytes budget budget' total total', inventory.Holds partUri bytes ∧
    parseRelationships R bytes budget total = .ok (relationships, budget', total')

/-- The parts taken from the queue are covered. -/
structure LoadState.Done (inventory : ArchiveInventory) (popped : List Text)
    (state : LoadState R) : Prop where
  covered : ∀ partUri ∈ popped, ∀ uri, relationshipsPartUri partUri = .ok uri →
    inventory.contains uri = true → ∃ relationships, (partUri, relationships) ∈ state.processed ∧
      ReadFrom R inventory uri relationships ∧
      Covered inventory state.linksOut state.relationshipTargets partUri relationships
  only : ∀ entry ∈ state.processed, entry.1 ∈ popped

/-- What holds between two parts of the queue. -/
structure LoadState.Progress (inventory : ArchiveInventory)
    (rootParts : List (Text × PackagePartKind)) (popped : List Text) (state : LoadState R) :
    Prop where
  sound : state.Sound inventory (['/'] :: popped)
  queued : state.Queued rootParts popped
  done : state.Done inventory popped

/-- Relationships of another part leave a covered part covered. -/
theorem LoadState.Done.extend (h : state.Done inventory popped)
    (hextends : state.Extends keys state') (hkeys : ∀ key, keys key → key.1 ∉ popped) :
    state'.Done inventory popped where
  covered := by
    intro partUri hmem uri huri hcontains
    obtain ⟨relationships, hprocessed, hread, hcovered⟩ := h.covered partUri hmem uri huri hcontains
    refine ⟨relationships, hextends.processed ▸ hprocessed, hread, ?_⟩
    exact hcovered.extend hextends fun _ _ hkey => hkeys _ hkey hmem
  only := hextends.processed ▸ h.only

section

variable (h : state.Progress inventory rootParts popped)

include h

lemma processPart_progress {rest : List Text} (hpending : state.pending = sourcePart :: rest)
    (hpart : processPart inventory types sourcePart { state with pending := rest } = .ok state') :
    state'.Progress inventory rootParts (popped ++ [sourcePart]) := by
  have hsources : ['/'] :: popped ⊆ ['/'] :: (popped ++ [sourcePart]) :=
    cons_subset_cons _ (subset_append_left _ _)
  have hpopped := h.queued.pop hpending
  -- a part leaves the queue once, and is not the package root
  have hout : sourcePart ∉ popped := by
    intro hmem
    have hnodup := h.queued.nodup
    rw [hpending, nodup_append] at hnodup
    exact hnodup.2.2 sourcePart hmem sourcePart mem_cons_self rfl
  have hunasked : sourcePart ∉ ['/'] :: popped := by
    intro hmem
    rcases mem_cons.mp hmem with hroot | hold
    · have hfound := h.queued.found sourcePart (by simp [hpending])
      obtain ⟨visited, hvisited, hname⟩ := mem_map.mp hfound
      have havailable := h.sound.available visited hvisited
      rw [hname, hroot, contains_root] at havailable
      cases havailable
    · exact hout hold
  have hsound : ({ state with pending := rest } : LoadState R).Sound inventory (['/'] :: popped) :=
    h.sound.congr rfl rfl rfl rfl
  simp only [processPart, bind_ok_iff] at hpart
  obtain ⟨partUri, huri, hpart⟩ := hpart
  split at hpart
  next hcontains =>
    cases hpart
    refine ⟨hsound.mono hsources, hpopped, ?_, ?_⟩
    · intro part hmem uri huri' hcontains'
      rcases mem_append.mp hmem with hold | hlast
      · exact h.done.covered part hold uri huri' hcontains'
      · rw [mem_singleton.mp hlast, huri] at huri'
        cases huri'
        rw [hcontains] at hcontains'
        cases hcontains'
    · exact fun entry hentry => mem_append_left _ (h.done.only entry hentry)
  next hcontains =>
    simp only [bind_ok_iff, Prod.exists, pure, Except.pure, Except.ok.injEq] at hpart
    obtain ⟨bytes, opened, hopen, relationships, budget, total, hread, final, hfold, rfl⟩ := hpart
    obtain ⟨selected, hholds, hlimit, hopened⟩ := openXml_ok hopen
    have hroot : HasRoot R inventory partUri "Relationships" :=
      ⟨bytes, hholds, readsRoot_of_parseRelationships hread⟩
    have hasked : sourcePart :: ['/'] :: popped ⊆ ['/'] :: (popped ++ [sourcePart]) := by
      intro part hmem
      simp only [mem_cons, mem_append, not_mem_nil, or_false] at hmem ⊢
      tauto
    have hstart := (hsound.openRelationships hroot huri hunasked hlimit hopened).mono hasked
    have hstart' : ({ opened with xmlBudget := budget, relationshipsTotal := total } :
        LoadState R).Sound inventory (['/'] :: (popped ++ [sourcePart])) :=
      hstart.congr rfl rfl rfl rfl
    have hwaiting : ({ opened with xmlBudget := budget, relationshipsTotal := total } :
        LoadState R).Queued rootParts (popped ++ [sourcePart]) := by
      rw [hopened]
      exact hpopped.congr rfl rfl
    obtain ⟨hfinal, hqueue⟩ := queued_of_foldlM hfold hstart' hwaiting
    obtain ⟨hcovered, hextends⟩ := covered_of_foldlM (wellRead_of_parseRelationships hread).1 hfold
    have hbefore : ({ opened with xmlBudget := budget, relationshipsTotal := total } :
        LoadState R).Done inventory popped := by
      rw [hopened]
      exact ⟨h.done.covered, h.done.only⟩
    have hkept : final.Done inventory popped := by
      apply hbefore.extend hextends
      intro key hkey
      rw [hkey.1]
      exact hout
    refine ⟨hfinal.congr rfl rfl rfl rfl, hqueue.congr rfl rfl, ?_, ?_⟩
    · intro part hmem uri huri' hcontains'
      rcases mem_append.mp hmem with hold | hlast
      · obtain ⟨found, hprocessed, hfound⟩ := hkept.covered part hold uri huri' hcontains'
        exact ⟨found, mem_append_left _ hprocessed, hfound⟩
      · rw [mem_singleton.mp hlast] at huri' ⊢
        rw [huri] at huri'
        cases huri'
        exact ⟨relationships, mem_append_right _ (mem_singleton.mpr rfl),
          ⟨bytes, _, _, _, _, hholds, hread⟩, hcovered⟩
    · intro entry hentry
      rcases mem_append.mp hentry with hold | hlast
      · exact mem_append_left _ (hkept.only entry hold)
      · rw [mem_singleton.mp hlast]
        exact mem_append_right _ (mem_singleton.mpr rfl)

lemma LoadState.Progress.length_le :
    popped.length + state.pending.length ≤ maxSelectedXmlParts := by
  have hsubset : popped ++ state.pending ⊆ state.visitedParts.map Prod.fst := h.queued.found
  have hlength := (subperm_of_subset h.queued.nodup hsubset).length_le
  rw [length_append, length_map] at hlength
  exact hlength.trans (h.sound.counted.trans h.sound.bounded)

/-- The queue is worked off within the limit of parts. -/
theorem traverse_ends {fuel : ℕ} (hfuel : maxSelectedXmlParts < popped.length + fuel)
    (htraverse : traverse inventory types fuel state = .ok state') :
    ∃ popped', state'.Progress inventory rootParts popped' ∧ state'.pending = [] := by
  induction fuel generalizing popped state with
  | zero =>
    have hlength := h.length_le
    omega
  | succ fuel ih =>
    rw [traverse] at htraverse
    split at htraverse
    next hempty =>
      cases htraverse
      exact ⟨popped, h, hempty⟩
    next sourcePart rest hpending =>
      simp only [bind_ok_iff] at htraverse
      obtain ⟨next, hpart, hrest⟩ := htraverse
      refine ih (processPart_progress h hpending hpart) ?_ hrest
      rw [length_append, length_singleton]
      omega

end

/-- More rounds change nothing. -/
theorem traverse_extra {fuel : ℕ} (extra : ℕ) (h : state.Progress inventory rootParts popped)
    (hfuel : maxSelectedXmlParts < popped.length + fuel) :
    traverse inventory types (fuel + extra) state = traverse inventory types fuel state := by
  induction fuel generalizing popped state with
  | zero =>
    have hlength := h.length_le
    omega
  | succ fuel ih =>
    rw [Nat.add_right_comm, traverse, traverse]
    split
    next => rfl
    next sourcePart rest hpending =>
      cases hpart : processPart inventory types sourcePart { state with pending := rest } with
      | error e => rfl
      | ok next =>
        apply ih (processPart_progress h hpending hpart)
        rw [length_append, length_singleton]
        omega

/-! ## §8 The package root -/

variable {mainPart : Text}

/-- A relationship of the package root leads to a part of a kind. -/
def RootSelects (inventory : ArchiveInventory) (relationships : List Relationship) (partUri : Text)
    (kind : PackagePartKind) : Prop :=
  ∃ relationship ∈ relationships,
    packageRelationshipKind relationship.relationshipType = some kind ∧ kind ≠ .document ∧
      resolveRelationshipTarget ['/'] relationship.target = .ok partUri ∧
      inventory.contains partUri = true

/-- What one relationship of the package root does. -/
inductive RootStep (inventory : ArchiveInventory) (relationship : Relationship)
    (state : LoadState R) : LoadState R → Prop where
  | ignored (hkind : ∀ kind, packageRelationshipKind relationship.relationshipType = some kind →
      kind = .document) :
      RootStep inventory relationship state state
  | selected {kind wasNew state'}
      (hkind : packageRelationshipKind relationship.relationshipType = some kind)
      (hdocument : kind ≠ .document)
      (hselects : Selects inventory ['/'] relationship kind state wasNew state') :
      RootStep inventory relationship state state'

lemma processRootRelationship_ok
    (h : processRootRelationship inventory types state relationship = .ok state') :
    RootStep inventory relationship state state' := by
  simp only [processRootRelationship, bind_ok_iff] at h
  obtain ⟨-, -, h⟩ := h
  split at h
  next hnone =>
    cases h
    apply RootStep.ignored
    intro kind hkind
    rw [hnone] at hkind
    cases hkind
  next kind hkind =>
    split at h
    next hdocument =>
      cases h
      apply RootStep.ignored
      intro kind' hkind'
      rw [hkind] at hkind'
      cases hkind'
      exact hdocument
    next hdocument =>
      simp only [bind_ok_iff, Prod.exists, pure, Except.pure, Except.ok.injEq] at h
      obtain ⟨-, -, wasNew, next, hselect, rfl⟩ := h
      exact .selected hkind hdocument (selects_of_selectRelatedPart hselect)

/-- What the relationships of the package root leave: the document, the parts they select, and
nothing queued or processed. -/
structure LoadState.Rooted (inventory : ArchiveInventory) (mainPart : Text)
    (relationships : List Relationship) (state : LoadState R) : Prop where
  sound : state.Sound inventory [['/']]
  pending : state.pending = []
  processed : state.processed = []
  visited : ∃ rest, state.visitedParts = (mainPart, .document) :: rest ∧
    ∀ visited ∈ rest, RootSelects inventory relationships visited.1 visited.2

/-- Selecting a part leaves it visited, and keeps what was visited. -/
theorem Selects.visited {wasNew : Bool}
    (h : Selects inventory sourcePart relationship kind state wasNew state') :
    (state'.visitedParts = state.visitedParts ∨ ∃ target,
      resolveRelationshipTarget sourcePart relationship.target = .ok target ∧
        inventory.contains target = true ∧
        state'.visitedParts = state.visitedParts ++ [(target, kind)]) ∧
      ∀ target, resolveRelationshipTarget sourcePart relationship.target = .ok target →
        inventory.contains target = true → (target, kind) ∈ state'.visitedParts := by
  cases h with
  | unavailable htarget' hcontains' =>
    refine ⟨.inl rfl, fun target htarget hcontains => ?_⟩
    rw [htarget] at htarget'
    cases htarget'
    rw [hcontains] at hcontains'
    cases hcontains'
  | known htarget' _ hvisited =>
    refine ⟨.inl rfl, fun target htarget _ => ?_⟩
    rw [htarget] at htarget'
    cases htarget'
    obtain ⟨front, back, hsplit, -⟩ := lookup_eq_some_iff.mp hvisited
    show _ ∈ state.visitedParts
    rw [hsplit]
    simp
  | opened htarget' hcontains' =>
    refine ⟨.inr ⟨_, htarget', hcontains', rfl⟩, fun target htarget _ => ?_⟩
    rw [htarget] at htarget'
    cases htarget'
    exact mem_append_right _ (mem_singleton.mpr rfl)

lemma Selects.unqueued {wasNew : Bool}
    (h : Selects inventory sourcePart relationship kind state wasNew state') :
    state'.pending = state.pending ∧ state'.processed = state.processed := by
  cases h <;> exact ⟨rfl, rfl⟩

lemma RootStep.rooted (h : RootStep inventory relationship state state')
    (hmem : relationship ∈ relationships) (hrooted : state.Rooted inventory mainPart relationships) :
    state'.Rooted inventory mainPart relationships := by
  cases h with
  | ignored => exact hrooted
  | selected hkind hdocument hselects =>
    obtain ⟨rest, hvisited, hrest⟩ := hrooted.visited
    refine ⟨hselects.sound hrooted.sound, hselects.unqueued.1.trans hrooted.pending,
      hselects.unqueued.2.trans hrooted.processed, ?_⟩
    rcases hselects.visited.1 with hsame | ⟨target, htarget, hcontains, hadded⟩
    · exact ⟨rest, hsame.trans hvisited, hrest⟩
    · refine ⟨rest ++ [_], by rw [hadded, hvisited, cons_append], ?_⟩
      intro visited hvisited
      rcases mem_append.mp hvisited with hold | hlast
      · exact hrest visited hold
      · rw [mem_singleton.mp hlast]
        exact ⟨relationship, hmem, hkind, hdocument, htarget, hcontains⟩

/-- What was visited stays visited. -/
theorem RootStep.keeps (h : RootStep inventory relationship state state')
    {visited : Text × PackagePartKind} (hvisited : visited ∈ state.visitedParts) :
    visited ∈ state'.visitedParts := by
  cases h with
  | ignored => exact hvisited
  | selected _ _ hselects =>
    rcases hselects.visited.1 with hsame | ⟨target, -, -, hadded⟩
    · rw [hsame]
      exact hvisited
    · rw [hadded]
      exact mem_append_left _ hvisited

lemma rooted_of_foldlM {relationships' : List Relationship}
    (hsub : relationships' ⊆ relationships)
    (h : relationships'.foldlM (processRootRelationship inventory types) state = .ok state')
    (hrooted : state.Rooted inventory mainPart relationships) :
    state'.Rooted inventory mainPart relationships ∧
      (∀ visited ∈ state.visitedParts, visited ∈ state'.visitedParts) ∧
      ∀ partUri kind, RootSelects inventory relationships' partUri kind →
        (partUri, kind) ∈ state'.visitedParts := by
  induction relationships' generalizing state with
  | nil =>
    cases h
    refine ⟨hrooted, fun _ hmem => hmem, ?_⟩
    intro partUri kind hselects
    obtain ⟨relationship, hmem, -⟩ := hselects
    cases hmem
  | cons relationship rest ih =>
    obtain ⟨next, hfirst, hrest⟩ := foldlM_cons_ok _ h
    have hstep := processRootRelationship_ok hfirst
    obtain ⟨hfinal, hkept, hlater⟩ := ih (fun _ hmem => hsub (mem_cons_of_mem _ hmem)) hrest
      (hstep.rooted (hsub mem_cons_self) hrooted)
    refine ⟨hfinal, fun visited hmem => hkept visited (hstep.keeps hmem), ?_⟩
    intro partUri kind hselects
    obtain ⟨relationship', hmem, hkind, hdocument, htarget, hcontains⟩ := hselects
    rcases mem_cons.mp hmem with hsame | hmem
    · subst hsame
      cases hstep with
      | ignored hnone => exact absurd (hnone kind hkind) hdocument
      | selected hkind' _ hselects =>
        rw [hkind] at hkind'
        cases hkind'
        exact hkept _ (hselects.visited.2 partUri htarget hcontains)
    · exact hlater partUri kind ⟨relationship', hmem, hkind, hdocument, htarget, hcontains⟩

/-- What is known once the content types and the relationships of the package are read. -/
theorem loadRoot_ok (h : loadRoot inventory R = .ok (types, relationships, state)) :
    state.Sound inventory [['/']] ∧ state.visitedParts = [] ∧ state.pending = [] ∧
      state.processed = [] := by
  simp only [loadRoot, bind_ok_iff, Prod.exists, pure, Except.pure, Except.ok.injEq,
    Prod.mk.injEq] at h
  obtain ⟨-, -, bytes, opened, hopen, types', budget, htypes, bytes', opened', hopen', read, budget',
    total, hread, rfl, rfl, rfl⟩ := h
  obtain ⟨selected, hholds, -, hopened⟩ := openXml_ok hopen
  have htypesRoot : HasRoot R inventory contentTypesPart "Types" :=
    ⟨bytes, hholds, readsRoot_of_parseTypes htypes⟩
  have hfirst : ({ opened with xmlBudget := budget } : LoadState R).Sound inventory [] := by
    rw [hopened]
    exact
      { nodup := nodup_singleton _
        role := by
          intro partUri hmem
          rw [mem_singleton.mp hmem]
          exact .types htypesRoot
        counted := Nat.zero_le _
        bounded := by
          show 0 + 1 ≤ maxSelectedXmlParts
          decide
        distinct := nodup_nil
        available := by
          intro visited hmem
          cases hmem
        kept := rfl }
  obtain ⟨selected', hholds', hlimit, hopened'⟩ := openXml_ok hopen'
  have hrelationshipsRoot : HasRoot R inventory rootRelationshipsPart "Relationships" :=
    ⟨bytes', hholds', readsRoot_of_parseRelationships hread⟩
  have hroot : relationshipsPartUri ['/'] = .ok rootRelationshipsPart := rfl
  have hsecond := hfirst.openRelationships hrelationshipsRoot hroot not_mem_nil hlimit hopened'
  refine ⟨hsecond.congr rfl rfl rfl rfl, ?_, ?_, ?_⟩
  · rw [hopened', hopened]
  · rw [hopened', hopened]
  · rw [hopened', hopened]

/-! ## §9 Loaded packages -/

/-- The relationships of the package root. -/
def rootRelationships (R : XmlReader) (inventory : ArchiveInventory) : List Relationship :=
  match loadRoot inventory R with
  | .ok (_, relationships, _) => relationships
  | .error _ => []

/-- What a loaded package says of its parts. The parts that the package root selects are the ones
whose relationships are not processed. -/
structure Loaded (inventory : ArchiveInventory) (foundation : PackageFoundation R)
    (popped : List Text) (rootParts : List (Text × PackagePartKind)) : Prop where
  once : foundation.opened.Nodup
  covered : ∀ partUri ∈ popped, ∀ uri, relationshipsPartUri partUri = .ok uri →
    inventory.contains uri = true →
    ∃ relationships, (partUri, relationships) ∈ foundation.processed ∧
      ReadFrom R inventory uri relationships ∧
      Covered inventory foundation.linksOut foundation.relationshipTargets partUri relationships
  only : ∀ entry ∈ foundation.processed, entry.1 ∈ popped
  kept : ∀ part ∈ foundation.parts, part.kind.wordprocessing.isSome = true →
    part.uri ∈ popped ∨ (part.uri, part.kind) ∈ rootParts
  rooted : ∀ visited ∈ rootParts,
    visited ∈ foundation.parts.map (fun part => (part.uri, part.kind)) ∧ visited.1 ∉ popped
  selected : ∀ visited,
    visited ∈ rootParts ↔ RootSelects inventory (rootRelationships R inventory) visited.1 visited.2

open PackageFoundation

/-- The state in which the queue starts. -/
theorem progress_of_rooted {rest : List (Text × PackagePartKind)}
    (hvisited : state.visitedParts = (mainPart, .document) :: rest)
    (hsound : state.Sound inventory [['/']]) (hprocessed : state.processed = []) :
    ({ state with pending := [mainPart] } : LoadState R).Progress inventory rest [] where
  sound := hsound.congr rfl rfl rfl rfl
  queued :=
    { nodup := nodup_singleton _
      found := by
        intro partUri hmem
        show partUri ∈ state.visitedParts.map Prod.fst
        rw [hvisited, mem_singleton.mp hmem]
        exact mem_cons_self
      kept := by
        intro visited hmem _
        rw [show ({ state with pending := [mainPart] } : LoadState R).visitedParts = _ from hvisited]
          at hmem
        rcases mem_cons.mp hmem with hmain | hrest
        · rw [hmain]
          exact .inl mem_cons_self
        · exact .inr hrest
      rooted := by
        intro visited hmem
        have hdistinct := hsound.distinct
        rw [hvisited, map_cons, nodup_cons] at hdistinct
        refine ⟨?_, ?_⟩
        · show visited ∈ state.visitedParts
          rw [hvisited]
          exact mem_cons_of_mem _ hmem
        · intro hmain
          rw [nil_append] at hmain
          have hmap := mem_map_of_mem (f := Prod.fst) hmem
          rw [mem_singleton.mp hmain] at hmap
          exact hdistinct.1 hmap }
  done := by
    refine ⟨fun partUri hmem => ?_, fun entry hmem => ?_⟩
    · cases hmem
    · rw [show ({ state with pending := [mainPart] } : LoadState R).processed = _ from hprocessed]
        at hmem
      cases hmem

/-- How a package is loaded: what is known when the queue starts, and what becomes of it. -/
theorem loadWithin_ok {rounds : ℕ} {foundation : PackageFoundation R}
    (h : loadWithin R inventory rounds = .ok foundation) :
    ∃ types rest start final,
      (start : LoadState R).Rooted inventory foundation.mainPart (rootRelationships R inventory) ∧
      start.visitedParts = (foundation.mainPart, .document) :: rest ∧
      (∀ visited ∈ rest,
        RootSelects inventory (rootRelationships R inventory) visited.1 visited.2) ∧
      (∀ partUri kind, RootSelects inventory (rootRelationships R inventory) partUri kind →
        (partUri, kind) ∈ start.visitedParts) ∧
      traverse inventory types rounds { start with pending := [foundation.mainPart] } = .ok final ∧
      foundation = ⟨foundation.mainPart, final.parts, final.relationshipTargets, final.xmlBudget,
        final.linksOut, final.notices, final.opened, final.processed⟩ ∧
      ∀ rounds', traverse inventory types rounds' { start with pending := [foundation.mainPart] } =
        .ok final → loadWithin R inventory rounds' = .ok foundation := by
  have hload := h
  simp only [loadWithin, bind_ok_iff, Prod.exists, pure, Except.pure, Except.ok.injEq] at h
  obtain ⟨types, relationships, first, hroot, office, hoffice, mainPart, hmain, u, hmainOk, second,
    hselect, third, hfold, final, htraverse, rfl⟩ := h
  have hrelationships : rootRelationships R inventory = relationships := by
    rw [rootRelationships, hroot]
  obtain ⟨hsound, hvisited, hpending, hprocessed⟩ := loadRoot_ok hroot
  obtain ⟨bytes, selected, budget, hpartRoot, hcontains, hlimit, hsecond⟩ := selectPart_ok hselect
  have hnew : first.visitedParts.lookup mainPart = none := by
    rw [hvisited]
    rfl
  have hrooted : second.Rooted inventory mainPart relationships := by
    rw [hsecond]
    refine ⟨hsound.keepPart hpartRoot hcontains hlimit hnew, hpending, hprocessed, [], ?_, ?_⟩
    · show first.visitedParts ++ _ = _
      rw [hvisited]
      rfl
    · intro visited hmem
      cases hmem
  obtain ⟨hthird, -, hselected⟩ := rooted_of_foldlM (Subset.refl _) hfold hrooted
  obtain ⟨rest, hrest, hrestSelects⟩ := hthird.visited
  rw [hrelationships]
  refine ⟨types, rest, third, final, hthird, hrest, hrestSelects, hselected, htraverse, rfl, ?_⟩
  intro rounds' hrounds
  simp only [loadWithin, bind_ok_iff, Prod.exists, pure, Except.pure, Except.ok.injEq]
  exact ⟨types, relationships, first, hroot, office, hoffice, mainPart, hmain, u, hmainOk, second,
    hselect, third, hfold, final, hrounds, rfl⟩

lemma load_spec {foundation : PackageFoundation R} (h : load R inventory = .ok foundation) :
    ∃ popped rootParts, Loaded inventory foundation popped rootParts := by
  obtain ⟨types, rest, start, final, hrooted, hvisited, hrest, hselected, htraverse, hfoundation, -⟩ :=
    loadWithin_ok h
  have hstart := progress_of_rooted hvisited hrooted.sound hrooted.processed
  have hfuel : maxSelectedXmlParts < ([] : List Text).length + (maxSelectedXmlParts + 1) := by
    simp
  obtain ⟨popped, hprogress, hempty⟩ := traverse_ends hstart hfuel htraverse
  have hparts : foundation.parts.map (fun part => (part.uri, part.kind)) = final.visitedParts := by
    rw [hfoundation]
    exact hprogress.sound.kept
  have hqueue : popped ++ final.pending = popped := by rw [hempty, append_nil]
  refine ⟨popped, rest, ?_, ?_, ?_, ?_, ?_, ?_⟩
  · rw [hfoundation]
    exact hprogress.sound.nodup
  · rw [hfoundation]
    exact hprogress.done.covered
  · rw [hfoundation]
    exact hprogress.done.only
  · intro part hmem hword
    have hkept := hprogress.queued.kept (part.uri, part.kind) (hparts ▸ mem_map_of_mem hmem) hword
    rw [hqueue] at hkept
    exact hkept
  · intro visited hmem
    have hroot := hprogress.queued.rooted visited hmem
    rw [hqueue] at hroot
    rw [hparts]
    exact hroot
  · intro visited
    refine ⟨hrest visited, fun hselects => ?_⟩
    have hstarted := hselected visited.1 visited.2 hselects
    rw [hvisited] at hstarted
    rcases mem_cons.mp hstarted with hmain | hmem
    · obtain ⟨relationship, -, -, hdocument, -⟩ := hselects
      exact absurd (congrArg Prod.snd hmain) hdocument
    · exact hmem

/-- Whether more parts may be taken from the queue makes no difference to a package that is
    loaded. -/
theorem load_extra {foundation : PackageFoundation R} (h : load R inventory = .ok foundation)
    (extra : ℕ) : loadWithin R inventory (maxSelectedXmlParts + 1 + extra) = .ok foundation := by
  obtain ⟨types, rest, start, final, hrooted, hvisited, -, -, htraverse, -, hrounds⟩ :=
    loadWithin_ok h
  have hstart := progress_of_rooted hvisited hrooted.sound hrooted.processed
  apply hrounds
  rw [← htraverse]
  apply traverse_extra extra hstart
  simp

/-! ## §10 The policy -/

/-- `http`, `https` or `mailto`. -/
def SupportedScheme (target : Text) : Prop :=
  ':' ∈ target ∧ (target.takeWhile (· ≠ ':')).map Char.toLower ∈
    ["http", "https", "mailto"].map String.toList

/-- The relationships of a part were processed, and the policy holds of each of them. -/
def PartCovered (inventory : ArchiveInventory) (foundation : PackageFoundation R)
    (partUri uri : Text) : Prop :=
  ∃ relationships, (partUri, relationships) ∈ foundation.processed ∧
    ReadFrom R inventory uri relationships ∧
    ∀ relationship ∈ relationships, relationship.forbidden = false ∧
      (relationship.external = true →
        relationshipSuffix relationship.relationshipType = some "hyperlink".toList →
        SupportedScheme relationship.target → relationship.target ∈ foundation.linksOut) ∧
      (relationship.external = false →
        ∀ kind, packageRelationshipKind relationship.relationshipType = some kind →
        ∀ target, resolveRelationshipTarget partUri relationship.target = .ok target →
        inventory.contains target = true →
        foundation.relationshipTarget partUri relationship.id kind = some target)

/-- What is expected of a loaded package: every part was opened once, the queue came to its end, and
every selected WordprocessingML part is covered. -/
structure PolicyHolds (inventory : ArchiveInventory) (foundation : PackageFoundation R) : Prop where
  once : foundation.opened.Nodup
  ends : ∀ extra, loadWithin R inventory (maxSelectedXmlParts + 1 + extra) = .ok foundation
  covered : ∀ part ∈ foundation.parts, part.kind.wordprocessing.isSome = true →
    ∀ uri, relationshipsPartUri part.uri = .ok uri → inventory.contains uri = true →
    PartCovered inventory foundation part.uri uri

/-- No part that the package root selects, the document apart, has relationships of its own. -/
def RootPartsUnrelated (R : XmlReader) (inventory : ArchiveInventory) : Prop :=
  ∀ partUri kind, RootSelects inventory (rootRelationships R inventory) partUri kind →
    kind.wordprocessing.isSome = true →
    ∀ uri, relationshipsPartUri partUri = .ok uri → inventory.contains uri = false

variable {foundation : PackageFoundation R}

lemma inertExternalTarget_eq (hscheme : SupportedScheme target)
    (hshort : utf8Len target ≤ maxRelationshipTargetBytes) :
    inertExternalTarget target = some target := by
  rw [inertExternalTarget, if_neg (not_lt.mpr hshort), if_pos]
  exact hscheme

lemma partCovered_of_covered {uri : Text}
    (hprocessed : (partUri, relationships) ∈ foundation.processed)
    (hread : ReadFrom R inventory uri relationships)
    (h : Covered inventory foundation.linksOut foundation.relationshipTargets partUri
      relationships) : PartCovered inventory foundation partUri uri := by
  refine ⟨relationships, hprocessed, hread, ?_⟩
  intro relationship hmem
  refine ⟨h.permitted relationship hmem, ?_, ?_⟩
  · intro hexternal hsuffix hscheme
    obtain ⟨bytes, budget, budget', total, total', -, hparse⟩ := hread
    have hshort := (wellRead_of_parseRelationships hparse).2 relationship hmem
    exact h.linked relationship hmem hexternal hsuffix _ (inertExternalTarget_eq hscheme hshort)
  · intro hinternal kind hkind target htarget hcontains
    rw [relationshipTarget,
      h.recorded relationship hmem hinternal kind hkind target htarget hcontains]
    simp

lemma policyHolds_of_unrelated (hload : load R inventory = .ok foundation)
    (h : RootPartsUnrelated R inventory) : PolicyHolds inventory foundation := by
  obtain ⟨popped, rootParts, hloaded⟩ := load_spec hload
  refine ⟨hloaded.once, load_extra hload, ?_⟩
  intro part hmem hword uri huri hcontains
  rcases hloaded.kept part hmem hword with hpopped | hroot
  · obtain ⟨relationships, hprocessed, hread, hcovered⟩ :=
      hloaded.covered part.uri hpopped uri huri hcontains
    exact partCovered_of_covered hprocessed hread hcovered
  · have hnone := h part.uri part.kind ((hloaded.selected _).mp hroot) hword uri huri
    rw [hnone] at hcontains
    cases hcontains

lemma unrelated_of_policyHolds (hload : load R inventory = .ok foundation)
    (h : PolicyHolds inventory foundation) : RootPartsUnrelated R inventory := by
  obtain ⟨popped, rootParts, hloaded⟩ := load_spec hload
  intro partUri kind hselects hword uri huri
  by_contra hcontains
  have hroot : (partUri, kind) ∈ rootParts := (hloaded.selected (partUri, kind)).mpr hselects
  obtain ⟨hvisited, hout⟩ := hloaded.rooted _ hroot
  obtain ⟨part, hpart, heq⟩ := mem_map.mp hvisited
  rw [Prod.mk.injEq] at heq
  obtain ⟨hname, hkind⟩ := heq
  -- the part would have been taken from the queue, which it never entered
  obtain ⟨relationships, hprocessed, -⟩ := h.covered part hpart (hkind ▸ hword) uri (hname ▸ huri)
    (Bool.eq_true_of_not_eq_false hcontains)
  rw [hname] at hprocessed
  exact hout (hloaded.only _ hprocessed)

/-- The policy covers every selected part exactly if the package root selects no header, footer,
notes, comments or styles that have relationships. -/
theorem load_policyHolds_iff (hload : load R inventory = .ok foundation) :
    PolicyHolds inventory foundation ↔ RootPartsUnrelated R inventory :=
  ⟨unrelated_of_policyHolds hload, policyHolds_of_unrelated hload⟩

/-! ## §11 A header with an embedded object -/

def partXml (kind : PackagePartKind) : List XmlEvent :=
  documentOf kind.root.2.headI kind.root.1 [] []

def headerRelationships : List XmlEvent :=
  relationshipsXml [relationshipElement "r1" "oleObject" "o.bin"]

/-- The documents of a package whose root selects the main document and a header. The header embeds
an object. -/
def headerDocuments : List (String × List XmlEvent) :=
  [("/[Content_Types].xml", contentTypesXml [("/d.xml", PackagePartKind.document.contentType),
      ("/h.xml", PackagePartKind.header.contentType)]),
    ("/_rels/.rels", relationshipsXml [relationshipElement "r1" "officeDocument" "d.xml",
      relationshipElement "r2" "header" "h.xml"]),
    ("/d.xml", partXml .document),
    ("/h.xml", partXml .header),
    ("/_rels/h.xml.rels", headerRelationships)]

def headerReader : XmlReader := knownReader (headerDocuments.map Prod.snd)

def headerPackage : ArchiveInventory := knownPackage headerDocuments (by decide +kernel)

/-- The package loads, and its root leads to the header. -/
theorem headerPackage_ok : (load headerReader headerPackage).isOk = true ∧
    ∃ relationship ∈ rootRelationships headerReader headerPackage,
      packageRelationshipKind relationship.relationshipType = some .header ∧
        resolveRelationshipTarget ['/'] relationship.target = .ok "/h.xml".toList := by
  decide +kernel

lemma exists_of_isOk {E A : Type} {x : Except E A} (h : x.isOk = true) : ∃ a, x = .ok a := by
  cases x with
  | error e => cases h
  | ok a => exact ⟨a, rfl⟩

theorem headerPackage_policy : ∃ foundation, load headerReader headerPackage = .ok foundation ∧
    (PolicyHolds headerPackage foundation ↔ RootPartsUnrelated headerReader headerPackage) := by
  obtain ⟨foundation, hload⟩ := exists_of_isOk headerPackage_ok.1
  exact ⟨foundation, hload, load_policyHolds_iff hload⟩

/-- A package is loaded although a part of it, its header, has a forbidden relationship. -/
theorem headerPackage_evades : ∃ foundation, load headerReader headerPackage = .ok foundation ∧
    (∃ part ∈ foundation.parts, part.uri = "/h.xml".toList ∧ part.kind = .header) ∧
    (parseRelationships headerReader (utf8 (renderXml headerRelationships)) () 0).toOption.any
      (fun read => read.1.any Relationship.forbidden) = true ∧
    ¬ PolicyHolds headerPackage foundation := by
  obtain ⟨foundation, hload⟩ := exists_of_isOk headerPackage_ok.1
  obtain ⟨relationship, hmem, hkind, htarget⟩ := headerPackage_ok.2
  have hselects : RootSelects headerPackage (rootRelationships headerReader headerPackage)
      "/h.xml".toList .header :=
    ⟨relationship, hmem, hkind, by decide, htarget, by decide +kernel⟩
  refine ⟨foundation, hload, ?_, by decide +kernel, ?_⟩
  · obtain ⟨popped, rootParts, hloaded⟩ := load_spec hload
    have hroot := (hloaded.selected ("/h.xml".toList, .header)).mpr hselects
    obtain ⟨part, hpart, heq⟩ := mem_map.mp (hloaded.rooted _ hroot).1
    exact ⟨part, hpart, congrArg Prod.fst heq, congrArg Prod.snd heq⟩
  · intro hpolicy
    have hnone := unrelated_of_policyHolds hload hpolicy _ _ hselects rfl
      "/_rels/h.xml.rels".toList (by decide +kernel)
    exact absurd hnone (by decide +kernel)

end Kwiry.Docx
