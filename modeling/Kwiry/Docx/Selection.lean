import Kwiry.Docx.Opc

/-!
# Selecting Parts of a DOCX Package

What one relationship of a package does, and that no part is opened twice: content types,
relationships and the parts of each kind have different roots, and a part has one root.
-/

namespace Kwiry.Docx

open Foundations List

/-! ## §1 Names -/

variable {after output segment uri : Text}

lemma rsplitOnce_append {sep : Char} (before : Text) (h : sep ∉ after) :
    rsplitOnce sep (before ++ sep :: after) = some (before, after) := by
  have hall : ∀ c ∈ after.reverse, decide (c ≠ sep) = true := by
    intro c hc
    have hne : c ≠ sep := fun heq => h (heq ▸ mem_reverse.mp hc)
    simp [hne]
  have hreverse : (before ++ sep :: after).reverse = after.reverse ++ sep :: before.reverse := by
    simp
  rw [rsplitOnce, if_pos (by simp), hreverse, dropWhile_append_of_pos hall,
    takeWhile_append_of_pos hall]
  simp

lemma rsplitOnce_spec {sep : Char} {t before : Text}
    (h : rsplitOnce sep t = some (before, after)) : t = before ++ sep :: after ∧ sep ∉ after := by
  have hmem : sep ∈ t.reverse := by
    by_contra hnot
    rw [rsplitOnce, if_neg (by simpa using hnot)] at h
    cases h
  obtain ⟨front, back, ht, hfront⟩ := eq_append_cons_of_mem hmem
  have hsplit : t = back.reverse ++ sep :: front.reverse := by
    rw [← reverse_reverse t, ht]
    simp
  rw [hsplit, rsplitOnce_append _ (by simpa using hfront)] at h
  cases h
  exact ⟨hsplit, by simpa using hfront⟩

/-- The name of the relationship part of a part. -/
theorem relationshipsPartUri_spec {sourcePart : Text}
    (h : relationshipsPartUri sourcePart = .ok uri) :
    ∃ parent name, sourcePart = parent ++ '/' :: name ∧ '/' ∉ name ∧
      uri = parent ++ "/_rels/".toList ++ name ++ ".rels".toList := by
  rw [relationshipsPartUri] at h
  split at h
  next hroot =>
    cases h
    exact ⟨[], [], hroot, not_mem_nil, rfl⟩
  next =>
    split at h
    next => cases h
    next parent name hsplit =>
      obtain ⟨hsource, hname⟩ := rsplitOnce_spec hsplit
      simp only at h
      split at h
      next => cases h
      next =>
        cases h
        exact ⟨parent, name, hsource, hname, rfl⟩

/-- Two parts have two relationship parts. -/
theorem relationshipsPartUri_inj {sourcePart sourcePart' : Text}
    (h : relationshipsPartUri sourcePart = .ok uri)
    (h' : relationshipsPartUri sourcePart' = .ok uri) : sourcePart = sourcePart' := by
  obtain ⟨parent, name, hsource, hname, huri⟩ := relationshipsPartUri_spec h
  obtain ⟨parent', name', hsource', hname', huri'⟩ := relationshipsPartUri_spec h'
  have hfolder : "/_rels/".toList = "/_rels".toList ++ ['/'] := by decide
  have hcut : (parent ++ "/_rels".toList) ++ '/' :: name =
      (parent' ++ "/_rels".toList) ++ '/' :: name' := by
    have hboth := append_cancel_right (huri.symm.trans huri')
    rw [hfolder] at hboth
    simpa using hboth
  have hsplit := rsplitOnce_append (parent ++ "/_rels".toList) hname
  rw [hcut, rsplitOnce_append _ hname', Option.some.injEq, Prod.mk.injEq] at hsplit
  rw [hsource, hsource', hsplit.2, append_cancel_right hsplit.1]

lemma canonicalizeEscape_ne_nil {high low : Char} {piece : Text}
    (h : canonicalizeEscape high low = .ok piece) : piece ≠ [] := by
  unfold canonicalizeEscape at h
  split at h
  next =>
    simp only at h
    split at h
    · cases h
    · split at h
      · cases h
        simp
      · cases h
        simp
  next => cases h

lemma canonicalizeChars_ne_nil (hsegment : segment ≠ [])
    (h : canonicalizeChars segment = .ok output) : output ≠ [] := by
  unfold canonicalizeChars at h
  split at h
  next => exact absurd rfl hsegment
  next =>
    simp only [bind_ok_iff, pure, Except.pure, Except.ok.injEq] at h
    obtain ⟨piece, hpiece, rest, -, rfl⟩ := h
    simp [canonicalizeEscape_ne_nil hpiece]
  next =>
    split at h
    · cases h
    · simp only [bind_ok_iff, pure, Except.pure, Except.ok.injEq] at h
      obtain ⟨rest, -, rfl⟩ := h
      simp

lemma canonicalizeSegment_ne_nil (h : canonicalizeSegment segment = .ok output) :
    output ≠ [] := by
  unfold canonicalizeSegment at h
  split at h
  next => cases h
  next hsegment =>
    simp only [bind_ok_iff, pure, Except.pure, Except.ok.injEq] at h
    obtain ⟨result, hchars, -, -, rfl⟩ := h
    exact canonicalizeChars_ne_nil hsegment hchars

lemma joinWith_ne_nil {sep : Text} {first : Text} {rest : List Text} (h : first ≠ []) :
    joinWith sep (first :: rest) ≠ [] := by
  cases rest <;> simp [joinWith, h]

lemma canonicalizeZipName_ne_root {name : Text} {isDirectory : Bool} :
    canonicalizeZipName name isDirectory ≠ .ok ['/'] := by
  intro h
  simp only [canonicalizeZipName, bind_ok_iff, pure, Except.pure, Except.ok.injEq, mapM_ok_iff] at h
  obtain ⟨-, -, -, -, segments, hsegments, -, -, hcanonical⟩ := h
  cases segments with
  | nil =>
    rw [forall₂_nil_right_iff] at hsegments
    exact splitOn_ne_nil '/' _ hsegments
  | cons first rest =>
    obtain ⟨raw, -, hfirst, -, -⟩ := forall₂_cons_right_iff.mp hsegments
    have hjoined : joinWith ['/'] (first :: rest) ≠ [] :=
      joinWith_ne_nil (canonicalizeSegment_ne_nil hfirst)
    simp [hjoined] at hcanonical

variable {R : XmlReader} {inventory : ArchiveInventory}

lemma contains_root : inventory.contains ['/'] = false := by
  by_contra hnot
  obtain ⟨entry, hlookup⟩ := Option.isSome_iff_exists.mp (Bool.eq_true_of_not_eq_false hnot)
  obtain ⟨front, back, hentries, -⟩ := lookup_eq_some_iff.mp hlookup
  obtain ⟨name, isDirectory, hname⟩ := inventory.canonical (['/'], entry) (by simp [hentries])
  exact canonicalizeZipName_ne_root hname

/-! ## §2 Opening -/

/-- What a part holds. -/
def ArchiveInventory.Holds (inventory : ArchiveInventory) (partUri : Text) (bytes : Bytes) : Prop :=
  ∃ entry, inventory.entries.lookup partUri = some entry ∧ entry.contents = .ok bytes

/-- A part holds a document with this root. -/
def HasRoot (R : XmlReader) (inventory : ArchiveInventory) (partUri : Text) (name : String) : Prop :=
  ∃ bytes, inventory.Holds partUri bytes ∧ ReadsRoot R bytes name.toList

variable {bytes : Bytes} {partUri : Text} {relationship : Relationship}

lemma ArchiveInventory.Holds.unique {bytes' : Bytes} (h : inventory.Holds partUri bytes)
    (h' : inventory.Holds partUri bytes') : bytes = bytes' := by
  obtain ⟨entry, hlookup, hbytes⟩ := h
  obtain ⟨entry', hlookup', hbytes'⟩ := h'
  rw [hlookup] at hlookup'
  cases hlookup'
  rw [hbytes] at hbytes'
  exact Except.ok.inj hbytes'

lemma HasRoot.unique {name name' : String} (h : HasRoot R inventory partUri name)
    (h' : HasRoot R inventory partUri name') : name = name' := by
  obtain ⟨bytes, hholds, hroot⟩ := h
  obtain ⟨bytes', hholds', hroot'⟩ := h'
  rw [hholds.unique hholds'] at hroot
  exact String.toList_inj.mp (hroot.unique hroot')

variable {selected total total' : ℕ}

lemma holds_of_openSelectedXml {selected' : ℕ}
    (h : inventory.openSelectedXml selected partUri = .ok (bytes, selected')) :
    inventory.Holds partUri bytes := by
  unfold ArchiveInventory.openSelectedXml at h
  split at h
  next => cases h
  next entry hlookup =>
    refine ⟨entry, hlookup, ?_⟩
    -- the declared sizes pass their checks
    iterate 4
      split at h
      · cases h
    simp only [bind_ok_iff, pure, Except.pure, Except.ok.injEq, Prod.mk.injEq] at h
    obtain ⟨output, hcontents, rfl, -⟩ := h
    exact hcontents

lemma ArchiveInventory.Holds.contains (h : inventory.Holds partUri bytes) :
    inventory.contains partUri = true := by
  obtain ⟨entry, hlookup, -⟩ := h
  rw [ArchiveInventory.contains, hlookup]
  rfl

variable {state state' : LoadState R}

/-- Opening a part counts it and logs it. -/
theorem openXml_ok (h : openXml inventory partUri state = .ok (bytes, state')) :
    ∃ selected, inventory.Holds partUri bytes ∧ state.selectedParts < maxSelectedXmlParts ∧
      state' = { state with
        selectedUncompressed := selected
        selectedParts := state.selectedParts + 1
        opened := state.opened ++ [partUri] } := by
  simp only [openXml, bind_ok_iff, rejectIf_ok, pure, Except.pure, Except.ok.injEq, Prod.exists,
    Prod.mk.injEq] at h
  obtain ⟨-, hlimit, bytes', selected, hopen, rfl, rfl⟩ := h
  exact ⟨selected, holds_of_openSelectedXml hopen, by omega, rfl⟩

lemma localName_of_requireElement {element : XmlElement} {namespaces : List Text} {name : String}
    {u : Unit} (h : requireElement element namespaces name = .ok u) :
    element.localName = name.toList := by
  unfold requireElement at h
  split at h
  next hmatches => exact hmatches.1
  next => cases h

variable {budget budget' : R.Budget}

/-- A part passes as a kind only with the root of the kind. -/
theorem readsRoot_of_validateSelectedPart {kind : PackagePartKind}
    (h : validateSelectedPart R bytes kind budget = .ok budget') :
    ReadsRoot R bytes kind.root.1.toList := by
  simp only [validateSelectedPart, bind_ok_iff, Prod.exists] at h
  obtain ⟨rootChecked, budget', hparse, -⟩ := h
  refine readsRoot_of_parseXml hparse fun element next hnext => ?_
  simp only [Bool.false_eq_true, if_false, bind_ok_iff] at hnext
  obtain ⟨u, hroot, -⟩ := hnext
  exact localName_of_requireElement hroot

lemma readsRoot_of_parseRelationships {relationships : List Relationship}
    (h : parseRelationships R bytes budget total = .ok (relationships, budget', total')) :
    ReadsRoot R bytes "Relationships".toList := by
  simp only [parseRelationships, bind_ok_iff, Prod.exists] at h
  obtain ⟨read, budget', hparse, -⟩ := h
  refine readsRoot_of_parseXml hparse fun element next hnext => ?_
  simp only [RelationshipsRead.addElement, if_true, bind_ok_iff] at hnext
  obtain ⟨u, hroot, -⟩ := hnext
  exact localName_of_requireElement hroot

variable {types : ContentTypes}

lemma readsRoot_of_parseTypes (h : ContentTypes.parse R bytes budget = .ok (types, budget')) :
    ReadsRoot R bytes "Types".toList := by
  simp only [ContentTypes.parse, bind_ok_iff, Prod.exists] at h
  obtain ⟨read, budget', hparse, -⟩ := h
  refine readsRoot_of_parseXml hparse fun element next hnext => ?_
  simp only [ContentTypes.addElement, bind_ok_iff] at hnext
  obtain ⟨u, hroot, -⟩ := hnext
  exact localName_of_requireElement hroot

/-- What is read of one relationship part: ids are distinct, and targets short. -/
def WellRead (relationships : List Relationship) : Prop :=
  (relationships.map Relationship.id).Nodup ∧
    ∀ relationship ∈ relationships, utf8Len relationship.target ≤ maxRelationshipTargetBytes

lemma wellRead_of_parseRelationships {relationships : List Relationship}
    (h : parseRelationships R bytes budget total = .ok (relationships, budget', total')) :
    WellRead relationships := by
  simp only [parseRelationships, bind_ok_iff, Prod.exists, pure, Except.pure, Except.ok.injEq,
    Prod.mk.injEq] at h
  obtain ⟨read, budget', hparse, rfl, -⟩ := h
  refine foldlM_induction _ (fun read => WellRead read.relationships) ?_ ?_
    (parseXml_ok_iff.mp hparse).1
  · intro read next element _ hread hnext
    unfold RelationshipsRead.addElement at hnext
    split at hnext
    next =>
      simp only [bind_ok_iff, pure, Except.pure, Except.ok.injEq] at hnext
      obtain ⟨-, -, rfl⟩ := hnext
      exact hread
    next =>
      split at hnext
      next =>
        cases hnext
        exact hread
      next =>
        simp only [bind_ok_iff, rejectIf_ok, pure, Except.pure, Except.ok.injEq, not_or] at hnext
        obtain ⟨-, -, -, -, id, -, -, hfresh, -, -, target, -, -, ⟨-, hshort⟩, external, -, rfl⟩ :=
          hnext
        refine ⟨?_, fun relationship hmem => ?_⟩
        · rw [map_append, nodup_append]
          refine ⟨hread.1, by simp, ?_⟩
          simpa using fun a ha hid => hfresh (mem_map.mpr ⟨a, ha, hid⟩)
        · rcases mem_append.mp hmem with hold | hnew
          · exact hread.2 relationship hold
          · rw [mem_singleton.mp hnew]
            exact not_lt.mp hshort
  · exact ⟨by simp, by simp⟩

/-! ## §3 What one relationship does -/

/-- Keeps a part that was opened. -/
def LoadState.keepPart (state : LoadState R) (partUri : Text) (kind : PackagePartKind)
    (bytes : Bytes) (selected : ℕ) (budget : R.Budget) : LoadState R :=
  { state with
    selectedUncompressed := selected
    selectedParts := state.selectedParts + 1
    opened := state.opened ++ [partUri]
    xmlBudget := budget
    visitedParts := state.visitedParts ++ [(partUri, kind)]
    parts := state.parts ++ [⟨partUri, kind, bytes⟩] }

lemma selectPart_ok {kind : PackagePartKind}
    (h : selectPart inventory partUri kind state = .ok state') :
    ∃ bytes selected budget, HasRoot R inventory partUri kind.root.1 ∧
      inventory.contains partUri = true ∧ state.selectedParts < maxSelectedXmlParts ∧
      state' = state.keepPart partUri kind bytes selected budget := by
  simp only [selectPart, bind_ok_iff, Prod.exists, pure, Except.pure, Except.ok.injEq] at h
  obtain ⟨bytes, opened, hopen, budget, hvalid, rfl⟩ := h
  obtain ⟨selected, hholds, hlimit, rfl⟩ := openXml_ok hopen
  exact ⟨bytes, selected, budget, ⟨bytes, hholds, readsRoot_of_validateSelectedPart hvalid⟩,
    hholds.contains, hlimit, rfl⟩

/-- What selecting the part of a relationship does: whether the part is new, and the state. -/
inductive Selects (inventory : ArchiveInventory) (sourcePart : Text) (relationship : Relationship)
    (kind : PackagePartKind) (state : LoadState R) : Bool → LoadState R → Prop where
  | unavailable {target code message}
      (htarget : resolveRelationshipTarget sourcePart relationship.target = .ok target)
      (hcontains : inventory.contains target = false) :
      Selects inventory sourcePart relationship kind state false (state.notice code message)
  | known {target}
      (htarget : resolveRelationshipTarget sourcePart relationship.target = .ok target)
      (hcontains : inventory.contains target = true)
      (hvisited : state.visitedParts.lookup target = some kind) :
      Selects inventory sourcePart relationship kind state false
        (state.recordTarget sourcePart relationship.id kind target)
  | opened {target bytes selected budget}
      (htarget : resolveRelationshipTarget sourcePart relationship.target = .ok target)
      (hcontains : inventory.contains target = true)
      (hvisited : state.visitedParts.lookup target = none)
      (hroot : HasRoot R inventory target kind.root.1)
      (hlimit : state.selectedParts < maxSelectedXmlParts) :
      Selects inventory sourcePart relationship kind state true
        ((state.recordTarget sourcePart relationship.id kind target).keepPart target kind bytes
          selected budget)

lemma selects_of_selectRelatedPart {sourcePart : Text} {kind : PackagePartKind} {wasNew : Bool}
    (h : selectRelatedPart inventory types sourcePart relationship kind state = .ok (wasNew, state')) :
    Selects inventory sourcePart relationship kind state wasNew state' := by
  simp only [selectRelatedPart, bind_ok_iff] at h
  obtain ⟨target, htarget, h⟩ := h
  split at h
  next hcontains =>
    cases h
    exact .unavailable htarget hcontains
  next hcontains =>
    have hcontains : inventory.contains target = true := Bool.eq_true_of_not_eq_false hcontains
    simp only [bind_ok_iff] at h
    obtain ⟨-, -, h⟩ := h
    split at h
    next existing hvisited =>
      simp only [bind_ok_iff, rejectIf_ok, not_not, pure, Except.pure, Except.ok.injEq,
        Prod.mk.injEq] at h
      obtain ⟨-, hkind, rfl, rfl⟩ := h
      rw [hkind] at hvisited
      exact .known htarget hcontains hvisited
    next hvisited =>
      simp only [bind_ok_iff, pure, Except.pure, Except.ok.injEq, Prod.mk.injEq] at h
      obtain ⟨next, hselect, rfl, rfl⟩ := h
      obtain ⟨bytes, selected, budget, hroot, -, hlimit, rfl⟩ := selectPart_ok hselect
      exact .opened htarget hcontains hvisited hroot hlimit

/-- What one relationship of a part does. -/
inductive RelationshipStep (inventory : ArchiveInventory) (sourcePart : Text)
    (relationship : Relationship) (state : LoadState R) : LoadState R → Prop where
  | ignored (hinternal : relationship.external = false)
      (hkind : packageRelationshipKind relationship.relationshipType = none) :
      RelationshipStep inventory sourcePart relationship state state
  | linked {target} (hexternal : relationship.external = true)
      (htarget : inertExternalTarget relationship.target = some target) :
      RelationshipStep inventory sourcePart relationship state (state.addLink target)
  | passedOver {code message} (hexternal : relationship.external = true)
      (hother : relationshipSuffix relationship.relationshipType = some "hyperlink".toList →
        inertExternalTarget relationship.target = none) :
      RelationshipStep inventory sourcePart relationship state (state.notice code message)
  | selected {kind wasNew state'} (hinternal : relationship.external = false)
      (hkind : packageRelationshipKind relationship.relationshipType = some kind)
      (hselects : Selects inventory sourcePart relationship kind state wasNew state')
      (hold : wasNew = true → kind.wordprocessing = none) :
      RelationshipStep inventory sourcePart relationship state state'
  | queued {kind state'} (hinternal : relationship.external = false)
      (hkind : packageRelationshipKind relationship.relationshipType = some kind)
      (hselects : Selects inventory sourcePart relationship kind state true state')
      (hword : kind.wordprocessing.isSome = true) :
      RelationshipStep inventory sourcePart relationship state
        (state'.enqueueTarget sourcePart relationship.id)

lemma processRelationship_ok {sourcePart : Text}
    (h : processRelationship inventory types sourcePart state relationship = .ok state') :
    relationship.forbidden = false ∧
      RelationshipStep inventory sourcePart relationship state state' := by
  simp only [processRelationship, bind_ok_iff, rejectIf_ok, Bool.not_eq_true] at h
  obtain ⟨-, hpermitted, h⟩ := h
  refine ⟨hpermitted, ?_⟩
  split at h
  next hexternal =>
    unfold processExternal at h
    split at h
    next hsuffix =>
      split at h
      next target htarget =>
        cases h
        exact .linked hexternal htarget
      next hnone =>
        cases h
        exact .passedOver hexternal fun _ => hnone
    next hsuffix =>
      split at h
      next => cases h
      next =>
        cases h
        exact .passedOver hexternal fun hlink => absurd hlink hsuffix
  next hexternal =>
    have hinternal : relationship.external = false := Bool.eq_false_of_not_eq_true hexternal
    split at h
    next hkind =>
      cases h
      exact .ignored hinternal hkind
    next kind hkind =>
      simp only [bind_ok_iff, Prod.exists] at h
      obtain ⟨wasNew, next, hselect, h⟩ := h
      have hselects := selects_of_selectRelatedPart hselect
      split at h
      next hqueue =>
        cases h
        obtain ⟨rfl, hword⟩ := hqueue
        exact .queued hinternal hkind hselects hword
      next hqueue =>
        cases h
        refine .selected hinternal hkind hselects fun hnew => ?_
        rw [← Option.not_isSome_iff_eq_none]
        exact fun hword => hqueue ⟨hnew, hword⟩

/-! ## §4 Parts are opened once -/

lemma PackagePartKind.root_ne (kind : PackagePartKind) :
    kind.root.1 ≠ "Types" ∧ kind.root.1 ≠ "Relationships" := by
  cases kind <;> decide

/-- Why a part was opened, and what it then holds. -/
inductive Role (R : XmlReader) (inventory : ArchiveInventory) (sources : List Text)
    (visited : List (Text × PackagePartKind)) (partUri : Text) : Prop where
  | types (hroot : HasRoot R inventory partUri "Types")
  | relationships {sourcePart} (hsource : sourcePart ∈ sources)
      (huri : relationshipsPartUri sourcePart = .ok partUri)
      (hroot : HasRoot R inventory partUri "Relationships")
  | selected {kind} (hvisited : (partUri, kind) ∈ visited)
      (hroot : HasRoot R inventory partUri kind.root.1)

/-- Every part was opened once, for one reason. The sources are the parts whose relationships were
asked for. -/
structure LoadState.Sound (inventory : ArchiveInventory) (sources : List Text)
    (state : LoadState R) : Prop where
  nodup : state.opened.Nodup
  role : ∀ partUri ∈ state.opened, Role R inventory sources state.visitedParts partUri
  counted : state.visitedParts.length ≤ state.selectedParts
  bounded : state.selectedParts ≤ maxSelectedXmlParts
  distinct : (state.visitedParts.map Prod.fst).Nodup
  available : ∀ visited ∈ state.visitedParts, inventory.contains visited.1 = true
  kept : state.parts.map (fun part => (part.uri, part.kind)) = state.visitedParts

variable {sources : List Text}

lemma Role.mono {sources' : List Text} {visited visited' : List (Text × PackagePartKind)}
    (h : Role R inventory sources visited partUri) (hsources : sources ⊆ sources')
    (hvisited : visited ⊆ visited') : Role R inventory sources' visited' partUri := by
  cases h with
  | types hroot => exact .types hroot
  | relationships hsource huri hroot => exact .relationships (hsources hsource) huri hroot
  | selected hmem hroot => exact .selected (hvisited hmem) hroot

namespace LoadState.Sound

variable (h : state.Sound inventory sources)

include h

lemma mono {sources' : List Text} (hsources : sources ⊆ sources') :
    state.Sound inventory sources' :=
  { h with role := fun partUri hmem => (h.role partUri hmem).mono hsources (Subset.refl _) }

/-- Opening, visiting and keeping parts is all that matters. -/
theorem congr (hopened : state'.opened = state.opened)
    (hselected : state'.selectedParts = state.selectedParts)
    (hvisited : state'.visitedParts = state.visitedParts) (hparts : state'.parts = state.parts) :
    state'.Sound inventory sources where
  nodup := hopened ▸ h.nodup
  role := by
    rw [hopened, hvisited]
    exact h.role
  counted := by
    rw [hvisited, hselected]
    exact h.counted
  bounded := hselected ▸ h.bounded
  distinct := hvisited ▸ h.distinct
  available := hvisited ▸ h.available
  kept := by
    rw [hvisited, hparts]
    exact h.kept

/-- A part that is not visited was not opened, if its root is that of a kind. -/
theorem fresh_of_kind {kind : PackagePartKind} (hroot : HasRoot R inventory partUri kind.root.1)
    (hnew : ∀ kind', (partUri, kind') ∉ state.visitedParts) : partUri ∉ state.opened := by
  intro hopened
  cases h.role partUri hopened with
  | types htypes => exact kind.root_ne.1 (hroot.unique htypes)
  | relationships _ _ hrelationships => exact kind.root_ne.2 (hroot.unique hrelationships)
  | selected hvisited _ => exact hnew _ hvisited

/-- The relationships of a part are opened once, since they are asked for once. -/
theorem fresh_of_relationships {sourcePart : Text}
    (hroot : HasRoot R inventory partUri "Relationships")
    (huri : relationshipsPartUri sourcePart = .ok partUri) (hnew : sourcePart ∉ sources) :
    partUri ∉ state.opened := by
  intro hopened
  cases h.role partUri hopened with
  | types htypes => exact absurd (hroot.unique htypes) (by decide)
  | relationships hsource huri' _ =>
    exact hnew (relationshipsPartUri_inj huri huri' ▸ hsource)
  | selected _ hselected => exact PackagePartKind.root_ne _ |>.2 (hselected.unique hroot)

lemma keepPart {kind : PackagePartKind} (hroot : HasRoot R inventory partUri kind.root.1)
    (hcontains : inventory.contains partUri = true)
    (hlimit : state.selectedParts < maxSelectedXmlParts)
    (hnew : state.visitedParts.lookup partUri = none) :
    (state.keepPart partUri kind bytes selected budget).Sound inventory sources := by
  have hunvisited : ∀ kind', (partUri, kind') ∉ state.visitedParts := by
    intro kind' hmem
    have hne := lookup_eq_none_iff.mp hnew _ hmem
    simp at hne
  have hfresh : partUri ∉ state.opened := h.fresh_of_kind hroot hunvisited
  have hdistinct : partUri ∉ state.visitedParts.map Prod.fst := by
    intro hmem
    obtain ⟨visited, hvisited, rfl⟩ := mem_map.mp hmem
    exact hunvisited visited.2 hvisited
  exact
    { nodup := by
        apply nodup_append.mpr
        refine ⟨h.nodup, nodup_singleton _, ?_⟩
        intro uri huri uri' huri'
        rw [mem_singleton.mp huri']
        exact fun heq => hfresh (heq ▸ huri)
      role := by
        intro uri huri
        rcases mem_append.mp huri with hold | hnew
        · exact (h.role uri hold).mono (Subset.refl _) (subset_append_left _ _)
        · rw [mem_singleton.mp hnew]
          exact .selected (mem_append_right _ (mem_singleton.mpr rfl)) hroot
      counted := by
        show (state.visitedParts ++ [(partUri, kind)]).length ≤ state.selectedParts + 1
        have hcounted := h.counted
        simp only [length_append, length_singleton]
        omega
      bounded := hlimit
      distinct := by
        show ((state.visitedParts ++ [(partUri, kind)]).map Prod.fst).Nodup
        rw [map_append, nodup_append]
        refine ⟨h.distinct, nodup_singleton _, ?_⟩
        intro uri huri uri' huri'
        rw [mem_singleton.mp huri']
        intro heq
        rw [heq] at huri
        exact hdistinct huri
      available := by
        intro visited hvisited
        rcases mem_append.mp hvisited with hold | hnew
        · exact h.available visited hold
        · rw [mem_singleton.mp hnew]
          exact hcontains
      kept := by
        show (state.parts ++ [(⟨partUri, kind, bytes⟩ : PackagePart)]).map _ =
          state.visitedParts ++ _
        rw [map_append, h.kept]
        rfl }

/-- The relationships of a part were opened. -/
theorem openRelationships {sourcePart : Text} (hroot : HasRoot R inventory partUri "Relationships")
    (huri : relationshipsPartUri sourcePart = .ok partUri) (hnew : sourcePart ∉ sources)
    (hlimit : state.selectedParts < maxSelectedXmlParts) (hstate : state' = { state with
      selectedUncompressed := selected
      selectedParts := state.selectedParts + 1
      opened := state.opened ++ [partUri] }) : state'.Sound inventory (sourcePart :: sources) := by
  have hfresh : partUri ∉ state.opened := h.fresh_of_relationships hroot huri hnew
  subst hstate
  exact
    { nodup := by
        apply nodup_append.mpr
        refine ⟨h.nodup, nodup_singleton _, ?_⟩
        intro uri hmem uri' hmem'
        rw [mem_singleton.mp hmem']
        exact fun heq => hfresh (heq ▸ hmem)
      role := by
        intro uri hmem
        rcases mem_append.mp hmem with hold | hnew
        · exact (h.role uri hold).mono (subset_cons_self _ _) (Subset.refl _)
        · rw [mem_singleton.mp hnew]
          exact .relationships mem_cons_self huri hroot
      counted := Nat.le_succ_of_le h.counted
      bounded := hlimit
      distinct := h.distinct
      available := h.available
      kept := h.kept }

end LoadState.Sound

lemma Selects.sound {sourcePart : Text} {kind : PackagePartKind} {wasNew : Bool}
    (h : Selects inventory sourcePart relationship kind state wasNew state')
    (hsound : state.Sound inventory sources) : state'.Sound inventory sources := by
  cases h with
  | unavailable | known => exact hsound.congr rfl rfl rfl rfl
  | @opened target _ _ _ _ hcontains hvisited hroot hlimit =>
    have hrecorded :
        (state.recordTarget sourcePart relationship.id kind target).Sound inventory sources :=
      hsound.congr rfl rfl rfl rfl
    exact hrecorded.keepPart hroot hcontains hlimit hvisited

lemma LoadState.enqueueTarget_eq (state : LoadState R) (sourcePart id : Text) :
    ∃ pending, state.enqueueTarget sourcePart id = { state with pending := pending } := by
  unfold LoadState.enqueueTarget
  split
  · exact ⟨_, rfl⟩
  · exact ⟨state.pending, rfl⟩

lemma LoadState.addLink_eq (state : LoadState R) (target : Text) :
    ∃ links, state.addLink target = { state with linksOut := links } ∧
      (∀ link ∈ state.linksOut, link ∈ links) ∧ target ∈ links := by
  unfold LoadState.addLink
  split
  next hmem => exact ⟨state.linksOut, rfl, fun _ h => h, hmem⟩
  next => exact ⟨_, rfl, fun _ h => mem_append_left _ h, by simp⟩

lemma RelationshipStep.sound {sourcePart : Text}
    (h : RelationshipStep inventory sourcePart relationship state state')
    (hsound : state.Sound inventory sources) : state'.Sound inventory sources := by
  cases h with
  | ignored => exact hsound
  | linked =>
    obtain ⟨links, hlinks, -⟩ := state.addLink_eq _
    rw [hlinks]
    exact hsound.congr rfl rfl rfl rfl
  | passedOver => exact hsound.congr rfl rfl rfl rfl
  | selected _ _ hselects => exact hselects.sound hsound
  | queued _ _ hselects =>
    obtain ⟨pending, hpending⟩ := LoadState.enqueueTarget_eq _ sourcePart relationship.id
    rw [hpending]
    exact (hselects.sound hsound).congr rfl rfl rfl rfl

end Kwiry.Docx
