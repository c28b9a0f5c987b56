import Kwiry.Plugin.CheckpointCursors

/-!
# Runs of Initial Builds
-/

namespace Kwiry.Plugin.Checkpoints

open Foundations List Option
open Cache (Json cursorKeys hasKeys safeIntegerOf stringOf key)

/-! ## §1 Paths -/

variable {path : Text} {plan : ReconciliationPlan} {upserts : List Text}

/-- The two notions of a normalized path are one: a path that ends in a slash has an empty last
component. -/
theorem relativePath_of_filePath (h : Cache.isNormalizedVaultFilePath path = true) :
    Vault.isNormalizedVaultRelativePath path = true := by
  obtain ⟨hne, hlength, hhead, hback, hzero, hall⟩ := of_decide_eq_true h
  have hpositive : 0 < Cache.utf16Len path := by
    cases path with
    | nil => exact absurd rfl hne
    | cons c rest =>
      have hunit : 0 < if c.toNat < 0x10000 then 1 else 2 := by split <;> decide
      rw [Cache.utf16Len, map_cons, sum_cons]
      omega
  have hbounded : Vault.isBoundedText path 4096 = true := decide_eq_true ⟨hpositive, hlength⟩
  have hend : path.getLast? ≠ some '/' := by
    intro hslash
    obtain ⟨front, rfl⟩ := getLast?_eq_some_iff.mp hslash
    have hempty : [] ∈ Cache.splitPath (front ++ ['/']) := by
      rw [Cache.splitPath, splitOnP_append_cons front [] (by simp)]
      simp
    simpa using all_eq_true.mp hall [] hempty
  exact decide_eq_true ⟨hbounded, hhead, hend, hback, hzero, hall⟩

/-! ## §2 Places -/

section

variable {represented : List Bool} {ordinals : List ℕ}

/-- The places of a batch become represented, the others stay as they are. -/
theorem getElem?_marked (ordinals : List ℕ) (represented : List Bool) (i : ℕ) :
    (ordinals.foldl (fun represented ordinal => represented.set ordinal true) represented)[i]? =
      if i ∈ ordinals ∧ i < represented.length then some true else represented[i]? := by
  induction ordinals generalizing represented with
  | nil => simp
  | cons ordinal rest ih =>
    rw [foldl_cons, ih, length_set, getElem?_set]
    by_cases hi : ordinal = i
    · subst hi
      by_cases hlt : ordinal < represented.length
      · simp [hlt]
      · simp [hlt]
    · have hne : i ≠ ordinal := fun h => hi h.symm
      simp [hi, hne]

lemma length_marked (ordinals : List ℕ) (represented : List Bool) :
    (ordinals.foldl (fun represented ordinal => represented.set ordinal true)
      represented).length = represented.length := by
  induction ordinals generalizing represented with
  | nil => rfl
  | cons ordinal rest ih => rw [foldl_cons, ih, length_set]

/-- Each new place is counted once. -/
theorem count_marked (hnodup : ordinals.Nodup)
    (hnew : ∀ ordinal ∈ ordinals, represented[ordinal]? = some false) :
    (ordinals.foldl (fun represented ordinal => represented.set ordinal true)
      represented).count true = represented.count true + ordinals.length := by
  induction ordinals generalizing represented with
  | nil => rfl
  | cons ordinal rest ih =>
    obtain ⟨hfresh, hrest⟩ := nodup_cons.mp hnodup
    have hordinal := hnew ordinal mem_cons_self
    obtain ⟨hlt, hfalse⟩ := List.getElem?_eq_some_iff.mp hordinal
    have hcount : (represented.set ordinal true).count true = represented.count true + 1 := by
      rw [count_set hlt, hfalse]
      simp
    rw [foldl_cons, ih hrest, hcount, length_cons]
    · omega
    · intro other hother
      have hne : ordinal ≠ other := fun h => hfresh (h ▸ hother)
      rw [getElem?_set_ne hne]
      exact hnew other (mem_cons_of_mem _ hother)

end

/-! ## §3 Progress -/

/-- The places that are represented are of acknowledged files and not fewer than the batches; the
beginning is of such places, and its path is the last one's. -/
structure InitialBuildProgress.Sound (acknowledged : List Text) (progress : InitialBuildProgress) :
    Prop where
  snapshot : ValidSnapshot progress.entries
  length : progress.represented.length = progress.entries.length
  represented : ∀ (i : ℕ) (path : Text), progress.represented[i]? = some true →
    progress.entries[i]? = some path → path ∈ acknowledged
  covered : ∀ i < progress.acknowledgedPrefixSources, progress.represented[i]? = some true
  batches : progress.acknowledgedAddBatches ≤ progress.represented.count true
  positive : true ∈ progress.represented → 0 < progress.acknowledgedAddBatches
  last : progress.lastAcknowledgedPath =
    lastPath progress.entries progress.acknowledgedPrefixSources

namespace InitialBuildProgress

variable {acknowledged acknowledged' : List Text} {progress : InitialBuildProgress}

lemma Sound.mono (h : progress.Sound acknowledged)
    (hsub : ∀ path ∈ acknowledged, path ∈ acknowledged') : progress.Sound acknowledged' where
  snapshot := h.snapshot
  length := h.length
  represented i path hi hpath := hsub path (h.represented i path hi hpath)
  covered := h.covered
  batches := h.batches
  positive := h.positive
  last := h.last

lemma Sound.covered_le (h : progress.Sound acknowledged) :
    progress.acknowledgedPrefixSources ≤ progress.entries.length := by
  rcases Nat.eq_zero_or_pos progress.acknowledgedPrefixSources with hzero | hpos
  · omega
  · have hlast := h.covered (progress.acknowledgedPrefixSources - 1) (by omega)
    obtain ⟨hlt, -⟩ := List.getElem?_eq_some_iff.mp hlast
    rw [h.length] at hlt
    omega

/-- The loop goes on while the next place is represented. -/
theorem covered_advance {represented : List Bool} {from_ : ℕ}
    (hcovered : ∀ i < from_, represented[i]? = some true) :
    ∀ i < from_ + ((represented.drop from_).takeWhile id).length, represented[i]? = some true := by
  intro i hi
  by_cases hlt : i < from_
  · exact hcovered i hlt
  · have htake : i - from_ < ((represented.drop from_).takeWhile id).length := by omega
    have htrue : ((represented.drop from_).takeWhile id)[i - from_] = true :=
      mem_takeWhile_imp (p := id) (getElem_mem htake)
    obtain ⟨rest, hrest⟩ := takeWhile_prefix id (l := represented.drop from_)
    have hget : (represented.drop from_)[i - from_]? = some true := by
      conv_lhs => rw [← hrest]
      rw [getElem?_append_left htake, getElem?_eq_getElem htake, htrue]
    rw [getElem?_drop] at hget
    rwa [show from_ + (i - from_) = i by omega] at hget

/-- A batch of files that were not represented keeps a progress sound. -/
theorem Sound.acknowledge (h : progress.Sound acknowledged) {batch : List Indexed}
    (hne : batch ≠ []) (hnodup : (batch.map Prod.snd).Nodup)
    (hbatch : ∀ entry ∈ batch, progress.represented[entry.2]? = some false ∧
      progress.entries[entry.2]? = some entry.1) :
    (progress.acknowledge (batch.map Prod.snd)).Sound (batch.map Prod.fst ++ acknowledged) := by
  have hnew : ∀ ordinal ∈ batch.map Prod.snd, progress.represented[ordinal]? = some false := by
    intro ordinal hordinal
    obtain ⟨entry, hentry, rfl⟩ := mem_map.mp hordinal
    exact (hbatch entry hentry).1
  have hlength : 0 < batch.length := length_pos_iff.mpr hne
  constructor
  · exact h.snapshot
  · exact (length_marked _ _).trans h.length
  · intro i path hi hpath
    have hi := (getElem?_marked (batch.map Prod.snd) progress.represented i).symm.trans hi
    split at hi
    · next hmem =>
      obtain ⟨entry, hentry, rfl⟩ := mem_map.mp hmem.1
      have heq : entry.1 = path := some.inj ((hbatch entry hentry).2.symm.trans hpath)
      exact mem_append_left _ (heq ▸ mem_map_of_mem hentry)
    · exact mem_append_right _ (h.represented i path hi hpath)
  · refine covered_advance fun i hi => ?_
    rw [getElem?_marked, h.covered i hi]
    split <;> rfl
  · show progress.acknowledgedAddBatches + 1 ≤ _
    rw [show (progress.acknowledge (batch.map Prod.snd)).represented.count true =
        progress.represented.count true + (batch.map Prod.snd).length from count_marked hnodup hnew,
      length_map]
    have hle := h.batches
    omega
  · intro _
    exact Nat.succ_pos _
  · rfl

lemma fresh_sound {entries : List Text} (h : ValidSnapshot entries) :
    (fresh entries).Sound acknowledged := by
  constructor
  · exact h
  · simp [fresh]
  · intro i path hi
    rw [fresh, map_const', getElem?_replicate] at hi
    split at hi <;> cases hi
  · intro i hi
    cases hi
  · exact Nat.zero_le _
  · intro hmem
    simp [fresh] at hmem
  · rfl

end InitialBuildProgress

section Rebase

variable (cursor : InitialBuildCheckpointCursor) (entries : List Text)

lemma representedPrefix_le : cursor.representedPrefix entries ≤ entries.length := by
  rw [InitialBuildCheckpointCursor.representedPrefix]
  cases hfind : entries.findIdx? _ with
  | none => exact Nat.le_refl _
  | some i =>
    obtain ⟨hlt, -⟩ := findIdx?_eq_some_iff_getElem.mp hfind
    exact hlt.le

/-- A file before the rebased place is not after the last path, so it was reconciled. -/
theorem mem_covers {i : ℕ} (hlast : cursor.lastAcknowledgedPath.isSome = true)
    (hi : i < cursor.representedPrefix entries) (hpath : entries[i]? = some path) :
    path ∈ cursor.covers entries := by
  obtain ⟨last, hlast⟩ := isSome_iff_exists.mp hlast
  obtain ⟨hlt, rfl⟩ := List.getElem?_eq_some_iff.mp hpath
  have hle : comparePaths entries[i] last ≠ .gt := by
    rw [InitialBuildCheckpointCursor.representedPrefix, hlast] at hi
    cases hfind : entries.findIdx? fun path => (some last).any fun last =>
        comparePaths path last = .gt with
    | none =>
      have hnone := findIdx?_eq_none_iff.mp hfind entries[i] (getElem_mem hlt)
      simpa using hnone
    | some j =>
      rw [hfind] at hi
      obtain ⟨hj, -, hbefore⟩ := findIdx?_eq_some_iff_getElem.mp hfind
      simpa using hbefore i hi
  rw [InitialBuildCheckpointCursor.covers, hlast]
  exact mem_filter.mpr ⟨getElem_mem hlt, by simpa using hle⟩

lemma rebase_represented : (cursor.rebase entries).represented =
    replicate (cursor.representedPrefix entries) true ++
      replicate (entries.length - cursor.representedPrefix entries) false := by
  have hle := representedPrefix_le cursor entries
  apply ext_getElem
  · simp only [InitialBuildCheckpointCursor.rebase, length_map, length_range,
      length_append, length_replicate]
    omega
  · intro i hi hi'
    simp only [InitialBuildCheckpointCursor.rebase, getElem_map, getElem_range,
      getElem_append, length_replicate, getElem_replicate]
    split <;> simp_all

/-- A resumption that reconciled its beginning makes a sound progress: the batches of the old
snapshot count at most one for each file. -/
theorem rebase_sound {acknowledged : List Text} (h : ValidSnapshot entries)
    (hbatches : 0 < cursor.acknowledgedAddBatches)
    (hlast : cursor.lastAcknowledgedPath.isSome = true)
    (hcovers : ∀ path ∈ cursor.covers entries, path ∈ acknowledged) :
    (cursor.rebase entries).Sound acknowledged := by
  have hle := representedPrefix_le cursor entries
  have hrepresented := rebase_represented cursor entries
  have htrue : ∀ i : ℕ, (cursor.rebase entries).represented[i]? = some true ↔
      i < cursor.representedPrefix entries := by
    intro i
    rw [hrepresented]
    constructor
    · intro hi
      by_contra hge
      rw [getElem?_append_right (by simpa using hge), getElem?_replicate] at hi
      split at hi <;> cases hi
    · intro hi
      rw [getElem?_append_left (by simpa using hi), getElem?_replicate, if_pos hi]
  constructor
  · exact h
  · rw [hrepresented, length_append, length_replicate, length_replicate]
    exact Nat.add_sub_cancel' hle
  · intro i path hi hpath
    exact hcovers path (mem_covers cursor entries hlast ((htrue i).mp hi) hpath)
  · exact fun i hi => (htrue i).mpr hi
  · rw [hrepresented, count_append, count_replicate_self, count_replicate]
    exact Nat.min_le_right _ _
  · intro hmem
    rw [hrepresented] at hmem
    have hpositive : cursor.representedPrefix entries ≠ 0 := by
      intro hzero
      simp [hzero] at hmem
    exact Nat.lt_min.mpr ⟨hbatches, Nat.pos_of_ne_zero hpositive⟩
  · rfl

end Rebase

/-! ## §4 Sending -/

namespace Adding

/-- The file that joins the next batch, while a batch awaits the Worker. -/
def pending (adding : Adding) : List Indexed :=
  match adding.flushing with
  | some (some (entry, _)) => [entry]
  | _ => []

/-- The files that have not been acknowledged, each at its place, once. -/
structure Sound (progress : InitialBuildProgress) (adding : Adding) : Prop where
  once : ((adding.batch ++ adding.pending ++ adding.remaining).map Prod.snd).Nodup
  places : ∀ entry ∈ adding.batch ++ adding.pending ++ adding.remaining,
    progress.represented[entry.2]? = some false ∧ progress.entries[entry.2]? = some entry.1
  nonempty : adding.flushing ≠ none → adding.batch ≠ []

variable {limits : Limits} {progress : InitialBuildProgress} {adding after : Adding}

lemma pending_of_idle (hidle : adding.flushing = none) : adding.pending = [] := by
  rw [pending, hidle]

/-- Files may be left out. -/
theorem Sound.sublist (h : adding.Sound progress)
    (hsub : (after.batch ++ after.pending ++ after.remaining).Sublist
      (adding.batch ++ adding.pending ++ adding.remaining))
    (hne : after.flushing ≠ none → after.batch ≠ []) : after.Sound progress where
  once := h.once.sublist (hsub.map _)
  places entry hentry := h.places entry (hsub.subset hentry)
  nonempty := hne

lemma Sound.flush_none (h : adding.Sound progress) (hidle : adding.flushing = none)
    (hne : adding.batch ≠ []) : (adding.flush none).Sound progress := by
  refine h.sublist ?_ fun _ => hne
  rw [pending_of_idle hidle]
  exact Sublist.refl _

lemma Sound.flushFull (h : adding.Sound progress) (hidle : adding.flushing = none) :
    (adding.flushFull limits).Sound progress := by
  rw [Adding.flushFull]
  split
  · next hfull => exact h.flush_none hidle hfull.2
  · exact h

/-- The file joins the batch at its end, before what is still to be read. -/
theorem push_sound {entry : Indexed} {bytes : ℕ} (hidle : adding.flushing = none)
    (honce : ((adding.batch ++ entry :: adding.remaining).map Prod.snd).Nodup)
    (hplaces : ∀ other ∈ adding.batch ++ entry :: adding.remaining,
      progress.represented[other.2]? = some false ∧ progress.entries[other.2]? = some other.1) :
    (adding.push limits entry bytes).Sound progress := by
  have hlist : adding.batch ++ [entry] ++ [] ++ adding.remaining =
      adding.batch ++ entry :: adding.remaining := by simp
  refine Sound.flushFull ?_ hidle
  constructor
  · rw [pending, hidle]
    rw [← hlist] at honce
    exact honce
  · rw [pending, hidle]
    rw [← hlist] at hplaces
    exact hplaces
  · exact fun hne => absurd hidle hne

lemma Sound.read (h : adding.Sound progress) (hidle : adding.flushing = none) {outcome : Outcome}
    (hread : adding.read limits outcome = some after) : after.Sound progress := by
  have honce := h.once
  have hplaces := h.places
  rw [pending_of_idle hidle, append_nil] at honce hplaces
  unfold Adding.read at hread
  cases hremaining : adding.remaining with
  | nil =>
    rw [hremaining] at hread
    cases hread
  | cons entry rest =>
    rw [hremaining] at hread honce hplaces
    have hskipped : Sound progress { adding with remaining := rest } := by
      refine h.sublist ?_ (fun hne => absurd hidle hne)
      rw [hremaining]
      exact (Sublist.refl _).append (sublist_cons_self _ _)
    cases outcome with
    | unreadable =>
      cases hread
      exact hskipped
    | touched | stale | missing =>
      cases hread
      exact hskipped.flushFull hidle
    | upsert bytes =>
      simp only at hread
      split at hread
      · cases hread
      split at hread
      · next hfull =>
        cases hread
        constructor
        · show ((adding.batch ++ [entry] ++ rest).map Prod.snd).Nodup
          simpa using honce
        · intro other hother
          have hother : other ∈ adding.batch ++ [entry] ++ rest := hother
          exact hplaces other (by simpa using hother)
        · exact fun _ => hfull.2
      · cases hread
        exact push_sound hidle honce hplaces

/-- What is left after a batch is acknowledged is still unrepresented. -/
theorem Sound.flushed (h : adding.Sound progress) {next : Option (Indexed × ℕ)}
    (hflushing : adding.flushing = some next) :
    (adding.flushed limits next).Sound (progress.acknowledge (adding.batch.map Prod.snd)) := by
  have honce := h.once
  rw [append_assoc, map_append] at honce
  obtain ⟨-, hrest, hdisjoint⟩ := nodup_append.mp honce
  have hplaces : ∀ entry ∈ adding.pending ++ adding.remaining,
      (progress.acknowledge (adding.batch.map Prod.snd)).represented[entry.2]? = some false ∧
        progress.entries[entry.2]? = some entry.1 := by
    intro entry hentry
    obtain ⟨hfalse, hpath⟩ := h.places entry (by
      rw [append_assoc]
      exact mem_append_right _ hentry)
    refine ⟨?_, hpath⟩
    have hother : entry.2 ∉ adding.batch.map Prod.snd := fun hmem =>
      hdisjoint _ hmem _ (mem_map_of_mem hentry) rfl
    exact (getElem?_marked _ _ _).trans ((if_neg fun hmem => hother hmem.1).trans hfalse)
  rw [pending, hflushing] at hrest hplaces
  cases next with
  | none =>
    constructor
    · exact hrest
    · exact hplaces
    · exact fun hne => absurd rfl hne
  | some entry => exact push_sound rfl hrest hplaces

lemma mem_zipIdx_places {entries : List Text} {entry : Indexed}
    (h : entry ∈ entries.zipIdx) : entries[entry.2]? = some entry.1 :=
  mk_mem_zipIdx_iff_getElem?.mp h

lemma fresh_start_sound (entries : List Text) :
    (start entries.zipIdx).Sound (.fresh entries) where
  once := by
    rw [show (start entries.zipIdx).batch ++ (start entries.zipIdx).pending ++
      (start entries.zipIdx).remaining = entries.zipIdx from rfl, zipIdx_map_snd]
    exact nodup_range'
  places entry hentry := by
    have hpath := mem_zipIdx_places hentry
    obtain ⟨hlt, -⟩ := List.getElem?_eq_some_iff.mp hpath
    refine ⟨?_, hpath⟩
    simp [InitialBuildProgress.fresh, hlt]
  nonempty hne := absurd rfl hne

/-- A resumed build sends the files from the rebased place on. -/
theorem start_sound (cursor : InitialBuildCheckpointCursor) (entries : List Text) :
    (start (entries.zipIdx.filter fun entry =>
      cursor.representedPrefix entries ≤ entry.2)).Sound (cursor.rebase entries) where
  once := by
    refine Nodup.sublist ((filter_sublist (l := entries.zipIdx)).map Prod.snd) ?_
    rw [zipIdx_map_snd]
    exact nodup_range'
  places entry hentry := by
    obtain ⟨hmem, hfrom⟩ := mem_filter.mp hentry
    have hpath := mem_zipIdx_places hmem
    obtain ⟨hlt, -⟩ := List.getElem?_eq_some_iff.mp hpath
    have hfrom : ¬ entry.2 < cursor.representedPrefix entries :=
      Nat.not_lt.mpr (of_decide_eq_true hfrom)
    refine ⟨?_, hpath⟩
    simp [InitialBuildCheckpointCursor.rebase, hlt, hfrom]
  nonempty hne := absurd rfl hne

end Adding

/-! ## §5 Resuming -/

variable {probe : Text → Probe}

lemma verifyEntry_refresh (h : verifyEntry plan probe path = some upserts)
    (hrefresh : path ∈ plan.refresh) (haudit : path ∉ plan.audit.map Prod.fst) :
    path ∈ upserts := by
  rw [verifyEntry, if_neg fun hnone => hnone.1 hrefresh] at h
  have hlookup : plan.audit.lookup path = none := by
    rw [lookup_eq_none_iff]
    intro entry hentry
    have hne : path ≠ entry.1 := fun heq => haudit (heq ▸ mem_map_of_mem hentry)
    simpa using hne
  split at h
  · cases h
  · cases h
  · rw [hlookup, if_neg (by simp)] at h
    split at h
    · cases h
      exact mem_singleton_self path
    · cases h

lemma exists_of_mapM_some {A B : Type} {f : A → Option B} {items : List A} {results : List B}
    (h : items.mapM f = some results) {item : A} (hitem : item ∈ items) :
    ∃ result ∈ results, f item = some result := by
  induction items generalizing results with
  | nil => cases hitem
  | cons first rest ih =>
    rw [mapM_cons] at h
    obtain ⟨head, hhead, h⟩ := bind_eq_some_iff.mp h
    obtain ⟨tail, htail, h⟩ := bind_eq_some_iff.mp h
    cases h
    rcases mem_cons.mp hitem with rfl | hrest
    · exact ⟨head, mem_cons_self, hhead⟩
    · obtain ⟨result, hresult, hitem⟩ := ih htail hrest
      exact ⟨result, mem_cons_of_mem _ hresult, hitem⟩

variable {removals : List Text}

/-- What is to be refreshed and has no row to be audited is sent again. -/
theorem mem_upserts_of_verify {beginning : List Text}
    (h : verify plan probe beginning = some (upserts, removals)) (hpath : path ∈ beginning)
    (hrefresh : path ∈ plan.refresh) (haudit : path ∉ plan.audit.map Prod.fst) :
    path ∈ upserts := by
  obtain ⟨sent, hsent, h⟩ := bind_eq_some_iff.mp h
  obtain ⟨removed, -, h⟩ := bind_eq_some_iff.mp h
  cases h
  apply mem_append_left
  obtain ⟨part, hpart, hentry⟩ := exists_of_mapM_some hsent hpath
  exact mem_flatten.mpr ⟨part, hpart, verifyEntry_refresh hentry hrefresh haudit⟩

/-- What a complete plan says of a file of the snapshot. -/
theorem complete_cases {entries : List Text}
    (h : assertCompleteReconciliationPlan plan entries = true) (hpath : path ∈ entries) :
    path ∈ plan.unchanged ++ plan.audit.map Prod.fst ∨
      path ∈ plan.refresh ∧ path ∉ plan.audit.map Prod.fst := by
  obtain ⟨-, honce, -, -, hcovered, -⟩ := of_decide_eq_true h
  rcases hcovered path hpath with hunchanged | haudit | hrefresh
  · exact .inl (mem_append_left _ hunchanged)
  · exact .inl (mem_append_right _ haudit)
  · refine .inr ⟨hrefresh, fun haudit => ?_⟩
    have hplanned := (nodup_append.mp honce).1
    obtain ⟨-, -, hdisjoint⟩ := nodup_append.mp hplanned
    exact hdisjoint path (mem_append_right _ haudit) path hrefresh rfl

/-- What holds at a stage of a resumption. -/
def Resuming.Sound (acknowledged : List Text) (cursor : InitialBuildCheckpointCursor) :
    Resuming → Prop
  | .capturing => True
  | .planning entries => ValidSnapshot entries
  | .verifying entries plan =>
    ValidSnapshot entries ∧ assertCompleteReconciliationPlan plan entries = true ∧
      ∀ path ∈ plan.unchanged ++ plan.audit.map Prod.fst, path ∈ acknowledged
  | .applying entries upserts _ work =>
    ValidSnapshot entries ∧
      ∀ path ∈ cursor.covers entries, path ∈ acknowledged ∨ path ∈ upserts ∧ path ∈ work

lemma covers_subset {cursor : InitialBuildCheckpointCursor} {entries : List Text}
    (h : path ∈ cursor.covers entries) : path ∈ entries := by
  rw [InitialBuildCheckpointCursor.covers] at h
  split at h
  · cases h
  · exact (mem_filter.mp h).1

/-- Every file of the beginning has a row that was acknowledged, or is sent again. -/
theorem Resuming.Sound.verified {acknowledged : List Text} {cursor : InitialBuildCheckpointCursor}
    {entries : List Text} (h : Resuming.Sound acknowledged cursor (.verifying entries plan))
    (hverify : verify plan probe (cursor.covers entries) = some (upserts, removals)) :
    Resuming.Sound acknowledged cursor
      (.applying entries upserts removals (sortBy comparePaths (upserts ++ removals).dedup)) := by
  obtain ⟨hsnapshot, hcomplete, hacknowledged⟩ := h
  refine ⟨hsnapshot, fun path hpath => ?_⟩
  rcases complete_cases hcomplete (covers_subset hpath) with hplanned | ⟨hrefresh, haudit⟩
  · exact .inl (hacknowledged path hplanned)
  · have hupsert := mem_upserts_of_verify hverify hpath hrefresh haudit
    refine .inr ⟨hupsert, ?_⟩
    rw [mem_sortBy, mem_dedup]
    exact mem_append_left _ hupsert

lemma Resuming.Sound.applied {acknowledged : List Text} {cursor : InitialBuildCheckpointCursor}
    {entries work : List Text}
    (h : Resuming.Sound acknowledged cursor (.applying entries upserts removals (path :: work))) :
    Resuming.Sound ([path].filter (· ∈ upserts) ++ acknowledged) cursor
      (.applying entries upserts removals work) := by
  refine ⟨h.1, fun other hother => ?_⟩
  rcases h.2 other hother with hacknowledged | ⟨hupsert, hwork⟩
  · exact .inl (mem_append_right _ hacknowledged)
  · rcases mem_cons.mp hwork with rfl | hwork
    · apply Or.inl
      apply mem_append_left
      exact mem_filter.mpr ⟨mem_singleton_self other, decide_eq_true hupsert⟩
    · exact .inr ⟨hupsert, hwork⟩

/-- The plans of the Worker are such as the events of a run allow: a file is left as it is, or to be
audited, for a row of its path only. -/
theorem planReconciliation_plansFrom {R C : Type} {build : IndexBuild (SourceMetadata R) C}
    {index : GenerationIndex (SourceMetadata R) C} {vaultId : Text}
    {current : List ReconciliationSourceMetadata}
    (hdistinct : (current.map ReconciliationSourceMetadata.path).Nodup)
    (h : planReconciliation build index vaultId current = .ok plan) :
    PlansFrom ((vaultRows index.tables vaultId).map StoredSource.path) plan := by
  have hpartitions := planReconciliation_partitions hdistinct h
  intro path hpath
  have hcurrent := hpartitions.once.subset (mem_append_left plan.refresh hpath)
  obtain ⟨source, hsource, rfl⟩ := mem_map.mp hcurrent
  obtain ⟨row, hrow, hsame, -⟩ := hpartitions.settled source hsource hpath
  exact mem_map.mpr ⟨row, hrow, hsame⟩

/-! ## §6 Builds -/

/-- A build resumes from the last path of a cursor, after a batch at least. -/
def InitialBuildCheckpointCursor.Resumable (cursor : InitialBuildCheckpointCursor) : Prop :=
  0 < cursor.acknowledgedAddBatches ∧ cursor.lastAcknowledgedPath.isSome = true

def Phase.Sound (acknowledged : List Text) (progress : Option InitialBuildProgress) :
    Phase → Prop
  | .resuming cursor stage => cursor.Resumable ∧ stage.Sound acknowledged cursor
  | .adding loop => ∃ current, progress = some current ∧ loop.Sound current
  | _ => True

namespace InitialBuild

structure Invariant (build : InitialBuild) : Prop where
  staged : ∀ path ∈ build.staged, path ∈ build.acknowledged
  progress : ∀ progress, build.progress = some progress → progress.Sound build.acknowledged
  phase : build.phase.Sound build.acknowledged build.progress
  checkpoints : ∀ saved ∈ build.checkpoints,
    (∀ path ∈ saved.staged, path ∈ saved.acknowledged) ∧ saved.cursor.Resumable

variable {limits : Limits} {build after : InitialBuild}

lemma initial_invariant : initial.Invariant where
  staged _ hpath := by cases hpath
  progress _ hprogress := by cases hprogress
  phase := trivial
  checkpoints _ hsaved := by cases hsaved

lemma persistInitialBuildCheckpoint_eq {cursor : InitialBuildCheckpointCursor}
    (h : build.persistInitialBuildCheckpoint = some cursor) : ∃ progress,
    build.progress = some progress ∧ 0 < progress.acknowledgedPrefixSources ∧
      cursor = ⟨progress.entries.length, progress.acknowledgedAddBatches,
        progress.acknowledgedPrefixSources, progress.lastAcknowledgedPath⟩ := by
  rw [persistInitialBuildCheckpoint] at h
  split at h
  · cases h
  · next progress hprogress =>
    obtain ⟨hpositive, h⟩ := ite_none_left_eq_some.mp h
    exact ⟨progress, hprogress, Nat.pos_of_ne_zero hpositive, (Option.some.inj h).symm⟩

section

variable (h : build.Invariant)

include h

lemma Invariant.ended : build.ended.Invariant where
  staged _ hpath := by cases hpath
  progress _ hprogress := by cases hprogress
  phase := trivial
  checkpoints := h.checkpoints

variable {phase : Phase}

lemma Invariant.enter {progress : Option InitialBuildProgress}
    (hprogress : ∀ current, progress = some current → current.Sound build.acknowledged)
    (hphase : phase.Sound build.acknowledged progress) :
    (build.enter progress phase).Invariant where
  staged := h.staged
  progress := hprogress
  phase := hphase
  checkpoints := h.checkpoints

lemma Invariant.enter_none (hphase : phase.Sound build.acknowledged none) :
    (build.enter none phase).Invariant :=
  h.enter (fun _ hnone => by cases hnone) hphase

lemma staged_apply (upserts removals : List Text) :
    ∀ path ∈ (build.apply upserts removals).staged,
      path ∈ (build.apply upserts removals).acknowledged := by
  intro path hpath
  rcases mem_append.mp hpath with hupsert | hkept
  · exact mem_append_left _ hupsert
  · exact mem_append_right _ (h.staged path (mem_filter.mp hkept).1)

/-- Rows are changed, and the build goes on with what it has. -/
theorem Invariant.apply_enter {progress : Option InitialBuildProgress}
    (hprogress : ∀ current, progress = some current → current.Sound (upserts ++ build.acknowledged))
    (hphase : phase.Sound (upserts ++ build.acknowledged) progress) :
    ((build.apply upserts removals).enter progress phase).Invariant where
  staged := staged_apply h upserts removals
  progress := hprogress
  phase := hphase
  checkpoints := h.checkpoints

variable {event : Event}

lemma Invariant.resumeStep {cursor : InitialBuildCheckpointCursor} {stage : Resuming}
    (hphase : build.phase = .resuming cursor stage)
    (hstep : build.resumeStep cursor stage event = some after) : after.Invariant := by
  have hsound := h.phase
  rw [hphase] at hsound
  obtain ⟨hresumable, hstage⟩ := hsound
  cases event with
  | capture entries =>
    obtain ⟨hsnapshot, hstep⟩ := ite_none_right_eq_some.mp hstep
    cases hstep
    exact h.enter_none ⟨hresumable, hsnapshot⟩
  | planned plan =>
    cases stage with
    | planning entries =>
      obtain ⟨hplans, hstep⟩ := ite_none_right_eq_some.mp hstep
      split at hstep
      · next hcomplete =>
        cases hstep
        exact h.enter_none ⟨hresumable, hstage, hcomplete,
          fun path hpath => h.staged path (hplans path hpath)⟩
      · cases hstep
        exact h.enter_none trivial
    | capturing | verifying entries plan | applying entries upserts removals work => cases hstep
  | verified probe =>
    cases stage with
    | verifying entries plan =>
      simp only [InitialBuild.resumeStep] at hstep
      split at hstep
      · cases hstep
        exact h.enter_none trivial
      · next hverify =>
        cases hstep
        exact h.enter_none ⟨hresumable, hstage.verified hverify⟩
    | capturing | planning entries | applying entries upserts removals work => cases hstep
  | applied =>
    cases stage with
    | applying entries upserts removals work =>
      cases work with
      | nil => cases hstep
      | cons path work =>
        cases hstep
        exact h.apply_enter (fun _ hnone => by cases hnone) ⟨hresumable, hstage.applied⟩
    | capturing | planning entries | verifying entries plan => cases hstep
  | rebased =>
    cases stage with
    | applying entries upserts removals work =>
      cases work with
      | nil =>
        cases hstep
        obtain ⟨hsnapshot, hcovers⟩ := hstage
        have hrebase := rebase_sound cursor entries hsnapshot hresumable.1 hresumable.2
          fun path hpath => (hcovers path hpath).resolve_right fun hwork => by cases hwork.2
        refine h.enter (fun _ hsome => some.inj hsome ▸ hrebase) ⟨_, rfl, ?_⟩
        exact Adding.start_sound cursor entries
      | cons path work => cases hstep
    | capturing | planning entries | verifying entries plan => cases hstep
  | begin | resume | read | flush | flushed | added | replayed | failed | persisted | ended =>
    cases hstep

lemma Invariant.addStep {progress : InitialBuildProgress} {adding : Adding}
    (hprogress : build.progress = some progress) (hphase : build.phase = .adding adding)
    (hstep : build.addStep limits progress adding event = some after) : after.Invariant := by
  have hsound := h.progress progress hprogress
  have hkept : ∀ current, some progress = some current → current.Sound build.acknowledged :=
    fun _ hsome => some.inj hsome ▸ hsound
  have hadding : adding.Sound progress := by
    have hphase' := h.phase
    rw [hphase, hprogress] at hphase'
    obtain ⟨current, hcurrent, hadding⟩ := hphase'
    exact some.inj hcurrent ▸ hadding
  cases event with
  | read outcome =>
    obtain ⟨hguard, hstep⟩ := ite_none_right_eq_some.mp hstep
    split at hstep
    · cases hstep
      exact h.enter hkept trivial
    · next hread =>
      cases hstep
      exact h.enter hkept ⟨progress, rfl, hadding.read hguard.1 hread⟩
  | flush =>
    obtain ⟨hguard, hstep⟩ := ite_none_right_eq_some.mp hstep
    cases hstep
    exact h.enter hkept ⟨progress, rfl, hadding.flush_none hguard.1 hguard.2⟩
  | flushed =>
    simp only [InitialBuild.addStep] at hstep
    split at hstep
    · cases hstep
    · next next hflushing =>
      cases hstep
      have honce := hadding.once
      rw [append_assoc, map_append] at honce
      have hacknowledged := hsound.acknowledge
        (hadding.nonempty fun hnone => by rw [hnone] at hflushing; cases hflushing)
        (nodup_append.mp honce).1
        fun entry hentry => hadding.places entry (by simp [hentry])
      exact h.apply_enter (fun _ hsome => some.inj hsome ▸ hacknowledged)
        ⟨_, rfl, hadding.flushed hflushing⟩
  | added =>
    obtain ⟨-, hstep⟩ := ite_none_right_eq_some.mp hstep
    cases hstep
    exact h.enter hkept trivial
  | begin | resume | capture | planned | verified | applied | rebased | replayed | failed
  | persisted | ended => cases hstep

lemma Invariant.resumable {cursor : InitialBuildCheckpointCursor}
    (hcursor : build.persistInitialBuildCheckpoint = some cursor) : cursor.Resumable := by
  obtain ⟨progress, hprogress, hpositive, rfl⟩ := persistInitialBuildCheckpoint_eq hcursor
  have hsound := h.progress progress hprogress
  have hle := hsound.covered_le
  constructor
  · exact hsound.positive (mem_of_getElem? (hsound.covered 0 hpositive))
  · show progress.lastAcknowledgedPath.isSome = true
    rw [hsound.last, lastPath, if_pos hpositive,
      getElem?_eq_getElem (show progress.acknowledgedPrefixSources - 1 <
        progress.entries.length by omega)]
    rfl

lemma Invariant.step (hstep : build.step limits event = some after) : after.Invariant := by
  unfold InitialBuild.step at hstep
  split at hstep
  · cases hstep
    exact h.ended
  · -- a failure keeps the progress, and with it the last cursor
    split at hstep
    · cases hstep
    · cases hstep
      exact h.enter h.progress trivial
  · split at hstep
    · obtain ⟨cursor, hcursor, rfl⟩ := map_eq_some_iff.mp hstep
      refine ⟨h.staged, h.progress, h.phase, fun saved hsaved => ?_⟩
      rcases mem_append.mp hsaved with hbefore | hnew
      · exact h.checkpoints saved hbefore
      · cases mem_singleton.mp hnew
        exact ⟨h.staged, h.resumable hcursor⟩
    · cases hstep
  · split at hstep
    · split at hstep
      · obtain ⟨hsnapshot, hstep⟩ := ite_none_right_eq_some.mp hstep
        cases hstep
        exact h.ended.enter
          (fun _ hsome => some.inj hsome ▸ InitialBuildProgress.fresh_sound hsnapshot)
          ⟨_, rfl, Adding.fresh_start_sound _⟩
      · obtain ⟨saved, hsaved, rfl⟩ := map_eq_some_iff.mp hstep
        obtain ⟨hstaged, hresumable⟩ := h.checkpoints saved (mem_of_getElem? hsaved)
        constructor
        · intro path hpath
          exact hstaged path (mem_filter.mp hpath).1
        · intro _ hnone
          cases hnone
        · exact ⟨hresumable, trivial⟩
        · exact h.checkpoints
      · cases hstep
    · next hphase => exact h.resumeStep hphase hstep
    · next hphase =>
      obtain ⟨progress, hprogress, hstep⟩ := bind_eq_some_iff.mp hstep
      exact h.addStep hprogress hphase hstep
    · next hphase =>
      split at hstep
      · cases hstep
        refine ⟨staged_apply h _ _, fun progress hprogress => ?_, ?_, h.checkpoints⟩
        · exact (h.progress progress hprogress).mono fun _ => mem_append_right _
        · show build.phase.Sound _ _
          rw [hphase]
          trivial
      · cases hstep
    · cases hstep

end

/-! ## §7 Cursors -/

/-- The fields of a record are read as they were written. -/
theorem validators_toJson {cursor : InitialBuildCheckpointCursor} {last : Text}
    (hlast : cursor.lastAcknowledgedPath = some last)
    (hcount : cursor.snapshotSourceCount ≤ Cache.maxReconciliationSources)
    (hbatches : cursor.acknowledgedAddBatches ≤ cursor.snapshotSourceCount)
    (hsources : cursor.acknowledgedPrefixSources ≤ cursor.snapshotSourceCount)
    (hpositive : 0 < cursor.acknowledgedAddBatches)
    (hbeginning : 0 < cursor.acknowledgedPrefixSources)
    (hnormalized : Cache.isNormalizedVaultFilePath last = true) :
    Cache.isInitialBuildCheckpointCursor cursor.toJson = true ∧
      isInitialBuildCheckpointCursor cursor.toJson = true := by
  obtain ⟨count, batches, sources, path⟩ := cursor
  simp only at hlast hcount hbatches hsources hpositive hbeginning
  subst hlast
  have hsafe : ∀ n ≤ count, safeIntegerOf (some (.natural n)) = some n := fun n hn =>
    if_pos (hn.trans (hcount.trans (by decide)))
  have hlookups :
      let fields := [(key "snapshot_source_count", Json.natural count),
        (key "acknowledged_add_batches", .natural batches),
        (key "acknowledged_prefix_sources", .natural sources),
        (key "last_acknowledged_path", .string last)]
      hasKeys cursorKeys fields = true ∧
        safeIntegerOf (fields.lookup (key "snapshot_source_count")) = some count ∧
        safeIntegerOf (fields.lookup (key "acknowledged_add_batches")) = some batches ∧
        safeIntegerOf (fields.lookup (key "acknowledged_prefix_sources")) = some sources ∧
        fields.lookup (key "last_acknowledged_path") = some (.string last) :=
    ⟨rfl, hsafe count (Nat.le_refl _), hsafe batches hbatches, hsafe sources hsources, rfl⟩
  obtain ⟨hkeys, hcount', hbatches', hsources', hpath⟩ := hlookups
  constructor
  · rw [InitialBuildCheckpointCursor.toJson, Cache.isInitialBuildCheckpointCursor]
    simp only [map_some, getD_some, hkeys, hcount', hbatches', hsources', hpath,
      Cache.cursorPathOk, if_neg hbeginning.ne', stringOf]
    simp [hcount, hbatches, hsources, hpositive, hnormalized]
  · rw [InitialBuildCheckpointCursor.toJson, isInitialBuildCheckpointCursor]
    simp only [map_some, getD_some, hkeys, hcount', hbatches', hsources', hpath,
      isLastPath, if_neg hbeginning.ne', stringOf]
    simp [hcount, hbatches, hsources, hpositive, relativePath_of_filePath hnormalized]

lemma Invariant.cursor_sound (h : build.Invariant) {cursor : InitialBuildCheckpointCursor}
    (hcursor : build.persistInitialBuildCheckpoint = some cursor) : CursorSound build cursor := by
  have hresumable := h.resumable hcursor
  obtain ⟨progress, hprogress, hpositive, rfl⟩ := persistInitialBuildCheckpoint_eq hcursor
  have hsound := h.progress progress hprogress
  have hle := hsound.covered_le
  obtain ⟨last, hlast⟩ := isSome_iff_exists.mp hresumable.2
  have hlast' : progress.entries[progress.acknowledgedPrefixSources - 1]? = some last := by
    rw [← hlast, show progress.lastAcknowledgedPath = _ from hsound.last, lastPath,
      if_pos hpositive]
  have hvalid := validators_toJson hlast hsound.snapshot.length
    (hsound.batches.trans (count_le_length.trans hsound.length.le)) hle hresumable.1
    hpositive (hsound.snapshot.normalized last (mem_of_getElem? hlast'))
  refine ⟨hvalid.1, hvalid.2, progress, hprogress, hle, fun path hpath => ?_, ?_⟩
  · obtain ⟨i, hi⟩ := mem_iff_getElem?.mp hpath
    obtain ⟨hlt, -⟩ := List.getElem?_eq_some_iff.mp hi
    have hcovered : i < progress.acknowledgedPrefixSources :=
      hlt.trans_le (length_take_le _ _)
    rw [getElem?_take_of_lt hcovered] at hi
    exact hsound.represented i path (hsound.covered i hcovered) hi
  · rw [hlast, getLast?_eq_getElem?, length_take, Nat.min_eq_left hle,
      getElem?_take_of_lt (Nat.sub_lt hpositive Nat.one_pos), hlast']

end InitialBuild

/-- The cursors of every run are sound: of new builds and of resumed ones, with every order in which
files are read, skipped and acknowledged. -/
theorem cursors_sound (limits : Limits) (events : List Event) (build : InitialBuild)
    (hrun : runEvents (InitialBuild.step limits) .initial events = some build)
    (cursor : InitialBuildCheckpointCursor)
    (hcursor : build.persistInitialBuildCheckpoint = some cursor) : CursorSound build cursor := by
  have hinvariant : build.Invariant :=
    runEvents_kept (fun _ _ _ h hstep => h.step hstep) InitialBuild.initial_invariant hrun
  exact hinvariant.cursor_sound hcursor

/-- A build that has sent the first of two files, and the build that resumes from it. -/
def resumedEvents : List Event :=
  [.begin ["a.md".toList, "b.md".toList], .read (.upsert 3), .flushed, .persisted, .ended,
    .resume 0 fun _ => false, .capture ["a.md".toList, "b.md".toList],
    .planned
      { unchanged := ["a.md".toList], audit := [], refresh := ["b.md".toList], remove := []
        storedSourceCount := 1, matchedSourceCount := 1 },
    .verified fun _ => .missing, .rebased]

theorem cursors_sound_resumed :
    ∃ build cursor,
      runEvents (InitialBuild.step ⟨1, 10⟩) .initial resumedEvents = some build ∧
      build.persistInitialBuildCheckpoint = some cursor ∧ CursorSound build cursor :=
  ⟨_, _, rfl, rfl, cursors_sound ⟨1, 10⟩ resumedEvents _ rfl _ rfl⟩

end Kwiry.Plugin.Checkpoints
