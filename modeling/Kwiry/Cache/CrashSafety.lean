import Kwiry.Cache.LocalStore

/-!
# Crash Safety of the Cache Store

A put writes its image, makes it durable under its name, and only then lets the pointer name it.
The name of a complete generation's image is its id alone, so a put under the id that is served
replaces the served image before the pointer; a checkpoint's image is named by its digest too.
-/

namespace Kwiry.Cache

open Foundations Foundations.Program List

/-! ## §1 What a path shows -/

/-- A node that stands at a path, or is durable there. -/
def Disk.Shows (s : Disk) (path : CachePath) (node : Option Node) : Prop :=
  s.get path = node ∨ s.durable path = node

/-- A step that leaves some paths as they are, or makes them durable. -/
structure Calm (P : CachePath → Prop) (s t : Disk) : Prop where
  get : ∀ path, P path → t.get path = s.get path
  shows : ∀ path, P path → ∀ node, t.Shows path node → s.Shows path node
  foreign : t.foreign = s.foreign

lemma Calm.refl (P : CachePath → Prop) (s : Disk) : Calm P s s :=
  ⟨fun _ _ => rfl, fun _ _ _ h => h, rfl⟩

variable {P : CachePath → Prop}

lemma calm_of_eq {s t : Disk} (hget : ∀ path, P path → t.get path = s.get path)
    (hdurable : t.durable = s.durable) (hforeign : t.foreign = s.foreign) : Calm P s t := by
  refine ⟨hget, fun path hpath node hshows => ?_, hforeign⟩
  rw [Disk.Shows, hget path hpath, hdurable] at hshows
  exact hshows

variable {path : CachePath} {synced : Bool}

lemma calm_set (h : ¬ P path) (s : Disk) (node : Node) : Calm P s (s.set path node) := by
  refine calm_of_eq (fun other hother => s.get_set_ne node ?_) rfl rfl
  rintro rfl
  exact h hother

lemma calm_remove (h : ¬ P path) (s : Disk) : Calm P s (s.remove path) := by
  refine calm_of_eq (fun other hother => s.get_remove_ne ?_) rfl rfl
  rintro rfl
  exact h hother

lemma calm_removeAll {directory : Directory} (h : ∀ path, P path → path.directory ≠ directory)
    (s : Disk) : Calm P s (s.removeAll directory) := by
  obtain ⟨hdurable, hforeign, -, -⟩ := Disk.foldl_remove
    (s.entries.keys.filter (·.directory = directory)) s
  exact calm_of_eq (fun path hpath => s.get_removeAll_ne (h path hpath)) hdurable hforeign

lemma calm_flush (s : Disk) (directory : Directory) : Calm P s (s.flush directory) := by
  refine ⟨fun _ _ => rfl, fun path _ node hshows => ?_, rfl⟩
  rcases hshows with hget | hdurable
  · exact .inl hget
  · change (if path.directory = directory then s.get path else s.durable path) = node at hdurable
    split at hdurable
    · exact .inl hdurable
    · exact .inr hdurable

/-- Calls that leave some paths alone. -/
def Spares (P : CachePath → Prop) : FsCall → Prop
  | .openNew path | .write path _ | .syncFile path | .unlink path => ¬ P path
  | .rename source target => ¬ P source ∧ ¬ P target
  | .removeTree directory => ∀ path, P path → path.directory ≠ directory
  | .owned _ | .chmod _ | .lstat _ | .read _ _ | .readdir _ | .syncDirectory _ | .acquireLock
  | .releaseLock => True

lemma calm_exec {c : FsCall} (h : Spares P c) (window : ℕ) (fault : Bool) (s : Disk) :
    Calm P s (s.exec window fault c).2 := by
  cases c with
  | owned | chmod | readdir => exact Calm.refl P s
  | lstat path =>
    simp only [Disk.exec]
    split
    · exact Calm.refl P s
    · split <;> exact Calm.refl P s
  | read path limit =>
    simp only [Disk.exec]
    split
    · split <;> exact Calm.refl P s
    · exact Calm.refl P s
    · exact Calm.refl P s
  | openNew path | write path bytes =>
    simp only [Disk.exec]
    split
    · exact Calm.refl P s
    · exact calm_set h s _
  | syncFile path =>
    simp only [Disk.exec]
    split
    · split
      · exact Calm.refl P s
      · exact calm_set h s _
    · exact Calm.refl P s
  | syncDirectory directory => exact calm_flush s directory
  | rename source target =>
    simp only [Disk.exec]
    split
    · exact Calm.refl P s
    · split
      · exact Calm.refl P s
      · refine calm_of_eq (fun path hpath => ?_) rfl rfl
        have htarget : path ≠ target := by
          rintro rfl
          exact h.2 hpath
        have hsource : path ≠ source := by
          rintro rfl
          exact h.1 hpath
        rw [Disk.get_set_ne _ _ htarget, Disk.get_remove_ne _ hsource]
  | unlink path =>
    simp only [Disk.exec]
    split
    · exact Calm.refl P s
    · split
      · exact Calm.refl P s
      · exact calm_remove h s
  | removeTree directory =>
    simp only [Disk.exec]
    split
    · exact Calm.refl P s
    · exact calm_removeAll h s
  | acquireLock | releaseLock =>
    simp only [Disk.exec]
    split
    · exact Calm.refl P s
    · exact ⟨fun _ _ => rfl, fun _ _ _ h => h, rfl⟩

/-! ## §2 What a commit replaces -/

/-- The pointer and the image at rest before a commit. -/
structure Resting where
  imagePath : CachePath
  (bytes encoded : Bytes)

variable (old : Resting) (new : Commit)

/-- The image of the old pointer: as it was, or replaced under the same name. -/
def OldImage (node : Option Node) : Prop :=
  node = some (.file old.bytes true) ∨
    new.imagePath = old.imagePath ∧ node = some (.file new.bytes true)

/-- Whatever pointer shows, the image that it names is in place. -/
def Sound (s : Disk) : Prop :=
  ∀ node, s.Shows new.pointerPath node →
    node = some (.file old.encoded true) ∧ (∀ v, s.Shows old.imagePath v → OldImage old new v) ∨
    node = some (.file new.encoded true) ∧ new.encoded.length ≤ maxPointerBytes ∧
      ∀ v, s.Shows new.imagePath v → v = some (.file new.bytes true)

/-- Before the pointer is renamed. -/
structure Pending (s : Disk) : Prop where
  pointer : ∀ node, s.Shows new.pointerPath node → node = some (.file old.encoded true)
  image : ∀ v, s.Shows old.imagePath v → OldImage old new v

/-- The image is durable under its name. -/
structure Placed (s : Disk) : Prop extends Pending old new s where
  placed : ∀ v, s.Shows new.imagePath v → v = some (.file new.bytes true)

/-- After the directory of the pointer is synced. -/
structure Settled (s : Disk) : Prop where
  pointer : ∀ node, s.Shows new.pointerPath node → node = some (.file new.encoded true)
  small : new.encoded.length ≤ maxPointerBytes
  image : ∀ v, s.Shows new.imagePath v → v = some (.file new.bytes true)

/-- The paths that a crash is judged by. -/
def Judged (path : CachePath) : Prop :=
  path = new.pointerPath ∨ path = old.imagePath ∨ path = new.imagePath

variable {old new}

lemma Pending.sound {s : Disk} (h : Pending old new s) : Sound old new s :=
  fun node hnode => .inl ⟨h.pointer node hnode, h.image⟩

lemma Settled.sound {s : Disk} (h : Settled new s) : Sound old new s :=
  fun node hnode => .inr ⟨h.pointer node hnode, h.small, h.image⟩

section Calm

variable {s t : Disk}

lemma Pending.calm (h : Pending old new s)
    (hcalm : Calm (fun path => path = new.pointerPath ∨ path = old.imagePath) s t) :
    Pending old new t where
  pointer node hnode := h.pointer node (hcalm.shows _ (.inl rfl) node hnode)
  image v hv := h.image v (hcalm.shows _ (.inr rfl) v hv)

lemma Placed.calm (h : Placed old new s) (hcalm : Calm (Judged old new) s t) :
    Placed old new t where
  pointer node hnode := h.pointer node (hcalm.shows _ (.inl rfl) node hnode)
  image v hv := h.image v (hcalm.shows _ (.inr (.inl rfl)) v hv)
  placed v hv := h.placed v (hcalm.shows _ (.inr (.inr rfl)) v hv)

lemma Settled.calm (h : Settled new s)
    (hcalm : Calm (fun path => path = new.pointerPath ∨ path = new.imagePath) s t) :
    Settled new t where
  pointer node hnode := h.pointer node (hcalm.shows _ (.inl rfl) node hnode)
  small := h.small
  image v hv := h.image v (hcalm.shows _ (.inr rfl) v hv)

lemma Sound.calm (h : Sound old new s) (hcalm : Calm (Judged old new) s t) : Sound old new t := by
  intro node hnode
  rcases h node (hcalm.shows _ (.inl rfl) node hnode) with ⟨heq, himage⟩ | ⟨heq, hsmall, himage⟩
  · exact .inl ⟨heq, fun v hv => himage v (hcalm.shows _ (.inr (.inl rfl)) v hv)⟩
  · exact .inr ⟨heq, hsmall, fun v hv => himage v (hcalm.shows _ (.inr (.inr rfl)) v hv)⟩

end Calm

/-! ## §3 The steps of a commit -/

lemma Calm.trans {r s t : Disk} (h : Calm P r s) (h' : Calm P s t) : Calm P r t where
  get path hpath := (h'.get path hpath).trans (h.get path hpath)
  shows path hpath node hnode := h.shows path hpath node (h'.shows path hpath node hnode)
  foreign := h'.foreign.trans h.foreign

lemma Calm.mono {P' : CachePath → Prop} {s t : Disk} (h : Calm P s t)
    (hP : ∀ path, P' path → P path) : Calm P' s t where
  get path hpath := h.get path (hP path hpath)
  shows path hpath := h.shows path (hP path hpath)
  foreign := h.foreign

section Steps

variable {window : ℕ} {A B : Type} {s : Disk}
variable {p : StoreProgram A} {f : A → StoreProgram B} {directory : Directory}

lemma throughout_calm (huses : p.Uses (Spares P)) (s : Disk) :
    Throughout (Faulty window) (Calm P s) (fun _ => Calm P s) p s := by
  refine throughout_of_uses huses (fun c t reply t' hspares hcalm hcall => ?_) (Calm.refl P s)
  obtain ⟨fault, hcall⟩ := hcall
  have hstep := calm_exec hspares window fault t
  rw [hcall] at hstep
  exact hcalm.trans hstep

/-- A kind of calls that the reads and the checks of directories are of. -/
class Harmless (allowed : FsCall → Prop) : Prop where
  owned : ∀ directory, allowed (.owned directory)
  chmod : ∀ directory, allowed (.chmod directory)
  lstat : ∀ path, allowed (.lstat path)
  read : ∀ path limit, allowed (.read path limit)
  readdir : ∀ directory, allowed (.readdir directory)
  syncDirectory : ∀ directory, allowed (.syncDirectory directory)

instance : Harmless (Spares P) :=
  ⟨fun _ => trivial, fun _ => trivial, fun _ => trivial, fun _ _ => trivial, fun _ => trivial,
    fun _ => trivial⟩

variable {allowed : FsCall → Prop} [Harmless allowed]

lemma uses_assertOwned (directory : Directory) : (assertOwned directory).Uses allowed := by
  refine ⟨Harmless.owned directory, fun reply => ?_⟩
  change ((if reply then pure () else throw unsafeCachePathError) : StoreProgram Unit).Uses _
  split
  · trivial
  · trivial

omit [Harmless allowed] in
lemma uses_require (result : Except IoError A) : (require result).Uses allowed := by
  cases result with
  | ok a => trivial
  | error e => trivial

lemma uses_removeQuietly {path : CachePath} (h : allowed (.unlink path)) :
    (removeQuietly path).Uses allowed :=
  (uses_assertOwned _).bind fun _ => ⟨h, fun _ => trivial⟩

lemma uses_writeFileDurably {path : CachePath} {bytes : Bytes} (hopen : allowed (.openNew path))
    (hwrite : allowed (.write path bytes)) (hsync : allowed (.syncFile path)) :
    (writeFileDurably path bytes).Uses allowed := by
  refine (uses_assertOwned _).bind fun _ => ⟨hopen, fun reply => ?_⟩
  refine (uses_require reply).bind fun _ => ⟨hwrite, fun reply => ?_⟩
  exact (uses_require reply).bind fun _ => ⟨hsync, fun reply => uses_require reply⟩

/-- Sequences, where only what holds at the end matters. -/
theorem ends_bind {Q : Except StoreFailure B → Disk → Prop} {R : A → Disk → Prop}
    (hp : Ends (Faulty window) (OnResult R fun e => Q (.error e)) p s)
    (hf : ∀ a t, R a t → Ends (Faulty window) Q (f a) t) : Ends (Faulty window) Q (p >>= f) s :=
  throughout_bind hp fun a t _ ha => hf a t ha

/-- A call whose error ends the program in a value-less result. -/
theorem ends_require {Q : B → Disk → Prop} {result : Except IoError A}
    (hf : ∀ a, result = .ok a → Ends (Faulty window) (fun r t => ∀ b, r = .ok b → Q b t) (f a) s) :
    Ends (Faulty window) (fun r t => ∀ b, r = .ok b → Q b t) (require result >>= f) s := by
  cases result with
  | ok a => exact hf a rfl
  | error e => exact ⟨trivial, nofun⟩

/-- A file that is written durably holds its bytes. -/
theorem ends_writeFileDurably (path : CachePath) (bytes : Bytes) (s : Disk) :
    Ends (Faulty window) (fun result t => ∀ b, result = .ok b →
      t.get path = some (.file bytes true)) (writeFileDurably path bytes) s := by
  refine ends_bind (R := fun _ _ => True) ?_ fun _ t _ => ?_
  · refine ⟨trivial, fun reply t ⟨fault, hcall⟩ => ?_⟩
    change Ends _ _ ((if reply then pure () else throw unsafeCachePathError) : StoreProgram Unit) t
    split
    · exact ⟨trivial, trivial⟩
    · exact ⟨trivial, nofun⟩
  refine ⟨trivial, fun reply t₁ hopen => ends_require fun _ hopened => ?_⟩
  refine ⟨trivial, fun reply t₂ hwrite => ends_require fun _ hwritten => ?_⟩
  refine ⟨trivial, fun reply t₃ hsync => ?_⟩
  subst hwritten
  obtain ⟨fault, hwrite⟩ := hwrite
  obtain ⟨fault', hsync⟩ := hsync
  -- the write went through, so the sync finds its bytes
  have htwo : t₂ = t₁.set path (.file bytes false) := by
    simp only [Disk.exec] at hwrite
    split at hwrite
    · cases hwrite
    · exact (Prod.mk.inj hwrite).2.symm
  have hget : t₂.get path = some (.file bytes false) := by rw [htwo, Disk.get_set_self]
  simp only [Disk.exec, hget] at hsync
  change Ends _ _ (require reply) t₃
  split at hsync
  · cases hsync
    exact ⟨trivial, nofun⟩
  · cases hsync
    exact ⟨trivial, fun _ _ => Disk.get_set_self ..⟩

variable {I : Disk → Prop} {Q : Except StoreFailure B → Disk → Prop}

/-- A check of a directory changes nothing. -/
theorem throughout_owned {f : Unit → StoreProgram B} (hI : I s)
    (hQ : Q (.error unsafeCachePathError) s) (hf : Throughout (Faulty window) I Q (f ()) s) :
    Throughout (Faulty window) I Q (assertOwned directory >>= f) s := by
  refine ⟨hI, fun reply s' ⟨fault, hcall⟩ => ?_⟩
  cases hcall
  change Throughout _ I Q ((if !fault && directory.isReal s then pure ()
    else throw unsafeCachePathError : StoreProgram Unit) >>= f) s
  split
  · exact hf
  · exact ⟨hI, hQ⟩

lemma throughout_rename {source target : CachePath} {f : Unit → StoreProgram B} (hI : I s)
    (hQ : ∀ e, Q (.error (.io e)) s) (hf : ∀ node, s.get source = some node →
      Throughout (Faulty window) I Q (f ()) ((s.remove source).set target node)) :
    Throughout (Faulty window) I Q
      (ask (.rename source target) >>= fun reply => require reply >>= f) s := by
  refine ⟨hI, fun reply s' ⟨fault, hcall⟩ => ?_⟩
  simp only [Disk.exec] at hcall
  split at hcall
  · cases hcall
    exact ⟨hI, hQ _⟩
  · next node hnode =>
    split at hcall
    · cases hcall
      exact ⟨hI, hQ _⟩
    · cases hcall
      exact hf node hnode

/-- The entries of a directory become durable, or its path is refused. -/
theorem syncDirectory_spec (deps : CacheDeps) (directory : Directory) (optional : Bool) (s : Disk) :
    Throughout (Faulty window) (fun t => t = s ∨ t = s.flush directory)
      (OnResult (fun _ t => t = s.flush directory) fun _ t => t = s)
      (syncDirectory deps directory optional) s := by
  refine throughout_owned (.inl rfl) rfl ⟨.inl rfl, fun reply t ⟨fault, hcall⟩ => ?_⟩
  cases hcall
  exact ⟨.inr rfl, rfl⟩

end Steps

/-! ## §4 A commit -/

/-- The files that a commit writes first are not those that a crash is judged by. -/
structure Apart (old : Resting) (new : Commit) (suffix : Text) : Prop where
  imageTemp : ¬ Judged old new (tempOf new.imagePath suffix)
  pointerTemp : ¬ Judged old new (tempOf new.pointerPath suffix)
  image : new.imagePath ≠ new.pointerPath
  oldImage : old.imagePath ≠ new.pointerPath

section Commits

variable {suffix : Text} {s : Disk}

/-- The image takes its name; the old pointer still stands. -/
theorem Pending.rename (h : Pending old new s) (hapart : Apart old new suffix) :
    Pending old new ((s.remove (tempOf new.imagePath suffix)).set new.imagePath
      (.file new.bytes true)) := by
  have hcalm : Calm (fun path => Judged old new path ∧ path ≠ new.imagePath) s
      ((s.remove (tempOf new.imagePath suffix)).set new.imagePath (.file new.bytes true)) :=
    (calm_remove (fun hjudged => hapart.imageTemp hjudged.1) s).trans
      (calm_set (fun hjudged => hjudged.2 rfl) _ _)
  refine ⟨fun node hnode => h.pointer node ?_, fun v hv => ?_⟩
  · exact hcalm.shows _ ⟨.inl rfl, hapart.image.symm⟩ node hnode
  · by_cases hsame : old.imagePath = new.imagePath
    · rcases hv with hget | hdurable
      · rw [hsame, Disk.get_set_self] at hget
        exact .inr ⟨hsame.symm, hget.symm⟩
      · exact h.image v (.inr hdurable)
    · exact h.image v (hcalm.shows _ ⟨.inr (.inl rfl), hsame⟩ v hv)

lemma Pending.flush (h : Pending old new s)
    (hget : s.get new.imagePath = some (.file new.bytes true)) :
    Placed old new (s.flush new.imagePath.directory) := by
  refine ⟨h.calm (calm_flush s _), fun v hv => ?_⟩
  rcases hv with hv | hv
  · exact hv.symm.trans hget
  · change (if new.imagePath.directory = new.imagePath.directory then s.get new.imagePath
      else s.durable new.imagePath) = v at hv
    rw [if_pos rfl] at hv
    exact hv.symm.trans hget

/-- The pointer takes its name over an image that is durable. -/
theorem Placed.rename (h : Placed old new s) (hapart : Apart old new suffix)
    (hsmall : new.encoded.length ≤ maxPointerBytes) :
    Sound old new ((s.remove (tempOf new.pointerPath suffix)).set new.pointerPath
      (.file new.encoded true)) := by
  have hcalm : Calm (fun path => Judged old new path ∧ path ≠ new.pointerPath) s
      ((s.remove (tempOf new.pointerPath suffix)).set new.pointerPath (.file new.encoded true)) :=
    (calm_remove (fun hjudged => hapart.pointerTemp hjudged.1) s).trans
      (calm_set (fun hjudged => hjudged.2 rfl) _ _)
  rintro node (hget | hdurable)
  · rw [Disk.get_set_self] at hget
    refine .inr ⟨hget.symm, hsmall, fun v hv => h.placed v ?_⟩
    exact hcalm.shows _ ⟨.inr (.inr rfl), hapart.image⟩ v hv
  · refine .inl ⟨h.pointer node (.inr hdurable), fun v hv => h.image v ?_⟩
    exact hcalm.shows _ ⟨.inr (.inl rfl), hapart.oldImage⟩ v hv

lemma Placed.flush (h : Placed old new s) (hapart : Apart old new suffix)
    (hsmall : new.encoded.length ≤ maxPointerBytes) :
    Settled new (((s.remove (tempOf new.pointerPath suffix)).set new.pointerPath
      (.file new.encoded true)).flush new.pointerPath.directory) := by
  have hcalm : Calm (fun path => Judged old new path ∧ path ≠ new.pointerPath) s
      (((s.remove (tempOf new.pointerPath suffix)).set new.pointerPath
        (.file new.encoded true)).flush new.pointerPath.directory) :=
    ((calm_remove (fun hjudged => hapart.pointerTemp hjudged.1) s).trans
      (calm_set (fun hjudged => hjudged.2 rfl) _ _)).trans (calm_flush _ _)
  refine ⟨fun node hnode => ?_, hsmall, fun v hv => h.placed v ?_⟩
  · have hself : ((s.remove (tempOf new.pointerPath suffix)).set new.pointerPath
        (.file new.encoded true)).get new.pointerPath = some (.file new.encoded true) :=
      Disk.get_set_self ..
    rcases hnode with hnode | hnode
    · exact hnode.symm.trans hself
    · change (if new.pointerPath.directory = new.pointerPath.directory then _ else _) = node at hnode
      rw [if_pos rfl] at hnode
      exact hnode.symm.trans hself
  · exact hcalm.shows _ ⟨.inr (.inr rfl), hapart.image⟩ v hv

variable {window : ℕ} {deps : CacheDeps}

/-- A file that is written under a temporary name, with what it leaves. -/
theorem writeTemp_spec {path : CachePath} {bytes : Bytes} (h : ¬ P path) (s : Disk) :
    Throughout (Faulty window) (Calm P s)
      (OnResult (fun _ t => t.get path = some (.file bytes true)) fun _ _ => True)
      (writeFileDurably path bytes) s := by
  have hcalm : Throughout (Faulty window) (Calm P s) (fun _ => Calm P s)
      (writeFileDurably path bytes) s := throughout_calm (uses_writeFileDurably h h h) s
  refine (hcalm.and (ends_writeFileDurably path bytes s)).mono (fun t ht => ht.1) ?_
  intro result t _ hresult
  cases result with
  | ok a => exact hresult.2 a rfl
  | error e => trivial

lemma writeCommit_spec (hapart : Apart old new suffix) (h : Pending old new s) :
    Throughout (Faulty window) (Sound old new)
      (OnResult (fun _ => Settled new) fun _ => Sound old new)
      (writeCommit deps suffix new) s := by
  -- the image under its temporary name
  refine throughout_bind (R := fun _ t => Pending old new t ∧
    t.get (tempOf new.imagePath suffix) = some (.file new.bytes true)) ?_ ?_
  · have hkept : ∀ t, Calm (Judged old new) s t → Pending old new t := fun t hcalm =>
      h.calm (hcalm.mono fun path hpath => hpath.elim .inl fun hp => .inr (.inl hp))
    refine (writeTemp_spec hapart.imageTemp s).mono (fun t ht => (hkept t ht).sound) ?_
    intro result t ht hresult
    cases result with
    | ok a => exact ⟨hkept t ht, hresult⟩
    | error e => exact (hkept t ht).sound
  rintro - t ht ⟨hpending, htemp⟩
  refine throughout_owned ht ht (throughout_owned ht ht ?_)
  refine throughout_rename ht (fun _ => ht) fun node hnode => ?_
  obtain rfl : node = .file new.bytes true := Option.some.inj (hnode.symm.trans htemp)
  have hrenamed := hpending.rename hapart
  -- the image under its name, made durable
  refine throughout_bind (R := fun _ t => Placed old new t) ?_ ?_
  · refine (syncDirectory_spec deps _ _ _).mono (fun t ht => ?_) ?_
    · rcases ht with rfl | rfl
      · exact hrenamed.sound
      · exact (hrenamed.flush (Disk.get_set_self ..)).toPending.sound
    · intro result t _ hresult
      cases result with
      | ok a =>
        obtain rfl : t = _ := hresult
        exact hrenamed.flush (Disk.get_set_self ..)
      | error e =>
        obtain rfl : t = _ := hresult
        exact hrenamed.sound
  rintro - u hu hplaced
  split
  · exact ⟨hu, hu⟩
  next hfits =>
  have hsmall : new.encoded.length ≤ maxPointerBytes := Nat.not_lt.mp hfits
  -- the pointer under its temporary name
  refine throughout_bind (R := fun _ t => Placed old new t ∧
    t.get (tempOf new.pointerPath suffix) = some (.file new.encoded true)) ?_ ?_
  · refine (writeTemp_spec hapart.pointerTemp u).mono
      (fun t ht => (hplaced.calm ht).toPending.sound) ?_
    intro result t ht hresult
    cases result with
    | ok a => exact ⟨hplaced.calm ht, hresult⟩
    | error e => exact (hplaced.calm ht).toPending.sound
  rintro - v hv ⟨hkept, hpointer⟩
  refine throughout_owned hv hv (throughout_owned hv hv ?_)
  refine throughout_rename hv (fun _ => hv) fun node hnode => ?_
  obtain rfl : node = .file new.encoded true := Option.some.inj (hnode.symm.trans hpointer)
  -- the pointer under its name: either pointer may survive until it is durable
  refine (syncDirectory_spec deps _ _ _).mono (fun t ht => ?_) ?_
  · rcases ht with rfl | rfl
    · exact hkept.rename hapart hsmall
    · exact (hkept.flush hapart hsmall).sound
  · intro result t _ hresult
    cases result with
    | ok a =>
      obtain rfl : t = _ := hresult
      exact hkept.flush hapart hsmall
    | error e =>
      obtain rfl : t = _ := hresult
      exact hkept.rename hapart hsmall

lemma sound_removeQuietly {path : CachePath} (hpath : ¬ Judged old new path)
    (h : Sound old new s) :
    Throughout (Faulty window) (Sound old new)
      (OnResult (fun _ _ => True) fun _ => Sound old new) (removeQuietly path) s := by
  refine (throughout_calm (uses_removeQuietly hpath) s).mono (fun t ht => h.calm ht) ?_
  intro result t ht _
  cases result with
  | ok a => trivial
  | error e => exact h.calm ht

lemma commitImage_spec (hapart : Apart old new suffix) (h : Pending old new s) :
    Throughout (Faulty window) (Sound old new)
      (OnResult (fun _ => Settled new) fun _ => Sound old new)
      (commitImage deps suffix new) s := by
  refine throughout_andThen ((writeCommit_spec hapart h).mono (fun _ ht => ht) ?_)
  intro result t ht hresult
  cases result with
  | ok a => exact ⟨ht, hresult⟩
  | error e =>
    refine throughout_bind (R := fun _ _ => True) (sound_removeQuietly hapart.imageTemp ht) ?_
    rintro - u hu -
    refine throughout_bind (R := fun _ _ => True) (sound_removeQuietly hapart.pointerTemp hu) ?_
    rintro - v hv -
    cases e with
    | store | io | plain => exact ⟨hv, hv⟩

end Commits

/-! ## §5 Around a commit -/

variable {Pointer : Type}

section Around

variable {window : ℕ} {A B : Type} {s : Disk} {I : Disk → Prop}
variable {p : StoreProgram A} {f : A → StoreProgram B}
  {Q : Except StoreFailure B → Disk → Prop}

/-- A program that spares some paths, before another one. -/
theorem throughout_calm_bind (huses : p.Uses (Spares P)) (hI : ∀ t, Calm P s t → I t)
    (hQ : ∀ e t, Calm P s t → Q (.error e) t)
    (hf : ∀ a t, Calm P s t → Throughout (Faulty window) I Q (f a) t) :
    Throughout (Faulty window) I Q (p >>= f) s := by
  refine throughout_andThen ((throughout_calm huses s).mono hI fun result t ht _ => ?_)
  cases result with
  | ok a => exact hf a t ht
  | error e => exact ⟨hI t ht, hQ e t ht⟩

/-- What is done before a commit leaves the old pointer and its image alone. -/
theorem Pending.bind (h : Pending old new s)
    (huses : p.Uses (Spares fun path => path = new.pointerPath ∨ path = old.imagePath))
    (hI : ∀ t, Sound old new t → I t)
    (hf : ∀ a t, Pending old new t → Throughout (Faulty window) I (fun _ _ => True) (f a) t) :
    Throughout (Faulty window) I (fun _ _ => True) (p >>= f) s :=
  throughout_calm_bind huses (fun t ht => hI t (h.calm ht).sound) (fun _ _ _ => trivial)
    fun a t ht => hf a t (h.calm ht)

variable {allowed : FsCall → Prop} [Harmless allowed]

lemma uses_applyDirectoryMode (deps : CacheDeps) (directory : Directory) :
    (applyDirectoryMode deps directory).Uses allowed := by
  refine Uses.andThen ((uses_assertOwned _).bind fun _ =>
    ⟨Harmless.chmod directory, fun reply => uses_require reply⟩) fun result => ?_
  cases result with
  | ok a => trivial
  | error e =>
    change Uses _ (if deps.windows then pure () else throw _ : StoreProgram Unit)
    split
    · trivial
    · trivial

omit [Harmless allowed] in
lemma uses_acquireLock (h : allowed .acquireLock) : acquireLock.Uses allowed := by
  refine ⟨h, fun reply => ?_⟩
  change Uses _ (if reply then pure () else throw _ : StoreProgram Unit)
  split
  · trivial
  · trivial

lemma uses_releaseLock (h : allowed .releaseLock) : releaseLock.Uses allowed :=
  (uses_assertOwned _).bind fun _ => ⟨h, fun _ => trivial⟩

lemma uses_removeTreeQuietly {directory : Directory} (h : allowed (.removeTree directory)) :
    (removeTreeQuietly directory).Uses allowed :=
  (uses_assertOwned _).bind fun _ => ⟨h, fun _ => trivial⟩

lemma uses_readBoundedFile (deps : CacheDeps) (path : CachePath) (maximum : ℕ) :
    (readBoundedFile deps path maximum).Uses allowed := by
  refine ⟨Harmless.read path _, fun reply => (uses_require reply).bind fun bytes => ?_⟩
  split
  · trivial
  · split
    · trivial
    · trivial

lemma uses_readQuietly (deps : CacheDeps) (path : CachePath) (parse : Text → Option Pointer) :
    (readQuietly deps path parse).Uses allowed := by
  rw [readQuietly, orElse]
  refine Uses.andThen (Uses.bind ⟨Harmless.lstat path, fun _ => trivial⟩ fun reply => ?_)
    fun result => ?_
  · refine (uses_require reply).bind fun stats => ?_
    split
    · trivial
    · exact (uses_readBoundedFile deps _ _).bind fun _ => trivial
  · cases result with
    | ok a => trivial
    | error e => trivial

lemma uses_removeEach {paths : List CachePath} (h : ∀ path ∈ paths, allowed (.unlink path)) :
    (removeEach paths).Uses allowed := by
  induction paths with
  | nil => trivial
  | cons path rest ih =>
    exact (uses_removeQuietly (h path mem_cons_self)).bind fun _ =>
      ih fun other hother => h other (mem_cons_of_mem _ hother)

omit [Harmless allowed] in
/-- Taking and giving back the lock touches no file. -/
theorem throughout_withWriterLock {deps : CacheDeps} {operation : StoreProgram A}
    (hI : ∀ t u, I t → Calm (fun _ => True) t u → I u) (hs : I s)
    (hop : ∀ t, Calm (fun _ => True) s t →
      Throughout (Faulty window) I (fun _ _ => True) operation t) :
    Throughout (Faulty window) I (fun _ _ => True) (withWriterLock deps operation) s := by
  refine throughout_calm_bind (uses_assertOwned _) (hI s · hs) (fun _ _ _ => trivial) ?_
  rintro - t ht
  refine throughout_calm_bind (uses_applyDirectoryMode deps _) (hI t · (hI s t hs ht))
    (fun _ _ _ => trivial) ?_
  rintro - u hu
  have hsu := ht.trans hu
  refine throughout_calm_bind (uses_acquireLock trivial) (hI u · (hI s u hs hsu)) (fun _ _ _ => trivial) ?_
  rintro - v hv
  refine throughout_andThen ((hop v (hsu.trans hv)).mono (fun _ h => h) fun result w hw _ => ?_)
  refine throughout_andThen ((throughout_calm (uses_releaseLock trivial) w).mono (hI w · hw) ?_)
  intro last x hx _
  cases last with
  | ok a | error e => exact ⟨hI w x hw hx, trivial⟩

end Around

lemma accepts_pointer {encoded : Bytes} (h : encoded.length ≤ maxPointerBytes) :
    pointerFileRefused ⟨true, false, encoded.length⟩ = false := by
  simpa [pointerFileRefused] using h

section

variable {deps : CacheDeps} {encoded : Bytes} {raw : Text} {s : Disk}
  (hget : s.get path = some (.file encoded synced)) (hlength : encoded.length ≤ maxPointerBytes)
  (hdecode : deps.json.decode encoded = some raw)

include hget hlength hdecode

/-- A read of a pointer file that is in place gives its text, or fails. -/
theorem readBoundedFile_spec {window : ℕ} :
    Throughout (Faulty window) (fun t => t = s) (OnResult (fun r _ => r = raw) fun _ _ => True)
      (readBoundedFile deps path maxPointerBytes) s := by
  refine ⟨rfl, fun reply t ⟨fault, hcall⟩ => ?_⟩
  have htake : encoded.take (maxPointerBytes + 1) = encoded :=
    take_of_length_le (Nat.le_succ_of_le hlength)
  simp only [Disk.exec, hget, htake] at hcall
  split at hcall
  · cases hcall
    exact ⟨rfl, trivial⟩
  · cases hcall
    change Throughout _ _ _ (if maxPointerBytes < encoded.length then _ else _ : StoreProgram Text) s
    rw [if_neg (Nat.not_lt.mpr hlength), hdecode]
    exact ⟨rfl, rfl⟩

lemma readQuietly_spec {window : ℕ} (parse : Text → Option Pointer) :
    Throughout (Faulty window) (fun t => t = s)
      (OnResult (fun pointer _ => pointer = none ∨ pointer = parse raw) fun _ _ => False)
      (readQuietly deps path parse) s := by
  have hbody : Throughout (Faulty window) (fun t => t = s)
      (OnResult (fun pointer _ => pointer = none ∨ pointer = parse raw) fun _ _ => True)
      (lstat path >>= fun reply => require reply >>= fun stats =>
        if pointerFileRefused stats then pure none
        else readBoundedFile deps path maxPointerBytes >>= fun raw =>
          pure (parse raw)) s := by
    refine ⟨rfl, fun reply t ⟨fault, hcall⟩ => ?_⟩
    simp only [Disk.exec, hget, Node.stats] at hcall
    split at hcall
    · cases hcall
      exact ⟨rfl, trivial⟩
    · cases hcall
      change Throughout _ _ _ (if pointerFileRefused ⟨true, false, encoded.length⟩ = true then _
        else _ : StoreProgram (Option Pointer)) s
      rw [accepts_pointer hlength, if_neg Bool.false_ne_true]
      refine throughout_bind (R := fun r _ => r = raw)
        (readBoundedFile_spec hget hlength hdecode) ?_
      rintro r t ht rfl
      exact ⟨ht, .inr rfl⟩
  exact throughout_orElse hbody (fun _ _ _ h => h) fun e t ht _ => ⟨ht, .inl rfl⟩

end

lemma passes_foreign {A : Type} {window : ℕ} {p : StoreProgram A} {s t : Disk}
    (h : Passes (Faulty window) p s t) : t.foreign = s.foreign := by
  have huses : ∀ {A : Type} (p : StoreProgram A), p.Uses (Spares fun _ => False) := by
    intro A p
    induction p with
    | done result => trivial
    | call c next ih =>
      refine ⟨?_, ih⟩
      cases c with
      | rename => exact ⟨not_false, not_false⟩
      | removeTree => exact fun _ h => h.elim
      | openNew | write | syncFile | unlink => exact not_false
      | _ => trivial
  exact ((throughout_calm (huses p) s).passes h).foreign

/-! ## §6 Names -/

lemma extension_inj {a a' b b' : Text} (hb : '.' ∉ b) (hb' : '.' ∉ b')
    (h : a ++ '.' :: b = a' ++ '.' :: b') : b = b' := by
  have hlast : ∀ {x y : Text}, '.' ∉ y →
      (x ++ '.' :: y).reverse.takeWhile (· ≠ '.') = y.reverse := by
    intro x y hy
    have hall : ∀ c ∈ y.reverse, decide (c ≠ '.') = true := by
      intro c hc
      rw [decide_eq_true_eq]
      rintro rfl
      exact hy (mem_reverse.mp hc)
    rw [reverse_append, reverse_cons, append_assoc, takeWhile_append_of_pos hall]
    simp
  have hreverse := hlast (x := a) hb
  rw [h, hlast hb'] at hreverse
  exact (reverse_injective hreverse).symm

lemma tempOf_ne_self (path : CachePath) (suffix : Text) : tempOf path suffix ≠ path := by
  intro h
  have hentry := congrArg (fun p => p.entry.length) h
  simp [tempOf, tempMarker] at hentry

/-- A temporary name ends behind another dot than the name of an image. -/
theorem tempOf_ne {other : CachePath} {suffix name extension : Text} (hsuffix : '.' ∉ suffix)
    (hother : other.entry = name ++ '.' :: extension) (hdot : '.' ∉ extension)
    (hlength : extension.length = 3) : tempOf path suffix ≠ other := by
  intro h
  have hentry : path.entry ++ '.' :: (['t', 'm', 'p', '-'] ++ suffix) = name ++ '.' :: extension := by
    rw [← hother, ← h]
    simp [tempOf, tempMarker]
  have heq := extension_inj (by simp [hsuffix]) hdot hentry
  have hlen := congrArg length heq
  simp only [length_append, length_cons, length_nil] at hlen
  omega

/-- The images stand in one directory, the pointer in another. -/
theorem apart_of_names {suffix name extension : Text} (himage : old.imagePath = path)
    (hname : path.entry = name ++ '.' :: extension) (hsuffix : '.' ∉ suffix)
    (hdot : '.' ∉ extension) (hlength : extension.length = 3)
    (hold : path.directory = new.imagePath.directory)
    (hdirectory : new.imagePath.directory ≠ new.pointerPath.directory) : Apart old new suffix := by
  subst himage
  constructor
  · rintro (heq | heq | heq)
    · have hsame := congrArg CachePath.directory heq
      exact hdirectory hsame
    · exact tempOf_ne hsuffix hname hdot hlength heq
    · exact tempOf_ne_self _ _ heq
  · rintro (heq | heq | heq)
    · exact tempOf_ne_self _ _ heq
    · exact hdirectory (hold.symm.trans (congrArg CachePath.directory heq).symm)
    · exact hdirectory (congrArg CachePath.directory heq).symm
  · exact fun heq => hdirectory (congrArg CachePath.directory heq)
  · exact fun heq => hdirectory (hold.symm.trans (congrArg CachePath.directory heq))

lemma not_temp_pointer : ¬ tempMarker <:+: "current.json".toList := by decide +kernel

lemma not_temp_checkpointPointer : ¬ tempMarker <:+: "checkpoint.json".toList := by
  decide +kernel

lemma imageFileName_eq (generationId : Text) :
    imageFileName generationId = generationId ++ '.' :: ['k', 'w', 'c'] := rfl

lemma imageFileName_inj {a b : Text} (h : imageFileName a = imageFileName b) : a = b :=
  append_cancel_right h

/-! ## §7 What a crash leaves is loaded -/

/-- The store's calls, none of them failing by itself. -/
abbrev smooth (window : ℕ) : (c : FsCall) → Disk → FsReply c × Disk :=
  fun c s => s.exec window false c

/-- A load that nothing disturbs. -/
def Loads {Record : Type} (program : StoreProgram (Load Record)) (s : Disk) (record : Record)
    (bytes : Bytes) : Prop :=
  (program.run (smooth 0) s).1 = .ok (.hit record bytes)

lemma run_assertOwned {window : ℕ} {s : Disk} {directory : Directory} (h : directory.isReal s = true) :
    (assertOwned directory).run (smooth window) s = (.ok (), s) := by
  change ((if !false && directory.isReal s then pure ()
    else throw unsafeCachePathError : StoreProgram Unit)).run _ s = _
  rw [h]
  rfl

lemma exec_lstat_file {window : ℕ} {s : Disk} {bytes : Bytes}
    (h : s.get path = some (.file bytes synced)) :
    smooth window (.lstat path) s = (.ok ⟨true, false, bytes.length⟩, s) := by
  simp [smooth, Disk.exec, h, Node.stats]

lemma exec_read_file {window : ℕ} {s : Disk} {bytes : Bytes} {limit : ℕ}
    (h : s.get path = some (.file bytes synced)) (hlimit : bytes.length ≤ limit) :
    smooth window (.read path limit) s = (.ok bytes, s) := by
  have htake : bytes.take limit = bytes := take_of_length_le hlimit
  simp [smooth, Disk.exec, h, htake]

section

variable {deps : CacheDeps} {encoded : Bytes} {raw : Text} {s : Disk}
  (hget : s.get path = some (.file encoded synced)) (hlength : encoded.length ≤ maxPointerBytes)
  (hdecode : deps.json.decode encoded = some raw)

include hget hlength hdecode

lemma run_readBoundedFile {window : ℕ} :
    (readBoundedFile deps path maxPointerBytes).run (smooth window) s =
      (.ok raw, s) := by
  have hread : smooth window (.read path (maxPointerBytes + 1)) s = (.ok encoded, s) :=
    exec_read_file hget (Nat.le_succ_of_le hlength)
  rw [readBoundedFile, readUpTo, ask_bind, run_call hread]
  change (if maxPointerBytes < encoded.length then _ else _ : StoreProgram Text).run _ s = _
  rw [if_neg (Nat.not_lt.mpr hlength), hdecode]
  rfl

lemma run_attemptRead {window : ℕ} :
    (attemptRead deps path).run (smooth window) s = (.ok (some raw), s) := by
  rw [attemptRead, run_andThen, run_readBoundedFile hget hlength hdecode]
  rfl

end

/-- An image of the expected length is read whole. -/
theorem run_readImage {Record : Type} {s : Disk} {imagePath : CachePath} {bytes : Bytes}
    (hreal : imagePath.directory.isReal s = true)
    (hget : s.get imagePath = some (.file bytes synced)) (record : Record)
    (absent damaged : StoreProgram Unit) :
    ((readImage imagePath bytes.length record absent damaged).run (smooth 0) s).1 =
      .ok (.hit record bytes) := by
  rw [readImage, run_bind (run_assertOwned hreal), lstat, ask_bind, run_call (exec_lstat_file hget)]
  simp only [Bool.not_true, Bool.false_eq_true, or_self, if_false, ne_eq, not_true_eq_false]
  rw [readUpTo, ask_bind, run_call (exec_read_file hget (Nat.le_refl _))]
  simp only [not_true_eq_false, if_false]
  rfl

/-- A load that goes on to an image, of the length that its pointer tells. -/
structure Serves {Record : Type} (program : StoreProgram (Load Record)) (s : Disk)
    (imagePath : CachePath) (byteLength : ℕ) (record : Record) : Prop where
  real : imagePath.directory.isReal s = true
  load : ∃ absent damaged, program.run (smooth 0) s =
    (readImage imagePath byteLength record absent damaged).run (smooth 0) s

section Serves

variable {Record : Type} {program : StoreProgram (Load Record)} {s : Disk} {imagePath : CachePath}
variable {bytes : Bytes} {record : Record}
  {record : Record} {bytes : Bytes}

lemma Serves.loads (h : Serves program s imagePath bytes.length record)
    (hget : s.get imagePath = some (.file bytes synced)) : Loads program s record bytes := by
  obtain ⟨absent, damaged, hload⟩ := h.load
  rw [Loads, hload]
  exact run_readImage h.real hget _ _ _

/-- A load that finds a file under the name of the image serves that file, if anything. -/
theorem Serves.eq_of_loads {byteLength : ℕ} (h : Serves program s imagePath byteLength record)
    (hget : s.get imagePath = some (.file bytes synced)) {r : Record} {b : Bytes}
    (hloads : Loads program s r b) : r = record ∧ b = bytes := by
  by_cases hlength : bytes.length = byteLength
  · subst hlength
    have hrun := h.loads hget
    rw [Loads, hloads] at hrun
    cases hrun
    exact ⟨rfl, rfl⟩
  · -- a file of another length is damaged
    obtain ⟨absent, damaged, hload⟩ := h.load
    rw [Loads, hload, readImage, run_bind (run_assertOwned h.real), lstat, ask_bind,
      run_call (exec_lstat_file hget)] at hloads
    simp only [Bool.not_true, Bool.false_eq_true, or_self, if_false] at hloads
    rw [if_pos hlength, bind_eq, run_andThen] at hloads
    cases hdamaged : (damaged.run (smooth 0) s).1 with
    | ok a | error e =>
      rw [hdamaged] at hloads
      cases hloads

end Serves

/-- The pointer of a complete generation, to a reader. -/
structure Disk.Names (s : Disk) (deps : CacheDeps) (pointer : CachePointer) : Prop where
  named : ∃ encoded synced raw, s.get pointerPath = some (.file encoded synced) ∧
    encoded.length ≤ maxPointerBytes ∧ deps.json.decode encoded = some raw ∧
    parsePointer deps raw = some pointer
  own : pointer.isForeign deps = false
  real : Directory.generations.isReal s = true

/-- A load goes on to the image that the pointer names. -/
theorem Disk.Names.serves {s : Disk} {deps : CacheDeps} {pointer : CachePointer}
    (h : s.Names deps pointer) (now : ℕ) :
    Serves (loadLocked deps now) s (imagePathOf pointer.record.generationId)
      pointer.record.byteLength pointer.record := by
  obtain ⟨encoded, synced, raw, hget, hlength, hdecode, hparse⟩ := h.named
  have hvault : Directory.isReal s pointerPath.directory = true := by
    have hreal := h.real
    simp only [pointerPath, Directory.isReal, Directory.chain, all_cons, all_nil,
      Bool.and_true, Bool.and_eq_true] at hreal ⊢
    exact hreal.1
  refine ⟨h.real, pure (), quarantine deps now (imagePathOf pointer.record.generationId)
    pointer.record.generationId, ?_⟩
  rw [loadLocked, run_bind (run_assertOwned hvault), lstat, ask_bind,
    run_call (exec_lstat_file hget)]
  change ((if pointerFileRefused ⟨true, false, encoded.length⟩ = true then _ else
    (attemptRead deps pointerPath >>= _ : StoreProgram (Load CacheRecord))).run _ s) = _
  rw [accepts_pointer hlength, if_neg Bool.false_ne_true,
    run_bind (run_attemptRead hget hlength hdecode)]
  change ((loadPointed deps now raw).run _ s) = _
  rw [loadPointed, hparse]
  change ((if pointer.isForeign deps = true then _ else _ :
    StoreProgram (Load CacheRecord)).run _ s) = _
  rw [h.own, if_neg Bool.false_ne_true]

/-- The pointer of a checkpoint, to a reader. -/
structure Disk.NamesCheckpoint (s : Disk) (deps : CacheDeps) (pointer : CheckpointPointer) :
    Prop where
  named : ∃ encoded synced raw, s.get initialBuildPointerPath = some (.file encoded synced) ∧
    encoded.length ≤ maxPointerBytes ∧ deps.json.decode encoded = some raw ∧
    parseInitialBuildCheckpointPointer deps raw = .valid pointer ∧
    initialBuildCheckpointPointerNamesForeignVault deps raw = false
  own : pointer.isForeign deps = false
  real : Directory.images.isReal s = true

lemma Disk.NamesCheckpoint.serves {s : Disk} {deps : CacheDeps} {pointer : CheckpointPointer}
    (h : s.NamesCheckpoint deps pointer) (now : ℕ) :
    Serves (loadInitialBuildCheckpointLocked deps now) s
      (checkpointImagePathOf pointer.record.generationId pointer.record.sha256)
      pointer.record.byteLength pointer.checkpoint := by
  obtain ⟨encoded, synced, raw, hget, hlength, hdecode, hparse, hnative⟩ := h.named
  have hdirectory : Directory.isReal s initialBuildPointerPath.directory = true := by
    have hreal := h.real
    simp only [initialBuildPointerPath, Directory.isReal, Directory.chain, all_cons,
      all_nil, Bool.and_true, Bool.and_eq_true] at hreal ⊢
    exact ⟨hreal.1, hreal.2.1⟩
  refine ⟨h.real, discardInitialBuildCheckpointIfCurrentQuietly deps pointer.record.generationId
    pointer.record.sha256, quarantineInitialBuildCheckpoint deps now (checkpointImagePathOf
      pointer.record.generationId pointer.record.sha256) pointer.record.generationId
        pointer.record.sha256, ?_⟩
  rw [loadInitialBuildCheckpointLocked, run_bind (run_assertOwned hdirectory), lstat,
    ask_bind, run_call (exec_lstat_file hget)]
  change ((if pointerFileRefused ⟨true, false, encoded.length⟩ = true then _ else
    (attemptRead deps initialBuildPointerPath >>= _ :
      StoreProgram (Load CheckpointRecord))).run _ s) = _
  rw [accepts_pointer hlength, if_neg Bool.false_ne_true,
    run_bind (run_attemptRead hget hlength hdecode)]
  change ((if initialBuildCheckpointPointerNamesForeignVault deps raw = true then _ else
    loadCheckpointPointed deps now raw : StoreProgram (Load CheckpointRecord)).run _ s) = _
  rw [hnative, if_neg Bool.false_ne_true, loadCheckpointPointed, hparse]
  change ((if pointer.isForeign deps = true then _ else _ :
    StoreProgram (Load CheckpointRecord)).run _ s) = _
  rw [h.own, if_neg Bool.false_ne_true]

/-- A synced file survives a crash, wherever it is shown. -/
theorem survives_file {s t : Disk} (h : s.Survives t) (path : CachePath) {Q : Bytes → Prop}
    (hshows : ∀ v, s.Shows path v → ∃ bytes, v = some (.file bytes true) ∧ Q bytes) :
    ∃ bytes synced, t.get path = some (.file bytes synced) ∧ Q bytes := by
  have hfile : ∀ {node : Option Node} {bytes : Bytes}, node = some (.file bytes true) →
      Node.Survives node (t.get path) → ∃ synced, t.get path = some (.file bytes synced) := by
    rintro node bytes rfl hnode
    cases hget : t.get path with
    | none =>
      rw [hget] at hnode
      cases hnode
    | some n =>
      rw [hget] at hnode
      cases n with
      | link | folder => cases hnode
      | file bytes' synced =>
        obtain ⟨old, flag, heq, hkept⟩ := hnode
        cases heq
        exact ⟨synced, by rw [hkept rfl]⟩
  rcases h.get path with hnode | hnode
  · obtain ⟨bytes, heq, hQ⟩ := hshows _ (.inl rfl)
    obtain ⟨synced, hget⟩ := hfile heq hnode
    exact ⟨bytes, synced, hget, hQ⟩
  · obtain ⟨bytes, heq, hQ⟩ := hshows _ (.inr rfl)
    obtain ⟨synced, hget⟩ := hfile heq hnode
    exact ⟨bytes, synced, hget, hQ⟩

/-- After a crash one of the pointers stands, and an image of its. -/
theorem Sound.survives {s t : Disk} (h : Sound old new s) (hcrash : s.Survives t) :
    (∃ synced, t.get new.pointerPath = some (.file old.encoded synced) ∧
      ∃ bytes flag, t.get old.imagePath = some (.file bytes flag) ∧
        (bytes = old.bytes ∨ new.imagePath = old.imagePath ∧ bytes = new.bytes)) ∨
    (∃ synced, t.get new.pointerPath = some (.file new.encoded synced) ∧
      new.encoded.length ≤ maxPointerBytes ∧
      ∃ flag, t.get new.imagePath = some (.file new.bytes flag)) := by
  have hold : (∀ v, s.Shows old.imagePath v → OldImage old new v) →
      ∃ bytes flag, t.get old.imagePath = some (.file bytes flag) ∧
        (bytes = old.bytes ∨ new.imagePath = old.imagePath ∧ bytes = new.bytes) := by
    intro himage
    apply survives_file hcrash old.imagePath
    intro v hv
    rcases himage v hv with rfl | ⟨hpath, rfl⟩
    · exact ⟨_, rfl, .inl rfl⟩
    · exact ⟨_, rfl, .inr ⟨hpath, rfl⟩⟩
  have hnew : (∀ v, s.Shows new.imagePath v → v = some (.file new.bytes true)) →
      ∃ flag, t.get new.imagePath = some (.file new.bytes flag) := by
    intro himage
    obtain ⟨bytes, flag, hget, rfl⟩ := survives_file hcrash new.imagePath (Q := (· = new.bytes))
      fun v hv => ⟨_, himage v hv, rfl⟩
    exact ⟨flag, hget⟩
  -- the node that the crash keeps at the pointer decides
  obtain ⟨bytes, synced, hget, hcase⟩ := survives_file hcrash new.pointerPath
    (Q := fun bytes => bytes = old.encoded ∧ (∀ v, s.Shows old.imagePath v → OldImage old new v) ∨
      bytes = new.encoded ∧ new.encoded.length ≤ maxPointerBytes ∧
        ∀ v, s.Shows new.imagePath v → v = some (.file new.bytes true)) (by
      intro v hv
      rcases h v hv with ⟨rfl, himage⟩ | ⟨rfl, hsmall, himage⟩
      · exact ⟨_, rfl, .inl ⟨rfl, himage⟩⟩
      · exact ⟨_, rfl, .inr ⟨rfl, hsmall, himage⟩⟩)
  rcases hcase with ⟨rfl, himage⟩ | ⟨rfl, hsmall, himage⟩
  · exact .inl ⟨synced, hget, hold himage⟩
  · exact .inr ⟨synced, hget, hsmall, hnew himage⟩

/-- Whichever pointer a crash leaves, a load serves its record; under the old pointer the new image
may stand where it has the same name. -/
theorem Sound.loads {s t : Disk} (h : Sound old new s) (hcrash : s.Survives t) {Record : Type}
    {program : StoreProgram (Load Record)} {oldRecord newRecord : Record}
    (hold : ∀ synced, t.get new.pointerPath = some (.file old.encoded synced) →
      Serves program t old.imagePath old.bytes.length oldRecord)
    (hnew : ∀ synced, t.get new.pointerPath = some (.file new.encoded synced) →
      new.encoded.length ≤ maxPointerBytes →
        Serves program t new.imagePath new.bytes.length newRecord)
    (hkeeps : new.imagePath = old.imagePath → new.bytes = old.bytes ∨
      newRecord = oldRecord ∧ new.bytes.length = old.bytes.length) :
    Loads program t oldRecord old.bytes ∨ Loads program t newRecord new.bytes := by
  rcases h.survives hcrash with ⟨synced, hpointer, bytes, flag, himage, hbytes⟩ |
    ⟨synced, hpointer, hsmall, flag, himage⟩
  · have hserves := hold synced hpointer
    rcases hbytes with rfl | ⟨hpath, rfl⟩
    · exact .inl (hserves.loads himage)
    · rcases hkeeps hpath with hbytes | ⟨rfl, hlength⟩
      · rw [hbytes] at himage
        exact .inl (hserves.loads himage)
      · rw [← hlength] at hserves
        exact .inr (hserves.loads himage)
  · exact .inr ((hnew synced hpointer hsmall).loads himage)

/-! ## §8 Complete generations -/

/-- A complete generation at rest: the pointer and its image are durable. -/
structure Disk.RestsGeneration (s : Disk) (deps : CacheDeps) (pointer : CachePointer)
    (old : Resting) : Prop where
  imagePath : old.imagePath = imagePathOf pointer.record.generationId
  file : ∀ node, s.Shows pointerPath node → node = some (.file old.encoded true)
  image : ∀ node, s.Shows old.imagePath node → node = some (.file old.bytes true)
  small : old.encoded.length ≤ maxPointerBytes
  reads : ∃ raw, deps.json.decode old.encoded = some raw ∧ parsePointer deps raw = some pointer
  own : pointer.isForeign deps = false
  length : old.bytes.length = pointer.record.byteLength
  real : Directory.generations.isReal s = true

section Generations

variable {deps : CacheDeps} {op : Operation} {write : CacheWrite} {pointer : CachePointer}
  {old : Resting} {window : ℕ} {s : Disk}

lemma Disk.RestsGeneration.pending (h : s.RestsGeneration deps pointer old) (now : ℕ)
    (write : CacheWrite) (previous : Option CachePointer) : Pending old
    (cacheCommit deps now write previous) s where
  pointer := h.file
  image v hv := .inl (h.image v hv)

lemma apart_cacheCommit (himage : old.imagePath = imagePathOf pointer.record.generationId)
    (previous : Option CachePointer) :
    Apart old (cacheCommit deps op.now write previous) op.suffix :=
  apart_of_names himage (imageFileName_eq _) op.suffix_plain (by decide) rfl rfl
    nofun

/-- Retention spares the pointer and the image that it was just given. -/
theorem uses_pruneQuietly {allowed : FsCall → Prop} [Harmless allowed] (deps : CacheDeps)
    {generationId : Text}
    (h : ∀ path, path ≠ pointerPath → path ≠ imagePathOf generationId → allowed (.unlink path)) :
    (pruneQuietly deps generationId).Uses allowed := by
  rw [pruneQuietly, orElse]
  refine Uses.andThen ?_ fun result => ?_
  · have hread : (readPointerQuietly deps).Uses allowed := by
      rw [readPointerQuietly]
      exact uses_readQuietly deps _ _
    refine hread.bind fun pointer => Uses.bind ⟨Harmless.readdir _, fun _ => trivial⟩ fun images => ?_
    refine (uses_require images).bind fun images => Uses.bind (uses_removeEach ?_) fun _ => ?_
    · intro path hpath
      obtain ⟨name, hname, rfl⟩ := mem_map.mp hpath
      have hdropped : name ∉ retainedImages generationId pointer := by
        simpa using (mem_filter.mp hname).2
      refine h _ (fun heq => by cases congrArg CachePath.directory heq) fun heq => ?_
      -- the new image is the first of the lineage
      obtain rfl : name = imageFileName generationId := congrArg CachePath.entry heq
      exact hdropped mem_cons_self
    · refine Uses.bind ⟨Harmless.readdir _, fun _ => trivial⟩ fun rest => ?_
      refine (uses_require rest).bind fun rest => uses_removeEach fun path hpath => ?_
      obtain ⟨name, hname, rfl⟩ := mem_map.mp hpath
      have htemp : tempMarker <:+: name := by simpa using (mem_filter.mp hname).2
      refine h _ (fun heq => ?_) fun heq => by cases congrArg CachePath.directory heq
      obtain rfl : name = "current.json".toList := congrArg CachePath.entry heq
      exact not_temp_pointer htemp
  · cases result with
    | ok a => trivial
    | error e => trivial

/-- The previous pointer, as a put reads it. -/
def ReadsPrevious (pointer : CachePointer) (previous : Option CachePointer) : Prop :=
  previous = none ∨ previous = some pointer

lemma putLocked_sound (h : s.RestsGeneration deps pointer old) :
    Throughout (Faulty window)
      (fun t => ∃ previous, ReadsPrevious pointer previous ∧
        Sound old (cacheCommit deps op.now write previous) t)
      (fun _ _ => True) (putLocked deps op write) s := by
  obtain ⟨raw, hdecode, hparse⟩ := h.reads
  have hpendingSound : ∀ {t}, Pending old (cacheCommit deps op.now write none) t →
      ∃ previous, ReadsPrevious pointer previous ∧
        Sound old (cacheCommit deps op.now write previous) t :=
    fun ht => ⟨none, .inl rfl, ht.sound⟩
  have hpending := h.pending op.now write none
  refine throughout_withWriterLock ?_ (hpendingSound hpending) fun s₁ hs₁ => ?_
  · rintro t u ⟨previous, hprevious, hsound⟩ hcalm
    exact ⟨previous, hprevious, hsound.calm (hcalm.mono fun _ _ => trivial)⟩
  have hpending₁ := hpending.calm (hs₁.mono fun _ _ => trivial)
  have hget : s₁.get pointerPath = some (.file old.encoded true) :=
    hpending₁.pointer _ (.inl rfl)
  -- what is read of the old pointer
  refine throughout_bind (R := fun previous t => ReadsPrevious pointer previous ∧ t = s₁) ?_ ?_
  · refine (readQuietly_spec hget h.small hdecode (parsePointer deps)).mono ?_ ?_
    · rintro t rfl
      exact hpendingSound hpending₁
    · intro result t ht hresult
      cases result with
      | ok previous =>
        rw [hparse] at hresult
        exact ⟨hresult, ht⟩
      | error e => exact hresult.elim
  rintro previous t - ⟨hprevious, rfl⟩
  have hsound : ∀ u, Sound old (cacheCommit deps op.now write previous) u →
      ∃ previous, ReadsPrevious pointer previous ∧
        Sound old (cacheCommit deps op.now write previous) u := fun _ hu => ⟨_, hprevious, hu⟩
  have hquarantine : ∀ path, path = pointerPath ∨ path = old.imagePath →
      path.directory ≠ .quarantine := by
    rintro path (rfl | rfl)
    · decide
    · rw [h.imagePath]
      exact nofun
  have hready : Pending old (cacheCommit deps op.now write previous) t :=
    ⟨hpending₁.pointer, hpending₁.image⟩
  -- the directories are made ready
  refine hready.bind (uses_assertOwned _) hsound fun _ u hready => ?_
  refine hready.bind (uses_applyDirectoryMode deps _) hsound fun _ v hready => ?_
  refine hready.bind (uses_removeTreeQuietly hquarantine) hsound fun _ w hready => ?_
  -- the commit, and retention after it
  refine throughout_bind (R := fun _ x => Settled (cacheCommit deps op.now write previous) x) ?_ ?_
  · refine (commitImage_spec (apart_cacheCommit h.imagePath previous) hready).mono
      hsound fun result x _ hresult => ?_
    cases result with
    | ok a => exact hresult
    | error e => trivial
  rintro - x - hsettled
  have hprune : (pruneQuietly deps write.generationId).Uses
      (Spares fun path => path = pointerPath ∨ path = imagePathOf write.generationId) :=
    uses_pruneQuietly deps fun path hpointer himage hpath => hpath.elim hpointer himage
  exact throughout_calm_bind hprune
    (fun y hy => hsound y (hsettled.calm hy).sound) (fun _ _ _ => trivial)
    fun _ y hy => ⟨hsound y (hsettled.calm hy).sound, trivial⟩

/-- The bytes that a put replaces under the served name are those that it writes, or it stores the
record that is served. -/
def KeepsServed (pointer : CachePointer) (old : Resting) (write : CacheWrite) : Prop :=
  write.generationId ≠ pointer.record.generationId ∨ write.bytes = old.bytes ∨
    write.toCacheRecord = pointer.record

/-- At every crash point of a put, a later load finds the old record or the new one. -/
def CrashSafePut (deps : CacheDeps) (op : Operation) (write : CacheWrite) (pointer : CachePointer)
    (old : Resting) (window : ℕ) (s : Disk) : Prop :=
  ∀ t, Passes (Faulty window) (putLocked deps op write) s t → ∀ t', t.Survives t' → ∀ now,
    Loads (loadLocked deps now) t' pointer.record old.bytes ∨
      Loads (loadLocked deps now) t' write.toCacheRecord write.bytes

/-- The pointer of an accepted write. -/
theorem cachePointer_stores (hvalid : validateWrite deps write = .ok ()) (op : Operation)
    (previous : Option CachePointer) :
    (cachePointer deps op.now write previous).Stores deps write.bytes := by
  simp only [validateWrite, validateRecord, bind_unit_ok_iff, rejectIf_ok] at hvalid
  obtain ⟨hgeneration, himage, hidentity⟩ := hvalid
  have hid : isGenerationId write.generationId = true := by simpa using hgeneration
  exact ⟨rfl, hid, himage, hidentity, op.now_le⟩

lemma PointerBody.Stores.own {body : PointerBody} {bytes : Bytes} (h : body.Stores deps bytes) :
    body.isForeign deps = false := by
  have hidentity := h.identity
  simp only [identityInvalid, not_or, Bool.not_eq_false, ne_eq, not_not] at hidentity
  simp [PointerBody.isForeign, h.vault, hidentity.2]

lemma PointerBody.Stores.length {body : PointerBody} {bytes : Bytes}
    (h : body.Stores deps bytes) : bytes.length = body.record.byteLength := by
  have himage := h.image
  simp only [imageInvalid, not_or, Bool.not_eq_false, not_lt, ne_eq, not_not] at himage
  exact himage.2.2.1.symm

lemma previous_of_cachePointer (op : Operation) (write : CacheWrite) {raw : Text}
    (hparse : parsePointer deps raw = some pointer)
    {previous : Option CachePointer} (hprevious : ReadsPrevious pointer previous) :
    ∀ id ∈ (cachePointer deps op.now write previous).previousGenerationId,
      isGenerationId id = true := by
  intro id hmem
  obtain ⟨hmem, -⟩ := Option.mem_filter_iff.mp hmem
  obtain ⟨p, hp, rfl⟩ := Option.mem_map.mp hmem
  rcases hprevious with rfl | rfl
  · cases hp
  · cases hp
    exact generationId_of_parsePointer hparse

lemma putLocked_crash_safe (h : s.RestsGeneration deps pointer old)
    (hvalid : validateWrite deps write = .ok ())
    (hreads : ∀ previous, ReadsPrevious pointer previous →
      deps.json.Reads (cachePointer deps op.now write previous).toJson)
    (hkeeps : KeepsServed pointer old write) : CrashSafePut deps op write pointer old window s := by
  intro t hpass t' hcrash now
  obtain ⟨previous, hprevious, hsound⟩ := (putLocked_sound h).passes hpass
  obtain ⟨oldRaw, holdDecode, holdParse⟩ := h.reads
  have hreal : Directory.isReal t' .generations = true := by
    have hforeign : t'.foreign = s.foreign := hcrash.foreign.trans (passes_foreign hpass)
    rw [Directory.isReal, hforeign]
    exact h.real
  have hstores := cachePointer_stores hvalid op previous
  refine hsound.loads hcrash (fun synced hpointer => ?_) (fun synced hpointer hsmall => ?_) ?_
  · -- the old pointer stands
    have hnames : t'.Names deps pointer :=
      ⟨⟨_, _, _, hpointer, h.small, holdDecode, holdParse⟩, h.own, hreal⟩
    rw [h.imagePath, h.length]
    exact hnames.serves now
  · -- the new one does
    obtain ⟨raw, hdecode, hparse⟩ := hreads previous hprevious
    have hprev := previous_of_cachePointer op write holdParse hprevious
    have hnames : t'.Names deps (cachePointer deps op.now write previous) :=
      ⟨⟨_, _, _, hpointer, hsmall, hdecode, parsePointer_toJson hstores hprev hparse⟩,
        hstores.own, hreal⟩
    have hserves := hnames.serves now
    rw [← hstores.length] at hserves
    exact hserves
  · intro hpath
    rw [h.imagePath] at hpath
    rcases hkeeps with hne | heq | hrecord
    · exact absurd (imageFileName_inj (congrArg CachePath.entry hpath)) hne
    · exact .inl heq
    · refine .inr ⟨hrecord, ?_⟩
      rw [h.length, ← hrecord]
      exact hstores.length

/-- A put of the window meets no obstacle before its image is renamed. -/
structure Disk.Ready (s : Disk) (temp : CachePath) : Prop where
  free : s.lockedBy = none
  real : ∀ directory, s.foreign directory = false
  fresh : s.get temp = none

lemma faulty_exec (c : FsCall) (s : Disk) :
    Faulty window c s (s.exec window false c).1 (s.exec window false c).2 :=
  ⟨false, rfl⟩

end Generations

/-! ## §9 Undisturbed runs -/

section

variable {window : ℕ} {s : Disk} {A B : Type}
variable {p : StoreProgram A} {f : A → StoreProgram B} {directory : Directory}

lemma isReal_of_ready {temp : CachePath} (h : s.Ready temp) (directory : Directory) :
    directory.isReal s = true := by
  rw [Directory.isReal, all_eq_true]
  intro d _
  rw [h.real d]
  rfl

lemma run_readQuietly {deps : CacheDeps} {path : CachePath} {encoded : Bytes} {synced : Bool}
    {raw : Text} (hget : s.get path = some (.file encoded synced))
    (hlength : encoded.length ≤ maxPointerBytes) (hdecode : deps.json.decode encoded = some raw)
    (parse : Text → Option Pointer) :
    (readQuietly deps path parse).run (smooth window) s = (.ok (parse raw), s) := by
  have hbody : (lstat path >>= fun reply => require reply >>= fun stats =>
      if pointerFileRefused stats then pure none
      else readBoundedFile deps path maxPointerBytes >>= fun raw => pure (parse raw) :
        StoreProgram (Option Pointer)).run (smooth window) s = (.ok (parse raw), s) := by
    rw [lstat, ask_bind, run_call (exec_lstat_file hget)]
    change (if pointerFileRefused ⟨true, false, encoded.length⟩ = true then _ else _ :
      StoreProgram (Option Pointer)).run _ s = _
    rw [accepts_pointer hlength, if_neg Bool.false_ne_true,
      run_bind (run_readBoundedFile hget hlength hdecode)]
    rfl
  exact run_orElse hbody _

lemma run_applyDirectoryMode (deps : CacheDeps) (h : directory.isReal s = true) :
    (applyDirectoryMode deps directory).run (smooth window) s = (.ok (), s) := by
  rw [applyDirectoryMode, orElse, run_andThen, run_bind (run_assertOwned h), ask_bind,
    run_call (show smooth window (.chmod directory) s = (.ok (), s) from rfl)]
  rfl

lemma run_removeTreeQuietly (h : directory.isReal s = true) :
    (removeTreeQuietly directory).run (smooth window) s = (.ok (), s.removeAll directory) := by
  rw [removeTreeQuietly, run_bind (run_assertOwned h)]
  rfl

lemma run_writeFileDurably (window : ℕ) (path : CachePath) (bytes : Bytes)
    (h : path.directory.isReal s = true) (hfresh : s.get path = none) :
    ∃ t, (writeFileDurably path bytes).run (smooth window) s = (.ok (), t) ∧
      t.get path = some (.file bytes true) ∧ (∀ other, other ≠ path → t.get other = s.get other) ∧
      t.foreign = s.foreign := by
  have hopen : smooth window (.openNew path) s = (.ok (), s.set path (.file [] false)) := by
    simp [smooth, Disk.exec, hfresh]
  have hsync : smooth window (.syncFile path) ((s.set path (.file [] false)).set path
      (.file bytes false)) = (.ok (), ((s.set path (.file [] false)).set path
        (.file bytes false)).set path (.file bytes true)) := by
    simp [smooth, Disk.exec]
  refine ⟨((s.set path (.file [] false)).set path (.file bytes false)).set path (.file bytes true),
    ?_, Disk.get_set_self .., fun other hne => ?_, rfl⟩
  · rw [writeFileDurably, run_bind (run_assertOwned h), ask_bind, run_call hopen]
    change (ask (.write path bytes) >>= fun reply => require reply >>= fun _ =>
      ask (.syncFile path) >>= fun reply => require reply : StoreProgram Unit).run _ _ = _
    rw [ask_bind, run_call (show smooth window (.write path bytes) (s.set path (.file [] false)) =
      (.ok (), (s.set path (.file [] false)).set path (.file bytes false)) from rfl)]
    change (ask (.syncFile path) >>= fun reply => require reply : StoreProgram Unit).run _ _ = _
    rw [ask_bind, run_call hsync]
    rfl
  · rw [Disk.get_set_ne _ _ hne, Disk.get_set_ne _ _ hne, Disk.get_set_ne _ _ hne]

lemma passes_after {s' t : Disk} {a : A} (hrun : p.run (smooth window) s = (.ok a, s'))
    (h : Passes (Faulty window) (f a) s' t) : Passes (Faulty window) (p >>= f) s t :=
  Passes.andThen_right faulty_exec hrun h

lemma passes_withWriterLock {deps : CacheDeps} {operation : StoreProgram A} {t : Disk}
    (hfree : s.lockedBy = none) (hreal : Directory.isReal s .vault = true)
    (h : Passes (Faulty window) operation { s with lockedBy := some window } t) :
    Passes (Faulty window) (withWriterLock deps operation) s t := by
  have hlock : acquireLock.run (smooth window) s = (.ok (), { s with lockedBy := some window }) := by
    rw [acquireLock, ask_bind, run_call (show smooth window .acquireLock s =
      (true, { s with lockedBy := some window }) by simp [smooth, Disk.exec, hfree])]
    rfl
  refine passes_after (run_assertOwned hreal) (passes_after (run_applyDirectoryMode deps hreal) ?_)
  exact passes_after hlock (h.andThen_left _)

/-- A commit comes to the point where its image has its name and the pointer is as it was. -/
theorem commitImage_reaches (window : ℕ) (deps : CacheDeps) {suffix : Text} (new : Commit)
    (hreal : new.imagePath.directory.isReal s = true)
    (hfresh : s.get (tempOf new.imagePath suffix) = none)
    (htarget : s.get new.imagePath ≠ some .folder) :
    ∃ t, Passes (Faulty window) (commitImage deps suffix new) s t ∧
      t.get new.imagePath = some (.file new.bytes true) ∧
      (∀ other, other ≠ new.imagePath → other ≠ tempOf new.imagePath suffix →
        t.get other = s.get other) ∧ t.foreign = s.foreign := by
  obtain ⟨u, hwrite, htemp, hothers, hforeign⟩ := run_writeFileDurably window
    (tempOf new.imagePath suffix) new.bytes hreal hfresh
  have hreal' : new.imagePath.directory.isReal u = true := by
    rw [Directory.isReal, hforeign]
    exact hreal
  have hfree : u.get new.imagePath ≠ some .folder := by
    rwa [hothers _ (tempOf_ne_self _ _).symm]
  refine ⟨(u.remove (tempOf new.imagePath suffix)).set new.imagePath (.file new.bytes true), ?_,
    Disk.get_set_self .., fun other hne htemp => ?_, hforeign⟩
  · refine Passes.andThen_left (passes_after hwrite (passes_after (run_assertOwned hreal')
      (passes_after (run_assertOwned hreal') ?_))) _
    have hcall : Faulty window (.rename (tempOf new.imagePath suffix) new.imagePath) u (.ok ())
        ((u.remove (tempOf new.imagePath suffix)).set new.imagePath (.file new.bytes true)) :=
      ⟨false, by simp [Disk.exec, htemp, hfree]⟩
    exact .later hcall (.here _ _)
  · rw [Disk.get_set_ne _ _ hne, Disk.get_remove_ne _ htemp, hothers other htemp]

lemma Node.survives_refl (node : Option Node) : Node.Survives node node := by
  cases node with
  | none => rfl
  | some n =>
    cases n with
    | file bytes synced => exact ⟨bytes, synced, rfl, fun _ => rfl⟩
    | link | folder => rfl

lemma Disk.survives_refl (s : Disk) : s.Survives s :=
  ⟨fun _ => .inl (Node.survives_refl _), rfl⟩

/-- A commit of the lock comes to that point, with its quarantine cleared. -/
theorem commitImage_reaches_cleared {deps : CacheDeps} {suffix : Text} (new : Commit)
    (directory : Directory) {bytes : Bytes} {synced : Bool}
    (hready : s.Ready (tempOf new.imagePath suffix))
    (himage : s.get new.imagePath = some (.file bytes synced))
    (hcleared : new.imagePath.directory ≠ directory)
    (hpointer : new.pointerPath.directory ≠ directory)
    (hdirectory : new.imagePath.directory ≠ new.pointerPath.directory) :
    ∃ t, Passes (Faulty window) (commitImage deps suffix new)
        ({ s with lockedBy := some window }.removeAll directory) t ∧
      t.get new.imagePath = some (.file new.bytes true) ∧
      t.get new.pointerPath = s.get new.pointerPath ∧ t.foreign = s.foreign := by
  let locked : Disk := { s with lockedBy := some window }
  have hkeeps : ∀ path : CachePath, path.directory ≠ directory →
      (locked.removeAll directory).get path = s.get path :=
    fun path hpath => locked.get_removeAll_ne hpath
  have hforeign : (locked.removeAll directory).foreign = s.foreign :=
    (Disk.foldl_remove _ locked).2.1
  have hreal : new.imagePath.directory.isReal (locked.removeAll directory) = true := by
    rw [Directory.isReal, hforeign]
    exact isReal_of_ready hready _
  have hnode := (hkeeps _ hcleared).trans himage
  obtain ⟨t, hpass, htarget, hothers, hkept⟩ := commitImage_reaches window deps new hreal
    ((hkeeps (tempOf new.imagePath suffix) hcleared).trans hready.fresh)
    (fun hfolder => nomatch hnode.symm.trans hfolder)
  refine ⟨t, hpass, htarget, ?_, hkept.trans hforeign⟩
  rw [hothers _ (fun heq => hdirectory (congrArg CachePath.directory heq).symm)
    (fun heq => hdirectory (congrArg CachePath.directory heq).symm), hkeeps _ hpointer]

end

/-! ## §10 The put that is not crash safe -/

section

variable {deps : CacheDeps} {op : Operation} {write : CacheWrite} {pointer : CachePointer}
  {old : Resting} {window : ℕ} {s : Disk}

section

variable (h : s.RestsGeneration deps pointer old)
  (hready : s.Ready (tempOf (imagePathOf write.generationId) op.suffix))

include h hready

/-- A put under the served name comes to a point where the old pointer names the new image. -/
theorem putLocked_reaches (hsame : write.generationId = pointer.record.generationId) :
    ∃ t, Passes (Faulty window) (putLocked deps op write) s t ∧ t.Names deps pointer ∧
      t.get (imagePathOf pointer.record.generationId) = some (.file write.bytes true) := by
  obtain ⟨raw, hdecode, hparse⟩ := h.reads
  have hget : s.get pointerPath = some (.file old.encoded true) := h.file _ (.inl rfl)
  have himage : s.get (imagePathOf pointer.record.generationId) = some (.file old.bytes true) := by
    rw [← h.imagePath]
    exact h.image _ (.inl rfl)
  have hreal := isReal_of_ready hready
  rw [← hsame] at himage ⊢
  obtain ⟨t, hpass, htarget, hpointer, hforeign⟩ := commitImage_reaches_cleared
    (cacheCommit deps op.now write (some pointer)) .quarantine hready himage nofun
    nofun nofun
  refine ⟨t, ?_, ⟨⟨old.encoded, true, raw, hpointer.trans hget, h.small, hdecode, hparse⟩, h.own,
    ?_⟩, htarget⟩
  · refine passes_withWriterLock hready.free (hreal _) ?_
    have hprevious : (readPointerQuietly deps).run (smooth window)
        { s with lockedBy := some window } = (.ok (parsePointer deps raw), _) :=
      run_readQuietly (s := { s with lockedBy := some window }) hget h.small hdecode _
    rw [hparse] at hprevious
    refine passes_after hprevious (passes_after (run_assertOwned (hreal _)) ?_)
    refine passes_after (run_applyDirectoryMode deps (hreal _)) ?_
    exact passes_after (run_removeTreeQuietly (hreal _)) (hpass.andThen_left _)
  · rw [Directory.isReal, hforeign]
    exact hreal _

lemma keepsServed_of_crash_safe (hsafe : CrashSafePut deps op write pointer old window s) :
    KeepsServed pointer old write := by
  by_contra hkeeps
  simp only [KeepsServed, not_or, ne_eq, not_not] at hkeeps
  obtain ⟨hsame, hbytes, hrecord⟩ := hkeeps
  obtain ⟨t, hpass, hnames, himage⟩ := putLocked_reaches h hready hsame
  rcases hsafe t hpass t t.survives_refl 0 with hold | hnew
  · exact hbytes ((hnames.serves 0).eq_of_loads himage hold).2.symm
  · exact hrecord ((hnames.serves 0).eq_of_loads himage hnew).1

end

end

/-! ## §11 Disks at rest -/

/-- A disk that holds files only, all of them durable. -/
def restingDisk (files : AList fun _ : CachePath => Node) : Disk where
  entries := files
  durable path := files.lookup path
  foreign _ := false
  lockedBy := none

lemma shows_restingDisk {files : AList fun _ : CachePath => Node} {node : Option Node}
    (h : (restingDisk files).Shows path node) : files.lookup path = node := by
  rcases h with h | h
  · exact h
  · exact h

lemma ready_restingDisk {files : AList fun _ : CachePath => Node} {temp : CachePath}
    (h : files.lookup temp = none) : (restingDisk files).Ready temp :=
  ⟨rfl, fun _ => rfl, h⟩

/-- A pointer and its image. -/
def pairFiles (pointerPath imagePath : CachePath) (encoded bytes : Bytes) :
    AList fun _ : CachePath => Node :=
  ((∅ : AList fun _ : CachePath => Node).insert imagePath (.file bytes true)).insert pointerPath
    (.file encoded true)

section Pairs

variable {pointer image other : CachePath} {encoded bytes : Bytes}

lemma lookup_pairFiles_pointer :
    (pairFiles pointer image encoded bytes).lookup pointer = some (.file encoded true) :=
  AList.lookup_insert _

lemma lookup_pairFiles_image (h : image ≠ pointer) :
    (pairFiles pointer image encoded bytes).lookup image = some (.file bytes true) :=
  (AList.lookup_insert_ne h).trans (AList.lookup_insert _)

lemma lookup_pairFiles_other (hpointer : other ≠ pointer) (himage : other ≠ image) :
    (pairFiles pointer image encoded bytes).lookup other = none :=
  (AList.lookup_insert_ne hpointer).trans ((AList.lookup_insert_ne himage).trans
    (AList.lookup_empty _))

end Pairs

section Iff

variable {deps : CacheDeps} {op : Operation} {write : CacheWrite} {pointer : CachePointer}
  {old : Resting} {window : ℕ} {s : Disk}

/-- The generation alone in its directory. -/
theorem restsGeneration_pair (h : s.RestsGeneration deps pointer old) :
    (restingDisk (pairFiles pointerPath old.imagePath old.encoded old.bytes)).RestsGeneration deps
      pointer old where
  imagePath := h.imagePath
  file _ hnode := (shows_restingDisk hnode).symm.trans lookup_pairFiles_pointer
  image _ hnode := by
    refine (shows_restingDisk hnode).symm.trans (lookup_pairFiles_image fun heq => ?_)
    rw [h.imagePath] at heq
    cases congrArg CachePath.directory heq
  small := h.small
  reads := h.reads
  own := h.own
  length := h.length
  real := rfl

lemma crashSafePut_iff (h : s.RestsGeneration deps pointer old)
    (hvalid : validateWrite deps write = .ok ())
    (hreads : ∀ previous, ReadsPrevious pointer previous →
      deps.json.Reads (cachePointer deps op.now write previous).toJson) :
    (∀ t : Disk, t.RestsGeneration deps pointer old →
      CrashSafePut deps op write pointer old window t) ↔ KeepsServed pointer old write := by
  refine ⟨fun hsafe => ?_, fun hkeeps t ht => putLocked_crash_safe ht hvalid hreads hkeeps⟩
  have hpair := restsGeneration_pair h
  have hapart : Apart old (cacheCommit deps op.now write none) op.suffix :=
    apart_cacheCommit h.imagePath none
  exact keepsServed_of_crash_safe hpair (ready_restingDisk (lookup_pairFiles_other
    (fun heq => hapart.imageTemp (.inl heq))
    fun heq => hapart.imageTemp (.inr (.inl heq)))) (hsafe _ hpair)

/-- The image that the pointer names is in place. -/
def Disk.HoldsImage (s : Disk) (deps : CacheDeps) : Prop :=
  ∀ pointer, s.Names deps pointer →
    ∃ bytes synced, s.get (imagePathOf pointer.record.generationId) = some (.file bytes synced)

lemma Disk.Names.eq {s : Disk} (h : s.Names deps pointer) {encoded : Bytes} {synced : Bool}
    {raw : Text} (hget : s.get pointerPath = some (.file encoded synced))
    (hdecode : deps.json.decode encoded = some raw) {pointer' : CachePointer}
    (hparse : parsePointer deps raw = some pointer') : pointer = pointer' := by
  obtain ⟨encoded', _, raw', hget', -, hdecode', hparse'⟩ := h.named
  cases hget.symm.trans hget'
  cases hdecode.symm.trans hdecode'
  exact Option.some.inj (hparse'.symm.trans hparse)

/-- No step of a put, and no crash in it, takes the image from under the pointer. -/
theorem putLocked_holdsImage (h : s.RestsGeneration deps pointer old)
    (hvalid : validateWrite deps write = .ok ())
    (hreads : ∀ previous, ReadsPrevious pointer previous →
      deps.json.Reads (cachePointer deps op.now write previous).toJson) {t t' : Disk}
    (hpass : Passes (Faulty window) (putLocked deps op write) s t) (hcrash : t.Survives t') :
    t'.HoldsImage deps := by
  intro standing hstanding
  obtain ⟨previous, hprevious, hsound⟩ := (putLocked_sound h).passes hpass
  obtain ⟨oldRaw, holdDecode, holdParse⟩ := h.reads
  rcases hsound.survives hcrash with ⟨synced, hpointer, bytes, flag, himage, -⟩ |
    ⟨synced, hpointer, -, flag, himage⟩
  · obtain rfl := hstanding.eq hpointer holdDecode holdParse
    rw [← h.imagePath]
    exact ⟨bytes, flag, himage⟩
  · obtain ⟨raw, hdecode, hraw⟩ := hreads previous hprevious
    obtain rfl := hstanding.eq hpointer hdecode (parsePointer_toJson
      (cachePointer_stores hvalid op previous) (previous_of_cachePointer op write holdParse hprevious) hraw)
    exact ⟨_, flag, himage⟩

end Iff

end Kwiry.Cache
