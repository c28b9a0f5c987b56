import Kwiry.Foundations.Insertion
import Kwiry.Foundations.Sorting

/-!
# Pending Vault Changes

The pending work of `InPluginIndexController`: vault events are merged into a set of paths to read
again, a set of paths to remove and a map of renames, and drained one change at a time. Vault
activity counters, timers and the retry marks of unreadable sources do not decide what is
pending and are left out.
-/

namespace Kwiry.Plugin

open Foundations

/-- A JavaScript string, as its code units. -/
abbrev JsString := List UInt16

instance : LawfulBEq JsString := inferInstance

inductive VaultSourceEvent where
  | upsert (path : JsString)
  | remove (path : JsString)
  | rename (oldPath path : JsString)
  | rescan

structure PendingChanges where
  (upserts removals : List JsString)
  renames : List (JsString × JsString)
  rescanRequested : Bool

namespace PendingChanges

def empty : PendingChanges :=
  ⟨[], [], [], false⟩

def hasPendingChanges (pending : PendingChanges) : Bool :=
  !pending.upserts.isEmpty || !pending.removals.isEmpty || !pending.renames.isEmpty

/-! ## §1 Events -/

def requestAuthoritativeRescan (_ : PendingChanges) : PendingChanges :=
  ⟨[], [], [], true⟩

def queueUpsert (pending : PendingChanges) (path : JsString) : PendingChanges :=
  let removals := setDelete path pending.removals
  if path ∈ pending.renames.map Prod.snd then { pending with removals := removals }
  else { pending with removals := removals, upserts := setAdd path pending.upserts }

/-- The pending rename that ends at a path. -/
def chained (pending : PendingChanges) (path : JsString) : Option (JsString × JsString) :=
  pending.renames.find? fun entry => entry.2 = path

def queueRemoval (pending : PendingChanges) (path : JsString) : PendingChanges :=
  match pending.chained path with
  | some (root, _) =>
    if pending.renames.any fun entry => entry.1 ≠ root && entry.2 = root then
      pending.requestAuthoritativeRescan
    else
      { pending with
        renames := mapDelete root pending.renames
        upserts := setDelete path pending.upserts
        removals := setAdd path (setAdd root pending.removals) }
  | none =>
    { pending with
      upserts := setDelete path pending.upserts
      removals := setAdd path pending.removals }

/-- Whether following renames from a path comes back to a path already seen. A turn sees one more
key, so as many turns as there are keys and one more decide. -/
def followsCycle (renames : List (JsString × JsString)) :
    ℕ → List JsString → JsString → Bool
  | 0, _, _ => true
  | turns + 1, seen, path =>
    if path ∈ seen then true
    else
      match renames.find? fun entry => entry.1 = path with
      | some (_, next) => followsCycle renames turns (path :: seen) next
      | none => false

def hasRenameCycle (renames : List (JsString × JsString)) : Bool :=
  renames.any fun entry => followsCycle renames (renames.length + 2) [] entry.1

def queueRename (pending : PendingChanges) (oldPath path : JsString) : PendingChanges :=
  if oldPath ∈ mapKeys pending.renames then pending.requestAuthoritativeRescan
  else
    let root := ((pending.chained oldPath).map Prod.fst).getD oldPath
    let renames := mapSet root path pending.renames
    if hasRenameCycle renames then pending.requestAuthoritativeRescan
    else
      { pending with
        renames := renames
        upserts := setDelete path (setDelete oldPath (setDelete root pending.upserts))
        removals := setDelete path pending.removals }

/-- The paths that pending work names. -/
def paths (pending : PendingChanges) : List JsString :=
  (pending.upserts ++ pending.removals ++
    pending.renames.flatMap fun entry => [entry.1, entry.2]).dedup

def enforcePendingBound (maxPendingPaths : ℕ) (pending : PendingChanges) : PendingChanges :=
  if pending.paths.length ≤ maxPendingPaths then pending else pending.requestAuthoritativeRescan

def handleEvent (maxPendingPaths : ℕ) (pending : PendingChanges) (event : VaultSourceEvent) :
    PendingChanges :=
  enforcePendingBound maxPendingPaths <|
    match event with
    | .upsert path => pending.queueUpsert path
    | .remove path => pending.queueRemoval path
    | .rename oldPath path => pending.queueRename oldPath path
    | .rescan => pending.requestAuthoritativeRescan

/-! ## §2 Draining -/

/-- What one turn takes: paths to remove, then paths to read. -/
structure TakenChanges where
  (upserts removals : List JsString)

def takePendingChanges (pending : PendingChanges) : TakenChanges × PendingChanges :=
  match pending.renames with
  | (oldPath, path) :: _ =>
    (⟨[path], [oldPath]⟩, { pending with renames := mapDelete oldPath pending.renames })
  | [] =>
    match sortBy compare (pending.removals ++ pending.upserts) with
    | [] => (⟨[], []⟩, pending)
    | path :: _ =>
      (⟨if path ∈ pending.upserts then [path] else [],
          if path ∈ pending.removals then [path] else []⟩,
        { pending with
          upserts := setDelete path pending.upserts
          removals := setDelete path pending.removals })

end PendingChanges

/-- The paths that are indexed and those that were read. -/
structure IndexedPaths where
  (paths reads : List JsString)

/-- One turn: the reads of present files succeed, those of absent ones report them missing. A
present file that is to be removed as well is kept. -/
def applyPendingChanges (vault : List JsString) (index : IndexedPaths)
    (changes : PendingChanges.TakenChanges) : IndexedPaths :=
  let upserts := changes.upserts.filter (· ∈ vault)
  let missing := changes.upserts.filter (· ∉ vault)
  let removals := changes.removals.filter (· ∉ upserts) ++ missing
  { paths := upserts.foldl (fun paths path => setAdd path paths)
      (index.paths.filter (· ∉ removals))
    reads := index.reads ++ upserts }

/-- Turns until nothing is pending, at most so many. -/
def drain (vault : List JsString) :
    ℕ → PendingChanges × IndexedPaths → PendingChanges × IndexedPaths
  | 0, state => state
  | turns + 1, (pending, index) =>
    if pending.hasPendingChanges then
      let (changes, pending) := pending.takePendingChanges
      drain vault turns (pending, applyPendingChanges vault index changes)
    else (pending, index)

/-- One turn for each pending entry. -/
def PendingChanges.size (pending : PendingChanges) : ℕ :=
  pending.upserts.length + pending.removals.length + pending.renames.length

def drainAll (vault : List JsString) (pending : PendingChanges) (index : IndexedPaths) :
    PendingChanges × IndexedPaths :=
  drain vault pending.size (pending, index)

end Kwiry.Plugin
