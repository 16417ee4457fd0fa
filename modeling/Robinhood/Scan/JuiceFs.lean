/-
# Scan.JuiceFs — the baseline scan of a JuiceFS mount

`adapt` (`rbh-fs-scan/src/juicefs.rs`) turns one walked entry into a row and an edge, and
`run_juicefs_baseline` (`rbh-daemon/src/lib.rs`) clears the catalog and stores what the walker reports.
The walk itself is an input: the events it reported and the errors it counted.
-/
import Mathlib
import Robinhood.Store.Catalog

namespace Robinhood.Scan

open Lib Posix Store

/-! ## §1 — Adapting one entry -/

/-- The fields of a `PosixEntry` that `adapt` reads. -/
structure PosixEntry where
  name : Name
  kind : EntryKind
  inode : UInt64
  parentInode : Option UInt64
  size : UInt64
  blocks : UInt64
  uid : UInt32
  gid : UInt32
  mode : UInt32
  nlink : UInt32
  atime : Int
  mtime : Int
  ctime : Int
  depth : UInt32
deriving DecidableEq, Repr

/-- The row `adapt` builds. -/
def adaptRow (filesystem : FileSystemId) (entry : PosixEntry) (observedAt : Int) :
    ScopedEntryRow where
  key := ⟨filesystem, .juiceFs entry.inode⟩
  parent := entry.parentInode.map fun value => ⟨filesystem, .juiceFs value⟩
  name := entry.name
  kind := entry.kind
  size := entry.size
  blocks := entry.blocks
  uid := entry.uid
  gid := entry.gid
  projid := 0
  mode := entry.mode
  nlink := entry.nlink
  atime := entry.atime
  mtime := entry.mtime
  ctime := entry.ctime
  stripeCount := none
  stripeSize := none
  stripeItems := []
  poolName := none
  smStatus := .null
  lastSeen := observedAt
  depth := entry.depth

def PosixEntry.edgeKey (entry : PosixEntry) : Option EdgeKey :=
  entry.parentInode.map fun parent => ⟨.juiceFs parent, entry.name⟩

/-- `adapt`. -/
def adapt (filesystem : FileSystemId) (entry : PosixEntry) (observedAt : Int) :
    Except String (ScopedEntryRow × Option ScopedNamespaceEdge) :=
  if entry.depth > 0 ∧ entry.parentInode.isNone then
    .error "non-root JuiceFS entry has no parent inode"
  else
    .ok (adaptRow filesystem entry observedAt, entry.parentInode.map fun parent =>
      ⟨filesystem, .juiceFs parent, entry.name, .juiceFs entry.inode⟩)

/-! ## §2 — The baseline -/

/-- `PosixWalkEvent`. -/
inductive PosixWalkEvent where
  | entry (entry : PosixEntry)
  | error (path error : String)
deriving DecidableEq, Repr

inductive BaselineError where
  | store (error : StoreError)
  | bail (text : String)
deriving DecidableEq

abbrev BaselineProc := Proc Catalog BaselineError

def storeEntry (filesystem : FileSystemId) (observedAt : Int) (entry : PosixEntry) :
    BaselineProc Unit := do
  let adapted ← Proc.ofExcept ((adapt filesystem entry observedAt).mapError .bail)
  (upsertScopedEntry adapted.1).mapError .store
  match adapted.2 with
  | some edge => (upsertScopedNamespaceEdge edge).mapError .store
  | none => pure ()

/-- The loop of `run_juicefs_baseline` over the walker's events. -/
def storeWalk (filesystem : FileSystemId) (observedAt now : Int) :
    List PosixWalkEvent → BaselineProc Unit
  | [] => pure ()
  | .entry entry :: events => do
    storeEntry filesystem observedAt entry
    storeWalk filesystem observedAt now events
  | .error path error :: _ => do
    (setBaselineState .invalid none (some error) now).mapError .store
    .fail (.bail ("JuiceFS baseline scan failed at " ++ path ++ ": " ++ error))

/-- **`run_juicefs_baseline`** over the events of one walk that counted `errors` errors. -/
def runJuicefsBaseline (filesystem : FileSystemId) (events : List PosixWalkEvent) (errors : ℕ)
    (observedAt now : Int) : BaselineProc Unit := do
  (setBaselineState .scanning none none now).mapError .store
  clearScopedCatalog.mapError .store
  storeWalk filesystem observedAt now events
  if errors ≠ 0 then
    (setBaselineState .invalid none (some "POSIX scan errors") now).mapError .store
    .fail (.bail ("JuiceFS baseline scan completed with " ++ toString errors ++ " errors"))
  else
    (setBaselineState .catchingUp none none now).mapError .store

/-! ## §3 — What an accepted walk stored -/

variable {filesystem : FileSystemId} {observedAt now : Int} {c c' : Catalog}

theorem run_mapError_store_ok {α : Type} {p : StoreProc α} {a : α} :
    (p.mapError BaselineError.store).run c = (.ok a, c') ↔ p.run c = (.ok a, c') := by
  rw [Proc.run_mapError]
  rcases p.run c with ⟨_ | _, _⟩ <;> simp [Except.mapError]

def Catalog.withWalked (c : Catalog) (filesystem : FileSystemId) (observedAt : Int)
    (entry : PosixEntry) : Catalog :=
  let c := c.putRow (.juiceFs entry.inode) (adaptRow filesystem entry observedAt)
  entry.edgeKey.elim c fun key => c.putEdge key (.juiceFs entry.inode)

theorem run_storeEntry_ok {entry : PosixEntry}
    (h : (storeEntry filesystem observedAt entry).run c = (.ok (), c')) :
    c' = Catalog.withWalked c filesystem observedAt entry := by
  simp only [storeEntry, adapt, Proc.run_bind_eq_ok, Proc.run_ofExcept, Prod.mk.injEq] at h
  obtain ⟨_, _, ⟨hadapted, rfl⟩, _, _, hrow, hedge⟩ := h
  split_ifs at hadapted
  · cases hadapted
  · cases hadapted
    obtain ⟨-, rfl⟩ := run_upsertScopedEntry_ok.1 (run_mapError_store_ok.1 hrow)
    rw [Catalog.withWalked, PosixEntry.edgeKey]
    cases hparent : entry.parentInode with
    | none | some =>
      rw [hparent] at hedge
      cases hedge
      rfl

def walkedEntries (events : List PosixWalkEvent) : List PosixEntry :=
  events.filterMap fun
    | .entry entry => some entry
    | .error .. => none

/-- **An accepted walk** stored its entries one after the other. -/
theorem run_storeWalk_ok {events : List PosixWalkEvent}
    (h : (storeWalk filesystem observedAt now events).run c = (.ok (), c')) :
    c' = (walkedEntries events).foldl
      (fun c entry => Catalog.withWalked c filesystem observedAt entry) c := by
  induction events generalizing c with
  | nil =>
    cases h
    rfl
  | cons event events ih =>
    cases event with
    | error path error =>
      rw [storeWalk, Proc.run_bind_eq_ok] at h
      obtain ⟨_, _, _, hfail⟩ := h
      cases hfail
    | entry entry =>
      rw [storeWalk, Proc.run_bind_eq_ok] at h
      obtain ⟨_, d, hentry, hrest⟩ := h
      rw [ih hrest, run_storeEntry_ok hentry]
      rfl

/-- **An accepted baseline** holds exactly what the walk stored into the cleared catalog. -/
theorem run_runJuicefsBaseline_ok {events : List PosixWalkEvent} {errors : ℕ}
    (h : (runJuicefsBaseline filesystem events errors observedAt now).run c = (.ok (), c')) :
    c' = ((walkedEntries events).foldl
      (fun c entry => Catalog.withWalked c filesystem observedAt entry)
      (c.withBaseline .scanning none none now).cleared).withBaseline .catchingUp none none now := by
  simp only [runJuicefsBaseline, Proc.run_bind_eq_ok, run_mapError_store_ok, setBaselineState,
    clearScopedCatalog, Proc.run_write, Prod.mk.injEq] at h
  obtain ⟨_, _, ⟨_, rfl⟩, _, _, ⟨_, rfl⟩, _, d, hwalk, hend⟩ := h
  split_ifs at hend with herrors
  · rw [Proc.run_bind_eq_ok] at hend
    obtain ⟨_, _, _, hfail⟩ := hend
    cases hfail
  · rw [run_mapError_store_ok, Proc.run_write] at hend
    cases hend
    rw [run_storeWalk_ok hwalk]

/-! ## §4 — Lookups in a stored walk -/

def scannedChild (entries : List PosixEntry) (k : EdgeKey) : Option ObjectId :=
  (entries.reverse.find? fun entry => entry.edgeKey = some k).map fun entry => .juiceFs entry.inode

def scannedEntry (entries : List PosixEntry) (o : ObjectId) : Option PosixEntry :=
  entries.reverse.find? fun entry => .juiceFs entry.inode = o

theorem child_foldl_withWalked (entries : List PosixEntry) (k : EdgeKey) :
    (entries.foldl (fun c entry => Catalog.withWalked c filesystem observedAt entry) c).child k =
      (scannedChild entries k).or (c.child k) := by
  induction entries using List.reverseRecOn with
  | nil => rfl
  | append_singleton entries entry ih =>
    rw [scannedChild] at ih
    rw [List.foldl_append, List.foldl_cons, List.foldl_nil, Catalog.withWalked, scannedChild,
      List.reverse_append, List.reverse_singleton, List.singleton_append, List.find?_cons]
    cases entry.edgeKey with
    | none => simpa using ih
    | some key =>
      by_cases hk : key = k
      · simp [hk]
      · simpa [hk] using ih

theorem row_foldl_withWalked (entries : List PosixEntry) (o : ObjectId) :
    (entries.foldl (fun c entry => Catalog.withWalked c filesystem observedAt entry) c).row o =
      ((scannedEntry entries o).map fun entry => adaptRow filesystem entry observedAt).or
        (c.row o) := by
  induction entries using List.reverseRecOn with
  | nil => rfl
  | append_singleton entries entry ih =>
    rw [scannedEntry] at ih
    rw [List.foldl_append, List.foldl_cons, List.foldl_nil, Catalog.withWalked, scannedEntry,
      List.reverse_append, List.reverse_singleton, List.singleton_append, List.find?_cons]
    by_cases ho : .juiceFs entry.inode = o
    · cases entry.edgeKey <;> simp [ho]
    · cases entry.edgeKey <;> simpa [ho] using ih

end Robinhood.Scan
