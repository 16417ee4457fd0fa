/-
# Ingest.JuiceFs — `apply_juicefs_change` (`rbh-daemon/src/changelog.rs`)

One record of a JuiceFS changelog applied to the catalog.  CREATE, WRITE and SETATTR also look at the
live mount, which may already be far ahead of the record; MOVE, LINK, UNLINK and RMDIR only use the
catalog.  CREATE is two transactions and MOVE is three, so a crash can leave part of one behind.
-/
import Mathlib
import Robinhood.Ingest.Change
import Robinhood.Namespace.Adapter

namespace Robinhood.Ingest

open Lib Posix Store Namespace

/-! ## §1 — Errors -/

/-- The errors that reach `ingest_loop`; `bailAt` is a text followed by a path. -/
inductive IngestError where
  | store (error : StoreError)
  | namespace_ (error : NamespaceError)
  | io (error : IoError)
  | bail (text : String)
  | bailAt (text : String) (path : Path)
deriving DecidableEq

abbrev IngestProc := Proc Catalog IngestError

def liftStore {α : Type} (p : StoreProc α) : IngestProc α := p.mapError .store

/-- `object_inode`. -/
def objectInode : ObjectId → Except IngestError UInt64
  | .juiceFs inode => .ok inode
  | .lustre _ => .error (.bail "expected JuiceFS inode")

/-! ## §2 — The rows ingest writes -/

/-- `u64 as u32`. -/
def truncate32 (n : UInt64) : UInt32 := n.toUInt32

/-- The row a CREATE record writes; `live` is what the mount shows at `path` now, if anything. -/
def createdRow (filesystem : FileSystemId) (mount : Path) (object parent : ObjectId) (name : Name)
    (kind : EntryKind) (owner : CreatedMetadata) (live : Option Metadata) (time : Int) (path : Path) :
    ScopedEntryRow where
  key := ⟨filesystem, object⟩
  parent := some ⟨filesystem, parent⟩
  name := name
  kind := kind
  size := live.elim 0 Metadata.size
  blocks := live.elim 0 Metadata.blocks
  uid := owner.uid
  gid := owner.gid
  projid := 0
  mode := owner.mode
  nlink := live.elim 1 fun value => truncate32 value.nlink
  atime := live.elim time Metadata.atime
  mtime := live.elim time Metadata.mtime
  ctime := live.elim time Metadata.ctime
  stripeCount := none
  stripeSize := none
  stripeItems := []
  poolName := none
  smStatus := .null
  lastSeen := time
  depth := (path.stripPrefix mount).elim 0 fun value => UInt32.ofNat value.length

def movedRow (entry : ScopedEntryRow) (filesystem : FileSystemId) (parent : ObjectId) (name : Name)
    (time : Int) : ScopedEntryRow :=
  { entry with parent := some ⟨filesystem, parent⟩, name := name, ctime := time, lastSeen := time }

def refreshedRow (entry : ScopedEntryRow) (live : Metadata) (time : Int) : ScopedEntryRow :=
  { entry with
    size := live.size, blocks := live.blocks, uid := live.uid, gid := live.gid, mode := live.mode,
    nlink := truncate32 live.nlink, atime := live.atime, mtime := live.mtime, ctime := live.ctime,
    lastSeen := time }

/-! ## §3 — The record kinds -/

/-- `NamespaceAdapter::new(store, filesystem).resolve(Object(key)).path`. -/
def resolvedPath (filesystem : FileSystemId) (live : Mount) (key : EntryKey) (c : Catalog) :
    Except IngestError Path := do
  let config ← (newAdapter c filesystem).mapError .namespace_
  let resolved ← (resolveObject config ⟨c, live⟩ key).mapError .namespace_
  .ok resolved.path

def createdOwner (live : Option Metadata) (metadata : Option CreatedMetadata) :
    Except IngestError CreatedMetadata :=
  match live, metadata with
  | some value, _ => .ok ⟨value.uid, value.gid, value.mode⟩
  | none, some value => .ok value
  | none, none => .error (.bail "CREATE has neither live nor recorded metadata")

def checkInode (live : Metadata) (object : ObjectId) (text : String) (path : Path) :
    Except IngestError Unit := do
  let inode ← objectInode object
  if live.ino ≠ inode then .error (.bailAt text path) else .ok ()

def checkCreated (found : Option Metadata) (object : ObjectId) (path : Path) :
    Except IngestError Unit :=
  match found with
  | some value => checkInode value object "JuiceFS inode changed before CREATE apply: " path
  | none => .ok ()

def createdPlan (filesystem : FileSystemId) (mount : Path) (live : Mount) (object parent : ObjectId)
    (name : Name) (kind : EntryKind) (metadata : Option CreatedMetadata) (time : Int) (c : Catalog) :
    Except IngestError ScopedEntryRow := do
  let parentPath ← resolvedPath filesystem live ⟨filesystem, parent⟩ c
  let path := parentPath.push name
  let found := (live.symlinkMetadata path).toOption
  checkCreated found object path
  let owner ← createdOwner found metadata
  .ok (createdRow filesystem mount object parent name kind owner found time path)

/-- The `Created` branch. -/
def applyCreated (filesystem : FileSystemId) (mount : Path) (live : Mount) (object parent : ObjectId)
    (name : Name) (kind : EntryKind) (metadata : Option CreatedMetadata) (time : Int) :
    IngestProc Unit := do
  let row ← Proc.ask (createdPlan filesystem mount live object parent name kind metadata time)
  liftStore (upsertScopedEntry row)
  liftStore (upsertScopedNamespaceEdge ⟨filesystem, parent, name, object⟩)

/-- The `Renamed` branch. -/
def applyRenamed (filesystem : FileSystemId) (object sourceParent : ObjectId) (sourceName : Name)
    (parent : ObjectId) (name : Name) (time : Int) : IngestProc Unit := do
  match ← liftStore (getScopedEntry ⟨filesystem, object⟩) with
  | none => .fail (.bail "MOVE references an uncataloged inode")
  | some entry =>
    liftStore (upsertScopedEntry (movedRow entry filesystem parent name time))
    let _ ← liftStore (removeScopedNamespaceEdge sourceParent sourceName)
    liftStore (upsertScopedNamespaceEdge ⟨filesystem, parent, name, object⟩)

/-- What a WRITE, SETATTR or xattr record writes, from the row it found. -/
def refreshedPlan (filesystem : FileSystemId) (live : Mount) (object : ObjectId) (time : Int)
    (entry : ScopedEntryRow) (c : Catalog) : Except IngestError ScopedEntryRow := do
  let path ← resolvedPath filesystem live ⟨filesystem, object⟩ c
  let value ← (live.symlinkMetadata path).mapError .io
  checkInode value object "JuiceFS inode changed before metadata apply: " path
  .ok (refreshedRow entry value time)

/-- The `MetadataChanged` and `ContentChanged` branch. -/
def applyRefreshed (filesystem : FileSystemId) (live : Mount) (object : ObjectId) (time : Int) :
    IngestProc Unit := do
  match ← liftStore (getScopedEntry ⟨filesystem, object⟩) with
  | none => .fail (.bail "change references an uncataloged inode")
  | some entry =>
    let row ← Proc.ask (refreshedPlan filesystem live object time entry)
    liftStore (upsertScopedEntry row)

/-- **`apply_juicefs_change`**, against one instant `live` of the mount. -/
def applyJuicefsChange (filesystem : FileSystemId) (mount : Path) (live : Mount) :
    Change → IngestProc Unit
  | .created object parent name kind metadata time =>
    applyCreated filesystem mount live object parent name kind metadata time
  | .renamed object sourceParent sourceName parent name time =>
    applyRenamed filesystem object sourceParent sourceName parent name time
  | .removed object parent name _ directory time =>
    liftStore (applyScopedUnlink ⟨filesystem, object⟩ parent name time directory)
  | .metadataChanged object _ time | .contentChanged object _ _ _ time =>
    applyRefreshed filesystem live object time
  | .hardlinked object parent name time =>
    liftStore (applyScopedHardlink ⟨filesystem, parent, name, object⟩ time)
  | .backend _ => .fail (.bail "backend event cannot belong to JuiceFS")

/-! ## §4 — What an accepted record did -/

variable {filesystem : FileSystemId} {mount : Path} {live : Mount} {c c' : Catalog}

theorem run_liftStore {α : Type} (p : StoreProc α) (c : Catalog) :
    (liftStore p).run c = ((p.run c).1.mapError .store, (p.run c).2) :=
  Proc.run_mapError ..

theorem run_liftStore_ok {α : Type} {p : StoreProc α} {a : α} :
    (liftStore p).run c = (.ok a, c') ↔ p.run c = (.ok a, c') := by
  rw [run_liftStore]
  rcases p.run c with ⟨_ | _, _⟩ <;> simp [Except.mapError]

theorem atomic_liftStore {α : Type} {p : StoreProc α} (hp : p.Atomic) : (liftStore p).Atomic :=
  hp.mapError _

theorem resolvedPath_ok {inode : UInt64} {path : Path}
    (h : resolvedPath filesystem live ⟨filesystem, .juiceFs inode⟩ c = .ok path) :
    ∃ md, live.symlinkMetadata path = .ok md ∧ md.ino = inode := by
  obtain ⟨config, -, h⟩ := except_bind_eq_ok.1 h
  obtain ⟨resolved, hresolved, h⟩ := except_bind_eq_ok.1 h
  cases h
  exact resolveObject_juiceFs_ok (except_mapError_eq_ok.1 hresolved)

theorem checkInode_ok {value : Metadata} {object : ObjectId} {text : String} {path : Path}
    (h : checkInode value object text path = .ok ()) : object = .juiceFs value.ino := by
  obtain ⟨inode, hinode, h⟩ := except_bind_eq_ok.1 h
  split_ifs at h with hne
  cases object with
  | juiceFs i =>
    cases hinode
    rw [not_not.1 hne]
  | lustre fid => cases hinode

theorem createdPlan_ok {object parent : ObjectId} {name : Name} {kind : EntryKind}
    {metadata : Option CreatedMetadata} {time : Int} {row : ScopedEntryRow}
    (h : createdPlan filesystem mount live object parent name kind metadata time c = .ok row) :
    ∃ parentPath owner, resolvedPath filesystem live ⟨filesystem, parent⟩ c = .ok parentPath ∧
      (∀ md, live.symlinkMetadata (parentPath.push name) = .ok md → object = .juiceFs md.ino) ∧
      row = createdRow filesystem mount object parent name kind owner
        (live.symlinkMetadata (parentPath.push name)).toOption time (parentPath.push name) := by
  obtain ⟨parentPath, hparent, h⟩ := except_bind_eq_ok.1 h
  obtain ⟨_, hcheck, h⟩ := except_bind_eq_ok.1 h
  obtain ⟨owner, -, h⟩ := except_bind_eq_ok.1 h
  cases h
  refine ⟨parentPath, owner, hparent, fun md hmd => ?_, rfl⟩
  rw [hmd] at hcheck
  exact checkInode_ok hcheck

theorem refreshedPlan_ok {inode : UInt64} {time : Int} {entry row : ScopedEntryRow}
    (h : refreshedPlan filesystem live (.juiceFs inode) time entry c = .ok row) :
    ∃ path md, live.symlinkMetadata path = .ok md ∧ md.ino = inode ∧
      row = refreshedRow entry md time := by
  obtain ⟨path, -, h⟩ := except_bind_eq_ok.1 h
  obtain ⟨md, hmd, h⟩ := except_bind_eq_ok.1 h
  obtain ⟨_, hcheck, h⟩ := except_bind_eq_ok.1 h
  cases h
  exact ⟨path, md, except_mapError_eq_ok.1 hmd, (ObjectId.juiceFs.inj (checkInode_ok hcheck)).symm,
    rfl⟩

/-- **CREATE** writes the planned row and then the edge. -/
theorem run_applyCreated_ok {object parent : ObjectId} {name : Name} {kind : EntryKind}
    {metadata : Option CreatedMetadata} {time : Int} :
    (applyCreated filesystem mount live object parent name kind metadata time).run c = (.ok (), c') ↔
      ∃ row, createdPlan filesystem mount live object parent name kind metadata time c = .ok row ∧
        c.Accepts row ∧ c' = (c.putRow row.key.object row).putEdge ⟨parent, name⟩ object := by
  simp only [applyCreated, Proc.run_bind_eq_ok, Proc.run_ask, Prod.mk.injEq, run_liftStore_ok,
    run_upsertScopedEntry_ok, upsertScopedNamespaceEdge, Proc.run_write,
    ScopedNamespaceEdge.edgeKey]
  constructor
  · rintro ⟨row, _, ⟨hplan, rfl⟩, _, _, ⟨haccepts, rfl⟩, _, rfl⟩
    exact ⟨row, hplan, haccepts, rfl⟩
  · rintro ⟨row, hplan, haccepts, rfl⟩
    exact ⟨row, c, ⟨hplan, rfl⟩, (), _, ⟨haccepts, rfl⟩, trivial, rfl⟩

/-- **MOVE** rewrites the row it found, drops the source edge and sets the target edge. -/
theorem run_applyRenamed_ok {object sourceParent parent : ObjectId} {sourceName name : Name}
    {time : Int} :
    (applyRenamed filesystem object sourceParent sourceName parent name time).run c = (.ok (), c') ↔
      ∃ entry, c.row object = some entry ∧ entry.key = ⟨filesystem, object⟩ ∧
        c.Accepts (movedRow entry filesystem parent name time) ∧
        c' = ((c.putRow object (movedRow entry filesystem parent name time)).dropEdge
          ⟨sourceParent, sourceName⟩).putEdge ⟨parent, name⟩ object := by
  simp only [applyRenamed, Proc.run_bind_eq_ok, run_liftStore_ok, getScopedEntry, Proc.run_ask,
    Prod.mk.injEq]
  constructor
  · rintro ⟨_ | entry, _, ⟨hentry, rfl⟩, hrest⟩
    · simp at hrest
    · obtain ⟨hrow, hkey⟩ := scopedEntry_eq_some.1 hentry
      simp only [Proc.run_bind_eq_ok, run_liftStore_ok, run_upsertScopedEntry_ok,
        removeScopedNamespaceEdge, Proc.run_step, Proc.run_pure, upsertScopedNamespaceEdge,
        Proc.run_write, Prod.mk.injEq, ScopedNamespaceEdge.edgeKey] at hrest
      obtain ⟨_, _, ⟨haccepts, rfl⟩, _, _, ⟨_, rfl⟩, _, rfl⟩ := hrest
      refine ⟨entry, hrow, hkey, haccepts, ?_⟩
      simp only [movedRow, hkey]
  · rintro ⟨entry, hrow, hkey, haccepts, rfl⟩
    refine ⟨some entry, c, ⟨scopedEntry_eq_some.2 ⟨hrow, hkey⟩, rfl⟩, ?_⟩
    simp only [Proc.run_bind_eq_ok, run_liftStore_ok, run_upsertScopedEntry_ok,
      removeScopedNamespaceEdge, Proc.run_step, Proc.run_pure, upsertScopedNamespaceEdge,
      Proc.run_write, Prod.mk.injEq, ScopedNamespaceEdge.edgeKey]
    refine ⟨(), _, ⟨haccepts, rfl⟩, _, _, ⟨rfl, rfl⟩, trivial, ?_⟩
    simp only [movedRow, hkey]

/-- **WRITE, SETATTR** and the xattr records rewrite the row they found. -/
theorem run_applyRefreshed_ok {object : ObjectId} {time : Int} :
    (applyRefreshed filesystem live object time).run c = (.ok (), c') ↔
      ∃ entry row, c.row object = some entry ∧ entry.key = ⟨filesystem, object⟩ ∧
        refreshedPlan filesystem live object time entry c = .ok row ∧ c.Accepts row ∧
        c' = c.putRow row.key.object row := by
  simp only [applyRefreshed, Proc.run_bind_eq_ok, run_liftStore_ok, getScopedEntry, Proc.run_ask,
    Prod.mk.injEq]
  constructor
  · rintro ⟨_ | entry, _, ⟨hentry, rfl⟩, hrest⟩
    · simp at hrest
    · obtain ⟨hrow, hkey⟩ := scopedEntry_eq_some.1 hentry
      simp only [Proc.run_bind_eq_ok, run_liftStore_ok, run_upsertScopedEntry_ok, Proc.run_ask,
        Prod.mk.injEq] at hrest
      obtain ⟨row, _, ⟨hplan, rfl⟩, haccepts, rfl⟩ := hrest
      exact ⟨entry, row, hrow, hkey, hplan, haccepts, rfl⟩
  · rintro ⟨entry, row, hrow, hkey, hplan, haccepts, rfl⟩
    refine ⟨some entry, c, ⟨scopedEntry_eq_some.2 ⟨hrow, hkey⟩, rfl⟩, ?_⟩
    simp only [Proc.run_bind_eq_ok, run_liftStore_ok, run_upsertScopedEntry_ok, Proc.run_ask,
      Prod.mk.injEq]
    exact ⟨row, c, ⟨hplan, rfl⟩, haccepts, rfl⟩

/-- **UNLINK and RMDIR** always succeed. -/
theorem run_removed (object parent : ObjectId) (name : Name) (time : Int) (directory : Bool) :
    (liftStore (applyScopedUnlink ⟨filesystem, object⟩ parent name time directory)).run c =
      (.ok (), applyScopedUnlinkTx ⟨filesystem, object⟩ parent name time directory c) :=
  run_liftStore ..

/-- **LINK** succeeds exactly when its transaction does. -/
theorem run_hardlinked_ok {edge : ScopedNamespaceEdge} {time : Int} :
    (liftStore (applyScopedHardlink edge time)).run c = (.ok (), c') ↔
      applyScopedHardlinkTx edge time c = .ok c' := by
  rw [run_liftStore_ok, applyScopedHardlink, Proc.run_txn]
  cases applyScopedHardlinkTx edge time c <;> simp

end Robinhood.Ingest
