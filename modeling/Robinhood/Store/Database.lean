/-
# Store.Database — the tables that all filesystems share

The scoped tables begin their primary keys with `filesystem_id`, a `VARCHAR` without a collation of its
own: two identifiers are one key when the server's default collation cannot tell them apart.  For the
alphabet of identifiers that collation ignores the case of letters, so a row's owner is the lower-cased
text.  A filesystem's own part of the seven tables is its slice; §2 says that the changes of a slice
which the operations are made of are statements `… WHERE filesystem_id = ?` on the shared tables.
-/
import Mathlib
import Robinhood.Lib.Shared
import Robinhood.Store.Lustre
import Robinhood.Store.Xattr

namespace Robinhood.Store

open Lib
open Posix (Name)

/-! ## §1 — Owners and slices -/

/-- What the default collation of `utf8mb4` compares of a text of letters, digits, `-`, `_` and `.`. -/
abbrev CollationKey := List Char

def collationKey (text : String) : CollationKey := text.toList.map Char.toLower

def FileSystemId.owner (id : FileSystemId) : CollationKey := collationKey id.value

/-- A row of `changelog_cursor`. -/
structure ChangelogCursor where
  readerId : Option String
  lastRec : UInt64
  updatedAt : Int
deriving DecidableEq

/-- **The scoped tables.** -/
structure Database where
  filesystems : Table CollationKey FileSystemConfig
  entries : Table (Owned CollationKey ObjectId) ScopedEntryRow
  edges : Table (Owned CollationKey EdgeKey) ObjectId
  stripeItems : Table (Owned CollationKey ObjectId) (List UInt32)
  removed : Table (Owned CollationKey ObjectId) ScopedRemovedEntry
  baselines : Table CollationKey FilesystemBaseline
  cursors : Table (Owned CollationKey CollationKey) ChangelogCursor

attribute [ext] Database

/-- **What a filesystem has in the tables**; the cursors are by the collation key of the MDT's name. -/
structure Slice where
  catalog : Catalog
  cursors : Table CollationKey ChangelogCursor

attribute [ext] Slice

namespace Database

/-- The tables of a new installation. -/
def empty : Database := ⟨∅, ∅, ∅, ∅, ∅, ∅, ∅⟩

def slice (db : Database) (owner : CollationKey) : Slice where
  catalog :=
    { filesystem := db.filesystems[owner]?
      entries := db.entries.slice owner
      edges := db.edges.slice owner
      stripeItems := db.stripeItems.slice owner
      removed := db.removed.slice owner
      baseline := db.baselines[owner]? }
  cursors := db.cursors.slice owner

def putSlice (db : Database) (owner : CollationKey) (s : Slice) : Database where
  filesystems := db.filesystems.putCell owner s.catalog.filesystem
  entries := db.entries.putSlice owner s.catalog.entries
  edges := db.edges.putSlice owner s.catalog.edges
  stripeItems := db.stripeItems.putSlice owner s.catalog.stripeItems
  removed := db.removed.putSlice owner s.catalog.removed
  baselines := db.baselines.putCell owner s.catalog.baseline
  cursors := db.cursors.putSlice owner s.cursors

variable (db : Database) (owner : CollationKey) (s s' : Slice)

@[simp]
theorem slice_putSlice_self : (db.putSlice owner s).slice owner = s := by
  simp only [slice, putSlice, Table.getElem?_putCell_self, Table.slice_putSlice_self]

theorem slice_putSlice_of_ne {owner other : CollationKey} (h : other ≠ owner) :
    (db.putSlice owner s).slice other = db.slice other := by
  simp only [slice, putSlice, Table.getElem?_putCell_of_ne _ h, Table.slice_putSlice_of_ne _ h]

@[simp]
theorem putSlice_putSlice : (db.putSlice owner s).putSlice owner s' = db.putSlice owner s' := by
  simp only [putSlice, Table.putCell_putCell, Table.putSlice_putSlice]

@[simp]
theorem putSlice_slice : db.putSlice owner (db.slice owner) = db := by
  simp only [putSlice, slice, Table.putCell_getElem?, Table.putSlice_slice]

end Database

/-! ## §2 — Statements -/

/-- **A statement that the operations are made of**, with the identifier left out that it is bound to.  Those
of `bind_legacy_lustre_cursors` are not among them: they join the rows of two identifiers. -/
inductive Statement where
  | insertFilesystem (config : FileSystemConfig)
  | insertEntry (object : ObjectId) (entry : ScopedEntryRow)
  | deleteEntry (object : ObjectId)
  | insertEdge (key : EdgeKey) (object : ObjectId)
  | deleteEdge (key : EdgeKey)
  | deleteEdgesOf (object : ObjectId)
  | replaceStripes (object : ObjectId) (items : List UInt32)
  | insertRemoved (object : ObjectId) (entry : ScopedEntryRow) (rmTime : Int)
  | deleteRemoved (object : ObjectId)
  | deleteStripes
  | deleteEdges
  | deleteEntries
  | insertBaseline (state : BaselineState) (lastVersion : Option UInt64) (reason : Option String)
      (now : Int)
  | insertCursor (mdt : String) (recId : UInt64) (now : Int)

/-- A filesystem registered again keeps the text its row was inserted with. -/
def Catalog.registered (c : Catalog) (config : FileSystemConfig) : Catalog :=
  { c with filesystem := some { config with id := (c.filesystem.map FileSystemConfig.id).getD config.id } }

def Catalog.dropRemoved (c : Catalog) (object : ObjectId) : Catalog :=
  { c with removed := c.removed.erase object }

/-- The row of a cursor after a commit: `GREATEST` keeps the larger record, and the reader stays. -/
def ChangelogCursor.committed (recId : UInt64) (now : Int) : Option ChangelogCursor → ChangelogCursor
  | some cursor => { cursor with lastRec := max cursor.lastRec recId, updatedAt := now }
  | none => ⟨none, recId, now⟩

def Statement.onSlice (s : Slice) : Statement → Slice
  | insertFilesystem config => { s with catalog := s.catalog.registered config }
  | insertEntry object entry => { s with catalog := s.catalog.putRow object entry }
  | deleteEntry object => { s with catalog := s.catalog.dropRow object }
  | insertEdge key object => { s with catalog := s.catalog.putEdge key object }
  | deleteEdge key => { s with catalog := s.catalog.dropEdge key }
  | deleteEdgesOf object => { s with catalog := s.catalog.dropEdgesOf object }
  | replaceStripes object items => { s with catalog := s.catalog.putStripes object items }
  | insertRemoved object entry rmTime => { s with catalog := s.catalog.putRemoved object entry rmTime }
  | deleteRemoved object => { s with catalog := s.catalog.dropRemoved object }
  | deleteStripes => { s with catalog := { s.catalog with stripeItems := ∅ } }
  | deleteEdges => { s with catalog := { s.catalog with edges := ∅ } }
  | deleteEntries => { s with catalog := { s.catalog with entries := ∅ } }
  | insertBaseline state lastVersion reason now =>
    { s with catalog := s.catalog.withBaseline state lastVersion reason now }
  | insertCursor mdt recId now =>
    { s with
      cursors := s.cursors.insert (collationKey mdt)
        (.committed recId now s.cursors[collationKey mdt]?) }

/-- **What a statement does to the shared tables**, as SQL reads it: the key of an insert is the bound
identifier and the rest, and `filesystem_id = ?` holds of the rows whose owner collates equal to it. -/
def Statement.exec (filesystem : FileSystemId) (db : Database) : Statement → Database
  | insertFilesystem config =>
    { db with
      filesystems := db.filesystems.insert filesystem.owner
        { config with
          id := (db.filesystems[filesystem.owner]?.map FileSystemConfig.id).getD config.id } }
  | insertEntry object entry =>
    { db with entries := db.entries.insert ⟨filesystem.owner, object⟩ entry }
  | deleteEntry object => { db with entries := db.entries.erase ⟨filesystem.owner, object⟩ }
  | insertEdge key object => { db with edges := db.edges.insert ⟨filesystem.owner, key⟩ object }
  | deleteEdge key => { db with edges := db.edges.erase ⟨filesystem.owner, key⟩ }
  | deleteEdgesOf object =>
    { db with edges := db.edges.deleteWhere fun key o => key.owner = filesystem.owner && o = object }
  | replaceStripes object items =>
    { db with
      stripeItems :=
        if items = [] then db.stripeItems.erase ⟨filesystem.owner, object⟩
        else db.stripeItems.insert ⟨filesystem.owner, object⟩ items }
  | insertRemoved object entry rmTime =>
    { db with removed := db.removed.insert ⟨filesystem.owner, object⟩ ⟨entry, rmTime⟩ }
  | deleteRemoved object => { db with removed := db.removed.erase ⟨filesystem.owner, object⟩ }
  | deleteStripes =>
    { db with stripeItems := db.stripeItems.deleteWhere fun key _ => key.owner = filesystem.owner }
  | deleteEdges => { db with edges := db.edges.deleteWhere fun key _ => key.owner = filesystem.owner }
  | deleteEntries =>
    { db with entries := db.entries.deleteWhere fun key _ => key.owner = filesystem.owner }
  | insertBaseline state lastVersion reason now =>
    { db with
      baselines := db.baselines.insert filesystem.owner
        { state := state
          scanStartedAt :=
            if state = .scanning then some now
            else db.baselines[filesystem.owner]?.bind FilesystemBaseline.scanStartedAt
          completedAt := if state = .ready then some now else none
          lastVersion := lastVersion
          invalidReason := reason } }
  | insertCursor mdt recId now =>
    { db with
      cursors := db.cursors.insert ⟨filesystem.owner, collationKey mdt⟩
        (.committed recId now db.cursors[(⟨filesystem.owner, collationKey mdt⟩ : Owned _ _)]?) }

section Slices

variable (filesystem : FileSystemId) (db : Database)

/-- A statement acts on the slice of the filesystem it names, and on nothing else. -/
theorem exec_eq_putSlice (st : Statement) :
    st.exec filesystem db =
      db.putSlice filesystem.owner (st.onSlice (db.slice filesystem.owner)) := by
  cases st with
  | replaceStripes object items =>
    by_cases h : items = []
    · simp [Statement.exec, Statement.onSlice, Database.putSlice, Database.slice,
        Catalog.putStripes, h]
    · simp [Statement.exec, Statement.onSlice, Database.putSlice, Database.slice,
        Catalog.putStripes, h]
  | _ =>
    simp [Statement.exec, Statement.onSlice, Database.putSlice, Database.slice, Catalog.registered,
      Catalog.putRow, Catalog.dropRow, Catalog.putEdge, Catalog.dropEdge, Catalog.dropEdgesOf,
      Catalog.putRemoved, Catalog.dropRemoved, Catalog.withBaseline, Table.getElem?_slice]

end Slices

/-! ## §3 — The remaining operations on a slice -/

/-- `EntryStore::register_filesystem`. -/
def registerFilesystem (config : FileSystemConfig) : StoreProc Unit :=
  Proc.write fun c => c.registered config

def upsertBatchEntryTx (filesystem : FileSystemId) (config : FileSystemConfig) (c : Catalog)
    (entry : ScopedEntryRow) : Except StoreError Catalog :=
  if entry.key.filesystem ≠ filesystem then
    .error (.invalidObjectIdentity "scoped batch mixes filesystems")
  else if config.backend ≠ entry.key.object.backend then
    .error (.backendMismatch filesystem config.backend entry.key.object.backend)
  else upsertScopedEntryTx entry c

/-- `EntryStore::upsert_scoped_batch`. -/
def upsertScopedBatch : List ScopedEntryRow → StoreProc Unit
  | [] => pure ()
  | first :: rest => do
    match ← getFilesystem with
    | none => .fail (.unknownFilesystem first.key.filesystem)
    | some config =>
      Proc.txn fun c => (first :: rest).foldlM (upsertBatchEntryTx first.key.filesystem config) c

/-- `EntryStore::remove_scoped_entry`. -/
def removeScopedEntry (key : EntryKey) : StoreProc Unit := Proc.write fun c => c.dropRow key.object

/-- `EntryStore::forget_scoped_removed`: whether there was such an entry. -/
def forgetScopedRemoved (key : EntryKey) : StoreProc Bool :=
  .step (fun c => c.dropRemoved key.object) fun c => .pure c.removed[key.object]?.isSome

/-- `EntryStore::get_baseline`. -/
def getBaseline : StoreProc (Option FilesystemBaseline) := Proc.read Catalog.baseline

/-- `EntryStore::list_scoped_namespace_edges`, ordered by parent and name. -/
def Catalog.listScopedNamespaceEdges (c : Catalog) (filesystem : FileSystemId) :
    List ScopedNamespaceEdge :=
  c.edges.toList.map fun edge => ⟨filesystem, edge.1.parent, edge.1.name, edge.2⟩

/-- `EntryStore::scoped_entry_count`. -/
def Catalog.scopedEntryCount (c : Catalog) : ℕ := c.entries.size

/-- `EntryStore::query_scoped_page`: the rows that a clause selects, in the order of a fragment. -/
def Catalog.queryScopedPage (c : Catalog) (clause : ScopedEntryRow → Bool)
    (le : ScopedEntryRow → ScopedEntryRow → Bool) (limit offset : ℕ) : List ScopedEntryRow :=
  (((c.entries.toList.map Prod.snd).filter clause).mergeSort le |>.drop offset).take limit

/-- `EntryStore::count_scoped_where`. -/
def Catalog.countScopedWhere (c : Catalog) (clause : ScopedEntryRow → Bool) : ℕ :=
  (c.entries.toList.map Prod.snd).countP clause

/-- `EntryStore::list_scoped_removed`: the latest first. -/
def Catalog.listScopedRemoved (c : Catalog) (since : Option Int) (limit offset : ℕ) :
    List ScopedRemovedEntry :=
  ((((c.removed.toList.map Prod.snd).filter fun e => since.all fun t => t ≤ e.rmTime).mergeSort
    fun a b => b.rmTime ≤ a.rmTime).drop offset).take limit

/-- `MariaDbCursorStore::get`. -/
def Slice.cursor (s : Slice) (mdt : String) : Option UInt64 :=
  s.cursors[collationKey mdt]?.map ChangelogCursor.lastRec

/-- The slice after `MariaDbCursorStore::commit`, with the clock it reads. -/
def Slice.commit (s : Slice) (mdt : String) (recId : UInt64) (now : Int) : Slice :=
  (Statement.insertCursor mdt recId now).onSlice s

/-- The owner of cursors from before filesystems had identifiers. -/
def legacyOwner : CollationKey := collationKey "__legacy_lustre__"

def ChangelogCursor.bind (own legacy : ChangelogCursor) : ChangelogCursor where
  readerId := own.readerId <|> legacy.readerId
  lastRec := max own.lastRec legacy.lastRec
  updatedAt := max own.updatedAt legacy.updatedAt

/-- The cursors of a filesystem with those of `legacy` bound to it: an update of the cursors it has,
and an insert of the ones it has not. -/
def bindCursors (own legacy : Table CollationKey ChangelogCursor) :
    Table CollationKey ChangelogCursor :=
  legacy.toList.foldl (fun t row =>
    t.insert row.1 (match own[row.1]? with
      | some cursor => cursor.bind row.2
      | none => row.2)) own

/-- The transaction of `bind_legacy_lustre_cursors`; the legacy rows go last. -/
def Database.boundCursors (db : Database) (filesystem : FileSystemId) : Database :=
  let cursors := db.cursors.putSlice filesystem.owner
    (bindCursors (db.cursors.slice filesystem.owner) (db.cursors.slice legacyOwner))
  { db with cursors := cursors.putSlice legacyOwner ∅ }

/-- How many cursors `bind_legacy_lustre_cursors` inserts. -/
def Database.unboundCursors (db : Database) (filesystem : FileSystemId) : ℕ :=
  (db.cursors.slice legacyOwner).toList.countP fun row =>
    (db.cursors.slice filesystem.owner)[row.1]?.isNone

/-! ## §4 — Operations on the shared tables -/

/-- The operations on the shared tables; `update_scoped_xattr` may panic. -/
abbrev DatabaseProc := Proc Database XattrError

/-- **The scoped operations that touch only the filesystem they are issued for**, by the type of their
answers. -/
inductive SliceOp (F : FileSystemId) : Type → Type where
  | registerFilesystem (config : FileSystemConfig) (h : config.id = F) : SliceOp F Unit
  | getFilesystem : SliceOp F (Option FileSystemConfig)
  | upsertScopedEntry (entry : ScopedEntryRow) (h : entry.key.filesystem = F) : SliceOp F Unit
  | upsertScopedBatch (entries : List ScopedEntryRow)
      (h : ∀ first ∈ entries.head?, first.key.filesystem = F) : SliceOp F Unit
  | getScopedEntry (object : ObjectId) : SliceOp F (Option ScopedEntryRow)
  | removeScopedEntry (object : ObjectId) : SliceOp F Unit
  | upsertScopedNamespaceEdge (edge : ScopedNamespaceEdge) (h : edge.filesystem = F) :
      SliceOp F Unit
  | removeScopedNamespaceEdge (parent : ObjectId) (name : Name) : SliceOp F Bool
  | lookupScopedNamespaceChild (parent : ObjectId) (name : Name) : SliceOp F (Option EntryKey)
  | listScopedObjectEdges (object : ObjectId) : SliceOp F (List ScopedNamespaceEdge)
  | applyScopedHardlink (edge : ScopedNamespaceEdge) (h : edge.filesystem = F) (observedAt : Int) :
      SliceOp F Unit
  | applyScopedUnlink (object parent : ObjectId) (name : Name) (observedAt : Int)
      (directory : Bool) : SliceOp F Unit
  | clearScopedCatalog : SliceOp F Unit
  | setBaselineState (state : BaselineState) (lastVersion : Option UInt64) (reason : Option String)
      (now : Int) : SliceOp F Unit
  | getBaseline : SliceOp F (Option FilesystemBaseline)
  | listScopedNamespaceEdges : SliceOp F (List ScopedNamespaceEdge)
  | scopedEntryCount : SliceOp F ℕ
  | queryScopedPage (clause : ScopedEntryRow → Bool) (le : ScopedEntryRow → ScopedEntryRow → Bool)
      (limit offset : ℕ) : SliceOp F (List ScopedEntryRow)
  | countScopedWhere (clause : ScopedEntryRow → Bool) : SliceOp F ℕ
  | listScopedRemoved (since : Option Int) (limit offset : ℕ) : SliceOp F (List ScopedRemovedEntry)
  | forgetScopedRemoved (object : ObjectId) : SliceOp F Bool
  | patchScopedSmStatus (object : ObjectId) (patch : Json) (now : Int) : SliceOp F Bool
  | updateScopedXattr (object : ObjectId) (tags : TagMap) (clearKeys : List String) :
      SliceOp F Bool
  | upsertLustreScanBatch (entries : List EntryRow) : SliceOp F Unit
  | getLustreEntry (fid : LuFid) : SliceOp F (Option EntryRow)
  | removeLustreEntry (fid : LuFid) (rmTime : Int) : SliceOp F Unit
  | renameLustreEntry (entry : EntryRow) (rmTime : Int) : SliceOp F Unit
  | getCursor (mdt : String) : SliceOp F (Option UInt64)
  | commitCursor (mdt : String) (recId : UInt64) (now : Int) : SliceOp F Unit

def onCatalog {α : Type} (p : Proc Catalog XattrError α) : Proc Slice XattrError α :=
  p.zoom Slice.catalog fun s c => { s with catalog := c }

def ofStore {α : Type} (p : StoreProc α) : Proc Slice XattrError α :=
  onCatalog (p.mapError XattrError.store)

def SliceOp.proc {F : FileSystemId} {α : Type} : SliceOp F α → Proc Slice XattrError α
  | registerFilesystem config _ => ofStore (Store.registerFilesystem config)
  | getFilesystem => ofStore Store.getFilesystem
  | upsertScopedEntry entry _ => ofStore (Store.upsertScopedEntry entry)
  | upsertScopedBatch entries _ => ofStore (Store.upsertScopedBatch entries)
  | getScopedEntry object => ofStore (Store.getScopedEntry ⟨F, object⟩)
  | removeScopedEntry object => ofStore (Store.removeScopedEntry ⟨F, object⟩)
  | upsertScopedNamespaceEdge edge _ => ofStore (Store.upsertScopedNamespaceEdge edge)
  | removeScopedNamespaceEdge parent name => ofStore (Store.removeScopedNamespaceEdge parent name)
  | lookupScopedNamespaceChild parent name =>
    ofStore (.read fun c => c.lookupScopedNamespaceChild F parent name)
  | listScopedObjectEdges object => ofStore (.read fun c => c.listScopedObjectEdges ⟨F, object⟩)
  | applyScopedHardlink edge _ observedAt => ofStore (Store.applyScopedHardlink edge observedAt)
  | applyScopedUnlink object parent name observedAt directory =>
    ofStore (Store.applyScopedUnlink ⟨F, object⟩ parent name observedAt directory)
  | clearScopedCatalog => ofStore Store.clearScopedCatalog
  | setBaselineState state lastVersion reason now =>
    ofStore (Store.setBaselineState state lastVersion reason now)
  | getBaseline => ofStore Store.getBaseline
  | listScopedNamespaceEdges => ofStore (.read fun c => c.listScopedNamespaceEdges F)
  | scopedEntryCount => ofStore (.read fun c => c.scopedEntryCount)
  | queryScopedPage clause le limit offset =>
    ofStore (.read fun c => c.queryScopedPage clause le limit offset)
  | countScopedWhere clause => ofStore (.read fun c => c.countScopedWhere clause)
  | listScopedRemoved since limit offset =>
    ofStore (.read fun c => c.listScopedRemoved since limit offset)
  | forgetScopedRemoved object => ofStore (Store.forgetScopedRemoved ⟨F, object⟩)
  | patchScopedSmStatus object patch now => ofStore (Store.patchScopedSmStatus ⟨F, object⟩ patch now)
  | updateScopedXattr object tags clearKeys =>
    onCatalog (Store.updateScopedXattr ⟨F, object⟩ tags clearKeys)
  | upsertLustreScanBatch entries => ofStore (Store.upsertLustreScanBatch F entries)
  | getLustreEntry fid => ofStore (Store.getLustreEntry F fid)
  | removeLustreEntry fid rmTime => ofStore (Store.removeLustreEntry F fid rmTime)
  | renameLustreEntry entry rmTime => ofStore (Store.renameLustreEntry F entry rmTime)
  | getCursor mdt => .read fun s => s.cursor mdt
  | commitCursor mdt recId now => .write fun s => s.commit mdt recId now

/-- **The scoped operations that are issued for a filesystem.** -/
inductive ScopedOp (F : FileSystemId) : Type → Type 1 where
  | own {α : Type} (op : SliceOp F α) : ScopedOp F α
  | bindLegacyLustreCursors : ScopedOp F ℕ

def ScopedOp.proc {F : FileSystemId} {α : Type} : ScopedOp F α → DatabaseProc α
  | own op => op.proc.zoom (fun db => db.slice F.owner) fun db s => db.putSlice F.owner s
  | bindLegacyLustreCursors => .step (fun db => db.boundCursors F) fun db => .pure (db.unboundCursors F)

/-! ## §5 — Isolation -/

section Isolation

variable {F G : FileSystemId} {α : Type}

theorem run_own (op : SliceOp F α) (db : Database) :
    (ScopedOp.own op).proc.run db =
      ((op.proc.run (db.slice F.owner)).1,
        db.putSlice F.owner (op.proc.run (db.slice F.owner)).2) :=
  Proc.run_zoom (fun _ _ => Database.slice_putSlice_self ..)
    (fun _ _ _ => Database.putSlice_putSlice ..) (fun _ => Database.putSlice_slice ..) _ _

/-- **`Isolated F G`**: an operation issued for `F` leaves what `G` has in the tables as it was, and
answers the same whatever `G` has there. -/
def Isolated (F G : FileSystemId) : Prop :=
  ∀ {α : Type} (op : ScopedOp F α) (db : Database),
    ((op.proc.run db).2).slice G.owner = db.slice G.owner ∧
      ∀ other : Slice, (op.proc.run (db.putSlice G.owner other)).1 = (op.proc.run db).1

theorem isolated_own (h : F.owner ≠ G.owner) (op : SliceOp F α) (db : Database) :
    (((ScopedOp.own op).proc.run db).2).slice G.owner = db.slice G.owner ∧
      ∀ other : Slice,
        ((ScopedOp.own op).proc.run (db.putSlice G.owner other)).1 =
          ((ScopedOp.own op).proc.run db).1 := by
  refine ⟨?_, fun other => ?_⟩
  · rw [run_own]
    exact Database.slice_putSlice_of_ne _ _ h.symm
  · rw [run_own, run_own, Database.slice_putSlice_of_ne _ _ h]

theorem slice_boundCursors (db : Database) {owner : CollationKey} (h : F.owner ≠ owner)
    (hlegacy : owner ≠ legacyOwner) : (db.boundCursors F).slice owner = db.slice owner := by
  simp only [Database.boundCursors, Database.slice, Table.slice_putSlice_of_ne _ hlegacy,
    Table.slice_putSlice_of_ne _ h.symm]

theorem unboundCursors_putSlice (db : Database) (h : F.owner ≠ G.owner)
    (hlegacy : G.owner ≠ legacyOwner) (other : Slice) :
    (db.putSlice G.owner other).unboundCursors F = db.unboundCursors F := by
  simp only [Database.unboundCursors, Database.putSlice, Table.slice_putSlice_of_ne _ h,
    Table.slice_putSlice_of_ne _ hlegacy.symm]

theorem not_isolated_of_owner_eq (h : F.owner = G.owner) : ¬ Isolated F G := by
  intro hisolated
  let config : FileSystemConfig := ⟨F, .lustre, [], ⟨false, false, false, false, false, false⟩⟩
  have hslice := (hisolated (.own (.registerFilesystem config rfl)) Database.empty).1
  rw [run_own, h, Database.slice_putSlice_self] at hslice
  have hfilesystem := congrArg (fun s : Slice => s.catalog.filesystem.isSome) hslice
  simp [SliceOp.proc, ofStore, onCatalog, registerFilesystem, Proc.write, Proc.mapError, Proc.zoom,
    Catalog.registered, Database.slice, Database.empty] at hfilesystem

theorem not_isolated_of_legacy (h : G.owner = legacyOwner) : ¬ Isolated F G := by
  intro hisolated
  let db : Database := { Database.empty with
    cursors := (∅ : Table (Owned CollationKey CollationKey) _).insert ⟨legacyOwner, []⟩ ⟨none, 0, 0⟩ }
  have hslice := (hisolated .bindLegacyLustreCursors db).1
  have hcursor := congrArg (fun s : Slice => s.cursors[([] : CollationKey)]?) hslice
  simp only [h, ScopedOp.proc, Proc.run_step, Proc.run_pure, Database.slice, Database.boundCursors,
    Table.slice_putSlice_self, Table.getElem?_slice, db] at hcursor
  simp at hcursor

/-- **Isolation.**  Operations issued for `F` neither change nor see what `G` has exactly when the
identifiers differ in more than the case of letters and `G` is not the scope of the legacy cursors. -/
theorem isolated_iff_owner : Isolated F G ↔ F.owner ≠ G.owner ∧ G.owner ≠ legacyOwner := by
  refine ⟨fun h => ⟨fun howner => not_isolated_of_owner_eq howner h,
    fun howner => not_isolated_of_legacy howner h⟩, ?_⟩
  rintro ⟨howner, hlegacy⟩ α op db
  cases op with
  | own op => exact isolated_own howner op db
  | bindLegacyLustreCursors =>
    refine ⟨slice_boundCursors db howner hlegacy, fun other => ?_⟩
    exact congrArg Except.ok (unboundCursors_putSlice db howner hlegacy other)

end Isolation

namespace Sample

/-- Another identifier for the collation to confuse with the first. -/
def upper : FileSystemId := ⟨"LUSTRE", by decide, by decide, by simp⟩

/-- The tables after `lustre` is registered and one of its files is scanned. -/
def scanned : Database :=
  let registered := ((ScopedOp.own (.registerFilesystem config rfl)).proc.run Database.empty).2
  ((ScopedOp.own (.upsertLustreScanBatch [file 5 [97]] : SliceOp lustre Unit)).proc.run registered).2

end Sample

/-- **Identifiers that differ in case share their rows**: clearing the catalog of `LUSTRE` clears that
of `lustre`, and the registration of `lustre` is read for `LUSTRE`. -/
theorem upper_clears_lower :
    Sample.upper ≠ Sample.lustre ∧
      (Sample.scanned.slice Sample.lustre.owner).catalog.row (.lustre ⟨1, 5, 0⟩) =
        some (.fromLustre Sample.lustre (Sample.file 5 [97])) ∧
      ((((ScopedOp.own (.clearScopedCatalog : SliceOp Sample.upper Unit)).proc.run
        Sample.scanned).2).slice Sample.lustre.owner).catalog.row (.lustre ⟨1, 5, 0⟩) = none ∧
      ((ScopedOp.own (.getFilesystem : SliceOp Sample.upper _)).proc.run Sample.scanned).1.toOption =
        some (some Sample.config) := by
  decide +kernel

/-! ## §6 — Cursors from before filesystems had identifiers -/

def larger : Option UInt64 → Option UInt64 → Option UInt64
  | some a, some b => some (max a b)
  | none, b => b
  | a, none => a

theorem getElem?_bindCursors (own legacy : Table CollationKey ChangelogCursor) (mdt : CollationKey) :
    (bindCursors own legacy)[mdt]? = match own[mdt]?, legacy[mdt]? with
      | some cursor, some old => some (cursor.bind old)
      | none, old => old
      | some cursor, none => some cursor := by
  have hkeys : (legacy.toList.map Prod.fst).Nodup := by
    rw [Std.ExtTreeMap.map_fst_toList_eq_keys]
    exact Std.ExtTreeMap.nodup_keys
  rw [bindCursors, Table.getElem?_foldl_upsert hkeys _ own
    fun _ => Std.ExtTreeMap.mem_toList_iff_getElem?_eq_some]
  cases hown : own[mdt]? <;> cases legacy[mdt]? <;> simp [hown]

/-- **The cursors are bound without loss**: those of the filesystem are the larger ones, no legacy row is
left, the others are as they were, and a second call changes nothing. -/
structure Bound (F : FileSystemId) (db db' : Database) : Prop where
  larger : ∀ mdt, (db'.slice F.owner).cursor mdt =
    larger ((db.slice F.owner).cursor mdt) ((db.slice legacyOwner).cursor mdt)
  legacy : (db'.slice legacyOwner).cursors = ∅
  others : ∀ owner, owner ≠ F.owner → owner ≠ legacyOwner → db'.slice owner = db.slice owner
  again : db'.boundCursors F = db'

section Bound

variable {F : FileSystemId}

theorem boundCursors_of_no_legacy {db : Database} (h : db.cursors.slice legacyOwner = ∅) :
    db.boundCursors F = db := by
  have hnil : (∅ : Table CollationKey ChangelogCursor).toList = [] := by simp
  have hnone : ∀ own, bindCursors own ∅ = own := fun own => by rw [bindCursors, hnil, List.foldl_nil]
  simp only [Database.boundCursors, h, hnone, Table.putSlice_slice]
  rw [← h, Table.putSlice_slice]

theorem bound_of_owner_ne (h : F.owner ≠ legacyOwner) (db : Database) : Bound F db (db.boundCursors F) := by
  have hempty : (db.boundCursors F).cursors.slice legacyOwner = ∅ := Table.slice_putSlice_self ..
  refine ⟨fun mdt => ?_, hempty, fun owner hF hlegacy => slice_boundCursors db (Ne.symm hF) hlegacy,
    boundCursors_of_no_legacy hempty⟩
  have hown : (db.boundCursors F).cursors.slice F.owner =
      bindCursors (db.cursors.slice F.owner) (db.cursors.slice legacyOwner) := by
    rw [Database.boundCursors, Table.slice_putSlice_of_ne _ h, Table.slice_putSlice_self]
  simp only [Slice.cursor, Database.slice, hown, getElem?_bindCursors]
  cases (db.cursors.slice F.owner)[collationKey mdt]? <;>
    cases (db.cursors.slice legacyOwner)[collationKey mdt]? <;> rfl

/-- **Binding legacy cursors loses no progress exactly when the column's collation tells the filesystem's
identifier from the legacy marker.** -/
theorem bind_legacy_loses_nothing_iff :
    (∀ db : Database, Bound F db (db.boundCursors F)) ↔ F.owner ≠ legacyOwner := by
  refine ⟨fun h howner => ?_, bound_of_owner_ne⟩
  -- a cursor of the marker is one of the filesystem, and goes with the legacy rows
  let db := Database.empty.putSlice legacyOwner ⟨(Database.empty.slice legacyOwner).catalog,
    (∅ : Table CollationKey ChangelogCursor).insert (collationKey "MDT0000") ⟨none, 7, 0⟩⟩
  have hlarger := (h db).larger "MDT0000"
  have hcursor : (db.slice legacyOwner).cursor "MDT0000" = some 7 := by
    rw [Database.slice_putSlice_self]
    simp [Slice.cursor]
  rw [howner, hcursor, Slice.cursor, (h db).legacy] at hlarger
  simp [larger] at hlarger

end Bound

/-- **The marker in capitals** is another identifier, and its cursor is lost. -/
theorem capital_marker_loses_cursor :
    let F : FileSystemId := ⟨"__LEGACY_LUSTRE__", by decide, by decide, by simp⟩
    let db := ((ScopedOp.own (.commitCursor "MDT0000" 7 0 : SliceOp F Unit)).proc.run Database.empty).2
    F.value ≠ "__legacy_lustre__" ∧ (db.slice F.owner).cursor "MDT0000" = some 7 ∧
      ((db.boundCursors F).slice F.owner).cursor "MDT0000" = none := by
  decide +kernel

end Robinhood.Store
