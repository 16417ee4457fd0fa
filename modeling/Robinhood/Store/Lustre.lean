/-
# Store.Lustre — the Lustre operations of the entry store

`upsert_lustre_scan_batch`, `get_lustre_entry`, `remove_lustre_entry` and `rename_lustre_entry`
(`rbh-entry-store/src/store.rs`): they read and write the scoped catalog through the row shape of the
Lustre-only days, whose parent is a FID and not a key.  A rename is a sequence of statements outside any
transaction.
-/
import Mathlib
import Robinhood.Store.Catalog

namespace Robinhood.Store

open Lib
open Posix (Name)

/-! ## §1 — Rows -/

/-- `EntryRow`. -/
structure EntryRow where
  fid : LuFid
  parentFid : Option LuFid
  name : Name
  kind : EntryKind
  size : UInt64
  blocks : UInt64
  uid : UInt32
  gid : UInt32
  projid : UInt32
  mode : UInt32
  nlink : UInt32
  atime : Int
  mtime : Int
  ctime : Int
  stripeCount : Option UInt16
  stripeSize : Option UInt32
  stripeItems : List UInt32
  poolName : Option String
  smStatus : Json
  lastSeen : Int
  depth : UInt32
deriving DecidableEq

/-- `ScopedEntryRow::from_lustre`. -/
def ScopedEntryRow.fromLustre (filesystem : FileSystemId) (entry : EntryRow) : ScopedEntryRow where
  key := ⟨filesystem, .lustre entry.fid⟩
  parent := entry.parentFid.map fun fid => ⟨filesystem, .lustre fid⟩
  name := entry.name
  kind := entry.kind
  size := entry.size
  blocks := entry.blocks
  uid := entry.uid
  gid := entry.gid
  projid := entry.projid
  mode := entry.mode
  nlink := entry.nlink
  atime := entry.atime
  mtime := entry.mtime
  ctime := entry.ctime
  stripeCount := entry.stripeCount
  stripeSize := entry.stripeSize
  stripeItems := entry.stripeItems
  poolName := entry.poolName
  smStatus := entry.smStatus
  lastSeen := entry.lastSeen
  depth := entry.depth

/-- The parent of `to_lustre_compat`; `none` when it is a JuiceFS object. -/
def ScopedEntryRow.lustreParent (row : ScopedEntryRow) : Option (Option LuFid) :=
  match row.parent.map EntryKey.object with
  | some (.lustre fid) => some (some fid)
  | some (.juiceFs _) => none
  | none => some none

/-- `ScopedEntryRow::to_lustre_compat`. -/
def ScopedEntryRow.toLustreCompat (row : ScopedEntryRow) : Option EntryRow :=
  match row.key.object with
  | .juiceFs _ => none
  | .lustre fid => row.lustreParent.map fun parentFid =>
    { fid := fid
      parentFid := parentFid
      name := row.name
      kind := row.kind
      size := row.size
      blocks := row.blocks
      uid := row.uid
      gid := row.gid
      projid := row.projid
      mode := row.mode
      nlink := row.nlink
      atime := row.atime
      mtime := row.mtime
      ctime := row.ctime
      stripeCount := row.stripeCount
      stripeSize := row.stripeSize
      stripeItems := row.stripeItems
      poolName := row.poolName
      smStatus := row.smStatus
      lastSeen := row.lastSeen
      depth := row.depth }

@[simp]
theorem toLustreCompat_fromLustre (filesystem : FileSystemId) (entry : EntryRow) :
    (ScopedEntryRow.fromLustre filesystem entry).toLustreCompat = some entry := by
  obtain ⟨fid, parent⟩ := entry
  cases parent <;> rfl

/-- `fid_codec::decode` of the sixteen bytes of an identity, whatever its kind. -/
def ObjectId.decodeFid : ObjectId → LuFid
  | .lustre fid => fid
  | .juiceFs inode => ⟨0, (inode >>> 32).toUInt32, inode.toUInt32⟩

/-! ## §2 — Stripe rows and removals -/

namespace Catalog

def putStripes (c : Catalog) (object : ObjectId) (items : List UInt32) : Catalog :=
  { c with stripeItems :=
      if items = [] then c.stripeItems.erase object else c.stripeItems.insert object items }

def dropEdgesOf (c : Catalog) (object : ObjectId) : Catalog :=
  { c with edges := c.edges.deleteWhere fun _ v => v = object }

def moveToRemoved (c : Catalog) (object : ObjectId) (entry : ScopedEntryRow) (rmTime : Int) :
    Catalog :=
  ((c.putStripes object []).putRemoved object entry rmTime |>.dropEdgesOf object).dropRow object

def putParentEdge (c : Catalog) (entry : EntryRow) : Catalog :=
  match entry.parentFid with
  | some parent => c.putEdge ⟨.lustre parent, entry.name⟩ (.lustre entry.fid)
  | none => c

def putLustre (c : Catalog) (filesystem : FileSystemId) (entry : EntryRow) : Catalog :=
  ((c.putRow (.lustre entry.fid) (.fromLustre filesystem entry)).putStripes (.lustre entry.fid)
    entry.stripeItems).putParentEdge entry

section Lookups

variable (c : Catalog) (object a : ObjectId) (items : List UInt32) (k : EdgeKey)
  (entry : ScopedEntryRow) (rmTime : Int)

@[simp] theorem row_putStripes : (c.putStripes object items).row a = c.row a := rfl
@[simp] theorem child_putStripes : (c.putStripes object items).child k = c.child k := rfl
@[simp] theorem filesystem_putStripes : (c.putStripes object items).filesystem = c.filesystem := rfl
@[simp] theorem removed_putStripes : (c.putStripes object items).removed = c.removed := rfl

@[simp]
theorem stripeItems_putStripes : (c.putStripes object items).stripeItems[a]? =
    if object = a then (if items = [] then none else some items) else c.stripeItems[a]? := by
  unfold putStripes
  split_ifs <;> simp_all

@[simp] theorem row_dropEdgesOf : (c.dropEdgesOf object).row a = c.row a := rfl
@[simp] theorem filesystem_dropEdgesOf : (c.dropEdgesOf object).filesystem = c.filesystem := rfl
@[simp] theorem removed_dropEdgesOf : (c.dropEdgesOf object).removed = c.removed := rfl
@[simp] theorem stripeItems_dropEdgesOf : (c.dropEdgesOf object).stripeItems = c.stripeItems := rfl

@[simp]
theorem child_dropEdgesOf :
    (c.dropEdgesOf object).child k = (c.child k).filter fun v => !decide (v = object) :=
  Table.getElem?_deleteWhere ..

end Lookups

end Catalog

/-! ## §3 — The operations -/

variable (filesystem : FileSystemId)

/-- What `upsert_lustre_scan_batch` does with one entry.  The primary key of a stripe row is the stripe
number as `u16`: a file of more than 65536 stripes repeats it. -/
def putLustreTx (c : Catalog) (entry : EntryRow) : Except StoreError Catalog := do
  let c ← upsertScopedEntryTx (.fromLustre filesystem entry) c
  if 65536 < entry.stripeItems.length then .error .duplicateKey
  else .ok ((c.putStripes (.lustre entry.fid) entry.stripeItems).putParentEdge entry)

/-- `EntryStore::upsert_lustre_scan_batch`. -/
def upsertLustreScanBatch (entries : List EntryRow) : StoreProc Unit := do
  if entries = [] then pure ()
  else match ← getFilesystem with
    | none => .fail (.unknownFilesystem filesystem)
    | some config =>
      if config.backend ≠ .lustre then .fail (.backendMismatch filesystem config.backend .lustre)
      else Proc.txn fun c => entries.foldlM (putLustreTx filesystem) c

/-- `EntryStore::upsert_lustre_entry`. -/
def upsertLustreEntry (entry : EntryRow) : StoreProc Unit := upsertLustreScanBatch filesystem [entry]

/-- What `get_lustre_entry` answers. -/
def Catalog.lustreEntry (c : Catalog) (fid : LuFid) : Except StoreError (Option EntryRow) :=
  (c.scopedEntry ⟨filesystem, .lustre fid⟩).map fun row => row.bind ScopedEntryRow.toLustreCompat

/-- `EntryStore::get_lustre_entry`. -/
def getLustreEntry (fid : LuFid) : StoreProc (Option EntryRow) :=
  Proc.ask fun c => c.lustreEntry filesystem fid

/-- `EntryStore::remove_lustre_entry`. -/
def removeLustreEntry (fid : LuFid) (rmTime : Int) : StoreProc Unit := do
  match ← getScopedEntry ⟨filesystem, .lustre fid⟩ with
  | none => pure ()
  | some entry => Proc.write fun c => c.moveToRemoved (.lustre fid) entry rmTime

/-- The FID that a rename displaces: another object under the new name, its identity read as a FID. -/
def Catalog.displaced (c : Catalog) (entry : EntryRow) : Option LuFid :=
  entry.parentFid.bind fun parent =>
    ((c.child ⟨.lustre parent, entry.name⟩).filter fun object =>
      !decide (object = .lustre entry.fid)).map ObjectId.decodeFid

/-- `EntryStore::rename_lustre_entry`. -/
def renameLustreEntry (entry : EntryRow) (rmTime : Int) : StoreProc Unit := do
  match ← Proc.read fun c => c.displaced entry with
  | some fid => removeLustreEntry filesystem fid rmTime
  | none => pure ()
  Proc.write fun c => c.dropEdgesOf (.lustre entry.fid)
  upsertScopedEntry (.fromLustre filesystem entry)
  match entry.parentFid with
  | some parent =>
    upsertScopedNamespaceEdge ⟨filesystem, .lustre parent, entry.name, .lustre entry.fid⟩
  | none => pure ()

/-! ## §4 — What they do -/

section Runs

variable {filesystem} {c : Catalog} {entry : EntryRow} {fid : LuFid}

def Catalog.RegisteredLustre (c : Catalog) : Prop :=
  ∃ config, c.filesystem = some config ∧ config.backend = .lustre

def Catalog.AdmitsLustre (c : Catalog) : Prop :=
  ∀ config, c.filesystem = some config → config.backend = .lustre

/-- An upsert of a Lustre row with these stripes goes through. -/
def Catalog.Takes (c : Catalog) (items : List UInt32) : Prop :=
  c.RegisteredLustre ∧ items.length ≤ 65536

theorem Catalog.RegisteredLustre.admits (h : c.RegisteredLustre) : c.AdmitsLustre := by
  obtain ⟨config, hconfig, hbackend⟩ := h
  intro config' hconfig'
  rw [hconfig] at hconfig'
  cases hconfig'
  exact hbackend

theorem Catalog.accepts_fromLustre :
    c.Accepts (.fromLustre filesystem entry) ↔ c.AdmitsLustre := by
  refine ⟨fun h config hconfig => h.1 config hconfig, fun h => ⟨h, fun parent hparent => ?_⟩⟩
  obtain ⟨fid, -, rfl⟩ := Option.map_eq_some_iff.1 hparent
  rfl

theorem putLustreTx_of_length_le (h : entry.stripeItems.length ≤ 65536) :
    putLustreTx filesystem c entry = .ok (c.putLustre filesystem entry) := by
  have htx : upsertScopedEntryTx (.fromLustre filesystem entry) c =
      .ok (c.putRow (.lustre entry.fid) (.fromLustre filesystem entry)) :=
    upsertScopedEntryTx_ok fun parent hparent => by
      obtain ⟨fid, -, rfl⟩ := Option.map_eq_some_iff.1 hparent
      rfl
  unfold putLustreTx
  rw [htx]
  exact if_neg (Nat.not_lt.2 h)

theorem putLustreTx_of_lt_length (h : 65536 < entry.stripeItems.length) :
    ∃ e, putLustreTx filesystem c entry = .error e := by
  unfold putLustreTx
  cases upsertScopedEntryTx (.fromLustre filesystem entry) c with
  | error e => exact ⟨e, rfl⟩
  | ok => exact ⟨_, if_pos h⟩

/-- **An upsert that goes through** writes the row, its stripe rows and its edge. -/
theorem run_upsertLustreEntry (h : c.Takes entry.stripeItems) :
    (upsertLustreEntry filesystem entry).run c = (.ok (), c.putLustre filesystem entry) := by
  obtain ⟨⟨config, hconfig, hbackend⟩, hlength⟩ := h
  have hbatch : [entry].foldlM (putLustreTx filesystem) c = .ok (c.putLustre filesystem entry) := by
    rw [List.foldlM_cons, putLustreTx_of_length_le hlength]
    rfl
  simp only [upsertLustreEntry, upsertLustreScanBatch, List.cons_ne_nil, if_false, getFilesystem,
    Proc.run_bind, Proc.run_read, hconfig, hbackend, ne_eq, not_true_eq_false, Proc.run_txn, hbatch]

/-- **An upsert that does not** changes nothing. -/
theorem run_upsertLustreEntry_of_not (h : ¬ c.Takes entry.stripeItems) :
    ∃ e, (upsertLustreEntry filesystem entry).run c = (.error e, c) := by
  simp only [upsertLustreEntry, upsertLustreScanBatch, List.cons_ne_nil, if_false, getFilesystem,
    Proc.run_bind, Proc.run_read]
  split
  · exact ⟨_, rfl⟩
  · next config hconfig =>
    split_ifs with hbackend
    · exact ⟨_, rfl⟩
    · have hlength : 65536 < entry.stripeItems.length := by
        by_contra hle
        exact h ⟨⟨config, hconfig, not_not.1 hbackend⟩, Nat.not_lt.1 hle⟩
      obtain ⟨e, he⟩ := putLustreTx_of_lt_length hlength
      refine ⟨e, ?_⟩
      rw [Proc.run_txn, List.foldlM_cons, he]
      rfl

/-- The slice after `remove_lustre_entry`: a row that is not there, or cannot be read, stays. -/
def Catalog.withoutLustre (c : Catalog) (filesystem : FileSystemId) (fid : LuFid) (rmTime : Int) :
    Catalog :=
  match c.scopedEntry ⟨filesystem, .lustre fid⟩ with
  | .ok (some entry) => c.moveToRemoved (.lustre fid) entry rmTime
  | _ => c

/-- **A removal**: it fails exactly if the row cannot be read. -/
theorem run_removeLustreEntry (fid : LuFid) (rmTime : Int) :
    (removeLustreEntry filesystem fid rmTime).run c =
      ((c.scopedEntry ⟨filesystem, .lustre fid⟩).map fun _ => (),
        c.withoutLustre filesystem fid rmTime) := by
  simp only [removeLustreEntry, getScopedEntry, Proc.run_bind, Proc.run_ask, Catalog.withoutLustre]
  rcases c.scopedEntry ⟨filesystem, .lustre fid⟩ with e | _ | row <;> rfl

def Catalog.displacedReadable (c : Catalog) (filesystem : FileSystemId) (entry : EntryRow) : Prop :=
  ∀ fid, c.displaced entry = some fid → ∃ row, c.scopedEntry ⟨filesystem, .lustre fid⟩ = .ok row

/-- The slice before the row of a rename is written: the displaced object is removed, and all names of
the renamed one are gone. -/
def Catalog.vacated (c : Catalog) (filesystem : FileSystemId) (entry : EntryRow) (rmTime : Int) :
    Catalog :=
  (match c.displaced entry with
    | some fid => c.withoutLustre filesystem fid rmTime
    | none => c).dropEdgesOf (.lustre entry.fid)

theorem run_renameLustreEntry_of_unreadable (rmTime : Int)
    (h : ¬ c.displacedReadable filesystem entry) :
    ∃ e, (renameLustreEntry filesystem entry rmTime).run c = (.error e, c) := by
  obtain ⟨fid, hdisplaced, hrow⟩ : ∃ fid, c.displaced entry = some fid ∧
      ∀ row, c.scopedEntry ⟨filesystem, .lustre fid⟩ ≠ .ok row := by
    simpa [Catalog.displacedReadable] using h
  cases hread : c.scopedEntry ⟨filesystem, .lustre fid⟩ with
  | ok row => exact absurd hread (hrow row)
  | error e =>
    refine ⟨e, ?_⟩
    have hremove : (removeLustreEntry filesystem fid rmTime).run c = (.error e, c) := by
      rw [run_removeLustreEntry, Catalog.withoutLustre, hread]
      rfl
    simp only [renameLustreEntry, Proc.run_bind, Proc.run_read, hdisplaced, hremove]

@[simp]
theorem Catalog.filesystem_withoutLustre (c : Catalog) (fid : LuFid) (rmTime : Int) :
    (c.withoutLustre filesystem fid rmTime).filesystem = c.filesystem := by
  unfold withoutLustre
  split <;> rfl

@[simp]
theorem Catalog.filesystem_vacated (c : Catalog) (entry : EntryRow) (rmTime : Int) :
    (c.vacated filesystem entry rmTime).filesystem = c.filesystem := by
  unfold vacated
  split <;> simp

theorem run_renameLustreEntry_of_readable (rmTime : Int)
    (h : c.displacedReadable filesystem entry) :
    (renameLustreEntry filesystem entry rmTime).run c =
      (do
        upsertScopedEntry (.fromLustre filesystem entry)
        match entry.parentFid with
        | some parent =>
          upsertScopedNamespaceEdge ⟨filesystem, .lustre parent, entry.name, .lustre entry.fid⟩
        | none => pure () : StoreProc Unit).run (c.vacated filesystem entry rmTime) := by
  unfold renameLustreEntry Catalog.vacated
  rw [Proc.run_bind, Proc.run_read]
  dsimp only
  cases hdisplaced : c.displaced entry with
  | none => rfl
  | some fid =>
    obtain ⟨row, hrow⟩ := h fid hdisplaced
    have hremove : (removeLustreEntry filesystem fid rmTime).run c =
        (.ok (), c.withoutLustre filesystem fid rmTime) := by
      rw [run_removeLustreEntry, hrow]
      rfl
    rw [Proc.run_bind_ok hremove]
    rfl

/-- **A rename that goes through.** -/
theorem run_renameLustreEntry (rmTime : Int) (h : c.displacedReadable filesystem entry)
    (hadmits : c.AdmitsLustre) :
    (renameLustreEntry filesystem entry rmTime).run c =
      (.ok (), ((c.vacated filesystem entry rmTime).putRow (.lustre entry.fid)
        (.fromLustre filesystem entry)).putParentEdge entry) := by
  have haccepts : (c.vacated filesystem entry rmTime).Accepts (.fromLustre filesystem entry) :=
    Catalog.accepts_fromLustre.2 (by simpa [Catalog.AdmitsLustre] using hadmits)
  rw [run_renameLustreEntry_of_readable rmTime h,
    Proc.run_bind_ok (run_upsertScopedEntry_of_accepts haccepts)]
  unfold Catalog.putParentEdge
  cases entry.parentFid <;> rfl

/-- **A rename on a filesystem of another backend** stops before the row is written. -/
theorem run_renameLustreEntry_of_not_admits (rmTime : Int) (h : c.displacedReadable filesystem entry)
    (hadmits : ¬ c.AdmitsLustre) :
    ∃ e, (renameLustreEntry filesystem entry rmTime).run c =
      (.error e, c.vacated filesystem entry rmTime) := by
  have haccepts : ¬ (c.vacated filesystem entry rmTime).Accepts (.fromLustre filesystem entry) :=
    fun haccepts => hadmits (by simpa [Catalog.AdmitsLustre] using Catalog.accepts_fromLustre.1 haccepts)
  obtain ⟨e, he⟩ := run_upsertScopedEntry_of_not_accepts haccepts
  exact ⟨e, by rw [run_renameLustreEntry_of_readable rmTime h, Proc.run_bind_error he]⟩

/-! ## §5 — The slice an operation leaves -/

instance : Decidable c.RegisteredLustre :=
  decidable_of_iff (∃ config ∈ c.filesystem, config.backend = .lustre) Iff.rfl

instance : Decidable c.AdmitsLustre :=
  decidable_of_iff (∀ config ∈ c.filesystem, config.backend = .lustre) Iff.rfl

instance (items : List UInt32) : Decidable (c.Takes items) := inferInstanceAs (Decidable (_ ∧ _))

instance : Decidable (c.displacedReadable filesystem entry) :=
  decidable_of_iff (∀ fid ∈ c.displaced entry, (c.scopedEntry ⟨filesystem, .lustre fid⟩).isOk = true) <| by
    refine forall₂_congr fun fid _ => ?_
    cases c.scopedEntry ⟨filesystem, .lustre fid⟩ <;> simp [Except.isOk, Except.toBool]

/-- The slice after `upsert_lustre_entry`. -/
def Catalog.upserted (c : Catalog) (filesystem : FileSystemId) (entry : EntryRow) : Catalog :=
  if c.Takes entry.stripeItems then c.putLustre filesystem entry else c

/-- A batch goes through as a whole: the filesystem is Lustre and no file has too many stripes. -/
def Catalog.TakesBatch (c : Catalog) (entries : List EntryRow) : Prop :=
  c.RegisteredLustre ∧ ∀ entry ∈ entries, entry.stripeItems.length ≤ 65536

instance (entries : List EntryRow) : Decidable (c.TakesBatch entries) :=
  inferInstanceAs (Decidable (_ ∧ _))

/-- The slice after `upsert_lustre_scan_batch`. -/
def Catalog.batched (c : Catalog) (filesystem : FileSystemId) (entries : List EntryRow) : Catalog :=
  if c.TakesBatch entries then entries.foldl (fun c entry => c.putLustre filesystem entry) c else c

theorem foldlM_putLustreTx_of_length_le {entries : List EntryRow}
    (h : ∀ entry ∈ entries, entry.stripeItems.length ≤ 65536) :
    entries.foldlM (putLustreTx filesystem) c =
      .ok (entries.foldl (fun c entry => c.putLustre filesystem entry) c) := by
  induction entries generalizing c with
  | nil => rfl
  | cons entry entries ih =>
    rw [List.foldlM_cons, putLustreTx_of_length_le (h entry List.mem_cons_self), List.foldl_cons]
    exact ih fun e he => h e (.tail _ he)

theorem foldlM_putLustreTx_of_lt_length {entries : List EntryRow} {entry : EntryRow}
    (hmem : entry ∈ entries) (h : 65536 < entry.stripeItems.length) :
    ∃ e, entries.foldlM (putLustreTx filesystem) c = .error e := by
  induction entries generalizing c with
  | nil => cases hmem
  | cons first entries ih =>
    rw [List.foldlM_cons]
    obtain rfl | hmem := List.mem_cons.1 hmem
    · obtain ⟨e, he⟩ := putLustreTx_of_lt_length h
      exact ⟨e, by rw [he]; rfl⟩
    · cases putLustreTx filesystem c first with
      | error e => exact ⟨e, rfl⟩
      | ok => exact ih hmem

/-- **A batch**: all of its rows are written, or none. -/
theorem run_upsertLustreScanBatch_snd (entries : List EntryRow) :
    ((upsertLustreScanBatch filesystem entries).run c).2 = c.batched filesystem entries := by
  rw [upsertLustreScanBatch, Catalog.batched]
  by_cases hempty : entries = []
  · subst hempty
    simp
  · rw [if_neg hempty, getFilesystem, Proc.run_bind, Proc.run_read]
    dsimp only
    split
    · next hnone => rw [if_neg fun h => by simpa [Catalog.RegisteredLustre, hnone] using h.1, Proc.run_fail]
    · next config hconfig =>
      split_ifs with hbackend htakes htakes
      · exact absurd (htakes.1.admits config hconfig) hbackend
      · rfl
      · rw [Proc.run_txn, foldlM_putLustreTx_of_length_le htakes.2]
      · obtain ⟨entry, hmem, hlength⟩ : ∃ entry ∈ entries, 65536 < entry.stripeItems.length := by
          by_contra hall
          push Not at hall
          exact htakes ⟨⟨config, hconfig, not_not.1 hbackend⟩, hall⟩
        obtain ⟨e, he⟩ := foldlM_putLustreTx_of_lt_length hmem hlength
        rw [Proc.run_txn, he]

/-- The slice after `rename_lustre_entry`. -/
def Catalog.renamed (c : Catalog) (filesystem : FileSystemId) (entry : EntryRow) (rmTime : Int) :
    Catalog :=
  if c.displacedReadable filesystem entry then
    if c.AdmitsLustre then
      ((c.vacated filesystem entry rmTime).putRow (.lustre entry.fid)
        (.fromLustre filesystem entry)).putParentEdge entry
    else c.vacated filesystem entry rmTime
  else c

theorem run_upsertLustreEntry_snd :
    ((upsertLustreEntry filesystem entry).run c).2 = c.upserted filesystem entry := by
  unfold Catalog.upserted
  split_ifs with h
  · rw [run_upsertLustreEntry h]
  · obtain ⟨e, he⟩ := run_upsertLustreEntry_of_not h
    rw [he]

theorem run_renameLustreEntry_snd (rmTime : Int) :
    ((renameLustreEntry filesystem entry rmTime).run c).2 = c.renamed filesystem entry rmTime := by
  unfold Catalog.renamed
  split_ifs with hread hadmits
  · rw [run_renameLustreEntry rmTime hread hadmits]
  · obtain ⟨e, he⟩ := run_renameLustreEntry_of_not_admits rmTime hread hadmits
    rw [he]
  · obtain ⟨e, he⟩ := run_renameLustreEntry_of_unreadable rmTime hread
    rw [he]

end Runs

namespace Sample

def lustre : FileSystemId := ⟨"lustre", by decide, by decide, by simp⟩

def file (oid : UInt32) (name : Name) : EntryRow where
  fid := ⟨1, oid, 0⟩
  parentFid := some ⟨1, 1, 0⟩
  name
  kind := .file
  size := 0
  blocks := 0
  uid := 0
  gid := 0
  projid := 0
  mode := 0o644
  nlink := 1
  atime := 0
  mtime := 0
  ctime := 0
  stripeCount := none
  stripeSize := none
  stripeItems := []
  poolName := none
  smStatus := .obj []
  lastSeen := 0
  depth := 1

def config : FileSystemConfig where
  id := lustre
  backend := .lustre
  mountPath := [.rootDir, .normal [108]]
  capabilities := ⟨true, true, true, true, true, true⟩

def empty : Catalog := ⟨some config, ∅, ∅, ∅, ∅, none⟩

end Sample

end Robinhood.Store
