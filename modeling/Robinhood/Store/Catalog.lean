/-
# Store.Catalog — the filesystem-scoped operations of `EntryStore`

Every statement of these operations is restricted by `filesystem_id = ?`, so the state is the slice of
the tables that belongs to one filesystem: its registration, its entry rows, its namespace edges, its
stripe rows, its removed entries and its baseline state.  Each operation is a `Proc` whose steps are the statements and
transactions of the source, one step each; a transaction is a function of the slice that answers with
the new slice or with the error that rolls it back.
-/
import Mathlib
import Robinhood.Store.Types
import Robinhood.Lib.Proc

namespace Robinhood.Store

open Lib
open Posix (Name Path)

/-! ## §1 — The slice of one filesystem -/

structure BackendCapabilities where
  changelog : Bool
  namespace_ : Bool
  purge : Bool
  hsm : Bool
  stripe : Bool
  ost : Bool
deriving DecidableEq, Repr

/-- A row of `filesystems`. -/
structure FileSystemConfig where
  id : FileSystemId
  backend : BackendKind
  mountPath : Path
  capabilities : BackendCapabilities
deriving DecidableEq

/-- **The catalog of one filesystem.**  `stripeItems` lists, for each object that has any, its rows of
`scoped_stripe_items` by stripe index: they are only ever replaced together. -/
structure Catalog where
  filesystem : Option FileSystemConfig
  entries : Table ObjectId ScopedEntryRow
  edges : Table EdgeKey ObjectId
  stripeItems : Table ObjectId (List UInt32)
  removed : Table ObjectId ScopedRemovedEntry
  baseline : Option FilesystemBaseline
deriving DecidableEq

attribute [ext] Catalog

/-- `StoreError`. -/
inductive StoreError where
  | backendMismatch (filesystem : FileSystemId) (configured object : BackendKind)
  | unknownFilesystem (filesystem : FileSystemId)
  | invalidObjectIdentity (reason : String)
  | duplicateKey
deriving DecidableEq

abbrev StoreProc := Proc Catalog StoreError

namespace Catalog

def row (c : Catalog) (object : ObjectId) : Option ScopedEntryRow := c.entries[object]?

def child (c : Catalog) (key : EdgeKey) : Option ObjectId := c.edges[key]?

/-- The slice with the row under `object` replaced. -/
def putRow (c : Catalog) (object : ObjectId) (entry : ScopedEntryRow) : Catalog :=
  { c with entries := c.entries.insert object entry }

def dropRow (c : Catalog) (object : ObjectId) : Catalog :=
  { c with entries := c.entries.erase object }

def putEdge (c : Catalog) (key : EdgeKey) (object : ObjectId) : Catalog :=
  { c with edges := c.edges.insert key object }

def dropEdge (c : Catalog) (key : EdgeKey) : Catalog := { c with edges := c.edges.erase key }

def putRemoved (c : Catalog) (object : ObjectId) (entry : ScopedEntryRow) (rmTime : Int) : Catalog :=
  { c with removed := c.removed.insert object ⟨entry, rmTime⟩ }

def objectEdges (c : Catalog) (object : ObjectId) : List EdgeKey := c.edges.keysWith object

theorem ext_lookup {c d : Catalog} (hfs : c.filesystem = d.filesystem)
    (hrow : ∀ o, c.row o = d.row o) (hchild : ∀ k, c.child k = d.child k)
    (hstripe : c.stripeItems = d.stripeItems) (hremoved : c.removed = d.removed)
    (hbaseline : c.baseline = d.baseline) : c = d :=
  Catalog.ext hfs (Std.ExtTreeMap.ext_getElem? hrow) (Std.ExtTreeMap.ext_getElem? hchild)
    hstripe hremoved hbaseline

section Lookups

variable (c : Catalog) (object a : ObjectId) (entry : ScopedEntryRow) (key k : EdgeKey)
  (rmTime : Int)

@[simp]
theorem row_putRow : (c.putRow object entry).row a = if object = a then some entry else c.row a :=
  Table.getElem?_upsert ..

@[simp]
theorem row_dropRow : (c.dropRow object).row a = if object = a then none else c.row a :=
  Table.getElem?_delete ..

@[simp] theorem row_putEdge : (c.putEdge key object).row a = c.row a := rfl
@[simp] theorem row_dropEdge : (c.dropEdge key).row a = c.row a := rfl
@[simp] theorem row_putRemoved : (c.putRemoved object entry rmTime).row a = c.row a := rfl

@[simp]
theorem child_putEdge : (c.putEdge key object).child k = if key = k then some object else c.child k :=
  Table.getElem?_upsert ..

@[simp]
theorem child_dropEdge : (c.dropEdge key).child k = if key = k then none else c.child k :=
  Table.getElem?_delete ..

@[simp] theorem child_putRow : (c.putRow object entry).child k = c.child k := rfl
@[simp] theorem child_dropRow : (c.dropRow object).child k = c.child k := rfl
@[simp] theorem child_putRemoved : (c.putRemoved object entry rmTime).child k = c.child k := rfl

@[simp] theorem filesystem_putRow : (c.putRow object entry).filesystem = c.filesystem := rfl
@[simp] theorem filesystem_dropRow : (c.dropRow object).filesystem = c.filesystem := rfl
@[simp] theorem filesystem_putEdge : (c.putEdge key object).filesystem = c.filesystem := rfl
@[simp] theorem filesystem_dropEdge : (c.dropEdge key).filesystem = c.filesystem := rfl
@[simp] theorem filesystem_putRemoved :
    (c.putRemoved object entry rmTime).filesystem = c.filesystem := rfl

@[simp] theorem removed_putRow : (c.putRow object entry).removed = c.removed := rfl
@[simp] theorem removed_dropRow : (c.dropRow object).removed = c.removed := rfl
@[simp] theorem removed_putEdge : (c.putEdge key object).removed = c.removed := rfl
@[simp] theorem removed_dropEdge : (c.dropEdge key).removed = c.removed := rfl
@[simp] theorem removed_putRemoved :
    (c.putRemoved object entry rmTime).removed = c.removed.insert object ⟨entry, rmTime⟩ := rfl

@[simp] theorem stripeItems_putRow : (c.putRow object entry).stripeItems = c.stripeItems := rfl
@[simp] theorem stripeItems_dropRow : (c.dropRow object).stripeItems = c.stripeItems := rfl
@[simp] theorem stripeItems_putEdge : (c.putEdge key object).stripeItems = c.stripeItems := rfl
@[simp] theorem stripeItems_dropEdge : (c.dropEdge key).stripeItems = c.stripeItems := rfl
@[simp] theorem stripeItems_putRemoved :
    (c.putRemoved object entry rmTime).stripeItems = c.stripeItems := rfl

@[simp] theorem baseline_putRow : (c.putRow object entry).baseline = c.baseline := rfl
@[simp] theorem baseline_dropRow : (c.dropRow object).baseline = c.baseline := rfl
@[simp] theorem baseline_putEdge : (c.putEdge key object).baseline = c.baseline := rfl
@[simp] theorem baseline_dropEdge : (c.dropEdge key).baseline = c.baseline := rfl
@[simp] theorem baseline_putRemoved :
    (c.putRemoved object entry rmTime).baseline = c.baseline := rfl

variable {c object key k}

@[simp]
theorem mem_objectEdges : k ∈ c.objectEdges object ↔ c.child k = some object := Table.mem_keysWith

theorem nodup_objectEdges : (c.objectEdges object).Nodup := Table.nodup_keysWith ..

theorem length_objectEdges_congr {d : Catalog}
    (h : ∀ k, c.child k = some object ↔ d.child k = some object) :
    (c.objectEdges object).length = (d.objectEdges object).length :=
  Table.length_keysWith_congr h

/-- One more edge leads to `object` in `d` than in `c`. -/
theorem length_objectEdges_add_one {d : Catalog} (hk : c.child key ≠ some object)
    (h : ∀ k, d.child k = some object ↔ k = key ∨ c.child k = some object) :
    (d.objectEdges object).length = (c.objectEdges object).length + 1 :=
  Table.length_keysWith_add_one hk h

theorem putEdge_eq_self (h : c.child key = some object) : c.putEdge key object = c := by
  rw [putEdge, Table.upsert_eq_self h]

theorem putRow_putRow : (c.putRow object entry).putRow object entry = c.putRow object entry := by
  rw [putRow, putRow, Table.upsert_upsert]

theorem putEdge_putEdge : (c.putEdge key object).putEdge key object = c.putEdge key object :=
  putEdge_eq_self (by simp)

theorem putRow_putEdge :
    (c.putEdge key a).putRow object entry = (c.putRow object entry).putEdge key a := rfl

theorem dropEdge_eq_self (h : c.child key = none) : c.dropEdge key = c := by
  rw [dropEdge, Table.delete_eq_self h]

end Lookups

end Catalog

/-! ## §2 — Rows and edges -/

/-- `EntryStore::get_filesystem`. -/
def getFilesystem : StoreProc (Option FileSystemConfig) := Proc.read Catalog.filesystem

theorem Catalog.length_le_size (c : Catalog) {visited : List ObjectId} (hnodup : visited.Nodup)
    (hrows : ∀ v ∈ visited, (c.row v).isSome) : visited.length ≤ c.entries.size := by
  rw [← Std.ExtTreeMap.length_keys]
  refine (List.subperm_of_subset hnodup fun v hv => ?_).length_le
  rw [Std.ExtTreeMap.mem_keys]
  exact Std.ExtTreeMap.isSome_getElem?_iff_mem.1 (hrows v hv)

/-- What `get_scoped_entry` answers: the stored row must carry the key it is stored under. -/
def Catalog.scopedEntry (c : Catalog) (key : EntryKey) : Except StoreError (Option ScopedEntryRow) :=
  match c.row key.object with
  | none => .ok none
  | some entry =>
    if entry.key = key then .ok (some entry)
    else .error (.invalidObjectIdentity "scoped entry key does not match its primary key")

theorem scopedEntry_eq_some {c : Catalog} {key : EntryKey} {entry : ScopedEntryRow} :
    c.scopedEntry key = .ok (some entry) ↔ c.row key.object = some entry ∧ entry.key = key := by
  rw [Catalog.scopedEntry]
  rcases c.row key.object with _ | e
  · simp
  · by_cases h : e.key = key
    · simp only [if_pos h, Except.ok.injEq, Option.some.injEq]
      exact ⟨fun he => ⟨he, he ▸ h⟩, And.left⟩
    · simp only [if_neg h, reduceCtorEq, Option.some.injEq, false_iff, not_and]
      exact fun he => he ▸ h

/-- `EntryStore::get_scoped_entry`. -/
def getScopedEntry (key : EntryKey) : StoreProc (Option ScopedEntryRow) :=
  Proc.ask fun c => c.scopedEntry key

/-- `upsert_scoped_entry_tx`. -/
def upsertScopedEntryTx (entry : ScopedEntryRow) (c : Catalog) : Except StoreError Catalog :=
  match entry.parent with
  | some parent =>
    if parent.filesystem ≠ entry.key.filesystem then
      .error (.invalidObjectIdentity "entry parent belongs to another filesystem")
    else .ok (c.putRow entry.key.object entry)
  | none => .ok (c.putRow entry.key.object entry)

/-- `EntryStore::upsert_scoped_entry`. -/
def upsertScopedEntry (entry : ScopedEntryRow) : StoreProc Unit := do
  match ← getFilesystem with
  | some config =>
    if config.backend ≠ entry.key.object.backend then
      .fail (.backendMismatch entry.key.filesystem config.backend entry.key.object.backend)
    else Proc.txn (upsertScopedEntryTx entry)
  | none => Proc.txn (upsertScopedEntryTx entry)

/-- The conditions under which an upsert of `entry` is accepted: the object is of the registered
backend, if there is a registration, and the parent is in the same filesystem. -/
def Catalog.Accepts (c : Catalog) (entry : ScopedEntryRow) : Prop :=
  (∀ config, c.filesystem = some config → config.backend = entry.key.object.backend) ∧
    ∀ parent, entry.parent = some parent → parent.filesystem = entry.key.filesystem

theorem upsertScopedEntryTx_ok {c : Catalog} {entry : ScopedEntryRow}
    (h : ∀ parent, entry.parent = some parent → parent.filesystem = entry.key.filesystem) :
    upsertScopedEntryTx entry c = .ok (c.putRow entry.key.object entry) := by
  rw [upsertScopedEntryTx]
  split
  · next parent hp => rw [if_neg (not_not.2 (h parent hp))]
  · rfl

theorem run_upsertScopedEntry_of_accepts {c : Catalog} {entry : ScopedEntryRow}
    (h : c.Accepts entry) :
    (upsertScopedEntry entry).run c = (.ok (), c.putRow entry.key.object entry) := by
  obtain ⟨hbackend, hparent⟩ := h
  have htx := upsertScopedEntryTx_ok (c := c) hparent
  rw [upsertScopedEntry, getFilesystem, Proc.run_bind, Proc.run_read]
  dsimp only
  split
  · next config hconfig => rw [if_neg (not_not.2 (hbackend config hconfig)), Proc.run_txn, htx]
  · rw [Proc.run_txn, htx]

theorem run_upsertScopedEntry_of_not_accepts {c : Catalog} {entry : ScopedEntryRow}
    (h : ¬ c.Accepts entry) : ∃ e, (upsertScopedEntry entry).run c = (.error e, c) := by
  have htx : (∀ parent, entry.parent = some parent → parent.filesystem = entry.key.filesystem) ∨
      ∃ e, upsertScopedEntryTx entry c = .error e := by
    rw [upsertScopedEntryTx]
    split
    · next parent hp =>
      rw [hp]
      by_cases hfs : parent.filesystem = entry.key.filesystem
      · exact .inl fun q hq => by rwa [← Option.some.inj hq]
      · exact .inr ⟨_, if_pos hfs⟩
    · next hp => exact .inl fun q hq => by rw [hp] at hq; cases hq
  rw [upsertScopedEntry, getFilesystem, Proc.run_bind, Proc.run_read]
  dsimp only
  split
  · next config hconfig =>
    split_ifs with hbackend
    · exact ⟨_, rfl⟩
    · rcases htx with hparent | ⟨e, he⟩
      · refine absurd ⟨fun config' hconfig' => ?_, hparent⟩ h
        rw [← Option.some.inj (hconfig.symm.trans hconfig')]
        exact not_not.1 hbackend
      · exact ⟨e, by rw [Proc.run_txn, he]⟩
  · next hconfig =>
    rcases htx with hparent | ⟨e, he⟩
    · refine absurd ⟨fun config' hconfig' => ?_, hparent⟩ h
      rw [hconfig] at hconfig'
      cases hconfig'
    · exact ⟨e, by rw [Proc.run_txn, he]⟩

/-- **An accepted upsert** stored the row under its key. -/
theorem run_upsertScopedEntry_ok {c c' : Catalog} {entry : ScopedEntryRow} {u : Unit} :
    (upsertScopedEntry entry).run c = (.ok u, c') ↔
      c.Accepts entry ∧ c' = c.putRow entry.key.object entry := by
  by_cases h : c.Accepts entry
  · rw [run_upsertScopedEntry_of_accepts h]
    simp [h, eq_comm]
  · obtain ⟨e, he⟩ := run_upsertScopedEntry_of_not_accepts h
    simp [he, h]

theorem atomic_getScopedEntry (key : EntryKey) : (getScopedEntry key).Atomic := Proc.atomic_ask _

theorem atomic_upsertScopedEntry (entry : ScopedEntryRow) : (upsertScopedEntry entry).Atomic := by
  show Proc.Atomic (Proc.ask (fun c : Catalog => .ok c.filesystem) >>= _)
  refine Proc.Atomic.ask_bind fun config => ?_
  cases config with
  | none => exact Proc.atomic_txn _
  | some config =>
    show Proc.Atomic (if _ then _ else _)
    split_ifs
    · exact Proc.atomic_fail _
    · exact Proc.atomic_txn _

/-- `EntryStore::upsert_scoped_namespace_edge`. -/
def upsertScopedNamespaceEdge (edge : ScopedNamespaceEdge) : StoreProc Unit :=
  Proc.write fun c => c.putEdge edge.edgeKey edge.object

/-- `EntryStore::remove_scoped_namespace_edge`: whether there was such an edge. -/
def removeScopedNamespaceEdge (parent : ObjectId) (name : Name) : StoreProc Bool :=
  .step (fun c => c.dropEdge ⟨parent, name⟩) fun c => .pure (c.child ⟨parent, name⟩).isSome

theorem atomic_upsertScopedNamespaceEdge (edge : ScopedNamespaceEdge) :
    (upsertScopedNamespaceEdge edge).Atomic :=
  Proc.atomic_step _ _

theorem atomic_removeScopedNamespaceEdge (parent : ObjectId) (name : Name) :
    (removeScopedNamespaceEdge parent name).Atomic :=
  Proc.atomic_step _ _

/-- `EntryStore::lookup_scoped_namespace_child`. -/
def Catalog.lookupScopedNamespaceChild (c : Catalog) (filesystem : FileSystemId) (parent : ObjectId)
    (name : Name) : Option EntryKey :=
  (c.child ⟨parent, name⟩).map fun object => ⟨filesystem, object⟩

/-- `EntryStore::list_scoped_object_edges`, ordered by parent and name. -/
def Catalog.listScopedObjectEdges (c : Catalog) (key : EntryKey) : List ScopedNamespaceEdge :=
  (c.objectEdges key.object).map fun edge => ⟨key.filesystem, edge.parent, edge.name, key.object⟩

/-! ## §3 — Hard links, unlinks, clearing -/

/-- `u32::saturating_add(1)`. -/
def saturatingSucc (n : UInt32) : UInt32 := if n = 4294967295 then n else n + 1

/-- The transaction of `apply_scoped_hardlink`. -/
def applyScopedHardlinkTx (edge : ScopedNamespaceEdge) (observedAt : Int) (c : Catalog) :
    Except StoreError Catalog :=
  match c.child edge.edgeKey with
  | some object =>
    if object = edge.object then .ok c
    else .error (.invalidObjectIdentity "namespace edge belongs to another object")
  | none =>
    match c.row edge.object with
    | none => .error (.invalidObjectIdentity "hard link object is not cataloged")
    | some entry =>
      .ok ((c.putEdge edge.edgeKey edge.object).putRow edge.object
        { entry with nlink := saturatingSucc entry.nlink, lastSeen := observedAt })

/-- **An accepted hard link** is a replay of an existing edge, or adds one and counts it. -/
theorem applyScopedHardlinkTx_ok {edge : ScopedNamespaceEdge} {observedAt : Int} {c c' : Catalog}
    (h : applyScopedHardlinkTx edge observedAt c = .ok c') :
    (c.child edge.edgeKey = some edge.object ∧ c' = c) ∨
      (c.child edge.edgeKey = none ∧ ∃ entry, c.row edge.object = some entry ∧
        c' = (c.putEdge edge.edgeKey edge.object).putRow edge.object
          { entry with nlink := saturatingSucc entry.nlink, lastSeen := observedAt }) := by
  rw [applyScopedHardlinkTx] at h
  split at h
  · next object hchild =>
    split_ifs at h with hobject
    cases h
    exact .inl ⟨hobject ▸ hchild, rfl⟩
  · next hchild =>
    split at h
    · cases h
    · next entry hrow =>
      cases h
      exact .inr ⟨hchild, entry, hrow, rfl⟩

/-- `EntryStore::apply_scoped_hardlink`. -/
def applyScopedHardlink (edge : ScopedNamespaceEdge) (observedAt : Int) : StoreProc Unit :=
  Proc.txn (applyScopedHardlinkTx edge observedAt)

/-- The transaction of `apply_scoped_unlink`; it cannot fail. -/
def applyScopedUnlinkTx (key : EntryKey) (parent : ObjectId) (name : Name) (observedAt : Int)
    (directory : Bool) (c : Catalog) : Catalog :=
  if c.child ⟨parent, name⟩ = some key.object then
    let c := c.dropEdge ⟨parent, name⟩
    match c.row key.object with
    | none => c
    | some entry =>
      if !directory && entry.nlink > 1 then
        c.putRow key.object { entry with nlink := entry.nlink - 1, lastSeen := observedAt }
      else (c.putRemoved key.object entry observedAt).dropRow key.object
  else c

section Unlink

variable {key : EntryKey} {parent : ObjectId} {name : Name} {observedAt : Int} {directory : Bool}
  {c : Catalog}

theorem applyScopedUnlinkTx_of_ne (h : c.child ⟨parent, name⟩ ≠ some key.object) :
    applyScopedUnlinkTx key parent name observedAt directory c = c :=
  if_neg h

theorem applyScopedUnlinkTx_of_no_row (h : c.child ⟨parent, name⟩ = some key.object)
    (hrow : c.row key.object = none) :
    applyScopedUnlinkTx key parent name observedAt directory c = c.dropEdge ⟨parent, name⟩ := by
  simp only [applyScopedUnlinkTx, if_pos h, Catalog.row_dropEdge, hrow]

theorem applyScopedUnlinkTx_of_many {entry : ScopedEntryRow}
    (h : c.child ⟨parent, name⟩ = some key.object) (hrow : c.row key.object = some entry)
    (hfile : directory = false) (hlinks : 1 < entry.nlink) :
    applyScopedUnlinkTx key parent name observedAt directory c =
      (c.dropEdge ⟨parent, name⟩).putRow key.object
        { entry with nlink := entry.nlink - 1, lastSeen := observedAt } := by
  simp [applyScopedUnlinkTx, h, hrow, hfile, hlinks]

theorem applyScopedUnlinkTx_of_last {entry : ScopedEntryRow}
    (h : c.child ⟨parent, name⟩ = some key.object) (hrow : c.row key.object = some entry)
    (hlast : directory = true ∨ ¬ 1 < entry.nlink) :
    applyScopedUnlinkTx key parent name observedAt directory c =
      ((c.dropEdge ⟨parent, name⟩).putRemoved key.object entry observedAt).dropRow key.object := by
  rcases hlast with hdir | hlinks
  · simp [applyScopedUnlinkTx, h, hrow, hdir]
  · simp [applyScopedUnlinkTx, h, hrow, hlinks]

end Unlink

/-- `EntryStore::apply_scoped_unlink`. -/
def applyScopedUnlink (key : EntryKey) (parent : ObjectId) (name : Name) (observedAt : Int)
    (directory : Bool) : StoreProc Unit :=
  Proc.write (applyScopedUnlinkTx key parent name observedAt directory)

def Catalog.cleared (c : Catalog) : Catalog := { c with stripeItems := ∅, edges := ∅, entries := ∅ }

/-- `EntryStore::clear_scoped_catalog`. -/
def clearScopedCatalog : StoreProc Unit := Proc.write Catalog.cleared

/-- The slice with a new baseline state: a start time is kept until the next scan, the other columns
are replaced. -/
def Catalog.withBaseline (c : Catalog) (state : BaselineState) (lastVersion : Option UInt64)
    (reason : Option String) (now : Int) : Catalog :=
  { c with baseline := some {
    state := state
    scanStartedAt :=
      if state = .scanning then some now else c.baseline.bind FilesystemBaseline.scanStartedAt
    completedAt := if state = .ready then some now else none
    lastVersion := lastVersion
    invalidReason := reason } }

/-- `EntryStore::set_baseline_state`, with the clock it reads. -/
def setBaselineState (state : BaselineState) (lastVersion : Option UInt64) (reason : Option String)
    (now : Int) : StoreProc Unit :=
  Proc.write fun c => c.withBaseline state lastVersion reason now

/-- The merge of a patch into `sm_status`: member by member when both are objects, else the patch. -/
def mergeStatus (current patch : Json) : Json :=
  match current.asObject, patch.asObject with
  | some members, some delta =>
    .obj (delta.foldl (fun ms m => Json.insertMember m.1 m.2 ms) members)
  | _, _ => patch

/-- `EntryStore::patch_scoped_sm_status`, with the clock it reads. -/
def patchScopedSmStatus (key : EntryKey) (patch : Json) (now : Int) : StoreProc Bool := do
  match ← getScopedEntry key with
  | none => pure false
  | some entry =>
    upsertScopedEntry { entry with smStatus := mergeStatus entry.smStatus patch, lastSeen := now }
    pure true

instance (c : Catalog) (entry : ScopedEntryRow) : Decidable (c.Accepts entry) :=
  decidable_of_iff ((∀ config ∈ c.filesystem, config.backend = entry.key.object.backend) ∧
    ∀ parent ∈ entry.parent, parent.filesystem = entry.key.filesystem) Iff.rfl

/-- The slice after `upsert_scoped_entry`. -/
def Catalog.withEntry (c : Catalog) (entry : ScopedEntryRow) : Catalog :=
  if c.Accepts entry then c.putRow entry.key.object entry else c

theorem run_upsertScopedEntry_snd (c : Catalog) (entry : ScopedEntryRow) :
    ((upsertScopedEntry entry).run c).2 = c.withEntry entry := by
  unfold Catalog.withEntry
  split_ifs with h
  · rw [run_upsertScopedEntry_of_accepts h]
  · obtain ⟨e, he⟩ := run_upsertScopedEntry_of_not_accepts h
    rw [he]

/-- The slice after `patch_scoped_sm_status`. -/
def Catalog.patched (c : Catalog) (key : EntryKey) (patch : Json) (now : Int) : Catalog :=
  match c.scopedEntry key with
  | .ok (some entry) =>
    c.withEntry { entry with smStatus := mergeStatus entry.smStatus patch, lastSeen := now }
  | _ => c

theorem run_patchScopedSmStatus_snd (c : Catalog) (key : EntryKey) (patch : Json) (now : Int) :
    ((patchScopedSmStatus key patch now).run c).2 = c.patched key patch now := by
  rw [patchScopedSmStatus, getScopedEntry, Proc.run_bind, Proc.run_ask, Catalog.patched]
  rcases c.scopedEntry key with e | _ | entry
  · rfl
  · rfl
  · exact (Proc.run_bind_snd_of_pure _ _ _).trans (run_upsertScopedEntry_snd _ _)

end Robinhood.Store
