/-
# Namespace.Adapter — resolving objects (`rbh-namespace/src/adapter.rs`)

`NamespaceAdapter` turns a cataloged object into a live path.  On JuiceFS it follows the stored edges
of the object to a parent, the stored rows of the parents to the root, and accepts the path when the
live mount shows the object's inode there; on Lustre the path comes from the FID.  A resolution only
reads; it is a function of the catalog and the mount.
-/
import Mathlib
import Robinhood.Posix.Mount
import Robinhood.Store.Catalog

namespace Robinhood.Namespace

open Lib Posix Store

/-! ## §1 — Types -/

/-- `NamespaceError`, without the error of task joining. -/
inductive NamespaceError where
  | wrongFilesystem (expected actual : FileSystemId)
  | outsideFilesystem (filesystem : FileSystemId) (path : Path)
  | notFound (key : EntryKey)
  | missingParent (key : EntryKey)
  | stalePath (key : EntryKey)
  | cycle (key : EntryKey)
  | backendMismatch (filesystem : FileSystemId)
  | store (error : StoreError)
  | io (path : Path) (error : IoError)
  | lustre (error : IoError)
deriving DecidableEq

/-- `NamespaceTarget`. -/
inductive NamespaceTarget where
  | object (key : EntryKey)
  | path (path : Path)
deriving DecidableEq

/-- `NamespaceStat`. -/
structure NamespaceStat where
  kind : EntryKind
  size : UInt64
  nlink : UInt64
  inode : UInt64
deriving DecidableEq, Repr

/-- `ResolvedNamespace`. -/
structure ResolvedNamespace where
  key : EntryKey
  path : Path
  stat : NamespaceStat
deriving DecidableEq

structure View where
  catalog : Catalog
  mount : Mount

abbrev Resolve := Except NamespaceError

/-! ## §2 — The adapter -/

/-- `NamespaceAdapter::new`: the registration of a filesystem with a namespace. -/
def newAdapter (catalog : Catalog) (filesystem : FileSystemId) : Resolve FileSystemConfig :=
  match catalog.filesystem with
  | none => .error (.backendMismatch filesystem)
  | some config =>
    if config.capabilities.namespace_ then .ok config else .error (.backendMismatch filesystem)

variable (config : FileSystemConfig) (view : View)

/-- `check_key`. -/
def checkKey (key : EntryKey) : Resolve Unit :=
  if key.filesystem ≠ config.id then .error (.wrongFilesystem config.id key.filesystem) else .ok ()

/-- `relative_path`: the path below the mount, whose parent directory must really lie there. -/
def relativePath (path : Path) : Resolve Path :=
  if path.any (· = .parentDir) then .error (.outsideFilesystem config.id path)
  else match path.stripPrefix config.mountPath with
    | none => .error (.outsideFilesystem config.id path)
    | some [] => .ok []
    | some relative => do
      let parentPath := path.parent.getD path
      let mount ← (view.mount.canonicalize config.mountPath).mapError (.io config.mountPath)
      let parent ← (view.mount.canonicalize parentPath).mapError (.io parentPath)
      if parent.startsWith mount then .ok relative
      else .error (.outsideFilesystem config.id path)

/-- `NamespaceAdapter::stat`. -/
def stat (path : Path) : Resolve NamespaceStat :=
  match view.mount.symlinkMetadata path with
  | .ok metadata => .ok ⟨metadata.kind, metadata.size, metadata.nlink, metadata.ino⟩
  | .error error => .error (.io path error)

/-- `get_scoped_entry` as the adapter calls it. -/
def entryOf (key : EntryKey) : Resolve (Option ScopedEntryRow) :=
  (view.catalog.scopedEntry key).mapError .store

/-- `juice_root`: the cataloged object at the mount point. -/
def juiceRoot : Resolve EntryKey := do
  let stat ← stat view config.mountPath
  let key : EntryKey := ⟨config.id, .juiceFs stat.inode⟩
  match ← entryOf view key with
  | none => .error (.notFound key)
  | some _ => .ok key

/-- The walk of `juice_parent_path` from `current` up to `root`.  `visited` holds the keys seen, so a
cycle is reported; each round visits another row, and `fuel` bounds the number of rows. -/
def parentNames (root : EntryKey) : ℕ → List EntryKey → EntryKey → Resolve (List Name)
  | 0, _, current => .error (.cycle current)
  | fuel + 1, visited, current =>
    if current = root then .ok []
    else if current ∈ visited then .error (.cycle current)
    else do
      match ← entryOf view current with
      | none => .error (.missingParent current)
      | some entry =>
        match entry.parent with
        | none => .error (.missingParent current)
        | some parent =>
          let names ← parentNames root fuel (current :: visited) parent
          .ok (names ++ [entry.name])

/-- `juice_parent_path`.  A walk without a repetition visits each row at most once and then one key
that has no row, is the root or was visited. -/
def juiceParentPath (key : EntryKey) : Resolve Path := do
  let root ← juiceRoot config view
  let names ← parentNames view root (view.catalog.entries.size + 2) [] key
  .ok (config.mountPath.pushAll names)

/-- The loop of `resolve_juice_object` over the edges of the object. -/
def resolveEdges (key : EntryKey) (expectedInode : UInt64) :
    Bool → List ScopedNamespaceEdge → Resolve ResolvedNamespace
  | resolvedParent, [] =>
    if resolvedParent then .error (.stalePath key) else .error (.missingParent key)
  | resolvedParent, edge :: edges =>
    match juiceParentPath config view ⟨config.id, edge.parent⟩ with
    | .error (.missingParent _) | .error (.notFound _) =>
      resolveEdges key expectedInode resolvedParent edges
    | .error error => .error error
    | .ok parentPath => do
      let path := parentPath.push edge.name
      let _ ← relativePath config view path
      match stat view path with
      | .ok stat =>
        if stat.inode = expectedInode then .ok ⟨key, path, stat⟩
        else resolveEdges key expectedInode true edges
      | .error _ => resolveEdges key expectedInode true edges

/-- `resolve_juice_object`. -/
def resolveJuiceObject (key : EntryKey) : Resolve ResolvedNamespace := do
  checkKey config key
  match key.object with
  | .lustre _ => .error (.backendMismatch config.id)
  | .juiceFs expectedInode =>
    let root ← juiceRoot config view
    if key = root then
      let stat ← stat view config.mountPath
      .ok ⟨key, config.mountPath, stat⟩
    else
      match ← entryOf view key with
      | none => .error (.notFound key)
      | some _ =>
        match view.catalog.listScopedObjectEdges key with
        | [] => .error (.missingParent key)
        | edges => resolveEdges config view key expectedInode false edges

/-- The `Object` case of `resolve_lustre`. -/
def resolveLustreObject (key : EntryKey) : Resolve ResolvedNamespace := do
  checkKey config key
  match key.object with
  | .juiceFs _ => .error (.backendMismatch config.id)
  | .lustre fid =>
    match view.mount.fidToPath fid with
    | .error _ => .error (.stalePath key)
    | .ok relative =>
      if relative.head? = some .rootDir then .error (.stalePath key)
      else do
        let path := config.mountPath ++ relative
        let _ ← relativePath config view path
        if (view.mount.pathToFid path).toOption ≠ some fid then .error (.stalePath key)
        else match stat view path with
          | .ok stat => .ok ⟨key, path, stat⟩
          | .error _ => .error (.stalePath key)

/-- `resolve` of an object. -/
def resolveObject (key : EntryKey) : Resolve ResolvedNamespace :=
  match config.backend with
  | .lustre => resolveLustreObject config view key
  | .juiceFs => resolveJuiceObject config view key

/-- The walk of `resolve_juice_path` down the edges, over the plain components of the path. -/
def childKey : EntryKey → Path → Resolve EntryKey
  | key, [] => .ok key
  | key, .normal name :: rest =>
    match view.catalog.child ⟨key.object, name⟩ with
    | some object => childKey ⟨config.id, object⟩ rest
    | none => .error (.stalePath key)
  | key, _ :: rest => childKey key rest

/-- `resolve_juice_path`. -/
def resolveJuicePath (path : Path) : Resolve ResolvedNamespace := do
  let relative ← relativePath config view path
  let stat ← stat view path
  let key ← childKey config view (← juiceRoot config view) relative
  if key.object ≠ .juiceFs stat.inode then .error (.stalePath key) else .ok ⟨key, path, stat⟩

/-- The `Path` case of `resolve_lustre`. -/
def resolveLustrePath (path : Path) : Resolve ResolvedNamespace := do
  let _ ← relativePath config view path
  let fid ← (view.mount.pathToFid path).mapError .lustre
  let key : EntryKey := ⟨config.id, .lustre fid⟩
  match stat view path with
  | .ok stat => .ok ⟨key, path, stat⟩
  | .error _ => .error (.stalePath key)

/-- **`NamespaceAdapter::resolve`.** -/
def resolve : NamespaceTarget → Resolve ResolvedNamespace
  | .object key => resolveObject config view key
  | .path path => match config.backend with
    | .lustre => resolveLustrePath config view path
    | .juiceFs => resolveJuicePath config view path

/-! ## §3 — What a resolved path shows -/

variable {config view}

theorem stat_eq_ok {path : Path} {stat' : NamespaceStat} (h : stat view path = .ok stat') :
    ∃ md, view.mount.symlinkMetadata path = .ok md ∧ stat'.inode = md.ino := by
  rw [stat] at h
  split at h
  · next md hmd =>
    cases h
    exact ⟨md, hmd, rfl⟩
  · cases h

theorem resolveEdges_found {key : EntryKey} {inode : UInt64} {resolvedParent : Bool}
    {edges : List ScopedNamespaceEdge} {resolved : ResolvedNamespace}
    (h : resolveEdges config view key inode resolvedParent edges = .ok resolved) :
    ∃ edge ∈ edges, ∃ parentPath relative stat',
      juiceParentPath config view ⟨config.id, edge.parent⟩ = .ok parentPath ∧
      relativePath config view (parentPath.push edge.name) = .ok relative ∧
      stat view (parentPath.push edge.name) = .ok stat' ∧ stat'.inode = inode ∧
      resolved = ⟨key, parentPath.push edge.name, stat'⟩ := by
  induction edges generalizing resolvedParent with
  | nil =>
    rw [resolveEdges] at h
    split_ifs at h
  | cons edge edges ih =>
    have later : ∀ {flag : Bool}, resolveEdges config view key inode flag edges = .ok resolved → _ :=
      fun h => (ih h).imp fun _ => And.imp_left (List.mem_cons_of_mem edge)
    rw [resolveEdges] at h
    split at h
    · exact later h
    · exact later h
    · cases h
    · next parentPath hparent =>
      obtain ⟨relative, hrelative, h⟩ := except_bind_eq_ok.1 h
      split at h
      · next stat' hstat =>
        split_ifs at h with hinode
        · cases h
          exact ⟨edge, List.mem_cons_self, parentPath, relative, stat', hparent, hrelative, hstat,
            hinode, rfl⟩
        · exact later h
      · exact later h

theorem resolveEdges_ok {key : EntryKey} {inode : UInt64} {resolvedParent : Bool}
    {edges : List ScopedNamespaceEdge} {resolved : ResolvedNamespace}
    (h : resolveEdges config view key inode resolvedParent edges = .ok resolved) :
    ∃ md, view.mount.symlinkMetadata resolved.path = .ok md ∧ md.ino = inode := by
  obtain ⟨edge, -, parentPath, relative, stat', -, -, hstat, hinode, rfl⟩ := resolveEdges_found h
  obtain ⟨md, hmd, heq⟩ := stat_eq_ok hstat
  exact ⟨md, hmd, heq ▸ hinode⟩

/-- `juice_root` answers with the cataloged object of the mount point. -/
theorem juiceRoot_eq_ok {root : EntryKey} :
    juiceRoot config view = .ok root ↔
      (∃ md, view.mount.symlinkMetadata config.mountPath = .ok md ∧
        root = ⟨config.id, .juiceFs md.ino⟩) ∧ ∃ entry, entryOf view root = .ok (some entry) := by
  rw [juiceRoot, except_bind_eq_ok]
  constructor
  · rintro ⟨stat', hstat, h⟩
    obtain ⟨md, hmd, heq⟩ := stat_eq_ok hstat
    obtain ⟨entry, hentry, h⟩ := except_bind_eq_ok.1 h
    cases entry with
    | none => cases h
    | some entry =>
      cases h
      exact ⟨⟨md, hmd, by rw [heq]⟩, entry, hentry⟩
  · rintro ⟨⟨md, hmd, rfl⟩, entry, hentry⟩
    refine ⟨⟨md.kind, md.size, md.nlink, md.ino⟩, by rw [stat, hmd], ?_⟩
    exact except_bind_eq_ok.2 ⟨some entry, hentry, rfl⟩

theorem juiceRoot_ok {root : EntryKey} (h : juiceRoot config view = .ok root) :
    ∃ md, view.mount.symlinkMetadata config.mountPath = .ok md ∧
      root = ⟨config.id, .juiceFs md.ino⟩ :=
  (juiceRoot_eq_ok.1 h).1

/-- **`resolve_juice_object` answers** for the root, and for a cataloged object whose links lead to it. -/
theorem resolveJuiceObject_eq_ok {key : EntryKey} {resolved : ResolvedNamespace} :
    resolveJuiceObject config view key = .ok resolved ↔
      ∃ root inode, juiceRoot config view = .ok root ∧ key = ⟨config.id, .juiceFs inode⟩ ∧
        ((key = root ∧ ∃ stat', stat view config.mountPath = .ok stat' ∧
            resolved = ⟨key, config.mountPath, stat'⟩) ∨
          (key ≠ root ∧ (∃ entry, entryOf view key = .ok (some entry)) ∧
            resolveEdges config view key inode false (view.catalog.listScopedObjectEdges key) =
              .ok resolved)) := by
  -- An object without a link is reported as by the loop over no link.
  have hloop : ∀ inode (edges : List ScopedNamespaceEdge),
      (match edges with
        | [] => .error (.missingParent key)
        | edges => resolveEdges config view key inode false edges) =
      resolveEdges config view key inode false edges := by
    rintro inode (_ | ⟨edge, edges⟩) <;> rfl
  obtain ⟨filesystem, object⟩ := key
  constructor
  · intro h
    obtain ⟨_, hcheck, h⟩ := except_bind_eq_ok.1 h
    obtain rfl : filesystem = config.id := by
      by_contra hne
      simp [checkKey, hne] at hcheck
    cases object with
    | lustre => cases h
    | juiceFs inode =>
      obtain ⟨root, hroot, h⟩ := except_bind_eq_ok.1 h
      refine ⟨root, inode, hroot, rfl, ?_⟩
      split_ifs at h with hkey
      · obtain ⟨stat', hstat, h⟩ := except_bind_eq_ok.1 h
        cases h
        exact .inl ⟨hkey, stat', hstat, rfl⟩
      · obtain ⟨entry, hentry, h⟩ := except_bind_eq_ok.1 h
        cases entry with
        | none => cases h
        | some entry => exact .inr ⟨hkey, ⟨entry, hentry⟩, (hloop inode _).symm.trans h⟩
  · rintro ⟨root, inode, hroot, heq, h⟩
    cases heq
    refine except_bind_eq_ok.2 ⟨(), by simp [checkKey], ?_⟩
    refine except_bind_eq_ok.2 ⟨root, hroot, ?_⟩
    rcases h with ⟨hkey, stat', hstat, rfl⟩ | ⟨hkey, ⟨entry, hentry⟩, h⟩
    · rw [if_pos hkey]
      exact except_bind_eq_ok.2 ⟨stat', hstat, rfl⟩
    · rw [if_neg hkey]
      exact except_bind_eq_ok.2 ⟨some entry, hentry, (hloop inode _).trans h⟩

/-- **A resolved JuiceFS object** is live at its path. -/
theorem resolveJuiceObject_ok {key : EntryKey} {resolved : ResolvedNamespace}
    (h : resolveJuiceObject config view key = .ok resolved) :
    ∃ md, view.mount.symlinkMetadata resolved.path = .ok md ∧ key.object = .juiceFs md.ino := by
  obtain ⟨root, inode, hroot, rfl, ⟨hkey, stat', hstat, rfl⟩ | ⟨-, -, hedges⟩⟩ :=
    resolveJuiceObject_eq_ok.1 h
  · obtain ⟨md, hmd, rfl⟩ := juiceRoot_ok hroot
    exact ⟨md, hmd, congrArg EntryKey.object hkey⟩
  · obtain ⟨md, hmd, hino⟩ := resolveEdges_ok hedges
    exact ⟨md, hmd, by rw [hino]⟩

theorem resolveObject_juiceFs_ok {filesystem : FileSystemId} {inode : UInt64}
    {resolved : ResolvedNamespace}
    (h : resolveObject config view ⟨filesystem, .juiceFs inode⟩ = .ok resolved) :
    ∃ md, view.mount.symlinkMetadata resolved.path = .ok md ∧ md.ino = inode := by
  rw [resolveObject] at h
  split at h
  · obtain ⟨_, -, h⟩ := except_bind_eq_ok.1 h
    cases h
  · obtain ⟨md, hmd, heq⟩ := resolveJuiceObject_ok h
    exact ⟨md, hmd, (ObjectId.juiceFs.inj heq).symm⟩

/-! ## §4 — What a resolution reads of the catalog

A resolution follows the rows of the directories above an object and the edges of the object itself.
Writes elsewhere do not change it. -/

section Reads

variable {c d : Catalog} {live : Mount} {config : FileSystemConfig} {root : EntryKey}

def linkOf (view : View) (key : EntryKey) : Resolve (Option (Option EntryKey × Name)) :=
  (entryOf view key).map (Option.map fun entry => (entry.parent, entry.name))

theorem entryOf_eq_some {view : View} {key : EntryKey} {entry : ScopedEntryRow} :
    entryOf view key = .ok (some entry) ↔
      view.catalog.row key.object = some entry ∧ entry.key = key := by
  rw [entryOf, except_mapError_eq_ok, scopedEntry_eq_some]

theorem parentNames_succ (view : View) (fuel : ℕ) (visited : List EntryKey) (current : EntryKey) :
    parentNames view root (fuel + 1) visited current =
      if current = root then .ok []
      else if current ∈ visited then .error (.cycle current)
      else match linkOf view current with
        | .error e => .error e
        | .ok none | .ok (some (none, _)) => .error (.missingParent current)
        | .ok (some (some parent, name)) =>
          (parentNames view root fuel (current :: visited) parent).map (· ++ [name]) := by
  rw [parentNames, linkOf]
  split_ifs
  · rfl
  · rfl
  · rcases entryOf view current with e | _ | entry
    · rfl
    · rfl
    · show (match entry.parent with | none => _ | some parent => _) = _
      simp only [Except.map, Option.map]
      cases entry.parent with
      | none => rfl
      | some parent =>
        show (parentNames view root fuel (current :: visited) parent >>= _) =
          (parentNames view root fuel (current :: visited) parent).map _
        cases parentNames view root fuel (current :: visited) parent <;> rfl

theorem parentNames_congr {view view' : View} (above : EntryKey → Prop)
    (hlink : ∀ key, above key → linkOf view' key = linkOf view key)
    (hclosed : ∀ key parent name, above key → linkOf view key = .ok (some (some parent, name)) →
      above parent) (fuel : ℕ) :
    ∀ (visited : List EntryKey) {current : EntryKey}, above current →
      parentNames view' root fuel visited current = parentNames view root fuel visited current := by
  induction fuel with
  | zero =>
    intro visited current _
    rfl
  | succ fuel ih =>
    intro visited current hcurrent
    rw [parentNames_succ, parentNames_succ, hlink current hcurrent]
    split_ifs
    · rfl
    · rfl
    · split
      · rfl
      · rfl
      · rfl
      · next parent name hparent =>
        rw [ih (current :: visited) (hclosed current parent name hcurrent hparent)]

theorem visited_length_le {view : View} {visited : List EntryKey} (hnodup : visited.Nodup)
    (hrows : ∀ v ∈ visited, ∃ e, entryOf view v = .ok (some e)) :
    visited.length ≤ view.catalog.entries.size := by
  have hobjects : (visited.map EntryKey.object).Nodup := by
    refine List.Nodup.map_on (fun v hv w hw hvw => ?_) hnodup
    obtain ⟨e, he⟩ := hrows v hv
    obtain ⟨e', he'⟩ := hrows w hw
    rw [entryOf_eq_some] at he he'
    rw [hvw, he'.1] at he
    obtain ⟨⟨⟩, he⟩ := he
    rw [← he, he'.2]
  have hle := view.catalog.length_le_size hobjects fun o ho => by
    obtain ⟨v, hv, rfl⟩ := List.mem_map.1 ho
    obtain ⟨e, he⟩ := hrows v hv
    rw [(entryOf_eq_some.1 he).1]
    rfl
  rwa [List.length_map] at hle

theorem entryOf_of_linkOf {view : View} {key : EntryKey} {link : Option EntryKey × Name}
    (h : linkOf view key = .ok (some link)) :
    ∃ entry, entryOf view key = .ok (some entry) ∧ link = (entry.parent, entry.name) := by
  rcases hentry : entryOf view key with e | _ | entry <;> rw [linkOf, hentry] at h
  · cases h
  · cases h
  · cases h
    exact ⟨entry, rfl, rfl⟩

/-- **More fuel changes nothing**: the walk never visits a row twice. -/
theorem parentNames_fuel {view : View} {fuel : ℕ} :
    ∀ {visited : List EntryKey} (current : EntryKey), visited.Nodup →
      (∀ v ∈ visited, ∃ e, entryOf view v = .ok (some e)) →
      view.catalog.entries.size < fuel + visited.length →
      parentNames view root (fuel + 1) visited current = parentNames view root fuel visited current := by
  induction fuel with
  | zero =>
    intro visited current hnodup hrows hsize
    have hle := visited_length_le hnodup hrows
    omega
  | succ fuel ih =>
    intro visited current hnodup hrows hsize
    rw [parentNames_succ, parentNames_succ]
    split_ifs with hroot hvisited
    · rfl
    · rfl
    · split
      · rfl
      · rfl
      · rfl
      · next parent name hparent =>
        obtain ⟨e, hentry, -⟩ := entryOf_of_linkOf hparent
        rw [ih parent (List.nodup_cons.2 ⟨hvisited, hnodup⟩)
          (List.forall_mem_cons.2 ⟨⟨e, hentry⟩, hrows⟩) (by rw [List.length_cons]; omega)]

/-- **A write elsewhere**: the second catalog keeps the filesystem's rows and the links of a set of keys
that is closed under parents. -/
structure Undisturbed (filesystem : FileSystemId) (above : EntryKey → Prop) (c d : Catalog)
    (live : Mount) : Prop where
  size : c.entries.size ≤ d.entries.size
  rows : ∀ o e, entryOf ⟨c, live⟩ ⟨filesystem, o⟩ = .ok (some e) →
    ∃ e', entryOf ⟨d, live⟩ ⟨filesystem, o⟩ = .ok (some e')
  links : ∀ key, above key → linkOf ⟨d, live⟩ key = linkOf ⟨c, live⟩ key
  closed : ∀ key parent name, above key → linkOf ⟨c, live⟩ key = .ok (some (some parent, name)) →
    above parent

section Undisturbed

variable {above : EntryKey → Prop}

section

variable (h : Undisturbed config.id above c d live)

include h

theorem Undisturbed.juiceRoot (hroot : juiceRoot config ⟨c, live⟩ = .ok root) :
    Namespace.juiceRoot config ⟨d, live⟩ = .ok root := by
  obtain ⟨stat, hstat, hrest⟩ := except_bind_eq_ok.1 hroot
  obtain ⟨entry, hentry, hrest⟩ := except_bind_eq_ok.1 hrest
  cases entry with
  | none => cases hrest
  | some e =>
    cases hrest
    obtain ⟨e', he'⟩ := h.rows _ e hentry
    refine except_bind_eq_ok.2 ⟨stat, hstat, ?_⟩
    exact except_bind_eq_ok.2 ⟨some e', he', rfl⟩

theorem Undisturbed.juiceParentPath (hroot : Namespace.juiceRoot config ⟨c, live⟩ = .ok root)
    {key : EntryKey} (hkey : above key) :
    Namespace.juiceParentPath config ⟨d, live⟩ key =
      Namespace.juiceParentPath config ⟨c, live⟩ key := by
  have hfuel : ∀ more, parentNames ⟨c, live⟩ root (c.entries.size + 2 + more) [] key =
      parentNames ⟨c, live⟩ root (c.entries.size + 2) [] key := by
    intro more
    induction more with
    | zero => rfl
    | succ more ih =>
      rw [← ih]
      exact parentNames_fuel key List.nodup_nil (by simp) (by
        show c.entries.size < c.entries.size + 2 + more + 0
        omega)
  obtain ⟨more, hmore⟩ := Nat.exists_eq_add_of_le h.size
  have hnames : parentNames ⟨d, live⟩ root (d.entries.size + 2) [] key =
      parentNames ⟨c, live⟩ root (c.entries.size + 2) [] key := by
    rw [parentNames_congr above h.links h.closed _ [] hkey, ← hfuel more, hmore]
    congr 1
    omega
  simp only [Namespace.juiceParentPath, hroot, h.juiceRoot hroot, bind, Except.bind, hnames]

theorem Undisturbed.resolveEdges (hroot : Namespace.juiceRoot config ⟨c, live⟩ = .ok root)
    {key : EntryKey} {inode : UInt64} {edges : List ScopedNamespaceEdge}
    (habove : ∀ edge ∈ edges, above ⟨config.id, edge.parent⟩) :
    ∀ resolvedParent, Namespace.resolveEdges config ⟨d, live⟩ key inode resolvedParent edges =
      Namespace.resolveEdges config ⟨c, live⟩ key inode resolvedParent edges := by
  induction edges with
  | nil =>
    intro resolvedParent
    rfl
  | cons edge edges ih =>
    intro resolvedParent
    have ih := ih fun e he => habove e (List.mem_cons_of_mem _ he)
    rw [Namespace.resolveEdges, Namespace.resolveEdges,
      h.juiceParentPath hroot (habove edge List.mem_cons_self)]
    simp only [ih]
    rfl

end

/-- **A resolution survives a write elsewhere.** -/
theorem Undisturbed.resolveObject {filesystem : FileSystemId} {o : ObjectId}
    {resolved : ResolvedNamespace} (h : Undisturbed filesystem above c d live)
    (hedges : d.objectEdges o = c.objectEdges o)
    (habove : ∀ k : EdgeKey, c.child k = some o → above ⟨filesystem, k.parent⟩)
    (hresolved : Namespace.resolveObject config ⟨c, live⟩ ⟨filesystem, o⟩ = .ok resolved) :
    Namespace.resolveObject config ⟨d, live⟩ ⟨filesystem, o⟩ = .ok resolved := by
  rw [Namespace.resolveObject] at hresolved ⊢
  cases hbackend : config.backend with
  | lustre =>
    -- A Lustre path comes from the mount alone.
    rw [hbackend] at hresolved
    exact hresolved
  | juiceFs =>
    simp only [hbackend] at hresolved ⊢
    obtain ⟨root, inode, hroot, hkey, hcase⟩ := resolveJuiceObject_eq_ok.1 hresolved
    cases hkey
    refine resolveJuiceObject_eq_ok.2 ⟨root, inode, h.juiceRoot hroot, rfl, ?_⟩
    rcases hcase with hisroot | ⟨hne, ⟨e, he⟩, hloop⟩
    · exact .inl hisroot
    · obtain ⟨e', he'⟩ := h.rows _ e he
      have habove' : ∀ edge ∈ c.listScopedObjectEdges ⟨config.id, .juiceFs inode⟩,
          above ⟨config.id, edge.parent⟩ := by
        intro edge hedge
        simp only [Catalog.listScopedObjectEdges, List.mem_map] at hedge
        obtain ⟨k, hk, rfl⟩ := hedge
        exact habove k (Catalog.mem_objectEdges.1 hk)
      have hedges' : d.listScopedObjectEdges ⟨config.id, .juiceFs inode⟩ =
          c.listScopedObjectEdges ⟨config.id, .juiceFs inode⟩ := by
        simp only [Catalog.listScopedObjectEdges, hedges]
      refine .inr ⟨hne, ⟨e', he'⟩, ?_⟩
      show Namespace.resolveEdges config ⟨d, live⟩ _ inode false (d.listScopedObjectEdges _) = _
      rw [hedges', h.resolveEdges hroot habove' false]
      exact hloop

end Undisturbed

end Reads

end Robinhood.Namespace
