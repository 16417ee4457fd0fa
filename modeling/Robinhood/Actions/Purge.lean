/-
# Actions.Purge — the purge action

`ActionBackend::execute_purge` and `capture_verify_and_remove` (`rbh-actions/src/backend.rs`): a cataloged
object is resolved to a path, renamed to a fresh quarantine name, checked to be the requested object,
removed, and unlinked in the catalog.  The steps run on a host of any state type, given by its system
calls, so that other processes can be interleaved with them.
-/
import Mathlib
import Robinhood.Namespace.Adapter

namespace Robinhood.Actions

open Lib Posix Store Namespace

/-! ## §1 — The host -/

/-- **A host**: what a mount shows of its state, its catalog, and the system calls that change names. -/
structure Host (σ : Type) where
  mount : σ → Mount
  catalog : σ → Catalog
  setCatalog : σ → Catalog → σ
  renameNoreplace (source destination : Path) : σ → Except IoError σ
  rename (source destination : Path) : σ → Except IoError σ
  removeDir (path : Path) : σ → Except IoError σ
  removeFile (path : Path) : σ → Except IoError σ

def IoError.einval : IoError := ⟨22⟩

/-- The `std::io::Error` values of the purge: those of the system, those made by `Error::other`, and the
race errors (`race_error`, of kind `WouldBlock`). -/
inductive PurgeError where
  | os (error : IoError)
  | noParent
  | lustre (error : IoError)
  | mismatch
  | replacementPreserved (quarantine : Path) (restore : IoError)
  | targetPreserved (quarantine : Path) (restore removal : IoError)
deriving DecidableEq

/-- `error.kind() == ErrorKind::NotFound`. -/
def PurgeError.isNotFound (error : PurgeError) : Bool := error = .os .notFound

/-- `retryable_io` of an operating-system error: `EINTR`, `EAGAIN`, `ETIMEDOUT`, `ENOMEM`. -/
def retryableIo (error : IoError) : Bool :=
  error.errno = 4 || error.errno = 11 || error.errno = 110 || error.errno = 12

/-- `retryable_io(error.kind())`; a race can be tried again. -/
def PurgeError.retryable : PurgeError → Bool
  | .os error => retryableIo error
  | .noParent | .lustre _ => false
  | .mismatch | .replacementPreserved .. | .targetPreserved .. => true

/-- `namespace_retryable`. -/
def namespaceRetryable : NamespaceError → Bool
  | .io _ error => retryableIo error
  | .store _ | .missingParent _ | .lustre _ => true
  | .wrongFilesystem .. | .outsideFilesystem .. | .notFound _ | .stalePath _ | .cycle _
  | .backendMismatch _ => false

variable {σ : Type} (host : Host σ)

/-! ## §2 — Capture, verification, removal -/

/-- `capture_name`. -/
def captureName (source destination : Path) (backend : BackendKind) : Proc σ PurgeError Unit := do
  match ← Proc.attempt (host.renameNoreplace source destination) with
  | .ok () => pure ()
  | .error error =>
    if error = IoError.einval ∧ backend = .lustre then
      match ← Proc.attempt (host.rename source destination) with
      | .ok () => pure ()
      | .error error => .fail (.os error)
    else .fail (.os error)

def captured (backend : BackendKind) (key : EntryKey) (quarantine : Path) (mount : Mount) :
    Except PurgeError Bool :=
  match backend, key.object with
  | .juiceFs, .juiceFs expected =>
    ((mount.symlinkMetadata quarantine).map fun metadata => metadata.ino == expected).mapError .os
  | .lustre, .lustre expected =>
    ((mount.pathToFid quarantine).map fun actual => actual == expected).mapError .lustre
  | _, _ => .ok false

def removeCaptured (path quarantine : Path) (kind : EntryKind) : Proc σ PurgeError Unit := do
  let removal := if kind = .directory then host.removeDir quarantine else host.removeFile quarantine
  match ← Proc.attempt removal with
  | .ok () => pure ()
  | .error error =>
    match ← Proc.attempt (host.renameNoreplace quarantine path) with
    | .ok () => .fail (.os error)
    | .error restoreError => .fail (.targetPreserved quarantine restoreError error)

def restoreCaptured (path quarantine : Path) : Proc σ PurgeError Unit := do
  match ← Proc.attempt (host.renameNoreplace quarantine path) with
  | .ok () => .fail .mismatch
  | .error error => .fail (.replacementPreserved quarantine error)

def verifyAndRemove (backend : BackendKind) (path quarantine : Path) (key : EntryKey)
    (kind : EntryKind) : Proc σ PurgeError Unit := do
  if ← Proc.ask fun s => captured backend key quarantine (host.mount s) then
    removeCaptured host path quarantine kind
  else restoreCaptured host path quarantine

/-- **`capture_verify_and_remove`**, with the fresh name it generates. -/
def captureVerifyAndRemove (backend : BackendKind) (path : Path) (key : EntryKey) (kind : EntryKind)
    (quarantineName : Name) : Proc σ PurgeError Unit :=
  match path.parent with
  | none => .fail .noParent
  | some parent => do
    let quarantine := parent.push quarantineName
    captureName host path quarantine backend
    verifyAndRemove host backend path quarantine key kind

/-! ## §3 — The purge -/

/-- `ActionError`, as far as the purge returns it. -/
inductive ActionError where
  | store (error : StoreError)
  | noPath
  | noPurge (filesystem : FileSystemId)
  | foreignEntry (key : EntryKey) (filesystem : FileSystemId)
  | unknownFilesystem (filesystem : FileSystemId)
  | namespace_ (error : NamespaceError)
deriving DecidableEq

inductive Failure where
  | namespace_ (error : NamespaceError)
  | io (error : PurgeError)
  | disappeared
  | unsupported (kind : EntryKind)
deriving DecidableEq

/-- `BackendActionOutcome`. -/
inductive BackendActionOutcome where
  | success
  | alreadyMissing
  | failed (error : Failure) (retryable : Bool)
deriving DecidableEq

/-- `ActionBackend`. -/
structure ActionBackend where
  filesystem : FileSystemId
  backend : BackendKind
  purgeCapable : Bool
  config : FileSystemConfig

/-- `ActionBackend::new`. -/
def ActionBackend.new (c : Catalog) (filesystem : FileSystemId) : Except ActionError ActionBackend :=
  match c.filesystem with
  | none => .error (.unknownFilesystem filesystem)
  | some config => do
    let adapter ← (newAdapter c filesystem).mapError .namespace_
    .ok ⟨filesystem, config.backend, config.capabilities.purge, adapter⟩

structure Clock where
  updatedAt : Int
  lastSeen : Int
  unlinkedAt : Int

variable (action : ActionBackend) (clock : Clock) (text : Failure → String)

def onCatalog {α : Type} (p : StoreProc α) : Proc σ ActionError α :=
  (p.zoom host.catalog host.setCatalog).mapError .store

/-- The status patch of `persist_unlink`. -/
def unlinkPatch (state : String) : Json :=
  .obj [("action", .obj [("kind", .str "purge"), ("state", .str state),
    ("updated_at", .int clock.updatedAt)])]

/-- The status patch of `persist_failure`. -/
def failurePatch (kind : String) (error : Failure) (retryable : Bool) : Json :=
  .obj [("action", .obj [("error", .str (text error)), ("kind", .str kind),
    ("retryable", .bool retryable), ("state", .str "failed"), ("updated_at", .int clock.updatedAt)])]

/-- `persist_unlink`. -/
def persistUnlink (entry : ScopedEntryRow) (parent : ObjectId) (name : Name) (state : String) :
    Proc σ ActionError Unit := do
  let _ ← onCatalog host (patchScopedSmStatus entry.key (unlinkPatch clock state) clock.lastSeen)
  onCatalog host (applyScopedUnlink entry.key parent name clock.unlinkedAt (entry.kind = .directory))

/-- `persist_missing`. -/
def persistMissing (entry : ScopedEntryRow) : Proc σ ActionError Unit :=
  match entry.parent with
  | none => pure ()
  | some parent => persistUnlink host clock entry parent.object entry.name "already_missing"

/-- `persist_failure`, and the outcome the purge then reports. -/
def failPurge (key : EntryKey) (error : Failure) (retryable : Bool) :
    Proc σ ActionError BackendActionOutcome := do
  let _ ← onCatalog host
    (patchScopedSmStatus key (failurePatch clock text "purge" error retryable) clock.lastSeen)
  pure (.failed error retryable)

def finishPurge (entry : ScopedEntryRow) (parent : ObjectId) (name : Name) :
    Except PurgeError Unit → Proc σ ActionError BackendActionOutcome
  | .ok () => do
    persistUnlink host clock entry parent name "success"
    pure .success
  | .error error =>
    if error.isNotFound then failPurge host clock text entry.key .disappeared true
    else failPurge host clock text entry.key (.io error) error.retryable

def purgeResolved (entry : ScopedEntryRow) (quarantineName : Name) (resolved : ResolvedNamespace)
    (parent : ObjectId) : Proc σ ActionError BackendActionOutcome :=
  match resolved.path.fileName with
  | none => .fail .noPath
  | some name =>
    match resolved.stat.kind with
    | .directory | .file | .symlink => do
      let operation ← Proc.catching (captureVerifyAndRemove host action.backend resolved.path entry.key
        resolved.stat.kind quarantineName)
      finishPurge host clock text entry parent name operation
    | kind => failPurge host clock text entry.key (.unsupported kind) false

/-- **`execute_purge`.** -/
def executePurge (entry : ScopedEntryRow) (quarantineName : Name) :
    Proc σ ActionError BackendActionOutcome := do
  if !action.purgeCapable then .fail (.noPurge action.filesystem)
  else if entry.key.filesystem ≠ action.filesystem ∨ entry.key.object.backend ≠ action.backend then
    .fail (.foreignEntry entry.key action.filesystem)
  else
    match ← Proc.read fun s =>
      resolve action.config ⟨host.catalog s, host.mount s⟩ (.object entry.key) with
    | .error (.notFound _) | .error (.stalePath _) =>
      persistMissing host clock entry
      pure .alreadyMissing
    | .error error =>
      failPurge host clock text entry.key (.namespace_ error) (namespaceRetryable error)
    | .ok resolved =>
      match resolved.path.parent with
      | none => .fail .noPath
      | some path =>
        match ← Proc.read fun s =>
          resolve action.config ⟨host.catalog s, host.mount s⟩ (.path path) with
        | .error error =>
          failPurge host clock text entry.key (.namespace_ error) (namespaceRetryable error)
        | .ok parent => purgeResolved host action clock text entry quarantineName resolved parent.key.object

end Robinhood.Actions
