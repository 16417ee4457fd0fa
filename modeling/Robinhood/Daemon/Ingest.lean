/-
# Daemon.Ingest — the ingest loop of the daemon

`rbh-daemon/src/changelog.rs`: `ingest_loop` takes batches from a change source, applies their changes to
the catalog and commits the batch; while the baseline is catching up, a quiet period starts the
verification of the namespace, and one more publishes the baseline.  One turn of the loop is a program of
`Lib.Service`: every access of the store is a call that may fail, and what the source, the mount and the
clock say are answers.
-/
import Mathlib
import Robinhood.Lib.Service
import Robinhood.Store.Statements
import Robinhood.Scan.JuiceFs
import Robinhood.Ingest.JuiceFs
import Robinhood.Ingest.Lustre
import Robinhood.ChangeSource.Batch
import Robinhood.ChangeSource.Lustre
import Robinhood.Policy.Classifier

namespace Robinhood.Daemon

open Lib Store Scan Ingest Changelog ChangeSource Policy
open Posix (Name Path)

/-! ## §1 — What the daemon calls and asks -/

inductive StoreCall where
  | getBaseline
  | setBaseline (state : BaselineState)
  | clear
  | listEdges
  | update
deriving DecidableEq, Repr

/-- The points of a run that are marked: a scan came to its end without an error, `ingest_loop` was
entered, `verify_juicefs_namespace` returned `Ok`. -/
inductive Mark where
  | scanFinished
  | ingestStarted
  | verified
deriving DecidableEq, Repr

/-- `Receive`. -/
inductive Receive where
  | batch (batch : ChangeBatch)
  | closed
  | failed (error : ChangeSourceError)
  | cancelled
  | quiescent

/-- What the daemon learns from outside the store. -/
inductive Question where
  | cancelled
  | clock
  | walk
  | connect
  | receive (waitForCatchup : Bool)
  | mount
  | eventClock
  | classifiers
  | commit (checkpoint : Checkpoint)

/-- The answers.  `receive` reports a quiet period only where it waits for one; a walk is the list of its
events with the number of errors it counted. -/
abbrev Answer : Question → Type
  | .cancelled => Bool
  | .clock => Int
  | .walk => List PosixWalkEvent × ℕ
  | .connect => Except ChangeSourceError Unit
  | .receive waitForCatchup => {r : Receive // r = .quiescent → waitForCatchup = true}
  | .mount => LustreMount
  | .eventClock => EventClock
  | .classifiers => List (ClassifierRow × Int64)
  | .commit _ => Except ChangeSourceError Unit

/-- A mount on which no FID is found. -/
def bareMount : LustreMount where
  symlinkMetadata _ := .error .notFound
  canonicalize _ := .error .notFound
  fidToPath _ := .error .notFound
  pathToFid _ := .error .notFound
  mountPath := [.rootDir]
  getStripeInfo _ := .error .notFound
  hsmStateGet _ := .error .notFound

/-- **The answers of a world in which nothing happens**, and nothing goes wrong. -/
def quietAnswers : ∀ question, Answer question
  | .cancelled => false
  | .clock => (0 : Int)
  | .walk => (([], 0) : List Scan.PosixWalkEvent × ℕ)
  | .connect => (.ok () : Except ChangeSourceError Unit)
  | .receive _ => ⟨.closed, nofun⟩
  | .mount => bareMount
  | .eventClock => (⟨0, 0⟩ : EventClock)
  | .classifiers => ([] : List (Policy.ClassifierRow × Int64))
  | .commit _ => (.ok () : Except ChangeSourceError Unit)

abbrev DaemonProg := Prog Catalog StoreCall Mark Answer

abbrev DaemonEvent := Event Catalog StoreCall Mark Answer

def answerTo (q : Question) : DaemonProg (Answer q) := Prog.answer q

structure Runtime where
  filesystem : FileSystemId
  mountPath : Path
  describe : Option StoreError → String
  lib : Predicate.TextLibrary

variable (rt : Runtime)

/-- `set_baseline_state`, which reads the clock. -/
def storeBaseline {ε : Type} (h : StoreError → ε) (state : BaselineState) (lastVersion : Option UInt64)
    (reason : Option String) : DaemonProg (Except (Option ε) Unit) := do
  let now ← answerTo .clock
  Prog.perform (.setBaseline state) ((setBaselineState state lastVersion reason now).mapError h)

/-- `get_baseline`. -/
def readBaseline : DaemonProg (Except (Option StoreError) (Option FilesystemBaseline)) :=
  Prog.perform .getBaseline getBaseline

/-! ## §2 — Verification -/

def mountedEdges : List PosixWalkEvent → Except String (List ScopedNamespaceEdge)
  | [] => .ok []
  | .entry entry :: events => do
    let adapted ← adapt rt.filesystem entry 0
    let edges ← mountedEdges events
    .ok (adapted.2.toList ++ edges)
  | .error path error :: _ =>
    .error ("namespace verification failed at " ++ path ++ ": " ++ error)

/-- `NamespaceDifference`. -/
structure NamespaceDifference where
  missingFromCatalog : ℕ
  missingFromMount : ℕ
deriving DecidableEq, Repr

/-- `compare_namespace`. -/
def compareNamespace (mounted catalog : List ScopedNamespaceEdge) : Except NamespaceDifference Unit :=
  let difference : NamespaceDifference :=
    { missingFromCatalog := (mounted.dedup.filter fun edge => edge ∉ catalog).length
      missingFromMount := (catalog.dedup.filter fun edge => edge ∉ mounted).length }
  if difference.missingFromCatalog = 0 ∧ difference.missingFromMount = 0 then .ok ()
  else .error difference

/-- **What a passed comparison says**: mount and catalog have the same edges. -/
theorem compareNamespace_ok {mounted catalog : List ScopedNamespaceEdge} :
    compareNamespace mounted catalog = .ok () ↔ ∀ edge, edge ∈ mounted ↔ edge ∈ catalog := by
  unfold compareNamespace
  simp only [List.length_eq_zero_iff, List.filter_eq_nil_iff, List.mem_dedup, decide_eq_true_eq,
    not_not]
  split_ifs with h
  · exact iff_of_true rfl fun edge => ⟨h.1 edge, h.2 edge⟩
  · exact iff_of_false (by simp) fun hsame => h ⟨fun e => (hsame e).1, fun e => (hsame e).2⟩

def NamespaceDifference.text (difference : NamespaceDifference) : String :=
  "namespace mismatch: " ++ toString difference.missingFromCatalog ++ " missing from catalog, " ++
    toString difference.missingFromMount ++ " missing from mount"

/-- **`verify_juicefs_namespace`**; an error is the text that is stored as the reason. -/
def verifyJuicefsNamespace : DaemonProg (Except String Unit) := do
  let walk ← answerTo .walk
  match mountedEdges rt walk.1 with
  | .error text => pure (.error text)
  | .ok mounted =>
    let catalog ← Prog.perform .listEdges
      (Proc.read fun c => c.listScopedNamespaceEdges rt.filesystem : StoreProc _)
    match catalog with
    | .error error => pure (.error (rt.describe error))
    | .ok catalog => pure ((compareNamespace mounted catalog).mapError NamespaceDifference.text)

/-! ## §3 — The changes of a batch -/

/-- `lustre_fid`. -/
def lustreFid : ObjectId → Except String LuFid
  | .lustre fid => .ok fid
  | .juiceFs inode => .error ("JuiceFS inode " ++ toString inode ++ " received by Lustre runtime")

/-- `lustre_event`. -/
def lustreEvent : Change → Except String ChangelogEvent
  | .created object parent name kind _ _ => do
    let fid ← lustreFid object
    let parent ← lustreFid parent
    match kind with
    | .directory => .ok (.mkdir fid parent name none none none)
    | .symlink => .ok (.softlink fid parent name)
    | _ => .ok (.create fid parent name none none none)
  | .hardlinked object parent name _ => do
    .ok (.hardlink (← lustreFid object) (← lustreFid parent) name)
  | .removed object parent name lastLink directory _ => do
    let fid ← lustreFid object
    if directory then .ok (.rmdir fid (← lustreFid parent) name)
    else .ok (.unlink fid (← lustreFid parent) name lastLink false)
  | .renamed object sourceParent sourceName parent name _ => do
    .ok (.rename (← lustreFid object) (← lustreFid parent) name (← lustreFid sourceParent) sourceName)
  | .metadataChanged object .attributes _ => do .ok (.setAttr (← lustreFid object))
  | .metadataChanged object .xattr _ => do .ok (.xAttr (← lustreFid object) [])
  | .contentChanged object parent name .data _ => do
    let fid ← lustreFid object
    match parent with
    | some parent => .ok (.close fid (← lustreFid parent) name)
    | none => .ok (.close fid .zero name)
  | .contentChanged object _ _ .truncate _ => do .ok (.truncate (← lustreFid object))
  | .backend (.lustreHsm object event flags error _) => do
    .ok (.hsm (← lustreFid object) event flags error)
  | .backend (.lustreLayout object _) => do .ok (.layout (← lustreFid object))

/-- What one change did: applied or skipped, failed and the batch goes on, failed and it does not; or the
task panicked. -/
inductive ChangeOutcome where
  | fine
  | counted
  | broken
  | panicked
deriving DecidableEq

def classifyTouched (fid : LuFid) : DaemonProg ChangeOutcome := do
  let classifiers ← answerTo .classifiers
  if (classifiers : List (ClassifierRow × Int64)).isEmpty then pure .fine
  else
    match ← Prog.perform .update (getLustreEntry rt.filesystem fid) with
    | .error _ => pure .broken
    | .ok none => pure .fine
    | .ok (some row) =>
      match ← Prog.perform .update (applyClassifiers rt.lib rt.filesystem row classifiers) with
      | .ok () => pure .fine
      | .error (some .panicked) => pure .panicked
      | .error _ => pure .broken

def applyChange (change : Change) : DaemonProg ChangeOutcome := do
  let live : LustreMount ← answerTo .mount
  if change.object.backend = .juiceFs then
    match ← Prog.perform .update
        (applyJuicefsChange rt.filesystem rt.mountPath live.toMount change) with
    | .ok () => pure .fine
    | .error _ => pure .broken
  else
    match lustreEvent change with
    | .error _ => pure .broken
    | .ok event =>
      let clock ← answerTo .eventClock
      match ← Prog.perform .update (applyEvent rt.filesystem live event change.time clock) with
      | .ok true => classifyTouched rt event.fid
      | .ok false => pure .fine
      | .error _ => pure .counted

/-- The loop over the changes: the number of errors, `none` after a panic. -/
def applyChanges : List Change → DaemonProg (Option ℕ)
  | [] => pure (some 0)
  | change :: changes => do
    match ← applyChange rt change with
    | .fine => applyChanges changes
    | .counted => do
      let errors ← applyChanges changes
      pure (errors.map (· + 1))
    | .broken => pure (some 1)
    | .panicked => pure none

/-! ## §4 — One turn of the loop -/

/-- The local variables of `ingest_loop`. -/
structure IngestState where
  catchingUp : Bool
  lastCommitted : Option UInt64
  verifiedQuiescent : Bool
deriving DecidableEq, Repr

/-- `IngestExit`. -/
inductive IngestExit where
  | stopped
  | retentionGap (reason : String)
  | baselineInvalid (reason : String)
deriving DecidableEq, Repr

inductive TurnEnd where
  | goOn (state : IngestState)
  | exit (exit : IngestExit)
  | panicked

def ingestBatch (state : IngestState) (batch : ChangeBatch) : DaemonProg TurnEnd :=
  if batch.filesystem ≠ rt.filesystem then pure (.exit .stopped)
  else do
    match ← applyChanges rt batch.changes with
    | none => pure .panicked
    | some 0 =>
      -- the checkpoint moves only after every catalog effect of the batch
      match ← answerTo (.commit batch.checkpoint) with
      | .error _ => pure (.exit .stopped)
      | .ok () => pure (.goOn { state with lastCommitted := some batch.checkpoint.position })
    | some _ => pure (.exit .stopped)

def ingestQuiescent (state : IngestState) : DaemonProg TurnEnd := do
  if !state.verifiedQuiescent then
    match ← verifyJuicefsNamespace rt with
    | .error reason =>
      let _ ← storeBaseline id .invalid state.lastCommitted (some reason)
      pure (.exit (.baselineInvalid reason))
    | .ok () =>
      Prog.mark .verified
      pure (.goOn { state with verifiedQuiescent := true })
  else
    match ← storeBaseline id .ready state.lastCommitted none with
    | .error _ => pure (.exit .stopped)
    | .ok () => pure (.goOn { state with catchingUp := false })

/-- **One turn of `ingest_loop`.** -/
def ingestTurn (state : IngestState) : DaemonProg TurnEnd := do
  let received ← answerTo (.receive state.catchingUp)
  match received.1 with
  | .batch batch => ingestBatch rt { state with verifiedQuiescent := false } batch
  | .closed => pure (.exit .stopped)
  | .failed (.retentionGap reason) => pure (.exit (.retentionGap reason))
  | .failed _ => pure (.exit .stopped)
  | .cancelled => pure (.exit .stopped)
  | .quiescent => ingestQuiescent rt state

/-- The start of `ingest_loop`; a baseline that cannot be read is not catching up. -/
def ingestStart : DaemonProg IngestState := do
  Prog.mark .ingestStarted
  let baseline ← readBaseline
  pure ⟨((baseline.toOption.bind id).map FilesystemBaseline.state) = some .catchingUp, none, false⟩

/-! ## §5 — The baseline state is written by `set_baseline_state` only -/

section Keeps

variable (filesystem : FileSystemId) (live : LustreMount)

theorem each_recordObserved (fid parent : LuFid) (name : Name) (now : Int) :
    (recordObserved filesystem live fid parent name now).Each Executable := by
  unfold recordObserved
  split
  · exact Proc.Each.bind (each_upsertLustreScanBatch filesystem _) fun _ => trivial
  · trivial

theorem each_restatEntry (fid : LuFid) (parent : Option LuFid) (name : Name) (now : Int) :
    (restatEntry filesystem live fid parent name now).Each Executable := by
  refine Proc.Each.bind (each_getLustreEntry filesystem fid) fun entry => ?_
  cases entry with
  | none => trivial
  | some =>
    dsimp only
    split
    · trivial
    · exact Proc.Each.bind (each_upsertLustreScanBatch filesystem _) fun _ => trivial

theorem each_refreshHsmStateIfManaged (fid : LuFid) (patchedAt : Int) :
    (refreshHsmStateIfManaged filesystem live fid patchedAt).Each Executable := by
  refine Proc.Each.bind (each_getLustreEntry filesystem fid) fun entry => ?_
  cases entry with
  | none => trivial
  | some =>
    dsimp only
    split_ifs
    · trivial
    · split
      · trivial
      · split_ifs
        · exact Proc.Each.bind (each_patchScopedSmStatus _ _ _) fun _ => trivial
        · trivial

theorem each_applyEvent (event : ChangelogEvent) (eventTime : Int) (clock : EventClock) :
    (applyEvent filesystem live event eventTime clock).Each Executable := by
  cases event with
  | create fid parent name | mkdir fid parent name | mknod fid parent name | softlink fid parent name =>
    exact each_recordObserved filesystem live fid parent name _
  | hardlink fid parent name =>
    refine Proc.Each.bind (each_getLustreEntry filesystem fid) fun entry => ?_
    cases entry with
    | none => exact each_recordObserved filesystem live fid parent name _
    | some => exact Proc.Each.bind (each_upsertLustreScanBatch filesystem _) fun _ => trivial
  | unlink fid =>
    simp only [applyEvent]
    split_ifs
    · trivial
    · exact Proc.Each.bind (each_removeLustreEntry filesystem fid eventTime) fun _ => trivial
    · refine Proc.Each.bind (each_removeScopedNamespaceEdge _ _) fun _ =>
        Proc.Each.bind (each_getLustreEntry filesystem fid) fun entry => ?_
      cases entry with
      | none => trivial
      | some =>
        exact Proc.Each.bind (each_upsertLustreScanBatch filesystem _) fun _ => trivial
  | rmdir fid =>
    exact Proc.Each.bind (each_removeLustreEntry filesystem fid eventTime) fun _ => trivial
  | rename fid =>
    refine Proc.Each.bind (each_getLustreEntry filesystem fid) fun entry => ?_
    cases entry with
    | none =>
      dsimp only
      split
      · exact Proc.Each.bind (each_renameLustreEntry filesystem _ _) fun _ => trivial
      · trivial
    | some => exact Proc.Each.bind (each_renameLustreEntry filesystem _ _) fun _ => trivial
  | close fid parent name => exact each_restatEntry filesystem live fid _ name _
  | truncate fid =>
    refine Proc.Each.bind (each_restatEntry filesystem live fid none [] _) fun touched => ?_
    cases touched with
    | false => trivial
    | true =>
      exact Proc.Each.bind (each_refreshHsmStateIfManaged filesystem live fid _).catching
        fun _ => trivial
  | setAttr fid | mTime fid | cTime fid => exact each_restatEntry filesystem live fid none [] _
  | hsm => exact each_patchScopedSmStatus _ _ _
  | xAttr | layout => trivial

theorem each_applyClassifiers (lib : Predicate.TextLibrary) (entry : EntryRow)
    (ks : List (ClassifierRow × Int64)) :
    (applyClassifiers lib filesystem entry ks).Each Executable := by
  induction ks with
  | nil => trivial
  | cons k ks ih =>
    obtain ⟨classifier, now⟩ := k
    rw [applyClassifiers]
    split_ifs
    · split
      · exact Proc.Each.bind (each_updateScopedXattr _ _ _) fun _ => ih
      · exact ih
    · exact ih

theorem each_applyJuicefsChange (mount : Path) (change : Change) :
    (applyJuicefsChange filesystem mount live.toMount change).Each Executable := by
  have hrefreshed (object : ObjectId) (time : Int) :
      (applyRefreshed filesystem live.toMount object time).Each Executable := by
    refine Proc.Each.bind ((each_getScopedEntry _).mapError _) fun entry => ?_
    cases entry with
    | none => trivial
    | some =>
      exact Proc.Each.bind (Proc.each_ask executable_id _) fun _ =>
        (each_upsertScopedEntry _).mapError _
  cases change with
  | created =>
    exact Proc.Each.bind (Proc.each_ask executable_id _) fun row =>
      Proc.Each.bind ((each_upsertScopedEntry row).mapError _) fun _ =>
        (each_upsertScopedNamespaceEdge _).mapError _
  | renamed =>
    refine Proc.Each.bind ((each_getScopedEntry _).mapError _) fun entry => ?_
    cases entry with
    | none => trivial
    | some =>
      exact Proc.Each.bind ((each_upsertScopedEntry _).mapError _) fun _ =>
        Proc.Each.bind ((each_removeScopedNamespaceEdge _ _).mapError _) fun _ =>
          (each_upsertScopedNamespaceEdge _).mapError _
  | removed =>
    exact (each_applyScopedUnlink _ _ _ _ _).mapError _
  | metadataChanged object _ time | contentChanged object _ _ _ time => exact hrefreshed object time
  | hardlinked => exact (each_applyScopedHardlink _ _).mapError _
  | backend => trivial

theorem each_storeEntry (observedAt : Int) (entry : PosixEntry) :
    (storeEntry filesystem observedAt entry).Each Executable := by
  refine Proc.Each.bind (Proc.each_ofExcept _) fun adapted =>
    Proc.Each.bind ((each_upsertScopedEntry _).mapError _) fun _ => ?_
  split
  · exact (each_upsertScopedNamespaceEdge _).mapError _
  · trivial

end Keeps

/-! ## §6 — What normalisation keeps of an event -/

/-- **Normalisation loses nothing ingest needs**: the event that ingest reads back from a normalised one has
its FID and its time, and `apply_event` is the same procedure on both, so it returns the same and changes
the same in every catalog. -/
theorem normalised_event_applies_alike (event : ChangelogEvent) (time : Int) :
    ∃ event', lustreEvent (normalizeLustre event time) = .ok event' ∧ event'.fid = event.fid ∧
      ∀ (filesystem : FileSystemId) (live : LustreMount) (clock : EventClock),
        applyEvent filesystem live event' (normalizeLustre event time).time clock =
          applyEvent filesystem live event time clock := by
  cases event with
  | close fid parent name =>
    cases hzero : parent.isZero with
    | true =>
      -- a zero parent is dropped, and comes back as the default FID, which is zero
      refine ⟨.close fid .zero name, by simp [normalizeLustre, hzero, lustreEvent, lustreFid, bind, Except.bind],
        rfl, fun filesystem live clock => ?_⟩
      simp only [applyEvent, hzero]
      rfl
    | false =>
      exact ⟨.close fid parent name, by simp [normalizeLustre, hzero, lustreEvent, lustreFid, bind, Except.bind],
        rfl, fun filesystem live clock => by simp only [applyEvent]⟩
  | create | mkdir | mknod | softlink | hardlink | unlink | rmdir | rename | truncate | setAttr | mTime
  | cTime | xAttr | hsm | layout => exact ⟨_, rfl, rfl, fun _ _ _ => rfl⟩

end Robinhood.Daemon
