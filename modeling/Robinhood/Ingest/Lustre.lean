/-
# Ingest.Lustre — applying one Lustre changelog event

`apply_event` (`rbh-daemon/src/changelog.rs`) and what it calls: creations and restats read the live
filesystem through the FID, hard links and partial unlinks count on the row, removals and renames move
rows and edges, HSM records patch `sm_status`.
-/
import Mathlib
import Robinhood.Store.Lustre
import Robinhood.Posix.Mount
import Robinhood.Changelog.Event

namespace Robinhood.Ingest

open Lib Posix Store Changelog

/-! ## §1 — The live filesystem -/

/-- `StripeInfo`. -/
structure StripeInfo where
  count : UInt32
  size : UInt64
  pool : Option String
  ostIndices : List UInt32
deriving DecidableEq, Repr

/-- `HsmState`, one field for each flag. -/
structure HsmState where
  «exists» : Bool
  dirty : Bool
  released : Bool
  archived : Bool
  norelease : Bool
  noarchive : Bool
  lost : Bool
deriving DecidableEq, Repr

/-- `HsmState::is_empty`. -/
def HsmState.isEmpty (states : HsmState) : Bool := states = ⟨false, false, false, false, false, false, false⟩

/-- **One instant of a mounted Lustre filesystem.** -/
structure LustreMount extends Mount where
  mountPath : Path
  getStripeInfo : Path → Except IoError StripeInfo
  hsmStateGet : Path → Except IoError HsmState

/-- Why an object could not be read. -/
inductive StatError where
  | fidToPath (error : IoError)
  | stat (path : Path) (error : IoError)
deriving DecidableEq

/-- The clock as one application reads it: in `now_secs` and in `patch_scoped_sm_status`. -/
structure EventClock where
  now : Int
  patchedAt : Int

variable (filesystem : FileSystemId) (live : LustreMount)

/-- `fid_still_live`. -/
def fidStillLive (fid : LuFid) : Bool := (live.fidToPath fid).isOk

/-- The stripe columns of `stat_entry_by_fid`: only files have any. -/
def stripeColumns (path : Path) (kind : EntryKind) :
    Option UInt16 × Option UInt32 × List UInt32 × Option String :=
  if kind = .file then
    match live.getStripeInfo path with
    | .ok info => (some info.count.toUInt16, some info.size.toUInt32, info.ostIndices, info.pool)
    | .error _ => (none, none, [], none)
  else (none, none, [], none)

/-- `stat_entry_by_fid`; the expected kind it is given is not looked at. -/
def statEntryByFid (fid : LuFid) (parentFid : Option LuFid) (name : Name) (now : Int) :
    Except StatError EntryRow := do
  let relPath ← (live.fidToPath fid).mapError .fidToPath
  let absPath := live.mountPath.join relPath
  let md ← (live.symlinkMetadata absPath).mapError (.stat absPath)
  let (stripeCount, stripeSize, stripeItems, poolName) := stripeColumns live absPath md.kind
  .ok {
    fid := fid
    parentFid := parentFid.filter fun p => !p.isZero
    name := name
    kind := md.kind
    size := md.size
    blocks := md.blocks
    uid := md.uid
    gid := md.gid
    projid := 0
    mode := md.mode
    nlink := md.nlink.toUInt32
    atime := md.atime
    mtime := md.mtime
    ctime := md.ctime
    stripeCount := stripeCount
    stripeSize := stripeSize
    stripeItems := stripeItems
    poolName := poolName
    smStatus := .obj []
    lastSeen := now
    depth := 0 }

/-- The OST indices that `stat_entry_by_fid` reads; none for an object that is not found. -/
def liveStripes (fid : LuFid) : List UInt32 :=
  match live.fidToPath fid with
  | .ok relPath =>
    match live.symlinkMetadata (live.mountPath.join relPath) with
    | .ok md => (stripeColumns live (live.mountPath.join relPath) md.kind).2.2.1
    | .error _ => []
  | .error _ => []

/-- What `restat_entry` reads. -/
def liveMetadata (fid : LuFid) : Option Metadata :=
  (live.fidToPath fid).toOption.bind fun rel =>
    (live.symlinkMetadata (live.mountPath.join rel)).toOption

/-- The row `restat_entry` writes over one it found. -/
def restatted (entry : EntryRow) (md : Metadata) (parent : Option LuFid) (name : Name) (now : Int) :
    EntryRow :=
  { entry with
    size := md.size
    blocks := md.blocks
    uid := md.uid
    gid := md.gid
    mode := md.mode
    nlink := md.nlink.toUInt32
    atime := md.atime
    mtime := md.mtime
    ctime := md.ctime
    lastSeen := now
    name := if name ≠ [] then name else entry.name
    parentFid := match parent with
      | some p => if p.isZero then entry.parentFid else some p
      | none => entry.parentFid }

/-! ## §2 — The operations -/

/-- `restat_entry`. -/
def restatEntry (fid : LuFid) (parent : Option LuFid) (name : Name) (now : Int) : StoreProc Bool := do
  match ← getLustreEntry filesystem fid with
  | none => pure false
  | some entry => match liveMetadata live fid with
    | none => pure false
    | some md =>
      upsertLustreEntry filesystem (restatted entry md parent name now)
      pure true

/-- The `hsm_state` of a status, `""` when it has none. -/
def currentHsmState (status : Json) : String :=
  match status.asObject.bind (Json.lookup "hsm_state") with
  | some (.str state) => state
  | _ => ""

/-- What `refresh_hsm_state_if_managed` reads. -/
def liveHsmState (fid : LuFid) : Option HsmState :=
  (live.fidToPath fid).toOption.bind fun rel => (live.hsmStateGet (live.mountPath.join rel)).toOption

/-- The `hsm_state` it derives; dirty files and the like keep theirs. -/
def newHsmState (states : HsmState) : Option String :=
  if states.released then some "released"
  else if states.archived && !states.dirty then some "archived"
  else if states.isEmpty then some "none"
  else none

/-- `refresh_hsm_state_if_managed`. -/
def refreshHsmStateIfManaged (fid : LuFid) (patchedAt : Int) : StoreProc Unit := do
  match ← getLustreEntry filesystem fid with
  | none => pure ()
  | some entry =>
    let currentState := currentHsmState entry.smStatus
    if currentState = "" ∨ currentState = "none" then pure ()
    else match (liveHsmState live fid).bind newHsmState with
      | none => pure ()
      | some newState =>
        if newState ≠ currentState then do
          let _ ← patchScopedSmStatus ⟨filesystem, .lustre fid⟩ (.obj [("hsm_state", .str newState)])
            patchedAt
          pure ()
        else pure ()

/-- The name of an `hsm_event`. -/
def hsmOp (hsmEvent : UInt8) : String :=
  match hsmEvent.toNat with
  | 0 => "archive"
  | 1 => "restore"
  | 2 => "cancel"
  | 3 => "release"
  | 4 => "remove"
  | 5 => "state"
  | _ => "unknown"

/-- The state an `hsm_event` without error leaves; a restored file is archived and present. -/
def hsmStateAfter (hsmEvent : UInt8) : Option String :=
  match hsmEvent.toNat with
  | 0 | 1 => some "archived"
  | 3 => some "released"
  | 4 => some "none"
  | _ => none

/-- `build_hsm_patch`; the members stand in key order. -/
def buildHsmPatch (hsmEvent hsmFlags hsmError : UInt8) (now : Int) : Json :=
  let base : List (String × Json) :=
    [("hsm_dirty", .bool (hsmFlags &&& 1 != 0)), ("hsm_last_event_ts", .int now),
      ("hsm_last_op", .str (hsmOp hsmEvent))]
  .obj (if hsmError ≠ 0 then Json.insertMember "hsm_last_error" (.int hsmError.toNat) base
    else match hsmStateAfter hsmEvent with
      | some state => Json.insertMember "hsm_state" (.str state) base
      | none => base)

/-- `apply_hsm_event`. -/
def applyHsmEvent (fid : LuFid) (hsmEvent hsmFlags hsmError : UInt8) (clock : EventClock) :
    StoreProc Bool :=
  patchScopedSmStatus ⟨filesystem, .lustre fid⟩ (buildHsmPatch hsmEvent hsmFlags hsmError clock.now)
    clock.patchedAt

/-- `u32::saturating_sub(1)`. -/
def saturatingPred (n : UInt32) : UInt32 := if n = 0 then 0 else n - 1

def hardlinked (entry : EntryRow) (parent : LuFid) (name : Name) (now : Int) : EntryRow :=
  { entry with parentFid := some parent, name, nlink := saturatingSucc entry.nlink, lastSeen := now }

def unlinked (entry : EntryRow) (now : Int) : EntryRow :=
  { entry with nlink := saturatingPred entry.nlink, lastSeen := now }

def moved (entry : EntryRow) (parent : LuFid) (name : Name) (now : Int) : EntryRow :=
  { entry with parentFid := some parent, name, lastSeen := now }

/-- What the creations do: read the object and write what is read; one that is gone is skipped. -/
def recordObserved (fid parent : LuFid) (name : Name) (now : Int) : StoreProc Bool :=
  match statEntryByFid live fid (some parent) name now with
  | .ok entry => do
    upsertLustreEntry filesystem entry
    pure true
  | .error _ => pure false

/-- **`apply_event`.** -/
def applyEvent (event : ChangelogEvent) (eventTime : Int) (clock : EventClock) : StoreProc Bool :=
  match event with
  | .create fid parent name .. | .mkdir fid parent name .. | .mknod fid parent name ..
  | .softlink fid parent name => recordObserved filesystem live fid parent name clock.now
  | .hardlink fid parent name => do
    match ← getLustreEntry filesystem fid with
    | some entry => do
      upsertLustreEntry filesystem (hardlinked entry parent name clock.now)
      pure true
    | none => recordObserved filesystem live fid parent name clock.now
  | .unlink fid parent name lastLink _ =>
    if lastLink then
      -- the other half of a rename between two MDTs
      if fidStillLive live fid then pure false
      else do
        removeLustreEntry filesystem fid eventTime
        pure true
    else do
      let _ ← removeScopedNamespaceEdge (.lustre parent) name
      match ← getLustreEntry filesystem fid with
      | some entry => do
        upsertLustreEntry filesystem (unlinked entry clock.now)
        pure true
      | none => pure false
  | .rmdir fid _ _ => do
    removeLustreEntry filesystem fid eventTime
    pure true
  | .rename fid parent name _ _ => do
    match ← getLustreEntry filesystem fid with
    | some entry => do
      renameLustreEntry filesystem (moved entry parent name clock.now) eventTime
      pure true
    | none =>
      match statEntryByFid live fid (some parent) name clock.now with
      | .ok entry => do
        renameLustreEntry filesystem entry eventTime
        pure true
      | .error _ => pure false
  | .close fid parent name =>
    restatEntry filesystem live fid (if parent.isZero then none else some parent) name clock.now
  | .truncate fid => do
    let touched ← restatEntry filesystem live fid none [] clock.now
    if touched then do
      -- its own failure is not reported
      let _ ← (refreshHsmStateIfManaged filesystem live fid clock.patchedAt).catching
      pure touched
    else pure touched
  | .setAttr fid | .mTime fid | .cTime fid => restatEntry filesystem live fid none [] clock.now
  | .hsm fid hsmEvent hsmFlags hsmError => applyHsmEvent filesystem fid hsmEvent hsmFlags hsmError clock
  | .xAttr .. | .layout .. => pure false

/-! ## §3 — The slice an event leaves -/

section Outcome

variable (c : Catalog)

/-- The slice after the creations. -/
def observed (fid parent : LuFid) (name : Name) (now : Int) : Catalog :=
  match statEntryByFid live fid (some parent) name now with
  | .ok entry => c.upserted filesystem entry
  | .error _ => c

/-- The row `restat_entry` writes, if it writes one. -/
def restatRow (fid : LuFid) (parent : Option LuFid) (name : Name) (now : Int) : Option EntryRow :=
  match c.lustreEntry filesystem fid with
  | .ok (some entry) => (liveMetadata live fid).map fun md => restatted entry md parent name now
  | _ => none

/-- The slice after `restat_entry`. -/
def restated (fid : LuFid) (parent : Option LuFid) (name : Name) (now : Int) : Catalog :=
  match restatRow filesystem live c fid parent name now with
  | some entry => c.upserted filesystem entry
  | none => c

/-- The state `refresh_hsm_state_if_managed` writes, if it writes one. -/
def refreshedState (fid : LuFid) : Option String :=
  match c.lustreEntry filesystem fid with
  | .ok (some entry) =>
    let currentState := currentHsmState entry.smStatus
    if currentState = "" ∨ currentState = "none" then none
    else ((liveHsmState live fid).bind newHsmState).filter fun newState => newState ≠ currentState
  | _ => none

/-- The slice after `refresh_hsm_state_if_managed`. -/
def refreshed (fid : LuFid) (patchedAt : Int) : Catalog :=
  match refreshedState filesystem live c fid with
  | some newState =>
    c.patched ⟨filesystem, .lustre fid⟩ (.obj [("hsm_state", .str newState)]) patchedAt
  | none => c

/-- The slice after a truncation: the HSM state is only looked at when the row was written. -/
def truncated (fid : LuFid) (clock : EventClock) : Catalog :=
  match restatRow filesystem live c fid none [] clock.now with
  | some entry =>
    if c.Takes entry.stripeItems then
      refreshed filesystem live (c.putLustre filesystem entry) fid clock.patchedAt
    else c
  | none => c

/-- **The slice after `apply_event`.** -/
def applied (event : ChangelogEvent) (eventTime : Int) (clock : EventClock) : Catalog :=
  match event with
  | .create fid parent name .. | .mkdir fid parent name .. | .mknod fid parent name ..
  | .softlink fid parent name => observed filesystem live c fid parent name clock.now
  | .hardlink fid parent name =>
    match c.lustreEntry filesystem fid with
    | .ok (some entry) => c.upserted filesystem (hardlinked entry parent name clock.now)
    | .ok none => observed filesystem live c fid parent name clock.now
    | .error _ => c
  | .unlink fid parent name lastLink _ =>
    if lastLink then
      if fidStillLive live fid then c else c.withoutLustre filesystem fid eventTime
    else
      let c := c.dropEdge ⟨.lustre parent, name⟩
      match c.lustreEntry filesystem fid with
      | .ok (some entry) => c.upserted filesystem (unlinked entry clock.now)
      | _ => c
  | .rmdir fid _ _ => c.withoutLustre filesystem fid eventTime
  | .rename fid parent name _ _ =>
    match c.lustreEntry filesystem fid with
    | .ok (some entry) => c.renamed filesystem (moved entry parent name clock.now) eventTime
    | .ok none =>
      match statEntryByFid live fid (some parent) name clock.now with
      | .ok entry => c.renamed filesystem entry eventTime
      | .error _ => c
    | .error _ => c
  | .close fid parent name =>
    restated filesystem live c fid (if parent.isZero then none else some parent) name clock.now
  | .truncate fid => truncated filesystem live c fid clock
  | .setAttr fid | .mTime fid | .cTime fid => restated filesystem live c fid none [] clock.now
  | .hsm fid hsmEvent hsmFlags hsmError =>
    c.patched ⟨filesystem, .lustre fid⟩ (buildHsmPatch hsmEvent hsmFlags hsmError clock.now)
      clock.patchedAt
  | .xAttr .. | .layout .. => c

end Outcome

section Runs

variable {filesystem} {live} {c : Catalog}

theorem run_upsert_true (entry : EntryRow) :
    ((do upsertLustreEntry filesystem entry; pure true : StoreProc Bool).run c).2 =
      c.upserted filesystem entry :=
  (Proc.run_bind_snd_of_pure _ _ _).trans run_upsertLustreEntry_snd

theorem run_remove_true (fid : LuFid) (rmTime : Int) :
    ((do removeLustreEntry filesystem fid rmTime; pure true : StoreProc Bool).run c).2 =
      c.withoutLustre filesystem fid rmTime :=
  (Proc.run_bind_snd_of_pure _ _ _).trans (congrArg Prod.snd (run_removeLustreEntry fid rmTime))

theorem run_recordObserved_snd (fid parent : LuFid) (name : Name) (now : Int) :
    ((recordObserved filesystem live fid parent name now).run c).2 =
      observed filesystem live c fid parent name now := by
  unfold recordObserved observed
  cases statEntryByFid live fid (some parent) name now with
  | ok entry => exact run_upsert_true entry
  | error => rfl

theorem run_refreshHsmStateIfManaged_snd (fid : LuFid) (patchedAt : Int) :
    ((refreshHsmStateIfManaged filesystem live fid patchedAt).run c).2 =
      refreshed filesystem live c fid patchedAt := by
  rw [refreshHsmStateIfManaged, getLustreEntry, Proc.run_bind, Proc.run_ask, refreshed, refreshedState]
  rcases c.lustreEntry filesystem fid with e | _ | entry
  · rfl
  · rfl
  · dsimp only
    split_ifs with hunmanaged
    · rfl
    · cases (liveHsmState live fid).bind newHsmState with
      | none => rfl
      | some =>
        simp only [Option.filter_some, decide_eq_true_eq]
        split_ifs with hnew
        · exact (Proc.run_bind_snd_of_pure _ _ _).trans (run_patchScopedSmStatus_snd _ _ _ _)
        · rfl

/-- `restat_entry` answers whether it wrote. -/
theorem run_restatEntry (fid : LuFid) (parent : Option LuFid) (name : Name) (now : Int) :
    (restatEntry filesystem live fid parent name now).run c =
      match c.lustreEntry filesystem fid, restatRow filesystem live c fid parent name now with
      | .error e, _ => (.error e, c)
      | .ok _, none => (.ok false, c)
      | .ok _, some entry =>
        (((upsertLustreEntry filesystem entry).run c).1.map fun _ => true, c.upserted filesystem entry) := by
  rw [restatEntry, getLustreEntry, Proc.run_bind, Proc.run_ask, restatRow]
  rcases c.lustreEntry filesystem fid with e | _ | entry
  · rfl
  · rfl
  · cases liveMetadata live fid with
    | none => rfl
    | some =>
      refine (Proc.run_bind_of_pure _ _ _).trans ?_
      rw [run_upsertLustreEntry_snd]
      rfl

theorem run_restatEntry_snd (fid : LuFid) (parent : Option LuFid) (name : Name) (now : Int) :
    ((restatEntry filesystem live fid parent name now).run c).2 =
      restated filesystem live c fid parent name now := by
  rw [run_restatEntry, restated]
  cases hread : c.lustreEntry filesystem fid with
  | error => simp [restatRow, hread]
  | ok => cases restatRow filesystem live c fid parent name now <;> rfl

theorem run_truncate_snd (fid : LuFid) (eventTime : Int) (clock : EventClock) :
    ((applyEvent filesystem live (.truncate fid) eventTime clock).run c).2 =
      truncated filesystem live c fid clock := by
  rw [applyEvent, Proc.run_bind, run_restatEntry, truncated]
  cases hread : c.lustreEntry filesystem fid with
  | error => simp [restatRow, hread]
  | ok =>
    cases restatRow filesystem live c fid none [] clock.now with
    | none => rfl
    | some =>
      dsimp only
      split_ifs with htakes
      · rw [run_upsertLustreEntry htakes, Catalog.upserted, if_pos htakes, ← run_refreshHsmStateIfManaged_snd]
        exact (Proc.run_bind_snd_of_pure _ _ _).trans (Proc.run_catching_snd _ _)
      · obtain ⟨e, he⟩ := run_upsertLustreEntry_of_not htakes
        rw [he, Catalog.upserted, if_neg htakes]
        rfl

/-- **What an event leaves in the catalog**, whether it succeeds or fails. -/
theorem run_applyEvent_snd (event : ChangelogEvent) (eventTime : Int) (clock : EventClock) :
    ((applyEvent filesystem live event eventTime clock).run c).2 =
      applied filesystem live c event eventTime clock := by
  cases event with
  | create fid parent name | mkdir fid parent name | mknod fid parent name | softlink fid parent name =>
    exact run_recordObserved_snd fid parent name clock.now
  | hardlink fid parent name =>
    rw [applyEvent, getLustreEntry, Proc.run_bind, Proc.run_ask, applied]
    rcases c.lustreEntry filesystem fid with e | _ | entry
    · rfl
    · exact run_recordObserved_snd fid parent name clock.now
    · exact run_upsert_true _
  | unlink fid parent name lastLink =>
    cases lastLink with
    | true =>
      rw [applyEvent, applied, if_pos rfl, if_pos rfl]
      split_ifs
      · rfl
      · exact run_remove_true fid eventTime
    | false =>
      rw [applyEvent, applied, if_neg Bool.false_ne_true, if_neg Bool.false_ne_true, Proc.run_bind,
        removeScopedNamespaceEdge, Proc.run_step, Proc.run_pure]
      dsimp only
      rw [getLustreEntry, Proc.run_bind, Proc.run_ask]
      rcases (c.dropEdge ⟨.lustre parent, name⟩).lustreEntry filesystem fid with e | _ | entry
      · rfl
      · rfl
      · exact run_upsert_true _
  | rmdir fid => exact run_remove_true fid eventTime
  | rename fid parent name =>
    rw [applyEvent, getLustreEntry, Proc.run_bind, Proc.run_ask, applied]
    rcases c.lustreEntry filesystem fid with e | _ | entry
    · rfl
    · cases statEntryByFid live fid (some parent) name clock.now with
      | error => rfl
      | ok => exact (Proc.run_bind_snd_of_pure _ _ _).trans (run_renameLustreEntry_snd _)
    · exact (Proc.run_bind_snd_of_pure _ _ _).trans (run_renameLustreEntry_snd _)
  | close => exact run_restatEntry_snd ..
  | truncate fid => exact run_truncate_snd fid eventTime clock
  | setAttr fid | mTime fid | cTime fid => exact run_restatEntry_snd ..
  | hsm => exact run_patchScopedSmStatus_snd ..
  | xAttr => rfl
  | layout => rfl

/-- **What reading an object gives**: it is found exactly if its metadata is, and then the row carries a
fresh status and the stripes that are there now. -/
theorem statEntryByFid_eq_error_iff (fid : LuFid) (parent : Option LuFid) (name : Name) (now : Int) :
    (∃ e, statEntryByFid live fid parent name now = .error e) ↔ liveMetadata live fid = none := by
  unfold statEntryByFid liveMetadata
  cases live.fidToPath fid with
  | error => exact iff_of_true ⟨_, rfl⟩ rfl
  | ok rel =>
    simp only [Except.mapError, Except.toOption, Option.bind_some, bind, Except.bind]
    cases live.symlinkMetadata (live.mountPath.join rel) with
    | error => exact iff_of_true ⟨_, rfl⟩ rfl
    | ok => simp

theorem liveStripes_of_gone {fid : LuFid} (h : liveMetadata live fid = none) : liveStripes live fid = [] := by
  unfold liveMetadata at h
  unfold liveStripes
  cases hpath : live.fidToPath fid with
  | error => rfl
  | ok rel =>
    rw [hpath] at h
    dsimp only
    cases hmd : live.symlinkMetadata (live.mountPath.join rel) with
    | error => rfl
    | ok => simp [Except.toOption, hmd] at h

theorem statEntryByFid_ok {fid : LuFid} {parent : Option LuFid} {name : Name} {now : Int}
    {entry : EntryRow} (h : statEntryByFid live fid parent name now = .ok entry) :
    entry.fid = fid ∧ entry.parentFid = parent.filter (fun p => !p.isZero) ∧ entry.name = name ∧
      entry.smStatus = .obj [] ∧ entry.stripeItems = liveStripes live fid ∧
      ∃ md, liveMetadata live fid = some md ∧ entry.nlink = md.nlink.toUInt32 := by
  unfold statEntryByFid at h
  unfold liveStripes liveMetadata
  cases hpath : live.fidToPath fid with
  | error =>
    rw [hpath] at h
    cases h
  | ok rel =>
    simp only [hpath, Except.mapError, Except.toOption, Option.bind_some, bind, Except.bind] at h ⊢
    cases hmd : live.symlinkMetadata (live.mountPath.join rel) with
    | error =>
      rw [hmd] at h
      cases h
    | ok md =>
      rw [hmd] at h
      cases h
      exact ⟨rfl, rfl, rfl, rfl, rfl, md, rfl, rfl⟩

end Runs

namespace Sample

def mount (nlink : UInt64) (stripes : List UInt32) : LustreMount where
  symlinkMetadata _ := .ok ⟨.file, 5, nlink, 0, 0, 0, 0, 0o644, 0, 0, 0⟩
  canonicalize path := .ok path
  fidToPath _ := .ok [.normal [97]]
  pathToFid _ := .ok ⟨1, 5, 0⟩
  mountPath := [.rootDir, .normal [108]]
  getStripeInfo _ := .ok ⟨stripes.length.toUInt32, 1048576, none, stripes⟩
  hsmStateGet _ := .error .notFound

def gone : LustreMount :=
  { mount 1 [] with fidToPath := fun _ => .error .notFound, pathToFid := fun _ => .error .notFound }

end Sample

end Robinhood.Ingest
