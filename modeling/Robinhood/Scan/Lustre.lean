/-
# Scan.Lustre — scanning a Lustre mount

`enrich_lustre` (`rbh-fs-scan/src/entry.rs`) adds the FID and the layout to a walked entry, `FsScanner`
(`rbh-fs-scan/src/walker.rs`) does so for every entry of a walk, and `run_initial_scan`
(`rbh-daemon/src/lib.rs`) writes the rows in batches of one hundred.  The walk is an input, and so is the
order in which the workers hand on their results.  What failed is only counted until the walk is over: then all
rows are written, and the scan is refused with the count.
-/
import Mathlib
import Robinhood.Ingest.Lustre
import Robinhood.Scan.JuiceFs

namespace Robinhood.Scan

open Lib Posix Store Ingest

/-! ## §1 — Enrichment -/

/-- A `PosixEntry` with the paths that `enrich_lustre` looks up. -/
structure PathEntry extends PosixEntry where
  path : Path
  parentPath : Option Path
deriving DecidableEq

/-- **`enrich_lustre`.** -/
def enrichLustre (live : LustreMount) (entry : PathEntry) (now : Int) : Except IoError EntryRow := do
  let fid ← live.pathToFid entry.path
  let parentFid ← entry.parentPath.mapM live.pathToFid
  let (stripeCount, stripeSize, stripeItems, poolName) := stripeColumns live entry.path entry.kind
  .ok {
    fid := fid
    parentFid := parentFid
    name := entry.name
    kind := entry.kind
    size := entry.size
    blocks := entry.blocks
    uid := entry.uid
    gid := entry.gid
    projid := 0
    mode := entry.mode
    nlink := entry.nlink
    atime := entry.atime
    mtime := entry.mtime
    ctime := entry.ctime
    stripeCount := stripeCount
    stripeSize := stripeSize
    stripeItems := stripeItems
    poolName := poolName
    smStatus := .obj []
    lastSeen := now
    depth := entry.depth }

/-- `ScanEvent`. -/
inductive ScanEvent where
  | entry (row : EntryRow)
  | error

/-- What a worker takes from the walk: an entry, with the filesystem and the clock as it finds them, or an
error of the walk. -/
inductive WalkStep where
  | entry (live : LustreMount) (entry : PathEntry) (now : Int)
  | error

def WalkStep.event : WalkStep → ScanEvent
  | .entry live walked now =>
    match enrichLustre live walked now with
    | .ok row => .entry row
    | .error _ => .error
  | .error => .error

/-! ## §2 — The scan -/

/-- The loop of `run_initial_scan`, with the rows that wait for a batch. -/
def drainScan (filesystem : FileSystemId) : List EntryRow → List ScanEvent → StoreProc Unit
  | batch, [] => if batch = [] then pure () else upsertLustreScanBatch filesystem batch
  | batch, .entry row :: events =>
    if 100 ≤ (batch ++ [row]).length then do
      upsertLustreScanBatch filesystem (batch ++ [row])
      drainScan filesystem [] events
    else drainScan filesystem (batch ++ [row]) events
  | batch, .error :: events => drainScan filesystem batch events

/-- The errors that `ScanProgress` counts: one for each that is handed on. -/
def ScanEvent.errors (events : List ScanEvent) : ℕ :=
  events.countP fun
    | .entry _ => .false
    | .error => .true

def scanReported (errors : ℕ) : BaselineError :=
  .bail ("filesystem scan reported " ++ toString errors ++ " errors")

/-- **`run_initial_scan`** over what the workers hand on. -/
def runInitialScan (filesystem : FileSystemId) (walk : List WalkStep) : BaselineProc Unit := do
  (drainScan filesystem [] (walk.map WalkStep.event)).mapError .store
  if 0 < ScanEvent.errors (walk.map WalkStep.event) then
    .fail (scanReported (ScanEvent.errors (walk.map WalkStep.event)))

def Enriched (row : EntryRow) : Prop := ∃ live entry now, enrichLustre live entry now = .ok row

/-- **A scan writes a fresh status.** -/
theorem Enriched.smStatus_eq {row : EntryRow} (h : Enriched row) : row.smStatus = .obj [] := by
  obtain ⟨live, entry, now, h⟩ := h
  obtain ⟨fid, -, h⟩ := except_bind_eq_ok.1 h
  obtain ⟨parentFid, -, h⟩ := except_bind_eq_ok.1 h
  cases h
  rfl

def ScanEvent.rows (events : List ScanEvent) : List EntryRow :=
  events.filterMap fun
    | .entry row => some row
    | .error => none

section
variable (filesystem : FileSystemId) (c : Catalog)

def written (rows : List EntryRow) : Catalog := rows.foldl (fun c entry => c.putLustre filesystem entry) c

theorem written_append (rows rows' : List EntryRow) :
    written filesystem c (rows ++ rows') = written filesystem (written filesystem c rows) rows' :=
  List.foldl_append

theorem run_upsertLustreScanBatch_cases {entries : List EntryRow} (hne : entries ≠ []) :
    (upsertLustreScanBatch filesystem entries).run c = (.ok (), written filesystem c entries) ∨
      ∃ e, (upsertLustreScanBatch filesystem entries).run c = (.error e, c) := by
  rw [upsertLustreScanBatch, if_neg hne, getFilesystem, Proc.run_bind, Proc.run_read]
  dsimp only
  split
  · exact .inr ⟨_, rfl⟩
  · split_ifs
    · exact .inr ⟨_, rfl⟩
    · rw [Proc.run_txn]
      by_cases hlength : ∀ entry ∈ entries, entry.stripeItems.length ≤ 65536
      · rw [foldlM_putLustreTx_of_length_le hlength]
        exact .inl rfl
      · push Not at hlength
        obtain ⟨entry, hmem, hlong⟩ := hlength
        obtain ⟨e, he⟩ := @foldlM_putLustreTx_of_lt_length filesystem c _ _ hmem hlong
        exact .inr ⟨e, by rw [he]⟩

/-- **What a scan may leave**: all rows in the catalog, or an error and some whole batches of them. -/
def Writes (rows : List EntryRow) (r : Except StoreError Unit × Catalog) : Prop :=
  r = (.ok (), written filesystem c rows) ∨ ∃ e k, r = (.error e, written filesystem c (rows.take (100 * k)))

theorem writes_drainScan {events : List ScanEvent} {batch : List EntryRow} (hbatch : batch.length < 100) :
    Writes filesystem c (batch ++ ScanEvent.rows events) ((drainScan filesystem batch events).run c) := by
  induction events generalizing batch c with
  | nil =>
    rw [drainScan, ScanEvent.rows, List.filterMap_nil, List.append_nil]
    split_ifs with hempty
    · exact .inl (by rw [hempty]; rfl)
    · obtain hok | ⟨e, he⟩ := run_upsertLustreScanBatch_cases filesystem c hempty
      · exact .inl hok
      · exact .inr ⟨e, 0, he⟩
  | cons event events ih =>
    cases event with
    | error => exact ih c hbatch
    | entry row =>
      have hrows : batch ++ ScanEvent.rows (.entry row :: events) = batch ++ [row] ++ ScanEvent.rows events := by
        simp [ScanEvent.rows]
      rw [drainScan, hrows]
      split_ifs with hfull
      · have hlength : (batch ++ [row]).length = 100 := by
          rw [List.length_append, List.length_singleton] at hfull ⊢
          omega
        rw [Proc.run_bind]
        have hne : batch ++ [row] ≠ [] := by simp
        obtain hok | ⟨e, he⟩ := run_upsertLustreScanBatch_cases filesystem c hne
        · rw [hok]
          obtain hrest | ⟨e, k, hrest⟩ := @ih (written filesystem c (batch ++ [row])) [] (by simp)
          · rw [List.nil_append, ← written_append] at hrest
            exact .inl hrest
          · refine .inr ⟨e, k + 1, ?_⟩
            rw [List.nil_append, ← written_append, ← List.take_length_add_append, hlength] at hrest
            rwa [Nat.mul_succ, Nat.add_comm]
        · rw [he]
          exact .inr ⟨e, 0, rfl⟩
      · exact ih c (by omega)

end

/-- **A scan writes what the workers hand on**: every row in that order, whether it then answers `Ok` or, for
the errors counted, refuses the walk; or a batch fails, and whole batches from the start are written. -/
theorem writes_runInitialScan (filesystem : FileSystemId) (walk : List WalkStep) (c : Catalog) :
    (ScanEvent.errors (walk.map WalkStep.event) = 0 ∧ (runInitialScan filesystem walk).run c =
      (.ok (), written filesystem c (ScanEvent.rows (walk.map WalkStep.event)))) ∨
    (0 < ScanEvent.errors (walk.map WalkStep.event) ∧ (runInitialScan filesystem walk).run c =
      (.error (scanReported (ScanEvent.errors (walk.map WalkStep.event))),
        written filesystem c (ScanEvent.rows (walk.map WalkStep.event)))) ∨
    ∃ e k, (runInitialScan filesystem walk).run c =
      (.error (.store e), written filesystem c ((ScanEvent.rows (walk.map WalkStep.event)).take (100 * k))) := by
  have hwrites := @writes_drainScan filesystem c (walk.map WalkStep.event) [] (by simp)
  rw [List.nil_append] at hwrites
  rw [runInitialScan, Proc.run_bind, Proc.run_mapError]
  obtain hok | ⟨e, k, he⟩ := hwrites
  · rw [hok]
    by_cases herrors : 0 < ScanEvent.errors (walk.map WalkStep.event)
    · exact .inr (.inl ⟨herrors, by rw [if_pos herrors]; rfl⟩)
    · exact .inl ⟨Nat.eq_zero_of_not_pos herrors, by rw [if_neg herrors]; rfl⟩
  · rw [he]
    exact .inr (.inr ⟨e, k, rfl⟩)

end Robinhood.Scan
