/-
# Store.Dump — dump and restore of the legacy table

`GET /admin/dump` streams the table `entries` as one JSON line a row, in pages of a thousand rows after the
last FID seen; `POST /admin/restore` reads such lines and upserts them in batches.  The table is listed in
the byte order of its primary key, the sixteen bytes of a FID.  How `serde_json` writes and reads is a parameter;
what is proved is for rows whose lines and statuses it reads back.
-/
import Mathlib
import Robinhood.Lib.Table
import Robinhood.Store.Document
import Robinhood.Store.Lustre

namespace Robinhood.Store

open Lib Std

/-! ## §1 — The table -/

/-- A row of `entries` under its key: `kind` and `sm_status` as they are stored, the other columns as the
row has them. -/
structure LegacyRow where
  kind : UInt8
  smStatus : Option (List UInt8)
  others : EntryRow

abbrev LegacyTable := Table LuFid LegacyRow

structure EntryDocument where
  fid : String
  parentFid : Option String
  name : NameRepr
  other : EntryRow
  deriving DecidableEq

def EntryDocument.json (document : EntryDocument) : Json :=
  .obj ([("fid", .str document.fid), ("parent_fid", optionJson .str document.parentFid),
    ("name", document.name.json)] ++ otherMembers (.fromLustre ⟨"jfs", FileSystemId.jfs_valid⟩ document.other))

/-- **`serde_json`** for the statuses in the table and for the lines of a dump. -/
structure DumpFormat where
  status : JsonText Json
  json : JsonText EntryDocument

namespace DumpFormat

variable (f : DumpFormat)

def document (entry : EntryRow) : EntryDocument :=
  ⟨entry.fid.display, entry.parentFid.map LuFid.display, serializeName entry.name, entry⟩

/-- `serde_json::to_vec` of a row. -/
def write (entry : EntryRow) : List UInt8 := f.json.write (document entry)

/-- `serde_json::from_slice` of a line. -/
def read (line : List UInt8) : Option EntryRow := do
  let document ← f.json.read line
  let fid ← (LuFid.fromStr document.fid).toOption
  let parentFid ← document.parentFid.mapM fun fid => (LuFid.fromStr fid).toOption
  let name ← deserializeName document.name
  pure { document.other with fid := fid, parentFid := parentFid, name := name }

/-- The values that `legacy_lustre_upsert_batch` binds for a row. -/
def bound (entry : EntryRow) : LegacyRow := ⟨.ofNat entry.kind.toNat, some (f.status.write entry.smStatus), entry⟩

/-- One row of `legacy_lustre_upsert_batch`. -/
def upsert (table : LegacyTable) (entry : EntryRow) : LegacyTable := table.insert entry.fid (f.bound entry)

/-! ## §2 — Dump and restore -/

/-- The page size of `admin_dump`. -/
def page : ℕ := 1000

/-- What `admin_restore` has done so far. -/
structure Restoring where
  table : LegacyTable
  restored : ℕ
  failed : ℕ
  batch : List EntryRow

/-- `legacy_lustre_upsert_batch` of the collected rows. -/
def flush (s : Restoring) : Restoring :=
  ⟨s.batch.foldl f.upsert s.table, s.restored + s.batch.length, s.failed, []⟩

def restoreLine (size : ℕ) (s : Restoring) (line : List UInt8) : Restoring :=
  if line.any (· ∉ [9, 10, 12, 13, 32]) then
    match f.read line with
    | none => { s with failed := s.failed + 1 }
    | some row =>
      let s := { s with batch := s.batch ++ [row] }
      if s.batch.length ≥ size then f.flush s else s
  else s

/-- **What is assumed of `serde_json` for a row**: its status and its line are read back, and the line is one line
and not blank. -/
structure Keeps (entry : EntryRow) : Prop where
  status : f.status.read (f.status.write entry.smStatus) = some entry.smStatus
  statusShown : f.status.write entry.smStatus ≠ []
  line : f.json.read (f.write entry) = some (document entry)
  oneLine : '\n'.toUInt8 ∉ f.write entry
  shown : ∃ b ∈ f.write entry, b ∉ [9, 10, 12, 13, 32]

variable {f} in
theorem Keeps.read_write {entry : EntryRow} (h : f.Keeps entry) : f.read (f.write entry) = some entry := by
  have hfid : ∀ fid : LuFid, (LuFid.fromStr fid.display).toOption = some fid := by
    intro fid
    rw [LuFid.fromStr_display]
    rfl
  have hparent : (entry.parentFid.map LuFid.display).mapM (fun fid => (LuFid.fromStr fid).toOption) =
      some entry.parentFid := by
    rcases entry.parentFid with _ | parent
    · rfl
    · simp [hfid]
  simp only [read, h.line, document, hfid, hparent, deserialize_serializeName, Option.pure_def,
    Option.bind_eq_bind, Option.bind_some]

/-- The rows of a restore that was given the lines of `seen`. -/
def Restored (seen : List EntryRow) (s : Restoring) : Prop :=
  s.failed = 0 ∧ s.restored + s.batch.length = seen.length ∧
    s.batch.foldl f.upsert s.table = seen.foldl f.upsert ∅

variable {f}

theorem Restored.flush {seen : List EntryRow} {s : Restoring} (h : f.Restored seen s) :
    f.Restored seen (f.flush s) :=
  ⟨h.1, h.2.1, h.2.2⟩

/-- **One line**: the row it holds is restored with the others. -/
theorem Restored.restoreLine {seen : List EntryRow} {s : Restoring} (h : f.Restored seen s) (size : ℕ)
    {row : EntryRow} (hkeeps : f.Keeps row) : f.Restored (seen ++ [row]) (f.restoreLine size s (f.write row)) := by
  obtain ⟨hfailed, hcount, htable⟩ := h
  have hshown : (f.write row).any (· ∉ [9, 10, 12, 13, 32]) = true := by
    obtain ⟨b, hb, hblank⟩ := hkeeps.shown
    exact List.any_eq_true.2 ⟨b, hb, decide_eq_true hblank⟩
  have hpushed : f.Restored (seen ++ [row]) { s with batch := s.batch ++ [row] } := by
    refine ⟨hfailed, ?_, ?_⟩
    · simp only [List.length_append, List.length_singleton]
      omega
    · simp only [List.foldl_append, htable]
  rw [DumpFormat.restoreLine, if_pos hshown, hkeeps.read_write]
  dsimp only
  split_ifs
  · exact hpushed.flush
  · exact hpushed

theorem Restored.lines {seen : List EntryRow} {s : Restoring} (h : f.Restored seen s) (size : ℕ)
    {rows : List EntryRow} (hkeeps : ∀ row ∈ rows, f.Keeps row) :
    f.Restored (seen ++ rows) ((rows.map f.write).foldl (f.restoreLine size) s) := by
  induction rows generalizing seen s with
  | nil => simpa using h
  | cons row rows ih =>
    rw [List.forall_mem_cons] at hkeeps
    simpa using ih (h.restoreLine size hkeeps.1) hkeeps.2

variable (f)

namespace Sample

open Store.Sample (file)

/-- The second row has a raw name and a status. -/
def rows : List EntryRow := [file 2 [97], { file 3 [255] with smStatus := .obj [("hsm", .str "archived")] }]

/-- `serde_json` on these rows: it writes compact JSON and reads their texts. -/
def serde : DumpFormat where
  status := ⟨jsonBytes fun _ => "", fun text =>
    (rows.map EntryRow.smStatus).find? fun status => jsonBytes (fun _ => "") status = text⟩
  json := ⟨fun document => jsonBytes (fun _ => "") document.json, fun text =>
    (rows.map document).find? fun document => jsonBytes (fun _ => "") document.json = text⟩

def table : LegacyTable := rows.foldl serde.upsert ∅

end Sample

end DumpFormat

end Robinhood.Store
