/-
# Lustre.Status — what becomes of the status of an object that is seen again

The row that a creation event or a scan writes carries an empty `sm_status`, and an upsert writes the whole
row.  So the HSM state, the tags and the results of actions that were on the row are gone, unless nothing
is written at all.
-/
import Mathlib
import Robinhood.Scan.Lustre

namespace Robinhood.Lustre

open Lib Store Changelog Ingest Scan

/-- The `sm_status` of a Lustre object in the catalog. -/
def statusOf (c : Catalog) (fid : LuFid) : Option Json := (c.row (.lustre fid)).map ScopedEntryRow.smStatus

def isCreation : ChangelogEvent → Bool
  | .create .. | .mkdir .. | .mknod .. | .softlink .. => true
  | _ => false

section

variable {filesystem : FileSystemId} {live : LustreMount} {c : Catalog} {fid : LuFid}

theorem row_putLustre (entry : EntryRow) (object : ObjectId) :
    (c.putLustre filesystem entry).row object =
      if .lustre entry.fid = object then some (.fromLustre filesystem entry) else c.row object := by
  unfold Catalog.putLustre Catalog.putParentEdge
  cases entry.parentFid <;> simp

theorem statusOf_putLustre (entry : EntryRow) :
    statusOf (c.putLustre filesystem entry) fid =
      if entry.fid = fid then some entry.smStatus else statusOf c fid := by
  unfold statusOf
  rw [row_putLustre]
  by_cases h : entry.fid = fid <;> simp [h, ScopedEntryRow.fromLustre]

theorem statusOf_foldl_putLustre {entries : List EntryRow} (h : ∀ e ∈ entries, e.smStatus = .obj []) :
    statusOf (entries.foldl (fun c e => c.putLustre filesystem e) c) fid =
      if fid ∈ entries.map EntryRow.fid then some (.obj []) else statusOf c fid := by
  induction entries generalizing c with
  | nil => simp
  | cons e entries ih =>
    rw [List.foldl_cons, ih fun e' he' => h e' (.tail _ he'), statusOf_putLustre,
      h e List.mem_cons_self]
    by_cases hmem : fid ∈ entries.map EntryRow.fid
    · simp [hmem]
    · by_cases hfid : e.fid = fid
      · simp [hfid]
      · simp [hmem, hfid, Ne.symm hfid]

theorem applied_of_isCreation {event : ChangelogEvent} (h : isCreation event = true) (eventTime : Int)
    (clock : EventClock) :
    ∃ parent name, applied filesystem live c event eventTime clock =
      observed filesystem live c event.fid parent name clock.now := by
  cases event with
  | create fid parent name | mkdir fid parent name | mknod fid parent name | softlink fid parent name =>
    exact ⟨parent, name, rfl⟩
  | _ => cases h

theorem statusOf_observed (parent : LuFid) (name : Posix.Name) (now : Int) :
    statusOf (observed filesystem live c fid parent name now) fid =
      if liveMetadata live fid ≠ none ∧ c.Takes (liveStripes live fid) then some (.obj [])
      else statusOf c fid := by
  unfold observed
  cases hstat : statEntryByFid live fid (some parent) name now with
  | error e =>
    have hnone := (statEntryByFid_eq_error_iff fid (some parent) name now).1 ⟨e, hstat⟩
    simp [hnone]
  | ok entry =>
    obtain ⟨hfid, -, -, hstatus, hstripes, md, hmd, -⟩ := statEntryByFid_ok hstat
    dsimp only
    unfold Catalog.upserted
    rw [hstripes]
    by_cases htakes : c.Takes (liveStripes live fid)
    · simp [htakes, hmd, statusOf_putLustre, hfid, hstatus]
    · simp [htakes]

end

/-- **When seeing an object again keeps its status.**  A creation event for its FID keeps it exactly if it
was empty, or the object is no longer found, or the upsert is refused; a scanned batch exactly if it was
empty, or the object is not in the batch, or the batch is refused. -/
theorem seen_again_keeps_status_iff {filesystem : FileSystemId} {c : Catalog} {fid : LuFid}
    {row : ScopedEntryRow} (hrow : c.row (.lustre fid) = some row) :
    (∀ live event eventTime clock, isCreation event = true → event.fid = fid →
      (statusOf ((applyEvent filesystem live event eventTime clock).run c).2 fid = some row.smStatus ↔
        row.smStatus = .obj [] ∨ liveMetadata live fid = none ∨ ¬ c.Takes (liveStripes live fid))) ∧
    ∀ batch : List EntryRow, (∀ e ∈ batch, Enriched e) →
      (statusOf ((upsertLustreScanBatch filesystem batch).run c).2 fid = some row.smStatus ↔
        row.smStatus = .obj [] ∨ fid ∉ batch.map EntryRow.fid ∨ ¬ c.TakesBatch batch) := by
  have hstatus : statusOf c fid = some row.smStatus := by
    rw [statusOf, hrow]
    rfl
  constructor
  · rintro live event eventTime clock hevent rfl
    obtain ⟨parent, name, happlied⟩ := @applied_of_isCreation filesystem live c event hevent eventTime clock
    rw [run_applyEvent_snd, happlied, statusOf_observed, hstatus]
    split_ifs with h
    · simp [h.1, h.2, eq_comm]
    · refine iff_of_true rfl (.inr ?_)
      rwa [not_and_or, not_not] at h
  · intro batch hbatch
    rw [run_upsertLustreScanBatch_snd, Catalog.batched]
    split_ifs with htakes
    · rw [statusOf_foldl_putLustre fun e he => (hbatch e he).smStatus_eq, hstatus]
      by_cases hmem : fid ∈ batch.map EntryRow.fid
      · rw [if_pos hmem]
        simp only [hmem, htakes, not_true_eq_false, or_false, Option.some.injEq, eq_comm]
      · simp [hmem]
    · exact iff_of_true hstatus (.inr (.inr htakes))

namespace Sample

open Store.Sample (lustre file)

def archived : EntryRow :=
  { file 5 [97] with smStatus := .obj [("hsm_state", .str "archived"), ("xattr", .obj [("tier", .str "cold")])] }

def catalog : Catalog := Store.Sample.empty.putLustre lustre archived

end Sample

open Store.Sample (lustre)

/-- The record of its creation is read again when the file is no longer there: its row keeps the HSM state
and the tag. -/
theorem create_again_of_gone_keeps_status :
    statusOf ((applyEvent lustre Ingest.Sample.gone (.create ⟨1, 5, 0⟩ ⟨1, 1, 0⟩ [97] none none none) 0
      ⟨7, 7⟩).run Sample.catalog).2 ⟨1, 5, 0⟩ = some Sample.archived.smStatus :=
  have hrow : Sample.catalog.row (.lustre ⟨1, 5, 0⟩) = some (.fromLustre lustre Sample.archived) := by
    decide +kernel
  ((seen_again_keeps_status_iff hrow).1 _ _ 0 ⟨7, 7⟩ rfl rfl).2 (.inr (.inl rfl))

/-- The record of its creation is read again while the file is still there: the HSM state and the tag are
gone. -/
theorem create_again_empties_status :
    statusOf Sample.catalog ⟨1, 5, 0⟩ = some Sample.archived.smStatus ∧
      ((applyEvent lustre (Ingest.Sample.mount 1 []) (.create ⟨1, 5, 0⟩ ⟨1, 1, 0⟩ [97] none none none) 0
        ⟨7, 7⟩).run Sample.catalog).1 = .ok true ∧
      statusOf ((applyEvent lustre (Ingest.Sample.mount 1 [])
        (.create ⟨1, 5, 0⟩ ⟨1, 1, 0⟩ [97] none none none) 0 ⟨7, 7⟩).run Sample.catalog).2 ⟨1, 5, 0⟩ =
          some (.obj []) := by
  refine ⟨?_, ?_, ?_⟩ <;> decide +kernel

end Robinhood.Lustre
