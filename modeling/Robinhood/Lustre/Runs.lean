/-
# Lustre.Runs — how the catalog of a Lustre filesystem changes

A run is a list of calls on the scoped catalog of a Lustre filesystem: a scanned batch, a changelog event,
the two calls with which a purge is recorded, a status patch, a classifier's update.  A reachable catalog is
one that such calls produce from a filesystem that was just registered.
-/
import Mathlib
import Robinhood.Scan.Lustre
import Robinhood.Store.Xattr

namespace Robinhood.Lustre

open Lib Store Changelog Ingest Scan
open Posix (Name)

variable (filesystem : FileSystemId)

/-- **A call on the catalog.**  A purge is recorded with a patch and an unlink. -/
inductive LustreCall where
  | scan (batch : List {row : EntryRow // Enriched row})
  | event (live : LustreMount) (event : ChangelogEvent) (eventTime : Int) (clock : EventClock)
  | purge (fid : LuFid) (parent : ObjectId) (name : Name) (now : Int) (directory : Bool)
  | patch (fid : LuFid) (patch : Json) (now : Int)
  | classify (fid : LuFid) (tags : TagMap) (clearKeys : List String)

def LustreCall.after (c : Catalog) : LustreCall → Catalog
  | .scan batch => ((upsertLustreScanBatch filesystem (batch.map Subtype.val)).run c).2
  | .event live ev eventTime clock => ((applyEvent filesystem live ev eventTime clock).run c).2
  | .purge fid parent name now directory =>
    ((applyScopedUnlink ⟨filesystem, .lustre fid⟩ parent name now directory).run c).2
  | .patch fid members now => ((patchScopedSmStatus ⟨filesystem, .lustre fid⟩ members now).run c).2
  | .classify fid tags clearKeys => ((updateScopedXattr ⟨filesystem, .lustre fid⟩ tags clearKeys).run c).2

def afterCalls (c : Catalog) (calls : List LustreCall) : Catalog :=
  calls.foldl (LustreCall.after filesystem) c

def Registered (c : Catalog) : Prop :=
  c.RegisteredLustre ∧ c.entries = ∅ ∧ c.edges = ∅ ∧ c.stripeItems = ∅ ∧ c.removed = ∅

def Reachable (c : Catalog) : Prop :=
  ∃ c₀ calls, Registered c₀ ∧ c = afterCalls filesystem c₀ calls

/-! ## §1 — A Lustre catalog stays one -/

def LustreRow (object : ObjectId) (row : ScopedEntryRow) : Prop :=
  ∃ entry : EntryRow, object = .lustre entry.fid ∧ row = .fromLustre filesystem entry

/-- **A catalog of Lustre objects**: its rows and the objects its edges lead to. -/
structure LustreOnly (c : Catalog) : Prop where
  registered : c.RegisteredLustre
  rows : ∀ object row, c.row object = some row → LustreRow filesystem object row
  edges : ∀ key object, c.child key = some object → ∃ fid, object = .lustre fid

/-- **A property that the writes of `apply_event` keep**, those of a rename apart. -/
structure KeptByWrites (filesystem : FileSystemId) (P : Catalog → Prop) : Prop where
  putLustre : ∀ {c}, P c → ∀ entry, P (c.putLustre filesystem entry)
  withoutLustre : ∀ {c}, P c → ∀ fid rmTime, P (c.withoutLustre filesystem fid rmTime)
  dropEdge : ∀ {c}, P c → ∀ key, P (c.dropEdge key)
  patched : ∀ {c}, P c → ∀ fid patch now, P (c.patched ⟨filesystem, .lustre fid⟩ patch now)

namespace KeptByWrites

variable {filesystem : FileSystemId} {c : Catalog} {P : Catalog → Prop}

theorem upserted (hP : KeptByWrites filesystem P) (h : P c) (entry : EntryRow) :
    P (c.upserted filesystem entry) := by
  unfold Catalog.upserted
  split_ifs
  · exact hP.putLustre h entry
  · exact h

theorem observed (hP : KeptByWrites filesystem P) (h : P c) (live : LustreMount) (fid parent : LuFid)
    (name : Name) (now : Int) : P (observed filesystem live c fid parent name now) := by
  unfold Ingest.observed
  split
  · exact hP.upserted h _
  · exact h

theorem restated (hP : KeptByWrites filesystem P) (h : P c) (live : LustreMount) (fid : LuFid)
    (parent : Option LuFid) (name : Name) (now : Int) :
    P (restated filesystem live c fid parent name now) := by
  unfold Ingest.restated
  split
  · exact hP.upserted h _
  · exact h

theorem truncated (hP : KeptByWrites filesystem P) (h : P c) (live : LustreMount) (fid : LuFid)
    (clock : EventClock) : P (truncated filesystem live c fid clock) := by
  unfold Ingest.truncated Ingest.refreshed
  split
  · split_ifs
    · split
      · exact hP.patched (hP.putLustre h _) _ _ _
      · exact hP.putLustre h _
    · exact h
  · exact h

theorem applied (hP : KeptByWrites filesystem P) (h : P c) (live : LustreMount) {event : ChangelogEvent}
    (eventTime : Int) (clock : EventClock)
    (hevent : ∀ fid parent name srcParent srcName, event ≠ .rename fid parent name srcParent srcName) :
    P (applied filesystem live c event eventTime clock) := by
  cases event with
  | create fid parent name | mkdir fid parent name | mknod fid parent name | softlink fid parent name =>
    exact hP.observed h live fid parent name clock.now
  | hardlink fid parent name =>
    rw [Ingest.applied]
    split
    · exact hP.upserted h _
    · exact hP.observed h live fid parent name clock.now
    · exact h
  | unlink fid =>
    rw [Ingest.applied]
    split_ifs
    · exact h
    · exact hP.withoutLustre h fid eventTime
    · dsimp only
      split
      · exact hP.upserted (hP.dropEdge h _) _
      · exact hP.dropEdge h _
  | rmdir fid => exact hP.withoutLustre h fid eventTime
  | rename => exact absurd rfl (hevent _ _ _ _ _)
  | close => exact hP.restated h ..
  | truncate fid => exact hP.truncated h live fid clock
  | setAttr fid | mTime fid | cTime fid => exact hP.restated h ..
  | hsm => exact hP.patched h ..
  | xAttr | layout => exact h

end KeptByWrites

namespace LustreOnly

variable {filesystem} {c : Catalog}

/-- **A row that is there can be read.** -/
theorem scopedEntry_cases (h : LustreOnly filesystem c) (fid : LuFid) :
    (c.row (.lustre fid) = none ∧ c.scopedEntry ⟨filesystem, .lustre fid⟩ = .ok none) ∨
      ∃ entry : EntryRow, entry.fid = fid ∧ c.row (.lustre fid) = some (.fromLustre filesystem entry) ∧
        c.scopedEntry ⟨filesystem, .lustre fid⟩ = .ok (some (.fromLustre filesystem entry)) := by
  cases hrow : c.row (.lustre fid) with
  | none => exact .inl ⟨rfl, by simp [Catalog.scopedEntry, hrow]⟩
  | some =>
    obtain ⟨entry, hfid, rfl⟩ := h.rows _ _ hrow
    obtain rfl := ObjectId.lustre.inj hfid
    exact .inr ⟨entry, rfl, rfl, scopedEntry_eq_some.2 ⟨hrow, rfl⟩⟩

theorem lustreEntry_cases (h : LustreOnly filesystem c) (fid : LuFid) :
    (c.row (.lustre fid) = none ∧ c.lustreEntry filesystem fid = .ok none) ∨
      ∃ entry : EntryRow, entry.fid = fid ∧ c.row (.lustre fid) = some (.fromLustre filesystem entry) ∧
        c.lustreEntry filesystem fid = .ok (some entry) := by
  unfold Catalog.lustreEntry
  obtain ⟨hnone, hread⟩ | ⟨entry, hfid, hrow, hread⟩ := h.scopedEntry_cases fid
  · exact .inl ⟨hnone, by rw [hread]; rfl⟩
  · exact .inr ⟨entry, hfid, hrow, by simp [hread, Except.map]⟩

theorem putRow (h : LustreOnly filesystem c) (entry : EntryRow) :
    LustreOnly filesystem (c.putRow (.lustre entry.fid) (.fromLustre filesystem entry)) where
  registered := h.registered
  rows object row hrow := by
    rw [Catalog.row_putRow] at hrow
    split_ifs at hrow with hobject
    · cases hrow
      exact ⟨entry, hobject.symm, rfl⟩
    · exact h.rows object row hrow
  edges := h.edges

theorem putEdge (h : LustreOnly filesystem c) (key : EdgeKey) (fid : LuFid) :
    LustreOnly filesystem (c.putEdge key (.lustre fid)) where
  registered := h.registered
  rows := h.rows
  edges k object hchild := by
    rw [Catalog.child_putEdge] at hchild
    split_ifs at hchild with hkey
    · exact ⟨fid, (Option.some.inj hchild).symm⟩
    · exact h.edges k object hchild

theorem putParentEdge (h : LustreOnly filesystem c) (entry : EntryRow) :
    LustreOnly filesystem (c.putParentEdge entry) := by
  unfold Catalog.putParentEdge
  cases entry.parentFid with
  | none => exact h
  | some => exact h.putEdge _ _

theorem putStripes (h : LustreOnly filesystem c) (object : ObjectId) (items : List UInt32) :
    LustreOnly filesystem (c.putStripes object items) := ⟨h.registered, h.rows, h.edges⟩

theorem mono {d : Catalog} (h : LustreOnly filesystem c) (hfs : d.filesystem = c.filesystem)
    (hrows : ∀ object row, d.row object = some row → c.row object = some row)
    (hedges : ∀ key object, d.child key = some object → c.child key = some object) :
    LustreOnly filesystem d where
  registered := by
    unfold Catalog.RegisteredLustre
    rw [hfs]
    exact h.registered
  rows object row hrow := h.rows object row (hrows object row hrow)
  edges key object hchild := h.edges key object (hedges key object hchild)

theorem dropEdge (h : LustreOnly filesystem c) (key : EdgeKey) : LustreOnly filesystem (c.dropEdge key) :=
  h.mono rfl (fun _ _ hrow => hrow) fun k object hchild => by
    rw [Catalog.child_dropEdge] at hchild
    split_ifs at hchild
    exact hchild

theorem dropEdgesOf (h : LustreOnly filesystem c) (object : ObjectId) :
    LustreOnly filesystem (c.dropEdgesOf object) :=
  h.mono rfl (fun _ _ hrow => hrow) fun k o hchild => by
    rw [Catalog.child_dropEdgesOf] at hchild
    exact (Option.filter_eq_some_iff.1 hchild).1

theorem dropRow (h : LustreOnly filesystem c) (object : ObjectId) :
    LustreOnly filesystem (c.dropRow object) :=
  h.mono rfl (fun o row hrow => by
    rw [Catalog.row_dropRow] at hrow
    split_ifs at hrow
    exact hrow) fun _ _ hchild => hchild

theorem putLustre (h : LustreOnly filesystem c) (entry : EntryRow) :
    LustreOnly filesystem (c.putLustre filesystem entry) :=
  ((h.putRow entry).putStripes _ _).putParentEdge entry

theorem putRemoved (h : LustreOnly filesystem c) (object : ObjectId) (entry : ScopedEntryRow)
    (rmTime : Int) : LustreOnly filesystem (c.putRemoved object entry rmTime) :=
  ⟨h.registered, h.rows, h.edges⟩

theorem moveToRemoved (h : LustreOnly filesystem c) (object : ObjectId) (entry : ScopedEntryRow)
    (rmTime : Int) : LustreOnly filesystem (c.moveToRemoved object entry rmTime) :=
  (((h.putStripes object []).putRemoved object entry rmTime).dropEdgesOf object).dropRow object

theorem withoutLustre (h : LustreOnly filesystem c) (fid : LuFid) (rmTime : Int) :
    LustreOnly filesystem (c.withoutLustre filesystem fid rmTime) := by
  unfold Catalog.withoutLustre
  split
  · exact h.moveToRemoved _ _ _
  · exact h

theorem vacated (h : LustreOnly filesystem c) (entry : EntryRow) (rmTime : Int) :
    LustreOnly filesystem (c.vacated filesystem entry rmTime) := by
  unfold Catalog.vacated
  split
  · exact (h.withoutLustre _ _).dropEdgesOf _
  · exact h.dropEdgesOf _

theorem renamed (h : LustreOnly filesystem c) (entry : EntryRow) (rmTime : Int) :
    LustreOnly filesystem (c.renamed filesystem entry rmTime) := by
  unfold Catalog.renamed
  split_ifs
  · exact ((h.vacated entry rmTime).putRow entry).putParentEdge entry
  · exact h.vacated entry rmTime
  · exact h

theorem batched (h : LustreOnly filesystem c) (entries : List EntryRow) :
    LustreOnly filesystem (c.batched filesystem entries) := by
  unfold Catalog.batched
  split_ifs
  · induction entries generalizing c with
    | nil => exact h
    | cons entry entries ih =>
      rename_i htakes
      exact ih (h.putLustre entry) ⟨(h.putLustre entry).registered, fun e he => htakes.2 e (.tail _ he)⟩
  · exact h

theorem withEntry (h : LustreOnly filesystem c) (entry : EntryRow) :
    LustreOnly filesystem (c.withEntry (.fromLustre filesystem entry)) := by
  unfold Catalog.withEntry
  split_ifs
  · exact h.putRow entry
  · exact h

theorem patched (h : LustreOnly filesystem c) (fid : LuFid) (patch : Json) (now : Int) :
    LustreOnly filesystem (c.patched ⟨filesystem, .lustre fid⟩ patch now) := by
  unfold Catalog.patched
  obtain ⟨-, hread⟩ | ⟨entry, -, -, hread⟩ := h.scopedEntry_cases fid
  · rw [hread]
    exact h
  · rw [hread]
    exact h.withEntry { entry with smStatus := mergeStatus entry.smStatus patch, lastSeen := now }

theorem keptByWrites : KeptByWrites filesystem (LustreOnly filesystem) where
  putLustre h := h.putLustre
  withoutLustre h := h.withoutLustre
  dropEdge h := h.dropEdge
  patched h := h.patched

theorem applied (h : LustreOnly filesystem c) (live : LustreMount) (event : ChangelogEvent)
    (eventTime : Int) (clock : EventClock) :
    LustreOnly filesystem (applied filesystem live c event eventTime clock) := by
  cases event with
  | rename =>
    rw [Ingest.applied]
    split
    · exact h.renamed _ eventTime
    · split
      · exact h.renamed _ eventTime
      · exact h
    · exact h
  | _ => exact keptByWrites.applied h live eventTime clock (by simp)

theorem applyScopedUnlinkTx (h : LustreOnly filesystem c) (fid : LuFid) (parent : ObjectId) (name : Name)
    (now : Int) (directory : Bool) :
    LustreOnly filesystem
      (applyScopedUnlinkTx ⟨filesystem, .lustre fid⟩ parent name now directory c) := by
  unfold Store.applyScopedUnlinkTx
  split_ifs
  · dsimp only
    obtain ⟨hnone, -⟩ | ⟨entry, rfl, hrow, -⟩ := h.scopedEntry_cases fid
    · rw [Catalog.row_dropEdge, hnone]
      exact h.dropEdge _
    · rw [Catalog.row_dropEdge, hrow]
      dsimp only
      split_ifs
      · exact (h.dropEdge _).putRow { entry with nlink := entry.nlink - 1, lastSeen := now }
      · exact ((h.dropEdge _).putRemoved _ _ _).dropRow _
  · exact h

theorem updateScopedXattr (h : LustreOnly filesystem c) (fid : LuFid) (tags : TagMap)
    (clearKeys : List String) :
    LustreOnly filesystem ((updateScopedXattr ⟨filesystem, .lustre fid⟩ tags clearKeys).run c).2 := by
  obtain hsame | ⟨row, -, status, hread, -, hwrite⟩ :=
    run_updateScopedXattr_snd_cases c ⟨filesystem, .lustre fid⟩ tags clearKeys
  · rwa [hsame]
  · obtain ⟨entry, -, rfl⟩ := h.rows _ _ (scopedEntry_eq_some.1 hread).1
    rw [hwrite]
    exact h.withEntry { entry with smStatus := status }

/-- **No call puts another kind of object into the catalog.** -/
theorem after (h : LustreOnly filesystem c) (call : LustreCall) :
    LustreOnly filesystem (call.after filesystem c) := by
  cases call with
  | scan =>
    rw [LustreCall.after, run_upsertLustreScanBatch_snd]
    exact h.batched _
  | event live event eventTime clock =>
    rw [LustreCall.after, run_applyEvent_snd]
    exact h.applied live event eventTime clock
  | purge fid parent name now directory => exact h.applyScopedUnlinkTx fid parent name now directory
  | patch fid patch now =>
    rw [LustreCall.after, run_patchScopedSmStatus_snd]
    exact h.patched fid patch now
  | classify fid tags clearKeys => exact h.updateScopedXattr fid tags clearKeys

theorem afterCalls (h : LustreOnly filesystem c) (calls : List LustreCall) :
    LustreOnly filesystem (afterCalls filesystem c calls) := by
  induction calls generalizing c with
  | nil => exact h
  | cons call calls ih => exact ih (h.after call)

theorem of_registered (h : Registered c) : LustreOnly filesystem c where
  registered := h.1
  rows object row hrow := by simp [Catalog.row, h.2.1] at hrow
  edges key object hchild := by simp [Catalog.child, h.2.2.1] at hchild

end LustreOnly

/-- **Every reachable catalog is one of Lustre objects.** -/
theorem Reachable.lustreOnly {c : Catalog} (h : Reachable filesystem c) : LustreOnly filesystem c := by
  obtain ⟨c₀, calls, hinit, rfl⟩ := h
  exact (LustreOnly.of_registered hinit).afterCalls calls

namespace Sample

open Store.Sample (lustre)

/-- The directory 1 and the file 5. -/
def dir : LuFid := ⟨1, 1, 0⟩
def five : LuFid := ⟨1, 5, 0⟩
def six : LuFid := ⟨1, 6, 0⟩
def a : Name := [97]
def b : Name := [98]

def at7 (live : LustreMount) (event : ChangelogEvent) : LustreCall := .event live event 7 ⟨7, 7⟩

/-- The file 5 is created as `a` and linked as `b`. -/
def linked : List LustreCall :=
  [at7 (Ingest.Sample.mount 1 []) (.create five dir a none none none),
    at7 (Ingest.Sample.mount 2 []) (.hardlink five dir b)]

theorem registered_empty : Registered Store.Sample.empty :=
  ⟨⟨_, rfl, rfl⟩, rfl, rfl, rfl, rfl⟩

theorem reachable (calls : List LustreCall) : Reachable lustre (afterCalls lustre Store.Sample.empty calls) :=
  ⟨_, calls, registered_empty, rfl⟩

end Sample

end Robinhood.Lustre
