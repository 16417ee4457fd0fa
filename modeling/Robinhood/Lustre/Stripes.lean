/-
# Lustre.Stripes — the stripe rows and the layout of the entry

A query by OST joins `scoped_stripe_items`, while the layout also stands in the entry's row.  Upserts write
both and removals delete both.  Two calls do not: the unlink with which a purge is recorded drops the row
and leaves its stripe rows, and a rename of an object that is not in the catalog writes the row alone.
-/
import Mathlib
import Robinhood.Lustre.Rename

namespace Robinhood.Lustre

open Lib Store Changelog Ingest Scan
open Posix (Name)

def stripeRows (c : Catalog) (object : ObjectId) : List UInt32 := (c.stripeItems[object]?).getD []

def entryStripes (c : Catalog) (object : ObjectId) : List UInt32 :=
  ((c.row object).map ScopedEntryRow.stripeItems).getD []

/-- **The stripe rows are the layout**, index by index, and no object without an entry has any. -/
def StripesTrue (c : Catalog) : Prop := ∀ object, stripeRows c object = entryStripes c object

/-- **What a call must not meet**: a purge of the last name of a file that has stripes, and a rename of an
object that has stripes and is not in the catalog. -/
def KeepsStripes (c : Catalog) : LustreCall → Prop
  | .purge fid parent name _ directory =>
    ∀ row, c.child ⟨parent, name⟩ = some (.lustre fid) → c.row (.lustre fid) = some row →
      (directory = true ∨ ¬ 1 < row.nlink) → row.stripeItems = []
  | .event live (.rename fid ..) _ _ => c.row (.lustre fid) = none → liveStripes live fid = []
  | _ => True

/-! ## §1 — One write -/

section Writes

variable {filesystem : FileSystemId} {c : Catalog}

theorem entryStripes_putRow (object o : ObjectId) (row : ScopedEntryRow) :
    entryStripes (c.putRow object row) o = if object = o then row.stripeItems else entryStripes c o := by
  unfold entryStripes
  rw [Catalog.row_putRow]
  split_ifs <;> rfl

theorem stripeRows_putStripes (object o : ObjectId) (items : List UInt32) :
    stripeRows (c.putStripes object items) o = if object = o then items else stripeRows c o := by
  unfold stripeRows
  rw [Catalog.stripeItems_putStripes]
  split_ifs with hobject hitems
  · exact hitems.symm
  · rfl
  · rfl

theorem StripesTrue.putRow_of_eq {object : ObjectId} {row : ScopedEntryRow} (h : StripesTrue c)
    (hsame : row.stripeItems = entryStripes c object) : StripesTrue (c.putRow object row) := by
  intro o
  rw [entryStripes_putRow]
  split_ifs with hobject
  · subst hobject
    exact (h object).trans hsame.symm
  · exact h o

theorem StripesTrue.congr {d : Catalog} (h : StripesTrue c) (hstripes : d.stripeItems = c.stripeItems)
    (hrows : ∀ o, d.row o = c.row o) : StripesTrue d := by
  intro o
  rw [stripeRows, hstripes, entryStripes, hrows]
  exact h o

theorem stripeItems_putParentEdge (entry : EntryRow) :
    (c.putParentEdge entry).stripeItems = c.stripeItems := by
  unfold Catalog.putParentEdge
  split <;> rfl

theorem StripesTrue.putLustre (h : StripesTrue c) (entry : EntryRow) :
    StripesTrue (c.putLustre filesystem entry) := by
  have hboth : StripesTrue ((c.putRow (.lustre entry.fid) (.fromLustre filesystem entry)).putStripes
      (.lustre entry.fid) entry.stripeItems) := by
    intro o
    have hrow : entryStripes ((c.putRow (.lustre entry.fid) (.fromLustre filesystem entry)).putStripes
        (.lustre entry.fid) entry.stripeItems) o =
          if .lustre entry.fid = o then entry.stripeItems else entryStripes c o :=
      entryStripes_putRow _ _ _
    rw [hrow, stripeRows_putStripes]
    split_ifs
    · rfl
    · exact h o
  exact hboth.congr (stripeItems_putParentEdge _) (row_putParentEdge _)

theorem StripesTrue.batched (h : StripesTrue c) (entries : List EntryRow) :
    StripesTrue (c.batched filesystem entries) := by
  unfold Catalog.batched
  split_ifs
  · clear * - h
    induction entries generalizing c with
    | nil => exact h
    | cons entry entries ih => exact ih (h.putLustre entry)
  · exact h

theorem StripesTrue.withoutLustre (h : StripesTrue c) (fid : LuFid) (rmTime : Int) :
    StripesTrue (c.withoutLustre filesystem fid rmTime) := by
  unfold Catalog.withoutLustre
  split
  · next row _ =>
    intro o
    have hrows : stripeRows (c.moveToRemoved (.lustre fid) row rmTime) o =
        if .lustre fid = o then [] else stripeRows c o := stripeRows_putStripes _ _ _
    rw [hrows, entryStripes, Catalog.moveToRemoved, Catalog.row_dropRow]
    split_ifs
    · rfl
    · exact h o
  · exact h

theorem StripesTrue.withEntry_of_eq {row : ScopedEntryRow} (h : StripesTrue c)
    (hsame : row.stripeItems = entryStripes c row.key.object) : StripesTrue (c.withEntry row) := by
  unfold Catalog.withEntry
  split_ifs
  · exact h.putRow_of_eq hsame
  · exact h

theorem entryStripes_of_row {object : ObjectId} {row : ScopedEntryRow} (h : c.row object = some row) :
    entryStripes c object = row.stripeItems := by
  rw [entryStripes, h]
  rfl

theorem StripesTrue.withEntry_of_read {key : EntryKey} {row row' : ScopedEntryRow} (h : StripesTrue c)
    (hread : c.scopedEntry key = .ok (some row)) (hkey : row'.key = row.key)
    (hsame : row'.stripeItems = row.stripeItems) : StripesTrue (c.withEntry row') := by
  obtain ⟨hrow, rfl⟩ := scopedEntry_eq_some.1 hread
  refine h.withEntry_of_eq ?_
  rw [hkey, hsame, entryStripes_of_row hrow]

theorem StripesTrue.patched (h : StripesTrue c) (key : EntryKey) (patch : Json) (now : Int) :
    StripesTrue (c.patched key patch now) := by
  unfold Catalog.patched
  split
  · next hread => exact h.withEntry_of_read hread rfl rfl
  · exact h

theorem stripesTrue_renamed_iff {entry : EntryRow} (hlustre : LustreOnly filesystem c) (h : StripesTrue c)
    (rmTime : Int) :
    StripesTrue (c.renamed filesystem entry rmTime) ↔
      entry.stripeItems = entryStripes c (.lustre entry.fid) := by
  have hvacated : StripesTrue (c.vacated filesystem entry rmTime) := by
    unfold Catalog.vacated
    split
    · exact (h.withoutLustre _ _).congr rfl fun _ => rfl
    · exact h.congr rfl fun _ => rfl
  have hown : entryStripes (c.vacated filesystem entry rmTime) (.lustre entry.fid) =
      entryStripes c (.lustre entry.fid) := by
    rw [entryStripes, row_vacated_self hlustre]
    rfl
  rw [renamed_eq hlustre, ← hown]
  constructor
  · intro hafter
    have hat := hafter (.lustre entry.fid)
    rw [stripeRows, stripeItems_putParentEdge, entryStripes, row_putParentEdge] at hat
    have hrow : entry.stripeItems =
        entryStripes ((c.vacated filesystem entry rmTime).putRow (.lustre entry.fid)
          (.fromLustre filesystem entry)) (.lustre entry.fid) := by
      rw [entryStripes_putRow, if_pos rfl]
      rfl
    rw [hrow, ← hvacated]
    exact hat.symm
  · intro hsame
    exact (hvacated.putRow_of_eq hsame).congr (stripeItems_putParentEdge _) (row_putParentEdge _)

theorem stripesTrue_unlink_iff (h : StripesTrue c) (key : EntryKey) (parent : ObjectId) (name : Name)
    (now : Int) (directory : Bool) :
    StripesTrue (applyScopedUnlinkTx key parent name now directory c) ↔
      ∀ row, c.child ⟨parent, name⟩ = some key.object → c.row key.object = some row →
        (directory = true ∨ ¬ 1 < row.nlink) → row.stripeItems = [] := by
  by_cases hchild : c.child ⟨parent, name⟩ = some key.object
  · cases hrow : c.row key.object with
    | none =>
      rw [applyScopedUnlinkTx_of_no_row hchild hrow]
      exact iff_of_true (h.congr rfl fun _ => rfl) (by simp)
    | some row =>
      by_cases hlast : directory = true ∨ ¬ 1 < row.nlink
      · rw [applyScopedUnlinkTx_of_last hchild hrow hlast]
        constructor
        · intro hafter row' _ hrow' _
          obtain rfl := Option.some.inj hrow'
          have hat := hafter key.object
          rw [entryStripes, Catalog.row_dropRow, if_pos rfl] at hat
          rw [← entryStripes_of_row hrow, ← h]
          exact hat
        · intro hempty o
          rw [entryStripes, Catalog.row_dropRow]
          split_ifs with ho
          · subst ho
            exact (h key.object).trans ((entryStripes_of_row hrow).trans (hempty row hchild rfl hlast))
          · exact h o
      · obtain ⟨hfile, hmany⟩ := not_or.1 hlast
        rw [applyScopedUnlinkTx_of_many hchild hrow (by simpa using hfile) (not_not.1 hmany)]
        refine iff_of_true ?_ fun row' _ hrow' hl => ?_
        · exact (h.congr rfl fun _ => rfl).putRow_of_eq (entryStripes_of_row hrow).symm
        · obtain rfl := Option.some.inj hrow'
          exact absurd hl hlast
  · rw [applyScopedUnlinkTx_of_ne hchild]
    exact iff_of_true h fun _ hc => absurd hc hchild

end Writes

/-! ## §2 — One call -/

section Calls

variable {filesystem : FileSystemId} {c : Catalog}

theorem keptByWrites_stripesTrue : KeptByWrites filesystem StripesTrue where
  putLustre h := h.putLustre
  withoutLustre h := h.withoutLustre
  dropEdge h _ := h.congr rfl fun _ => rfl
  patched h _ := h.patched _

theorem stripesTrue_rename_iff (hlustre : LustreOnly filesystem c) (h : StripesTrue c)
    (live : LustreMount) (fid parent srcParent : LuFid) (name srcName : Name) (eventTime : Int)
    (clock : EventClock) :
    StripesTrue (applied filesystem live c (.rename fid parent name srcParent srcName) eventTime clock) ↔
      (c.row (.lustre fid) = none → liveStripes live fid = []) := by
  rw [applied]
  obtain ⟨hnone, hread⟩ | ⟨entry, rfl, hrow, hread⟩ := hlustre.lustreEntry_cases fid
  · rw [hread]
    have hempty : entryStripes c (.lustre fid) = [] := by
      rw [entryStripes, hnone]
      rfl
    cases hstat : statEntryByFid live fid (some parent) name clock.now with
    | error e =>
      have hgone := (statEntryByFid_eq_error_iff fid (some parent) name clock.now).1 ⟨e, hstat⟩
      exact iff_of_true h fun _ => liveStripes_of_gone hgone
    | ok =>
      obtain ⟨rfl, -, -, -, hstripes, -⟩ := statEntryByFid_ok hstat
      rw [stripesTrue_renamed_iff hlustre h, hstripes, hempty]
      exact ⟨fun hs _ => hs, fun hs => hs hnone⟩
  · rw [hread]
    refine iff_of_true ((stripesTrue_renamed_iff hlustre h eventTime).2 ?_) fun hnone => ?_
    · exact (entryStripes_of_row hrow).symm
    · rw [hrow] at hnone
      cases hnone

/-- **One call keeps the stripe rows true exactly if it is not one of the two.** -/
theorem stripesTrue_after_iff (hlustre : LustreOnly filesystem c) (h : StripesTrue c) (call : LustreCall) :
    StripesTrue (call.after filesystem c) ↔ KeepsStripes c call := by
  cases call with
  | scan =>
    rw [LustreCall.after, run_upsertLustreScanBatch_snd]
    exact iff_of_true (h.batched _) trivial
  | purge fid parent name now directory =>
    exact stripesTrue_unlink_iff h ⟨filesystem, .lustre fid⟩ parent name now directory
  | patch =>
    rw [LustreCall.after, run_patchScopedSmStatus_snd]
    exact iff_of_true (h.patched _ _ _) trivial
  | classify fid tags clearKeys =>
    refine iff_of_true ?_ trivial
    rw [LustreCall.after]
    obtain hsame | ⟨row, -, status, hread, -, hwrite⟩ :=
      run_updateScopedXattr_snd_cases c ⟨filesystem, .lustre fid⟩ tags clearKeys
    · rwa [hsame]
    · rw [hwrite]
      exact h.withEntry_of_read hread rfl rfl
  | event live event eventTime clock =>
    rw [LustreCall.after, run_applyEvent_snd]
    cases event with
    | rename fid parent name srcParent srcName =>
      exact stripesTrue_rename_iff hlustre h live fid parent srcParent name srcName eventTime clock
    | _ => exact iff_of_true (keptByWrites_stripesTrue.applied h live eventTime clock (by simp)) trivial

end Calls

/-! ## §3 — Whole runs -/

theorem afterCalls_concat (filesystem : FileSystemId) (c : Catalog) (calls : List LustreCall)
    (call : LustreCall) :
    afterCalls filesystem c (calls ++ [call]) = call.after filesystem (afterCalls filesystem c calls) :=
  List.foldl_concat ..

/-- **When OST targeting sees the true layout throughout a run**: exactly if no call of it is one of the two
that part the stripe rows from the entry, in the catalog it meets. -/
theorem stripes_true_in_run_iff {filesystem : FileSystemId} {c₀ : Catalog} (hinit : Registered c₀)
    (calls : List LustreCall) :
    (∀ done, done <+: calls → StripesTrue (afterCalls filesystem c₀ done)) ↔
      ∀ done call, done ++ [call] <+: calls → KeepsStripes (afterCalls filesystem c₀ done) call := by
  have hlustre : ∀ done, LustreOnly filesystem (afterCalls filesystem c₀ done) :=
    (LustreOnly.of_registered hinit).afterCalls
  constructor
  · intro htrue done call hpre
    have hstep := htrue _ hpre
    rw [afterCalls_concat] at hstep
    exact (stripesTrue_after_iff (hlustre done)
      (htrue done ((List.prefix_append done [call]).trans hpre)) call).1 hstep
  · intro hkeeps done
    induction done using List.reverseRecOn with
    | nil =>
      intro _ object
      simp [stripeRows, entryStripes, afterCalls, Catalog.row, hinit.2.1, hinit.2.2.2.1]
    | append_singleton done call ih =>
      intro hpre
      rw [afterCalls_concat, stripesTrue_after_iff (hlustre done)
        (ih ((List.prefix_append done [call]).trans hpre))]
      exact hkeeps done call hpre

open Store.Sample (lustre)
open Sample (five dir a b at7 registered_empty reachable)

def purged : List LustreCall :=
  [at7 (Ingest.Sample.mount 1 [3, 4]) (.create five dir a none none none),
    .purge five (.lustre dir) a 7 false]

theorem purged_file_keeps_stripe_rows :
    Reachable lustre (afterCalls lustre Store.Sample.empty purged) ∧
      (afterCalls lustre Store.Sample.empty purged).row (.lustre five) = none ∧
      stripeRows (afterCalls lustre Store.Sample.empty purged) (.lustre five) = [3, 4] :=
  ⟨reachable purged, by decide +kernel, by decide +kernel⟩

/-- The striped file 5 is created as `a` and linked as `b`; then `a` is purged, and the file renamed. -/
def purgedOnce : List LustreCall :=
  [at7 (Ingest.Sample.mount 1 [3, 4]) (.create five dir a none none none),
    at7 (Ingest.Sample.mount 2 [3, 4]) (.hardlink five dir b),
    .purge five (.lustre dir) a 7 false,
    at7 (Ingest.Sample.mount 1 [3, 4]) (.rename five dir a dir b)]

/-- A purge that leaves a name, and a rename of a file in the catalog. -/
theorem purged_once_stripes_true : StripesTrue (afterCalls lustre Store.Sample.empty purgedOnce) := by
  refine (stripes_true_in_run_iff registered_empty purgedOnce).2 ?_ _ (List.prefix_refl _)
  rintro done call ⟨rest, hrest⟩
  have hlinks : ∀ row ∈ (afterCalls lustre Store.Sample.empty (purgedOnce.take 2)).row (.lustre five),
      1 < row.nlink := by decide +kernel
  have hthere : (afterCalls lustre Store.Sample.empty (purgedOnce.take 3)).row (.lustre five) ≠ none := by
    decide +kernel
  rcases done with _ | ⟨_, _ | ⟨_, _ | ⟨_, _ | ⟨_, done⟩⟩⟩⟩ <;>
    simp only [purgedOnce, List.nil_append, List.cons_append, List.cons.injEq] at hrest
  · obtain ⟨rfl, -⟩ := hrest
    trivial
  · obtain ⟨rfl, rfl, -⟩ := hrest
    trivial
  · obtain ⟨rfl, rfl, rfl, -⟩ := hrest
    intro row _ hrow hlast
    exact absurd (hlinks row hrow) (hlast.resolve_left (by decide))
  · obtain ⟨rfl, rfl, rfl, rfl, -⟩ := hrest
    exact fun hnone => absurd hnone hthere
  · simp at hrest

end Robinhood.Lustre
