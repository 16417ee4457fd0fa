/-
# Lustre.Concurrent — updates of one object at the same time

Patches, classifier updates, restats and removals each read the row of the object in one statement and write
in another.  The row is written as a whole, so a write takes back what others wrote since the read, and it
brings back a row that was removed.  When no call writes between the read and the write of another, the
calls act one after the other, and then neither can happen.
-/
import Mathlib
import Robinhood.Lib.Serial
import Robinhood.Lustre.Namespace
import Robinhood.Lustre.Status

namespace Robinhood.Lustre

open Lib Store Changelog Ingest Scan Relation
open Posix (Name)

/-! ## §1 — The calls -/

/-- **A call on the object.**  Restats and removals are of Lustre objects. -/
inductive ObjectCall (object : ObjectId) where
  | patch (members : Json) (now : Int)
  | xattr (tags : TagMap) (clearKeys : List String)
  | restat (fid : LuFid) (h : object = .lustre fid) (live : LustreMount) (parent : Option LuFid)
    (name : Name) (now : Int)
  | remove (fid : LuFid) (h : object = .lustre fid) (rmTime : Int)
  | unlink (parent : ObjectId) (name : Name) (now : Int) (directory : Bool)

variable (filesystem : FileSystemId) {object : ObjectId}

/-- Its statements; the calls that answer nothing answer `true` here. -/
def ObjectCall.proc : ObjectCall object → Proc Catalog XattrError Bool
  | .patch members now => (patchScopedSmStatus ⟨filesystem, object⟩ members now).mapError .store
  | .xattr tags clearKeys => updateScopedXattr ⟨filesystem, object⟩ tags clearKeys
  | .restat fid _ live parent name now => (restatEntry filesystem live fid parent name now).mapError .store
  | .remove fid _ rmTime =>
    (do removeLustreEntry filesystem fid rmTime; pure true : StoreProc Bool).mapError .store
  | .unlink parent name now directory =>
    (do applyScopedUnlink ⟨filesystem, object⟩ parent name now directory; pure true :
      StoreProc Bool).mapError .store

def ObjectCall.PatchesMembers : ObjectCall object → Prop
  | .patch members _ => ∃ delta, members = .obj delta
  | _ => True

/-! ## §2 — Each writes in its last statement -/

section Single

variable {filesystem}

theorem singleWrite_upsertScopedEntry (entry : ScopedEntryRow) : (upsertScopedEntry entry).SingleWrite := by
  refine Proc.singleWrite_read_bind fun config => ?_
  cases config with
  | none => exact Proc.singleWrite_txn _
  | some =>
    dsimp only
    split_ifs
    · trivial
    · exact Proc.singleWrite_txn _

theorem singleWrite_upsertLustreEntry (entry : EntryRow) :
    (upsertLustreEntry filesystem entry).SingleWrite := by
  refine Proc.singleWrite_read_bind fun config => ?_
  cases config with
  | none => trivial
  | some =>
    dsimp only
    split_ifs
    · trivial
    · exact Proc.singleWrite_txn _

/-- **Every call writes at most once, and last.** -/
theorem ObjectCall.singleWrite (call : ObjectCall object) : (call.proc filesystem).SingleWrite := by
  cases call with
  | patch =>
    refine Proc.SingleWrite.mapError (Proc.singleWrite_ask_bind fun row => ?_) _
    cases row with
    | none => trivial
    | some => exact (singleWrite_upsertScopedEntry _).bind_pure _
  | xattr =>
    rw [proc, updateScopedXattr, getScopedEntry, Proc.mapError_ask]
    refine Proc.singleWrite_ask_bind fun row => ?_
    cases row with
    | none => trivial
    | some =>
      dsimp only
      split
      · trivial
      · exact ((singleWrite_upsertScopedEntry _).mapError _).bind_pure _
  | restat =>
    refine Proc.SingleWrite.mapError (Proc.singleWrite_ask_bind fun row => ?_) _
    cases row with
    | none => trivial
    | some =>
      dsimp only
      split
      · trivial
      · exact (singleWrite_upsertLustreEntry _).bind_pure _
  | remove =>
    refine Proc.SingleWrite.mapError (Proc.SingleWrite.bind_pure ?_ _) _
    refine Proc.singleWrite_ask_bind fun row => ?_
    cases row with
    | none => trivial
    | some => exact Proc.singleWrite_write _
  | unlink =>
    exact Proc.SingleWrite.mapError ((Proc.singleWrite_write _).bind_pure _) _

theorem ObjectCall.not_done (call : ObjectCall object) : ¬ (call.proc filesystem).Done := by
  cases call <;> exact id

end Single

/-! ## §3 — What a call does at once -/

def HasMember (c : Catalog) (object : ObjectId) (name : String) : Prop :=
  ∀ row, c.row object = some row → row.smStatus.get name ≠ none

section Calls

variable {filesystem} {c : Catalog}

def ObjectCall.after (filesystem : FileSystemId) (call : ObjectCall object) (c : Catalog) : Catalog :=
  ((call.proc filesystem).run c).2

/-- **What a call does to the row**: it leaves it, drops it, or writes one that has every member of the status
there was. -/
inductive RowChange (object : ObjectId) (c d : Catalog) : Prop
  | same (h : d.row object = c.row object)
  | dropped (h : d.row object = none)
  | written (row row' : ScopedEntryRow) (hrow : c.row object = some row) (hrow' : d.row object = some row')
    (hkeeps : ∀ name, row.smStatus.get name ≠ none → row'.smStatus.get name ≠ none)

theorem RowChange.absent {d : Catalog} (h : RowChange object c d) (hnone : c.row object = none) :
    d.row object = none := by
  cases h with
  | same h => exact h.trans hnone
  | dropped h => exact h
  | written row row' hrow => rw [hrow] at hnone; cases hnone

theorem RowChange.hasMember {d : Catalog} {name : String} (h : RowChange object c d)
    (hmember : HasMember c object name) : HasMember d object name := by
  intro row₁ hrow₁
  cases h with
  | same h => exact hmember row₁ (h.symm.trans hrow₁)
  | dropped h => rw [h] at hrow₁; cases hrow₁
  | written row row' hrow hrow' hkeeps =>
    obtain rfl := Option.some.inj (hrow'.symm.trans hrow₁)
    exact hkeeps name (hmember row hrow)

theorem lookup_foldl_insert_ne_none {name : String} (delta members : List (String × Json))
    (h : Json.lookup name members ≠ none ∨ name ∈ delta.map Prod.fst) :
    Json.lookup name (delta.foldl (fun ms m => Json.insertMember m.1 m.2 ms) members) ≠ none := by
  rw [Json.lookup_foldl_insertMember, Ne, Option.or_eq_none_iff, not_and_or]
  refine h.symm.imp_left fun hmem hnone => ?_
  obtain ⟨m, hm, rfl⟩ := List.mem_map.1 hmem
  have hfind := List.find?_eq_none.1 (Option.map_eq_none_iff.1 hnone) m (List.mem_reverse.2 hm)
  simp at hfind

theorem get_mergeStatus_ne_none {name : String} {status : Json} {delta : List (String × Json)}
    (h : status.get name ≠ none ∨ name ∈ delta.map Prod.fst) :
    (mergeStatus status (.obj delta)).get name ≠ none := by
  cases status with
  | obj members => exact lookup_foldl_insert_ne_none delta members h
  | _ =>
    have hmem : name ∈ delta.map Prod.fst := h.resolve_left (· rfl)
    intro hnone
    obtain ⟨m, hm, rfl⟩ := List.mem_map.1 hmem
    have hfind := List.find?_eq_none.1 (Option.map_eq_none_iff.1 hnone) m hm
    simp at hfind

theorem get_withXattrs_ne_none {name : String} {members : List (String × Json)} {status status' : Json}
    (hstatus : withXattrs members status = some status') (h : status.get name ≠ none) :
    status'.get name ≠ none := by
  cases status with
  | obj =>
    obtain rfl := Option.some.inj hstatus
    by_cases hname : name = "xattr"
    · subst hname
      simp [Json.get]
    · simpa [Json.get, Json.lookup_insertMember_of_ne hname] using h
  | null => exact absurd rfl h
  | _ => cases hstatus

theorem smStatus_of_toLustreCompat {row : ScopedEntryRow} {entry : EntryRow}
    (h : row.toLustreCompat = some entry) : entry.smStatus = row.smStatus := by
  unfold ScopedEntryRow.toLustreCompat at h
  split at h
  · cases h
  · obtain ⟨parent, -, rfl⟩ := Option.map_eq_some_iff.1 h
    rfl

theorem rowChange_withEntry {row row' : ScopedEntryRow}
    (hread : c.scopedEntry ⟨filesystem, object⟩ = .ok (some row)) (hkey : row'.key = row.key)
    (hkeeps : ∀ name, row.smStatus.get name ≠ none → row'.smStatus.get name ≠ none) :
    RowChange object c (c.withEntry row') := by
  obtain ⟨hrow, hrowkey⟩ := scopedEntry_eq_some.1 hread
  have hobject : row'.key.object = object := by rw [hkey, hrowkey]
  unfold Catalog.withEntry
  split_ifs
  · exact .written row row' hrow (by simp [hobject]) hkeeps
  · exact .same rfl

theorem rowChange_restated {fid : LuFid} (live : LustreMount) (parent : Option LuFid) (name : Name)
    (now : Int) : RowChange (.lustre fid) c (restated filesystem live c fid parent name now) := by
  unfold restated restatRow
  rcases hread : c.lustreEntry filesystem fid with e | _ | entry
  · exact .same rfl
  · exact .same rfl
  · cases liveMetadata live fid with
    | none => exact .same rfl
    | some =>
      simp only [Option.map_some, Catalog.upserted]
      split_ifs
      · have hfid := fid_of_lustreEntry hread
        rcases hscoped : c.scopedEntry ⟨filesystem, .lustre fid⟩ with e | _ | row
        · simp [Catalog.lustreEntry, hscoped, Except.map] at hread
        · simp [Catalog.lustreEntry, hscoped, Except.map] at hread
        · have hcompat : row.toLustreCompat = some entry := by
            simpa [Catalog.lustreEntry, hscoped, Except.map] using hread
          refine .written row _ (scopedEntry_eq_some.1 hscoped).1
            ((row_putLustre _ _).trans (if_pos (congrArg ObjectId.lustre hfid))) fun n hn => ?_
          rw [← smStatus_of_toLustreCompat hcompat] at hn
          exact hn
      · exact .same rfl

/-- **Every call** leaves the row, drops it, or adds to the status there was. -/
theorem rowChange_after (call : ObjectCall object) (hpatch : call.PatchesMembers) (c : Catalog) :
    RowChange object c (call.after filesystem c) := by
  unfold ObjectCall.after
  cases call with
  | patch =>
    obtain ⟨delta, rfl⟩ := hpatch
    rw [ObjectCall.proc, Proc.run_mapError]
    rw [run_patchScopedSmStatus_snd, Catalog.patched]
    split
    · next row hread =>
      exact rowChange_withEntry hread rfl fun name hname => get_mergeStatus_ne_none (.inl hname)
    · exact .same rfl
  | xattr tags clearKeys =>
    obtain hsame | ⟨row, members, status, hread, hstatus, hwrite⟩ :=
      run_updateScopedXattr_snd_cases c ⟨filesystem, object⟩ tags clearKeys
    · exact .same (by rw [ObjectCall.proc, hsame])
    · rw [ObjectCall.proc, hwrite]
      exact rowChange_withEntry hread rfl fun name hname => get_withXattrs_ne_none hstatus hname
  | restat fid h live parent name now =>
    rw [ObjectCall.proc, Proc.run_mapError, h]
    rw [run_restatEntry_snd]
    exact rowChange_restated live parent name now
  | remove fid h =>
    rw [ObjectCall.proc, Proc.run_mapError, h]
    rw [run_remove_true, Catalog.withoutLustre]
    split
    · exact .dropped (by simp [Catalog.moveToRemoved])
    · exact .same rfl
  | unlink parent name now directory =>
    show RowChange object c (applyScopedUnlinkTx ⟨filesystem, object⟩ parent name now directory c)
    by_cases hchild : c.child ⟨parent, name⟩ = some object
    · cases hrow : c.row object with
      | none =>
        refine .same ?_
        rw [applyScopedUnlinkTx_of_no_row hchild hrow]
        rfl
      | some row =>
        by_cases hlast : directory = true ∨ ¬ 1 < row.nlink
        · refine .dropped ?_
          rw [applyScopedUnlinkTx_of_last hchild hrow hlast]
          simp
        · obtain ⟨hfile, hmany⟩ := not_or.1 hlast
          rw [applyScopedUnlinkTx_of_many hchild hrow (by simpa using hfile) (not_not.1 hmany)]
          exact .written row _ hrow ((Catalog.row_putRow _ _ _ _).trans (if_pos rfl)) fun _ hn => hn
    · refine .same ?_
      rw [applyScopedUnlinkTx_of_ne hchild]

/-- **A patch that answers `true`** has put its members into the row. -/
theorem hasMember_of_patch_ok {delta : List (String × Json)} {now : Int} {name : String}
    (hok : (((ObjectCall.patch (.obj delta) now : ObjectCall object).proc filesystem).run c).1 = .ok true)
    (hname : name ∈ delta.map Prod.fst) :
    HasMember ((ObjectCall.patch (.obj delta) now : ObjectCall object).after filesystem c) object name := by
  unfold ObjectCall.after
  rw [ObjectCall.proc, Proc.run_mapError, patchScopedSmStatus, getScopedEntry, Proc.run_bind,
    Proc.run_ask] at hok ⊢
  rcases hread : c.scopedEntry ⟨filesystem, object⟩ with e | _ | entry
  · rw [hread] at hok
    cases hok
  · rw [hread] at hok
    cases hok
  · rw [hread] at hok
    dsimp only at hok ⊢
    obtain ⟨-, hkey⟩ := scopedEntry_eq_some.1 hread
    rcases hrun : (upsertScopedEntry { entry with
        smStatus := mergeStatus entry.smStatus (.obj delta), lastSeen := now }).run c with ⟨e | u, d⟩
    · rw [Proc.run_bind_error hrun] at hok
      cases hok
    · obtain ⟨-, rfl⟩ := run_upsertScopedEntry_ok.1 hrun
      rw [Proc.run_bind_ok hrun]
      intro row hrow
      simp only [Proc.run_return, hkey, Catalog.row_putRow, if_true, Option.some.injEq] at hrow
      subst hrow
      exact get_mergeStatus_ne_none (.inr hname)

end Calls

/-! ## §4 — Serial and quiet runs -/

section Runs

variable {ι : Type} [DecidableEq ι] {filesystem} {calls : ι → ObjectCall object}

theorem absent_of_serial (hpatch : ∀ i, (calls i).PatchesMembers) {a b : Answered ι Catalog XattrError Bool}
    (hrun : ReflTransGen (Serial fun i => (calls i).proc filesystem) a b)
    (hnone : a.store.row object = none) : b.store.row object = none := by
  induction hrun with
  | refl => exact hnone
  | tail _ hstep ih =>
    cases hstep with
    | mk i _ => exact (rowChange_after (calls i) (hpatch i) _).absent ih

/-- In a serial run every patch that has answered `true` has its members in the row. -/
theorem hasMember_of_serial (hpatch : ∀ i, (calls i).PatchesMembers) {c : Catalog}
    {b : Answered ι Catalog XattrError Bool}
    (hrun : ReflTransGen (Serial fun i => (calls i).proc filesystem) ⟨c, fun _ => none⟩ b)
    {i : ι} {delta : List (String × Json)} {now : Int} (hcall : calls i = .patch (.obj delta) now)
    (hanswer : b.answer i = some (.ok true)) {name : String} (hname : name ∈ delta.map Prod.fst) :
    HasMember b.store object name := by
  induction hrun with
  | refl => cases hanswer
  | tail _ hstep ih =>
    cases hstep with
    | mk j =>
      by_cases hij : i = j
      · subst hij
        simp only [Function.update_self, Option.some.injEq, hcall] at hanswer ⊢
        exact hasMember_of_patch_ok hanswer hname
      · simp only [Function.update_of_ne hij] at hanswer
        exact (rowChange_after (calls j) (hpatch j) _).hasMember (ih hanswer)

end Runs

/-- **When updates of one object neither overwrite nor resurrect each other.**  In every interleaving of
calls, whose patches are JSON objects, in which no statement changes the catalog while another call is
between its first and its last statement: a patch that has answered `true` has its members in the row, if
the object is there, and an object that was absent at some time is absent from then on. -/
theorem quiet_updates_compose {ι : Type} [DecidableEq ι] {filesystem : FileSystemId} {object : ObjectId}
    {calls : ι → ObjectCall object} (hpatch : ∀ i, (calls i).PatchesMembers) {c : Catalog}
    {p q : Pool ι Catalog XattrError Bool}
    (hp : ReflTransGen (Pool.Quiet fun i => (calls i).proc filesystem)
      (Pool.initial (fun i => (calls i).proc filesystem) c) p)
    (hq : ReflTransGen (Pool.Quiet fun i => (calls i).proc filesystem) p q) :
    (∀ i delta now, calls i = .patch (.obj delta) now → (q.left i).answer = some (.ok true) →
      ∀ row, q.store.row object = some row → ∀ name ∈ delta.map Prod.fst, row.smStatus.get name ≠ none) ∧
    (p.store.row object = none → q.store.row object = none) := by
  obtain ⟨a, hserial, ha⟩ := (simulates_initial (fun i => (calls i).singleWrite)
    (fun i => (calls i).not_done) c).run hp
  obtain ⟨b, hserial', hb⟩ := ha.run hq
  constructor
  · intro i delta now hcall hanswer row hrow name hname
    have hdone : b.answer i = some (.ok true) := hb.answer_of_done (Proc.eq_ofExcept_of_answer hanswer)
    refine hasMember_of_serial hpatch (hserial.trans hserial') hcall hdone hname row ?_
    rw [hb.store]
    exact hrow
  · intro hnone
    rw [← hb.store]
    refine absent_of_serial hpatch hserial' ?_
    rw [ha.store]
    exact hnone

/-! ## §5 — Lost and brought back -/

open Store.Sample (lustre file)

namespace Sample

def twoPatches : Bool → ObjectCall (.lustre five)
  | false => .patch (.obj [("action", .str "purge")]) 7
  | true => .patch (.obj [("hsm_state", .str "archived")]) 8

def patchAndRemove : Bool → ObjectCall (.lustre five)
  | false => .patch (.obj [("action", .str "purge")]) 7
  | true => .remove five rfl 8

def one : Catalog := Store.Sample.empty.putLustre lustre (file 5 a)

def pool (calls : Bool → ObjectCall (.lustre five)) : Pool Bool Catalog XattrError Bool :=
  Pool.initial (fun i => (calls i).proc lustre) one

def overlapping : Pool Bool Catalog XattrError Bool :=
  [false, true, false, false, true, true].foldl Pool.stepAt (pool twoPatches)

def removedBetween : Pool Bool Catalog XattrError Bool :=
  [false, true, true].foldl Pool.stepAt (pool patchAndRemove)

end Sample

open Sample in
/-- Both patches answer `true` and the member of the first is gone; the removed file is back. -/
theorem overlapping_updates_lost :
    (ReflTransGen Pool.Step (pool twoPatches) overlapping ∧
      (∀ i, (overlapping.left i).answer = some (.ok true)) ∧
      (overlapping.store.row (.lustre five)).map (fun row => (row.smStatus.get "action",
        row.smStatus.get "hsm_state")) = some (none, some (.str "archived"))) ∧
    ReflTransGen Pool.Step (pool patchAndRemove) removedBetween ∧
      removedBetween.store.row (.lustre five) = none ∧
      ReflTransGen Pool.Step removedBetween ([false, false].foldl Pool.stepAt removedBetween) ∧
      (([false, false].foldl Pool.stepAt removedBetween).store.row (.lustre five)).isSome = true := by
  refine ⟨⟨Pool.reflTransGen_schedule _ _, ?_, ?_⟩, Pool.reflTransGen_schedule _ _, ?_,
    Pool.reflTransGen_schedule _ _, ?_⟩
  · decide +kernel
  · decide +kernel
  · decide +kernel
  · decide +kernel

open Sample in
/-- One patch after the other: both members are there. -/
theorem successive_patches_kept :
    (∀ i, (twoPatches i).PatchesMembers) ∧ ∀ row, (((pool twoPatches).finish false).finish true).store.row (.lustre five) = some row →
      row.smStatus.get "action" ≠ none ∧ row.smStatus.get "hsm_state" ≠ none := by
  have hpatch : ∀ i, (twoPatches i).PatchesMembers := fun i => by cases i <;> exact ⟨_, rfl⟩
  have hfirst : ReflTransGen (Pool.Quiet fun i => (twoPatches i).proc lustre) (pool twoPatches)
      ((pool twoPatches).finish false) :=
    Pool.reflTransGen_finish _ _ _ fun j _ h => h.1 rfl
  have hsecond : ReflTransGen (Pool.Quiet fun i => (twoPatches i).proc lustre)
      ((pool twoPatches).finish false) (((pool twoPatches).finish false).finish true) := by
    refine Pool.reflTransGen_finish _ _ _ fun j hj h => h.2 ?_
    obtain rfl : j = false := by simpa using hj
    simp only [Pool.finish, Function.update_self]
    exact Proc.done_ofExcept _
  have hboth := (quiet_updates_compose hpatch hfirst hsecond).1
  refine ⟨hpatch, fun row hrow => ?_⟩
  exact ⟨hboth false _ _ rfl (by decide +kernel) row hrow "action" (by simp),
    hboth true _ _ rfl (by decide +kernel) row hrow "hsm_state" (by simp)⟩

end Robinhood.Lustre
