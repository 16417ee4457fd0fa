/-
# Lustre.Namespace — the edges of a Lustre catalog

The row of an object remembers one of its names, and every upsert of the row writes the edge of that name.
So whether an event leaves the right edges depends on the name the row remembers: an unlink of that name,
or a change of metadata after the name went to another object, brings the edge back.
-/
import Mathlib
import Robinhood.Lustre.Runs

namespace Robinhood.Lustre

open Lib Store Changelog Ingest Scan
open Posix (Name)

/-! ## §1 — The name a row remembers -/

def edgeOf (entry : EntryRow) : Option EdgeKey := entry.parentFid.map fun p => ⟨.lustre p, entry.name⟩

section Children

variable {filesystem : FileSystemId} {c : Catalog} (entry : EntryRow) (key : EdgeKey)

theorem row_putParentEdge (object : ObjectId) : (c.putParentEdge entry).row object = c.row object := by
  unfold Catalog.putParentEdge
  split <;> rfl

theorem removed_putParentEdge : (c.putParentEdge entry).removed = c.removed := by
  unfold Catalog.putParentEdge
  split <;> rfl

theorem child_putParentEdge : (c.putParentEdge entry).child key =
    if edgeOf entry = some key then some (.lustre entry.fid) else c.child key := by
  unfold Catalog.putParentEdge edgeOf
  cases entry.parentFid <;> simp

theorem child_putLustre : (c.putLustre filesystem entry).child key =
    if edgeOf entry = some key then some (.lustre entry.fid) else c.child key := by
  rw [Catalog.putLustre, child_putParentEdge]
  simp

theorem child_upserted : (c.upserted filesystem entry).child key =
    if c.Takes entry.stripeItems ∧ edgeOf entry = some key then some (.lustre entry.fid)
    else c.child key := by
  unfold Catalog.upserted
  by_cases h : c.Takes entry.stripeItems
  · rw [if_pos h, child_putLustre]
    simp [h]
  · simp [h]

theorem child_withEntry (row : ScopedEntryRow) : (c.withEntry row).child key = c.child key := by
  unfold Catalog.withEntry
  split_ifs <;> rfl

theorem child_patched (k : EntryKey) (patch : Json) (now : Int) :
    (c.patched k patch now).child key = c.child key := by
  unfold Catalog.patched
  split
  · exact child_withEntry key _
  · rfl

end Children

theorem fid_of_lustreEntry {filesystem : FileSystemId} {c : Catalog} {fid : LuFid} {entry : EntryRow}
    (h : c.lustreEntry filesystem fid = .ok (some entry)) : entry.fid = fid := by
  unfold Catalog.lustreEntry at h
  rcases hread : c.scopedEntry ⟨filesystem, .lustre fid⟩ with e | _ | row
  · simp [hread, Except.map] at h
  · simp [hread, Except.map] at h
  · have hkey : row.key.object = .lustre fid := by rw [(scopedEntry_eq_some.1 hread).2]
    simp only [hread, Except.map, Option.bind_some, Except.ok.injEq, ScopedEntryRow.toLustreCompat,
      hkey, Option.map_eq_some_iff] at h
    obtain ⟨parent, -, rfl⟩ := h
    rfl

/-! ## §2 — One of several names goes -/

/-- The edge that is written with the row of the object, if the row can be read and is taken. -/
def rewrittenEdge (filesystem : FileSystemId) (c : Catalog) (fid : LuFid) : Option EdgeKey :=
  match c.lustreEntry filesystem fid with
  | .ok (some entry) => if c.Takes entry.stripeItems then edgeOf entry else none
  | _ => none

theorem child_unlink (filesystem : FileSystemId) (live : LustreMount) (c : Catalog) (fid parent : LuFid)
    (name : Name) (hsmExists : Bool) (eventTime : Int) (clock : EventClock) (key : EdgeKey) :
    ((applyEvent filesystem live (.unlink fid parent name false hsmExists) eventTime clock).run c).2.child
        key =
      if rewrittenEdge filesystem c fid = some key then some (.lustre fid)
      else if ⟨.lustre parent, name⟩ = key then none else c.child key := by
  have hread : (c.dropEdge ⟨.lustre parent, name⟩).lustreEntry filesystem fid =
      c.lustreEntry filesystem fid := rfl
  rw [run_applyEvent_snd, applied, if_neg Bool.false_ne_true, rewrittenEdge]
  simp only [hread]
  rcases hentry : c.lustreEntry filesystem fid with e | _ | entry
  · simp
  · simp
  · have hedge : edgeOf (unlinked entry clock.now) = edgeOf entry := rfl
    have htakes : (c.dropEdge ⟨.lustre parent, name⟩).Takes (unlinked entry clock.now).stripeItems ↔
        c.Takes entry.stripeItems := Iff.rfl
    have hsame : (unlinked entry clock.now).fid = fid := (fid_of_lustreEntry hentry : entry.fid = fid)
    simp only [child_upserted, hedge, htakes, hsame, Catalog.child_dropEdge]
    by_cases h : c.Takes entry.stripeItems <;> simp [h]

/-- **When an unlink of one of several names removes that name only**: nothing else has the name, and the
row remembers another name, which leads to the object. -/
theorem unlink_removes_name_only_iff (filesystem : FileSystemId) (live : LustreMount) (c : Catalog)
    (fid parent : LuFid) (name : Name) (hsmExists : Bool) (eventTime : Int) (clock : EventClock) :
    (((applyEvent filesystem live (.unlink fid parent name false hsmExists) eventTime clock).run c).2.child
          ⟨.lustre parent, name⟩ ≠ some (.lustre fid) ∧
      ∀ key object, (key, object) ≠ (⟨.lustre parent, name⟩, .lustre fid) →
        (((applyEvent filesystem live (.unlink fid parent name false hsmExists) eventTime clock).run
          c).2.child key = some object ↔ c.child key = some object)) ↔
    (∀ object, c.child ⟨.lustre parent, name⟩ = some object → object = .lustre fid) ∧
      ∀ key, rewrittenEdge filesystem c fid = some key →
        key ≠ ⟨.lustre parent, name⟩ ∧ c.child key = some (.lustre fid) := by
  simp only [child_unlink]
  constructor
  · rintro ⟨hgone, hothers⟩
    refine ⟨fun object hobject => ?_, fun key hkey => ?_⟩
    · -- an edge of another object under that name would have to stay
      by_contra hne
      have hstays := (hothers ⟨.lustre parent, name⟩ object (by simp [hne])).2 hobject
      by_cases hrew : rewrittenEdge filesystem c fid = some ⟨.lustre parent, name⟩
      · simp [hrew] at hgone
      · simp [hrew] at hstays
    · have hkey' : key ≠ ⟨.lustre parent, name⟩ := by
        rintro rfl
        simp [hkey] at hgone
      refine ⟨hkey', (hothers key (.lustre fid) (by simp [hkey'])).1 ?_⟩
      rw [if_pos hkey]
  · rintro ⟨howner, hrewritten⟩
    constructor
    · rw [if_neg fun h => (hrewritten _ h).1 rfl]
      simp
    · intro key object hne
      split_ifs with hkey hname
      · rw [(hrewritten key hkey).2]
      · subst hname
        refine iff_of_false (by simp) fun hobject => hne ?_
        rw [howner object hobject]
      · rfl

open Store.Sample (lustre)
open Sample (five six dir a b at7 linked reachable)

/-- The file is created as `a` and linked as `b`; when `b` is unlinked, the row still remembers `b`, and the
edge is back. -/
theorem unlinked_name_stays :
    Reachable lustre (afterCalls lustre Store.Sample.empty linked) ∧
      ((applyEvent lustre (Ingest.Sample.mount 1 []) (.unlink five dir b false false) 7 ⟨7, 7⟩).run
        (afterCalls lustre Store.Sample.empty linked)).2.child ⟨.lustre dir, b⟩ = some (.lustre five) :=
  ⟨reachable linked, by decide +kernel⟩

/-! ## §3 — Only the metadata changes -/

def metadataOnly : ChangelogEvent → Option (LuFid × Option LuFid)
  | .setAttr fid | .mTime fid | .cTime fid | .truncate fid => some (fid, none)
  | .close fid parent [] => some (fid, if parent.isZero then none else some parent)
  | _ => none

def restatEdge (filesystem : FileSystemId) (live : LustreMount) (c : Catalog) (fid : LuFid)
    (parent : Option LuFid) : Option EdgeKey :=
  match c.lustreEntry filesystem fid with
  | .ok (some entry) =>
    if liveMetadata live fid ≠ none ∧ c.Takes entry.stripeItems then
      (parent.or entry.parentFid).map fun p => ⟨.lustre p, entry.name⟩
    else none
  | _ => none

section Metadata

variable {filesystem : FileSystemId} {live : LustreMount} {c : Catalog} {fid : LuFid}
  {parent : Option LuFid}

theorem edgeOf_restatted {entry : EntryRow} {md : Posix.Metadata} {now : Int}
    (hparent : ∀ p, parent = some p → p.isZero = false) :
    edgeOf (restatted entry md parent [] now) =
      (parent.or entry.parentFid).map fun p => ⟨.lustre p, entry.name⟩ := by
  cases parent with
  | none => rfl
  | some p => simp [edgeOf, restatted, hparent p rfl]

theorem child_restated (now : Int) (hparent : ∀ p, parent = some p → p.isZero = false) (key : EdgeKey) :
    (restated filesystem live c fid parent [] now).child key =
      if restatEdge filesystem live c fid parent = some key then some (.lustre fid) else c.child key := by
  unfold restated restatRow restatEdge
  rcases hentry : c.lustreEntry filesystem fid with e | _ | entry
  · simp
  · simp
  · have hfid := fid_of_lustreEntry hentry
    dsimp only
    cases liveMetadata live fid with
    | none => simp
    | some md =>
      have hsame : (restatted entry md parent [] now).fid = fid := hfid
      have hstripes : (restatted entry md parent [] now).stripeItems = entry.stripeItems := rfl
      rw [Option.map_some]
      rw [child_upserted, edgeOf_restatted hparent, hsame, hstripes]
      by_cases h : c.Takes entry.stripeItems
      · simp only [h, true_and, ne_eq, reduceCtorEq, not_false_eq_true, and_self, if_true]
      · simp [h]

theorem child_refreshed (patchedAt : Int) (key : EdgeKey) :
    (refreshed filesystem live c fid patchedAt).child key = c.child key := by
  unfold refreshed
  split
  · exact child_patched key _ _ _
  · rfl

theorem child_truncated (clock : EventClock) (key : EdgeKey) :
    (truncated filesystem live c fid clock).child key =
      (restated filesystem live c fid none [] clock.now).child key := by
  unfold truncated restated
  split
  · unfold Catalog.upserted
    split_ifs
    · exact child_refreshed clock.patchedAt key
    · rfl
  · rfl

theorem child_applied_metadataOnly {event : ChangelogEvent} (h : metadataOnly event = some (fid, parent))
    (eventTime : Int) (clock : EventClock) (key : EdgeKey) :
    (applied filesystem live c event eventTime clock).child key =
      if restatEdge filesystem live c fid parent = some key then some (.lustre fid) else c.child key := by
  cases event with
  | setAttr f | mTime f | cTime f =>
    cases h
    exact child_restated clock.now (by simp) key
  | truncate =>
    cases h
    exact (child_truncated clock key).trans (child_restated clock.now (by simp) key)
  | close f p name =>
    cases name with
    | cons => cases h
    | nil =>
      cases h
      refine child_restated clock.now (fun q hq => ?_) key
      split_ifs at hq with hzero
      cases hq
      simpa using hzero
  | _ => cases h

end Metadata

/-- **When a change of metadata leaves the namespace alone**: the name that the row remembers leads to the
object, or nothing is written. -/
theorem metadata_leaves_edges_iff {filesystem : FileSystemId} {live : LustreMount} {c : Catalog}
    {event : ChangelogEvent} {fid : LuFid} {parent : Option LuFid}
    (h : metadataOnly event = some (fid, parent)) (eventTime : Int) (clock : EventClock) :
    ((applyEvent filesystem live event eventTime clock).run c).2.edges = c.edges ↔
      ∀ key, restatEdge filesystem live c fid parent = some key → c.child key = some (.lustre fid) := by
  have hchild := @child_applied_metadataOnly filesystem live c fid parent event h eventTime clock
  rw [run_applyEvent_snd]
  constructor
  · intro hedges key hkey
    have hafter := hchild key
    rw [if_pos hkey, Catalog.child, hedges] at hafter
    exact hafter
  · intro hremembered
    refine Std.ExtTreeMap.ext_getElem? fun key => (hchild key).trans ?_
    split_ifs with hkey
    · exact (hremembered key hkey).symm
    · rfl

/-- A change of the only name's metadata leaves the edges. -/
theorem setAttr_leaves_edges :
    ((applyEvent lustre (Ingest.Sample.mount 2 []) (.setAttr five) 7 ⟨7, 7⟩).run
        (afterCalls lustre Store.Sample.empty linked)).2.edges =
      (afterCalls lustre Store.Sample.empty linked).edges := by
  have hedge : restatEdge lustre (Ingest.Sample.mount 2 [])
      (afterCalls lustre Store.Sample.empty linked) five none = some ⟨.lustre dir, b⟩ := by decide +kernel
  refine (metadata_leaves_edges_iff rfl 7 ⟨7, 7⟩).2 fun key hkey => ?_
  obtain rfl := Option.some.inj (hedge.symm.trans hkey)
  decide +kernel

/-- `b` is unlinked and another file takes the name; when the mode of the first file changes, the name leads
to the first file again. -/
def relinked : List LustreCall :=
  linked ++ [at7 (Ingest.Sample.mount 1 []) (.unlink five dir b false false),
    at7 (Ingest.Sample.mount 1 []) (.create six dir b none none none)]

theorem setAttr_takes_name_back :
    Reachable lustre (afterCalls lustre Store.Sample.empty relinked) ∧
      (afterCalls lustre Store.Sample.empty relinked).child ⟨.lustre dir, b⟩ = some (.lustre six) ∧
      ((applyEvent lustre (Ingest.Sample.mount 1 []) (.setAttr five) 7 ⟨7, 7⟩).run
        (afterCalls lustre Store.Sample.empty relinked)).2.child ⟨.lustre dir, b⟩ = some (.lustre five) :=
  ⟨reachable relinked, by decide +kernel, by decide +kernel⟩

end Robinhood.Lustre
