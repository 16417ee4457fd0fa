/-
# Lustre.Rename — one name moves

`rename_lustre_entry` drops every name of the object it moves and writes the new one, and it removes the
object that had the new name, with all of that object's names.  This is what a rename should do for objects
with one name each; the result says what is needed in general.
-/
import Mathlib
import Robinhood.Lustre.Namespace

namespace Robinhood.Lustre

open Lib Store Changelog Ingest Scan
open Posix (Name)

/-! ## §1 — The catalog after a rename -/

section Renamed

variable {filesystem : FileSystemId} {c : Catalog} {entry : EntryRow} {rmTime : Int}

theorem displaced_eq_some_iff (h : LustreOnly filesystem c) {g : LuFid} :
    c.displaced entry = some g ↔
      ∃ key, edgeOf entry = some key ∧ c.child key = some (.lustre g) ∧ g ≠ entry.fid := by
  unfold Catalog.displaced edgeOf
  cases entry.parentFid with
  | none => simp
  | some =>
    simp only [Option.bind_some, Option.map_some, Option.some.injEq, exists_eq_left',
      Option.map_eq_some_iff, Option.filter_eq_some_iff]
    constructor
    · rintro ⟨object, ⟨hchild, hne⟩, hdecode⟩
      obtain ⟨fid, rfl⟩ := h.edges _ _ hchild
      obtain rfl : fid = g := hdecode
      exact ⟨hchild, by simpa using hne⟩
    · rintro ⟨hchild, hne⟩
      exact ⟨.lustre g, ⟨hchild, by simpa using hne⟩, rfl⟩

theorem displacedReadable_of_lustreOnly (h : LustreOnly filesystem c) :
    c.displacedReadable filesystem entry := by
  intro fid _
  obtain ⟨-, hread⟩ | ⟨e, -, -, hread⟩ := h.scopedEntry_cases fid
  · exact ⟨_, hread⟩
  · exact ⟨_, hread⟩

theorem child_withoutLustre (h : LustreOnly filesystem c) (g : LuFid) (key : EdgeKey) :
    (c.withoutLustre filesystem g rmTime).child key =
      if c.row (.lustre g) = none then c.child key
      else (c.child key).filter fun v => !decide (v = .lustre g) := by
  unfold Catalog.withoutLustre
  obtain ⟨hnone, hread⟩ | ⟨e, -, hrow, hread⟩ := h.scopedEntry_cases g
  · simp [hread, hnone]
  · simp [hread, hrow, Catalog.moveToRemoved]

theorem row_vacated_self (h : LustreOnly filesystem c) :
    (c.vacated filesystem entry rmTime).row (.lustre entry.fid) = c.row (.lustre entry.fid) := by
  unfold Catalog.vacated
  cases hdisplaced : c.displaced entry with
  | none => rfl
  | some =>
    obtain ⟨-, -, -, hne⟩ := (displaced_eq_some_iff h).1 hdisplaced
    dsimp only
    rw [Catalog.row_dropEdgesOf, Catalog.withoutLustre]
    split
    · simp [Catalog.moveToRemoved, hne]
    · rfl

theorem renamed_eq (h : LustreOnly filesystem c) : c.renamed filesystem entry rmTime =
    ((c.vacated filesystem entry rmTime).putRow (.lustre entry.fid)
      (.fromLustre filesystem entry)).putParentEdge entry := by
  unfold Catalog.renamed
  rw [if_pos (displacedReadable_of_lustreOnly h), if_pos h.registered.admits]

theorem child_vacated_eq_some_iff (h : LustreOnly filesystem c) {target key : EdgeKey} {object : ObjectId}
    (htarget : edgeOf entry = some target) :
    (c.vacated filesystem entry rmTime).child key = some object ↔
      c.child key = some object ∧ object ≠ .lustre entry.fid ∧
        (c.child target = some object → c.row object = none) := by
  unfold Catalog.vacated
  cases hdisplaced : c.displaced entry with
  | none =>
    have hfree : c.child target = some object → object = .lustre entry.fid := by
      intro hobject
      obtain ⟨g, rfl⟩ := h.edges _ _ hobject
      by_contra hne
      have := (displaced_eq_some_iff h).2 ⟨target, htarget, hobject, fun e => hne (e ▸ rfl)⟩
      rw [hdisplaced] at this
      cases this
    simp only [Catalog.child_dropEdgesOf, Option.filter_eq_some_iff]
    constructor
    · rintro ⟨hchild, hne⟩
      have hne' : object ≠ .lustre entry.fid := by simpa using hne
      exact ⟨hchild, hne', fun ht => absurd (hfree ht) hne'⟩
    · rintro ⟨hchild, hne, -⟩
      exact ⟨hchild, by simpa using hne⟩
  | some =>
    obtain ⟨key', hkey', hg, hne⟩ := (displaced_eq_some_iff h).1 hdisplaced
    obtain rfl := Option.some.inj (htarget.symm.trans hkey')
    simp only [Catalog.child_dropEdgesOf, child_withoutLustre h, Option.filter_eq_some_iff]
    split_ifs with hrow
    · constructor
      · rintro ⟨hchild, hf⟩
        refine ⟨hchild, by simpa using hf, fun ht => ?_⟩
        rwa [← Option.some.inj (hg.symm.trans ht)]
      · rintro ⟨hchild, hf, -⟩
        exact ⟨hchild, by simpa using hf⟩
    · simp only [Option.filter_eq_some_iff]
      constructor
      · rintro ⟨⟨hchild, hg'⟩, hf⟩
        refine ⟨hchild, by simpa using hf, fun ht => ?_⟩
        obtain rfl := Option.some.inj (hg.symm.trans ht)
        simp at hg'
      · rintro ⟨hchild, hf, hobject⟩
        refine ⟨⟨hchild, ?_⟩, by simpa using hf⟩
        rw [Bool.not_eq_true', decide_eq_false_iff_not]
        rintro rfl
        exact hrow (hobject hg)

/-- **The edges after a rename**: the new name leads to the object; every other edge stays unless it is one
of the object itself, or of an object in the catalog that had the new name. -/
theorem child_renamed_eq_some_iff (h : LustreOnly filesystem c) {target key : EdgeKey} {object : ObjectId}
    (htarget : edgeOf entry = some target) :
    (c.renamed filesystem entry rmTime).child key = some object ↔
      if target = key then object = .lustre entry.fid
      else c.child key = some object ∧ object ≠ .lustre entry.fid ∧
        (c.child target = some object → c.row object = none) := by
  rw [renamed_eq h, child_putParentEdge, htarget]
  by_cases hkey : target = key
  · rw [if_pos (congrArg some hkey), if_pos hkey, Option.some.injEq, eq_comm]
  · rw [if_neg fun e => hkey (Option.some.inj e), if_neg hkey]
    exact child_vacated_eq_some_iff h htarget

def MovedToRemoved (c d : Catalog) (object : ObjectId) (rmTime : Int) : Prop :=
  ∃ row, c.row object = some row ∧ d.row object = none ∧ d.removed[object]? = some ⟨row, rmTime⟩

theorem movedToRemoved_renamed_iff (h : LustreOnly filesystem c) {target : EdgeKey} {g : ObjectId}
    (htarget : edgeOf entry = some target) (hg : c.child target = some g) (hne : g ≠ .lustre entry.fid) :
    MovedToRemoved c (c.renamed filesystem entry rmTime) g rmTime ↔ c.row g ≠ none := by
  constructor
  · rintro ⟨row, hrow, -⟩ hnone
    rw [hrow] at hnone
    cases hnone
  · intro hrow
    obtain ⟨g, rfl⟩ := h.edges _ _ hg
    have hdisplaced : c.displaced entry = some g :=
      (displaced_eq_some_iff h).2 ⟨target, htarget, hg, fun e => hne (e ▸ rfl)⟩
    obtain ⟨hnone, -⟩ | ⟨e, rfl, hsome, hread⟩ := h.scopedEntry_cases g
    · exact absurd hnone hrow
    · refine ⟨_, hsome, ?_, ?_⟩
      · rw [renamed_eq h]
        simp [Catalog.vacated, hdisplaced, Catalog.withoutLustre, hread, Catalog.moveToRemoved,
          row_putParentEdge, hne.symm]
      · rw [renamed_eq h]
        simp [Catalog.vacated, hdisplaced, Catalog.withoutLustre, hread, Catalog.moveToRemoved,
          removed_putParentEdge]

end Renamed

/-! ## §2 — What a rename should do -/

/-- **One name moves**: the new name leads to the object, or is free if the object is not known and not
there; the old name does not; other names of the object and of others stay; an object that had the new name
is removed if that was its last. -/
structure MovesOneName (live : LustreMount) (c d : Catalog) (fid : LuFid) (source target : EdgeKey)
    (rmTime : Int) : Prop where
  arrives : d.child target = some (.lustre fid) ∨
    c.row (.lustre fid) = none ∧ liveMetadata live fid = none ∧ d.child target = none
  leaves : d.child source ≠ some (.lustre fid)
  keeps : ∀ key, key ≠ target → key ≠ source → c.child key = some (.lustre fid) →
    d.child key = some (.lustre fid)
  displaces : ∀ g, g ≠ .lustre fid → c.child target = some g →
    (MovedToRemoved c d g rmTime ↔ ∀ key, c.child key = some g → key = target)
  spares : ∀ key, key ≠ target → ∀ g, g ≠ .lustre fid → (d.child key = some g ↔ c.child key = some g)

/-- **What that takes.**  Of an object that is known or there: the two names differ, it has no third one,
and an object under the new name is in the catalog exactly if it has no other name; and there is a parent to
write.  Of another: the new name is free, and the old one does not lead to the object. -/
def Movable (live : LustreMount) (c : Catalog) (fid : LuFid) (source : EdgeKey) (parent : LuFid)
    (name : Name) : Prop :=
  if c.row (.lustre fid) = none ∧ liveMetadata live fid = none then
    (∀ g, c.child ⟨.lustre parent, name⟩ = some g → g = .lustre fid) ∧ c.child source ≠ some (.lustre fid)
  else
    (c.row (.lustre fid) = none → parent.isZero = false) ∧ source ≠ ⟨.lustre parent, name⟩ ∧
      (∀ key, c.child key = some (.lustre fid) → key = ⟨.lustre parent, name⟩ ∨ key = source) ∧
      ∀ g, g ≠ .lustre fid → c.child ⟨.lustre parent, name⟩ = some g →
        (c.row g ≠ none ↔ ∀ key, c.child key = some g → key = ⟨.lustre parent, name⟩)

section Moves

variable {filesystem : FileSystemId} {live : LustreMount} {c : Catalog} {fid : LuFid}
  {source target : EdgeKey} {rmTime : Int}

theorem movesOneName_renamed_iff {entry : EntryRow} (h : LustreOnly filesystem c) (hfid : entry.fid = fid)
    (htarget : edgeOf entry = some target) :
    MovesOneName live c (c.renamed filesystem entry rmTime) fid source target rmTime ↔
      source ≠ target ∧ (∀ key, c.child key = some (.lustre fid) → key = target ∨ key = source) ∧
      ∀ g, g ≠ .lustre fid → c.child target = some g →
        (c.row g ≠ none ↔ ∀ key, c.child key = some g → key = target) := by
  subst hfid
  have hat : (c.renamed filesystem entry rmTime).child target = some (.lustre entry.fid) :=
    (child_renamed_eq_some_iff h htarget).2 (by rw [if_pos rfl])
  have hoff : ∀ key, key ≠ target → ∀ g, (c.renamed filesystem entry rmTime).child key = some g ↔
      c.child key = some g ∧ g ≠ .lustre entry.fid ∧ (c.child target = some g → c.row g = none) := by
    intro key hkey g
    rw [child_renamed_eq_some_iff h htarget, if_neg hkey.symm]
  constructor
  · intro hm
    have hsource : source ≠ target := by
      rintro rfl
      exact hm.leaves hat
    refine ⟨hsource, fun key hkey => ?_, fun g hg hchild => ?_⟩
    · -- a third name would have been dropped
      by_contra hthird
      obtain ⟨hne, hne'⟩ := not_or.1 hthird
      exact ((hoff key hne _).1 (hm.keeps key hne hne' hkey)).2.1 rfl
    · rw [← movedToRemoved_renamed_iff h htarget hchild hg]
      exact hm.displaces g hg hchild
  · rintro ⟨hsource, honly, hdisplaced⟩
    refine ⟨.inl hat, fun hleft => ((hoff source hsource _).1 hleft).2.1 rfl, ?_, ?_, ?_⟩
    · intro key htgt hsrc hkey
      exact absurd (honly key hkey) (not_or.2 ⟨htgt, hsrc⟩)
    · intro g hg hchild
      rw [movedToRemoved_renamed_iff h htarget hchild hg]
      exact hdisplaced g hg hchild
    · intro key hkey g hg
      rw [hoff key hkey]
      refine ⟨And.left, fun hchild => ⟨hchild, hg, fun ht => ?_⟩⟩
      by_contra hrow
      exact hkey ((hdisplaced g hg ht).1 hrow key hchild)

theorem child_renamed_ne {entry : EntryRow} (h : LustreOnly filesystem c) (hnone : edgeOf entry = none)
    (key : EdgeKey) : (c.renamed filesystem entry rmTime).child key ≠ some (.lustre entry.fid) := by
  rw [renamed_eq h, child_putParentEdge, hnone]
  simp only [reduceCtorEq, if_false, Catalog.child_putRow, Catalog.vacated, Catalog.child_dropEdgesOf]
  intro hchild
  simp [Option.filter_eq_some_iff] at hchild

end Moves

/-- **When a rename moves one name.**  In every reachable catalog, a rename that returns Ok moves exactly one
name if and only if the names of the object, and of the object under the new name, are as `Movable` asks. -/
theorem rename_moves_one_name_iff {filesystem : FileSystemId} {live : LustreMount} {c d : Catalog}
    {fid parent srcParent : LuFid} {name srcName : Name} {eventTime : Int} {clock : EventClock} {b : Bool}
    (hreach : Reachable filesystem c)
    (hrun : (applyEvent filesystem live (.rename fid parent name srcParent srcName) eventTime clock).run c =
      (.ok b, d)) :
    MovesOneName live c d fid ⟨.lustre srcParent, srcName⟩ ⟨.lustre parent, name⟩ eventTime ↔
      Movable live c fid ⟨.lustre srcParent, srcName⟩ parent name := by
  have h := hreach.lustreOnly
  obtain rfl : applied filesystem live c (.rename fid parent name srcParent srcName) eventTime clock = d := by
    rw [← run_applyEvent_snd, hrun]
  unfold Movable
  rw [applied]
  obtain ⟨hnone, hread⟩ | ⟨entry, rfl, hrow, hread⟩ := h.lustreEntry_cases fid
  · rw [hread]
    cases hstat : statEntryByFid live fid (some parent) name clock.now with
    | error e =>
      -- the object is not known and not there: nothing changes
      have hgone := (statEntryByFid_eq_error_iff fid (some parent) name clock.now).1 ⟨e, hstat⟩
      rw [if_pos ⟨hnone, hgone⟩]
      constructor
      · intro hm
        refine ⟨fun g hg => ?_, hm.leaves⟩
        obtain hf | ⟨-, -, hfree⟩ := hm.arrives
        · exact Option.some.inj (hg.symm.trans hf)
        · rw [hg] at hfree
          cases hfree
      · rintro ⟨htarget, hsource⟩
        refine ⟨?_, hsource, fun _ _ _ hkey => hkey, fun g hg hchild => absurd (htarget g hchild) hg,
          fun _ _ _ _ => Iff.rfl⟩
        cases hchild : c.child ⟨.lustre parent, name⟩ with
        | none => exact .inr ⟨hnone, hgone, rfl⟩
        | some g => exact .inl (congrArg some (htarget g hchild))
    | ok entry =>
      obtain ⟨hfid, hparent, hname, -, -, md, hmd, -⟩ := statEntryByFid_ok hstat
      have hthere : ¬ (c.row (.lustre fid) = none ∧ liveMetadata live fid = none) := by simp [hmd]
      rw [if_neg hthere]
      by_cases hzero : parent.isZero = true
      · -- no parent to write: the object is left without a name
        have hedge : edgeOf entry = none := by simp [edgeOf, hparent, hzero]
        refine iff_of_false (fun hm => ?_) fun hmovable => ?_
        · obtain hf | ⟨-, hgone, -⟩ := hm.arrives
          · exact child_renamed_ne h hedge _ (hfid ▸ hf)
          · rw [hmd] at hgone
            cases hgone
        · rw [hmovable.1 hnone] at hzero
          cases hzero
      · have hedge : edgeOf entry = some ⟨.lustre parent, name⟩ := by
          simp [edgeOf, hparent, hname, hzero]
        rw [movesOneName_renamed_iff h hfid hedge]
        exact (and_iff_right fun _ => by simpa using hzero).symm
  · have hthere : ¬ (c.row (.lustre entry.fid) = none ∧ liveMetadata live entry.fid = none) := by simp [hrow]
    rw [hread, if_neg hthere]
    have hmoved : (moved entry parent name clock.now).fid = entry.fid := rfl
    refine (movesOneName_renamed_iff h hmoved rfl).trans (and_iff_right ?_).symm
    intro hnone
    rw [hrow] at hnone
    cases hnone

open Store.Sample (lustre)
open Sample (five six dir a b at7 linked reachable)

/-- The file 5 has one name, and it moves. -/
theorem single_name_moves :
    MovesOneName (Ingest.Sample.mount 1 []) (afterCalls lustre Store.Sample.empty (linked.take 1))
      ((applyEvent lustre (Ingest.Sample.mount 1 []) (.rename five dir b dir a) 7 ⟨7, 7⟩).run
        (afterCalls lustre Store.Sample.empty (linked.take 1))).2 five ⟨.lustre dir, a⟩ ⟨.lustre dir, b⟩ 7 := by
  have hok : ((applyEvent lustre (Ingest.Sample.mount 1 []) (.rename five dir b dir a) 7 ⟨7, 7⟩).run
      (afterCalls lustre Store.Sample.empty (linked.take 1))).1 = .ok true := by decide +kernel
  have hrow : (afterCalls lustre Store.Sample.empty (linked.take 1)).row (.lustre five) ≠ none := by
    decide +kernel
  have hedges : (afterCalls lustre Store.Sample.empty (linked.take 1)).edges =
      (∅ : Table EdgeKey ObjectId).insert ⟨.lustre dir, a⟩ (.lustre five) := by decide +kernel
  refine (rename_moves_one_name_iff (reachable _) (Prod.ext hok rfl)).2 ?_
  rw [Movable, if_neg fun h => hrow h.1]
  refine ⟨fun hnone => absurd hnone hrow, by decide, fun key hkey => ?_, fun g _ hg => ?_⟩
  · rw [Catalog.child, hedges, Std.ExtTreeMap.getElem?_insert] at hkey
    split_ifs at hkey with heq
    · exact .inr (Std.LawfulEqCmp.compare_eq_iff_eq.1 heq).symm
    · simp at hkey
  · have hfree : (afterCalls lustre Store.Sample.empty (linked.take 1)).child ⟨.lustre dir, b⟩ = none := by
      decide +kernel
    rw [hfree] at hg
    cases hg

/-- The file 5 has two names, `a` and `b`.  When `a` is moved to `c`, `b` is gone too. -/
theorem other_name_lost :
    Reachable lustre (afterCalls lustre Store.Sample.empty linked) ∧
      ((applyEvent lustre (Ingest.Sample.mount 2 []) (.rename five dir [99] dir a) 7 ⟨7, 7⟩).run
        (afterCalls lustre Store.Sample.empty linked)).1 = .ok true ∧
      (afterCalls lustre Store.Sample.empty linked).child ⟨.lustre dir, b⟩ = some (.lustre five) ∧
      ((applyEvent lustre (Ingest.Sample.mount 2 []) (.rename five dir [99] dir a) 7 ⟨7, 7⟩).run
        (afterCalls lustre Store.Sample.empty linked)).2.child ⟨.lustre dir, b⟩ = none :=
  ⟨reachable linked, by decide +kernel, by decide +kernel, by decide +kernel⟩

end Robinhood.Lustre
