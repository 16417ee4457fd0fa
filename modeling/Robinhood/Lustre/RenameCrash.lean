/-
# Lustre.RenameCrash — a rename that is cut and applied again

A cursor is committed after the record it stands for was applied, so after a crash the last records come
again.  `rename_lustre_entry` is several statements outside any transaction; the second application finds
what the first has left of them.  The catalogs are compared up to the times in them.
-/
import Mathlib
import Robinhood.Lustre.Namespace

namespace Robinhood.Lustre

open Lib Store Changelog Ingest
open Posix (Name)

/-! ## §1 — Catalogs that differ in times only -/

def SeenAlike (e e' : ScopedEntryRow) : Prop := { e with lastSeen := 0 } = { e' with lastSeen := 0 }

/-- **The catalogs are alike**: the same edges, stripe rows and removed entries, and rows under the same
objects that agree as `same` says. -/
structure Alike (same : ScopedEntryRow → ScopedEntryRow → Prop) (c d : Catalog) : Prop where
  rows : ∀ o, Option.Rel same (c.row o) (d.row o)
  edges : c.edges = d.edges
  stripeItems : c.stripeItems = d.stripeItems
  removed : c.removed = d.removed

section Alike

variable {same : ScopedEntryRow → ScopedEntryRow → Prop} {c d : Catalog}

theorem Alike.refl (hrefl : ∀ e, same e e) (c : Catalog) : Alike same c c where
  rows o := by
    cases c.row o with
    | none => exact .none
    | some e => exact .some (hrefl e)
  edges := rfl
  stripeItems := rfl
  removed := rfl

theorem Alike.putRow (h : Alike same c d) {e e' : ScopedEntryRow} (he : same e e') (object : ObjectId) :
    Alike same (c.putRow object e) (d.putRow object e') where
  rows o := by
    rw [Catalog.row_putRow, Catalog.row_putRow]
    split_ifs
    · exact .some he
    · exact h.rows o
  edges := h.edges
  stripeItems := h.stripeItems
  removed := h.removed

theorem Alike.putParentEdge (h : Alike same c d) {entry entry' : EntryRow} (hfid : entry'.fid = entry.fid)
    (hparent : entry'.parentFid = entry.parentFid) (hname : entry'.name = entry.name) :
    Alike same (c.putParentEdge entry) (d.putParentEdge entry') := by
  unfold Catalog.putParentEdge
  rw [hparent]
  cases entry.parentFid with
  | none => exact h
  | some =>
    exact ⟨h.rows, by simp only [Catalog.putEdge, h.edges, hfid, hname], h.stripeItems, h.removed⟩

theorem seenAlike_refl (e : ScopedEntryRow) : SeenAlike e e := rfl

theorem seenAlike_fromLustre (filesystem : FileSystemId) (entry : EntryRow) (now : Int) :
    SeenAlike (.fromLustre filesystem { entry with lastSeen := now }) (.fromLustre filesystem entry) :=
  rfl

end Alike

/-! ## §2 — A rename again

`rename_lustre_entry` looks up what it displaces, removes that, drops the names of the object, writes
its row and its new name, each in a statement of its own. -/

section Rename

variable {filesystem : FileSystemId} {c d : Catalog} {entry : EntryRow} {rmTime : Int}

def withoutDisplaced (filesystem : FileSystemId) (c : Catalog) (entry : EntryRow) (rmTime : Int) :
    Catalog :=
  match c.displaced entry with
  | some fid => c.withoutLustre filesystem fid rmTime
  | none => c

theorem vacated_eq : c.vacated filesystem entry rmTime =
    (withoutDisplaced filesystem c entry rmTime).dropEdgesOf (.lustre entry.fid) := rfl

theorem displaced_eq_some {g : LuFid} :
    c.displaced entry = some g ↔ ∃ key object, edgeOf entry = some key ∧ c.child key = some object ∧
      object ≠ .lustre entry.fid ∧ object.decodeFid = g := by
  unfold Catalog.displaced edgeOf
  cases entry.parentFid with
  | none => simp
  | some => simp [Option.map_eq_some_iff, Option.filter_eq_some_iff, and_assoc]

def Vacant (c : Catalog) (entry : EntryRow) : Prop :=
  ∀ g, c.displaced entry = some g → c.row (.lustre g) = none

theorem scopedEntry_of_row_none {key : EntryKey} (h : c.row key.object = none) :
    c.scopedEntry key = .ok none := by
  rw [Catalog.scopedEntry, h]

theorem row_none_of_scopedEntry {key : EntryKey} (h : c.scopedEntry key = .ok none) :
    c.row key.object = none := by
  rw [Catalog.scopedEntry] at h
  split at h
  · assumption
  · split_ifs at h
    cases h

theorem withoutLustre_of_row_none {fid : LuFid} (h : c.row (.lustre fid) = none) :
    c.withoutLustre filesystem fid rmTime = c := by
  rw [Catalog.withoutLustre, scopedEntry_of_row_none h]

theorem displaced_mono (h : ∀ key object, d.child key = some object → c.child key = some object)
    {g : LuFid} (hd : d.displaced entry = some g) : c.displaced entry = some g := by
  obtain ⟨key, object, hkey, hchild, hne, hdecode⟩ := displaced_eq_some.1 hd
  exact displaced_eq_some.2 ⟨key, object, hkey, h key object hchild, hne, hdecode⟩

theorem child_of_withoutLustre {fid : LuFid} {key : EdgeKey} {object : ObjectId}
    (h : (c.withoutLustre filesystem fid rmTime).child key = some object) :
    c.child key = some object := by
  unfold Catalog.withoutLustre at h
  split at h
  · simp only [Catalog.moveToRemoved, Catalog.child_dropRow, Catalog.child_dropEdgesOf] at h
    exact (Option.filter_eq_some_iff.1 h).1
  · exact h

/-- **Once the displaced object is removed**, the name is vacant. -/
theorem vacant_withoutDisplaced (h : c.displacedReadable filesystem entry) :
    Vacant (withoutDisplaced filesystem c entry rmTime) entry := by
  unfold withoutDisplaced
  cases hdisplaced : c.displaced entry with
  | none =>
    intro g hg
    rw [hdisplaced] at hg
    cases hg
  | some fid =>
    intro g hg
    have heq := displaced_mono (fun key object => child_of_withoutLustre) hg
    rw [hdisplaced] at heq
    cases heq
    obtain ⟨row, hrow⟩ := h fid hdisplaced
    dsimp only
    cases row with
    | none =>
      have hnone : c.row (.lustre fid) = none := row_none_of_scopedEntry hrow
      rw [withoutLustre_of_row_none hnone, hnone]
    | some => simp [Catalog.withoutLustre, hrow, Catalog.moveToRemoved]

theorem Vacant.of_child (h : Vacant c entry)
    (hchild : ∀ key object, d.child key = some object → c.child key = some object)
    (hrow : ∀ g, d.displaced entry = some g → c.row (.lustre g) = none → d.row (.lustre g) = none) :
    Vacant d entry :=
  fun g hg => hrow g hg (h g (displaced_mono hchild hg))

/-- **A rename onto a vacant name** drops the names of the object and writes the new one. -/
theorem renamed_of_vacant (h : Vacant c entry) : c.renamed filesystem entry rmTime =
    if c.AdmitsLustre then ((c.dropEdgesOf (.lustre entry.fid)).putRow (.lustre entry.fid)
      (.fromLustre filesystem entry)).putParentEdge entry
    else c.dropEdgesOf (.lustre entry.fid) := by
  have hread : c.displacedReadable filesystem entry :=
    fun fid hfid => ⟨none, scopedEntry_of_row_none (h fid hfid)⟩
  have hwithout : withoutDisplaced filesystem c entry rmTime = c := by
    unfold withoutDisplaced
    cases hdisplaced : c.displaced entry with
    | none => rfl
    | some fid => exact withoutLustre_of_row_none (h fid hdisplaced)
  rw [Catalog.renamed, if_pos hread, vacated_eq, hwithout]

/-- **What a crash leaves of a rename**: the slices between its statements, where `row` is the row it
writes. -/
inductive RenameCut (filesystem : FileSystemId) (c : Catalog) (entry : EntryRow) (rmTime : Int)
    (row : ScopedEntryRow) : Catalog → Prop
  | before : RenameCut filesystem c entry rmTime row c
  | removed : c.displacedReadable filesystem entry →
      RenameCut filesystem c entry rmTime row (withoutDisplaced filesystem c entry rmTime)
  | unlinked : c.displacedReadable filesystem entry →
      RenameCut filesystem c entry rmTime row (c.vacated filesystem entry rmTime)
  | written : c.displacedReadable filesystem entry → c.AdmitsLustre →
      RenameCut filesystem c entry rmTime row
        ((c.vacated filesystem entry rmTime).putRow (.lustre entry.fid) row)
  | done : c.displacedReadable filesystem entry → c.AdmitsLustre →
      RenameCut filesystem c entry rmTime row
        (((c.vacated filesystem entry rmTime).putRow (.lustre entry.fid) row).putParentEdge entry)

theorem atomic_removeLustreEntry (fid : LuFid) : (removeLustreEntry filesystem fid rmTime).Atomic := by
  refine Proc.Atomic.ask_bind fun found => ?_
  cases found with
  | none => exact Proc.atomic_pure ()
  | some => exact Proc.atomic_write _

theorem admitsLustre_congr (h : d.filesystem = c.filesystem) : d.AdmitsLustre ↔ c.AdmitsLustre := by
  rw [Catalog.AdmitsLustre, Catalog.AdmitsLustre, h]

theorem renameCut_of_readable (h : c.displacedReadable filesystem entry) (n : ℕ) :
    RenameCut filesystem c entry rmTime (.fromLustre filesystem entry) (Proc.crashAfter n
      (do
        Proc.write fun c => c.dropEdgesOf (.lustre entry.fid)
        upsertScopedEntry (.fromLustre filesystem entry)
        match entry.parentFid with
        | some parent =>
          upsertScopedNamespaceEdge ⟨filesystem, .lustre parent, entry.name, .lustre entry.fid⟩
        | none => pure () : StoreProc Unit)
      (withoutDisplaced filesystem c entry rmTime)) := by
  refine (Proc.atomic_write _).crash_bind (.removed h) fun _ _ m hdrop => ?_
  cases hdrop
  refine (atomic_upsertScopedEntry _).crash_bind (.unlinked h) fun _ _ l hrow => ?_
  obtain ⟨haccepts, rfl⟩ := run_upsertScopedEntry_ok.1 hrow
  have hadmits : c.AdmitsLustre :=
    (admitsLustre_congr (Catalog.filesystem_vacated ..)).1 (Catalog.accepts_fromLustre.1 haccepts)
  have hwritten : RenameCut filesystem c entry rmTime (.fromLustre filesystem entry) _ := .written h hadmits
  cases hparent : entry.parentFid with
  | none =>
    refine (Proc.atomic_pure ()).crash hwritten fun _ _ hrun => ?_
    cases hrun
    exact hwritten
  | some =>
    refine (atomic_upsertScopedNamespaceEdge _).crash hwritten fun _ _ hrun => ?_
    cases hrun
    have hdone : RenameCut filesystem c entry rmTime (.fromLustre filesystem entry) _ := .done h hadmits
    rw [Catalog.putParentEdge, hparent] at hdone
    exact hdone

/-- **A crash in a rename** leaves one of them. -/
theorem renameCut_crashAfter (n : ℕ) :
    RenameCut filesystem c entry rmTime (.fromLustre filesystem entry)
      (Proc.crashAfter n (renameLustreEntry filesystem entry rmTime) c) := by
  refine (Proc.atomic_read _).crash_bind .before fun _ _ m hread => ?_
  cases hread
  dsimp only [id]
  have hrest := @renameCut_of_readable filesystem c entry rmTime
  unfold withoutDisplaced at hrest
  cases hdisplaced : c.displaced entry with
  | none =>
    rw [hdisplaced] at hrest
    refine hrest (fun fid hfid => ?_) m
    rw [hdisplaced] at hfid
    cases hfid
  | some fid =>
    rw [hdisplaced] at hrest
    refine (atomic_removeLustreEntry fid).crash_bind .before fun _ _ l hremove => ?_
    rw [run_removeLustreEntry] at hremove
    obtain ⟨hok, rfl⟩ := Prod.mk.inj hremove
    refine hrest (fun fid' hfid => ?_) l
    rw [hdisplaced] at hfid
    cases hfid
    cases hscoped : c.scopedEntry ⟨filesystem, .lustre fid⟩ with
    | ok row => exact ⟨row, rfl⟩
    | error =>
      rw [hscoped] at hok
      cases hok

theorem putRow_over (object : ObjectId) (row row' : ScopedEntryRow) :
    (c.putRow object row).putRow object row' = c.putRow object row' := by
  refine Catalog.ext_lookup rfl (fun o => ?_) (fun _ => rfl) rfl rfl rfl
  simp only [Catalog.row_putRow]
  split_ifs <;> rfl

theorem dropEdgesOf_dropEdgesOf (object : ObjectId) :
    (c.dropEdgesOf object).dropEdgesOf object = c.dropEdgesOf object := by
  refine Catalog.ext_lookup rfl (fun _ => rfl) (fun key => ?_) rfl rfl rfl
  simp only [Catalog.child_dropEdgesOf]
  cases c.child key with
  | none => rfl
  | some o => by_cases ho : o = object <;> simp [ho]

theorem putParentEdge_again (row : ScopedEntryRow) (hdrop : c.dropEdgesOf (.lustre entry.fid) = c) :
    ((((c.putRow (.lustre entry.fid) row).putParentEdge entry).dropEdgesOf (.lustre entry.fid)).putRow
      (.lustre entry.fid) (.fromLustre filesystem entry)).putParentEdge entry =
    (c.putRow (.lustre entry.fid) (.fromLustre filesystem entry)).putParentEdge entry := by
  have hchild : ∀ key, (c.child key).filter (fun v => !decide (v = .lustre entry.fid)) = c.child key :=
    fun key => by rw [← Catalog.child_dropEdgesOf, hdrop]
  unfold Catalog.putParentEdge
  cases entry.parentFid with
  | none =>
    refine Catalog.ext_lookup rfl (fun o => ?_) (fun key => ?_) rfl rfl rfl
    · simp only [Catalog.row_putRow, Catalog.row_dropEdgesOf]
      split_ifs <;> rfl
    · simp only [Catalog.child_putRow, Catalog.child_dropEdgesOf, hchild]
  | some =>
    refine Catalog.ext_lookup rfl (fun o => ?_) (fun key => ?_) rfl rfl rfl
    · simp only [Catalog.row_putEdge, Catalog.row_putRow, Catalog.row_dropEdgesOf]
      split_ifs <;> rfl
    · simp only [Catalog.child_putEdge, Catalog.child_putRow, Catalog.child_dropEdgesOf]
      split_ifs
      · rfl
      · exact hchild key

theorem filesystem_withoutDisplaced :
    (withoutDisplaced filesystem c entry rmTime).filesystem = c.filesystem := by
  unfold withoutDisplaced
  split <;> simp

theorem row_withoutDisplaced_self (hown : c.displaced entry ≠ some entry.fid) :
    (withoutDisplaced filesystem c entry rmTime).row (.lustre entry.fid) =
      c.row (.lustre entry.fid) := by
  unfold withoutDisplaced
  cases hdisplaced : c.displaced entry with
  | none => rfl
  | some fid =>
    have hne : fid ≠ entry.fid := fun heq => hown (heq ▸ hdisplaced)
    unfold Catalog.withoutLustre
    dsimp only
    split
    · simp [Catalog.moveToRemoved, hne]
    · rfl

theorem displaced_putParentEdge : (c.putParentEdge entry).displaced entry = none := by
  unfold Catalog.displaced Catalog.putParentEdge
  cases entry.parentFid <;> simp

theorem filesystem_putParentEdge : (c.putParentEdge entry).filesystem = c.filesystem := by
  unfold Catalog.putParentEdge
  split <;> rfl

theorem child_of_vacated {key : EdgeKey} {object : ObjectId}
    (h : (c.vacated filesystem entry rmTime).child key = some object) : c.child key = some object := by
  rw [vacated_eq, Catalog.child_dropEdgesOf] at h
  have hchild := (Option.filter_eq_some_iff.1 h).1
  unfold withoutDisplaced at hchild
  split at hchild
  · exact child_of_withoutLustre hchild
  · exact hchild

theorem vacant_vacated (h : c.displacedReadable filesystem entry) :
    Vacant (c.vacated filesystem entry rmTime) entry := by
  refine (vacant_withoutDisplaced h).of_child (fun key object hchild => ?_) fun _ _ hrow => hrow
  rw [vacated_eq, Catalog.child_dropEdgesOf] at hchild
  exact (Option.filter_eq_some_iff.1 hchild).1

theorem RenameCut.atTime {row : ScopedEntryRow} (h : RenameCut filesystem c entry rmTime row d)
    (now : Int) : RenameCut filesystem c { entry with lastSeen := now } rmTime row d := by
  cases h with
  | before => exact .before
  | removed hread => exact .removed hread
  | unlinked hread => exact .unlinked hread
  | written hread hadmits => exact .written hread hadmits
  | done hread hadmits => exact .done hread hadmits

theorem dropEdgesOf_vacated : (c.vacated filesystem entry rmTime).dropEdgesOf (.lustre entry.fid) =
    c.vacated filesystem entry rmTime :=
  dropEdgesOf_dropEdgesOf _

theorem renamed_of_admits (hread : c.displacedReadable filesystem entry) (hadmits : c.AdmitsLustre) :
    c.renamed filesystem entry rmTime = ((c.vacated filesystem entry rmTime).putRow (.lustre entry.fid)
      (.fromLustre filesystem entry)).putParentEdge entry :=
  (if_pos hread).trans (if_pos hadmits)

theorem renamed_of_not_admits (hread : c.displacedReadable filesystem entry)
    (hadmits : ¬ c.AdmitsLustre) :
    c.renamed filesystem entry rmTime = c.vacated filesystem entry rmTime :=
  (if_pos hread).trans (if_neg hadmits)

theorem admitsLustre_vacated :
    (c.vacated filesystem entry rmTime).AdmitsLustre ↔ c.AdmitsLustre :=
  admitsLustre_congr (Catalog.filesystem_vacated c entry rmTime)

theorem renamed_vacated (hread : c.displacedReadable filesystem entry) :
    (c.vacated filesystem entry rmTime).renamed filesystem entry rmTime =
      c.renamed filesystem entry rmTime := by
  rw [renamed_of_vacant (vacant_vacated hread), dropEdgesOf_vacated]
  by_cases hadmits : c.AdmitsLustre
  · rw [if_pos (admitsLustre_vacated.2 hadmits), renamed_of_admits hread hadmits]
  · rw [if_neg (mt admitsLustre_vacated.1 hadmits), renamed_of_not_admits hread hadmits]

/-- **A rename that was done** is done over. -/
theorem renamed_done (row : ScopedEntryRow) (hread : c.displacedReadable filesystem entry)
    (hadmits : c.AdmitsLustre) :
    (((c.vacated filesystem entry rmTime).putRow (.lustre entry.fid) row).putParentEdge entry).renamed
      filesystem entry rmTime = c.renamed filesystem entry rmTime := by
  have hvacant : Vacant (((c.vacated filesystem entry rmTime).putRow (.lustre entry.fid)
      row).putParentEdge entry) entry := by
    intro g hg
    rw [displaced_putParentEdge] at hg
    cases hg
  have hadmits' : (((c.vacated filesystem entry rmTime).putRow (.lustre entry.fid)
      row).putParentEdge entry).AdmitsLustre := by
    refine (admitsLustre_congr ?_).2 hadmits
    rw [filesystem_putParentEdge]
    exact Catalog.filesystem_vacated c entry rmTime
  rw [renamed_of_vacant hvacant, if_pos hadmits', putParentEdge_again row dropEdgesOf_vacated,
    renamed_of_admits hread hadmits]

/-- **The rename goes through to the same end** from where it was cut, unless it displaces the very
object it moves. -/
theorem RenameCut.renamed_again {row : ScopedEntryRow} (hown : c.displaced entry ≠ some entry.fid)
    (h : RenameCut filesystem c entry rmTime row d) :
    d.renamed filesystem entry rmTime = c.renamed filesystem entry rmTime := by
  cases h with
  | before => rfl
  | removed hread =>
    rw [renamed_of_vacant (vacant_withoutDisplaced hread), ← vacated_eq]
    simp only [admitsLustre_congr filesystem_withoutDisplaced]
    exact (if_pos hread).symm
  | unlinked hread => exact renamed_vacated hread
  | written hread hadmits =>
    have hvacant : Vacant ((c.vacated filesystem entry rmTime).putRow (.lustre entry.fid) row)
        entry := by
      refine (vacant_vacated hread).of_child (fun _ _ hchild => hchild) fun g hg hnone => ?_
      have hne : ObjectId.lustre entry.fid ≠ .lustre g := by
        rintro heq
        cases heq
        exact hown (displaced_mono (fun key object => child_of_vacated) hg)
      rwa [Catalog.row_putRow, if_neg hne]
    have hadmits' : ((c.vacated filesystem entry rmTime).putRow (.lustre entry.fid) row).AdmitsLustre :=
      admitsLustre_vacated.2 hadmits
    rw [renamed_of_vacant hvacant, if_pos hadmits', renamed_of_admits hread hadmits]
    show ((((c.vacated filesystem entry rmTime).dropEdgesOf (.lustre entry.fid)).putRow _ row).putRow _
      _).putParentEdge entry = _
    rw [dropEdgesOf_vacated, putRow_over]
  | done hread hadmits => exact renamed_done row hread hadmits

theorem RenameCut.row_self {row : ScopedEntryRow} (hown : c.displaced entry ≠ some entry.fid)
    (h : RenameCut filesystem c entry rmTime row d) :
    d.row (.lustre entry.fid) = c.row (.lustre entry.fid) ∨ d.row (.lustre entry.fid) = some row := by
  cases h with
  | before => exact .inl rfl
  | removed => exact .inl (row_withoutDisplaced_self hown)
  | unlinked => exact .inl (row_withoutDisplaced_self hown)
  | written => exact .inr (by simp)
  | done => exact .inr (by rw [row_putParentEdge]; simp)

theorem lustreEntry_congr {fid : LuFid} (h : d.row (.lustre fid) = c.row (.lustre fid)) :
    d.lustreEntry filesystem fid = c.lustreEntry filesystem fid := by
  rw [Catalog.lustreEntry, Catalog.lustreEntry, Catalog.scopedEntry, Catalog.scopedEntry, h]

theorem lustreEntry_of_row (h : c.row (.lustre entry.fid) = some (.fromLustre filesystem entry)) :
    c.lustreEntry filesystem entry.fid = .ok (some entry) := by
  have hread : c.scopedEntry ⟨filesystem, .lustre entry.fid⟩ =
      .ok (some (.fromLustre filesystem entry)) := scopedEntry_eq_some.2 ⟨h, rfl⟩
  simp [Catalog.lustreEntry, hread, Except.map]

theorem alike_renamed (now : Int) :
    Alike SeenAlike (c.renamed filesystem { entry with lastSeen := now } rmTime)
      (c.renamed filesystem entry rmTime) := by
  set again := { entry with lastSeen := now }
  by_cases hread : c.displacedReadable filesystem entry
  · have hread' : c.displacedReadable filesystem again := hread
    by_cases hadmits : c.AdmitsLustre
    · rw [renamed_of_admits hread' hadmits, renamed_of_admits hread hadmits]
      refine Alike.putParentEdge (Alike.putRow (.refl seenAlike_refl _) ?_ _) rfl rfl rfl
      exact seenAlike_fromLustre filesystem entry now
    · rw [renamed_of_not_admits hread' hadmits, renamed_of_not_admits hread hadmits]
      exact .refl seenAlike_refl _
  · have heq : ∀ e : EntryRow, ¬ c.displacedReadable filesystem e →
        c.renamed filesystem e rmTime = c := fun e he => if_neg he
    rw [heq again hread, heq entry hread]
    exact .refl seenAlike_refl _

end Rename

/-- **A rename survives a crash.**  A rename of a cataloged object is cut between its statements and the
event is applied again; unless the new name leads to an object of the other backend whose identity reads
as the FID that is moved, the catalogs are alike. -/
theorem rename_survives_crash {filesystem : FileSystemId} {live : LustreMount} {c : Catalog}
    {fid parent srcParent : LuFid} {name srcName : Name} {entry : EntryRow}
    (hentry : c.lustreEntry filesystem fid = .ok (some entry))
    (hother : ∀ object, c.child ⟨.lustre parent, name⟩ = some object → object.decodeFid = fid →
      object = .lustre fid) (n : ℕ) (eventTime : Int) (clock clock' : EventClock) :
    let event := ChangelogEvent.rename fid parent name srcParent srcName
    let crashed := Proc.crashAfter n
      (renameLustreEntry filesystem (moved entry parent name clock.now) eventTime) c
    Alike SeenAlike ((applyEvent filesystem live event eventTime clock').run crashed).2
      ((applyEvent filesystem live event eventTime clock).run c).2 := by
  intro event crashed
  obtain rfl : entry.fid = fid := fid_of_lustreEntry hentry
  have hown : c.displaced (moved entry parent name clock.now) ≠ some entry.fid := by
    intro hdisplaced
    obtain ⟨key, object, hkey, hchild, hne, hdecode⟩ := displaced_eq_some.1 hdisplaced
    cases hkey
    exact hne (hother object hchild hdecode)
  have hcut : RenameCut filesystem c (moved entry parent name clock.now) eventTime _ crashed :=
    renameCut_crashAfter n
  -- The second attempt finds the row of the first, or the one that was there before.
  obtain ⟨found, hfound, hmoved⟩ : ∃ found, crashed.lustreEntry filesystem entry.fid = .ok (some found) ∧
      moved found parent name clock'.now = moved entry parent name clock'.now := by
    rcases hcut.row_self hown with hrow | hrow
    · exact ⟨entry, (lustreEntry_congr hrow).trans hentry, rfl⟩
    · exact ⟨moved entry parent name clock.now, lustreEntry_of_row hrow, rfl⟩
  rw [run_applyEvent_snd, run_applyEvent_snd]
  simp only [event, applied, hentry, hfound, hmoved]
  rw [show crashed.renamed filesystem (moved entry parent name clock'.now) eventTime = _ from
    (hcut.atTime clock'.now).renamed_again hown]
  exact @alike_renamed filesystem c (moved entry parent name clock.now) eventTime clock'.now

namespace Sample

open Store.Sample (lustre)

def mistakable : EntryRow := { Store.Sample.file 5 a with fid := ⟨0, 0, 5⟩ }

/-- Its row, and the name `b` of the JuiceFS inode. -/
def mixed : Catalog :=
  (Store.Sample.empty.putLustre lustre mistakable).putEdge ⟨.lustre dir, b⟩ (.juiceFs 5)

/-- A file 5 `a` and a file 6 `b` in one directory. -/
def twoFiles : Catalog :=
  (Store.Sample.empty.putLustre lustre (Store.Sample.file 5 a)).putLustre lustre (Store.Sample.file 6 b)

/-- The rename of `a` to `b`, for a FID. -/
def toB (fid : LuFid) : ChangelogEvent := .rename fid dir b dir a

end Sample

/-- A rename over another file, cut after the file was removed. -/
theorem overwriting_rename_survives :
    Alike SeenAlike
      ((applyEvent Store.Sample.lustre Ingest.Sample.gone (Sample.toB Sample.five) 7 ⟨9, 9⟩).run
        (Proc.crashAfter 3 (renameLustreEntry Store.Sample.lustre
          (moved (Store.Sample.file 5 Sample.a) Sample.dir Sample.b 8) 7) Sample.twoFiles)).2
      ((applyEvent Store.Sample.lustre Ingest.Sample.gone (Sample.toB Sample.five) 7 ⟨8, 8⟩).run
        Sample.twoFiles).2 := by
  have hentry : Sample.twoFiles.lustreEntry Store.Sample.lustre Sample.five =
      .ok (some (Store.Sample.file 5 Sample.a)) := by decide +kernel
  have hchild : Sample.twoFiles.child ⟨.lustre Sample.dir, Sample.b⟩ = some (.lustre Sample.six) := by
    decide +kernel
  refine rename_survives_crash hentry (fun object hobject hdecode => ?_) 3 7 ⟨8, 8⟩ ⟨9, 9⟩
  rw [hchild] at hobject
  cases hobject
  exact absurd hdecode (by decide)

/-- **A rename that takes itself for what it displaces** does not survive.  The new name leads to a JuiceFS
object whose sixteen bytes are those of the FID; the row of the file is removed as the displaced one, and
after a crash there is neither a row nor, here, a live object to read it from. -/
theorem mistaken_rename_loses_row :
    let event := Sample.toB ⟨0, 0, 5⟩
    let crashed := Proc.crashAfter 3 (renameLustreEntry Store.Sample.lustre
      (moved Sample.mistakable Sample.dir Sample.b 8) 7) Sample.mixed
    Sample.mixed.lustreEntry Store.Sample.lustre ⟨0, 0, 5⟩ = .ok (some Sample.mistakable) ∧
    (((applyEvent Store.Sample.lustre Ingest.Sample.gone event 7 ⟨9, 9⟩).run crashed).2.row
      (.lustre ⟨0, 0, 5⟩)).isSome = false ∧
    (((applyEvent Store.Sample.lustre Ingest.Sample.gone event 7 ⟨8, 8⟩).run Sample.mixed).2.row
      (.lustre ⟨0, 0, 5⟩)).isSome = true :=
  ⟨by decide +kernel, by decide +kernel, by decide +kernel⟩

end Robinhood.Lustre
