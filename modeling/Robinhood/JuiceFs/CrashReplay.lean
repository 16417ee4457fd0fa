/-
# JuiceFs.CrashReplay — applying a record again after a crash

The cursor of a JuiceFS filesystem moves only after a record was applied, so a crash in the middle of
`apply_juicefs_change` has the record applied again from the start, on a catalog that holds some of its
transactions.  The catalog then ends as after one uninterrupted application, provided the record does not
write above or onto its own parent: `replay_after_crash`.
-/
import Mathlib
import Robinhood.Ingest.JuiceFs
import Robinhood.JuiceFs.Progress

namespace Robinhood.JuiceFs

open Lib Posix Store Ingest Namespace Scan

/-! ## §1 — Ancestors -/

def Above (c : Catalog) (upper lower : ObjectId) : Prop :=
  (∃ name, c.child ⟨upper, name⟩ = some lower) ∨
    ∃ e p, c.row lower = some e ∧ e.parent = some p ∧ p.object = upper

/-- **Ancestors in the catalog**; an object is its own. -/
def Ancestor (c : Catalog) : ObjectId → ObjectId → Prop := Relation.ReflTransGen (Above c)

/-- **A creation outside what is created**: its directory is not below the object. -/
def OutsideItself (c : Catalog) : Change → Prop
  | .created object parent .. => ¬ Ancestor c object parent
  | _ => True

/-- **A creation that does not displace its own directory** from the name it takes. -/
def KeepsParent (c : Catalog) : Change → Prop
  | .created _ parent name _ _ _ => c.child ⟨parent, name⟩ ≠ some parent
  | _ => True

variable {filesystem : FileSystemId} {mount : Path} {live : Mount} {c d c' : Catalog}
  {object parent : ObjectId} {name : Name} {time : Int}

/-! ## §2 — Plans on a catalog that was written to -/

theorem resolvedPath_undisturbed {above : EntryKey → Prop} {o : ObjectId} {path : Path}
    (h : Undisturbed filesystem above c d live) (hfilesystem : d.filesystem = c.filesystem)
    (hedges : d.objectEdges o = c.objectEdges o)
    (habove : ∀ k : EdgeKey, c.child k = some o → above ⟨filesystem, k.parent⟩)
    (hpath : resolvedPath filesystem live ⟨filesystem, o⟩ c = .ok path) :
    resolvedPath filesystem live ⟨filesystem, o⟩ d = .ok path := by
  obtain ⟨config, hconfig, hpath⟩ := except_bind_eq_ok.1 hpath
  obtain ⟨resolved, hresolved, hpath⟩ := except_bind_eq_ok.1 hpath
  rw [except_mapError_eq_ok] at hresolved
  refine except_bind_eq_ok.2 ⟨config, ?_, except_bind_eq_ok.2 ⟨resolved, ?_, hpath⟩⟩
  · rw [newAdapter, hfilesystem]
    exact hconfig
  · rw [except_mapError_eq_ok]
    exact h.resolveObject hedges habove hresolved

theorem linkOf_eq {c : Catalog} {key key' : EntryKey} {name : Name}
    (h : linkOf ⟨c, live⟩ key = .ok (some (some key', name))) :
    ∃ e, c.row key.object = some e ∧ e.parent = some key' := by
  rw [linkOf] at h
  cases hentry : entryOf ⟨c, live⟩ key with
  | error => simp [hentry, Except.map] at h
  | ok entry =>
    cases entry with
    | none => simp [hentry, Except.map] at h
    | some e =>
      simp only [hentry, Except.map, Option.map, Except.ok.injEq, Option.some.injEq,
        Prod.mk.injEq] at h
      exact ⟨e, (entryOf_eq_some.1 hentry).1, h.1⟩

/-- A row written under an object that is not an ancestor of `parent` leaves the links above it. -/
theorem undisturbed_putRow {row : ScopedEntryRow} (hrow : row.key = ⟨filesystem, object⟩) :
    Undisturbed filesystem (fun key => ¬ Ancestor c object key.object) c (c.putRow object row)
      live where
  size := by
    show c.entries.size ≤ (c.entries.insert object row).size
    rw [Std.ExtTreeMap.size_insert]
    split <;> omega
  rows o e he := by
    rw [entryOf_eq_some] at he
    by_cases ho : object = o
    · subst ho
      exact ⟨row, entryOf_eq_some.2 ⟨by simp, hrow⟩⟩
    · exact ⟨e, entryOf_eq_some.2 ⟨by simpa [ho] using he.1, he.2⟩⟩
  links key hkey := by
    have hne : object ≠ key.object := fun h => hkey (h ▸ Relation.ReflTransGen.refl)
    simp only [linkOf, entryOf, Catalog.scopedEntry, Catalog.row_putRow, if_neg hne]
  closed key parent name hkey hlink hparent := by
    obtain ⟨e, he, hp⟩ := linkOf_eq hlink
    exact hkey (hparent.tail (.inr ⟨e, parent, he, hp, rfl⟩))

theorem createdPlan_again {kind : EntryKind} {metadata : Option CreatedMetadata}
    {row : ScopedEntryRow} (houtside : ¬ Ancestor c object parent)
    (hplan : createdPlan filesystem mount live object parent name kind metadata time c = .ok row)
    (hd : d = c.putRow object row ∨ d = (c.putRow object row).putEdge ⟨parent, name⟩ object)
    (hparent : c.child ⟨parent, name⟩ ≠ some parent) :
    createdPlan filesystem mount live object parent name kind metadata time d = .ok row := by
  obtain ⟨path, owner, hpath, -, hrow⟩ := createdPlan_ok hplan
  have hkey : row.key = ⟨filesystem, object⟩ := by rw [hrow]; rfl
  have hundisturbed : Undisturbed filesystem (fun key => ¬ Ancestor c object key.object) c d live := by
    have hput : Undisturbed filesystem (fun key => ¬ Ancestor c object key.object) c
        (c.putRow object row) live := undisturbed_putRow hkey
    rcases hd with rfl | rfl
    · exact hput
    · exact ⟨hput.size, hput.rows, hput.links, hput.closed⟩
  have hedges : d.objectEdges parent = c.objectEdges parent := by
    rcases hd with rfl | rfl
    · rfl
    · refine Table.keysWith_congr fun k => ?_
      show ((c.putRow object row).putEdge ⟨parent, name⟩ object).child k = some parent ↔
        c.child k = some parent
      rw [Catalog.child_putEdge, Catalog.child_putRow]
      split_ifs with hk
      · -- The new edge leads to the object, the replaced one did not lead to the parent.
        rw [← hk, Option.some.injEq]
        exact iff_of_false (fun h => houtside (h ▸ Relation.ReflTransGen.refl)) hparent
      · rfl
  have hpath' : resolvedPath filesystem live ⟨filesystem, parent⟩ d = .ok path := by
    refine resolvedPath_undisturbed hundisturbed ?_ hedges ?_ hpath
    · rcases hd with rfl | rfl <;> rfl
    · intro k hk hancestor
      exact houtside (hancestor.tail (.inl ⟨k.name, hk⟩))
  rw [createdPlan, hpath] at hplan
  rw [createdPlan, hpath']
  exact hplan

theorem undisturbed_sameLink {entry row : ScopedEntryRow} (hentry : c.row object = some entry)
    (hkey : row.key = entry.key) (hparent : row.parent = entry.parent)
    (hname : row.name = entry.name) :
    Undisturbed filesystem (fun _ => True) c (c.putRow object row) live where
  size := by
    show c.entries.size ≤ (c.entries.insert object row).size
    rw [Std.ExtTreeMap.size_insert]
    split <;> omega
  rows o e he := by
    rw [entryOf_eq_some] at he
    by_cases ho : object = o
    · subst ho
      obtain rfl : entry = e := Option.some.inj (hentry.symm.trans he.1)
      exact ⟨row, entryOf_eq_some.2 ⟨by simp, hkey.trans he.2⟩⟩
    · exact ⟨e, entryOf_eq_some.2 ⟨by simpa [ho] using he.1, he.2⟩⟩
  links key _ := by
    by_cases ho : object = key.object
    · by_cases hk : entry.key = key
      · simp [linkOf, entryOf, Catalog.scopedEntry, ← ho, hentry, hkey, hk, Except.mapError,
          Except.map, hparent, hname]
      · simp [linkOf, entryOf, Catalog.scopedEntry, ← ho, hentry, hkey, hk, Except.mapError,
          Except.map]
    · simp only [linkOf, entryOf, Catalog.scopedEntry, Catalog.row_putRow, if_neg ho]
  closed _ _ _ _ _ := trivial

/-! ## §3 — Replays -/

/-- **A replay**: the crash came before any write, or the procedure, run again on what the crash left,
ends as one uninterrupted run does. -/
def Replays (p : IngestProc Unit) (c : Catalog) : Prop :=
  ∀ n, Proc.crashAfter n p c = c ∨
    ∃ c', p.run c = (.ok (), c') ∧ p.run (Proc.crashAfter n p c) = (.ok (), c')

theorem replays_of_atomic {p : IngestProc Unit} (hp : p.Atomic)
    (hagain : ∀ c', p.run c = (.ok (), c') → p.run c' = (.ok (), c')) : Replays p c := by
  intro n
  refine (hp n c).imp_right fun ⟨_, hrun⟩ => ?_
  exact ⟨_, hrun, hagain _ hrun⟩

theorem replays_created {kind : EntryKind} {metadata : Option CreatedMetadata}
    (houtside : ¬ Ancestor c object parent) (hparent : c.child ⟨parent, name⟩ ≠ some parent) :
    Replays (applyCreated filesystem mount live object parent name kind metadata time) c := by
  intro n
  set p := applyCreated filesystem mount live object parent name kind metadata time
  rcases (Proc.atomic_ask _).crashAfter_bind n _ c with h | ⟨row, _, m, hask, h⟩
  · exact .inl h
  rw [Proc.run_ask, Prod.mk.injEq] at hask
  obtain ⟨hplan, rfl⟩ := hask
  have hkey : row.key.object = object := by
    obtain ⟨_, _, _, _, rfl⟩ := createdPlan_ok hplan
    rfl
  rcases (atomic_liftStore (atomic_upsertScopedEntry row)).crashAfter_bind m _ c with h' | ⟨_, _, l, hrow, h'⟩
  · exact .inl (h.trans h')
  obtain ⟨haccepts, rfl⟩ := run_upsertScopedEntry_ok.1 (run_liftStore_ok.1 hrow)
  refine .inr ⟨_, run_applyCreated_ok.2 ⟨row, hplan, haccepts, rfl⟩, ?_⟩
  have hd : Proc.crashAfter n p c = c.putRow object row ∨
      Proc.crashAfter n p c = (c.putRow object row).putEdge ⟨parent, name⟩ object := by
    rw [show Proc.crashAfter n p c = _ from h.trans h', ← hkey]
    rcases atomic_liftStore (atomic_upsertScopedNamespaceEdge _) l _ with h'' | ⟨_, h''⟩
    · exact .inl h''
    · exact .inr (congrArg Prod.snd (run_liftStore_ok.1 h'')).symm
  have hplan' := createdPlan_again houtside hplan hd hparent
  refine run_applyCreated_ok.2 ⟨row, hplan', ?_, ?_⟩
  · rcases hd with hd | hd <;> rw [hd] <;> exact haccepts
  · rw [hkey]
    rcases hd with hd | hd <;> rw [hd]
    · rw [Catalog.putRow_putRow]
    · rw [Catalog.putRow_putEdge, Catalog.putRow_putRow, Catalog.putEdge_putEdge]

def moved (c : Catalog) (object sourceParent : ObjectId) (sourceName : Name) (parent : ObjectId)
    (name : Name) (row : ScopedEntryRow) : Catalog :=
  ((c.putRow object row).dropEdge ⟨sourceParent, sourceName⟩).putEdge ⟨parent, name⟩ object

theorem moved_again {sourceParent : ObjectId} {sourceName : Name} {row : ScopedEntryRow}
    (hd : d = c.putRow object row ∨ d = (c.putRow object row).dropEdge ⟨sourceParent, sourceName⟩ ∨
      d = moved c object sourceParent sourceName parent name row) :
    moved d object sourceParent sourceName parent name row =
      moved c object sourceParent sourceName parent name row := by
  have hrow : ∀ o, (moved d object sourceParent sourceName parent name row).row o =
      (moved c object sourceParent sourceName parent name row).row o := by
    intro o
    rcases hd with rfl | rfl | rfl <;> simp only [moved, Catalog.row_putEdge, Catalog.row_dropEdge,
      Catalog.row_putRow] <;> split_ifs <;> rfl
  have hchild : ∀ k, (moved d object sourceParent sourceName parent name row).child k =
      (moved c object sourceParent sourceName parent name row).child k := by
    intro k
    rcases hd with rfl | rfl | rfl <;> simp only [moved, Catalog.child_putEdge,
      Catalog.child_dropEdge, Catalog.child_putRow] <;> split_ifs <;> rfl
  rcases hd with rfl | rfl | rfl <;> exact Catalog.ext_lookup rfl hrow hchild rfl rfl rfl

theorem replays_renamed {sourceParent : ObjectId} {sourceName : Name} :
    Replays (applyRenamed filesystem object sourceParent sourceName parent name time) c := by
  intro n
  set p := applyRenamed filesystem object sourceParent sourceName parent name time
  rcases (atomic_liftStore (atomic_getScopedEntry _)).crashAfter_bind n _ c with h | ⟨found, _, m, hask, h⟩
  · exact .inl h
  rw [run_liftStore_ok, getScopedEntry, Proc.run_ask, Prod.mk.injEq] at hask
  obtain ⟨hfound, rfl⟩ := hask
  cases found with
  | none => exact .inl (h.trans (Proc.crashAfter_fail ..))
  | some entry =>
    obtain ⟨hrow, hkey⟩ := scopedEntry_eq_some.1 hfound
    set row := movedRow entry filesystem parent name time with hmoved
    have hrowkey : row.key.object = object := by
      show entry.key.object = object
      rw [hkey]
    rcases (atomic_liftStore (atomic_upsertScopedEntry row)).crashAfter_bind m _ c with
      h' | ⟨_, _, l, hupsert, h'⟩
    · exact .inl (h.trans h')
    obtain ⟨haccepts, rfl⟩ := run_upsertScopedEntry_ok.1 (run_liftStore_ok.1 hupsert)
    rw [hrowkey] at h'
    refine .inr ⟨_, run_applyRenamed_ok.2 ⟨entry, hrow, hkey, haccepts, rfl⟩, ?_⟩
    -- The crash came after the row, after the source edge was dropped, or after the target was set.
    have hd : Proc.crashAfter n p c = c.putRow object row ∨
        Proc.crashAfter n p c = (c.putRow object row).dropEdge ⟨sourceParent, sourceName⟩ ∨
        Proc.crashAfter n p c = moved c object sourceParent sourceName parent name row := by
      rw [show Proc.crashAfter n p c = _ from h.trans h']
      rcases (atomic_liftStore (atomic_removeScopedNamespaceEdge _ _)).crashAfter_bind l _ _ with
        h'' | ⟨_, _, k, hdrop, h''⟩
      · exact .inl h''
      obtain rfl := (congrArg Prod.snd (run_liftStore_ok.1 hdrop)).symm
      rcases atomic_liftStore (atomic_upsertScopedNamespaceEdge _) k _ with h₃ | ⟨_, h₃⟩
      · exact .inr (.inl (h''.trans h₃))
      · exact .inr (.inr (h''.trans (congrArg Prod.snd (run_liftStore_ok.1 h₃)).symm))
    refine run_applyRenamed_ok.2 ⟨row, ?_, hkey, ?_, ?_⟩
    · rcases hd with hd | hd | hd <;> rw [hd] <;> simp [moved]
    · rcases hd with hd | hd | hd <;> rw [hd] <;> exact haccepts
    · exact (moved_again hd).symm

theorem replays_removed {directory : Bool} :
    Replays (liftStore (applyScopedUnlink ⟨filesystem, object⟩ parent name time directory)) c := by
  refine replays_of_atomic (atomic_liftStore (Proc.atomic_step _ _)) fun c' h => ?_
  rw [run_removed, Prod.mk.injEq] at h
  obtain ⟨-, rfl⟩ := h
  rw [run_removed, Prod.mk.injEq]
  refine ⟨rfl, applyScopedUnlinkTx_of_ne fun hchild => ?_⟩
  -- The first unlink dropped the edge, unless it led elsewhere and nothing was done.
  by_cases hc : c.child ⟨parent, name⟩ = some object
  · cases hrow : c.row object with
    | none =>
      rw [applyScopedUnlinkTx_of_no_row hc hrow] at hchild
      simp at hchild
    | some entry =>
      by_cases hlast : directory = true ∨ ¬ 1 < entry.nlink
      · rw [applyScopedUnlinkTx_of_last hc hrow hlast] at hchild
        simp at hchild
      · obtain ⟨hfile, hmany⟩ := not_or.1 hlast
        rw [applyScopedUnlinkTx_of_many hc hrow (by simpa using hfile) (not_not.1 hmany)] at hchild
        simp at hchild
  · rw [applyScopedUnlinkTx_of_ne hc] at hchild
    exact hc hchild

theorem replays_hardlinked :
    Replays (liftStore (applyScopedHardlink ⟨filesystem, parent, name, object⟩ time)) c := by
  refine replays_of_atomic (atomic_liftStore (Proc.atomic_txn _)) fun c' h => ?_
  rw [run_hardlinked_ok] at h ⊢
  have hchild : c'.child ⟨parent, name⟩ = some object := by
    rcases applyScopedHardlinkTx_ok h with ⟨hchild, rfl⟩ | ⟨-, entry, -, rfl⟩
    · exact hchild
    · simp [ScopedNamespaceEdge.edgeKey]
  simp only [applyScopedHardlinkTx, ScopedNamespaceEdge.edgeKey, hchild, if_true]

theorem atomic_applyRefreshed : (applyRefreshed filesystem live object time).Atomic := by
  show Proc.Atomic (Proc.mapError IngestError.store (Proc.ask _) >>= _)
  rw [Proc.mapError_ask]
  refine Proc.Atomic.ask_bind fun found => ?_
  cases found with
  | none => exact Proc.atomic_fail _
  | some =>
    exact Proc.Atomic.ask_bind fun row => atomic_liftStore (atomic_upsertScopedEntry row)

theorem replays_refreshed : Replays (applyRefreshed filesystem live object time) c := by
  refine replays_of_atomic atomic_applyRefreshed fun c' h => ?_
  obtain ⟨entry, row, hentry, hkey, hplan, haccepts, rfl⟩ := run_applyRefreshed_ok.1 h
  obtain ⟨path, hpath, hrest⟩ := except_bind_eq_ok.1 hplan
  obtain ⟨md, hmd, hrest⟩ := except_bind_eq_ok.1 hrest
  obtain ⟨_, hcheck, hrest⟩ := except_bind_eq_ok.1 hrest
  cases hrest
  set row := refreshedRow entry md time with hrow
  have hobject : row.key.object = object := by
    show entry.key.object = object
    rw [hkey]
  rw [hobject]
  have hpath' : resolvedPath filesystem live ⟨filesystem, object⟩ (c.putRow object row) = .ok path :=
    resolvedPath_undisturbed (undisturbed_sameLink hentry rfl rfl rfl) rfl rfl (fun _ _ => trivial)
      hpath
  have hplan' : refreshedPlan filesystem live object time row (c.putRow object row) = .ok row := by
    refine except_bind_eq_ok.2 ⟨path, hpath', except_bind_eq_ok.2 ⟨md, hmd, ?_⟩⟩
    exact except_bind_eq_ok.2 ⟨(), hcheck, rfl⟩
  refine run_applyRefreshed_ok.2 ⟨row, row, by simp, hkey, hplan', haccepts, ?_⟩
  rw [hobject, Catalog.putRow_putRow]

/-- **Applying a record again after a crash** ends in the catalog of one uninterrupted application, and
applying it again after it was done changes nothing. -/
theorem replay_after_crash {r : Change} (houtside : OutsideItself c r) (hparent : KeepsParent c r) :
    let p := applyJuicefsChange filesystem mount live r
    (∀ n, p.run (Proc.crashAfter n p c) = (.ok (), c') → p.run c = (.ok (), c')) ∧
      (p.run c = (.ok (), c') → p.run c' = (.ok (), c')) := by
  intro p
  have hreplays : Replays p c := by
    cases r with
    | created => exact replays_created houtside hparent
    | hardlinked => exact replays_hardlinked
    | removed => exact replays_removed
    | renamed => exact replays_renamed
    | metadataChanged | contentChanged => exact replays_refreshed
    | backend => exact fun n => .inl (Proc.crashAfter_fail ..)
  refine ⟨fun n hn => ?_, fun h => ?_⟩
  · rcases hreplays n with hc | ⟨c'', hrun, hagain⟩
    · rwa [hc] at hn
    · rw [hagain] at hn
      rw [hrun, hn]
  · obtain ⟨n, hn⟩ := Proc.exists_crashAfter_eq_run p c
    rw [h] at hn
    rcases hreplays n with hc | ⟨c'', hrun, hagain⟩
    · obtain rfl : c' = c := hn.symm.trans hc
      exact h
    · rw [hn, ← hrun, h] at hagain
      exact hagain

namespace Sample

theorem create_outside : OutsideItself rootCatalog (create 10 a) := by
  have habove : ∀ upper lower, ¬ Above rootCatalog upper lower := by
    rintro upper lower (⟨name, hchild⟩ | ⟨e, p, hrow, hparent, -⟩)
    · have hempty : rootCatalog.child ⟨upper, name⟩ = none := by
        rw [Catalog.child, rootCatalog_mirrors.edges]
        simp [emptyFs]
      rw [hempty] at hchild
      cases hchild
    · rw [row_rootCatalog] at hrow
      split_ifs at hrow
      cases hrow
      cases hparent
  intro hancestor
  rcases Relation.ReflTransGen.cases_head hancestor with heq | ⟨b, hab, -⟩
  · exact absurd heq (by decide)
  · exact habove _ _ hab

/-- A CREATE cut between its row and its edge, and applied again. -/
theorem create_replayed :
    let p := applyJuicefsChange jfs mountPath (shortLivedMount 1) (create 10 a)
    let c' := (p.run (Proc.crashAfter 3 p rootCatalog)).2
    p.run (Proc.crashAfter 3 p rootCatalog) = (.ok (), c') ∧ p.run rootCatalog = (.ok (), c') := by
  intro p c'
  have hagain : p.run (Proc.crashAfter 3 p rootCatalog) = (.ok (), c') :=
    Prod.ext (by decide +kernel) rfl
  have hparent : rootCatalog.child ⟨root, a⟩ ≠ some root := by decide +kernel
  exact ⟨hagain, (replay_after_crash create_outside hparent).1 3 hagain⟩

/-- The name `x`, of a symbolic link. -/
def x : Name := [120]

/-- A mount whose root, inode 9, has a directory `a` with inode 5 and a symbolic link `x` to itself; the
directory holds a file `a` with inode 7. -/
def loopMount : Mount where
  symlinkMetadata path := match path.stripPrefix mountPath with
    | none => .error .notFound
    | some rest =>
      let found (inode : UInt64) (kind : EntryKind) : Except IoError Metadata :=
        .ok ⟨kind, inode, 1, 0, 0, 0, 0, 0, 0, 0, 0⟩
      if rest = [.normal x] then found 6 .symlink
      else match rest.filter (· ≠ .normal x) with
        | [] => found 9 .directory
        | [.normal [97]] => found 5 .directory
        | [.normal [97], .normal [97]] => found 7 .file
        | _ => .error .notFound
  canonicalize path := .ok (path.filter (· ≠ .normal x))
  fidToPath _ := .error .notFound
  pathToFid _ := .error .notFound

/-- A catalog of it in which the directory's row still says `x`, and an edge leads from the directory to
itself. -/
def loopCatalog : Catalog :=
  let row (inode : UInt64) (parent : Option UInt64) (name : Name) : ScopedEntryRow :=
    adaptRow jfs ⟨name, .directory, inode, parent, 0, 0, 0, 0, 0, 1, 0, 0, 0, 0⟩ 0
  (((registered.putRow (.juiceFs 9) (row 9 none [])).putRow (.juiceFs 5) (row 5 (some 9) x)).putEdge
    ⟨.juiceFs 5, a⟩ (.juiceFs 5)).putEdge ⟨.juiceFs 9, a⟩ (.juiceFs 5)

def loopCreate : Change :=
  .created (.juiceFs 7) (.juiceFs 5) a .file (some ⟨0, 0, 33188⟩) 0

theorem loopCreate_outside : OutsideItself loopCatalog loopCreate := by
  have habove : ∀ upper lower, Above loopCatalog upper lower →
      upper = .juiceFs 5 ∨ upper = .juiceFs 9 := by
    rintro upper lower (⟨name, hchild⟩ | ⟨e, p, hrow, hparent, rfl⟩)
    · simp only [loopCatalog, Catalog.child_putEdge, Catalog.child_putRow] at hchild
      split_ifs at hchild with h₁ h₂
      · exact .inr (EdgeKey.mk.inj h₁).1.symm
      · exact .inl (EdgeKey.mk.inj h₂).1.symm
      · simp [registered, Catalog.child] at hchild
    · simp only [loopCatalog, Catalog.row_putEdge, Catalog.row_putRow] at hrow
      split_ifs at hrow
      · cases hrow
        cases hparent
        exact .inr rfl
      · cases hrow
        cases hparent
      · simp [registered, Catalog.row] at hrow
  intro hancestor
  rcases Relation.ReflTransGen.cases_head hancestor with heq | ⟨b, hab, -⟩
  · exact absurd heq (by decide)
  · rcases habove _ _ hab with h | h <;> exact absurd h (by decide)

/-- **A CREATE that replaces an edge from its parent to the parent itself is not replayed.**  The first
application resolves the parent through that edge, at the end of `x/a`; applied again after it was done,
it finds the parent at `a`, and the row of the file gets another depth. -/
theorem loop_not_replayed :
    let p := applyJuicefsChange jfs mountPath loopMount loopCreate
    let crashed := Proc.crashAfter 4 p loopCatalog
    OutsideItself loopCatalog loopCreate ∧ (p.run loopCatalog).1 = .ok () ∧
      (p.run crashed).1 = .ok () ∧
      (p.run crashed).2.row (.juiceFs 7) ≠ (p.run loopCatalog).2.row (.juiceFs 7) :=
  ⟨loopCreate_outside, by decide +kernel, by decide +kernel, by decide +kernel⟩

end Sample

end Robinhood.JuiceFs
