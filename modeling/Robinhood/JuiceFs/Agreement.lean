/-
# JuiceFs.Agreement — entry rows and edges

The catalog of a JuiceFS filesystem agrees with itself when every edge leads to a row, every row but the
root's has an edge, and a row that is not a directory counts its edges.  Nothing in `apply_juicefs_change`
looks at all three, and several records break the agreement: a move over an existing name takes the last
edge of the displaced object and leaves its row, and CREATE copies a link count from a mount that may be
at another version.  `Keeps` is what a record has to meet; under it the agreement holds along every run.
-/
import Mathlib
import Robinhood.JuiceFs.Replay
import Robinhood.JuiceFs.Tree
import Robinhood.Store.Links

namespace Robinhood.JuiceFs

open Lib Posix Store Ingest Scan

/-! ## §1 — Agreement -/

/-- **Rows and edges agree** in a catalog whose root object is `root`. -/
structure EntriesAgree (root : ObjectId) (c : Catalog) : Prop where
  edge_row : ∀ k o, c.child k = some o → (c.row o).isSome
  row_edge : ∀ o e, c.row o = some e → o ≠ root → ∃ k, c.child k = some o
  count : ∀ o e, c.row o = some e → e.kind ≠ .directory → e.nlink.toNat = (c.objectEdges o).length

/-- **When a record keeps the agreement**, from the catalog before it and the filesystem `s` the mount
shows while it is applied. -/
def Keeps (s : FsState) (c : Catalog) : Change → Prop
  | .created object parent name kind _ _ =>
    -- The name is free or already leads to the object, and the mount shows the links being cataloged.
    (c.child ⟨parent, name⟩ = none ∨ c.child ⟨parent, name⟩ = some object) ∧
      s.kinds[parent]? = some .directory ∧ Path.Plain name ∧
      (kind ≠ .directory →
        let edges := ((c.putEdge ⟨parent, name⟩ object).objectEdges object).length
        s.kinds[object]? ≠ some .directory ∧ edges < 2 ^ 32 ∧
          (s.links[(⟨parent, name⟩ : EdgeKey)]? = some object → s.linkCount object = edges) ∧
          (s.links[(⟨parent, name⟩ : EdgeKey)]? = none → edges = 1))
  | .hardlinked object _ _ _ => (c.objectEdges object).length + 1 < 2 ^ 32
  | .removed object parent name _ directory _ =>
    c.child ⟨parent, name⟩ = some object → ∀ e, c.row object = some e →
      (directory ↔ e.kind = .directory) ∧ (directory → c.objectEdges object = [⟨parent, name⟩])
  | .renamed object sourceParent sourceName parent name _ =>
    -- Neither name leads to another object; a file has exactly one of them.
    (c.child ⟨sourceParent, sourceName⟩ = none ∨ c.child ⟨sourceParent, sourceName⟩ = some object) ∧
      (c.child ⟨parent, name⟩ = none ∨ c.child ⟨parent, name⟩ = some object) ∧
      ∀ e, c.row object = some e → e.kind ≠ .directory →
        (c.child ⟨sourceParent, sourceName⟩ = some object ↔
          (⟨sourceParent, sourceName⟩ : EdgeKey) = ⟨parent, name⟩ ∨
            c.child ⟨parent, name⟩ ≠ some object)
  | .metadataChanged object _ _ | .contentChanged object _ _ _ _ =>
    ∀ e, c.row object = some e → e.kind ≠ .directory →
      s.kinds[object]? ≠ some .directory ∧ s.linkCount object = (c.objectEdges object).length ∧
        s.linkCount object < 2 ^ 32
  | .backend _ => True

/-! ## §2 — One record -/

section Step

variable {filesystem : FileSystemId} {mountPath : Path} {live : Mount} {s : FsState}
  {root object : ObjectId} {c c' : Catalog} {time : Int}

theorem toNat_truncate32_ofNat {n : ℕ} (h : n < 2 ^ 32) :
    (truncate32 (UInt64.ofNat n)).toNat = n := by
  rw [truncate32, UInt64.toNat_toUInt32, UInt64.toNat_ofNat']
  omega

theorem Shows.toNat_nlink (hlive : Shows mountPath s live) {path : Path} {md : Metadata}
    (hmd : live.symlinkMetadata path = .ok md)
    (hfile : s.kinds[ObjectId.juiceFs md.ino]? ≠ some .directory)
    (hsmall : s.linkCount (.juiceFs md.ino) < 2 ^ 32) :
    (truncate32 md.nlink).toNat = s.linkCount (.juiceFs md.ino) := by
  rw [hlive.count path md hmd hfile, toNat_truncate32_ofNat hsmall]

/-- **A record about one object** keeps the agreement when it leaves the other objects' rows and edges
alone and the object itself agrees afterwards. -/
theorem EntriesAgree.of_object (hagree : EntriesAgree root c) (object : ObjectId)
    (hrow : ∀ o, o ≠ object → c'.row o = c.row o)
    (hchild : ∀ o, o ≠ object → ∀ k, c'.child k = some o ↔ c.child k = some o)
    (hedge : ∀ k, c'.child k = some object → (c'.row object).isSome)
    (hself : ∀ e, c'.row object = some e → (object ≠ root → ∃ k, c'.child k = some object) ∧
      (e.kind ≠ .directory → e.nlink.toNat = (c'.objectEdges object).length)) :
    EntriesAgree root c' := by
  refine ⟨fun k o hk => ?_, fun o e he hroot => ?_, fun o e he hfile => ?_⟩
  · by_cases ho : o = object
    · subst ho
      exact hedge k hk
    · rw [hrow o ho]
      exact hagree.edge_row k o ((hchild o ho k).1 hk)
  · by_cases ho : o = object
    · subst ho
      exact (hself e he).1 hroot
    · rw [hrow o ho] at he
      obtain ⟨k, hk⟩ := hagree.row_edge o e he hroot
      exact ⟨k, (hchild o ho k).2 hk⟩
  · by_cases ho : o = object
    · subst ho
      exact (hself e he).2 hfile
    · rw [hrow o ho] at he
      rw [hagree.count o e he hfile]
      exact Catalog.length_objectEdges_congr fun k => (hchild o ho k).symm

theorem toNat_nlink_createdPlan {parent : ObjectId} {name : Name} {kind : EntryKind}
    {metadata : Option CreatedMetadata} {row : ScopedEntryRow} {edges : ℕ}
    (hlive : Shows mountPath s live) (hdir : s.kinds[parent]? = some .directory)
    (hnative : parent.backend = .juiceFs) (hname : Path.Plain name)
    (hfile : s.kinds[object]? ≠ some .directory) (hsmall : edges < 2 ^ 32)
    (hfound : s.links[(⟨parent, name⟩ : EdgeKey)]? = some object → s.linkCount object = edges)
    (hmissing : s.links[(⟨parent, name⟩ : EdgeKey)]? = none → edges = 1)
    (h : createdPlan filesystem mountPath live object parent name kind metadata time c = .ok row) :
    row.nlink.toNat = edges := by
  obtain ⟨parentPath, owner, hparent, hino, rfl⟩ := createdPlan_ok h
  obtain ⟨inode, rfl⟩ : ∃ inode, parent = .juiceFs inode := by
    cases parent with
    | juiceFs inode => exact ⟨inode, rfl⟩
    | lustre => cases hnative
  obtain ⟨md, hmd, rfl⟩ := resolvedPath_ok hparent
  cases hlink : s.links[(⟨.juiceFs md.ino, name⟩ : EdgeKey)]? with
  | none =>
    obtain ⟨e, he⟩ := hlive.missing parentPath md name hmd hdir hname hlink
    rw [hmissing hlink, createdRow, he]
    rfl
  | some o =>
    obtain ⟨md', hmd', rfl⟩ := hlive.child parentPath md name o hmd hdir hname hlink
    have hobject := hino md' hmd'
    subst hobject
    have hcount := hfound hlink
    rw [createdRow, hmd']
    show (truncate32 md'.nlink).toNat = edges
    rw [hlive.toNat_nlink hmd' hfile (hcount ▸ hsmall), hcount]

theorem entriesAgree_created {parent : ObjectId} {name : Name} {kind : EntryKind}
    {metadata : Option CreatedMetadata} (hs : s.WF) (hlive : Shows mountPath s live)
    (hagree : EntriesAgree root c)
    (hkeeps : Keeps s c (.created object parent name kind metadata time))
    (h : (applyCreated filesystem mountPath live object parent name kind metadata time).run c =
      (.ok (), c')) : EntriesAgree root c' := by
  obtain ⟨hfree, hdir, hname, hcount⟩ := hkeeps
  obtain ⟨row, hplan, -, rfl⟩ := run_applyCreated_ok.1 h
  have hrowkey : row.key.object = object ∧ row.kind = kind := by
    obtain ⟨_, _, _, _, rfl⟩ := createdPlan_ok hplan
    exact ⟨rfl, rfl⟩
  obtain ⟨hkey, rfl⟩ := hrowkey
  rw [hkey]
  refine hagree.of_object object (fun o ho => ?_) (fun o ho k => ?_) (fun k _ => ?_) fun e he => ?_
  · simp [Ne.symm ho]
  · exact child_putEdge_eq_some_iff ho hfree
  · simp
  · simp only [Catalog.row_putEdge, Catalog.row_putRow, if_true, Option.some.injEq] at he
    subst he
    refine ⟨fun _ => ⟨⟨parent, name⟩, by simp⟩, fun hfile => ?_⟩
    obtain ⟨hkind, hsmall, hfound, hmissing⟩ := hcount hfile
    exact toNat_nlink_createdPlan hlive hdir (hs.native _ _ hdir) hname hkind hsmall hfound hmissing
      hplan

theorem entriesAgree_hardlinked {edge : ScopedNamespaceEdge} (hagree : EntriesAgree root c)
    (hsmall : (c.objectEdges edge.object).length + 1 < 2 ^ 32)
    (h : applyScopedHardlinkTx edge time c = .ok c') : EntriesAgree root c' := by
  obtain ⟨-, rfl⟩ | ⟨hfree, entry, hrow, rfl⟩ := applyScopedHardlinkTx_ok h
  · exact hagree
  · refine hagree.of_object edge.object (fun o ho => ?_) (fun o ho k => ?_) (fun k _ => ?_)
      fun e he => ?_
    · simp [Ne.symm ho]
    · exact child_putEdge_eq_some_iff ho (.inl hfree)
    · simp
    · simp only [Catalog.row_putRow, if_true, Option.some.injEq] at he
      subst he
      refine ⟨fun _ => ⟨edge.edgeKey, by simp⟩, fun hfile => ?_⟩
      have hcount := hagree.count _ entry hrow hfile
      have hedges := @length_objectEdges_putEdge c edge.object _ hfree
      show (saturatingSucc entry.nlink).toNat =
        ((c.putEdge edge.edgeKey edge.object).objectEdges edge.object).length
      rw [toNat_saturatingSucc (by omega), hedges, hcount]

theorem entriesAgree_removed {parent : ObjectId} {name : Name} {lastLink directory : Bool}
    (hagree : EntriesAgree root c)
    (hkeeps : Keeps s c (.removed object parent name lastLink directory time)) :
    EntriesAgree root
      (applyScopedUnlinkTx ⟨filesystem, object⟩ parent name time directory c) := by
  by_cases hchild : c.child ⟨parent, name⟩ = some object
  swap
  · rwa [applyScopedUnlinkTx_of_ne hchild]
  obtain ⟨entry, hrow⟩ := Option.isSome_iff_exists.1 (hagree.edge_row _ _ hchild)
  obtain ⟨hkind, honly⟩ := hkeeps hchild entry hrow
  have hedges := length_objectEdges_dropEdge hchild
  by_cases hmany : directory = false ∧ 1 < entry.nlink
  · rw [applyScopedUnlinkTx_of_many hchild hrow hmany.1 hmany.2]
    have hfile : entry.kind ≠ .directory := by
      rw [Ne, ← hkind, hmany.1]
      simp
    have hcount := hagree.count _ _ hrow hfile
    have hone : 1 < entry.nlink.toNat := UInt32.lt_iff_toNat_lt.1 hmany.2
    refine hagree.of_object object (fun o ho => ?_) (fun o ho k => ?_) (fun k _ => ?_) fun e he => ?_
    · simp [Ne.symm ho]
    · exact child_dropEdge_eq_some_iff ho (.inr hchild)
    · simp
    · simp only [Catalog.row_putRow, if_true, Option.some.injEq] at he
      subst he
      refine ⟨fun _ => ?_, fun _ => ?_⟩
      · obtain ⟨k, hk⟩ := List.exists_mem_of_length_pos
          (show 0 < ((c.dropEdge ⟨parent, name⟩).objectEdges object).length by omega)
        exact ⟨k, Catalog.mem_objectEdges.1 hk⟩
      · show (entry.nlink - 1).toNat = ((c.dropEdge ⟨parent, name⟩).objectEdges object).length
        rw [UInt32.toNat_sub_of_le _ _ (UInt32.le_of_lt hmany.2), UInt32.toNat_one]
        omega
  · have hlast : directory = true ∨ ¬ 1 < entry.nlink := by
      cases directory <;> simp_all
    rw [applyScopedUnlinkTx_of_last hchild hrow hlast]
    -- The row goes, so no edge of the object may stay.
    have hnone : ((c.dropEdge ⟨parent, name⟩).objectEdges object).length = 0 := by
      rcases hlast with hdir | hlinks
      · have := congrArg List.length (honly hdir)
        simp only [List.length_singleton] at this
        omega
      · by_cases hdir : entry.kind = .directory
        · have := congrArg List.length (honly (hkind.2 hdir))
          simp only [List.length_singleton] at this
          omega
        · have hcount := hagree.count _ _ hrow hdir
          have : entry.nlink.toNat ≤ 1 := by
            have := mt UInt32.lt_iff_toNat_lt.2 hlinks
            simpa using this
          omega
    have hgone : ∀ k, (c.dropEdge ⟨parent, name⟩).child k ≠ some object := by
      intro k hk
      have := Catalog.mem_objectEdges.2 hk
      rw [List.length_eq_zero_iff.1 hnone] at this
      cases this
    refine hagree.of_object object (fun o ho => ?_) (fun o ho k => ?_)
      (fun k hk => absurd hk (hgone k)) fun e he => ?_
    · simp [Ne.symm ho]
    · exact child_dropEdge_eq_some_iff ho (.inr hchild)
    · simp at he

theorem entriesAgree_renamed {sourceParent parent : ObjectId} {sourceName name : Name}
    (hagree : EntriesAgree root c)
    (hkeeps : Keeps s c (.renamed object sourceParent sourceName parent name time))
    (h : (applyRenamed filesystem object sourceParent sourceName parent name time).run c =
      (.ok (), c')) : EntriesAgree root c' := by
  obtain ⟨entry, hrow, hkey, -, rfl⟩ := run_applyRenamed_ok.1 h
  obtain ⟨hsource, htarget, hone⟩ := hkeeps
  set source : EdgeKey := ⟨sourceParent, sourceName⟩
  set target : EdgeKey := ⟨parent, name⟩
  have htarget' : (c.dropEdge source).child target = none ∨
      (c.dropEdge source).child target = some object := by
    rw [Catalog.child_dropEdge]
    split_ifs
    · exact .inl rfl
    · exact htarget
  refine hagree.of_object object (fun o ho => ?_) (fun o ho k => ?_) (fun k _ => ?_) fun e he => ?_
  · simp [Ne.symm ho]
  · exact (child_putEdge_eq_some_iff ho htarget').trans (child_dropEdge_eq_some_iff ho hsource)
  · simp
  · simp only [Catalog.row_putEdge, Catalog.row_dropEdge, Catalog.row_putRow, if_true,
      Option.some.injEq] at he
    subst he
    refine ⟨fun _ => ⟨target, by simp⟩, fun hfile => ?_⟩
    have hcount := hagree.count _ entry hrow hfile
    show entry.nlink.toNat = (((c.dropEdge source).putEdge target object).objectEdges object).length
    rw [hcount]
    have hone := hone entry hrow hfile
    by_cases hmoves : c.child source = some object
    · -- The source edge goes and the target edge is new.
      have hnew : (c.dropEdge source).child target ≠ some object := by
        rw [Catalog.child_dropEdge]
        split_ifs with hst
        · simp
        · exact (hone.1 hmoves).resolve_left hst
      rw [length_objectEdges_dropEdge hmoves]
      refine (Catalog.length_objectEdges_add_one hnew fun k => ?_).symm
      rw [Catalog.child_putEdge]
      split_ifs with hk
      · simp [hk]
      · simp [Ne.symm hk]
    · -- The source edge was free and the target edge is already there.
      have hfree := hsource.resolve_right hmoves
      have hthere : c.child target = some object := by
        by_contra hne
        exact hmoves (hone.2 (.inr hne))
      rw [Catalog.dropEdge_eq_self hfree, Catalog.putEdge_eq_self hthere]

theorem entriesAgree_refreshed (hlive : Shows mountPath s live) (hagree : EntriesAgree root c)
    (hkeeps : ∀ e, c.row object = some e → e.kind ≠ .directory →
      s.kinds[object]? ≠ some .directory ∧ s.linkCount object = (c.objectEdges object).length ∧
        s.linkCount object < 2 ^ 32)
    (h : (applyRefreshed filesystem live object time).run c = (.ok (), c')) :
    EntriesAgree root c' := by
  obtain ⟨entry, row, hrow, hkey, hplan, -, rfl⟩ := run_applyRefreshed_ok.1 h
  obtain ⟨inode, rfl⟩ : ∃ inode, object = .juiceFs inode := by
    cases object with
    | juiceFs inode => exact ⟨inode, rfl⟩
    | lustre =>
      obtain ⟨_, -, hplan⟩ := except_bind_eq_ok.1 hplan
      obtain ⟨_, -, hplan⟩ := except_bind_eq_ok.1 hplan
      obtain ⟨_, hcheck, -⟩ := except_bind_eq_ok.1 hplan
      cases checkInode_ok hcheck
  obtain ⟨path, md, hmd, rfl, rfl⟩ := refreshedPlan_ok hplan
  have hobject : (refreshedRow entry md time).key.object = .juiceFs md.ino := by
    rw [refreshedRow, hkey]
  rw [hobject]
  refine hagree.of_object (.juiceFs md.ino) (fun o ho => ?_) (fun o ho k => Iff.rfl) (fun k _ => ?_)
    fun e he => ?_
  · simp [Ne.symm ho]
  · simp
  · simp only [Catalog.row_putRow, if_true, Option.some.injEq] at he
    subst he
    refine ⟨fun hroot => hagree.row_edge _ entry hrow hroot, fun hfile => ?_⟩
    obtain ⟨hkind, hcount, hsmall⟩ := hkeeps entry hrow hfile
    exact (hlive.toNat_nlink hmd hkind hsmall).trans hcount

/-- **One record keeps the agreement** when it meets `Keeps`. -/
theorem entriesAgree_applied {r : Change} (hs : s.WF) (hlive : Shows mountPath s live)
    (hagree : EntriesAgree root c) (hkeeps : Keeps s c r)
    (h : (applyJuicefsChange filesystem mountPath live r).run c = (.ok (), c')) :
    EntriesAgree root c' := by
  cases r with
  | created => exact entriesAgree_created hs hlive hagree hkeeps h
  | hardlinked =>
    refine entriesAgree_hardlinked hagree ?_ (run_hardlinked_ok.1 h)
    exact hkeeps
  | removed =>
    rw [applyJuicefsChange, run_removed] at h
    cases h
    exact entriesAgree_removed hagree hkeeps
  | renamed => exact entriesAgree_renamed hagree hkeeps h
  | metadataChanged | contentChanged => exact entriesAgree_refreshed hlive hagree hkeeps h
  | backend => cases h

end Step

/-! ## §3 — The baseline -/

section Baseline

variable {filesystem : FileSystemId} {observedAt now : Int} {errors : ℕ} {root : UInt64}
  {events : List PosixWalkEvent} {c c' : Catalog}

/-- **A walk of one instant**: each name is reported once, only the root has none, and an entry that is
not a directory reports the number of its names. -/
structure ConsistentWalk (root : UInt64) (events : List PosixWalkEvent) : Prop where
  names : ((walkedEntries events).filterMap PosixEntry.edgeKey).Nodup
  unnamed : ∀ entry ∈ walkedEntries events, entry.edgeKey = none → entry.inode = root
  counts : ∀ entry ∈ walkedEntries events, entry.kind ≠ .directory →
    entry.nlink.toNat = ((walkedEntries events).filter fun other =>
      other.edgeKey.isSome ∧ other.inode = entry.inode).length

theorem ConsistentWalk.eq_of_edgeKey (hwalk : ConsistentWalk root events) {entry other : PosixEntry}
    (hentry : entry ∈ walkedEntries events) (hother : other ∈ walkedEntries events) {k : EdgeKey}
    (hk : entry.edgeKey = some k) (hk' : other.edgeKey = some k) : entry = other := by
  by_contra hne
  have hpair := List.pairwise_filterMap.1 hwalk.names
  have hsymm : Std.Symm fun a b : PosixEntry => ∀ x, a.edgeKey = some x → ∀ y, b.edgeKey = some y →
      x ≠ y := ⟨fun a b hab x hx y hy hxy => hab y hy x hx hxy.symm⟩
  exact hpair.forall hentry hother hne k hk k hk' rfl

theorem ConsistentWalk.scannedChild_eq_some (hwalk : ConsistentWalk root events) {k : EdgeKey}
    {o : ObjectId} :
    scannedChild (walkedEntries events) k = some o ↔
      ∃ entry ∈ walkedEntries events, entry.edgeKey = some k ∧ .juiceFs entry.inode = o := by
  rw [scannedChild, Option.map_eq_some_iff]
  constructor
  · rintro ⟨entry, hfind, ho⟩
    have hk := List.find?_some hfind
    exact ⟨entry, List.mem_reverse.1 (List.mem_of_find?_eq_some hfind), by simpa using hk, ho⟩
  · rintro ⟨entry, hentry, hk, ho⟩
    obtain ⟨other, hfind⟩ := Option.isSome_iff_exists.1
      (List.find?_isSome.2 ⟨entry, List.mem_reverse.2 hentry, by simpa using hk⟩ :
        ((walkedEntries events).reverse.find? fun e => e.edgeKey = some k).isSome)
    have hk' : other.edgeKey = some k := by simpa using List.find?_some hfind
    have hother := List.mem_reverse.1 (List.mem_of_find?_eq_some hfind)
    exact ⟨other, hfind, hwalk.eq_of_edgeKey hentry hother hk hk' ▸ ho⟩

theorem ConsistentWalk.length_objectEdges (hwalk : ConsistentWalk root events)
    (hchild : ∀ k, c.child k = scannedChild (walkedEntries events) k) (inode : UInt64) :
    (c.objectEdges (.juiceFs inode)).length = ((walkedEntries events).filter fun other =>
      other.edgeKey.isSome ∧ other.inode = inode).length := by
  set named := (walkedEntries events).filter fun other => other.edgeKey.isSome ∧ other.inode = inode
    with hnamed
  have hmem : ∀ entry, entry ∈ named ↔
      entry ∈ walkedEntries events ∧ entry.edgeKey.isSome ∧ entry.inode = inode := by
    simp [hnamed]
  have hkeys : (named.filterMap PosixEntry.edgeKey).Nodup :=
    hwalk.names.sublist (List.filter_sublist.filterMap _)
  have hperm : (c.objectEdges (.juiceFs inode)).Perm (named.filterMap PosixEntry.edgeKey) := by
    rw [List.perm_ext_iff_of_nodup Catalog.nodup_objectEdges hkeys]
    intro k
    rw [Catalog.mem_objectEdges, hchild, hwalk.scannedChild_eq_some, List.mem_filterMap]
    constructor
    · rintro ⟨entry, hentry, hk, ho⟩
      exact ⟨entry, (hmem entry).2 ⟨hentry, by simp [hk], ObjectId.juiceFs.inj ho⟩, hk⟩
    · rintro ⟨entry, hentry, hk⟩
      obtain ⟨hwalked, -, rfl⟩ := (hmem entry).1 hentry
      exact ⟨entry, hwalked, hk, rfl⟩
  rw [hperm.length_eq, List.filterMap_length_eq_length]
  exact fun entry hentry => ((hmem entry).1 hentry).2.1

/-- **The catalog of a scan of one instant agrees.** -/
theorem entriesAgree_baseline (hwalk : ConsistentWalk root events)
    (h : (runJuicefsBaseline filesystem events errors observedAt now).run c = (.ok (), c')) :
    EntriesAgree (.juiceFs root) c' := by
  have hchild := child_runJuicefsBaseline h
  have hrow : ∀ o, c'.row o = (scannedEntry (walkedEntries events) o).map fun entry =>
      adaptRow filesystem entry observedAt := by
    intro o
    rw [run_runJuicefsBaseline_ok h]
    exact (row_foldl_withWalked ..).trans (Option.or_none ..)
  have hentry : ∀ o e, c'.row o = some e → ∃ entry ∈ walkedEntries events,
      .juiceFs entry.inode = o ∧ e = adaptRow filesystem entry observedAt := by
    intro o e he
    rw [hrow, Option.map_eq_some_iff] at he
    obtain ⟨entry, hfind, rfl⟩ := he
    exact ⟨entry, List.mem_reverse.1 (List.mem_of_find?_eq_some hfind),
      by simpa using List.find?_some hfind, rfl⟩
  refine ⟨fun k o hk => ?_, fun o e he hroot => ?_, fun o e he hfile => ?_⟩
  · rw [hchild, hwalk.scannedChild_eq_some] at hk
    obtain ⟨entry, hmem, -, ho⟩ := hk
    rw [hrow, Option.isSome_map, scannedEntry, List.find?_isSome]
    exact ⟨entry, List.mem_reverse.2 hmem, by simpa using ho⟩
  · obtain ⟨entry, hmem, rfl, -⟩ := hentry o e he
    cases hkey : entry.edgeKey with
    | none => exact absurd (congrArg ObjectId.juiceFs (hwalk.unnamed entry hmem hkey)) hroot
    | some k => exact ⟨k, by rw [hchild, hwalk.scannedChild_eq_some]; exact ⟨entry, hmem, hkey, rfl⟩⟩
  · obtain ⟨entry, hmem, rfl, rfl⟩ := hentry o e he
    rw [hwalk.length_objectEdges hchild]
    exact hwalk.counts entry hmem hfile

end Baseline

/-! ## §4 — Runs -/

/-- **Rows and edges agree along every run** that starts with a scan of one instant and whose records
meet `Keeps`. -/
theorem entriesAgree_of_run {filesystem : FileSystemId} {mountPath : Path} {history : List Change}
    {j n errors : ℕ} {root : UInt64} {events : List PosixWalkEvent} {observedAt now : Int}
    {before : Catalog} (hn : n ≤ history.length) (hwalk : ConsistentWalk root events)
    (run : ReplayRun filesystem mountPath history j n)
    (baseline : (runJuicefsBaseline filesystem events errors observedAt now).run before =
      (.ok (), run.catalog j))
    (shown : ℕ → FsState)
    (hshown : ∀ i, j ≤ i → i < n → (shown i).WF ∧ Shows mountPath (shown i) (run.live i))
    (hkeeps : ∀ i r, j ≤ i → i < n → history[i]? = some r → Keeps (shown i) (run.catalog i) r) :
    ∀ i, j ≤ i → i ≤ n → EntriesAgree (.juiceFs root) (run.catalog i) := by
  intro i hji
  induction i, hji using Nat.le_induction with
  | base => exact fun _ => entriesAgree_baseline hwalk baseline
  | succ i hji ih =>
    intro hin
    obtain ⟨r, hr⟩ : ∃ r, history[i]? = some r := ⟨_, List.getElem?_eq_getElem (by omega)⟩
    obtain ⟨hs, hlive⟩ := hshown i hji hin
    exact entriesAgree_applied hs hlive (ih (by omega)) (hkeeps i r hji hin hr)
      (run.applied i r hji hin hr)

namespace Sample

def rootScan : List PosixWalkEvent := [walked 1 none [] .directory 0]

def rootCatalog : Catalog := ((runJuicefsBaseline jfs rootScan 0 0 0).run registered).2

theorem rootScan_consistent : ConsistentWalk 1 rootScan where
  names := by decide
  unnamed := by decide
  counts := by decide

theorem emptyFs_wf : emptyFs.WF where
  root_kind := by decide
  root_unlinked k := by simp [emptyFs]
  native o kind h := by
    simp only [emptyFs, Table.getElem?_upsert] at h
    split_ifs at h with ho
    · rw [← ho]
      rfl
    · simp at h
  linked_kind k o h := by simp [emptyFs] at h
  plain k o h := by simp [emptyFs] at h
  parent_dir k o h := by simp [emptyFs] at h
  dir_link k k' d _ h := by simp [emptyFs] at h
  ranked := ⟨fun _ => 0, fun k d h => by simp [emptyFs] at h⟩

/-- A file gets a second name and loses its first. -/
def relink : List Change :=
  [create 10 a, .hardlinked (.juiceFs 10) root b 0, unlink 10 a]

theorem relink_allowed : emptyFs.AllowsAll relink := by
  have hroot : ∀ i, (emptyFs.stateAfter relink i).kinds[root]? = some .directory →
      (emptyFs.stateAfter relink i).root = root →
      (emptyFs.stateAfter relink i).Dir root := fun i hkind hr => ⟨hkind, .inl hr.symm⟩
  intro i r hr
  match i with
  | 0 =>
    cases hr
    exact ⟨by decide +kernel, by decide +kernel, rfl, hroot 0 (by decide +kernel) rfl,
      by decide +kernel⟩
  | 1 =>
    cases hr
    exact ⟨by decide +kernel, by decide +kernel, .inr ⟨⟨root, a⟩, by decide +kernel⟩,
      hroot 1 (by decide +kernel) rfl, by decide +kernel⟩
  | 2 =>
    cases hr
    exact ⟨by decide +kernel, by decide +kernel, fun h => by cases h⟩
  | i + 3 => cases hr

def relinkReplay : ReplayRun jfs mountPath relink 0 3 :=
  ReplayRun.ofAccepted (fun i => (emptyFs.stateAfter relink (i + 1)).mountAt mountPath) rootCatalog
    (by
      intro i r hi hr
      interval_cases i <;> cases hr <;> decide +kernel)

theorem relinkReplay_keeps (i : ℕ) (r : Change) (hi : i < 3) (hr : relink[i]? = some r) :
    Keeps (emptyFs.stateAfter relink (i + 1)) (relinkReplay.catalog i) r := by
  interval_cases i <;> cases hr
  · refine ⟨.inl (by decide +kernel), by decide +kernel, by decide +kernel, fun _ => ?_⟩
    exact ⟨by decide +kernel, by decide +kernel, fun _ => by decide +kernel,
      fun _ => by decide +kernel⟩
  · show (((relinkReplay.catalog 1)).objectEdges (.juiceFs 10)).length + 1 < 2 ^ 32
    decide +kernel
  · intro _ e he
    have hkind : ((relinkReplay.catalog 2).row (.juiceFs 10)).map ScopedEntryRow.kind = some .file := by
      decide +kernel
    have he := he
    rw [he, Option.map_some, Option.some.injEq] at hkind
    exact ⟨by simp [hkind], fun h => by cases h⟩

/-- Along the second name's run rows and edges agree. -/
theorem relink_agrees : EntriesAgree root (relinkReplay.catalog 3) :=
  entriesAgree_of_run (by decide) rootScan_consistent relinkReplay
    (show (runJuicefsBaseline jfs rootScan 0 0 0).run registered = (.ok (), rootCatalog) from
      Prod.ext (by decide +kernel) rfl)
    (fun i => emptyFs.stateAfter relink (i + 1))
    (fun i _ _ => ⟨emptyFs_wf.stateAfter relink_allowed _,
      FsState.shows_mountAt (emptyFs_wf.stateAfter relink_allowed _)⟩)
    (fun i r _ hi hr => relinkReplay_keeps i r hi hr) 3 (by decide) le_rfl

theorem overwrite_allowed : emptyFs.AllowsAll overwrite := by
  have hroot : ∀ i, (emptyFs.stateAfter overwrite i).kinds[root]? = some .directory →
      (emptyFs.stateAfter overwrite i).root = root →
      (emptyFs.stateAfter overwrite i).Dir root := fun i hkind hr => ⟨hkind, .inl hr.symm⟩
  intro i r hr
  match i with
  | 0 =>
    cases hr
    exact ⟨by decide +kernel, by decide +kernel, rfl, hroot 0 (by decide +kernel) rfl,
      by decide +kernel⟩
  | 1 =>
    cases hr
    exact ⟨by decide +kernel, by decide +kernel, rfl, hroot 1 (by decide +kernel) rfl,
      by decide +kernel⟩
  | 2 =>
    cases hr
    refine ⟨by decide +kernel, hroot 2 (by decide +kernel) rfl, by decide +kernel, ?_, ?_⟩
    · -- A file holds no names, so nothing is reached from it.
      rintro (_ | ⟨n, names⟩)
      · decide
      · simp [FsState.walkFrom, FsState.stateAfter, overwrite, FsState.after, onLinks, create,
          emptyFs, root]
    · intro d hd hdir
      have hfile : (emptyFs.stateAfter overwrite 2).links[(⟨root, b⟩ : EdgeKey)]? =
          some (.juiceFs 11) := by decide +kernel
      have hd := hd
      rw [hfile] at hd
      cases hd
      exact absurd hdir (by decide +kernel)
  | i + 3 => cases hr

/-- The move over `b`, applied without any lag. -/
def overwriteReplay : ReplayRun jfs mountPath overwrite 0 3 :=
  ReplayRun.ofAccepted (fun i => (emptyFs.stateAfter overwrite (i + 1)).mountAt mountPath) rootCatalog
    (by
      intro i r hi hr
      interval_cases i <;> cases hr <;> decide +kernel)

/-- **A move over an existing name leaves the displaced row behind**: after the records of `overwrite`,
all accepted and without any lag, inode 11 has a row and no edge. -/
theorem overwrite_disagrees :
    emptyFs.AllowsAll overwrite ∧ ConsistentWalk 1 rootScan ∧
      (runJuicefsBaseline jfs rootScan 0 0 0).run registered = (.ok (), overwriteReplay.catalog 0) ∧
      (∀ i, Shows mountPath (emptyFs.stateAfter overwrite (i + 1)) (overwriteReplay.live i)) ∧
      ¬ EntriesAgree root (overwriteReplay.catalog 3) := by
  refine ⟨overwrite_allowed, rootScan_consistent, Prod.ext (by decide +kernel) rfl,
    fun i => FsState.shows_mountAt (emptyFs_wf.stateAfter overwrite_allowed _), fun hagree => ?_⟩
  have hrow : ((overwriteReplay.catalog 3).row (.juiceFs 11)).isSome := by decide +kernel
  obtain ⟨e, he⟩ := Option.isSome_iff_exists.1 hrow
  obtain ⟨k, hk⟩ := hagree.row_edge _ e he (by decide)
  have hedges : (overwriteReplay.catalog 3).objectEdges (.juiceFs 11) = [] := by decide +kernel
  have hmem := Catalog.mem_objectEdges.2 hk
  rw [hedges] at hmem
  cases hmem

end Sample

end Robinhood.JuiceFs
