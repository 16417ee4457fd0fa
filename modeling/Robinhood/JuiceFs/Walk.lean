/-
# JuiceFs.Walk — what the walker reports of a JuiceFS mount

A walk of a mount that stands still and whose directories can all be read reports every chain of names
from the root, unless a name on it is ignored, with its depth and its edge (`exists_describes`,
`describes_of_walks`).  Whatever the workers do, it comes to an end (`walk_ends`).
-/
import Mathlib
import Robinhood.JuiceFs.Resolution
import Robinhood.Scan.Posix

namespace Robinhood.JuiceFs

open Lib Posix Store Ingest Scan

/-! ## §1 — Mounts that can be read -/

/-- **A mount whose directories can all be read**: the listing of a directory holds its names, each with
the kind of the object. -/
structure Reads (mountPath : Path) (s : FsState) (mount : WalkMount) : Prop
    extends Shows mountPath s mount.toMount where
  listing : ∀ path md, mount.symlinkMetadata path = .ok md →
    s.kinds[ObjectId.juiceFs md.ino]? = some .directory →
    ∃ entries : List DirEntry, mount.readDir path = .ok (entries.map .ok) ∧
      (∀ n o, s.links[(⟨.juiceFs md.ino, n⟩ : EdgeKey)]? = some o →
        ∃ entry ∈ entries, entry.fileName = n) ∧
      ∀ entry ∈ entries, ∃ o kind, s.links[(⟨.juiceFs md.ino, entry.fileName⟩ : EdgeKey)]? = some o ∧
        s.kinds[o]? = some kind ∧ entry.fileType = .ok kind

/-- No path has 2³² names.  The kernel refuses far shorter ones (`PATH_MAX`), so a mount whose directories
can all be read has none. -/
def FsState.Short (s : FsState) : Prop := ∀ names o, s.walk names = some o → names.length < 2 ^ 32

/-- **The entry describes what the chain of names leads to**: the object, the number of the names, and the
edge of the last one; the root has no edge. -/
structure Describes (s : FsState) (names : List Name) (entry : PosixEntry) : Prop where
  found : s.walk names = some (.juiceFs entry.inode)
  depth : entry.depth.toNat = names.length
  edge : (names = [] ∧ entry.edgeKey = none) ∨
    ∃ front n d, names = front ++ [n] ∧ s.walk front = some d ∧ entry.edgeKey = some ⟨d, n⟩

theorem FsState.walk_concat {s : FsState} {names : List Name} {n : Name} {o : ObjectId} :
    s.walk (names ++ [n]) = some o ↔
      ∃ d, s.walk names = some d ∧ s.links[(⟨d, n⟩ : EdgeKey)]? = some o := by
  rw [walk, walk, walkFrom_concat, Option.bind_eq_some_iff]

theorem Describes.link {s : FsState} {names : List Name} {entry : PosixEntry} {k : EdgeKey}
    (h : Describes s names entry) (hk : entry.edgeKey = some k) :
    ∃ front, names = front ++ [k.name] ∧ s.walk front = some k.parent ∧
      s.links[k]? = some (.juiceFs entry.inode) := by
  rcases h.edge with ⟨-, hnone⟩ | ⟨front, n, d, rfl, hfront, hsome⟩
  · rw [hnone] at hk
    cases hk
  · rw [hsome] at hk
    cases hk
    obtain ⟨d', hd', hlink⟩ := FsState.walk_concat.1 h.found
    obtain rfl : d = d' := Option.some.inj (hfront.symm.trans hd')
    exact ⟨front, rfl, hfront, hlink⟩

theorem Describes.unnamed {s : FsState} {names : List Name} {entry : PosixEntry}
    (h : Describes s names entry) (hnone : entry.edgeKey = none) : names = [] := by
  rcases h.edge with ⟨hnil, -⟩ | ⟨front, n, d, -, -, hsome⟩
  · exact hnil
  · rw [hnone] at hsome
    cases hsome

section Stat

variable {mountPath : Path} {s : FsState} {mount : WalkMount}

/-- What `stat_entry` finds at the end of a chain of names. -/
theorem exists_statEntry (hs : s.WF) (hshort : s.Short) (hreads : Reads mountPath s mount)
    {names : List Name} {o : ObjectId} (h : s.walk names = some o) :
    ∃ entry, statEntry mount (mountPath.pushAll names) (UInt32.ofNat names.length) = .ok entry ∧
      Describes s names entry := by
  obtain ⟨md, hmd, rfl⟩ := hreads.toShows.found hs h
  have hlength := hshort _ _ h
  have hdepth := UInt32.toNat_ofNat_of_lt' hlength
  rcases List.eq_nil_or_concat names with rfl | ⟨front, n, rfl⟩
  · exact ⟨_, statEntry_root hmd, h, rfl, .inl ⟨rfl, rfl⟩⟩
  · rw [List.concat_eq_append] at *
    obtain ⟨d, hd, hlink⟩ := FsState.walk_concat.1 h
    obtain ⟨pmd, hpmd, rfl⟩ := hreads.toShows.found hs hd
    have hne : UInt32.ofNat (front ++ [n]).length ≠ 0 := fun hzero => by
      rw [hzero] at hdepth
      simp at hdepth
    rw [pushAll_concat, Path.push_plain (hs.plain _ _ hlink)] at hmd ⊢
    exact ⟨_, statEntry_below hne hmd hpmd, h, hdepth,
      .inr ⟨front, n, _, rfl, hd, edgeKey_posixEntry_below⟩⟩

end Stat

/-! ## §2 — The directories of a walk -/

section Walk

variable {mountPath : Path} {s : FsState} {mount : WalkMount} (hs : s.WF) (hshort : s.Short)
  (hreads : Reads mountPath s mount)

def Unignored (mount : WalkMount) (mountPath : Path) (names : List Name) : Prop :=
  ∀ n ∈ names, ignored mount (namespaceScan mountPath) n = false

theorem unignored_concat {names : List Name} {n : Name} :
    Unignored mount mountPath (names ++ [n]) ↔
      Unignored mount mountPath names ∧ ignored mount (namespaceScan mountPath) n = false := by
  simp [Unignored, or_imp, forall_and]

def directoryJob (mountPath : Path) (names : List Name) : Path × ℕ :=
  (mountPath.pushAll names, names.length)

def Reported (mount : WalkMount) (mountPath : Path) (names : List Name) (entry : PosixEntry) : Prop :=
  statEntry mount (mountPath.pushAll names) (UInt32.ofNat names.length) = .ok entry

theorem mem_emitPath {names : List Name} {entry : PosixEntry} {directory : Bool} {op : WalkOp}
    (h : Reported mount mountPath names entry) :
    op ∈ emitPath mount (namespaceScan mountPath) (mountPath.pushAll names)
      (UInt32.ofNat names.length) directory ↔ op = .emit (.entry entry) := by
  rw [Reported] at h
  simp [emitPath, h, namespaceScan]

include hs hshort hreads in
theorem mem_processEntry {names : List Name} {entry : DirEntry} {o : ObjectId} {kind : EntryKind}
    (hwalk : s.walk (names ++ [entry.fileName]) = some o) (htype : entry.fileType = .ok kind)
    {op : WalkOp} :
    op ∈ processEntry mount (namespaceScan mountPath) (mountPath.pushAll names) names.length entry ↔
      ignored mount (namespaceScan mountPath) entry.fileName = false ∧
        ((kind = .directory ∧ op = .push (directoryJob mountPath (names ++ [entry.fileName]))) ∨
          (kind ≠ .directory ∧ ∃ reported,
            Reported mount mountPath (names ++ [entry.fileName]) reported ∧
              op = .emit (.entry reported))) := by
  obtain ⟨reported, hreported, -⟩ := exists_statEntry hs hshort hreads hwalk
  have hdepth : UInt32.ofNat names.length + 1 = UInt32.ofNat (names ++ [entry.fileName]).length := by
    simp [UInt32.ofNat_add]
  have hreported' : ∀ r, Reported mount mountPath (names ++ [entry.fileName]) r ↔ r = reported := by
    intro r
    rw [Reported, hreported, Except.ok.injEq, eq_comm]
  rw [processEntry]
  cases hignored : ignored mount (namespaceScan mountPath) entry.fileName with
  | true => simp
  | false =>
    simp only [Bool.false_eq_true, if_false, htype, true_and, hreported', exists_eq_left]
    rw [← pushAll_concat, hdepth]
    cases kind with
    | directory => simp [directoryJob, namespaceScan]
    | _ =>
      simp only [reduceCtorEq, false_and, false_or, ne_eq, not_false_eq_true, true_and]
      exact mem_emitPath hreported

include hs hshort hreads in
/-- **The script of a directory**: its own entry, and for every name that is not ignored the job of a
directory or the entry of another object. -/
theorem mem_processDirectory {names : List Name} {d : ObjectId} (hwalk : s.walk names = some d)
    (hdir : s.kinds[d]? = some .directory) {op : WalkOp} :
    op ∈ processDirectory mount (namespaceScan mountPath) (directoryJob mountPath names) ↔
      (∃ entry, Reported mount mountPath names entry ∧ op = .emit (.entry entry)) ∨
      ∃ n o, s.links[(⟨d, n⟩ : EdgeKey)]? = some o ∧
        ignored mount (namespaceScan mountPath) n = false ∧
        ((s.kinds[o]? = some .directory ∧ op = .push (directoryJob mountPath (names ++ [n]))) ∨
          (s.kinds[o]? ≠ some .directory ∧
            ∃ entry, Reported mount mountPath (names ++ [n]) entry ∧ op = .emit (.entry entry))) := by
  obtain ⟨md, hmd, rfl⟩ := hreads.toShows.found hs hwalk
  obtain ⟨entries, hentries, hcomplete, hsound⟩ := hreads.listing _ md hmd hdir
  obtain ⟨own, hown, -⟩ := exists_statEntry hs hshort hreads hwalk
  rw [directoryJob, processDirectory, hentries]
  simp only [List.mem_append, mem_processEntries, mem_emitPath hown]
  refine or_congr ⟨fun h => ⟨own, hown, h⟩, ?_⟩ ⟨?_, ?_⟩
  · rintro ⟨entry, hentry, rfl⟩
    rw [Reported, hown] at hentry
    cases hentry
    rfl
  · rintro ⟨entry, hentry, hop⟩
    obtain ⟨o, kind, hlink, hkind, htype⟩ := hsound entry hentry
    obtain ⟨hignored, hcase⟩ := (mem_processEntry hs hshort hreads
      (FsState.walk_concat.2 ⟨_, hwalk, hlink⟩) htype).1 hop
    refine ⟨entry.fileName, o, hlink, hignored, ?_⟩
    simpa only [hkind, Option.some.injEq, ne_eq] using hcase
  · rintro ⟨n, o, hlink, hignored, hcase⟩
    obtain ⟨entry, hentry, rfl⟩ := hcomplete n o hlink
    obtain ⟨o', kind, hlink', hkind, htype⟩ := hsound entry hentry
    obtain rfl : o = o' := Option.some.inj (hlink.symm.trans hlink')
    refine ⟨entry, hentry, (mem_processEntry hs hshort hreads
      (FsState.walk_concat.2 ⟨_, hwalk, hlink⟩) htype).2 ⟨hignored, ?_⟩⟩
    simpa only [hkind, Option.some.injEq, ne_eq] using hcase

include hs hshort hreads in
/-- **The directories a walk comes to** are those on chains of names of which none is ignored. -/
theorem reached_iff {job : Path × ℕ} :
    WorkQueue.Reached (processDirectory mount (namespaceScan mountPath)) (mountPath, 0) job ↔
      ∃ names d, job = directoryJob mountPath names ∧ s.walk names = some d ∧
        s.kinds[d]? = some .directory ∧ Unignored mount mountPath names := by
  constructor
  · intro h
    induction h with
    | refl => exact ⟨[], s.root, rfl, rfl, hs.root_kind, nofun⟩
    | tail _ hpush ih =>
      obtain ⟨names, d, rfl, hwalk, hdir, hnames⟩ := ih
      rcases (mem_processDirectory hs hshort hreads hwalk hdir).1 hpush with
        ⟨entry, -, h⟩ | ⟨n, o, hlink, hignored, ⟨hkind, h⟩ | ⟨-, entry, -, h⟩⟩
      · cases h
      · cases h
        exact ⟨names ++ [n], o, rfl, FsState.walk_concat.2 ⟨d, hwalk, hlink⟩, hkind,
          unignored_concat.2 ⟨hnames, hignored⟩⟩
      · cases h
  · rintro ⟨names, d, rfl, hwalk, hdir, hnames⟩
    induction names using List.reverseRecOn generalizing d with
    | nil => exact .refl
    | append_singleton names n ih =>
      obtain ⟨p, hp, hlink⟩ := FsState.walk_concat.1 hwalk
      obtain ⟨hnames, hignored⟩ := unignored_concat.1 hnames
      have hpdir := (hs.parent_dir _ _ hlink).1
      exact (ih p hp hpdir hnames).tail ((mem_processDirectory hs hshort hreads hp hpdir).2
        (.inr ⟨n, d, hlink, hignored, .inl ⟨hdir, rfl⟩⟩))

/-! ## §3 — The events of a walk -/

variable {events : List PosixWalkEvent}

include hs hshort hreads in
/-- **Every event is an entry** that describes a chain of names of which none is ignored. -/
theorem describes_of_walks (hwalks : Walks mount (namespaceScan mountPath) events)
    {event : PosixWalkEvent} (hevent : event ∈ events) :
    ∃ names entry, event = .entry entry ∧ Unignored mount mountPath names ∧ Describes s names entry := by
  have hdescribes : ∀ {names o entry}, s.walk names = some o → Reported mount mountPath names entry →
      Describes s names entry := fun hwalk hreported => by
    obtain ⟨entry', hstat, hdescribes⟩ := exists_statEntry hs hshort hreads hwalk
    rw [Reported, hstat] at hreported
    cases hreported
    exact hdescribes
  obtain ⟨job, hreached, hemit⟩ := hwalks.mem_iff.1 hevent
  obtain ⟨names, d, rfl, hwalk, hdir, hnames⟩ := (reached_iff hs hshort hreads).1 hreached
  rcases (mem_processDirectory hs hshort hreads hwalk hdir).1 hemit with
    ⟨entry, hreported, h⟩ | ⟨n, o, hlink, hignored, ⟨-, h⟩ | ⟨-, entry, hreported, h⟩⟩
  · cases h
    exact ⟨names, entry, rfl, hnames, hdescribes hwalk hreported⟩
  · cases h
  · cases h
    exact ⟨names ++ [n], entry, rfl, unignored_concat.2 ⟨hnames, hignored⟩,
      hdescribes (FsState.walk_concat.2 ⟨d, hwalk, hlink⟩) hreported⟩

include hs hshort hreads in
/-- **Every such chain is described** by an event. -/
theorem exists_describes (hwalks : Walks mount (namespaceScan mountPath) events) {names : List Name}
    {o : ObjectId} (hwalk : s.walk names = some o) (hnames : Unignored mount mountPath names) :
    ∃ entry, .entry entry ∈ events ∧ Describes s names entry := by
  obtain ⟨entry, hreported, hdescribes⟩ := exists_statEntry hs hshort hreads hwalk
  refine ⟨entry, hwalks.mem_iff.2 ?_, hdescribes⟩
  by_cases hdir : s.kinds[o]? = some .directory
  · -- a directory is reported by its own job
    exact ⟨directoryJob mountPath names,
      (reached_iff hs hshort hreads).2 ⟨names, o, rfl, hwalk, hdir, hnames⟩,
      (mem_processDirectory hs hshort hreads hwalk hdir).2 (.inl ⟨entry, hreported, rfl⟩)⟩
  · -- another object by the job of the directory that holds the name
    rcases List.eq_nil_or_concat names with rfl | ⟨front, n, rfl⟩
    · cases hwalk
      exact absurd hs.root_kind hdir
    · rw [List.concat_eq_append] at *
      obtain ⟨d, hd, hlink⟩ := FsState.walk_concat.1 hwalk
      obtain ⟨hfront, hignored⟩ := unignored_concat.1 hnames
      have hddir := (hs.parent_dir _ _ hlink).1
      exact ⟨directoryJob mountPath front,
        (reached_iff hs hshort hreads).2 ⟨front, d, rfl, hd, hddir, hfront⟩,
        (mem_processDirectory hs hshort hreads hd hddir).2
          (.inr ⟨n, o, hlink, hignored, .inr ⟨hdir, entry, hreported, rfl⟩⟩)⟩

/-! ## §4 — The end of a walk -/

theorem exists_rank_bound (rank : ObjectId → ℕ) (links : Links) :
    ∃ bound, ∀ (k : EdgeKey) o, links[k]? = some o → rank o ≤ bound := by
  refine ⟨(links.toList.map fun row => rank row.2).sum, fun k o hk => ?_⟩
  refine List.single_le_sum (by simp) _ (List.mem_map.2 ⟨(k, o), ?_, rfl⟩)
  exact Std.ExtTreeMap.mem_toList_iff_getElem?_eq_some.2 hk

include hs hshort hreads in
theorem exists_cost : ∃ cost, ∀ job,
    WorkQueue.Reached (processDirectory mount (namespaceScan mountPath)) (mountPath, 0) job →
      WorkQueue.Pays (processDirectory mount (namespaceScan mountPath)) cost job := by
  obtain ⟨rank, hrank⟩ := hs.ranked
  obtain ⟨bound, hbound⟩ := exists_rank_bound rank s.links
  -- a job ranks by the directory that its path shows
  let object : Path → ObjectId := fun path =>
    (mount.symlinkMetadata path).toOption.elim s.root fun md => .juiceFs md.ino
  have hobject : ∀ {names o}, s.walk names = some o → object (mountPath.pushAll names) = o := by
    intro names o hwalk
    obtain ⟨md, hmd, rfl⟩ := hreads.toShows.found hs hwalk
    simp only [object, hmd, Except.toOption, Option.elim]
  refine WorkQueue.exists_pays (fun job => bound - rank (object job.1)) fun job next hreached hpush => ?_
  obtain ⟨names, d, rfl, hwalk, hdir, -⟩ := (reached_iff hs hshort hreads).1 hreached
  rcases (mem_processDirectory hs hshort hreads hwalk hdir).1 hpush with
    ⟨entry, -, h⟩ | ⟨n, o, hlink, -, ⟨hkind, h⟩ | ⟨-, entry, -, h⟩⟩
  · cases h
  · cases h
    have hlt := hrank _ o hlink hkind
    have hle := hbound _ o hlink
    simp only [directoryJob, hobject hwalk, hobject (FsState.walk_concat.2 ⟨d, hwalk, hlink⟩)]
    simp only at hlt
    omega
  · cases h

include hs hshort hreads in
/-- **Every walk comes to its end**: no interleaving goes on for ever, and none is stuck before. -/
theorem walk_ends :
    (∀ run : ℕ → WalkState, run 0 = WorkQueue.init (mountPath, 0) 4 →
      ¬ ∀ i, WorkQueue.Step (processDirectory mount (namespaceScan mountPath)) 1024 (run i)
        (run (i + 1))) ∧
    (∀ state, Walking mount (namespaceScan mountPath) state → ¬ state.Finished →
      ∃ next, WorkQueue.Step (processDirectory mount (namespaceScan mountPath)) 1024 state next) ∧
    ∃ events, Walks mount (namespaceScan mountPath) events := by
  obtain ⟨cost, hpays⟩ := exists_cost hs hshort hreads
  refine ⟨fun run hinit => WorkQueue.not_endless hpays run hinit,
    fun state hwalking hfinished => WorkQueue.exists_step (Nat.succ_pos 1023) hwalking hfinished, ?_⟩
  have hstart : Walking mount (namespaceScan mountPath) (WorkQueue.init (mountPath, 0) 4) := .refl
  obtain ⟨state, hwalking, hfinished⟩ := WorkQueue.exists_finished (Nat.succ_pos 1023) hpays hstart
  exact ⟨state.received, state, hwalking, hfinished, rfl⟩

end Walk

/-! ## §5 — A mount to walk -/

/-- In a tree whose directories rank below `bound` no path is longer. -/
theorem FsState.WF.short {s : FsState} (hs : s.WF) (rank : ObjectId → ℕ) (bound : ℕ)
    (hrank : ∀ (k : EdgeKey) d, s.links[k]? = some d → s.kinds[d]? = some .directory →
      rank k.parent < rank d) (hbound : ∀ (k : EdgeKey) o, s.links[k]? = some o → rank k.parent ≤ bound)
    (hsmall : bound + 1 < 2 ^ 32) : s.Short := by
  have hdir : ∀ {names d}, s.walk names = some d → s.kinds[d]? = some .directory →
      names.length ≤ rank d := by
    intro names
    induction names using List.reverseRecOn with
    | nil => exact fun _ _ => Nat.zero_le _
    | append_singleton names n ih =>
      intro d hwalk hd
      obtain ⟨p, hp, hlink⟩ := walk_concat.1 hwalk
      have hle := ih hp (hs.parent_dir _ _ hlink).1
      have hlt := hrank _ d hlink hd
      simp only [List.length_append, List.length_singleton]
      simp only at hlt
      omega
  intro names o hwalk
  rcases List.eq_nil_or_concat names with rfl | ⟨front, n, rfl⟩
  · simp
  · rw [List.concat_eq_append] at *
    obtain ⟨p, hp, hlink⟩ := walk_concat.1 hwalk
    have hle := hdir hp (hs.parent_dir _ _ hlink).1
    have hp := hbound _ o hlink
    simp only [List.length_append, List.length_singleton]
    simp only at hp
    omega

/-- **A mount of a filesystem without symbolic links**, with the contents of its ignore file. -/
def FsState.walkMountAt (s : FsState) (mountPath : Path) (ignoreFile : Option String) : WalkMount where
  toMount := s.mountAt mountPath
  readDir path := match s.resolvePath mountPath path with
    | some d => .ok (((s.links.toList.filter fun row => row.1.parent = d).map fun row =>
        (⟨row.1.name, .ok ((s.kinds[row.2]?).getD .file)⟩ : DirEntry)).map .ok)
    | none => .error .notFound
  readToString path :=
    if path = mountPath.push rbhIgnore then ignoreFile.elim (.error .notFound) .ok else .error .notFound
  describe _ := "not found"
  display _ := "path"

theorem reads_walkMountAt {s : FsState} {mountPath : Path} {ignoreFile : Option String} (hs : s.WF) :
    Reads mountPath s (s.walkMountAt mountPath ignoreFile) where
  toShows := FsState.shows_mountAt hs
  listing path md hmd hdir := by
    obtain ⟨hresolve, -⟩ := FsState.mountAt_symlinkMetadata hs hmd
    refine ⟨_, by simp only [FsState.walkMountAt, hresolve]; rfl, fun n o hlink => ?_, fun entry hentry => ?_⟩
    · refine ⟨⟨n, .ok ((s.kinds[o]?).getD .file)⟩, List.mem_map.2 ⟨(⟨.juiceFs md.ino, n⟩, o), ?_, rfl⟩, rfl⟩
      simp [Std.ExtTreeMap.mem_toList_iff_getElem?_eq_some, hlink]
    · obtain ⟨⟨k, o⟩, hrow, rfl⟩ := List.mem_map.1 hentry
      simp only [List.mem_filter, Std.ExtTreeMap.mem_toList_iff_getElem?_eq_some,
        decide_eq_true_eq] at hrow
      obtain ⟨hlink, hparent⟩ := hrow
      obtain ⟨kind, hkind⟩ := Option.isSome_iff_exists.1 (hs.linked_kind k o hlink)
      exact ⟨o, kind, by rw [← hparent]; exact hlink, hkind, by rw [hkind]; rfl⟩

end Robinhood.JuiceFs
