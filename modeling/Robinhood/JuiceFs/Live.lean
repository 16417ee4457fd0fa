/-
# JuiceFs.Live — JuiceFS filesystems and what a mount of one shows

A JuiceFS filesystem is a tree of links with the kind of every inode it ever created; inode numbers are
not used again.  `Allows` and `after` are its operations as POSIX has them, with the links moved by
`onLinks`.  `Shows` relates a live mount to such a filesystem: paths through real directories lead where
the links lead, and nothing is said about paths through symbolic links.
-/
import Mathlib
import Robinhood.JuiceFs.History
import Robinhood.Posix.Mount
import Robinhood.Store.Catalog

namespace Robinhood.JuiceFs

open Lib Posix Store Ingest

/-! ## §1 — Filesystems -/

/-- **A JuiceFS filesystem**: its root, its links, and the kind of every inode created so far. -/
structure FsState where
  root : ObjectId
  links : Links
  kinds : Table ObjectId EntryKind

namespace FsState

variable (s : FsState)

/-- The object a chain of names leads to from `o`. -/
def walkFrom (links : Links) : ObjectId → List Name → Option ObjectId
  | o, [] => some o
  | o, n :: names =>
    match links[(⟨o, n⟩ : EdgeKey)]? with
    | some o' => walkFrom links o' names
    | none => none

def walk (names : List Name) : Option ObjectId := walkFrom s.links s.root names

def Linked (o : ObjectId) : Prop := o = s.root ∨ ∃ k : EdgeKey, s.links[k]? = some o

def Dir (d : ObjectId) : Prop := s.kinds[d]? = some .directory ∧ s.Linked d

def linkCount (o : ObjectId) : ℕ := (s.links.keysWith o).length

theorem walkFrom_append (links : Links) (o : ObjectId) (names rest : List Name) :
    walkFrom links o (names ++ rest) = (walkFrom links o names).bind (walkFrom links · rest) := by
  induction names generalizing o with
  | nil => rfl
  | cons n names ih =>
    simp only [List.cons_append, walkFrom]
    cases links[(⟨o, n⟩ : EdgeKey)]? with
    | none => rfl
    | some o' => exact ih o'

theorem walkFrom_concat (links : Links) (o : ObjectId) (names : List Name) (n : Name) :
    walkFrom links o (names ++ [n]) =
      (walkFrom links o names).bind fun d => links[(⟨d, n⟩ : EdgeKey)]? := by
  rw [walkFrom_append]
  congr 1
  funext d
  simp only [walkFrom]
  cases links[(⟨d, n⟩ : EdgeKey)]? <;> rfl

/-! ## §2 — Operations -/

/-- When POSIX lets the operation behind a record happen. -/
def Allows : Change → Prop
  | .created object parent name kind metadata time =>
    Enabled s.links (.created object parent name kind metadata time) ∧
      s.kinds[object]? = none ∧ object.backend = .juiceFs ∧ s.Dir parent ∧ Path.Plain name
  | .hardlinked object parent name time =>
    Enabled s.links (.hardlinked object parent name time) ∧
      s.kinds[object]? ≠ some .directory ∧ s.Linked object ∧ s.Dir parent ∧ Path.Plain name
  | .removed object parent name lastLink directory time =>
    Enabled s.links (.removed object parent name lastLink directory time) ∧
      (directory ↔ s.kinds[object]? = some .directory) ∧
      (directory → ∀ n, s.links[(⟨object, n⟩ : EdgeKey)]? = none)
  | .renamed object sourceParent sourceName parent name time =>
    Enabled s.links (.renamed object sourceParent sourceName parent name time) ∧
      s.Dir parent ∧ Path.Plain name ∧
      (∀ names, walkFrom s.links object names ≠ some parent) ∧
      ∀ d, s.links[(⟨parent, name⟩ : EdgeKey)]? = some d →
        s.kinds[d]? = some .directory → ∀ n, s.links[(⟨d, n⟩ : EdgeKey)]? = none
  | .metadataChanged object _ _ | .contentChanged object _ _ _ _ => (s.kinds[object]?).isSome
  | .backend _ => False

def after (r : Change) : FsState where
  root := s.root
  links := onLinks r s.links
  kinds := match r with
    | .created object _ _ kind _ _ => s.kinds.insert object kind
    | _ => s.kinds

/-- The filesystem after the first `i` records of a history. -/
def stateAfter (history : List Change) (i : ℕ) : FsState := (history.take i).foldl after s

theorem stateAfter_succ {s : FsState} {history : List Change} {i : ℕ} {r : Change}
    (h : history[i]? = some r) : s.stateAfter history (i + 1) = (s.stateAfter history i).after r := by
  rw [stateAfter, List.take_add_one, h, List.foldl_append]
  rfl

/-- **A POSIX history** from `s`. -/
def AllowsAll (history : List Change) : Prop :=
  ∀ i r, history[i]? = some r → (s.stateAfter history i).Allows r

/-- **A well-formed filesystem**: a tree of directories below the root, with files and other objects
linked into it.  That the directories form a tree is a rank: a directory ranks below what contains it. -/
structure WF : Prop where
  root_kind : s.kinds[s.root]? = some .directory
  root_unlinked : ∀ k : EdgeKey, s.links[k]? ≠ some s.root
  native : ∀ (o : ObjectId) kind, s.kinds[o]? = some kind → o.backend = .juiceFs
  linked_kind : ∀ (k : EdgeKey) o, s.links[k]? = some o → (s.kinds[o]?).isSome
  plain : ∀ (k : EdgeKey) o, s.links[k]? = some o → Path.Plain k.name
  parent_dir : ∀ (k : EdgeKey) o, s.links[k]? = some o → s.Dir k.parent
  dir_link : ∀ (k k' : EdgeKey) d, s.kinds[d]? = some .directory → s.links[k]? = some d →
    s.links[k']? = some d → k = k'
  ranked : ∃ rank : ObjectId → ℕ, ∀ (k : EdgeKey) d, s.links[k]? = some d →
    s.kinds[d]? = some .directory → rank k.parent < rank d

end FsState

/-! ## §3 — Mounts -/

/-- **What a mount at `mountPath` shows of a filesystem.**  The mount point is the root; below a path
that shows a directory every name is seen as it is; an object that is not a directory reports its number
of names; and a directory reached through real directories lies inside the mount. -/
structure Shows (mountPath : Path) (s : FsState) (mount : Mount) : Prop where
  root : ∃ md, mount.symlinkMetadata mountPath = .ok md ∧ s.root = .juiceFs md.ino
  child : ∀ path md n o, mount.symlinkMetadata path = .ok md →
    s.kinds[ObjectId.juiceFs md.ino]? = some .directory → Path.Plain n →
    s.links[(⟨.juiceFs md.ino, n⟩ : EdgeKey)]? = some o →
    ∃ md', mount.symlinkMetadata (path.push n) = .ok md' ∧ o = .juiceFs md'.ino
  missing : ∀ path md n, mount.symlinkMetadata path = .ok md →
    s.kinds[ObjectId.juiceFs md.ino]? = some .directory → Path.Plain n →
    s.links[(⟨.juiceFs md.ino, n⟩ : EdgeKey)]? = none →
    ∃ e, mount.symlinkMetadata (path.push n) = .error e
  count : ∀ path md, mount.symlinkMetadata path = .ok md →
    s.kinds[ObjectId.juiceFs md.ino]? ≠ some .directory →
    md.nlink = UInt64.ofNat (s.linkCount (.juiceFs md.ino))
  inside : ∃ canonical, mount.canonicalize mountPath = .ok canonical ∧
    ∀ names d, s.walk names = some d → s.kinds[d]? = some .directory →
      ∃ path, mount.canonicalize (mountPath.pushAll names) = .ok path ∧ path.startsWith canonical

def plainNames : Path → Option (List Name)
  | [] => some []
  | .normal n :: rest => (plainNames rest).map (n :: ·)
  | _ :: _ => none

def FsState.metadata (s : FsState) (o : ObjectId) : Metadata where
  kind := (s.kinds[o]?).getD .file
  ino := match o with | .juiceFs inode => inode | .lustre _ => 0
  nlink := UInt64.ofNat (s.linkCount o)
  size := 0
  blocks := 0
  uid := 0
  gid := 0
  mode := 0
  atime := 0
  mtime := 0
  ctime := 0

def FsState.resolvePath (s : FsState) (mountPath path : Path) : Option ObjectId := do
  let names ← plainNames (← path.stripPrefix mountPath)
  s.walk names

/-- **A mount of a filesystem without symbolic links.** -/
def FsState.mountAt (s : FsState) (mountPath : Path) : Mount where
  symlinkMetadata path := match s.resolvePath mountPath path with
    | some o => .ok (s.metadata o)
    | none => .error .notFound
  canonicalize path := match s.resolvePath mountPath path with
    | some _ => .ok path
    | none => .error .notFound
  fidToPath _ := .error .notFound
  pathToFid _ := .error .notFound

theorem plainNames_append_normal {path : Path} {names : List Name}
    (h : plainNames path = some names) (n : Name) :
    plainNames (path ++ [.normal n]) = some (names ++ [n]) := by
  induction path generalizing names with
  | nil =>
    cases h
    rfl
  | cons component path ih =>
    cases component with
    | normal m =>
      simp only [plainNames, Option.map_eq_some_iff] at h
      obtain ⟨rest, hrest, rfl⟩ := h
      simp only [List.cons_append, plainNames, ih hrest, Option.map_some]
    | rootDir | curDir | parentDir => cases h

theorem plainNames_map_normal (names : List Name) :
    plainNames (names.map .normal) = some names := by
  induction names with
  | nil => rfl
  | cons n names ih => simp only [List.map_cons, plainNames, ih, Option.map_some]

theorem stripPrefix_append_of_some {path base rest : Path} (h : path.stripPrefix base = some rest)
    (more : Path) : (path ++ more).stripPrefix base = some (rest ++ more) := by
  induction base generalizing path with
  | nil =>
    simp only [Path.stripPrefix, Option.some.injEq] at h
    rw [h]
    cases rest ++ more <;> rfl
  | cons b base ih =>
    cases path with
    | nil => cases h
    | cons c path =>
      simp only [Path.stripPrefix, List.cons_append] at h ⊢
      split_ifs at h ⊢ with hc
      exact ih h

namespace FsState

variable {s : FsState} {mountPath : Path}

theorem resolvePath_push {path : Path} {o : ObjectId} {n : Name}
    (h : s.resolvePath mountPath path = some o) (hn : Path.Plain n) :
    s.resolvePath mountPath (path.push n) = s.links[(⟨o, n⟩ : EdgeKey)]? := by
  simp only [resolvePath, Option.bind_eq_bind, Option.bind_eq_some_iff] at h
  obtain ⟨rest, hrest, names, hnames, hwalk⟩ := h
  rw [walk] at hwalk
  simp only [resolvePath, Path.push_plain hn, stripPrefix_append_of_some hrest,
    Option.bind_eq_bind, Option.bind_some, plainNames_append_normal hnames, walk, walkFrom_concat,
    hwalk]

theorem resolvePath_pushAll {names : List Name} (h : ∀ n ∈ names, Path.Plain n) :
    s.resolvePath mountPath (mountPath.pushAll names) = s.walk names := by
  simp only [resolvePath, Path.pushAll_plain h, Path.stripPrefix_append, Option.bind_eq_bind,
    Option.bind_some, plainNames_map_normal]

theorem WF.plain_of_walk (hs : s.WF) {names : List Name} {o : ObjectId}
    (h : s.walk names = some o) : ∀ n ∈ names, Path.Plain n := by
  rw [walk] at h
  generalize s.root = start at h
  induction names generalizing start with
  | nil => simp
  | cons n names ih =>
    rw [walkFrom] at h
    split at h
    · next o' ho' =>
      intro m hm
      rcases List.mem_cons.1 hm with rfl | hm
      · exact hs.plain _ _ ho'
      · exact ih o' h m hm
    · cases h

theorem WF.ino_metadata (hs : s.WF) {o : ObjectId} (h : (s.kinds[o]?).isSome) :
    o = .juiceFs (s.metadata o).ino := by
  obtain ⟨kind, hkind⟩ := Option.isSome_iff_exists.1 h
  cases o with
  | juiceFs inode => rfl
  | lustre fid => exact absurd (hs.native _ _ hkind) (by simp [ObjectId.backend])

theorem WF.kind_of_walk (hs : s.WF) {names : List Name} {o : ObjectId} (h : s.walk names = some o) :
    (s.kinds[o]?).isSome := by
  rw [walk] at h
  rcases List.eq_nil_or_concat names with rfl | ⟨names, n, rfl⟩
  · cases h
    rw [hs.root_kind]
    rfl
  · rw [List.concat_eq_append, walkFrom_concat, Option.bind_eq_some_iff] at h
    obtain ⟨d, -, hd⟩ := h
    exact hs.linked_kind _ _ hd

theorem mountAt_symlinkMetadata (hs : s.WF) {path : Path} {md : Metadata}
    (h : (s.mountAt mountPath).symlinkMetadata path = .ok md) :
    s.resolvePath mountPath path = some (.juiceFs md.ino) ∧ md = s.metadata (.juiceFs md.ino) := by
  simp only [mountAt] at h
  split at h
  · next o ho =>
    cases h
    have hkind : (s.kinds[o]?).isSome := by
      simp only [resolvePath, Option.bind_eq_bind, Option.bind_eq_some_iff] at ho
      obtain ⟨_, _, names, _, hwalk⟩ := ho
      exact hs.kind_of_walk hwalk
    rw [← hs.ino_metadata hkind]
    exact ⟨ho, rfl⟩
  · cases h

/-- **`mountAt` is a mount** of the filesystem. -/
theorem shows_mountAt (hs : s.WF) : Shows mountPath s (s.mountAt mountPath) := by
  have hroot : s.resolvePath mountPath mountPath = some s.root := by
    show s.resolvePath mountPath (mountPath.pushAll []) = s.walk []
    exact resolvePath_pushAll (by simp)
  refine ⟨⟨s.metadata s.root, ?_, ?_⟩, ?_, ?_, ?_, mountPath, ?_, ?_⟩
  · simp only [mountAt, hroot]
  · exact hs.ino_metadata (by rw [hs.root_kind]; rfl)
  · intro path md n o hpath hdir hn ho
    obtain ⟨hresolve, -⟩ := mountAt_symlinkMetadata hs hpath
    refine ⟨s.metadata o, ?_, hs.ino_metadata (hs.linked_kind _ _ ho)⟩
    simp only [mountAt, resolvePath_push hresolve hn, ho]
  · intro path md n hpath hdir hn ho
    obtain ⟨hresolve, -⟩ := mountAt_symlinkMetadata hs hpath
    exact ⟨.notFound, by simp only [mountAt, resolvePath_push hresolve hn, ho]⟩
  · intro path md hpath hdir
    obtain ⟨-, hmd⟩ := mountAt_symlinkMetadata hs hpath
    exact congrArg Metadata.nlink hmd
  · simp only [mountAt, hroot]
  · intro names d hwalk hdir
    have hplain := hs.plain_of_walk hwalk
    refine ⟨mountPath.pushAll names, ?_, ?_⟩
    · simp only [mountAt, resolvePath_pushAll hplain, hwalk]
    · rw [Path.startsWith, Path.pushAll_plain hplain, Path.stripPrefix_append]
      rfl

end FsState

/-! ## §4 — A small filesystem

One registered mount with two names, on which the concrete runs of this development take place. -/

namespace Sample

/-- The identifier `jfs`. -/
def jfs : FileSystemId := ⟨"jfs", FileSystemId.jfs_valid⟩

/-- The path `/m`. -/
def mountPath : Path := [.rootDir, .normal [109]]

/-- Its registration. -/
def config : FileSystemConfig where
  id := jfs
  backend := .juiceFs
  mountPath := mountPath
  capabilities := ⟨true, true, true, false, false, false⟩

def root : ObjectId := .juiceFs 1

/-- The name `a`. -/
def a : Name := [97]

/-- The name `b`. -/
def b : Name := [98]

def create (inode : UInt64) (name : Name) : Change :=
  .created (.juiceFs inode) root name .file (some ⟨0, 0, 33188⟩) 0

def move (inode : UInt64) (source name : Name) : Change :=
  .renamed (.juiceFs inode) root source root name 0

def unlink (inode : UInt64) (name : Name) : Change :=
  .removed (.juiceFs inode) root name false false 0

def emptyFs : FsState := ⟨root, ∅, (∅ : Table ObjectId EntryKind).insert root .directory⟩

def registered : Catalog := ⟨some config, ∅, ∅, ∅, ∅, none⟩

end Sample

end Robinhood.JuiceFs
