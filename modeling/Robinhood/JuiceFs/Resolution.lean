/-
# JuiceFs.Resolution — resolving an object against a later mount

The catalog mirrors the filesystem at one version while the mount already shows a later one.  The paths
the adapter tries are those of the cataloged version; this module says when one of them still leads to
the object on the later mount, and that the resolution then succeeds.
-/
import Mathlib
import Robinhood.JuiceFs.Tree
import Robinhood.Namespace.Adapter

namespace Robinhood.JuiceFs

open Lib Posix Store Ingest Namespace

/-! ## §1 — Catalogs that mirror a filesystem -/

structure JuiceRegistration (config : FileSystemConfig) : Prop where
  backend : config.backend = .juiceFs
  namespace_ : config.capabilities.namespace_ = true
  mount : Component.parentDir ∉ config.mountPath

/-- **The catalog mirrors the filesystem**: its edges are the links, every object with a name has a row,
the row of a directory holds the directory's name, and no row counts fewer names than there are. -/
structure Mirrors (config : FileSystemConfig) (s : FsState) (c : Catalog) : Prop where
  registered : c.filesystem = some config
  keys : ∀ o e, c.row o = some e → e.key = ⟨config.id, o⟩
  parents : ∀ o e p, c.row o = some e → e.parent = some p → p.filesystem = config.id
  edges : c.edges = s.links
  rows : ∀ o, s.Linked o → ∃ e, c.row o = some e
  dirs : ∀ (k : EdgeKey) d e, s.kinds[d]? = some .directory → s.links[k]? = some d →
    c.row d = some e → e.parent = some ⟨config.id, k.parent⟩ ∧ e.name = k.name
  counts : ∀ o e, s.kinds[o]? ≠ some .directory → c.row o = some e → s.linkCount o ≤ e.nlink.toNat

variable {config : FileSystemConfig} {s s' : FsState} {c : Catalog} {live : Mount}

theorem Mirrors.scopedEntry (hm : Mirrors config s c) {o : ObjectId} (ho : s.Linked o) :
    ∃ e, c.row o = some e ∧ c.scopedEntry ⟨config.id, o⟩ = .ok (some e) := by
  obtain ⟨e, he⟩ := hm.rows o ho
  exact ⟨e, he, scopedEntry_eq_some.2 ⟨he, hm.keys o e he⟩⟩

theorem Mirrors.objectEdges (hm : Mirrors config s c) (o : ObjectId) :
    c.objectEdges o = s.links.keysWith o := by
  rw [Catalog.objectEdges, hm.edges]

/-! ## §2 — The walk up to the root -/

/-- **The rows of a mirrored directory lead up to the root** along its names.  The walk never meets a
visited row again, because ranks decrease, and so it visits at most every row once. -/
theorem parentNames_of_walk (hs : s.WF) (hm : Mirrors config s c) {rank : ObjectId → ℕ}
    (hrank : ∀ (k : EdgeKey) d, s.links[k]? = some d → s.kinds[d]? = some .directory →
      rank k.parent < rank d) {names : List Name} :
    ∀ {d : ObjectId} {fuel : ℕ} {visited : List ObjectId}, s.walk names = some d → s.Dir d →
      visited.Nodup → (∀ v ∈ visited, rank d < rank v) → (∀ v ∈ visited, (c.row v).isSome) →
      fuel + visited.length = c.entries.size + 2 →
      parentNames ⟨c, live⟩ ⟨config.id, s.root⟩ fuel
        (visited.map fun o => (⟨config.id, o⟩ : EntryKey)) ⟨config.id, d⟩ = .ok names := by
  induction names using List.reverseRecOn with
  | nil =>
    intro d fuel visited hwalk hd hnodup hvisited hrows hfuel
    have hsize := c.length_le_size hnodup hrows
    obtain ⟨fuel, rfl⟩ : ∃ f, fuel = f + 1 := ⟨fuel - 1, by omega⟩
    cases hwalk
    rw [parentNames, if_pos rfl]
  | append_singleton names n ih =>
    intro d fuel visited hwalk hd hnodup hvisited hrows hfuel
    have hsize := c.length_le_size hnodup hrows
    obtain ⟨fuel, rfl⟩ : ∃ f, fuel = f + 1 := ⟨fuel - 1, by omega⟩
    rw [FsState.walk, FsState.walkFrom_concat, Option.bind_eq_some_iff] at hwalk
    obtain ⟨p, hp, hlink⟩ := hwalk
    have hne : (⟨config.id, d⟩ : EntryKey) ≠ ⟨config.id, s.root⟩ := fun h =>
      hs.root_unlinked _ ((EntryKey.mk.inj h).2 ▸ hlink)
    have hfresh : d ∉ visited := fun h => lt_irrefl _ (hvisited d h)
    have hfresh' : (⟨config.id, d⟩ : EntryKey) ∉
        visited.map fun o => (⟨config.id, o⟩ : EntryKey) := by
      simpa using hfresh
    obtain ⟨e, hrow, hentry⟩ := hm.scopedEntry hd.2
    obtain ⟨hparent, hname⟩ := hm.dirs _ d e hd.1 hlink hrow
    have hlt := hrank _ d hlink hd.1
    have hrest := ih hp (hs.parent_dir _ _ hlink) (List.nodup_cons.2 ⟨hfresh, hnodup⟩)
      (List.forall_mem_cons.2 ⟨hlt, fun v hv => hlt.trans (hvisited v hv)⟩)
      (List.forall_mem_cons.2 ⟨by rw [hrow]; rfl, hrows⟩)
      (show fuel + (d :: visited).length = c.entries.size + 2 by rw [List.length_cons]; omega)
    rw [List.map_cons] at hrest
    rw [parentNames, if_neg hne, if_neg hfresh', entryOf, hentry]
    simp only [Except.mapError, bind, Except.bind, hparent, hrest, hname]

theorem juiceRoot_of_mirrors (hm : Mirrors config s c) (hlive : Shows config.mountPath s' live)
    (hroot : s'.root = s.root) : juiceRoot config ⟨c, live⟩ = .ok ⟨config.id, s.root⟩ := by
  obtain ⟨md, hmd, hino⟩ := hlive.root
  obtain ⟨e, -, hentry⟩ := hm.scopedEntry (.inl rfl : s.Linked s.root)
  rw [← hroot, hino] at hentry
  have hstat : stat ⟨c, live⟩ config.mountPath = .ok ⟨md.kind, md.size, md.nlink, md.ino⟩ := by
    simp only [stat, hmd]
  simp only [juiceRoot, hstat, bind, Except.bind, entryOf, hentry, Except.mapError, ← hroot, hino]

theorem juiceParentPath_of_walk (hs : s.WF) (hm : Mirrors config s c)
    (hlive : Shows config.mountPath s' live) (hroot : s'.root = s.root) {names : List Name}
    {d : ObjectId} (hwalk : s.walk names = some d) (hd : s.Dir d) :
    juiceParentPath config ⟨c, live⟩ ⟨config.id, d⟩ = .ok (config.mountPath.pushAll names) := by
  obtain ⟨rank, hrank⟩ := hs.ranked
  have hnames : parentNames ⟨c, live⟩ ⟨config.id, s.root⟩ (c.entries.size + 2) [] ⟨config.id, d⟩ =
      .ok names :=
    parentNames_of_walk hs hm hrank hwalk hd List.nodup_nil (by simp) (by simp) rfl
  simp only [juiceParentPath, juiceRoot_of_mirrors hm hlive hroot, bind, Except.bind, hnames]

/-! ## §3 — Paths on a later mount -/

theorem pushAll_concat (path : Path) (names : List Name) (n : Name) :
    path.pushAll (names ++ [n]) = (path.pushAll names).push n := by
  simp [Path.pushAll]

theorem Shows.found {mountPath : Path} (hs : s'.WF) (hlive : Shows mountPath s' live)
    {names : List Name} {o : ObjectId} (h : s'.walk names = some o) :
    ∃ md, live.symlinkMetadata (mountPath.pushAll names) = .ok md ∧ o = .juiceFs md.ino := by
  induction names using List.reverseRecOn generalizing o with
  | nil =>
    cases h
    exact hlive.root
  | append_singleton names n ih =>
    rw [FsState.walk, FsState.walkFrom_concat, Option.bind_eq_some_iff] at h
    obtain ⟨p, hp, hlink⟩ := h
    obtain ⟨md, hmd, rfl⟩ := ih hp
    rw [pushAll_concat]
    exact hlive.child _ md n o hmd (hs.parent_dir _ _ hlink).1 (hs.plain _ _ hlink) hlink

theorem relativePath_pushAll (hconfig : JuiceRegistration config) {names : List Name} {n : Name}
    (hplain : ∀ m ∈ names, Path.Plain m) (hn : Path.Plain n) :
    relativePath config ⟨c, live⟩ (config.mountPath.pushAll (names ++ [n])) = (do
      let mount ← (live.canonicalize config.mountPath).mapError (.io config.mountPath)
      let parent ← (live.canonicalize (config.mountPath.pushAll names)).mapError
        (.io (config.mountPath.pushAll names))
      if parent.startsWith mount then .ok (names.map .normal ++ [.normal n])
      else .error (.outsideFilesystem config.id (config.mountPath.pushAll (names ++ [n])))) := by
  have heq : config.mountPath.pushAll (names ++ [n]) =
      config.mountPath ++ (names.map .normal ++ [.normal n]) := by
    rw [pushAll_concat, Path.push_plain hn, Path.pushAll_plain hplain, List.append_assoc]
  have hany : (config.mountPath.pushAll (names ++ [n])).any (· = .parentDir) = false := by
    rw [heq, List.any_eq_false]
    intro component hcomponent
    simp only [List.mem_append, List.mem_map, List.mem_singleton] at hcomponent
    rcases hcomponent with hmount | ⟨m, -, rfl⟩ | rfl
    · simpa using fun hp : component = .parentDir => hconfig.mount (hp ▸ hmount)
    · simp
    · simp
  have hstrip : (config.mountPath.pushAll (names ++ [n])).stripPrefix config.mountPath =
      some (names.map .normal ++ [.normal n]) := by
    rw [heq, Path.stripPrefix_append]
  have hparent : (config.mountPath.pushAll (names ++ [n])).parent =
      some (config.mountPath.pushAll names) := by
    rw [heq, Path.parent, ← List.append_assoc, List.getLast?_concat, List.dropLast_concat,
      Path.pushAll_plain hplain]
  unfold relativePath
  rw [hany, hstrip]
  simp only [Bool.false_eq_true, if_false, hparent, Option.getD_some]
  split
  · next hnone => cases hnone
  · next hnil => simp at hnil
  · next hsome =>
    cases hsome
    rfl

theorem relativePath_of_walk (hconfig : JuiceRegistration config) (hs : s'.WF)
    (hlive : Shows config.mountPath s' live) {names : List Name} {d : ObjectId} {n : Name}
    (h : s'.walk names = some d) (hd : s'.kinds[d]? = some .directory) (hn : Path.Plain n) :
    ∃ relative, relativePath config ⟨c, live⟩ (config.mountPath.pushAll (names ++ [n])) =
      .ok relative := by
  obtain ⟨canonical, hcanonical, hinside⟩ := hlive.inside
  obtain ⟨path, hpath, hstarts⟩ := hinside names d h hd
  refine ⟨names.map .normal ++ [.normal n], ?_⟩
  rw [relativePath_pushAll hconfig (hs.plain_of_walk h) hn, hcanonical, hpath]
  exact if_pos hstarts

/-! ## §4 — Resolution against a later mount -/

def Passable (s s' : FsState) (k : EdgeKey) : Prop :=
  ∃ names d, s.walk names = some k.parent ∧ s'.walk names = some d ∧
    s'.kinds[d]? = some .directory

def Leads (s s' : FsState) (k : EdgeKey) (o : ObjectId) : Prop :=
  ∃ names, s.walk names = some k.parent ∧ s'.walk (names ++ [k.name]) = some o

/-- **The object is still found**: one of its cataloged names leads to it, and the directories of the
names tried before that one are still there. -/
def StillFound (s s' : FsState) (o : ObjectId) : Prop :=
  ∃ before k rest, s.links.keysWith o = before ++ k :: rest ∧ (∀ k' ∈ before, Passable s s' k') ∧
    Leads s s' k o

theorem Leads.passable (hs' : s'.WF) {k : EdgeKey} {o : ObjectId} (h : Leads s s' k o) :
    Passable s s' k := by
  obtain ⟨names, hnames, hwalk⟩ := h
  rw [FsState.walk, FsState.walkFrom_concat, Option.bind_eq_some_iff] at hwalk
  obtain ⟨d, hd, hlink⟩ := hwalk
  exact ⟨names, d, hnames, hd, (hs'.parent_dir _ _ hlink).1⟩

section Resolve

variable (hconfig : JuiceRegistration config) (hs : s.WF) (hs' : s'.WF) (hroot : s'.root = s.root)
  (hm : Mirrors config s c) (hlive : Shows config.mountPath s' live)

include hconfig hs hs' hroot hm hlive

omit hconfig hs' in
theorem resolveEdges_cons {inode : UInt64} {k : EdgeKey} {names : List Name}
    (hlink : s.links[k]? = some (.juiceFs inode)) (hnames : s.walk names = some k.parent)
    (resolvedParent : Bool) (edges : List ScopedNamespaceEdge) :
    resolveEdges config ⟨c, live⟩ ⟨config.id, .juiceFs inode⟩ inode resolvedParent
        (⟨config.id, k.parent, k.name, .juiceFs inode⟩ :: edges) = (do
      let _ ← relativePath config ⟨c, live⟩ (config.mountPath.pushAll (names ++ [k.name]))
      match stat ⟨c, live⟩ (config.mountPath.pushAll (names ++ [k.name])) with
      | .ok stat =>
        if stat.inode = inode then
          .ok ⟨⟨config.id, .juiceFs inode⟩, config.mountPath.pushAll (names ++ [k.name]), stat⟩
        else resolveEdges config ⟨c, live⟩ ⟨config.id, .juiceFs inode⟩ inode true edges
      | .error _ =>
        resolveEdges config ⟨c, live⟩ ⟨config.id, .juiceFs inode⟩ inode true edges) := by
  rw [resolveEdges, juiceParentPath_of_walk hs hm hlive hroot hnames (hs.parent_dir _ _ hlink)]
  simp only [← pushAll_concat] <;> rfl

theorem resolveEdges_of_leads {inode : UInt64} {k : EdgeKey} {rest : List EdgeKey}
    (hk : s.links[k]? = some (.juiceFs inode)) (hleads : Leads s s' k (.juiceFs inode)) :
    ∀ {before : List EdgeKey} {resolvedParent : Bool},
      (∀ k' ∈ before, s.links[k']? = some (.juiceFs inode) ∧ Passable s s' k') →
      ∃ resolved, resolveEdges config ⟨c, live⟩ ⟨config.id, .juiceFs inode⟩ inode resolvedParent
        ((before ++ k :: rest).map fun edge =>
          ⟨config.id, edge.parent, edge.name, .juiceFs inode⟩) = .ok resolved := by
  -- One edge: its parent's path is known, and the path below it is inside the mount.
  have hedge : ∀ {k' : EdgeKey} {names : List Name} {d : ObjectId} (resolvedParent : Bool)
      (edges : List ScopedNamespaceEdge), s.links[k']? = some (.juiceFs inode) →
      s.walk names = some k'.parent → s'.walk names = some d → s'.kinds[d]? = some .directory →
      resolveEdges config ⟨c, live⟩ ⟨config.id, .juiceFs inode⟩ inode resolvedParent
          (⟨config.id, k'.parent, k'.name, .juiceFs inode⟩ :: edges) =
        match stat ⟨c, live⟩ (config.mountPath.pushAll (names ++ [k'.name])) with
        | .ok stat =>
          if stat.inode = inode then
            .ok ⟨⟨config.id, .juiceFs inode⟩, config.mountPath.pushAll (names ++ [k'.name]), stat⟩
          else resolveEdges config ⟨c, live⟩ ⟨config.id, .juiceFs inode⟩ inode true edges
        | .error _ => resolveEdges config ⟨c, live⟩ ⟨config.id, .juiceFs inode⟩ inode true edges := by
    intro k' names d resolvedParent edges hlink hnames hd hdir
    obtain ⟨relative, hrelative⟩ :=
      relativePath_of_walk (c := c) hconfig hs' hlive hd hdir (hs.plain _ _ hlink)
    rw [resolveEdges_cons hs hroot hm hlive hlink hnames, hrelative]
    rfl
  intro before
  induction before with
  | nil =>
    intro resolvedParent _
    obtain ⟨names, hnames, hwalk⟩ := hleads
    obtain ⟨names', d, hnames', hd, hdir⟩ := Leads.passable hs' ⟨names, hnames, hwalk⟩
    obtain rfl := hs.walk_unique (hs.parent_dir _ _ hk).1 hnames hnames'
    obtain ⟨md, hmd, hino⟩ := hlive.found hs' hwalk
    rw [List.nil_append, List.map_cons, hedge _ _ hk hnames hd hdir]
    simp only [stat, hmd]
    rw [if_pos (ObjectId.juiceFs.inj hino).symm]
    exact ⟨_, rfl⟩
  | cons k' before ih =>
    intro resolvedParent hbefore
    obtain ⟨hlink, names, d, hnames, hd, hdir⟩ := hbefore k' List.mem_cons_self
    have ih := @ih true fun k'' hk'' => hbefore k'' (List.mem_cons_of_mem _ hk'')
    rw [List.cons_append, List.map_cons, hedge _ _ hlink hnames hd hdir]
    split
    · split_ifs
      · exact ⟨_, rfl⟩
      · exact ih
    · exact ih

/-- **An object that is still found is resolved**, and so is the root. -/
theorem resolveObject_of_stillFound {o : ObjectId} (ho : o.backend = .juiceFs)
    (hlinked : s.Linked o) (hfound : o = s.root ∨ StillFound s s' o) :
    ∃ resolved, resolveObject config ⟨c, live⟩ ⟨config.id, o⟩ = .ok resolved := by
  obtain ⟨inode, rfl⟩ : ∃ inode, o = .juiceFs inode := by
    cases o with
    | juiceFs inode => exact ⟨inode, rfl⟩
    | lustre => cases ho
  obtain ⟨e, -, hentry⟩ := hm.scopedEntry hlinked
  simp only [resolveObject, hconfig.backend, resolveJuiceObject, checkKey, ne_eq, not_true,
    if_false, juiceRoot_of_mirrors hm hlive hroot, bind, Except.bind]
  split_ifs with hkey
  · obtain ⟨md, hmd, -⟩ := hlive.root
    simp only [stat, hmd]
    exact ⟨_, rfl⟩
  · have hne : ObjectId.juiceFs inode ≠ s.root := fun h => hkey (by rw [h])
    obtain ⟨before, k, rest, hkeys, hbefore, hleads⟩ := hfound.resolve_left hne
    have hmem : ∀ k' ∈ before ++ k :: rest, s.links[k']? = some (.juiceFs inode) := fun k' hk' =>
      Table.mem_keysWith.1 (hkeys ▸ hk')
    have hbefore' : ∀ k' ∈ before, s.links[k']? = some (.juiceFs inode) ∧ Passable s s' k' :=
      fun k' hk' => ⟨hmem k' (by simp [hk']), hbefore k' hk'⟩
    have hedges : c.listScopedObjectEdges ⟨config.id, .juiceFs inode⟩ =
        (before ++ k :: rest).map fun edge =>
          ⟨config.id, edge.parent, edge.name, .juiceFs inode⟩ := by
      rw [Catalog.listScopedObjectEdges, hm.objectEdges, hkeys]
    simp only [entryOf, hentry, Except.mapError, hedges]
    split
    · next hnil => simp at hnil
    · exact resolveEdges_of_leads hconfig hs hs' hroot hm hlive (hmem k (by simp)) hleads hbefore'

end Resolve

theorem stillFound_of_walk (hs : s.WF) {names : List Name} {d : ObjectId}
    (hd : s.kinds[d]? = some .directory) (h : s.walk names = some d) (h' : s'.walk names = some d) :
    d = s.root ∨ StillFound s s' d := by
  rcases List.eq_nil_or_concat names with rfl | ⟨rest, n, rfl⟩
  · cases h
    exact .inl rfl
  · rw [List.concat_eq_append] at h h'
    have hwalk := h
    rw [FsState.walk, FsState.walkFrom_concat, Option.bind_eq_some_iff] at hwalk
    obtain ⟨p, hp, hlink⟩ := hwalk
    have hkeys : s.links.keysWith d = [⟨p, n⟩] :=
      Table.keysWith_eq_singleton hlink fun k hk => hs.dir_link _ _ d hd hk hlink
    exact .inr ⟨[], ⟨p, n⟩, [], hkeys, by simp, rest, hp, h'⟩

end Robinhood.JuiceFs
