/-
# Daemon.Verify — what the verification of the namespace compares

`verify_juicefs_namespace` walks the mount and compares the edges it saw with those of the catalog.  The
walk leaves out what the `.rbh_ignore` file at the mount names, with everything below it, so the
comparison is with the rest of the tree: a catalog that has every link is refused as soon as one of them
is ignored (`verification_exact_iff`).
-/
import Mathlib
import Robinhood.Daemon.Supervisor
import Robinhood.JuiceFs.Agreement
import Robinhood.JuiceFs.Walk

namespace Robinhood.Daemon

open Lib Store Scan Ingest JuiceFs
open Posix (Name Path IoError)

/-! ## §1 — The two sides of the comparison -/

section Sides

variable (rt : Runtime)

/-- **A link of the tree**, as an edge. -/
def IsLink (s : FsState) (edge : ScopedNamespaceEdge) : Prop :=
  edge.filesystem = rt.filesystem ∧ s.links[edge.edgeKey]? = some edge.object

/-- **The catalog has exactly the links of the tree.** -/
def HasLinks (s : FsState) (c : Catalog) : Prop :=
  ∀ edge, edge ∈ c.listScopedNamespaceEdges rt.filesystem ↔ IsLink rt s edge

def Visited (mount : WalkMount) (s : FsState) (edge : ScopedNamespaceEdge) : Prop :=
  ∃ front, s.walk front = some edge.parent ∧ Unignored mount rt.mountPath (front ++ [edge.name])

variable {rt}

theorem mem_listScopedNamespaceEdges {c : Catalog} {edge : ScopedNamespaceEdge} :
    edge ∈ c.listScopedNamespaceEdges rt.filesystem ↔
      edge.filesystem = rt.filesystem ∧ c.edges[edge.edgeKey]? = some edge.object := by
  simp only [Catalog.listScopedNamespaceEdges, List.mem_map, Prod.exists,
    Std.ExtTreeMap.mem_toList_iff_getElem?_eq_some]
  constructor
  · rintro ⟨k, o, hk, rfl⟩
    exact ⟨rfl, hk⟩
  · rintro ⟨hfs, hk⟩
    exact ⟨edge.edgeKey, edge.object, hk, by rw [← hfs]; rfl⟩

theorem mountedEdges_of_entries {events : List PosixWalkEvent}
    (h : ∀ event ∈ events, ∃ entry, event = .entry entry ∧
      (entry.depth = 0 ∨ entry.parentInode.isSome)) :
    ∃ edges, mountedEdges rt events = .ok edges ∧ ∀ edge, edge ∈ edges ↔
      ∃ entry key, .entry entry ∈ events ∧ entry.edgeKey = some key ∧
        edge = ⟨rt.filesystem, key.parent, key.name, .juiceFs entry.inode⟩ := by
  induction events with
  | nil => exact ⟨[], rfl, by simp⟩
  | cons event events ih =>
    obtain ⟨entry, rfl, hentry⟩ := h event (by simp)
    obtain ⟨edges, hedges, hmem⟩ := ih fun e he => h e (by simp [he])
    have hadapt : ¬ (entry.depth > 0 ∧ entry.parentInode.isNone) := by
      rintro ⟨hdepth, hnone⟩
      rcases hentry with hzero | hsome
      · rw [hzero] at hdepth
        exact absurd hdepth (by decide)
      · rw [Option.isNone_iff_eq_none] at hnone
        simp [hnone] at hsome
    refine ⟨(entry.parentInode.map fun parent =>
      ⟨rt.filesystem, .juiceFs parent, entry.name, .juiceFs entry.inode⟩).toList ++ edges, ?_,
      fun edge => ?_⟩
    · simp only [mountedEdges, adapt, if_neg hadapt, bind, Except.bind, hedges]
    · simp only [List.mem_append, hmem, Option.mem_toList, List.mem_cons, PosixWalkEvent.entry.injEq]
      constructor
      · rintro (hown | ⟨other, key, hother, hkey, rfl⟩)
        · obtain ⟨parent, hparent, rfl⟩ := Option.map_eq_some_iff.1 hown
          exact ⟨entry, ⟨.juiceFs parent, entry.name⟩, .inl rfl, by simp [PosixEntry.edgeKey, hparent], rfl⟩
        · exact ⟨other, key, .inr hother, hkey, rfl⟩
      · rintro ⟨other, key, rfl | hother, hkey, rfl⟩
        · obtain ⟨parent, hparent, rfl⟩ := Option.map_eq_some_iff.1 hkey
          exact .inl (by simp [hparent])
        · exact .inr ⟨other, key, hother, hkey, rfl⟩

theorem play_verifyJuicefsNamespace {answers : ∀ q, Answer q} {c : Catalog}
    {edges : List ScopedNamespaceEdge} (h : mountedEdges rt (answers .walk).1 = .ok edges) :
    ((verifyJuicefsNamespace rt).play answers c []).1 =
      (compareNamespace edges (c.listScopedNamespaceEdges rt.filesystem)).mapError
        NamespaceDifference.text := by
  rw [verifyJuicefsNamespace, Prog.play_bind]
  simp only [answerTo, Prog.answer, Prog.play, h]
  rw [Prog.play_bind, Prog.perform_read]
  rfl

end Sides

/-! ## §2 — Exactness -/

section Exactness

variable {rt : Runtime} {s : FsState} {mount : WalkMount} {c : Catalog}

/-- **The verification returns `result`**: whatever the workers of the walk do, the walk comes to its end,
and whatever order its events arrived in, this is the answer. -/
structure VerifyReturns (rt : Runtime) (mount : WalkMount) (c : Catalog) (result : Except String Unit) :
    Prop where
  ends : ∀ run : ℕ → WalkState, run 0 = WorkQueue.init (rt.mountPath, 0) 4 →
    ¬ ∀ i, WorkQueue.Step (processDirectory mount (namespaceScan rt.mountPath)) 1024 (run i) (run (i + 1))
  goesOn : ∀ state, Walking mount (namespaceScan rt.mountPath) state → ¬ state.Finished →
    ∃ next, WorkQueue.Step (processDirectory mount (namespaceScan rt.mountPath)) 1024 state next
  answer : ∀ events, Walks mount (namespaceScan rt.mountPath) events →
    ∀ answers : ∀ q, Answer q, (answers .walk).1 = events →
      ((verifyJuicefsNamespace rt).play answers c []).1 = result

theorem visited_of_isLink (hs : s.WF)
    (h : ∀ (k : EdgeKey) o, s.links[k]? = some o → ignored mount (namespaceScan rt.mountPath) k.name = false)
    {edge : ScopedNamespaceEdge} (hlink : IsLink rt s edge) : Visited rt mount s edge := by
  have hwalked : ∀ {names o}, s.walk names = some o → Unignored mount rt.mountPath names := by
    intro names o hwalk
    induction names using List.reverseRecOn generalizing o with
    | nil => exact nofun
    | append_singleton names n ih =>
      obtain ⟨d, hd, hn⟩ := FsState.walk_concat.1 hwalk
      exact unignored_concat.2 ⟨ih hd, h _ _ hn⟩
  obtain ⟨front, hfront⟩ := hs.reachable (hs.parent_dir _ _ hlink.2)
  exact ⟨front, hfront, hwalked (FsState.walk_concat.2 ⟨_, hfront, hlink.2⟩)⟩

section

variable (hs : s.WF) (hshort : s.Short) (hreads : Reads rt.mountPath s mount)

include hs hshort hreads

/-- **The edges of a walk** are the links it comes to. -/
theorem mountedEdges_of_walks {events : List PosixWalkEvent}
    (hwalks : Walks mount (namespaceScan rt.mountPath) events) :
    ∃ edges, mountedEdges rt events = .ok edges ∧
      ∀ edge, edge ∈ edges ↔ IsLink rt s edge ∧ Visited rt mount s edge := by
  obtain ⟨edges, hedges, hmem⟩ := @mountedEdges_of_entries rt events fun event hevent => by
    obtain ⟨names, entry, rfl, -, hdescribes⟩ := describes_of_walks hs hshort hreads hwalks hevent
    refine ⟨entry, rfl, ?_⟩
    rcases hdescribes.edge with ⟨rfl, -⟩ | ⟨front, n, d, -, -, hkey⟩
    · exact .inl (UInt32.toNat_inj.1 hdescribes.depth)
    · right
      obtain ⟨parent, hparent, -⟩ := Option.map_eq_some_iff.1 hkey
      simp [hparent]
  refine ⟨edges, hedges, fun edge => (hmem edge).trans ⟨?_, ?_⟩⟩
  · rintro ⟨entry, key, hentry, hkey, rfl⟩
    obtain ⟨names, _, ⟨⟩, hnames, hdescribes⟩ := describes_of_walks hs hshort hreads hwalks hentry
    obtain ⟨front, rfl, hfront, hlink⟩ := hdescribes.link hkey
    exact ⟨⟨rfl, hlink⟩, front, hfront, hnames⟩
  · rintro ⟨⟨hfs, hlink⟩, front, hfront, hnames⟩
    obtain ⟨entry, hentry, hdescribes⟩ := exists_describes hs hshort hreads hwalks
      (FsState.walk_concat.2 ⟨_, hfront, hlink⟩) hnames
    cases hkey : entry.edgeKey with
    | none => simpa using hdescribes.unnamed hkey
    | some k =>
      obtain ⟨front', hconcat, hfront', hlink'⟩ := hdescribes.link hkey
      obtain ⟨rfl, hname⟩ := List.append_inj' hconcat rfl
      have hk : edge.edgeKey = k := by
        obtain ⟨parent, name⟩ := k
        rw [ScopedNamespaceEdge.edgeKey, (List.cons.inj hname).1,
          Option.some.inj (hfront.symm.trans hfront')]
      subst hk
      obtain hobject := Option.some.inj (hlink.symm.trans hlink')
      exact ⟨entry, _, hentry, hkey, by rw [← hfs, ← hobject]; rfl⟩

/-- **What the verification compares**: after any walk it succeeds exactly on the catalogs that have the
links the walk comes to, and no other edge. -/
theorem play_eq_ok_iff {answers : ∀ q, Answer q}
    (hwalks : Walks mount (namespaceScan rt.mountPath) (answers .walk).1) :
    ((verifyJuicefsNamespace rt).play answers c []).1 = .ok () ↔
      ∀ edge, edge ∈ c.listScopedNamespaceEdges rt.filesystem ↔
        IsLink rt s edge ∧ Visited rt mount s edge := by
  obtain ⟨edges, hedges, hmem⟩ := mountedEdges_of_walks hs hshort hreads hwalks
  rw [play_verifyJuicefsNamespace hedges, except_mapError_eq_ok, compareNamespace_ok]
  simp only [hmem]
  exact forall_congr' fun edge => Iff.comm

theorem verifyReturns_ok_iff : VerifyReturns rt mount c (.ok ()) ↔
    ∀ edge, edge ∈ c.listScopedNamespaceEdges rt.filesystem ↔
      IsLink rt s edge ∧ Visited rt mount s edge := by
  obtain ⟨hends, hgoesOn, events, hevents⟩ := walk_ends hs hshort hreads
  constructor
  · intro h
    let answers : ∀ q, Answer q
      | .walk => (events, 0)
      | q => quietAnswers q
    have hwalks := hevents
    exact (play_eq_ok_iff hs hshort hreads hwalks).1 (h.answer events hevents answers rfl)
  · intro h
    refine ⟨hends, hgoesOn, ?_⟩
    rintro events hevents answers rfl
    exact (play_eq_ok_iff hs hshort hreads hevents).2 h

end

/-- **The verification is exact when no name is ignored, and only then.** -/
theorem verification_exact_iff (hs : s.WF) (hshort : s.Short) (hreads : Reads rt.mountPath s mount) :
    (∀ c, VerifyReturns rt mount c (.ok ()) ↔ HasLinks rt s c) ↔
      ∀ (k : EdgeKey) o, s.links[k]? = some o →
        ignored mount (namespaceScan rt.mountPath) k.name = false := by
  constructor
  · intro h k o hk
    -- the catalog with all links is accepted, so the walk comes to this one
    have hall : HasLinks rt s ⟨none, ∅, s.links, ∅, ∅, none⟩ := fun edge =>
      mem_listScopedNamespaceEdges
    have hcompared := (verifyReturns_ok_iff hs hshort hreads).1 ((h _).2 hall)
    have hlink : IsLink rt s ⟨rt.filesystem, k.parent, k.name, o⟩ := ⟨rfl, hk⟩
    obtain ⟨front, -, hnames⟩ := ((hcompared _).1 ((hall _).2 hlink)).2
    exact (unignored_concat.1 hnames).2
  · intro h c
    rw [verifyReturns_ok_iff hs hshort hreads]
    refine forall_congr' fun edge => ?_
    rw [and_iff_left_of_imp (visited_of_isLink hs h)]

end Exactness

/-! ## §3 — A tree with an ignore file -/

namespace Sample

open JuiceFs.Sample (emptyFs emptyFs_wf create)

/-- The name `a.tmp`. -/
def tmp : Name := [97, 46, 116, 109, 112]

def ignoring : List Change := [create 2 rbhIgnore, create 3 tmp]

def ignoringTree : FsState := emptyFs.stateAfter ignoring 2

theorem ignoring_allowed : emptyFs.AllowsAll ignoring := by
  intro i r hr
  match i with
  | 0 | 1 =>
    cases hr
    exact ⟨by decide +kernel, by decide +kernel, rfl, ⟨by decide +kernel, .inl rfl⟩, by decide +kernel⟩
  | i + 2 => cases hr

theorem ignoringTree_wf : ignoringTree.WF := emptyFs_wf.stateAfter ignoring_allowed 2

theorem ignoringTree_links {k : EdgeKey} {o : ObjectId} (h : ignoringTree.links[k]? = some o) :
    k.parent = JuiceFs.Sample.root ∧ ignoringTree.kinds[o]? = some .file := by
  have hlinks : ignoringTree.links = ((∅ : Links).insert ⟨JuiceFs.Sample.root, rbhIgnore⟩
      (.juiceFs 2)).insert ⟨JuiceFs.Sample.root, tmp⟩ (.juiceFs 3) := rfl
  rw [hlinks, Table.getElem?_upsert, Table.getElem?_upsert] at h
  split_ifs at h with h₁ h₂
  · cases h
    exact ⟨h₁ ▸ rfl, by decide +kernel⟩
  · cases h
    exact ⟨h₂ ▸ rfl, by decide +kernel⟩
  · simp at h

theorem ignoringTree_short : ignoringTree.Short := by
  refine ignoringTree_wf.short (fun _ => 0) 0 (fun k d hk hd => ?_)
    (fun _ _ _ => le_rfl) (by decide)
  rw [(ignoringTree_links hk).2] at hd
  cases hd

/-- The mount of the tree; the ignore file says `*.tmp`. -/
def ignoringMount : WalkMount := ignoringTree.walkMountAt runtime.mountPath (some "*.tmp\n")

def ignoringCatalog : Catalog := ⟨none, ∅, ignoringTree.links, ∅, ∅, none⟩

/-- **A complete catalog is refused** because of an ignored file. -/
theorem complete_catalog_refused :
    Reads runtime.mountPath ignoringTree ignoringMount ∧
      HasLinks runtime ignoringTree ignoringCatalog ∧
      (∃ events, Walks ignoringMount (namespaceScan runtime.mountPath) events) ∧
      ∀ answers : ∀ q, Answer q,
        Walks ignoringMount (namespaceScan runtime.mountPath) (answers .walk).1 →
        ∃ text, ((verifyJuicefsNamespace runtime).play answers ignoringCatalog []).1 = .error text := by
  have hreads : Reads runtime.mountPath ignoringTree ignoringMount := reads_walkMountAt ignoringTree_wf
  have hall : HasLinks runtime ignoringTree ignoringCatalog := fun edge => mem_listScopedNamespaceEdges
  refine ⟨hreads, hall, (walk_ends ignoringTree_wf ignoringTree_short hreads).2.2,
    fun answers hwalks => ?_⟩
  cases hplay : ((verifyJuicefsNamespace runtime).play answers ignoringCatalog []).1 with
  | error text => exact ⟨text, rfl⟩
  | ok =>
    -- the walk would have come to the ignored file
    have hcompared := (play_eq_ok_iff ignoringTree_wf ignoringTree_short hreads hwalks).1 hplay
    have hlink : IsLink runtime ignoringTree ⟨runtime.filesystem, JuiceFs.Sample.root, tmp, .juiceFs 3⟩ :=
      ⟨rfl, by decide +kernel⟩
    obtain ⟨front, -, hnames⟩ := ((hcompared _).1 ((hall _).2 hlink)).2
    have hignored : ignored ignoringMount (namespaceScan runtime.mountPath) tmp = true := by
      decide +kernel
    rw [(unignored_concat.1 hnames).2] at hignored
    cases hignored

def openMount : WalkMount := ignoringTree.walkMountAt runtime.mountPath (some "# nothing\n")

theorem ignoringTree_exact_iff :
    ignoringTree.WF ∧ ignoringTree.Short ∧ Reads runtime.mountPath ignoringTree openMount ∧
      ((∀ c, VerifyReturns runtime openMount c (.ok ()) ↔ HasLinks runtime ignoringTree c) ↔
        ∀ (k : EdgeKey) o, ignoringTree.links[k]? = some o →
          ignored openMount (namespaceScan runtime.mountPath) k.name = false) :=
  ⟨ignoringTree_wf, ignoringTree_short, reads_walkMountAt ignoringTree_wf,
    verification_exact_iff ignoringTree_wf ignoringTree_short (reads_walkMountAt ignoringTree_wf)⟩

end Sample

end Robinhood.Daemon
