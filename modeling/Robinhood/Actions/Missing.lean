/-
# Actions.Missing — a purge that finds its object missing

`execute_purge` takes a stale path for a missing object: it reports `AlreadyMissing` and unlinks the name
the row records.  The verdict only looks at the cataloged names, so a rename that ingest has not seen yet
makes the purge forget an object that is alive under its new name.  `forgets_only_missing_iff` says
exactly when that cannot happen.
-/
import Mathlib
import Robinhood.JuiceFs.Progress
import Robinhood.Actions.Capture
import Robinhood.Ingest.JuiceFs

namespace Robinhood.Actions

open Lib Posix Store Ingest Namespace JuiceFs

/-! ## §1 — The verdict of the resolver -/

/-- The errors that `execute_purge` takes for a missing object. -/
def IsMissing : NamespaceError → Prop
  | .notFound _ | .stalePath _ => True
  | _ => False

def Inside (config : FileSystemConfig) (live : Mount) (names : List Name) : Prop :=
  ∃ mount parent, live.canonicalize config.mountPath = .ok mount ∧
    live.canonicalize (config.mountPath.pushAll names) = .ok parent ∧ parent.startsWith mount = true

def ShownAt (config : FileSystemConfig) (live : Mount) (names : List Name) (name : Name)
    (inode : UInt64) : Prop :=
  ∃ md, live.symlinkMetadata (config.mountPath.pushAll (names ++ [name])) = .ok md ∧ md.ino = inode

section Verdict

variable {config : FileSystemConfig} {s s' : FsState} {c : Catalog} {live : Mount} {inode : UInt64}
  {names : List Name} {name : Name}

theorem relativePath_of_inside (hconfig : JuiceRegistration config)
    (hplain : ∀ m ∈ names, Path.Plain m) (hname : Path.Plain name) (h : Inside config live names) :
    ∃ relative, relativePath config ⟨c, live⟩ (config.mountPath.pushAll (names ++ [name])) =
      .ok relative := by
  obtain ⟨mount, parent, hmount, hparent, hstarts⟩ := h
  rw [relativePath_pushAll hconfig hplain hname, hmount, hparent]
  exact ⟨_, if_pos hstarts⟩

theorem relativePath_of_not_inside (hconfig : JuiceRegistration config)
    (hplain : ∀ m ∈ names, Path.Plain m) (hname : Path.Plain name) (h : ¬ Inside config live names) :
    ∃ e, relativePath config ⟨c, live⟩ (config.mountPath.pushAll (names ++ [name])) = .error e ∧
      ¬ IsMissing e := by
  rw [relativePath_pushAll hconfig hplain hname]
  cases hmount : live.canonicalize config.mountPath with
  | error => exact ⟨_, rfl, id⟩
  | ok mount =>
    cases hparent : live.canonicalize (config.mountPath.pushAll names) with
    | error => exact ⟨_, rfl, id⟩
    | ok parent =>
      have hstarts : ¬ parent.startsWith mount = true := fun hstarts =>
        h ⟨mount, parent, hmount, hparent, hstarts⟩
      exact ⟨_, if_neg hstarts, id⟩

variable (hconfig : JuiceRegistration config) (hs : s.WF) (hroot : s'.root = s.root)
  (hm : Mirrors config s c) (hlive : Shows config.mountPath s' live)

/-- A name of the object that ends the search: its directory is not there, or the object is. -/
def Decides (config : FileSystemConfig) (s : FsState) (live : Mount) (inode : UInt64)
    (k : EdgeKey) : Prop :=
  ∃ names, s.walk names = some k.parent ∧
    (¬ Inside config live names ∨ ShownAt config live names k.name inode)

include hconfig hs hroot hm hlive

/-- **The loop over the edges**: it gives up exactly if no name decides. -/
theorem resolveEdges_verdict {keys : List EdgeKey}
    (hkeys : ∀ k ∈ keys, s.links[k]? = some (.juiceFs inode)) (resolvedParent : Bool)
    (hnonempty : resolvedParent = true ∨ keys ≠ []) :
    ((∀ k ∈ keys, ¬ Decides config s live inode k) →
      resolveEdges config ⟨c, live⟩ ⟨config.id, .juiceFs inode⟩ inode resolvedParent
        (keys.map fun k => ⟨config.id, k.parent, k.name, .juiceFs inode⟩) =
        .error (.stalePath ⟨config.id, .juiceFs inode⟩)) ∧
    ((∃ k ∈ keys, Decides config s live inode k) →
      ∀ e, resolveEdges config ⟨c, live⟩ ⟨config.id, .juiceFs inode⟩ inode resolvedParent
        (keys.map fun k => ⟨config.id, k.parent, k.name, .juiceFs inode⟩) = .error e →
        ¬ IsMissing e) := by
  -- The induction is on the edges that are left; a round that does not decide passes the rest on.
  induction keys generalizing resolvedParent with
  | nil =>
    obtain rfl : resolvedParent = true := hnonempty.resolve_right fun h => h rfl
    exact ⟨fun _ => rfl, fun ⟨k, hk, _⟩ => by cases hk⟩
  | cons k keys ih =>
    have hlink := hkeys k List.mem_cons_self
    obtain ⟨ihstale, ihnot⟩ := ih (fun k' hk' => hkeys k' (List.mem_cons_of_mem _ hk')) true (.inl rfl)
    obtain ⟨names, hnames⟩ := hs.reachable (hs.parent_dir _ _ hlink)
    have hplain := hs.plain_of_walk hnames
    have hname := hs.plain _ _ hlink
    -- The directory has one chain of names, so what decides is known.
    have hdecides : Decides config s live inode k ↔
        ¬ Inside config live names ∨ ShownAt config live names k.name inode := by
      refine ⟨?_, fun h => ⟨names, hnames, h⟩⟩
      rintro ⟨names', hnames', h⟩
      rwa [hs.walk_unique (hs.parent_dir _ _ hlink).1 hnames hnames']
    rw [List.map_cons, resolveEdges_cons hs hroot hm hlive hlink hnames]
    by_cases hinside : Inside config live names
    · obtain ⟨relative, hrelative⟩ := relativePath_of_inside (c := c) hconfig hplain hname hinside
      rw [hrelative]
      by_cases hshown : ShownAt config live names k.name inode
      · have hk : Decides config s live inode k := hdecides.2 (.inr hshown)
        obtain ⟨md, hmd, hino⟩ := hshown
        refine ⟨fun h => absurd hk (h k List.mem_cons_self), fun _ e he => ?_⟩
        simp only [bind, Except.bind, stat, hmd, hino, if_true] at he
        cases he
      · have hk : ¬ Decides config s live inode k := fun h =>
          (hdecides.1 h).elim (fun hnot => hnot hinside) hshown
        have hother : ∀ st, stat ⟨c, live⟩ (config.mountPath.pushAll (names ++ [k.name])) = .ok st →
            st.inode ≠ inode := by
          intro st hst hino
          obtain ⟨md, hmd, hinode⟩ := stat_eq_ok hst
          exact hshown ⟨md, hmd, hinode ▸ hino⟩
        have hrest : (∀ k' ∈ k :: keys, ¬ Decides config s live inode k') →
            ∀ k' ∈ keys, ¬ Decides config s live inode k' :=
          fun h k' hk' => h k' (List.mem_cons_of_mem _ hk')
        have hlater : (∃ k' ∈ k :: keys, Decides config s live inode k') →
            ∃ k' ∈ keys, Decides config s live inode k' := by
          rintro ⟨k', hk', hdecides'⟩
          rcases List.mem_cons.1 hk' with rfl | hmem
          · exact absurd hdecides' hk
          · exact ⟨k', hmem, hdecides'⟩
        simp only [bind, Except.bind]
        cases hst : stat ⟨c, live⟩ (config.mountPath.pushAll (names ++ [k.name])) with
        | error => exact ⟨fun h => ihstale (hrest h), fun h => ihnot (hlater h)⟩
        | ok st =>
          simp only [if_neg (hother st hst)]
          exact ⟨fun h => ihstale (hrest h), fun h => ihnot (hlater h)⟩
    · obtain ⟨e, he, hmissing⟩ := relativePath_of_not_inside (c := c) hconfig hplain hname hinside
      rw [he]
      refine ⟨fun h => absurd (hdecides.2 (.inl hinside)) (h k List.mem_cons_self), fun _ e' he' => ?_⟩
      cases he'
      exact hmissing

/-- **The verdict on an object** with cataloged names, by a catalog that mirrors an earlier state. -/
theorem resolveObject_verdict (hlinked : ∃ k : EdgeKey, s.links[k]? = some (.juiceFs inode))
    (hne : ObjectId.juiceFs inode ≠ s.root) :
    ((∀ k, s.links[k]? = some (.juiceFs inode) → ¬ Decides config s live inode k) →
      resolveObject config ⟨c, live⟩ ⟨config.id, .juiceFs inode⟩ =
        .error (.stalePath ⟨config.id, .juiceFs inode⟩)) ∧
    ((∃ k, s.links[k]? = some (.juiceFs inode) ∧ Decides config s live inode k) →
      ∀ e, resolveObject config ⟨c, live⟩ ⟨config.id, .juiceFs inode⟩ = .error e → ¬ IsMissing e) := by
  obtain ⟨row, -, hentry⟩ := hm.scopedEntry (.inr hlinked)
  have hkey : (⟨config.id, .juiceFs inode⟩ : EntryKey) ≠ ⟨config.id, s.root⟩ := fun h =>
    hne (EntryKey.mk.inj h).2
  have hnonempty : s.links.keysWith (.juiceFs inode) ≠ [] := by
    obtain ⟨k, hk⟩ := hlinked
    exact List.ne_nil_of_mem (Table.mem_keysWith.2 hk)
  have hresolve : resolveObject config ⟨c, live⟩ ⟨config.id, .juiceFs inode⟩ =
      resolveEdges config ⟨c, live⟩ ⟨config.id, .juiceFs inode⟩ inode false
        ((s.links.keysWith (.juiceFs inode)).map fun k =>
          ⟨config.id, k.parent, k.name, .juiceFs inode⟩) := by
    simp only [resolveObject, hconfig.backend, resolveJuiceObject, checkKey, ne_eq, not_true, if_false,
      juiceRoot_of_mirrors hm hlive hroot, bind, Except.bind, hkey, entryOf, hentry, Except.mapError,
      Catalog.listScopedObjectEdges, hm.objectEdges]
    split
    · next hnil => exact absurd (List.map_eq_nil_iff.1 hnil) hnonempty
    · rfl
  have hlinks : ∀ k ∈ s.links.keysWith (.juiceFs inode), s.links[k]? = some (.juiceFs inode) :=
    fun k hk => Table.mem_keysWith.1 hk
  have hverdict := resolveEdges_verdict hconfig hs hroot hm hlive hlinks false (.inr hnonempty)
  rw [hresolve]
  refine ⟨fun h => hverdict.1 fun k hk => h k (Table.mem_keysWith.1 hk), ?_⟩
  rintro ⟨k, hk, hdecides⟩
  exact hverdict.2 ⟨k, Table.mem_keysWith.2 hk, hdecides⟩

end Verdict

/-! ## §2 — What the purge does with it -/

section Outcome

variable {kernel : Kernel} {action : ActionBackend} {clock : Clock} {text : Failure → String}
  {entry : ScopedEntryRow} {q : Name} {x : Live}

theorem run_onCatalog {α : Type} (p : StoreProc α) :
    (onCatalog kernel.host p).run x =
      ((p.run x.catalog).1.mapError .store, { x with catalog := (p.run x.catalog).2 }) := by
  have hzoom : (p.zoom kernel.host.catalog kernel.host.setCatalog).run x =
      ((p.run x.catalog).1, { x with catalog := (p.run x.catalog).2 }) := by
    apply Proc.run_zoom
    · intro _ _
      rfl
    · intro _ _ _
      rfl
    · intro _
      rfl
  unfold onCatalog
  rw [Proc.run_mapError, hzoom]

theorem eq_of_run_then_pure {σ ε α β : Type} {p : Proc σ ε α} {a b : β} {s : σ}
    (h : ((p >>= fun _ => pure a).run s).1 = .ok b) : b = a := by
  rw [Proc.run_bind] at h
  rcases hp : p.run s with ⟨e | r, t⟩
  · rw [hp] at h
    cases h
  · rw [hp] at h
    cases h
    rfl

theorem failPurge_ne (error : Failure) (retryable : Bool) (key : EntryKey) :
    ((failPurge kernel.host clock text key error retryable).run x).1 ≠ .ok .alreadyMissing := by
  intro h
  cases eq_of_run_then_pure h

theorem finishPurge_ne (parent : ObjectId) (name : Name) (operation : Except PurgeError Unit) :
    ((finishPurge kernel.host clock text entry parent name operation).run x).1 ≠
      .ok .alreadyMissing := by
  cases operation with
  | ok =>
    intro h
    cases eq_of_run_then_pure h
  | error =>
    show ((if _ then _ else _ : Proc Live ActionError BackendActionOutcome).run x).1 ≠ _
    split_ifs
    · exact failPurge_ne _ _ _
    · exact failPurge_ne _ _ _

theorem purgeResolved_ne (resolved : ResolvedNamespace) (parent : ObjectId) :
    ((purgeResolved kernel.host action clock text entry q resolved parent).run x).1 ≠
      .ok .alreadyMissing := by
  unfold purgeResolved
  split
  · intro h
    cases h
  · split
    all_goals first
      | exact failPurge_ne _ _ _
      | (rw [Proc.run_bind]
         split
         · exact finishPurge_ne _ _ _
         · intro h
           cases h)

/-- **Only a missing verdict is reported as missing.** -/
theorem alreadyMissing_verdict
    (h : ((executePurge kernel.host action clock text entry q).run x).1 = .ok .alreadyMissing) :
    action.purgeCapable = true ∧ ∃ e, IsMissing e ∧
      resolve action.config ⟨x.catalog, kernel.mount x⟩ (.object entry.key) = .error e ∧
      (executePurge kernel.host action clock text entry q).run x =
        (persistMissing kernel.host clock entry >>= fun _ => pure .alreadyMissing).run x := by
  unfold executePurge at h ⊢
  cases hcapable : action.purgeCapable with
  | false =>
    simp only [hcapable, Bool.not_false, if_true, Proc.run_fail, reduceCtorEq] at h
  | true =>
    simp only [hcapable, Bool.not_true, Bool.false_eq_true, if_false] at h ⊢
    split_ifs at h ⊢ with hforeign
    · cases h
    rw [Proc.run_bind, Proc.run_read] at h ⊢
    have hview : (⟨kernel.host.catalog x, kernel.host.mount x⟩ : View) = ⟨x.catalog, kernel.mount x⟩ :=
      rfl
    simp only [hview] at h ⊢
    cases hresolve : resolve action.config ⟨x.catalog, kernel.mount x⟩ (.object entry.key) with
    | error e =>
      rw [hresolve] at h
      cases e with
      | notFound key => exact ⟨trivial, .notFound key, trivial, rfl, rfl⟩
      | stalePath key => exact ⟨trivial, .stalePath key, trivial, rfl, rfl⟩
      | _ => exact absurd h (failPurge_ne _ _ _)
    | ok =>
      rw [hresolve] at h
      simp only at h
      split at h
      · cases h
      · rw [Proc.run_bind, Proc.run_read] at h
        simp only at h
        split at h
        · exact absurd h (failPurge_ne _ _ _)
        · exact absurd h (purgeResolved_ne _ _)

end Outcome

/-! ## §3 — What the catalog loses -/

def Forgets (c d : Catalog) (o : ObjectId) : Prop :=
  (∃ k, c.child k = some o ∧ d.child k ≠ some o) ∨ ((c.row o).isSome ∧ d.row o = none)

section Effect

variable {entry : ScopedEntryRow} {x : Live}

theorem run_patchScopedSmStatus (key : EntryKey) (patch : Json) (now : Int) (c : Catalog) :
    ((patchScopedSmStatus key patch now).run c).2 = c ∨
      ∃ row, ((patchScopedSmStatus key patch now).run c).2 = c.putRow key.object row := by
  unfold patchScopedSmStatus getScopedEntry
  rw [Proc.run_bind, Proc.run_ask]
  cases hentry : c.scopedEntry key with
  | error => exact .inl rfl
  | ok found =>
    cases found with
    | none => exact .inl rfl
    | some row =>
      have hkey := (scopedEntry_eq_some.1 hentry).2
      dsimp only
      rw [Proc.run_bind]
      by_cases haccepts : c.Accepts { row with smStatus := mergeStatus row.smStatus patch, lastSeen := now }
      · rw [run_upsertScopedEntry_of_accepts haccepts]
        exact .inr ⟨_, by rw [← hkey]; rfl⟩
      · obtain ⟨e, he⟩ := run_upsertScopedEntry_of_not_accepts haccepts
        rw [he]
        exact .inl rfl

theorem run_patchScopedSmStatus_ok {key : EntryKey} (patch : Json) (now : Int) {c : Catalog}
    {row : ScopedEntryRow} (hentry : c.scopedEntry key = .ok (some row)) (haccepts : c.Accepts row) :
    (patchScopedSmStatus key patch now).run c = (.ok true, c.putRow key.object
      { row with smStatus := mergeStatus row.smStatus patch, lastSeen := now }) := by
  have hkey := (scopedEntry_eq_some.1 hentry).2
  have hpatched : c.Accepts { row with smStatus := mergeStatus row.smStatus patch, lastSeen := now } :=
    haccepts
  unfold patchScopedSmStatus getScopedEntry
  rw [Proc.run_bind, Proc.run_ask, hentry]
  dsimp only
  rw [Proc.run_bind_ok (run_upsertScopedEntry_of_accepts hpatched), ← hkey]
  rfl

/-- **A purge of a missing object forgets nothing** when the recorded name is not the object's. -/
theorem not_forgets_of_unnamed (kernel : Kernel) (clock : Clock) (h : ∀ p, entry.parent = some p →
      x.catalog.child ⟨p.object, entry.name⟩ ≠ some entry.key.object) :
    ¬ Forgets x.catalog ((persistMissing kernel.host clock entry >>= fun _ =>
      pure BackendActionOutcome.alreadyMissing).run x).2.catalog entry.key.object := by
  have hkept : ∀ row, ¬ Forgets x.catalog (x.catalog.putRow entry.key.object row) entry.key.object := by
    rintro row (⟨k, hk, hk'⟩ | ⟨-, hrow⟩)
    · exact hk' hk
    · simp at hrow
  have hself : ¬ Forgets x.catalog x.catalog entry.key.object := by
    rintro (⟨k, hk, hk'⟩ | ⟨hsome, hnone⟩)
    · exact hk' hk
    · rw [hnone] at hsome
      cases hsome
  unfold persistMissing
  cases hparent : entry.parent with
  | none => exact hself
  | some p =>
    unfold persistUnlink
    simp only [Proc.run_bind, run_onCatalog]
    rcases hpatch : (patchScopedSmStatus entry.key (unlinkPatch clock "already_missing")
      clock.lastSeen).run x.catalog with ⟨r, c⟩
    have hc : c = x.catalog ∨ ∃ row, c = x.catalog.putRow entry.key.object row := by
      have hstate := run_patchScopedSmStatus entry.key (unlinkPatch clock "already_missing")
        clock.lastSeen x.catalog
      rwa [hpatch] at hstate
    have hnot : ¬ Forgets x.catalog c entry.key.object := by
      rcases hc with rfl | ⟨row, rfl⟩
      · exact hself
      · exact hkept row
    cases r with
    | error => exact hnot
    | ok =>
      have hchild : c.child ⟨p.object, entry.name⟩ ≠ some entry.key.object := by
        rcases hc with rfl | ⟨row, rfl⟩
        · exact h p hparent
        · exact h p hparent
      simp only [Except.mapError, applyScopedUnlink, Proc.run_write, Proc.run_return,
        applyScopedUnlinkTx_of_ne hchild]
      exact hnot

end Effect

/-! ## §4 — Against a lagging catalog -/

section Lagging

variable {kernel : Kernel} {action : ActionBackend} {clock : Clock} {text : Failure → String}
  {entry : ScopedEntryRow} {q : Name} {x : Live} {config : FileSystemConfig} {s s' : FsState}
  {inode : UInt64}

def RecordedName (s : FsState) (entry : ScopedEntryRow) (o : ObjectId) : Prop :=
  ∃ p, entry.parent = some p ∧ s.links[(⟨p.object, entry.name⟩ : EdgeKey)]? = some o

theorem action_of_new (hm : Mirrors config s x.catalog) (hconfig : JuiceRegistration config)
    (h : ActionBackend.new x.catalog config.id = .ok action) :
    action = ⟨config.id, .juiceFs, config.capabilities.purge, config⟩ := by
  simp only [ActionBackend.new, hm.registered, newAdapter, hconfig.namespace_, if_true,
    Except.mapError, bind, Except.bind, hconfig.backend] at h
  cases h
  rfl

theorem forgets_of_recorded (kernel : Kernel) (clock : Clock) (hm : Mirrors config s x.catalog)
    (hconfig : JuiceRegistration config)
    (hkey : entry.key = ⟨config.id, .juiceFs inode⟩)
    (hnamed : RecordedName s entry (.juiceFs inode)) :
    ((persistMissing kernel.host clock entry >>= fun _ =>
        pure BackendActionOutcome.alreadyMissing).run x).1 = .ok .alreadyMissing ∧
      Forgets x.catalog ((persistMissing kernel.host clock entry >>= fun _ =>
        pure BackendActionOutcome.alreadyMissing).run x).2.catalog (.juiceFs inode) := by
  obtain ⟨p, hparent, hlink⟩ := hnamed
  obtain ⟨row, hrow, hentry⟩ := hm.scopedEntry (o := .juiceFs inode) (.inr ⟨_, hlink⟩)
  have haccepts : x.catalog.Accepts row := by
    have hrowkey := hm.keys _ _ hrow
    refine ⟨fun config' hconfig' => ?_, fun parent hp => ?_⟩
    · rw [hm.registered] at hconfig'
      cases hconfig'
      rw [hconfig.backend, hrowkey]
      rfl
    · rw [hm.parents _ _ _ hrow hp, hrowkey]
  have hchild : x.catalog.child ⟨p.object, entry.name⟩ = some (.juiceFs inode) := by
    rw [Catalog.child, hm.edges]
    exact hlink
  have hpatch := run_patchScopedSmStatus_ok (unlinkPatch clock "already_missing") clock.lastSeen hentry
    haccepts
  unfold persistMissing
  rw [hparent]
  unfold persistUnlink
  simp only [Proc.run_bind, run_onCatalog, hkey, hpatch, Except.mapError, applyScopedUnlink,
    Proc.run_write, Proc.run_return, true_and]
  refine .inl ⟨_, hchild, ?_⟩
  unfold applyScopedUnlinkTx
  rw [if_pos (by simpa using hchild)]
  dsimp only
  split
  · simp
  · split_ifs
    · simp
    · simp

variable (hconfig : JuiceRegistration config) (hs : s.WF) (hroot : s'.root = s.root)
  (hm : Mirrors config s x.catalog) (hlive : Shows config.mountPath s' (kernel.mount x))
  (haction : ActionBackend.new x.catalog config.id = .ok action)
  (hkey : entry.key = ⟨config.id, .juiceFs inode⟩)

include hconfig hs hroot hm hlive haction hkey

/-- **When a purge forgets only what is missing.**  The catalog mirrors an earlier state `s` of the
filesystem, the mount shows the present one, `s'`.  A purge that reports `AlreadyMissing` and drops a name
or the row of the object does so to a missing object exactly if the object is gone, or the filesystem
cannot purge, or some name the object had at the catalog's state decides the search, or the row does not
record one of these names. -/
theorem forgets_only_missing_iff :
    (((executePurge kernel.host action clock text entry q).run x).1 = .ok .alreadyMissing →
      Forgets x.catalog ((executePurge kernel.host action clock text entry q).run x).2.catalog
        (.juiceFs inode) → ¬ s'.Linked (.juiceFs inode)) ↔
    ¬ s'.Linked (.juiceFs inode) ∨ config.capabilities.purge = false ∨
      (∃ k, s.links[k]? = some (.juiceFs inode) ∧ Decides config s (kernel.mount x) inode k) ∨
      ¬ RecordedName s entry (.juiceFs inode) := by
  obtain rfl := action_of_new hm hconfig haction
  constructor
  · -- Otherwise the search gives up, and the recorded name is dropped.
    intro h
    by_contra hnot
    simp only [not_or, not_not, not_exists, not_and] at hnot
    obtain ⟨hlinked, hpurge, hundecided, p, hparent, hlink⟩ := hnot
    have hne : ObjectId.juiceFs inode ≠ s.root := fun h' => hs.root_unlinked _ (h' ▸ hlink)
    have hstale := (resolveObject_verdict hconfig hs hroot hm hlive ⟨_, hlink⟩ hne).1 hundecided
    have hcapable : config.capabilities.purge = true := by simpa using hpurge
    have hrun : (executePurge kernel.host ⟨config.id, .juiceFs, config.capabilities.purge, config⟩ clock
        text entry q).run x =
        (persistMissing kernel.host clock entry >>= fun _ => pure .alreadyMissing).run x := by
      unfold executePurge
      have hforeign : ¬ (entry.key.filesystem ≠ config.id ∨
          entry.key.object.backend ≠ BackendKind.juiceFs) := by
        rw [hkey]
        simp [ObjectId.backend]
      rw [if_neg (by simp [hcapable]), if_neg hforeign, Proc.run_bind, Proc.run_read]
      have hresolve : resolve config ⟨kernel.host.catalog x, kernel.host.mount x⟩
          (.object entry.key) = .error (.stalePath ⟨config.id, .juiceFs inode⟩) := by
        rw [hkey]
        exact hstale
      simp only [hresolve]
    obtain ⟨hmissing, hforgets⟩ :=
      forgets_of_recorded kernel clock hm hconfig hkey ⟨p, hparent, hlink⟩
    rw [hrun] at h
    exact h hmissing hforgets hlinked
  · rintro hcases hmissing hforgets
    obtain ⟨hcapable, e, he, hresolve, hrun⟩ := alreadyMissing_verdict hmissing
    rcases hcases with hgone | hpurge | ⟨k, hk, hdecides⟩ | hunnamed
    · exact hgone
    · rw [hpurge] at hcapable
      cases hcapable
    · have hne : ObjectId.juiceFs inode ≠ s.root := fun h' => hs.root_unlinked k (h' ▸ hk)
      rw [hkey] at hresolve
      exact absurd he ((resolveObject_verdict hconfig hs hroot hm hlive ⟨k, hk⟩ hne).2
        ⟨k, hk, hdecides⟩ e hresolve)
    · rw [hrun] at hforgets
      refine absurd hforgets ?_
      have hnot : ∀ p, entry.parent = some p →
          x.catalog.child ⟨p.object, entry.name⟩ ≠ some entry.key.object := by
        intro p hparent hchild
        rw [Catalog.child, hm.edges, hkey] at hchild
        exact hunnamed ⟨p, hparent, hchild⟩
      have hkept := not_forgets_of_unnamed kernel clock hnot
      rwa [hkey] at hkept

end Lagging

/-! ## §5 — A file that was renamed -/

namespace Sample

open JuiceFs.Sample (mountPath root a b jfs config registered emptyFs emptyFs_wf create
  config_registration)

def row (inode : UInt64) (parent : Option EntryKey) (name : Name) (kind : EntryKind) :
    ScopedEntryRow :=
  ⟨⟨jfs, .juiceFs inode⟩, parent, name, kind, 0, 0, 0, 0, 0, 0, 1, 0, 0, 0, none, none, [], none, .null,
    0, 0⟩

def oneFileCatalog : Catalog :=
  (registered.putRow root (row 1 none [] .directory)).putRow (.juiceFs 10)
    (row 10 (some ⟨jfs, root⟩) a .file) |>.putEdge ⟨root, a⟩ (.juiceFs 10)

def catalogedFile : Live := ⟨oneFile.links, [], oneFileCatalog, 0, []⟩

/-- A file is created as `a` and renamed to `b`. -/
def renamedFile : List Change := [create 10 a, .renamed (.juiceFs 10) root a root b 0]

theorem renamedFile_allowed : emptyFs.AllowsAll renamedFile := by
  intro i r hr
  match i with
  | 0 =>
    cases hr
    exact ⟨by decide +kernel, by decide +kernel, rfl, ⟨by decide +kernel, .inl rfl⟩,
      by decide +kernel⟩
  | 1 =>
    cases hr
    refine ⟨by decide +kernel, ⟨by decide +kernel, .inl rfl⟩, by decide +kernel, ?_, ?_⟩
    · -- A file holds no names, so nothing is reached from it.
      rintro (_ | ⟨n, names⟩)
      · decide
      · simp [FsState.walkFrom, FsState.stateAfter, renamedFile, FsState.after, onLinks, create,
          emptyFs, root]
    · intro d hd
      have hfree : (emptyFs.stateAfter renamedFile 1).links[(⟨root, b⟩ : EdgeKey)]? = none := by
        decide +kernel
      have hd := hd
      rw [hfree] at hd
      cases hd
  | i + 2 => cases hr

/-- The filesystem after the first `n` records. -/
def renamedFs (n : ℕ) : FsState := emptyFs.stateAfter renamedFile n

theorem renamedFs_wf (n : ℕ) : (renamedFs n).WF := emptyFs_wf.stateAfter renamedFile_allowed n

theorem row_oneFileCatalog (o : ObjectId) : oneFileCatalog.row o =
    if .juiceFs 10 = o then some (row 10 (some ⟨jfs, root⟩) a .file)
    else if root = o then some (row 1 none [] .directory) else none := by
  simp only [oneFileCatalog, Catalog.row_putEdge, Catalog.row_putRow]
  rfl

theorem links_renamedFs_one (k : EdgeKey) :
    (renamedFs 1).links[k]? = if (⟨root, a⟩ : EdgeKey) = k then some (.juiceFs 10) else none := by
  show ((∅ : Table EdgeKey ObjectId).insert ⟨root, a⟩ (.juiceFs 10))[k]? = _
  rw [Table.getElem?_upsert]
  rfl

theorem oneFileCatalog_mirrors : Mirrors config (renamedFs 1) oneFileCatalog where
  registered := rfl
  keys o e he := by
    rw [row_oneFileCatalog] at he
    split_ifs at he with h₁ h₂
    · cases he
      rw [← h₁]
      rfl
    · cases he
      rw [← h₂]
      rfl
  parents o e p he hp := by
    rw [row_oneFileCatalog] at he
    split_ifs at he
    · cases he
      cases hp
      rfl
    · cases he
      cases hp
  edges := rfl
  rows o ho := by
    rw [← Option.isSome_iff_exists]
    rcases ho with rfl | ⟨k, hk⟩
    · decide +kernel
    · rw [links_renamedFs_one] at hk
      split_ifs at hk
      cases hk
      decide +kernel
  dirs k d e hd hk := by
    rw [links_renamedFs_one] at hk
    split_ifs at hk
    cases hk
    exact absurd hd (by decide +kernel)
  counts o e hkind he := by
    rw [row_oneFileCatalog] at he
    split_ifs at he with h₁ h₂
    · cases he
      rw [← h₁]
      decide +kernel
    · rw [← h₂] at hkind
      exact absurd (by decide +kernel) hkind

/-- The kernel of the sample, whose mount shows the filesystem after `n` records. -/
def renamedKernel (n : ℕ) : Kernel := { kernel with mount := fun _ => (renamedFs n).mountAt mountPath }

/-- The purge of the file by the name `a`, `n` records into its life. -/
def purgeByName (n : ℕ) : Except ActionError BackendActionOutcome × Live :=
  (executePurge (renamedKernel n).host ⟨jfs, .juiceFs, true, config⟩ ⟨5, 5, 5⟩ (fun _ => "")
    (row 10 (some ⟨jfs, root⟩) a .file) quarantineName).run catalogedFile

/-- Before the rename the purge forgets nothing that is alive. -/
theorem purge_before_rename :
    Mirrors config (renamedFs 1) catalogedFile.catalog ∧
      ((purgeByName 1).1 = .ok .alreadyMissing →
        Forgets catalogedFile.catalog (purgeByName 1).2.catalog (.juiceFs 10) →
        ¬ (renamedFs 1).Linked (.juiceFs 10)) := by
  refine ⟨oneFileCatalog_mirrors, (forgets_only_missing_iff (s := renamedFs 1) config_registration (renamedFs_wf 1) rfl
    oneFileCatalog_mirrors (FsState.shows_mountAt (renamedFs_wf 1)) rfl rfl).2 ?_⟩
  refine .inr (.inr (.inl ⟨⟨root, a⟩, by decide +kernel, [], by decide +kernel, .inr ?_⟩))
  exact ⟨(renamedFs 1).metadata (.juiceFs 10), by decide +kernel, by decide +kernel⟩

/-- After the rename it forgets a file that is alive. -/
theorem purge_after_rename_forgets :
    Mirrors config (renamedFs 1) catalogedFile.catalog ∧
      Shows mountPath (renamedFs 2) ((renamedKernel 2).mount catalogedFile) ∧
      (purgeByName 2).1 = .ok .alreadyMissing ∧
      Forgets catalogedFile.catalog (purgeByName 2).2.catalog (.juiceFs 10) ∧
      (purgeByName 2).2.catalog.row (.juiceFs 10) = none ∧
      (renamedFs 2).Linked (.juiceFs 10) := by
  refine ⟨oneFileCatalog_mirrors, FsState.shows_mountAt (renamedFs_wf 2), by decide +kernel, ?_,
    by decide +kernel, .inr ⟨⟨root, b⟩, by decide +kernel⟩⟩
  exact .inr ⟨by decide +kernel, by decide +kernel⟩

end Sample

end Robinhood.Actions
