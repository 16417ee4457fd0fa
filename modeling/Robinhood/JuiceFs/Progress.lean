/-
# JuiceFs.Progress — when ingest gets past every record

`ingest_loop` stops at a JuiceFS record that `apply_juicefs_change` refuses, and meets the same record
again after a restart.  CREATE, WRITE and SETATTR look for the object on the live mount, which may
already have lost it, so a perfectly legal history can hold a record that is refused for ever.
`Sample.shortLived` is one.  `Fresh` says what the mount may not have lost yet; when every record is
applied while it is fresh, none is refused.
-/
import Mathlib
import Robinhood.JuiceFs.Agreement
import Robinhood.JuiceFs.Resolution

namespace Robinhood.JuiceFs

open Lib Posix Store Ingest Namespace Scan

/-! ## §1 — Later versions -/

def Later (s s' : FsState) : Prop :=
  s'.root = s.root ∧ ∀ (o : ObjectId) kind, s.kinds[o]? = some kind → s'.kinds[o]? = some kind

theorem Later.trans {s s' s'' : FsState} (h : Later s s') (h' : Later s' s'') : Later s s'' :=
  ⟨h'.1.trans h.1, fun o kind hk => h'.2 o kind (h.2 o kind hk)⟩

theorem later_after {s : FsState} {r : Change} (h : s.Allows r) : Later s (s.after r) := by
  refine ⟨rfl, fun o kind hk => ?_⟩
  cases r with
  | created object =>
    have hne : object ≠ o := by
      rintro rfl
      rw [h.2.1] at hk
      cases hk
    simp only [FsState.after, Table.getElem?_upsert, if_neg hne, hk]
  | _ => exact hk

theorem later_stateAfter {s : FsState} {history : List Change} (h : s.AllowsAll history) {i n : ℕ}
    (hin : i ≤ n) : Later (s.stateAfter history i) (s.stateAfter history n) := by
  induction n, hin using Nat.le_induction with
  | base => exact ⟨rfl, fun _ _ hk => hk⟩
  | succ n hin ih =>
    cases hr : history[n]? with
    | none =>
      rw [show s.stateAfter history (n + 1) = s.stateAfter history n by
        rw [FsState.stateAfter, List.take_add_one, hr]
        simp [FsState.stateAfter]]
      exact ih
    | some r =>
      rw [FsState.stateAfter_succ hr]
      exact ih.trans (later_after (h n r hr))

/-- **A record is still fresh** on a mount that shows the later version `s'`, when it is applied to a
catalog that mirrors `s`: what it looks for can still be found there. -/
def Fresh (s s' : FsState) : Change → Prop
  | .created object parent name _ _ _ =>
    (∃ names, s.walk names = some parent ∧ s'.walk names = some parent) ∧
      (s'.links[(⟨parent, name⟩ : EdgeKey)]? = none ∨
        s'.links[(⟨parent, name⟩ : EdgeKey)]? = some object)
  | .metadataChanged object _ _ | .contentChanged object _ _ _ _ =>
    (object = s.root ∨ StillFound s s' object) ∧
      (s.kinds[object]? ≠ some .directory → s.linkCount object ≤ s'.linkCount object)
  | .hardlinked .. | .removed .. | .renamed .. | .backend _ => True

def CarriesOwner : Change → Prop
  | .created _ _ _ _ metadata _ => metadata.isSome
  | _ => True

instance : (r : Change) → Decidable (CarriesOwner r)
  | .created _ _ _ _ metadata _ => inferInstanceAs (Decidable (metadata.isSome = true))
  | .hardlinked .. | .removed .. | .renamed .. | .metadataChanged .. | .contentChanged .. | .backend _ =>
    .isTrue trivial

/-! ## §2 — Link counts -/

section Counts

variable {s : FsState} {object parent : ObjectId} {name : Name}

theorem linkCount_insert_self {kinds : Table ObjectId EntryKind}
    (h : s.links[(⟨parent, name⟩ : EdgeKey)]? ≠ some object) :
    (⟨s.root, s.links.insert ⟨parent, name⟩ object, kinds⟩ : FsState).linkCount object =
      s.linkCount object + 1 := by
  refine Table.length_keysWith_add_one h fun k => ?_
  rw [Table.getElem?_upsert]
  split_ifs with hk
  · simp [hk]
  · simp [Ne.symm hk]

theorem linkCount_erase_self {kinds : Table ObjectId EntryKind}
    (h : s.links[(⟨parent, name⟩ : EdgeKey)]? = some object) :
    s.linkCount object =
      (⟨s.root, s.links.erase ⟨parent, name⟩, kinds⟩ : FsState).linkCount object + 1 := by
  refine Table.length_keysWith_add_one (k := ⟨parent, name⟩) (by simp) fun k => ?_
  rw [Table.getElem?_delete]
  split_ifs with hk
  · simp [← hk, h]
  · simp [Ne.symm hk]

theorem linkCount_eq_zero (h : ∀ k : EdgeKey, s.links[k]? ≠ some object) : s.linkCount object = 0 := by
  rw [FsState.linkCount, List.length_eq_zero_iff, List.eq_nil_iff_forall_not_mem]
  exact fun k hk => h k (Table.mem_keysWith.1 hk)

theorem linkCount_pos {k : EdgeKey} (h : s.links[k]? = some object) : 0 < s.linkCount object :=
  List.length_pos_of_mem (Table.mem_keysWith.2 h)

end Counts

/-! ## §3 — One record -/

section Step

variable {config : FileSystemConfig} {s s' t : FsState} {c c' : Catalog} {live : Mount}
  {object : ObjectId} {time : Int}

/-- **A record about one object** keeps the mirror when the other objects keep their rows and gain no
name, and the object itself is mirrored afterwards. -/
theorem Mirrors.of_object (hm : Mirrors config s c) (object : ObjectId)
    (hregistered : c'.filesystem = c.filesystem) (hedges : c'.edges = t.links)
    (hroot : t.root = s.root) (hkinds : ∀ o : ObjectId, o ≠ object → t.kinds[o]? = s.kinds[o]?)
    (hrow : ∀ o, o ≠ object → c'.row o = c.row o)
    (hlinks : ∀ o, o ≠ object → ∀ k : EdgeKey, t.links[k]? = some o → s.links[k]? = some o)
    (hself : t.Linked object → (c'.row object).isSome)
    (hentry : ∀ e, c'.row object = some e → e.key = ⟨config.id, object⟩ ∧
      (∀ p, e.parent = some p → p.filesystem = config.id) ∧
      (t.kinds[object]? = some .directory → ∀ k : EdgeKey, t.links[k]? = some object →
        e.parent = some ⟨config.id, k.parent⟩ ∧ e.name = k.name) ∧
      (t.kinds[object]? ≠ some .directory → t.linkCount object ≤ e.nlink.toNat)) :
    Mirrors config t c' := by
  refine ⟨hregistered.trans hm.registered, fun o e he => ?_, fun o e p he hp => ?_, hedges,
    fun o ho => ?_, fun k d e hd hk he => ?_, fun o e hfile he => ?_⟩
  · by_cases hne : o = object
    · subst hne
      exact (hentry e he).1
    · exact hm.keys o e (hrow o hne ▸ he)
  · by_cases hne : o = object
    · subst hne
      exact (hentry e he).2.1 p hp
    · exact hm.parents o e p (hrow o hne ▸ he) hp
  · by_cases hne : o = object
    · subst hne
      exact Option.isSome_iff_exists.1 (hself ho)
    · rw [hrow o hne]
      refine hm.rows o ?_
      rcases ho with rfl | ⟨k, hk⟩
      · exact .inl hroot
      · exact .inr ⟨k, hlinks o hne k hk⟩
  · by_cases hne : d = object
    · subst hne
      exact (hentry e he).2.2.1 hd k hk
    · exact hm.dirs k d e (hkinds d hne ▸ hd) (hlinks d hne k hk) (hrow d hne ▸ he)
  · by_cases hne : o = object
    · subst hne
      exact (hentry e he).2.2.2 hfile
    · calc t.linkCount o ≤ s.linkCount o := Table.length_keysWith_le (hlinks o hne)
        _ ≤ e.nlink.toNat := hm.counts o e (hkinds o hne ▸ hfile) (hrow o hne ▸ he)

theorem Mirrors.accepts (hconfig : JuiceRegistration config) (hm : Mirrors config s c)
    {row : ScopedEntryRow} (hkey : row.key = ⟨config.id, object⟩) (ho : object.backend = .juiceFs)
    (hparent : ∀ parent, row.parent = some parent → parent.filesystem = config.id) :
    c.Accepts row := by
  refine ⟨fun config' hconfig' => ?_, fun parent hp => ?_⟩
  · rw [hm.registered] at hconfig'
    cases hconfig'
    rw [hconfig.backend, hkey, ho]
  · rw [hparent parent hp, hkey]

section Catalog

variable (hs : s.WF) (hm : Mirrors config s c)

theorem le_toNat_saturatingSucc {m : ℕ} {n : UInt32} (h : m ≤ n.toNat) (hsmall : m + 1 < 2 ^ 32) :
    m + 1 ≤ (saturatingSucc n).toNat := by
  by_cases hn : n = 4294967295
  · subst hn
    rw [saturatingSucc, if_pos rfl]
    show m + 1 ≤ 4294967295
    omega
  · have hlt : n.toNat + 1 < 2 ^ 32 := by
      have hle := n.toNat_lt
      have hne : n.toNat ≠ 4294967295 := fun h => hn (UInt32.toNat_inj.1 h)
      omega
    rw [toNat_saturatingSucc hlt]
    omega

include hm in
theorem mirrors_hardlinked {parent : ObjectId} {name : Name}
    (hsmall : s.linkCount object + 1 < 2 ^ 32)
    (hallowed : s.Allows (.hardlinked object parent name time)) :
    ∃ c', (liftStore (applyScopedHardlink ⟨config.id, parent, name, object⟩ time)).run c =
        (.ok (), c') ∧
      Mirrors config (s.after (.hardlinked object parent name time)) c' := by
  obtain ⟨hfree, hfile, hlinked, -, -⟩ := hallowed
  obtain ⟨entry, hrow⟩ := hm.rows _ hlinked
  have hchild : c.child ⟨parent, name⟩ = none := (congrArg (·[_]?) hm.edges).trans hfree
  have htx : applyScopedHardlinkTx ⟨config.id, parent, name, object⟩ time c =
      .ok ((c.putEdge ⟨parent, name⟩ object).putRow object
        { entry with nlink := saturatingSucc entry.nlink, lastSeen := time }) := by
    simp only [applyScopedHardlinkTx, ScopedNamespaceEdge.edgeKey, hchild, hrow]
  refine ⟨_, run_hardlinked_ok.2 htx, ?_⟩
  refine hm.of_object object rfl ?_ rfl (fun _ _ => rfl) (fun o ho => ?_) (fun o ho k hk => ?_)
    (fun _ => ?_) fun e he => ?_
  · exact congrArg (·.insert ⟨parent, name⟩ object) hm.edges
  · simp [Ne.symm ho]
  · simp only [FsState.after, onLinks, Table.getElem?_upsert] at hk
    split_ifs at hk with hkey
    · exact absurd (Option.some.inj hk).symm ho
    · exact hk
  · simp
  · simp only [Catalog.row_putRow, if_true, Option.some.injEq] at he
    subst he
    refine ⟨hm.keys _ entry hrow, fun p hp => hm.parents _ entry p hrow hp, fun hd => absurd hd hfile,
      fun _ => ?_⟩
    have hcounted : (s.after (.hardlinked object parent name time)).linkCount object =
        s.linkCount object + 1 := linkCount_insert_self (by rw [hfree]; simp)
    rw [hcounted]
    exact le_toNat_saturatingSucc (hm.counts _ entry hfile hrow) hsmall

include hs hm in
theorem not_linked_of_last {parent : ObjectId} {name : Name} {lastLink directory : Bool}
    {entry : ScopedEntryRow} (hrow : c.row object = some entry)
    (hallowed : s.Allows (.removed object parent name lastLink directory time))
    (hlast : directory = true ∨ ¬ 1 < entry.nlink) :
    ¬ (s.after (.removed object parent name lastLink directory time)).Linked object := by
  obtain ⟨hlink, hdirectory, -⟩ := hallowed
  rintro (hroot | ⟨k, hk⟩)
  · exact hs.root_unlinked _ (hlink.trans (congrArg some hroot))
  have hk' := hk
  simp only [FsState.after, onLinks, Table.getElem?_delete] at hk'
  split_ifs at hk' with hne
  by_cases hdir : s.kinds[object]? = some .directory
  · exact hne (hs.dir_link _ _ object hdir hlink hk')
  · have hcount := hm.counts _ entry hdir hrow
    have hmany : s.linkCount object =
        (s.after (.removed object parent name lastLink directory time)).linkCount object + 1 :=
      linkCount_erase_self hlink
    have hpos := linkCount_pos hk
    have hle : entry.nlink.toNat ≤ 1 := by
      have hlast := hlast.resolve_left fun h => hdir (hdirectory.1 h)
      exact not_lt.1 hlast
    omega

include hs hm in
theorem mirrors_removed {parent : ObjectId} {name : Name} {lastLink directory : Bool}
    (hallowed : s.Allows (.removed object parent name lastLink directory time)) :
    Mirrors config (s.after (.removed object parent name lastLink directory time))
      (applyScopedUnlinkTx ⟨config.id, object⟩ parent name time directory c) := by
  have hlink := hallowed.1
  have hchild : c.child ⟨parent, name⟩ = some object := (congrArg (·[_]?) hm.edges).trans hlink
  obtain ⟨entry, hrow⟩ := hm.rows object (.inr ⟨_, hlink⟩)
  have hothers : ∀ o, o ≠ object → ∀ k : EdgeKey,
      (s.links.erase ⟨parent, name⟩)[k]? = some o → s.links[k]? = some o := fun o _ k hk => by
    rw [Table.getElem?_delete] at hk
    split_ifs at hk
    exact hk
  have hedges : c.edges.erase ⟨parent, name⟩ = s.links.erase ⟨parent, name⟩ := by rw [hm.edges]
  by_cases hlast : directory = true ∨ ¬ 1 < entry.nlink
  · have hunlinked := not_linked_of_last hs hm hrow hallowed hlast
    rw [applyScopedUnlinkTx_of_last hchild hrow hlast]
    refine hm.of_object object rfl hedges rfl (fun _ _ => rfl) (fun o ho => ?_) hothers
      (fun hlinked => absurd hlinked hunlinked) fun e he => ?_
    · simp [Ne.symm ho]
    · simp at he
  · obtain ⟨hfile, hmany⟩ := not_or.1 hlast
    rw [applyScopedUnlinkTx_of_many hchild hrow (by simpa using hfile) (not_not.1 hmany)]
    refine hm.of_object object rfl hedges rfl (fun _ _ => rfl) (fun o ho => ?_) hothers
      (fun _ => ?_) fun e he => ?_
    · simp [Ne.symm ho]
    · simp
    · simp only [Catalog.row_putRow, if_true, Option.some.injEq] at he
      subst he
      refine ⟨hm.keys _ entry hrow, fun p hp => hm.parents _ entry p hrow hp,
        fun hd => absurd (hallowed.2.1.2 hd) hfile, fun hkind => ?_⟩
      have hcounted : s.linkCount object =
          (s.after (.removed object parent name lastLink directory time)).linkCount object + 1 :=
        linkCount_erase_self hlink
      have hcount := hm.counts _ entry hkind hrow
      show _ ≤ (entry.nlink - 1).toNat
      rw [UInt32.toNat_sub_of_le _ _ (UInt32.le_of_lt (not_not.1 hmany))]
      show _ ≤ entry.nlink.toNat - 1
      omega

include hs hm in
theorem mirrors_renamed {sourceParent parent : ObjectId} {sourceName name : Name}
    (hconfig : JuiceRegistration config)
    (hallowed : s.Allows (.renamed object sourceParent sourceName parent name time)) :
    ∃ c', (applyRenamed config.id object sourceParent sourceName parent name time).run c =
        (.ok (), c') ∧
      Mirrors config (s.after (.renamed object sourceParent sourceName parent name time)) c' := by
  obtain ⟨⟨hsource, htarget⟩, -⟩ := hallowed
  obtain ⟨entry, hrow⟩ := hm.rows object (.inr ⟨_, hsource⟩)
  have hkey := hm.keys _ _ hrow
  obtain ⟨kind, hkind⟩ := Option.isSome_iff_exists.1 (hs.linked_kind _ _ hsource)
  have hparents : ∀ p, (movedRow entry config.id parent name time).parent = some p →
      p.filesystem = config.id := by
    rintro p ⟨⟩
    rfl
  have haccepts : c.Accepts (movedRow entry config.id parent name time) :=
    hm.accepts hconfig hkey (hs.native _ _ hkind) hparents
  refine ⟨_, run_applyRenamed_ok.2 ⟨entry, hrow, hkey, haccepts, rfl⟩, ?_⟩
  -- Apart from the target, a name of the object is one it had, and not the source.
  have hnames : ∀ (k : EdgeKey) o,
      ((s.links.erase ⟨sourceParent, sourceName⟩).insert ⟨parent, name⟩ object)[k]? = some o →
      (k = ⟨parent, name⟩ ∧ o = object) ∨ (k ≠ ⟨sourceParent, sourceName⟩ ∧ s.links[k]? = some o) := by
    intro k o hk
    rw [Table.getElem?_upsert, Table.getElem?_delete] at hk
    split_ifs at hk with hk₁ hk₂
    · exact .inl ⟨hk₁.symm, (Option.some.inj hk).symm⟩
    · exact .inr ⟨Ne.symm hk₂, hk⟩
  refine hm.of_object object rfl ?_ rfl (fun _ _ => rfl) (fun o ho => ?_) (fun o ho k hk => ?_)
    (fun _ => ?_) fun e he => ?_
  · exact congrArg (fun links : Links =>
      (links.erase ⟨sourceParent, sourceName⟩).insert ⟨parent, name⟩ object) hm.edges
  · simp [Ne.symm ho]
  · exact ((hnames k o hk).resolve_left fun h => ho h.2).2
  · simp
  · simp only [Catalog.row_putEdge, Catalog.row_dropEdge, Catalog.row_putRow, if_true,
      Option.some.injEq] at he
    subst he
    refine ⟨hkey, hparents, fun hd k hk => ?_, fun hfile => ?_⟩
    · rcases hnames k object hk with ⟨rfl, -⟩ | ⟨hne, hk⟩
      · exact ⟨rfl, rfl⟩
      · exact absurd (hs.dir_link _ _ object hd hk hsource) hne
    · calc _ = (⟨s.root, s.links.erase ⟨sourceParent, sourceName⟩, s.kinds⟩ : FsState).linkCount
            object + 1 := linkCount_insert_self (by
              rw [Table.getElem?_delete]
              split_ifs
              · simp
              · exact htarget)
        _ = s.linkCount object := (linkCount_erase_self hsource).symm
        _ ≤ entry.nlink.toNat := hm.counts _ entry hfile hrow

end Catalog

section Live

variable (hconfig : JuiceRegistration config) (hs : s.WF) (hs' : s'.WF) (hroot : s'.root = s.root)
  (hm : Mirrors config s c) (hlive : Shows config.mountPath s' live)

include hconfig hs hs' hroot hm hlive

theorem resolvedPath_of_stillFound {o : ObjectId} (ho : o.backend = .juiceFs) (hlinked : s.Linked o)
    (hfound : o = s.root ∨ StillFound s s' o) :
    ∃ path, resolvedPath config.id live ⟨config.id, o⟩ c = .ok path := by
  obtain ⟨resolved, hresolved⟩ :=
    resolveObject_of_stillFound hconfig hs hs' hroot hm hlive ho hlinked hfound
  refine ⟨resolved.path, ?_⟩
  simp [resolvedPath, newAdapter, hm.registered, hconfig.namespace_, hresolved, Except.mapError,
    bind, Except.bind]

theorem createdPlan_of_fresh {parent : ObjectId} {name : Name} {kind : EntryKind}
    {metadata : Option CreatedMetadata} (hlater : Later s s')
    (hnext : s' = s ∨ Later (s.after (.created object parent name kind metadata time)) s')
    (hsmall : s'.linkCount object < 2 ^ 32) (howner : metadata.isSome)
    (hallowed : s.Allows (.created object parent name kind metadata time))
    (hfresh : Fresh s s' (.created object parent name kind metadata time)) :
    ∃ row, createdPlan config.id config.mountPath live object parent name kind metadata time c =
        .ok row ∧ row.key = ⟨config.id, object⟩ ∧ row.parent = some ⟨config.id, parent⟩ ∧
      row.name = name ∧ (kind ≠ .directory → 1 ≤ row.nlink.toNat) := by
  obtain ⟨-, hnew, hnative, ⟨hdir, hlinked⟩, hname⟩ := hallowed
  obtain ⟨⟨names, hwalk, hwalk'⟩, hfree⟩ := hfresh
  obtain ⟨parentPath, hparent⟩ := resolvedPath_of_stillFound hconfig hs hs' hroot hm hlive
    (hs.native _ _ hdir) hlinked (stillFound_of_walk hs hdir hwalk hwalk')
  obtain ⟨inode, rfl⟩ : ∃ inode, parent = .juiceFs inode := by
    cases parent with
    | juiceFs inode => exact ⟨inode, rfl⟩
    | lustre => cases hs.native _ _ hdir
  obtain ⟨md, hmd, rfl⟩ := resolvedPath_ok hparent
  have hdir' := hlater.2 _ _ hdir
  rcases hfree with hfree | hfree
  · obtain ⟨e, he⟩ := hlive.missing parentPath md name hmd hdir' hname hfree
    obtain ⟨owner, rfl⟩ := Option.isSome_iff_exists.1 howner
    refine ⟨createdRow config.id config.mountPath object (.juiceFs md.ino) name kind owner none time
      (parentPath.push name), ?_, rfl, rfl, rfl, fun _ => le_rfl⟩
    simp only [createdPlan, hparent, he, bind, Except.bind, Except.toOption, checkCreated,
      createdOwner]
  · obtain ⟨md', hmd', rfl⟩ := hlive.child parentPath md name object hmd hdir' hname hfree
    refine ⟨createdRow config.id config.mountPath (.juiceFs md'.ino) (.juiceFs md.ino) name kind
      ⟨md'.uid, md'.gid, md'.mode⟩ (some md') time (parentPath.push name), ?_, rfl, rfl, rfl,
      fun hkind => ?_⟩
    · simp only [createdPlan, hparent, hmd', bind, Except.bind, Except.toOption, checkCreated,
        checkInode, objectInode, ne_eq, not_true, if_false, createdOwner]
    · -- The live object is the created one, so it has the recorded kind there.
      have hkind' : s'.kinds[ObjectId.juiceFs md'.ino]? ≠ some .directory := by
        rcases hnext with rfl | hnext
        · simp [hnew]
        · rw [hnext.2 (.juiceFs md'.ino) kind (by simp [FsState.after])]
          simpa using hkind
      show 1 ≤ (truncate32 md'.nlink).toNat
      rw [hlive.toNat_nlink hmd' hkind' hsmall]
      exact linkCount_pos hfree

theorem mirrors_created {parent : ObjectId} {name : Name} {kind : EntryKind}
    {metadata : Option CreatedMetadata} (hlater : Later s s')
    (hnext : s' = s ∨ Later (s.after (.created object parent name kind metadata time)) s')
    (hsmall : s'.linkCount object < 2 ^ 32) (howner : metadata.isSome)
    (hallowed : s.Allows (.created object parent name kind metadata time))
    (hfresh : Fresh s s' (.created object parent name kind metadata time)) :
    ∃ c', (applyCreated config.id config.mountPath live object parent name kind metadata time).run c =
        (.ok (), c') ∧
      Mirrors config (s.after (.created object parent name kind metadata time)) c' := by
  obtain ⟨row, hplan, hkey, hparent, hname, hcount⟩ := createdPlan_of_fresh hconfig hs hs' hroot hm
    hlive hlater hnext hsmall howner hallowed hfresh
  obtain ⟨-, hnew, hnative, -, -⟩ := hallowed
  have hparents : ∀ p, row.parent = some p → p.filesystem = config.id := fun p hp => by
    rw [hparent] at hp
    cases hp
    rfl
  have haccepts : c.Accepts row := hm.accepts hconfig hkey hnative hparents
  have hunlinked : ∀ k : EdgeKey, s.links[k]? ≠ some object := fun k hk => by
    have := hs.linked_kind k object hk
    simp [hnew] at this
  refine ⟨_, run_applyCreated_ok.2 ⟨row, hplan, haccepts, rfl⟩, ?_⟩
  rw [hkey]
  refine hm.of_object object rfl ?_ rfl (fun o ho => ?_) (fun o ho => ?_) (fun o ho k hk => ?_)
    (fun _ => ?_) fun e he => ?_
  · exact congrArg (·.insert ⟨parent, name⟩ object) hm.edges
  · simp [FsState.after, Ne.symm ho]
  · simp [Ne.symm ho]
  · simp only [FsState.after, onLinks, Table.getElem?_upsert] at hk
    split_ifs at hk with hkey
    · exact absurd (Option.some.inj hk).symm ho
    · exact hk
  · simp
  · simp only [Catalog.row_putEdge, Catalog.row_putRow, if_true, Option.some.injEq] at he
    subst he
    refine ⟨hkey, hparents, fun _ k hk => ?_, fun hfile => ?_⟩
    · simp only [FsState.after, onLinks, Table.getElem?_upsert] at hk
      split_ifs at hk with hk'
      · subst hk'
        exact ⟨hparent, hname⟩
      · exact absurd hk (hunlinked k)
    · have hcounted : (s.after (.created object parent name kind metadata time)).linkCount object =
          s.linkCount object + 1 := linkCount_insert_self (hunlinked _)
      rw [hcounted, linkCount_eq_zero hunlinked]
      exact hcount fun hkind => hfile (by simp [FsState.after, hkind])

theorem mirrors_refreshed {kind : EntryKind} (hlater : Later s s')
    (hsmall : s'.linkCount object < 2 ^ 32) (hkind : s.kinds[object]? = some kind)
    (hfound : object = s.root ∨ StillFound s s' object)
    (hcount : s.kinds[object]? ≠ some .directory → s.linkCount object ≤ s'.linkCount object) :
    ∃ c', (applyRefreshed config.id live object time).run c = (.ok (), c') ∧
      Mirrors config s c' := by
  have hlinked : s.Linked object := by
    rcases hfound with h | ⟨before, k, rest, hkeys, -⟩
    · exact .inl h
    · exact .inr ⟨k, Table.mem_keysWith.1 (by simp [hkeys])⟩
  have hnative := hs.native _ _ hkind
  obtain ⟨inode, rfl⟩ : ∃ inode, object = .juiceFs inode := by
    cases object with
    | juiceFs inode => exact ⟨inode, rfl⟩
    | lustre => cases hnative
  obtain ⟨entry, hrow⟩ := hm.rows _ hlinked
  have hkey := hm.keys _ _ hrow
  obtain ⟨path, hpath⟩ :=
    resolvedPath_of_stillFound hconfig hs hs' hroot hm hlive hnative hlinked hfound
  obtain ⟨md, hmd, rfl⟩ := resolvedPath_ok hpath
  have hplan : refreshedPlan config.id live (.juiceFs md.ino) time entry c =
      .ok (refreshedRow entry md time) := by
    simp only [refreshedPlan, hpath, hmd, Except.mapError, bind, Except.bind, checkInode, objectInode,
      ne_eq, not_true, if_false]
  have haccepts := hm.accepts hconfig hkey hnative fun p hp => hm.parents _ entry p hrow hp
  refine ⟨_, run_applyRefreshed_ok.2 ⟨entry, _, hrow, hkey, hplan, haccepts, rfl⟩, ?_⟩
  have hobject : (refreshedRow entry md time).key.object = .juiceFs md.ino := by
    show entry.key.object = _
    rw [hkey]
  rw [hobject]
  refine hm.of_object (.juiceFs md.ino) rfl hm.edges rfl (fun _ _ => rfl) (fun o ho => ?_)
    (fun _ _ _ hk => hk) (fun _ => ?_) fun e he => ?_
  · simp [Ne.symm ho]
  · simp
  · simp only [Catalog.row_putRow, if_true, Option.some.injEq] at he
    subst he
    refine ⟨hkey, fun p hp => hm.parents _ entry p hrow hp, fun hd k hk => hm.dirs k _ entry hd hk hrow,
      fun hfile => ?_⟩
    have hfile' : s'.kinds[ObjectId.juiceFs md.ino]? ≠ some .directory := by
      rw [hlater.2 _ _ hkind, ← hkind]
      exact hfile
    show _ ≤ (truncate32 md.nlink).toNat
    rw [hlive.toNat_nlink hmd hfile' hsmall]
    exact hcount hfile

/-- **A fresh record is accepted**, and the catalog mirrors the filesystem after it. -/
theorem applied_of_fresh {r : Change} (hlater : Later s s') (hnext : s' = s ∨ Later (s.after r) s')
    (hsmall : ∀ o, (s.after r).linkCount o < 2 ^ 32) (hsmall' : ∀ o, s'.linkCount o < 2 ^ 32)
    (howner : CarriesOwner r) (hallowed : s.Allows r) (hfresh : Fresh s s' r) :
    ∃ c', (applyJuicefsChange config.id config.mountPath live r).run c = (.ok (), c') ∧
      Mirrors config (s.after r) c' := by
  cases r with
  | created object =>
    exact mirrors_created hconfig hs hs' hroot hm hlive hlater hnext (hsmall' object) howner hallowed
      hfresh
  | hardlinked object parent name time =>
    have hcounted : (s.after (.hardlinked object parent name time)).linkCount object =
        s.linkCount object + 1 := linkCount_insert_self (by rw [hallowed.1]; simp)
    exact mirrors_hardlinked hm (hcounted ▸ hsmall object) hallowed
  | removed =>
    exact ⟨_, run_removed .., mirrors_removed hs hm hallowed⟩
  | renamed =>
    exact mirrors_renamed hs hm hconfig hallowed
  | metadataChanged object kind | contentChanged object _ _ kind =>
    obtain ⟨kind, hkind⟩ := Option.isSome_iff_exists.1 hallowed
    exact mirrors_refreshed hconfig hs hs' hroot hm hlive hlater (hsmall' object) hkind hfresh.1
      hfresh.2
  | backend => exact hallowed.elim

end Live

end Step

/-! ## §4 — Whole runs -/

section Run

variable {config : FileSystemConfig} {s : FsState} {history : List Change} {k : ℕ}

/-- **A lagging run**: the records so far were applied, each against a mount that showed the
filesystem at the version `seen` or later than the record's own. -/
structure LaggingRun (config : FileSystemConfig) (s : FsState) (history : List Change) (k : ℕ)
    extends ReplayRun config.id config.mountPath history 0 k where
  seen : ℕ → ℕ
  start : Mirrors config s (catalog 0)
  lags : ∀ i, i < k → i ≤ seen i ∧ seen i ≤ history.length
  mounted : ∀ i, i < k → Shows config.mountPath (s.stateAfter history (seen i)) (live i)

theorem applied_of_fresh_stateAfter {i n : ℕ} {r : Change} {c : Catalog} {live : Mount}
    (hconfig : JuiceRegistration config) (hs : s.WF) (hallows : s.AllowsAll history)
    (howner : ∀ r ∈ history, CarriesOwner r)
    (hsmall : ∀ i o, i ≤ history.length → (s.stateAfter history i).linkCount o < 2 ^ 32)
    (hr : history[i]? = some r) (hin : i ≤ n) (hn : n ≤ history.length)
    (hm : Mirrors config (s.stateAfter history i) c)
    (hlive : Shows config.mountPath (s.stateAfter history n) live)
    (hfresh : Fresh (s.stateAfter history i) (s.stateAfter history n) r) :
    ∃ c', (applyJuicefsChange config.id config.mountPath live r).run c = (.ok (), c') ∧
      Mirrors config (s.stateAfter history (i + 1)) c' := by
  have hi : i < history.length := (List.getElem?_eq_some_iff.1 hr).1
  have hlater := later_stateAfter hallows hin
  rw [FsState.stateAfter_succ hr]
  refine applied_of_fresh hconfig (hs.stateAfter hallows i) (hs.stateAfter hallows n) hlater.1 hm
    hlive hlater ?_ (fun o => ?_) (fun o => hsmall n o hn) (howner r (List.mem_of_getElem? hr))
    (hallows i r hr) hfresh
  · rcases Nat.eq_or_lt_of_le hin with rfl | hlt
    · exact .inl rfl
    · refine .inr ?_
      rw [← FsState.stateAfter_succ hr]
      exact later_stateAfter hallows hlt
  · rw [← FsState.stateAfter_succ hr]
    exact hsmall (i + 1) o hi

/-- **No record is poison while it is fresh.**  If every record so far was fresh when it was applied
and the next one still is, then it is accepted. -/
theorem accepted_of_fresh_run (hconfig : JuiceRegistration config) (hs : s.WF)
    (hallows : s.AllowsAll history) (howner : ∀ r ∈ history, CarriesOwner r)
    (hsmall : ∀ i o, i ≤ history.length → (s.stateAfter history i).linkCount o < 2 ^ 32)
    (run : LaggingRun config s history k)
    (hfresh : ∀ i r, i < k → history[i]? = some r →
      Fresh (s.stateAfter history i) (s.stateAfter history (run.seen i)) r)
    {n : ℕ} {r : Change} {live : Mount} (hr : history[k]? = some r) (hkn : k ≤ n)
    (hn : n ≤ history.length) (hlive : Shows config.mountPath (s.stateAfter history n) live)
    (hnext : Fresh (s.stateAfter history k) (s.stateAfter history n) r) :
    ∃ c', (applyJuicefsChange config.id config.mountPath live r).run (run.catalog k) =
      (.ok (), c') := by
  have hmirrors : ∀ i, i ≤ k → Mirrors config (s.stateAfter history i) (run.catalog i) := by
    intro i hi
    induction i with
    | zero => exact run.start
    | succ i ih =>
      have hlen : i < history.length := lt_of_lt_of_le hi (hkn.trans hn)
      have hri := List.getElem?_eq_getElem hlen
      obtain ⟨hseen, hbound⟩ := run.lags i hi
      obtain ⟨c', hrun, hm⟩ := applied_of_fresh_stateAfter hconfig hs hallows howner hsmall hri hseen
        hbound (ih (by omega)) (run.mounted i hi) (hfresh i _ hi hri)
      rw [run.applied i _ (Nat.zero_le i) hi hri] at hrun
      cases hrun
      exact hm
  obtain ⟨c', hrun, -⟩ := applied_of_fresh_stateAfter hconfig hs hallows howner hsmall hr hkn hn
    (hmirrors k le_rfl) hlive hnext
  exact ⟨c', hrun⟩

end Run

namespace Sample

def shortLived : List Change :=
  [create 10 a, .contentChanged (.juiceFs 10) none [] .data 0, unlink 10 a]

theorem shortLived_allowed : emptyFs.AllowsAll shortLived := by
  intro i r hr
  match i with
  | 0 =>
    cases hr
    exact ⟨by decide +kernel, by decide +kernel, rfl, ⟨by decide +kernel, .inl rfl⟩,
      by decide +kernel⟩
  | 1 =>
    cases hr
    exact show (((emptyFs.stateAfter shortLived 1).kinds)[ObjectId.juiceFs 10]?).isSome by
      decide +kernel
  | 2 =>
    cases hr
    exact ⟨by decide +kernel, by decide +kernel, fun h => by cases h⟩
  | i + 3 => cases hr

/-- The mount after the first `n` records. -/
def shortLivedMount (n : ℕ) : Mount := (emptyFs.stateAfter shortLived n).mountAt mountPath

theorem shortLivedMount_shows (n : ℕ) :
    Shows mountPath (emptyFs.stateAfter shortLived n) (shortLivedMount n) :=
  FsState.shows_mountAt (emptyFs_wf.stateAfter shortLived_allowed n)

def rootRow : ScopedEntryRow :=
  adaptRow jfs ⟨[], .directory, 1, none, 0, 0, 0, 0, 0, 1, 0, 0, 0, 0⟩ 0

theorem row_rootCatalog (o : ObjectId) :
    rootCatalog.row o = if root = o then some rootRow else none := by
  have hentries : rootCatalog.entries = (∅ : Table ObjectId ScopedEntryRow).insert root rootRow := rfl
  simp [Catalog.row, hentries]

theorem rootCatalog_mirrors : Mirrors config emptyFs rootCatalog where
  registered := rfl
  keys o e he := by
    rw [row_rootCatalog] at he
    split_ifs at he with ho
    cases he
    rw [← ho]
    rfl
  parents o e p he hp := by
    rw [row_rootCatalog] at he
    split_ifs at he
    cases he
    cases hp
  edges := rfl
  rows o ho := by
    have hroot : o = root := ho.resolve_right fun ⟨k, hk⟩ => by simp [emptyFs] at hk
    exact ⟨rootRow, by rw [row_rootCatalog, if_pos hroot.symm]⟩
  dirs k d e _ hk := by simp [emptyFs] at hk
  counts o e _ _ := by
    rw [linkCount_eq_zero fun k => by simp [emptyFs]]
    exact Nat.zero_le _

theorem config_registration : JuiceRegistration config := ⟨rfl, rfl, by decide⟩

theorem shortLived_small (i : ℕ) (o : ObjectId) (hi : i ≤ 3) :
    (emptyFs.stateAfter shortLived i).linkCount o < 2 ^ 32 := by
  refine lt_of_le_of_lt (Table.length_keysWith_le_size ..) ?_
  interval_cases i <;> decide +kernel

def shortLivedRun : LaggingRun config emptyFs shortLived 1 where
  toReplayRun := ReplayRun.ofAccepted (fun _ => shortLivedMount 2) rootCatalog (by
    intro i r hi hr
    interval_cases i
    cases hr
    decide +kernel)
  seen _ := 2
  start := rootCatalog_mirrors
  lags i hi := ⟨by omega, by decide⟩
  mounted i _ := shortLivedMount_shows 2

theorem shortLivedRun_fresh (i : ℕ) (r : Change) (hi : i < 2) (hr : shortLived[i]? = some r) :
    Fresh (emptyFs.stateAfter shortLived i) (emptyFs.stateAfter shortLived 2) r := by
  interval_cases i <;> cases hr
  · exact ⟨⟨[], by decide +kernel, by decide +kernel⟩, .inr (by decide +kernel)⟩
  · refine ⟨.inr ⟨[], ⟨root, a⟩, [], by decide +kernel, by simp, [], by decide +kernel, by decide +kernel⟩,
      fun _ => by decide +kernel⟩

/-- A WRITE is accepted while the file is there. -/
theorem write_accepted_in_time :
    ∃ c', (applyJuicefsChange jfs mountPath (shortLivedMount 2)
      (.contentChanged (.juiceFs 10) none [] .data 0)).run (shortLivedRun.catalog 1) = (.ok (), c') :=
  accepted_of_fresh_run (k := 1) (n := 2) config_registration emptyFs_wf shortLived_allowed
    (by decide +kernel) (fun i o hi => shortLived_small i o hi) shortLivedRun
    (fun i r hi hr => shortLivedRun_fresh i r (by omega) hr) rfl (by decide) (by decide)
    (shortLivedMount_shows 2) (shortLivedRun_fresh 1 _ (by decide) rfl)

/-- CREATE, applied after the file is gone. -/
def overtakenRun : LaggingRun config emptyFs shortLived 1 where
  toReplayRun := ReplayRun.ofAccepted (fun _ => shortLivedMount 3) rootCatalog (by
    intro i r hi hr
    interval_cases i
    cases hr
    decide +kernel)
  seen _ := 3
  start := rootCatalog_mirrors
  lags i hi := ⟨by omega, by decide⟩
  mounted i _ := shortLivedMount_shows 3

/-- **A WRITE to a file that is gone by now is a poison record.**  CREATE was accepted against the mount
after the whole history; WRITE is refused against the same mount and leaves the catalog as it was, so the
next attempt is the same one. -/
theorem write_after_removal_refused :
    emptyFs.AllowsAll shortLived ∧ (∀ r ∈ shortLived, CarriesOwner r) ∧
      Shows mountPath (emptyFs.stateAfter shortLived 3) (shortLivedMount 3) ∧
      (applyJuicefsChange jfs mountPath (shortLivedMount 3)
        (.contentChanged (.juiceFs 10) none [] .data 0)).run (overtakenRun.catalog 1) =
          (.error (.namespace_ (.stalePath ⟨jfs, .juiceFs 10⟩)), overtakenRun.catalog 1) :=
  ⟨shortLived_allowed, by decide +kernel, shortLivedMount_shows 3, Prod.ext (by decide +kernel) rfl⟩

end Sample

end Robinhood.JuiceFs
