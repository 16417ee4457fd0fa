/-
# Store.Statements — the operations as statements

The operations are modelled on the part of the tables that their filesystem has.  Here each of them is tied to
the shared tables: what an operation does there is a sequence of statements for its filesystem, and what it
reads is the rows with that owner.  So the statements of all filesystems may be mixed in any order: what one
owner has at the end is what its own statements make of what it had.  Only the binding of legacy cursors
reaches beyond its filesystem, to the rows of the legacy marker.
-/
import Mathlib
import Robinhood.Store.Database

namespace Robinhood.Store

open Lib
open Posix (Name)

/-! ## §1 — Catalogs that statements lead to -/

/-- **Statements lead from `c` to `c'`**, whatever cursors the filesystem has, and leave its baseline alone. -/
def ByStatements (c c' : Catalog) : Prop :=
  c'.baseline = c.baseline ∧
    ∃ sts : List Statement, ∀ cursors, sts.foldl Statement.onSlice ⟨c, cursors⟩ = ⟨c', cursors⟩

/-- A change of the catalog that statements make. -/
def Executable (f : Catalog → Catalog) : Prop := ∀ c, ByStatements c (f c)

namespace ByStatements

variable {c c' c'' : Catalog}

theorem refl (c : Catalog) : ByStatements c c := ⟨rfl, [], fun _ => rfl⟩

theorem trans : ByStatements c c' → ByStatements c' c'' → ByStatements c c'' := by
  rintro ⟨hbaseline, sts, h⟩ ⟨hbaseline', sts', h'⟩
  refine ⟨hbaseline'.trans hbaseline, sts ++ sts', fun cursors => ?_⟩
  rw [List.foldl_append, h, h']

theorem single (hbaseline : c'.baseline = c.baseline) (st : Statement)
    (h : ∀ cursors, st.onSlice ⟨c, cursors⟩ = ⟨c', cursors⟩) : ByStatements c c' :=
  ⟨hbaseline, [st], h⟩

theorem putRow (h : ByStatements c c') (object : ObjectId) (entry : ScopedEntryRow) :
    ByStatements c (c'.putRow object entry) :=
  h.trans (.single rfl (.insertEntry object entry) fun _ => rfl)

theorem dropRow (h : ByStatements c c') (object : ObjectId) : ByStatements c (c'.dropRow object) :=
  h.trans (.single rfl (.deleteEntry object) fun _ => rfl)

theorem putEdge (h : ByStatements c c') (key : EdgeKey) (object : ObjectId) :
    ByStatements c (c'.putEdge key object) :=
  h.trans (.single rfl (.insertEdge key object) fun _ => rfl)

theorem dropEdge (h : ByStatements c c') (key : EdgeKey) : ByStatements c (c'.dropEdge key) :=
  h.trans (.single rfl (.deleteEdge key) fun _ => rfl)

theorem dropEdgesOf (h : ByStatements c c') (object : ObjectId) : ByStatements c (c'.dropEdgesOf object) :=
  h.trans (.single rfl (.deleteEdgesOf object) fun _ => rfl)

theorem putStripes (h : ByStatements c c') (object : ObjectId) (items : List UInt32) :
    ByStatements c (c'.putStripes object items) :=
  h.trans (.single rfl (.replaceStripes object items) fun _ => rfl)

theorem putRemoved (h : ByStatements c c') (object : ObjectId) (entry : ScopedEntryRow) (rmTime : Int) :
    ByStatements c (c'.putRemoved object entry rmTime) :=
  h.trans (.single rfl (.insertRemoved object entry rmTime) fun _ => rfl)

/-- A transaction over a list, each of whose parts is statements. -/
theorem foldlM {β : Type} {f : Catalog → β → Except StoreError Catalog}
    (hf : ∀ b c c', f c b = .ok c' → ByStatements c c') (bs : List β) (h : bs.foldlM f c = .ok c') :
    ByStatements c c' := by
  induction bs generalizing c with
  | nil => exact Except.ok.inj h ▸ refl c
  | cons b bs ih =>
    rw [List.foldlM_cons] at h
    obtain ⟨d, hd, hrest⟩ := except_bind_eq_ok.1 h
    exact (hf b c d hd).trans (ih hrest)

end ByStatements

theorem executable_id : Executable id := ByStatements.refl

theorem each_txn_of_ok {ε : Type} {f : Catalog → Except ε Catalog}
    (h : ∀ c c', f c = .ok c' → ByStatements c c') : (Proc.txn f).Each Executable := by
  refine Proc.each_txn fun c => ?_
  dsimp only
  cases hf : f c with
  | error => exact .refl c
  | ok c' => exact h c c' hf

/-! ## §2 — Every operation is statements -/

theorem byStatements_upsertScopedEntryTx {entry : ScopedEntryRow} {c c' : Catalog}
    (h : upsertScopedEntryTx entry c = .ok c') : ByStatements c c' := by
  have hput : c' = c.putRow entry.key.object entry := by
    unfold upsertScopedEntryTx at h
    split at h
    · split_ifs at h
      exact (Except.ok.inj h).symm
    · exact (Except.ok.inj h).symm
  exact hput ▸ (ByStatements.refl c).putRow ..

theorem each_upsertScopedEntry (entry : ScopedEntryRow) :
    (upsertScopedEntry entry).Each Executable := by
  have htxn : (Proc.txn (upsertScopedEntryTx entry)).Each Executable :=
    each_txn_of_ok fun _ _ => byStatements_upsertScopedEntryTx
  refine Proc.Each.bind (Proc.each_read executable_id _) fun config => ?_
  cases config with
  | none => exact htxn
  | some config =>
    show Proc.Each _ (if _ then _ else _)
    split_ifs
    · trivial
    · exact htxn

theorem each_getScopedEntry (key : EntryKey) : (getScopedEntry key).Each Executable :=
  Proc.each_ask executable_id _

theorem each_getLustreEntry (filesystem : FileSystemId) (fid : LuFid) :
    (getLustreEntry filesystem fid).Each Executable :=
  Proc.each_ask executable_id _

theorem each_upsertScopedNamespaceEdge (edge : ScopedNamespaceEdge) :
    (upsertScopedNamespaceEdge edge).Each Executable :=
  Proc.each_write fun c => (ByStatements.refl c).putEdge ..

theorem each_removeScopedNamespaceEdge (parent : ObjectId) (name : Name) :
    (removeScopedNamespaceEdge parent name).Each Executable :=
  ⟨fun c => (ByStatements.refl c).dropEdge _, fun _ => trivial⟩

theorem each_upsertScopedBatch (entries : List ScopedEntryRow) :
    (upsertScopedBatch entries).Each Executable := by
  cases entries with
  | nil => trivial
  | cons first rest =>
    refine Proc.Each.bind (Proc.each_read executable_id _) fun config => ?_
    cases config with
    | none => trivial
    | some config =>
      refine each_txn_of_ok fun _ _ => ByStatements.foldlM (fun entry c c' h => ?_) _
      unfold upsertBatchEntryTx at h
      split_ifs at h
      exact byStatements_upsertScopedEntryTx h

theorem each_applyScopedHardlink (edge : ScopedNamespaceEdge) (observedAt : Int) :
    (applyScopedHardlink edge observedAt).Each Executable := by
  refine each_txn_of_ok fun c c' h => ?_
  rcases applyScopedHardlinkTx_ok h with ⟨-, rfl⟩ | ⟨-, entry, -, rfl⟩
  · exact .refl c'
  · exact ((ByStatements.refl c).putEdge ..).putRow ..

theorem each_applyScopedUnlink (key : EntryKey) (parent : ObjectId) (name : Name) (observedAt : Int)
    (directory : Bool) : (applyScopedUnlink key parent name observedAt directory).Each Executable := by
  refine Proc.each_write fun c => ?_
  unfold applyScopedUnlinkTx
  have hdrop := (ByStatements.refl c).dropEdge ⟨parent, name⟩
  split_ifs
  · dsimp only
    split
    · exact hdrop
    · split_ifs
      · exact hdrop.putRow ..
      · exact (hdrop.putRemoved ..).dropRow _
  · exact .refl c

theorem each_patchScopedSmStatus (key : EntryKey) (patch : Json) (now : Int) :
    (patchScopedSmStatus key patch now).Each Executable := by
  refine Proc.Each.bind (each_getScopedEntry _) fun entry => ?_
  cases entry with
  | none => trivial
  | some entry => exact Proc.Each.bind (each_upsertScopedEntry _) fun _ => trivial

theorem each_updateScopedXattr (key : EntryKey) (tags : TagMap) (clearKeys : List String) :
    (updateScopedXattr key tags clearKeys).Each Executable := by
  refine Proc.Each.bind ((each_getScopedEntry _).mapError _) fun entry => ?_
  cases entry with
  | none => trivial
  | some entry =>
    dsimp only
    split
    · trivial
    · exact Proc.Each.bind ((each_upsertScopedEntry _).mapError _) fun _ => trivial

theorem byStatements_putParentEdge {c c' : Catalog} (h : ByStatements c c') (entry : EntryRow) :
    ByStatements c (c'.putParentEdge entry) := by
  unfold Catalog.putParentEdge
  split
  · exact h.putEdge ..
  · exact h

theorem each_upsertLustreScanBatch (filesystem : FileSystemId) (entries : List EntryRow) :
    (upsertLustreScanBatch filesystem entries).Each Executable := by
  unfold upsertLustreScanBatch
  split_ifs
  · trivial
  refine Proc.Each.bind (Proc.each_read executable_id _) fun config => ?_
  cases config with
  | none => trivial
  | some config =>
    show Proc.Each _ (if _ then _ else _)
    split_ifs
    · trivial
    refine each_txn_of_ok fun _ _ => ByStatements.foldlM (fun entry c c' h => ?_) _
    obtain ⟨d, hd, hrest⟩ := except_bind_eq_ok.1 h
    split_ifs at hrest
    obtain rfl := Except.ok.inj hrest
    exact byStatements_putParentEdge ((byStatements_upsertScopedEntryTx hd).putStripes ..) entry

theorem each_removeLustreEntry (filesystem : FileSystemId) (fid : LuFid) (rmTime : Int) :
    (removeLustreEntry filesystem fid rmTime).Each Executable := by
  refine Proc.Each.bind (each_getScopedEntry _) fun entry => ?_
  cases entry with
  | none => trivial
  | some entry =>
    refine Proc.each_write fun c => ?_
    exact ((((ByStatements.refl c).putStripes ..).putRemoved ..).dropEdgesOf _).dropRow _

theorem each_renameLustreEntry (filesystem : FileSystemId) (entry : EntryRow) (rmTime : Int) :
    (renameLustreEntry filesystem entry rmTime).Each Executable := by
  refine Proc.Each.bind (Proc.each_read executable_id _) fun displaced => ?_
  rcases displaced with _ | fid
  on_goal 2 => refine Proc.Each.bind (each_removeLustreEntry filesystem fid rmTime) fun _ => ?_
  all_goals
    refine Proc.Each.bind (Proc.each_write fun c => (ByStatements.refl c).dropEdgesOf _) fun _ =>
      Proc.Each.bind (each_upsertScopedEntry _) fun _ => ?_
    cases entry.parentFid with
    | none => trivial
    | some => exact each_upsertScopedNamespaceEdge _

theorem exists_statements_onCatalog {α : Type} {p : Proc Catalog XattrError α} (hp : p.Each Executable)
    (s : Slice) : ∃ sts : List Statement, ((onCatalog p).run s).2 = sts.foldl Statement.onSlice s := by
  induction p generalizing s with
  | pure | fail => exact ⟨[], rfl⟩
  | step f k ih =>
    obtain ⟨-, sts, hsts⟩ := hp.1 s.catalog
    obtain ⟨sts', hsts'⟩ := ih s.catalog (hp.2 s.catalog) { s with catalog := f s.catalog }
    refine ⟨sts ++ sts', ?_⟩
    rw [List.foldl_append, hsts s.cursors]
    exact hsts'

theorem exists_statements_ofStore {α : Type} {p : StoreProc α} (hp : p.Each Executable) (s : Slice) :
    ∃ sts : List Statement, ((ofStore p).run s).2 = sts.foldl Statement.onSlice s :=
  exists_statements_onCatalog (hp.mapError _) s

/-- **What an operation does to its filesystem's part of the tables is a sequence of statements.** -/
theorem SliceOp.exists_statements {F : FileSystemId} {α : Type} (op : SliceOp F α) (s : Slice) :
    ∃ sts : List Statement, (op.proc.run s).2 = sts.foldl Statement.onSlice s := by
  cases op with
  | getCursor mdt => exact ⟨[], rfl⟩
  | commitCursor mdt recId now => exact ⟨[.insertCursor mdt recId now], rfl⟩
  | updateScopedXattr => exact exists_statements_onCatalog (each_updateScopedXattr ..) s
  | registerFilesystem config _ => exact ⟨[.insertFilesystem config], rfl⟩
  | upsertScopedEntry => exact exists_statements_ofStore (each_upsertScopedEntry _) s
  | upsertScopedBatch => exact exists_statements_ofStore (each_upsertScopedBatch _) s
  | removeScopedEntry object => exact ⟨[.deleteEntry object], rfl⟩
  | upsertScopedNamespaceEdge => exact exists_statements_ofStore (each_upsertScopedNamespaceEdge _) s
  | removeScopedNamespaceEdge => exact exists_statements_ofStore (each_removeScopedNamespaceEdge ..) s
  | applyScopedHardlink => exact exists_statements_ofStore (each_applyScopedHardlink ..) s
  | applyScopedUnlink => exact exists_statements_ofStore (each_applyScopedUnlink ..) s
  | clearScopedCatalog => exact ⟨[.deleteStripes, .deleteEdges, .deleteEntries], rfl⟩
  | setBaselineState state lastVersion reason now => exact ⟨[.insertBaseline state lastVersion reason now], rfl⟩
  | forgetScopedRemoved object => exact ⟨[.deleteRemoved object], rfl⟩
  | patchScopedSmStatus => exact exists_statements_ofStore (each_patchScopedSmStatus ..) s
  | upsertLustreScanBatch => exact exists_statements_ofStore (each_upsertLustreScanBatch ..) s
  | removeLustreEntry => exact exists_statements_ofStore (each_removeLustreEntry ..) s
  | renameLustreEntry => exact exists_statements_ofStore (each_renameLustreEntry ..) s
  | getScopedEntry => exact exists_statements_ofStore (each_getScopedEntry _) s
  | getLustreEntry => exact exists_statements_ofStore (each_getLustreEntry ..) s
  | _ => exact exists_statements_ofStore (Proc.each_read executable_id _) s

/-! ## §3 — On the shared tables -/

theorem foldl_exec_eq_putSlice (filesystem : FileSystemId) (sts : List Statement) (db : Database) :
    sts.foldl (fun db st => st.exec filesystem db) db =
      db.putSlice filesystem.owner (sts.foldl Statement.onSlice (db.slice filesystem.owner)) := by
  induction sts generalizing db with
  | nil => exact (Database.putSlice_slice ..).symm
  | cons st sts ih =>
    rw [List.foldl_cons, ih, exec_eq_putSlice, Database.slice_putSlice_self, Database.putSlice_putSlice,
      List.foldl_cons]

/-- **What the store executes for a filesystem**: a statement of one of its operations, or the transaction of
`bind_legacy_lustre_cursors`. -/
inductive Issued where
  | statement (filesystem : FileSystemId) (st : Statement)
  | bindLegacyCursors (filesystem : FileSystemId)

namespace Issued

def exec (db : Database) : Issued → Database
  | statement filesystem st => st.exec filesystem db
  | bindLegacyCursors filesystem => db.boundCursors filesystem

/-- The statement, if it is one on the rows of `owner`. -/
def forOwner (owner : CollationKey) : Issued → Option Statement
  | statement filesystem st => if filesystem.owner = owner then some st else none
  | bindLegacyCursors _ => none

/-- It gives the legacy cursors to `owner`. -/
def bindsTo (owner : CollationKey) : Issued → Bool
  | statement .. => false
  | bindLegacyCursors filesystem => filesystem.owner = owner

theorem slice_exec {owner : CollationKey} (hlegacy : owner ≠ legacyOwner) {i : Issued}
    (hbind : i.bindsTo owner = false) (db : Database) :
    (i.exec db).slice owner = (i.forOwner owner).toList.foldl Statement.onSlice (db.slice owner) := by
  cases i with
  | bindLegacyCursors filesystem => exact slice_boundCursors db (of_decide_eq_false hbind) hlegacy
  | statement filesystem st =>
    rw [exec, exec_eq_putSlice, forOwner]
    split_ifs with h
    · subst h
      exact Database.slice_putSlice_self ..
    · exact Database.slice_putSlice_of_ne _ _ (Ne.symm h)

end Issued

theorem slice_foldl_exec_issued {owner : CollationKey} (hlegacy : owner ≠ legacyOwner) {issued : List Issued}
    (hbind : ∀ i ∈ issued, i.bindsTo owner = false) (db : Database) :
    (issued.foldl Issued.exec db).slice owner =
      (issued.filterMap (Issued.forOwner owner)).foldl Statement.onSlice (db.slice owner) := by
  induction issued generalizing db with
  | nil => rfl
  | cons i issued ih =>
    rw [List.foldl_cons, ih fun j hj => hbind j (List.mem_cons_of_mem i hj),
      Issued.slice_exec hlegacy (hbind i List.mem_cons_self)]
    cases h : i.forOwner owner with
    | none => rw [List.filterMap_cons_none h, Option.toList_none, List.foldl_nil]
    | some st => rw [List.filterMap_cons_some h, Option.toList_some, List.foldl_cons, List.foldl_cons,
        List.foldl_nil]

/-- **Owners do not disturb each other.**  Every operation on the shared tables is a sequence of statements for
its filesystem.  However the statements of all filesystems and the bindings of the legacy cursors to others are
mixed, what an owner other than the legacy marker has afterwards is what its own statements make of what it
had. -/
theorem owners_undisturbed (owner : CollationKey) (hlegacy : owner ≠ legacyOwner) :
    (∀ {F : FileSystemId} {α : Type} (op : SliceOp F α) (db : Database), ∃ sts : List Statement,
      ((ScopedOp.own op).proc.run db).2 = (sts.map (Issued.statement F)).foldl Issued.exec db) ∧
    ∀ (issued : List Issued) (db : Database), (∀ i ∈ issued, i.bindsTo owner = false) →
      (issued.foldl Issued.exec db).slice owner =
        (issued.filterMap (Issued.forOwner owner)).foldl Statement.onSlice (db.slice owner) := by
  refine ⟨fun op db => ?_, fun issued db hbind => slice_foldl_exec_issued hlegacy hbind db⟩
  obtain ⟨sts, hsts⟩ := op.exists_statements (db.slice _)
  refine ⟨sts, ?_⟩
  rw [run_own, hsts, ← foldl_exec_eq_putSlice, List.foldl_map]
  rfl

namespace Sample

def other : FileSystemId := ⟨"jfs", by decide, by decide, by simp⟩

/-- Two commits for `lustre`; another filesystem has a cursor of that name, takes the legacy ones, and is
cleared in between. -/
def mixed : List Issued :=
  [.statement lustre (.insertCursor "MDT0000" 7 1), .statement other (.insertCursor "MDT0000" 9 2),
    .bindLegacyCursors other, .statement other .deleteEntries,
    .statement lustre (.insertCursor "MDT0000" 5 3)]

end Sample

/-- The second commit is for an older record: the cursor stays at 7. -/
theorem mixed_keeps_cursor :
    ((Sample.mixed.foldl Issued.exec Database.empty).slice Sample.lustre.owner).cursor "MDT0000" = some 7 := by
  rw [(owners_undisturbed Sample.lustre.owner (by decide)).2 Sample.mixed _ (by decide)]
  decide +kernel

end Robinhood.Store
