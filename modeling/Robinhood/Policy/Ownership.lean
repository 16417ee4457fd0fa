/-
# Policy.Ownership — the tags a classifier may touch

A classifier declares the tags it owns.  `validate_classifier` (`rbh-policy/src/classifier.rs`) checks that
there are some, and that the schedule and the conditions can be read; it does not compare them with the tags
its rules set.  `run_classifier` (`rbh-api/src/classifier_handlers.rs`) applies one classifier to all entries
of all filesystems, page by page; `apply_classifiers` applies it to one entry as it changes.

Both write through `update_scoped_xattr`, which clears the tags the classifier owns and sets those of the
rule.  So a classifier stays within its tags exactly when the rules that can come to apply do.
-/
import Mathlib
import Robinhood.Policy.Commute
import Robinhood.Store.Database

namespace Robinhood.Policy

open Lib Store
open Predicate (TextLibrary extractField)

/-! ## §1 — definitions -/

/-- **`ClassifierDef`**, all of it. -/
structure ClassifierDefinition extends ClassifierDef where
  name : String
  schedule : String
  enabled : Bool

/-- `PolicyError::InvalidTrigger`, with the cause where there is one. -/
inductive ClassifierError
  | invalidTrigger (message : String)
  | invalidSchedule (cause : TriggerParseError)
  | invalidWhen (expr : String) (cause : WhenParseError)
  deriving DecidableEq, Repr

variable (lib : TextLibrary)

def validateRules (now : Int64) : List ClassifierRule → Except ClassifierError Unit
  | [] => .ok ()
  | rule :: rules =>
    match rule.when_ with
    | none => validateRules now rules
    | some expr =>
      match parseWhen lib now expr with
      | .error cause => .error (.invalidWhen expr cause)
      | .ok _ => validateRules now rules

/-- **`validate_classifier`.** -/
def validateClassifier (now : Int64) (d : ClassifierDefinition) : Except ClassifierError Unit :=
  if d.name.isEmpty then .error (.invalidTrigger "classifier name must not be empty")
  else if d.manages.isEmpty then
    .error (.invalidTrigger "classifier must declare at least one managed tag key")
  else if d.rules.isEmpty then .error (.invalidTrigger "classifier must have at least one rule")
  else
    match parseTrigger lib d.schedule with
    | .error cause => .error (.invalidSchedule cause)
    | .ok _ => validateRules lib now d.rules

/-- The row `create` and `update` store for a definition. -/
def ClassifierDefinition.row (d : ClassifierDefinition) : ClassifierRow := ⟨d.toClassifierDef, d.enabled⟩

/-! ## §2 — the manual run -/

structure Tally where
  classified : ℕ
  errors : ℕ
  scanned : ℕ
  deriving DecidableEq, Repr

/-- `MAX_ENTRIES`, for each filesystem. -/
def maxEntries : ℕ := 1000000

/-- `EntryStore::list_filesystems`, in the order of their identifiers. -/
def listFilesystems : DatabaseProc (List FileSystemConfig) :=
  .read fun db => db.filesystems.toList.map Prod.snd

/-- `ORDER BY object_kind, object_id`. -/
def byObject (a b : ScopedEntryRow) : Bool := (compare a.key.object b.key.object).isLE

variable (clock : ℕ → Int64) (d : ClassifierDef)

def classifyBatch : List ScopedEntryRow → ℕ → Tally → DatabaseProc Tally
  | [], _, tally => pure tally
  | entry :: rest, evaluated, tally =>
    match evaluateClassifier lib (clock evaluated) entry d.rules with
    | none => classifyBatch rest (evaluated + 1) tally
    | some set => do
      let answer ← ((ScopedOp.own (SliceOp.updateScopedXattr (F := entry.key.filesystem) entry.key.object set
        d.manages)).proc).catching
      match answer with
      | .ok true => classifyBatch rest (evaluated + 1) { tally with classified := tally.classified + 1 }
      | .ok false => classifyBatch rest (evaluated + 1) { tally with errors := tally.errors + 1 }
      | .error (.store _) => classifyBatch rest (evaluated + 1) { tally with errors := tally.errors + 1 }
      | .error .panicked => .fail .panicked

/-- The pages of one filesystem, `remaining` being what is left of its share. -/
def classifyPages (filesystem : FileSystemId) (remaining offset : ℕ) (tally : Tally) : DatabaseProc Tally :=
  if remaining = 0 then pure tally
  else do
    let limit := min 10000 remaining
    let batch ← (ScopedOp.own (SliceOp.queryScopedPage (F := filesystem) (fun _ => true) byObject limit
      offset)).proc
    match batch with
    | [] => pure tally
    | first :: others => do
      let batch := first :: others
      let scanned := tally.scanned + batch.length
      let tally ← classifyBatch lib clock d batch tally.scanned { tally with scanned := scanned }
      if batch.length < limit then pure tally
      else classifyPages filesystem (remaining - batch.length) (offset + batch.length) tally
termination_by remaining

def classifyFilesystems : List FileSystemConfig → Tally → DatabaseProc Tally
  | [], tally => pure tally
  | config :: rest, tally => do
    let tally ← classifyPages lib clock d config.id maxEntries 0 tally
    classifyFilesystems rest tally

/-- **`run_classifier`** on a stored definition. -/
def runClassifier (d : ClassifierDefinition) : DatabaseProc Tally :=
  if d.enabled then do
    let filesystems ← listFilesystems
    classifyFilesystems lib clock d.toClassifierDef filesystems ⟨0, 0, 0⟩
  else pure ⟨0, 0, 0⟩

/-! ## §3 — changes of owned tags -/

/-- **Only owned tags differ**: no other tag, and no other member of the status. -/
def OwnedChange (manages : List String) (status status' : Json) : Prop :=
  (∀ name ∉ manages, tagAt status' name = tagAt status name) ∧
    ∀ name ≠ "xattr", status'.get name = status.get name

def ChangesOnly (manages : List String) (c c' : Catalog) : Prop :=
  ∀ object, Option.Rel (fun row row' => OwnedChange manages row.smStatus row'.smStatus) (c.row object)
    (c'.row object)

def DatabaseChangesOnly (manages : List String) (db db' : Database) : Prop :=
  ∀ owner, ChangesOnly manages (db.slice owner).catalog (db'.slice owner).catalog

section Changes

variable {lib} {clock} {manages : List String} {c c' c'' : Catalog} {db db' db'' : Database}

theorem OwnedChange.refl (status : Json) : OwnedChange manages status status :=
  ⟨fun _ _ => rfl, fun _ _ => rfl⟩

theorem OwnedChange.trans {a b c : Json} (h : OwnedChange manages a b) (h' : OwnedChange manages b c) :
    OwnedChange manages a c :=
  ⟨fun name hname => (h'.1 name hname).trans (h.1 name hname),
    fun name hname => (h'.2 name hname).trans (h.2 name hname)⟩

theorem ChangesOnly.refl (c : Catalog) : ChangesOnly manages c c := by
  intro object
  cases c.row object with
  | none => exact .none
  | some => exact .some (.refl _)

theorem ChangesOnly.trans (h : ChangesOnly manages c c') (h' : ChangesOnly manages c' c'') :
    ChangesOnly manages c c'' := by
  intro object
  have hfirst := h object
  have hsecond := h' object
  revert hfirst hsecond
  cases c.row object <;> cases c'.row object <;> cases c''.row object <;>
    simp only [Option.rel_some_some, Option.rel_none_none, Option.not_rel_none_some,
      Option.not_rel_some_none, false_implies, implies_true, forall_true_left]
  exact OwnedChange.trans

theorem DatabaseChangesOnly.refl (db : Database) : DatabaseChangesOnly manages db db :=
  fun _ => .refl _

theorem DatabaseChangesOnly.trans (h : DatabaseChangesOnly manages db db')
    (h' : DatabaseChangesOnly manages db' db'') : DatabaseChangesOnly manages db db'' :=
  fun owner => (h owner).trans (h' owner)

/-- **An update with owned tags changes only those.** -/
theorem changesOnly_updateScopedXattr {key : EntryKey} {tags : TagMap}
    (htags : ∀ name, tags[name]? ≠ none → name ∈ manages) (c : Catalog) :
    ChangesOnly manages c ((updateScopedXattr key tags manages).run c).2 := by
  by_cases hwritable : ∃ row, Writable c key row
  · obtain ⟨row, hrow⟩ := hwritable
    obtain ⟨status, hstatus, -⟩ := exists_withXattrs hrow.place (retag tags manages (xattrMembers row.smStatus))
    rw [run_updateScopedXattr_of_writable hrow hstatus]
    intro object
    rw [Catalog.row_putRow]
    split
    · next hobject =>
      subst hobject
      rw [(scopedEntry_eq_some.1 hrow.there).1]
      refine .some ⟨fun name hname => ?_, fun name hname => get_withXattrs_of_ne hstatus hname⟩
      have hunset : tags[name]? = none := by
        by_contra h
        exact hname (htags name h)
      rw [tagAt_withXattrs hstatus, lookup_retag, hunset, tagAt_eq_lookup]
      simp [hname]
    · exact ChangesOnly.refl c object
  · rw [run_updateScopedXattr_of_not_writable fun row h => hwritable ⟨row, h⟩]
    exact .refl c

theorem databaseChangesOnly_bind {α β : Type} {p : DatabaseProc α} {f : α → DatabaseProc β}
    (hp : ∀ db, DatabaseChangesOnly manages db (p.run db).2)
    (hf : ∀ a db, DatabaseChangesOnly manages db ((f a).run db).2) (db : Database) :
    DatabaseChangesOnly manages db ((p >>= f).run db).2 := by
  have hfirst := hp db
  rw [Proc.run_bind]
  split
  · next a db' hrun =>
    rw [hrun] at hfirst
    exact hfirst.trans (hf a db')
  · next e db' hrun =>
    rw [hrun] at hfirst
    exact hfirst

theorem databaseChangesOnly_update {F : FileSystemId} {object : ObjectId} {tags : TagMap}
    (htags : ∀ name, tags[name]? ≠ none → name ∈ manages) (db : Database) :
    DatabaseChangesOnly manages db
      (((ScopedOp.own (SliceOp.updateScopedXattr (F := F) object tags manages)).proc.catching :
        DatabaseProc (Except XattrError Bool)).run db).2 := by
  have hcatalog : ∀ (p : Proc Catalog XattrError Bool) (s : Slice),
      ((onCatalog p).run s).2.catalog = (p.run s.catalog).2 := by
    intro p s
    have hzoom : (onCatalog p).run s = ((p.run s.catalog).1, { s with catalog := (p.run s.catalog).2 }) := by
      unfold onCatalog
      refine Proc.run_zoom ?_ ?_ ?_ p s <;> intros <;> rfl
    rw [hzoom]
  rw [Proc.run_catching_snd, run_own]
  intro owner
  by_cases howner : owner = F.owner
  · subst howner
    rw [Database.slice_putSlice_self, SliceOp.proc, hcatalog]
    exact changesOnly_updateScopedXattr htags _
  · rw [Database.slice_putSlice_of_ne _ _ howner]
    exact .refl _

theorem run_queryScopedPage_snd {F : FileSystemId} (clause : ScopedEntryRow → Bool)
    (le : ScopedEntryRow → ScopedEntryRow → Bool) (limit offset : ℕ) (db : Database) :
    ((ScopedOp.own (SliceOp.queryScopedPage (F := F) clause le limit offset)).proc.run db).2 = db := by
  rw [run_own]
  exact Database.putSlice_slice ..

variable {d : ClassifierDef} {d' : ClassifierDefinition}

def LiveRulesOwned (lib : TextLibrary) (d : ClassifierDef) : Prop :=
  ∀ now entry rule, firstRule lib now entry d = some rule → ∀ name, rule.set[name]? ≠ none → name ∈ d.manages

theorem databaseChangesOnly_batch (hlive : LiveRulesOwned lib d) (batch : List ScopedEntryRow)
    (evaluated : ℕ) (tally : Tally) (db : Database) :
    DatabaseChangesOnly d.manages db ((classifyBatch lib clock d batch evaluated tally).run db).2 := by
  induction batch generalizing evaluated tally db with
  | nil => exact .refl db
  | cons entry batch ih =>
    rw [classifyBatch, evaluateClassifier_eq]
    cases hrule : d.rules.find? (ruleMatches lib (clock evaluated) entry) with
    | none => exact ih _ _ db
    | some rule =>
      refine databaseChangesOnly_bind (databaseChangesOnly_update (hlive _ entry rule hrule)) ?_ db
      intro answer db
      split
      · exact ih _ _ db
      · exact ih _ _ db
      · exact ih _ _ db
      · exact .refl db

theorem databaseChangesOnly_pages (hlive : LiveRulesOwned lib d) (filesystem : FileSystemId)
    (remaining offset : ℕ) (tally : Tally) (db : Database) :
    DatabaseChangesOnly d.manages db
      ((classifyPages lib clock d filesystem remaining offset tally).run db).2 := by
  induction remaining using Nat.strong_induction_on generalizing offset tally db with
  | _ remaining ih =>
    rw [classifyPages]
    split
    · exact .refl db
    · next hremaining =>
      refine databaseChangesOnly_bind (fun db => ?_) (fun batch db => ?_) db
      · rw [run_queryScopedPage_snd]
        exact .refl db
      · cases batch with
        | nil => exact .refl db
        | cons =>
          refine databaseChangesOnly_bind (databaseChangesOnly_batch hlive _ _ _) (fun tally db => ?_) db
          split
          · exact .refl db
          · exact ih _ (by rw [List.length_cons]; omega) _ _ db

theorem databaseChangesOnly_filesystems (hlive : LiveRulesOwned lib d) (configs : List FileSystemConfig)
    (tally : Tally) (db : Database) :
    DatabaseChangesOnly d.manages db ((classifyFilesystems lib clock d configs tally).run db).2 := by
  induction configs generalizing tally db with
  | nil => exact .refl db
  | cons config configs ih =>
    rw [classifyFilesystems]
    exact databaseChangesOnly_bind (databaseChangesOnly_pages hlive _ _ _ _) (fun tally db => ih tally db) db

theorem changesOnly_applyClassifiers (hlive : d'.enabled = true → LiveRulesOwned lib d'.toClassifierDef)
    (now : Int64) (filesystem : FileSystemId) (entry : EntryRow) (c : Catalog) :
    ChangesOnly d'.manages c ((applyClassifiers lib filesystem entry [(d'.row, now)]).run c).2 := by
  by_cases hactive : Active lib (.fromLustre filesystem entry) (d'.row, now)
  · obtain ⟨rule, hrule⟩ := Option.isSome_iff_exists.1 hactive.2
    rw [applyClassifiers_of_active hactive.1 hrule]
    have hsnd := Proc.run_bind_snd_of_pure
      (updateScopedXattr ⟨filesystem, .lustre entry.fid⟩ rule.set d'.manages) (fun _ => ()) c
    refine hsnd ▸ ?_
    exact changesOnly_updateScopedXattr (hlive hactive.1 now _ rule hrule) c
  · rw [applyClassifiers_of_not_active hactive]
    exact .refl c

end Changes

/-! ## §4 — ownership -/

def bareEntry (row : ScopedEntryRow) : EntryRow where
  fid := ⟨0, 0, 0⟩
  parentFid := none
  name := row.name
  kind := row.kind
  size := row.size
  blocks := row.blocks
  uid := row.uid
  gid := row.gid
  projid := row.projid
  mode := row.mode
  nlink := row.nlink
  atime := row.atime
  mtime := row.mtime
  ctime := row.ctime
  stripeCount := row.stripeCount
  stripeSize := row.stripeSize
  stripeItems := row.stripeItems
  poolName := row.poolName
  smStatus := .null
  lastSeen := row.lastSeen
  depth := row.depth

theorem exists_unowned_change {lib : TextLibrary} {now : Int64} {filesystem : FileSystemId} {entry : EntryRow}
    {d : ClassifierDefinition} {rule : ClassifierRule} {name value : String}
    (hparent : entry.parentFid = none) (hstatus : entry.smStatus = .null) (henabled : d.enabled = true)
    (hrule : firstRule lib now (.fromLustre filesystem entry) d.toClassifierDef = some rule)
    (hvalue : rule.set[name]? = some value) (hname : name ∉ d.manages) :
    ∃ c, ¬ ChangesOnly d.manages c ((applyClassifiers lib filesystem entry [(d.row, now)]).run c).2 := by
  refine ⟨Catalog.putRow ⟨none, ∅, ∅, ∅, ∅, none⟩ (.lustre entry.fid) (.fromLustre filesystem entry), ?_⟩
  intro hchanges
  have hplace : HasPlace (ScopedEntryRow.fromLustre filesystem entry).smStatus := by
    show HasPlace entry.smStatus
    rw [hstatus]
    trivial
  have hwritable : Writable (Catalog.putRow ⟨none, ∅, ∅, ∅, ∅, none⟩ (.lustre entry.fid)
      (.fromLustre filesystem entry)) ⟨filesystem, .lustre entry.fid⟩ (.fromLustre filesystem entry) :=
    { there := scopedEntry_eq_some.2 ⟨by rw [Catalog.row_putRow, if_pos rfl], rfl⟩
      place := hplace
      accepts := ⟨by rintro config ⟨⟩, by
        intro parent h
        simp [ScopedEntryRow.fromLustre, hparent] at h⟩ }
  have hactive : Active lib (.fromLustre filesystem entry) (d.row, now) :=
    ⟨henabled, Option.isSome_iff_exists.2 ⟨rule, hrule⟩⟩
  obtain ⟨members, hwith, -, hlookup⟩ := classified_of_active hactive hplace
  have hchange := hchanges (.lustre entry.fid)
  rw [run_applyClassifiers_of_writable hwritable, Catalog.row_putRow, Catalog.row_putRow, if_pos rfl,
    if_pos rfl, Option.rel_some_some] at hchange
  -- the tag is there after the run, and there were no tags before
  have hset : retagged lib (.fromLustre filesystem entry) (d.row, now)
      (tagAt (ScopedEntryRow.fromLustre filesystem entry).smStatus) name = some (.str value) := by
    rw [retagged, hactive.1, show firstRule lib (d.row, now).2 _ (d.row, now).1.definition = some rule
      from hrule]
    simp only [hvalue]
  have hafter : Json.lookup name members = tagAt entry.smStatus name :=
    (tagAt_withXattrs hwith name).symm.trans (hchange.1 name hname)
  have hwritten := (congrFun hlookup name).trans hset
  rw [hwritten, hstatus] at hafter
  cases hafter

/-- **A classifier writes only the tags it owns exactly when its live rules set only those**: the rules that
are the first to hold of some entry at some time.  The definition is any that `validate_classifier` accepts,
and the writes are those of `apply_classifiers` on any entry and of `run_classifier` on any tables. -/
theorem classifier_owns_iff (lib : TextLibrary) (created : Int64) (d : ClassifierDefinition)
    (_hvalid : validateClassifier lib created d = .ok ()) :
    ((∀ now filesystem entry c,
        ChangesOnly d.manages c ((applyClassifiers lib filesystem entry [(d.row, now)]).run c).2) ∧
      ∀ clock db, DatabaseChangesOnly d.manages db ((runClassifier lib clock d).run db).2) ↔
      (d.enabled = true → LiveRulesOwned lib d.toClassifierDef) := by
  constructor
  · rintro ⟨hincremental, -⟩ henabled now row rule hrule name hname
    by_contra hunowned
    -- the rule applies to an entry with the same fields and no tags
    have hfields : ∀ field, extractField field row =
        extractField field (.fromLustre row.key.filesystem (bareEntry row)) := by
      intro field
      cases field <;> rfl
    have hlive := (firstRule_congr lib now hfields d.toClassifierDef).symm.trans hrule
    obtain ⟨value, hvalue⟩ := Option.ne_none_iff_exists'.1 hname
    obtain ⟨c, hc⟩ := exists_unowned_change rfl rfl henabled hlive hvalue hunowned
    exact hc (hincremental now row.key.filesystem (bareEntry row) c)
  · intro hlive
    refine ⟨changesOnly_applyClassifiers hlive, fun clock db => ?_⟩
    rw [runClassifier]
    split
    · next henabled =>
      refine databaseChangesOnly_bind (fun db => ?_) (fun configs db => ?_) db
      · exact .refl db
      · exact databaseChangesOnly_filesystems (hlive henabled) configs _ db
    · exact .refl db

open Store.Sample (lustre file)

namespace Sample

/-- The definition of the classifier `cold`. -/
def coldDefinition : ClassifierDefinition where
  toClassifierDef := cold.definition
  name := "cold"
  schedule := "1h"
  enabled := true

/-- A classifier that owns the tag `tier` and sets the tag `owner` as well. -/
def greedy : ClassifierDefinition where
  manages := ["tier"]
  rules := [⟨none, ((∅ : TagMap).insert "tier" "hot").insert "owner" "nobody"⟩]
  name := "greedy"
  schedule := "1h"
  enabled := true

def ofAlice : EntryRow :=
  { file 5 [97] with smStatus := .obj [("xattr", .obj [("owner", .str "alice")])] }

end Sample

/-- The classifier `cold` stays within its tag. -/
theorem cold_owns :
    (∀ now filesystem entry c, ChangesOnly Sample.coldDefinition.manages c
        ((applyClassifiers Sample.ascii filesystem entry [(Sample.coldDefinition.row, now)]).run c).2) ∧
      ∀ clock db, DatabaseChangesOnly Sample.coldDefinition.manages db
        ((runClassifier Sample.ascii clock Sample.coldDefinition).run db).2 := by
  refine (classifier_owns_iff Sample.ascii 0 Sample.coldDefinition (by decide +kernel)).2 ?_
  intro _ now entry rule hrule name hname
  exact Sample.cold_setsOnlyManaged rfl rule (List.mem_of_find?_eq_some hrule) name hname

/-- **A tag of somebody else is overwritten** by a classifier that was validated. -/
theorem greedy_takes_owner :
    validateClassifier Sample.ascii 0 Sample.greedy = .ok () ∧ "owner" ∉ Sample.greedy.manages ∧
      entryTag (Sample.only Sample.ofAlice) lustre Sample.ofAlice.fid "owner" = some (.str "alice") ∧
      entryTag ((applyClassifiers Sample.ascii lustre Sample.ofAlice [(Sample.greedy.row, 0)]).run
        (Sample.only Sample.ofAlice)).2 lustre Sample.ofAlice.fid "owner" = some (.str "nobody") := by
  refine ⟨?_, ?_, ?_, ?_⟩ <;> decide +kernel

end Robinhood.Policy
