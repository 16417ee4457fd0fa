/-
# ConfigImport.Import — policies from a robinhood-C configuration

`import` turns the `define_policy` blocks of a configuration into policies of the daemon.  It parses the
scope of a block and does not use it: the policy it returns has no tags, and a policy without tags is
about every entry of its filesystem.  The main result compares the entries that a run of an imported
policy selects with the scope its block declares.
-/
import Mathlib
import Robinhood.ConfigImport.Text
import Robinhood.Policy.Reconcile
import Robinhood.Predicate.Query

namespace Robinhood.ConfigImport

open Store Predicate Lib.Sql
open Lib (isSpace trimSpace splitAtFirst splitWhitespace)
open Policy (TriggerSpec)

/-! ## §1 — What the importer returns -/

/-- `PolicyKind`. -/
inductive PolicyKind where
  | purge | migration | hsmArchive | hsmRelease | hsmRestore | hsmRemove | alert | backup
  deriving DecidableEq, Repr

/-- `LruSortAttr`. -/
inductive LruSortAttr where
  | none | atime | mtime | ctime | lastSeen
  deriving DecidableEq, Repr

structure ActionOpts where
  maxCount : Option UInt64
  lruSort : Option LruSortAttr
  deriving DecidableEq, Repr

/-- **`PolicyDef`.** -/
structure PolicyDef where
  name : String
  filesystem : FileSystemId
  kind : PolicyKind
  matchTags : TagMap
  trigger : String
  action : ActionOpts
  enabled : Bool

inductive Warning where
  | fileClass (name error : String)
  | definePolicy (name error : String)
  | skippedBlock (word : String)
  | unknownFileclass (name : String)
  | unrecognisedAction (action : String)
  | noDefaultAction (policy : String)
  | unknownLruSortAttr (attr : String)
  | triggerOn (kind : String)
  | triggerFallback (trigger : TriggerSpec)
  deriving DecidableEq, Repr

/-- The text of a warning; `quoted` and `shown` are how a text and a trigger are shown for debugging. -/
def Warning.text (quoted : String → String) (shown : TriggerSpec → String) : Warning → String
  | fileClass name error => "FileClass " ++ name ++ ": " ++ error
  | definePolicy name error => "define_policy " ++ name ++ ": " ++ error
  | skippedBlock word => "skipped unhandled block: " ++ word
  | unknownFileclass name => "scope references unknown fileclass: " ++ name
  | unrecognisedAction action =>
    "default_action " ++ quoted action ++ " not recognised, defaulting to purge"
  | noDefaultAction policy => "no default_action for policy " ++ policy ++ ", defaulting to purge"
  | unknownLruSortAttr attr => "unknown lru_sort_attr: " ++ attr
  | triggerOn kind => "trigger_on " ++ quoted kind ++ " not translated"
  | triggerFallback trigger => "trigger " ++ shown trigger ++ " converted to daily fallback"

def Warning.policy : Warning → Option String
  | definePolicy name _ | noDefaultAction name => some name
  | _ => none

/-- `ImportResult`; the classes with the latest first. -/
structure ImportResult where
  policies : List PolicyDef
  warnings : List Warning
  fileclasses : List (String × Predicate)

/-! ## §2 — One block -/

def blockNamed (header : String) (blocks : List (List Char × List Char)) : Option (List Char) :=
  (blocks.find? fun b => trimSpace b.1 = header.toList).map Prod.snd

/-- `parse_fileclass`. -/
def parseFileclass (name : List Char) (body : List Char) : Except String (String × Predicate) :=
  match blockNamed "definition" (splitBody body).1 with
  | none => .error "missing definition block"
  | some definition => (parseExpression definition).map fun p => (String.ofList name, p)

/-- `str::contains`. -/
def contains (cs : List Char) (text : String) : Bool := (splitAtFirst text.toList cs).isSome

def kindOfName (name : List Char) : Option PolicyKind :=
  if contains name "archive" then some .hsmArchive
  else if contains name "release" then some .hsmRelease
  else if contains name "remove" || contains name "purge" || contains name "cleanup" then some .purge
  else if contains name "alert" then some .alert
  else none

def kindOfAction (action : List Char) : Option PolicyKind :=
  if "lhsm.archive".toList <+: action then some .hsmArchive
  else if "lhsm.release".toList <+: action then some .hsmRelease
  else if "common.unlink".toList <+: action ∨ "rm".toList <+: action then some .purge
  else none

def policyKind (name : List Char) (action : Option String) : PolicyKind × List Warning :=
  match kindOfName name, action with
  | some kind, _ => (kind, [])
  | none, none => (.purge, [.noDefaultAction (String.ofList name)])
  | none, some action =>
    let action := trimSpace action.toList
    match kindOfAction action with
    | some kind => (kind, [])
    | none => (.purge, [.unrecognisedAction (String.ofList action)])

/-- The order of candidates. -/
def lruSort (attr : Option String) : Option LruSortAttr × List Warning :=
  match attr.map fun v => String.ofList (trimSpace (trimEndSemicolons (trimSpace v.toList))) with
  | none => (none, [])
  | some "last_mod" => (some .mtime, [])
  | some "last_access" => (some .atime, [])
  | some "creation_time" | some "ctime" => (some .ctime, [])
  | some "rm_time" => (none, [])
  | some other => (none, [.unknownLruSortAttr other])

/-- `parse_duration_secs`. -/
def parseDurationSecs (s : List Char) : Option UInt64 :=
  (parseValue s).bind fun v => if 0 ≤ v.toInt then some v.toInt.toNat.toUInt64 else none

/-- One block of `parse_triggers`. -/
def parseTriggerBlock (body : List Char) : Option TriggerSpec × List Warning :=
  let kvs := (splitBody body).2
  let kind := ((lookupKey kvs "trigger_on").map fun v =>
    String.ofList (trimEndSemicolons (trimSpace v.toList))).getD "scheduled"
  let check := ((lookupKey kvs "check_interval").bind fun v =>
    parseDurationSecs (trimEndSemicolons (trimSpace v.toList))).getD 86400
  match kind with
  | "scheduled" | "periodic" => (some (.interval check), [])
  | "cron" =>
    ((lookupKey kvs "expression").map fun e =>
      .cron (String.ofList (trimQuotes (trimSpace e.toList))), [])
  | other => (none, [.triggerOn other])

/-- The headers that `parse_triggers` does not pass over. -/
def isTrigger (b : List Char × List Char) : Bool :=
  "_trigger".toList <:+ trimSpace b.1 ∨ trimSpace b.1 = "trigger".toList

/-- `parse_triggers`. -/
def parseTriggers (blocks : List (List Char × List Char)) : List TriggerSpec × List Warning :=
  let parsed := (blocks.filter isTrigger).map fun b => parseTriggerBlock b.2
  (parsed.filterMap Prod.fst, parsed.flatMap Prod.snd)

/-- `triggers_to_string`. -/
def triggersToString : List TriggerSpec → String × List Warning
  | .interval secs :: _ =>
    (if secs % 3600 = 0 then toString (secs / 3600) ++ "h"
      else if secs % 60 = 0 then toString (secs / 60) ++ "m" else toString secs ++ "s", [])
  | .cron expression :: _ => ("cron:" ++ expression, [])
  | other :: _ => ("24h", [.triggerFallback other])
  | [] => ("24h", [])

def parseScope (blocks : List (List Char × List Char)) (kvs : List (String × String))
    (fileclasses : List (String × Predicate)) : Except String (Predicate × List Warning) :=
  match blockNamed "scope" blocks, lookupKey kvs "scope" with
  | some b, _ => (parseExpression b).map fun p => (p, [])
  | none, some v =>
    let name := String.ofList (trimSpace (trimEndSemicolons (trimSpace v.toList)))
    match fileclasses.lookup name with
    | some p => .ok (p, [])
    | none => .ok (.true, [.unknownFileclass name])
  | none, none => .ok (.true, [])

/-- **`parse_policy`.** -/
def parsePolicy (name body : List Char) (fileclasses : List (String × Predicate))
    (filesystem : FileSystemId) : Except String (PolicyDef × List Warning) := do
  let (blocks, kvs) := splitBody body
  -- the scope is parsed, and only its warnings are used
  let (_scope, scopeWarnings) ← parseScope blocks kvs fileclasses
  let (kind, kindWarnings) := policyKind name (lookupKey kvs "default_action")
  let (sort, sortWarnings) := lruSort (lookupKey kvs "default_lru_sort_attr")
  let (triggers, triggerWarnings) := parseTriggers blocks
  let (trigger, fallbackWarnings) := triggersToString triggers
  .ok ({ name := String.ofList name, filesystem, kind, matchTags := ∅, trigger,
         action := ⟨none, sort⟩, enabled := .true },
    scopeWarnings ++ kindWarnings ++ sortWarnings ++ triggerWarnings ++ fallbackWarnings)

/-! ## §3 — The file -/

inductive Header where
  | fileClass (name : List Char)
  | definePolicy (name : List Char)
  | other (header : List Char)

/-- `strip_prefix` at the headers that are translated; the rest of one is not trimmed yet. -/
def readHeader (header : List Char) : Header :=
  let header := trimSpace header
  if "FileClass ".toList <+: header then .fileClass (header.drop 10)
  else if "define_policy ".toList <+: header then .definePolicy (header.drop 14)
  else if "FileClass\t".toList <+: header then .fileClass (header.drop 10)
  else .other header

/-- One turn of the loop of `import`. -/
def importBlock (filesystem : FileSystemId) (out : ImportResult) (block : List Char × List Char) :
    ImportResult :=
  match readHeader block.1 with
  | .fileClass name =>
    match parseFileclass (trimSpace name) block.2 with
    | .ok fileclass => { out with fileclasses := fileclass :: out.fileclasses }
    | .error e => { out with warnings := out.warnings ++ [.fileClass (String.ofList name) e] }
  | .definePolicy name =>
    match parsePolicy (trimSpace name) block.2 out.fileclasses filesystem with
    | .ok (policy, warnings) =>
      { out with warnings := out.warnings ++ warnings, policies := out.policies ++ [policy] }
    | .error e => { out with warnings := out.warnings ++ [.definePolicy (String.ofList name) e] }
  | .other header =>
    { out with warnings := out.warnings ++
        [.skippedBlock (String.ofList ((splitWhitespace header).headD []))] }

/-- **`import`.** -/
def import_ (src : String) (filesystem : FileSystemId) : Except String ImportResult :=
  (splitTopLevelBlocks (stripComments src.toList)).map fun blocks =>
    blocks.foldl (importBlock filesystem) ⟨[], [], []⟩

/-! ## §4 — A run of a policy -/

/-- `TargetFilter`. -/
inductive TargetFilter where
  | fs
  | ost (osts : List UInt32)
  | pool (name : String)
  | user (uid : UInt32)
  | group (gid : UInt32)
  | projid (projid : UInt32)
  deriving DecidableEq, Repr

/-- A number of 32 bits as one of 64. -/
def asI64OfU32 (n : UInt32) : Int64 := Int64.ofNat n.toNat

/-- `TargetFilter::to_predicate`. -/
def TargetFilter.toPredicate : TargetFilter → Predicate
  | fs => .true
  | ost osts => .onOst osts
  | pool name => .inPool name
  | user id => .cmp .uid .eq (.num (asI64OfU32 id))
  | group id => .cmp .gid .eq (.num (asI64OfU32 id))
  | projid id => .cmp .projid .eq (.num (asI64OfU32 id))

def effective (policy : PolicyDef) (target : TargetFilter) : Predicate :=
  match target.toPredicate with
  | .true => .tags policy.matchTags
  | other => .and [.tags policy.matchTags, other]

/-- `LruSortAttr::column`, as the column of a field. -/
def LruSortAttr.column : LruSortAttr → Option Field
  | none => .none
  | atime => some .atime
  | mtime => some .mtime
  | ctime => some .ctime
  | lastSeen => some .lastSeen

def orderOf (policy : PolicyDef) : Option String :=
  (policy.action.lruSort.bind LruSortAttr.column).map fun field => field.columnName ++ " ASC"

/-- **The candidates of a run**, `PolicyRunTask::run`: the pages that the server may return. -/
def candidates (db : MariaDb) (tables : Tables) (policy : PolicyDef) (target : TargetFilter) :
    Set (List ScopedEntryRow) :=
  queryScopedPage db tables policy.filesystem (toSql (effective policy target)).1
    (toSql (effective policy target)).2 (orderOf policy) (policy.action.maxCount.getD 10000) 0

/-! ## §5 — What a block declares

The language of the file, read for itself: statements end with a semicolon, blocks have braces, and the
header of a block is what stands before its brace since the last statement or block.  The meaning of an
expression is a parameter. -/

inductive Clause where
  | block (header body : List Char)
  | assign (key value : List Char)
  deriving DecidableEq, Repr

def statementOf (text : List Char) : List Clause :=
  match splitAtFirst ['='] text with
  | some (key, value) => [.assign (trimSpace key) (trimSpace value)]
  | none => []

def clauses : BlockScan → List Char → List Clause
  | .header read, [] => statementOf read.reverse
  | .header read, c :: cs =>
    if c = ';' then statementOf read.reverse ++ clauses (.header []) cs
    else if c = '{' then clauses (.body (trimSpace read.reverse) 0 []) cs
    else clauses (.header (c :: read)) cs
  | .body _ _ _, [] => []
  | .body header depth read, c :: cs =>
    if c = '{' then clauses (.body header (depth + 1) (c :: read)) cs
    else if c = '}' then
      match depth with
      | 0 => .block header read.reverse :: clauses (.header []) cs
      | depth + 1 => clauses (.body header depth (c :: read)) cs
    else clauses (.body header depth (c :: read)) cs

/-- The definitions of a file class: the `definition` blocks of the classes with this name. -/
def definitionsOf (src : String) (name : List Char) : List (List Char) :=
  (clauses (.header []) (stripComments src.toList)).flatMap fun clause =>
    match clause with
    | .block header body =>
      if splitWhitespace header = ["FileClass".toList, name] then
        (clauses (.header []) body).filterMap fun inner =>
          match inner with
          | .block header body => if header = "definition".toList then some body else none
          | .assign _ _ => none
      else []
    | .assign _ _ => []

section Scope

variable (meaning : List Char → ScopedEntryRow → Prop) (src : String)

/-- The entries that one clause of a policy's block admits: a scope has the meaning of its expression, a
reference that of a class with that name; other clauses do not speak of the scope. -/
def Clause.Admits (e : ScopedEntryRow) : Clause → Prop
  | block header body => header = "scope".toList → meaning body e
  | assign key value => key = "scope".toList → ∃ definition ∈ definitionsOf src value, meaning definition e

/-- **The scope that a policy's block declares.** -/
def InDeclaredScope (body : List Char) (e : ScopedEntryRow) : Prop :=
  ∀ clause ∈ clauses (.header []) body, clause.Admits meaning src e

end Scope

/-! ## §6 — What an imported policy selects -/

section Selected

variable {db : MariaDb} {tables : Tables} {policy : PolicyDef} {target : TargetFilter}
  {e : ScopedEntryRow}

def sortKeys (policy : PolicyDef) : List SortKey :=
  (policy.action.lruSort.bind LruSortAttr.column).toList.map fun field => ⟨field, .asc⟩

theorem pageSql_orderOf (clause : String) :
    pageSql clause (orderOf policy) = pageSql clause (some (SortKey.listToSql (sortKeys policy))) := by
  unfold orderOf sortKeys
  cases policy.action.lruSort.bind LruSortAttr.column with
  | none => rfl
  | some field => cases field <;> rfl

theorem mem_candidates {page : List ScopedEntryRow} (h : page ∈ candidates db tables policy target) :
    ∃ sorted limit offset, sorted.Perm (selectedRows db tables
        ⟨[.name "entry_data"], "scoped_entries", "entries",
          .and (scopeCond policy.filesystem) (effective policy target).tree,
          (sortKeys policy).map SortKey.column, some (limit, offset)⟩) ∧
      pageOf (some (limit, offset)) sorted = some page := by
  obtain ⟨stmt, sorted, hstmt, hperm, -, hpage⟩ := h
  rw [pageSql_orderOf, statement_pageSql] at hstmt
  obtain rfl := Option.some.inj hstmt
  exact ⟨sorted, _, _, hperm, hpage⟩

theorem collate_of_mem_candidates {page : List ScopedEntryRow}
    (h : page ∈ candidates db tables policy target) (he : e ∈ page) :
    db.collate .column e.key.filesystem.value policy.filesystem.value = .eq := by
  obtain ⟨sorted, limit, offset, hperm, hpage⟩ := mem_candidates h
  exact (mem_selectedRows_scoped.1 (hperm.mem_iff.1 (mem_of_mem_pageOf hpage he))).2.1

theorem selectedRows_single {stmt : Select SqlValue} (h : e ∈ selectedRows db ⟨[e], []⟩ stmt) :
    selectedRows db ⟨[e], []⟩ stmt = [e] := by
  refine List.filter_eq_self.2 fun row hrow => ?_
  obtain rfl := List.mem_singleton.1 hrow
  exact (List.mem_filter.1 h).2

/-- **Without tags, every row of the filesystem is a candidate.** -/
theorem single_mem_candidates (htags : policy.matchTags = ∅) (hcount : policy.action.maxCount = none)
    (he : db.collate .column e.key.filesystem.value policy.filesystem.value = .eq) :
    [e] ∈ candidates db ⟨[e], []⟩ policy .fs := by
  have htree : (effective policy .fs).tree = always := by
    show (Predicate.tags policy.matchTags).tree = always
    rw [htags]
    rfl
  have hstmt := statement_pageSql (effective policy .fs) policy.filesystem (sortKeys policy)
    (asI64 10000) (asI64 0)
  have htrue : (effective policy .fs).tree.eval db.server (Tables.rows ⟨[e], []⟩)
      [("entries", storedRow e)] = some .true := by
    rw [htree]
    rfl
  rw [← pageSql_orderOf] at hstmt
  rw [candidates, hcount]
  refine ⟨_, [e], hstmt, ?_, List.pairwise_singleton .., rfl⟩
  rw [selectedRows_single (mem_selectedRows_scoped.2 ⟨List.mem_singleton_self e, he, htrue⟩)]

end Selected

/-! ## §7 — What the importer returns for a block -/

def policyBlock (block : List Char × List Char) : Option (List Char × List Char) :=
  match readHeader block.1 with
  | .definePolicy name => some (trimSpace name, block.2)
  | _ => none

def policyBlocks (src : String) : List (List Char × List Char) :=
  match splitTopLevelBlocks (stripComments src.toList) with
  | .ok blocks => blocks.filterMap policyBlock
  | .error _ => []

/-- **Neither the name nor the block says what the policy does**: no word of its name, no default action. -/
def SaysNoAction (block : List Char × List Char) : Prop :=
  kindOfName block.1 = none ∧ lookupKey (splitBody block.2).2 "default_action" = none

structure Imported (filesystem : FileSystemId) (policy : PolicyDef) (block : List Char × List Char) :
    Prop where
  name : policy.name = String.ofList block.1
  filesystem : policy.filesystem = filesystem
  tags : policy.matchTags = ∅
  count : policy.action.maxCount = none

def Named (warnings : List Warning) (name : String) : Prop := ∃ w ∈ warnings, w.policy = some name

@[simp]
theorem named_append {ws us : List Warning} {name : String} :
    Named (ws ++ us) name ↔ Named ws name ∨ Named us name := by
  simp only [Named, List.mem_append, or_and_right, exists_or]

@[simp]
theorem named_nil {name : String} : ¬ Named [] name := by simp [Named]

section Blocks

variable {filesystem : FileSystemId} {name body : List Char} {classes : List (String × Predicate)}

theorem named_policyKind {action : Option String} {n : String} :
    Named (policyKind name action).2 n ↔
      n = String.ofList name ∧ kindOfName name = none ∧ action = none := by
  unfold policyKind
  cases hname : kindOfName name with
  | some => simp
  | none =>
    cases action with
    | none => simp [Named, Warning.policy, eq_comm]
    | some =>
      dsimp only
      split <;> simp [Named, Warning.policy]

theorem not_named_lruSort {attr : Option String} {n : String} : ¬ Named (lruSort attr).2 n := by
  unfold lruSort
  split <;> simp [Named, Warning.policy]

theorem not_named_parseTriggers {blocks : List (List Char × List Char)} {n : String} :
    ¬ Named (parseTriggers blocks).2 n := by
  have hblock (b : List Char) : ¬ Named (parseTriggerBlock b).2 n := by
    unfold parseTriggerBlock
    dsimp only
    split <;> simp [Named, Warning.policy]
  rintro ⟨w, hw, hpolicy⟩
  obtain ⟨parsed, hparsed, hw⟩ := List.mem_flatMap.1 hw
  obtain ⟨b, -, rfl⟩ := List.mem_map.1 hparsed
  exact hblock b.2 ⟨w, hw, hpolicy⟩

theorem not_named_triggersToString {triggers : List TriggerSpec} {n : String} :
    ¬ Named (triggersToString triggers).2 n := by
  unfold triggersToString
  split <;> simp [Named, Warning.policy]

theorem parseScope_ok {blocks : List (List Char × List Char)} {kvs : List (String × String)} :
    ∃ p ws, parseScope blocks kvs classes = .ok (p, ws) ∧ ∀ n, ¬ Named ws n := by
  unfold parseScope
  split
  · next b _ =>
    obtain ⟨p, hp⟩ := exists_parseExpression b
    exact ⟨p, [], by rw [hp]; rfl, fun n => named_nil⟩
  · dsimp only
    split
    · exact ⟨_, [], rfl, fun n => named_nil⟩
    · exact ⟨_, _, rfl, fun n => by simp [Named, Warning.policy]⟩
  · exact ⟨_, [], rfl, fun n => named_nil⟩

/-- **What `parse_policy` returns**: a policy without tags; it is named in a warning exactly where nothing
says what it does. -/
theorem parsePolicy_ok :
    ∃ policy ws, parsePolicy name body classes filesystem = .ok (policy, ws) ∧
      Imported filesystem policy (name, body) ∧
      ∀ n, Named ws n ↔ n = String.ofList name ∧ SaysNoAction (name, body) := by
  obtain ⟨p, ws, hscope, hws⟩ := @parseScope_ok classes (splitBody body).1 (splitBody body).2
  refine ⟨_, _, by rw [parsePolicy]; simp only [hscope, bind, Except.bind]; rfl, ⟨rfl, rfl, rfl, rfl⟩,
    fun n => ?_⟩
  simp only [named_append, hws n, not_named_lruSort, not_named_parseTriggers,
    not_named_triggersToString, named_policyKind, false_or, or_false, SaysNoAction]

theorem importBlock_adds (out : ImportResult) (block : List Char × List Char) :
    ∃ ps ws, (importBlock filesystem out block).policies = out.policies ++ ps ∧
      (importBlock filesystem out block).warnings = out.warnings ++ ws ∧
      List.Forall₂ (Imported filesystem) ps (policyBlock block).toList ∧
      ∀ n, Named ws n ↔ ∃ b ∈ (policyBlock block).toList, n = String.ofList b.1 ∧ SaysNoAction b := by
  unfold importBlock policyBlock
  cases readHeader block.1 with
  | fileClass =>
    dsimp only
    split
    · exact ⟨[], [], by simp, by simp, .nil, by simp⟩
    · exact ⟨[], _, by simp, rfl, .nil, by simp [Named, Warning.policy]⟩
  | definePolicy name =>
    obtain ⟨policy, ws, hparse, himported, hnamed⟩ :=
      @parsePolicy_ok filesystem (trimSpace name) block.2 out.fileclasses
    simp only [hparse]
    exact ⟨[policy], ws, rfl, rfl, .cons himported .nil, by simpa using hnamed⟩
  | other => exact ⟨[], _, by simp, rfl, .nil, by simp [Named, Warning.policy]⟩

theorem foldl_importBlock (blocks : List (List Char × List Char)) (out : ImportResult) :
    ∃ ps ws, (blocks.foldl (importBlock filesystem) out).policies = out.policies ++ ps ∧
      (blocks.foldl (importBlock filesystem) out).warnings = out.warnings ++ ws ∧
      List.Forall₂ (Imported filesystem) ps (blocks.filterMap policyBlock) ∧
      ∀ n, Named ws n ↔
        ∃ b ∈ blocks.filterMap policyBlock, n = String.ofList b.1 ∧ SaysNoAction b := by
  induction blocks generalizing out with
  | nil => exact ⟨[], [], by simp, by simp, .nil, by simp⟩
  | cons block blocks ih =>
    obtain ⟨ps, ws, hps, hws, himported, hnamed⟩ := @importBlock_adds filesystem out block
    obtain ⟨ps', ws', hps', hws', himported', hnamed'⟩ := ih (importBlock filesystem out block)
    have hblocks : (block :: blocks).filterMap policyBlock =
        (policyBlock block).toList ++ blocks.filterMap policyBlock := by
      rw [List.filterMap_cons]
      cases policyBlock block <;> rfl
    refine ⟨ps ++ ps', ws ++ ws', ?_, ?_, ?_, fun n => ?_⟩
    · rw [List.foldl_cons, hps', hps, List.append_assoc]
    · rw [List.foldl_cons, hws', hws, List.append_assoc]
    · rw [hblocks]
      exact List.rel_append himported himported'
    · rw [hblocks, named_append, hnamed, hnamed']
      simp only [List.mem_append, or_and_right, exists_or]

/-- **What `import` returns**: one policy without tags for each block, in order, and a warning that names a
policy exactly where nothing says what it does. -/
theorem import_spec {src : String} {out : ImportResult} (h : import_ src filesystem = .ok out) :
    List.Forall₂ (Imported filesystem) out.policies (policyBlocks src) ∧
      ∀ n, Named out.warnings n ↔ ∃ b ∈ policyBlocks src, n = String.ofList b.1 ∧ SaysNoAction b := by
  unfold import_ at h
  unfold policyBlocks
  cases hblocks : splitTopLevelBlocks (stripComments src.toList) with
  | error =>
    rw [hblocks] at h
    cases h
  | ok blocks =>
    rw [hblocks] at h
    cases h
    obtain ⟨ps, ws, hps, hws, himported, hnamed⟩ :=
      @foldl_importBlock filesystem blocks ⟨[], [], []⟩
    rw [hps, hws]
    exact ⟨himported, hnamed⟩

end Blocks

/-! ## §8 — Scopes -/

/-- **Not widened silently**: every candidate of the policy is in the scope of its block, or a warning
names the policy. -/
def NotWidened (meaning : List Char → ScopedEntryRow → Prop) (db : MariaDb) (src : String)
    (out : ImportResult) (policy : PolicyDef) (body : List Char) : Prop :=
  (∀ tables target, ∀ page ∈ candidates db tables policy target, ∀ e ∈ page,
    InDeclaredScope meaning src body e) ∨ Named out.warnings policy.name

/-- **When an import does not widen a policy silently.**  Whatever expressions mean: exactly when the
declared scope holds of every entry of the filesystem, or when nothing in the name of the policy and in some
block of that name says what it does, which is what the importer warns about. -/
theorem import_not_widened_iff (meaning : List Char → ScopedEntryRow → Prop) (db : MariaDb)
    {src : String} {filesystem : FileSystemId} {out : ImportResult}
    (h : import_ src filesystem = .ok out) {k : ℕ} {policy : PolicyDef}
    (hpolicy : out.policies[k]? = some policy) :
    ∃ name body, (policyBlocks src)[k]? = some (name, body) ∧ policy.name = String.ofList name ∧
      (NotWidened meaning db src out policy body ↔
        (∀ e : ScopedEntryRow, db.collate .column e.key.filesystem.value filesystem.value = .eq →
          InDeclaredScope meaning src body e) ∨
        ∃ b ∈ policyBlocks src, String.ofList b.1 = String.ofList name ∧ SaysNoAction b) := by
  obtain ⟨hall, hnamed⟩ := import_spec h
  obtain ⟨⟨name, body⟩, hblock, himported⟩ : ∃ b, (policyBlocks src)[k]? = some b ∧
      Imported filesystem policy b := by
    have hk : k < out.policies.length := (List.getElem?_eq_some_iff.1 hpolicy).1
    have hk' : k < (policyBlocks src).length := hall.length_eq ▸ hk
    refine ⟨(policyBlocks src)[k], List.getElem?_eq_getElem hk', ?_⟩
    have hrel := hall.get hk hk'
    rwa [List.get_eq_getElem, List.get_eq_getElem,
      (List.getElem?_eq_some_iff.1 hpolicy).2] at hrel
  refine ⟨name, body, hblock, himported.name, or_congr ⟨fun hscope e he => ?_, ?_⟩ ?_⟩
  · rw [← himported.filesystem] at he
    exact hscope _ _ _ (single_mem_candidates himported.tags himported.count he) e
      (List.mem_singleton_self e)
  · intro hscope tables target page hpage e he
    refine hscope e ?_
    rw [← himported.filesystem]
    exact collate_of_mem_candidates hpage he
  · rw [hnamed, himported.name]
    simp only [eq_comm]

namespace Sample

def cleanup : String := "define_policy cleanup { scope { size > 1GB } }"

def cleanupBody : List Char := " scope { size > 1GB } ".toList

def tidy : String := "define_policy tidy { scope { size > 1GB } }"

def reading (text : List Char) (e : ScopedEntryRow) : Prop :=
  (match parseExpression text with
    | .ok p => matchesEntry Policy.Sample.ascii e p
    | .error _ => Bool.false) = Bool.true

def emptyFile : ScopedEntryRow := .fromLustre Store.Sample.lustre (Store.Sample.file 5 [97])

end Sample

/-- **An empty file is a candidate of a policy for large files**: the scope of `cleanup` is dropped, and no
warning says so. -/
theorem cleanup_takes_empty_file :
    ∃ out policy, import_ Sample.cleanup Store.Sample.lustre = .ok out ∧ out.policies[0]? = some policy ∧
      policy.name = "cleanup" ∧ out.warnings = [] ∧
      policyBlocks Sample.cleanup = [("cleanup".toList, Sample.cleanupBody)] ∧
      [Sample.emptyFile] ∈ candidates .generalCi ⟨[Sample.emptyFile], []⟩ policy .fs ∧
      ¬ InDeclaredScope Sample.reading Sample.cleanup Sample.cleanupBody Sample.emptyFile := by
  have hblocks : policyBlocks Sample.cleanup = [("cleanup".toList, Sample.cleanupBody)] := by
    decide +kernel
  have hwarnings : (import_ Sample.cleanup Store.Sample.lustre).toOption.map ImportResult.warnings =
      some [] := by
    decide +kernel
  have hscope : Clause.block "scope".toList " size > 1GB ".toList ∈
      clauses (.header []) Sample.cleanupBody := by
    decide +kernel
  have hlarge : ¬ Sample.reading " size > 1GB ".toList Sample.emptyFile := by
    unfold Sample.reading
    decide +kernel
  cases himport : import_ Sample.cleanup Store.Sample.lustre with
  | error => rw [himport] at hwarnings; cases hwarnings
  | ok out =>
    rw [himport] at hwarnings
    obtain ⟨hall, -⟩ := import_spec himport
    rw [hblocks] at hall
    obtain ⟨policy, ps, hfirst, hrest, hpolicies⟩ := List.forall₂_cons_right_iff.1 hall
    have hname : String.ofList "cleanup".toList = "cleanup" := String.ofList_toList
    refine ⟨out, policy, rfl, by rw [hpolicies]; rfl, hfirst.name.trans hname,
      Option.some.inj hwarnings, hblocks, single_mem_candidates hfirst.tags hfirst.count ?_, fun h =>
        hlarge (h _ hscope rfl)⟩
    rw [hfirst.filesystem]
    decide +kernel

/-- The policy `tidy` is named in a warning, for another reason. -/
theorem tidy_named :
    ∃ out policy, import_ Sample.tidy Store.Sample.lustre = .ok out ∧ out.policies[0]? = some policy ∧
      NotWidened Sample.reading .generalCi Sample.tidy out policy Sample.cleanupBody := by
  have hblocks : policyBlocks Sample.tidy = [("tidy".toList, Sample.cleanupBody)] := by
    decide +kernel
  have hunsaid : SaysNoAction ("tidy".toList, Sample.cleanupBody) := by
    unfold SaysNoAction
    decide +kernel
  have hok : (import_ Sample.tidy Store.Sample.lustre).isOk = Bool.true := by decide +kernel
  cases himport : import_ Sample.tidy Store.Sample.lustre with
  | error => rw [himport] at hok; cases hok
  | ok out =>
    obtain ⟨hall, -⟩ := import_spec himport
    rw [hblocks] at hall
    obtain ⟨policy, ps, -, -, hpolicies⟩ := List.forall₂_cons_right_iff.1 hall
    have hpolicy : out.policies[0]? = some policy := by rw [hpolicies]; rfl
    obtain ⟨name, body, hblock, -, hiff⟩ :=
      import_not_widened_iff Sample.reading .generalCi himport hpolicy
    rw [hblocks] at hblock
    obtain ⟨rfl, rfl⟩ := Prod.mk.inj (Option.some.inj hblock)
    refine ⟨out, policy, rfl, hpolicy, hiff.2 (.inr ⟨_, ?_, rfl, hunsaid⟩)⟩
    rw [hblocks]
    exact List.mem_singleton_self _

end Robinhood.ConfigImport
