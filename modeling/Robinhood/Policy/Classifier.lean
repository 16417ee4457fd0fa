/-
# Policy.Classifier — tags from rules

`rbh-policy/src/classifier.rs` and `apply_classifiers` of the daemon.  A classifier owns some tag keys and
has an ordered list of rules; the first rule whose condition holds of an entry gives the tags.  Conditions
are texts, parsed each time they are evaluated; the clock is read when a relative time is parsed, and one
evaluation of a classifier sees one time here.

A classifier none of whose rules matches writes nothing.  So the tags of an earlier run stay, and the result
below says exactly when no such tag is left.
-/
import Mathlib
import Robinhood.Agent.Cursor
import Robinhood.Predicate.Eval
import Robinhood.Store.Lustre
import Robinhood.Store.Xattr

namespace Robinhood.Policy

open Lib Store Predicate

/-! ## §1 — conditions -/

inductive WhenParseError
  | empty
  | unknownField (name : String)
  | unknownOp (op : String)
  | badValue (term : String)
  deriving DecidableEq, Repr

/-- `split_term`: operators of two characters are tried first. -/
def splitTerm (term : List Char) : Except WhenParseError (List Char × String × List Char) :=
  let parts := ([">=", "<=", "==", "!=", ">", "<"] : List String).findSome? fun op =>
    (splitAtFirst op.toList term).map fun (f, v) => (trimSpace f, op, trimSpace v)
  match parts with
  | some parts => .ok parts
  | none => .error (.badValue (String.ofList term))

variable (lib : TextLibrary) (now : Int64)

/-- `parse_time_value`: a time relative to now, or an absolute one. -/
def parseTimeValue (s orig : List Char) : Except WhenParseError Int64 :=
  match trimSpace s with
  | '-' :: rel =>
    match unitOf [("d", 86400), ("h", 3600), ("m", 60)] (lib.toLowercase (String.ofList rel)).toList with
    | none => .error (.badValue (String.ofList orig))
    | some (digits, mult) =>
      match parseInt digits with
      | none => .error (.badValue (String.ofList orig))
      | some n => .ok (now - n * mult)
  | s =>
    match parseInt s with
    | none => .error (.badValue (String.ofList orig))
    | some n => .ok n

/-- `parse_numeric_value`: a size with a unit, or a plain number. -/
def parseNumericValue (s orig : List Char) : Except WhenParseError Int64 :=
  let upper := (lib.toUppercase (String.ofList (trimSpace s))).toList
  let (digits, mult) := (unitOf [("TB", (1 : Int64) <<< 40), ("GB", (1 : Int64) <<< 30),
    ("MB", (1 : Int64) <<< 20), ("KB", (1 : Int64) <<< 10)] upper).getD (upper, 1)
  match parseInt (trimSpace digits) with
  | none => .error (.badValue (String.ofList orig))
  | some n => .ok (n * mult)

/-- The fields a condition may name, and whether they are times. -/
def fieldOf : String → Option (Field × Bool)
  | "atime" => some (.atime, .true)
  | "mtime" => some (.mtime, .true)
  | "ctime" => some (.ctime, .true)
  | "size" => some (.size, .false)
  | "uid" => some (.uid, .false)
  | "gid" => some (.gid, .false)
  | "depth" => some (.depth, .false)
  | "nlink" => some (.nlink, .false)
  | _ => none

def opOf : String → Option CmpOp
  | ">" => some .gt
  | ">=" => some .ge
  | "<" => some .lt
  | "<=" => some .le
  | "==" => some .eq
  | "!=" => some .ne
  | _ => none

/-- `parse_term`. -/
def parseTerm (term : List Char) : Except WhenParseError Predicate := do
  let (fieldStr, opStr, valStr) ← splitTerm term
  match fieldOf (String.ofList fieldStr) with
  | none => .error (.unknownField (String.ofList fieldStr))
  | some (field, isTime) =>
    match opOf opStr with
    | none => .error (.unknownOp opStr)
    | some op => do
      let n ← if isTime then parseTimeValue lib now valStr term else parseNumericValue lib valStr term
      return .cmp field op (.num n)

/-- **`parse_when`**: terms with commas between them, all of which must hold. -/
def parseWhen (expr : String) : Except WhenParseError Predicate := do
  if trimSpace expr.toList = [] then .error .empty
  else
    let predicates ← (expr.toList.splitOn ',').mapM fun t => parseTerm lib now (trimSpace t)
    match predicates with
    | [p] => return p
    | ps => return .and ps

/-! ## §2 — classifiers -/

structure ClassifierRule where
  /-- the condition; without one the rule always holds -/
  when_ : Option String
  set : TagMap

structure ClassifierDef where
  manages : List String
  rules : List ClassifierRule

structure ClassifierRow where
  definition : ClassifierDef
  enabled : Bool

def ruleMatches (entry : ScopedEntryRow) (rule : ClassifierRule) : Bool :=
  match rule.when_ with
  | none => .true
  | some expr =>
    match parseWhen lib now expr with
    | .ok p => matchesEntry lib entry p
    | .error _ => .false

/-- **`evaluate_classifier`**: the tags of the first rule that holds. -/
def evaluateClassifier (entry : ScopedEntryRow) : List ClassifierRule → Option TagMap
  | [] => none
  | rule :: rules => if ruleMatches lib now entry rule then some rule.set else evaluateClassifier entry rules

def firstRule (entry : ScopedEntryRow) (d : ClassifierDef) : Option ClassifierRule :=
  d.rules.find? (ruleMatches lib now entry)

theorem evaluateClassifier_eq (entry : ScopedEntryRow) (rules : List ClassifierRule) :
    evaluateClassifier lib now entry rules = (rules.find? (ruleMatches lib now entry)).map
      ClassifierRule.set := by
  induction rules with
  | nil => rfl
  | cons rule rules ih =>
    rw [evaluateClassifier, List.find?_cons]
    cases ruleMatches lib now entry rule <;> simp [ih]

/-- **`apply_classifiers`**, each classifier with the time at which it is evaluated. -/
def applyClassifiers (filesystem : FileSystemId) (entry : EntryRow) :
    List (ClassifierRow × Int64) → Proc Catalog XattrError Unit
  | [] => pure ()
  | (classifier, now) :: rest =>
    if classifier.enabled then
      match evaluateClassifier lib now (.fromLustre filesystem entry) classifier.definition.rules with
      | some set => do
        let _ ← updateScopedXattr ⟨filesystem, .lustre entry.fid⟩ set classifier.definition.manages
        applyClassifiers filesystem entry rest
      | none => applyClassifiers filesystem entry rest
    else applyClassifiers filesystem entry rest

/-! ## §3 — the tags one classifier leaves -/

def retagged (entry : ScopedEntryRow) (k : ClassifierRow × Int64) (before : String → Option Json)
    (name : String) : Option Json :=
  match k.1.enabled, firstRule lib k.2 entry k.1.definition with
  | .true, some rule =>
    match rule.set[name]? with
    | some value => some (.str value)
    | none => if name ∈ k.1.definition.manages then none else before name
  | _, _ => before name

theorem retagged_of_rule {entry : ScopedEntryRow} {k : ClassifierRow × Int64} {rule : ClassifierRule}
    (henabled : k.1.enabled = .true) (hrule : firstRule lib k.2 entry k.1.definition = some rule)
    (before : String → Option Json) (name : String) :
    retagged lib entry k before name = (rule.set[name]?.map Json.str).or
      (if name ∈ k.1.definition.manages then none else before name) := by
  simp only [retagged, henabled, hrule]
  cases rule.set[name]? <;> rfl

def SetsOnlyManaged (k : ClassifierRow) : Prop :=
  k.enabled → ∀ rule ∈ k.definition.rules, ∀ name, rule.set[name]? ≠ none → name ∈ k.definition.manages

def DisjointlyManaged (ks : List (ClassifierRow × Int64)) : Prop :=
  ks.Pairwise fun k l => k.1.enabled → l.1.enabled →
    k.1.definition.manages.Disjoint l.1.definition.manages

section Tags

variable {lib : TextLibrary} {entry : ScopedEntryRow} {k : ClassifierRow × Int64}
  {ks : List (ClassifierRow × Int64)} {before : String → Option Json} {name : String}

theorem retagged_of_not_mem (hset : SetsOnlyManaged k.1)
    (hname : k.1.enabled → name ∉ k.1.definition.manages) :
    retagged lib entry k before name = before name := by
  unfold retagged
  split
  · next rule henabled hrule =>
    have hunset : rule.set[name]? = none := by
      by_contra h
      exact hname henabled (hset henabled rule (List.mem_of_find?_eq_some hrule) name h)
    simp [hunset, hname henabled]
  · rfl

theorem foldl_retagged_of_not_mem (hset : ∀ k ∈ ks, SetsOnlyManaged k.1)
    (hname : ∀ k ∈ ks, k.1.enabled → name ∉ k.1.definition.manages) :
    ks.foldl (fun tags k => retagged lib entry k tags) before name = before name := by
  induction ks generalizing before with
  | nil => rfl
  | cons k ks ih =>
    rw [List.foldl_cons, ih (fun l hl => hset l (.tail _ hl)) (fun l hl => hname l (.tail _ hl)),
      retagged_of_not_mem (hset k List.mem_cons_self) (hname k List.mem_cons_self)]

theorem retagged_of_mem (henabled : k.1.enabled = .true) (hname : name ∈ k.1.definition.manages) :
    retagged lib entry k before name =
      match firstRule lib k.2 entry k.1.definition with
      | some rule => rule.set[name]?.map .str
      | none => before name := by
  unfold retagged
  rw [henabled]
  cases firstRule lib k.2 entry k.1.definition with
  | none => rfl
  | some rule => cases h : rule.set[name]? <;> simp [h, hname]

/-- **A managed tag after all classifiers** is what its own classifier made of the tag there was before. -/
theorem foldl_retagged_of_mem (hset : ∀ k ∈ ks, SetsOnlyManaged k.1) (hdisjoint : DisjointlyManaged ks)
    (hk : k ∈ ks) (henabled : k.1.enabled = .true) (hname : name ∈ k.1.definition.manages) :
    ks.foldl (fun tags k => retagged lib entry k tags) before name =
      match firstRule lib k.2 entry k.1.definition with
      | some rule => rule.set[name]?.map .str
      | none => before name := by
  induction ks generalizing before with
  | nil => cases hk
  | cons l ks ih =>
    obtain ⟨hl, hks⟩ := List.pairwise_cons.1 hdisjoint
    have hset' : ∀ k ∈ ks, SetsOnlyManaged k.1 := fun m hm => hset m (.tail _ hm)
    rw [List.foldl_cons]
    obtain rfl | hk := List.mem_cons.1 hk
    · -- its own turn: the later ones manage other tags
      rw [foldl_retagged_of_not_mem hset' fun m hm hmen => hl m hm henabled hmen hname,
        retagged_of_mem henabled hname]
    · rw [ih hset' hks hk]
      have hother := fun hlen hmem => hl k hk hlen henabled hmem hname
      rw [retagged_of_not_mem (hset l List.mem_cons_self) hother]

end Tags

/-! ## §4 — the run -/

section Runs

variable {lib : TextLibrary} {filesystem : FileSystemId} {entry : EntryRow} {row : ScopedEntryRow}
  {ks : List (ClassifierRow × Int64)} {c c' : Catalog}

/-- **What classification leaves**: the row is there, its tags changed classifier by classifier. -/
theorem run_applyClassifiers_ok (hrow : c.scopedEntry ⟨filesystem, .lustre entry.fid⟩ = .ok (some row))
    (hrun : (applyClassifiers lib filesystem entry ks).run c = (.ok (), c')) :
    ∃ row', c'.scopedEntry ⟨filesystem, .lustre entry.fid⟩ = .ok (some row') ∧
      tagAt row'.smStatus =
        ks.foldl (fun tags k => retagged lib (.fromLustre filesystem entry) k tags)
          (tagAt row.smStatus) := by
  induction ks generalizing c row with
  | nil =>
    obtain ⟨-, rfl⟩ := Prod.mk.inj hrun
    exact ⟨row, hrow, rfl⟩
  | cons k ks ih =>
    obtain ⟨classifier, now⟩ := k
    rw [applyClassifiers, evaluateClassifier_eq] at hrun
    rw [List.foldl_cons]
    cases henabled : classifier.enabled with
    | false =>
      have hsame : retagged lib (.fromLustre filesystem entry) (classifier, now) (tagAt row.smStatus) =
          tagAt row.smStatus := by
        funext name
        simp [retagged, henabled]
      rw [hsame]
      exact ih hrow (by simpa [henabled] using hrun)
    | true =>
      cases hrule : classifier.definition.rules.find?
          (ruleMatches lib now (.fromLustre filesystem entry)) with
      | none =>
        have hsame : retagged lib (.fromLustre filesystem entry) (classifier, now) (tagAt row.smStatus) =
            tagAt row.smStatus := by
          funext name
          simp [retagged, firstRule, henabled, hrule]
        rw [hsame]
        exact ih hrow (by simpa [henabled, hrule] using hrun)
      | some rule =>
        simp only [henabled, hrule, if_true, Option.map_some] at hrun
        obtain ⟨b, d, hupdate, hrest⟩ := Proc.run_bind_eq_ok.1 hrun
        obtain ⟨status, rfl, htags⟩ := run_updateScopedXattr_ok hrow hupdate
        have hrow' : (c.putRow (.lustre entry.fid) { row with smStatus := status }).scopedEntry
            ⟨filesystem, .lustre entry.fid⟩ = .ok (some { row with smStatus := status }) :=
          scopedEntry_eq_some.2 ⟨by rw [Catalog.row_putRow, if_pos rfl], (scopedEntry_eq_some.1 hrow).2⟩
        have hnow : retagged lib (.fromLustre filesystem entry) (classifier, now) (tagAt row.smStatus) =
            tagAt status := by
          funext name
          rw [retagged_of_rule lib (k := (classifier, now)) henabled hrule, htags]
          cases rule.set[name]? <;> rfl
        rw [hnow]
        exact ih hrow' hrest

def entryTag (c : Catalog) (filesystem : FileSystemId) (fid : LuFid) (name : String) : Option Json :=
  match c.scopedEntry ⟨filesystem, .lustre fid⟩ with
  | .ok (some row) => tagAt row.smStatus name
  | _ => none

theorem entryTag_eq {fid : LuFid} (hrow : c.scopedEntry ⟨filesystem, .lustre fid⟩ = .ok (some row)) :
    entryTag c filesystem fid = tagAt row.smStatus := by
  funext name
  rw [entryTag, hrow]

/-- **When classification leaves exactly the current tags.**  On a row that is there, with tags managed
disjointly, every managed tag is what the first rule that holds gives it, and absent when that rule does not
set it or when no rule holds, exactly when no classifier without such a rule had one of its tags on the
entry before. -/
theorem applyClassifiers_leaves_current_iff
    (hrow : c.scopedEntry ⟨filesystem, .lustre entry.fid⟩ = .ok (some row))
    (hdisjoint : DisjointlyManaged ks) (hset : ∀ k ∈ ks, SetsOnlyManaged k.1)
    (hrun : (applyClassifiers lib filesystem entry ks).run c = (.ok (), c')) :
    (∀ k ∈ ks, k.1.enabled → ∀ name ∈ k.1.definition.manages,
        entryTag c' filesystem entry.fid name =
          ((firstRule lib k.2 (.fromLustre filesystem entry) k.1.definition).bind
            (·.set[name]?)).map .str) ↔
      ∀ k ∈ ks, k.1.enabled →
        (∀ rule ∈ k.1.definition.rules, ruleMatches lib k.2 (.fromLustre filesystem entry) rule = .false) →
        ∀ name ∈ k.1.definition.manages, tagAt row.smStatus name = none := by
  obtain ⟨row', hrow', htags⟩ := run_applyClassifiers_ok hrow hrun
  rw [entryTag_eq hrow', htags]
  refine forall₂_congr fun k hk => forall_congr' fun henabled => ?_
  have hafter := fun name hname =>
    @foldl_retagged_of_mem lib (.fromLustre filesystem entry) k ks (tagAt row.smStatus) name hset hdisjoint
      hk henabled hname
  cases hrule : firstRule lib k.2 (.fromLustre filesystem entry) k.1.definition with
  | none =>
    have hnone : ∀ rule ∈ k.1.definition.rules,
        ruleMatches lib k.2 (.fromLustre filesystem entry) rule = .false := by
      simpa [firstRule] using hrule
    rw [hrule] at hafter
    constructor
    · intro hcurrent _ name hname
      exact (hafter name hname).symm.trans (hcurrent name hname)
    · intro hclean name hname
      exact (hafter name hname).trans (hclean hnone name hname)
  | some rule =>
    have hmatch := List.find?_some hrule
    rw [hrule] at hafter
    refine iff_of_true (fun name hname => hafter name hname) fun hnone => ?_
    rw [hnone rule (List.mem_of_find?_eq_some hrule)] at hmatch
    cases hmatch

end Runs

/-! ## §5 — a tag that stays -/

open Store.Sample (lustre file)

namespace Sample

/-- The classifier `cold`: files over a gigabyte get the tag. -/
def cold : ClassifierRow where
  definition := ⟨["tier"], [⟨some "size > 1GB", (∅ : TagMap).insert "tier" "cold"⟩]⟩
  enabled := .true

/-- A small file which was large when it was classified before. -/
def shrunk : EntryRow :=
  { file 5 [97] with smStatus := .obj [("xattr", .obj [("tier", .str "cold")])] }

def large : EntryRow := { file 5 [97] with size := 2147483648 }

def only (entry : EntryRow) : Catalog :=
  Store.Sample.empty.putRow (.lustre entry.fid) (.fromLustre lustre entry)

/-- A library in which letters of ASCII have their other case, and nothing else is needed. -/
def ascii : TextLibrary where
  toLowercase := String.toLower
  toUppercase := String.toUpper
  isMatch _ _ := none

theorem cold_setsOnlyManaged : SetsOnlyManaged cold := by
  intro _ rule hrule name hname
  obtain rfl := List.mem_singleton.1 hrule
  by_contra hother
  have hne : name ≠ "tier" := by simpa [cold] using hother
  simp [hne.symm] at hname

end Sample

/-- On a large file without tags the classifier leaves what its rule says. -/
theorem large_gets_current_tags :
    SetsOnlyManaged Sample.cold ∧
      ∀ k ∈ [(Sample.cold, (0 : Int64))], k.1.enabled → ∀ name ∈ k.1.definition.manages,
      entryTag ((applyClassifiers Sample.ascii lustre Sample.large [(Sample.cold, 0)]).run
          (Sample.only Sample.large)).2 lustre Sample.large.fid name =
        ((firstRule Sample.ascii k.2 (.fromLustre lustre Sample.large) k.1.definition).bind
          (·.set[name]?)).map .str := by
  have hrow : (Sample.only Sample.large).scopedEntry ⟨lustre, .lustre Sample.large.fid⟩ =
      .ok (some (.fromLustre lustre Sample.large)) := by decide +kernel
  have hok : ((applyClassifiers Sample.ascii lustre Sample.large [(Sample.cold, 0)]).run
      (Sample.only Sample.large)).1 = .ok () := by decide +kernel
  refine ⟨Sample.cold_setsOnlyManaged, (applyClassifiers_leaves_current_iff hrow
    (List.pairwise_singleton _ _) ?_ (Prod.ext hok rfl)).2 ?_⟩
  · intro k hk
    obtain rfl := List.mem_singleton.1 hk
    exact Sample.cold_setsOnlyManaged
  · intro k hk _ _ name _
    rfl

/-- The small file keeps the tag `cold`: no rule holds of it any more, and nothing is cleared. -/
theorem shrunk_keeps_cold :
    SetsOnlyManaged Sample.cold ∧
      (applyClassifiers Sample.ascii lustre Sample.shrunk [(Sample.cold, 0)]).run
          (Sample.only Sample.shrunk) = (.ok (), Sample.only Sample.shrunk) ∧
      firstRule Sample.ascii 0 (.fromLustre lustre Sample.shrunk) Sample.cold.definition = none ∧
      entryTag (Sample.only Sample.shrunk) lustre Sample.shrunk.fid "tier" = some (.str "cold") := by
  refine ⟨Sample.cold_setsOnlyManaged, ?_, ?_, ?_⟩ <;> decide +kernel

end Robinhood.Policy
